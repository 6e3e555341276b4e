import LootFilter.Assoc
import LootFilter.Disk.Path

/-
  This file defines a tree of files and folders, and reading,
  writing, copying and renaming in it.

  Places in the tree are locations, which hold names only.  A
  path is followed to a location step by step, and every step
  starts from a folder that exists.

  Key definitions include:
    * `IoError`
    * `Location`
    * `Node`
    * `Disk`
    * `Disk.locate`
    * `Disk.read`
    * `Transfer`
    * `Disk.write`
    * `Disk.copy`
    * `Disk.rename`
    * `Disk.below`
-/

namespace LootFilter

------------------------------------------------------------
-- Errors
------------------------------------------------------------

/- Why a file operation fails. -/
inductive IoError where
| notFound
| notFolder
| isFolder
| notEmpty
| busy
| nulInName
| nameTooLong
| notRegular
| notUtf8
| denied
| noSpace
| broken
deriving DecidableEq, Repr

/- The wording of the reason. -/
def IoError.message : IoError → String
| .notFound => "No such file or directory (os error 2)"
| .notFolder => "Not a directory (os error 20)"
| .isFolder => "Is a directory (os error 21)"
| .notEmpty => "Directory not empty (os error 39)"
| .busy => "Device or resource busy (os error 16)"
| .nulInName =>
    "file name contained an unexpected NUL byte"
| .nameTooLong => "File name too long (os error 36)"
| .notRegular =>
    "the source path is neither a regular file nor a " ++
      "symlink to a regular file"
| .notUtf8 => "stream did not contain valid UTF-8"
| .denied => "Permission denied (os error 13)"
| .noSpace => "No space left on device (os error 28)"
| .broken => "Input/output error (os error 5)"

------------------------------------------------------------
-- Trees
------------------------------------------------------------

/- A place in the tree: the names from the root to it. -/
abbrev Location :=
  List String

/- The order of names: by their characters. -/
def nameLt (a b : String) : Bool :=
  a.toList.lex b.toList (fun c d => c.toNat < d.toNat)

/- The order of locations: by their names, a shorter first. -/
def Location.le (a b : Location) : Bool :=
  !b.lex a nameLt

/- What stands at a place. -/
inductive Node where
| file (bytes : ByteArray)
| folder

/- Files are equal if their bytes are. -/
instance : DecidableEq Node
| .file a, .file b =>
    match decEq a.data b.data with
    | isTrue h =>
        isTrue (by cases a; cases b; cases h; rfl)
    | isFalse h =>
        isFalse (fun hEq => h (by cases hEq; rfl))
| .file _, .folder => isFalse (fun h => by cases h)
| .folder, .file _ => isFalse (fun h => by cases h)
| .folder, .folder => isTrue rfl

/-
  The places that are taken, and the folder where relative
  paths start.  The root is always a folder.
-/
structure Disk where
  nodes : Assoc Location Node
  home : Location
deriving DecidableEq

namespace Disk

/- The tree with nothing below its root. -/
def empty : Disk :=
  ⟨[], []⟩

instance : Inhabited Disk := ⟨empty⟩

/- What stands at a location. -/
def node? (d : Disk) (l : Location) : Option Node :=
  if l = [] then some .folder else Assoc.find? l d.nodes

/- Put something at a location. -/
def put (d : Disk) (l : Location) (n : Node) : Disk :=
  { d with nodes := Assoc.set l n d.nodes }

/- Take away what stands at a location, and all below it. -/
def take (d : Disk) (l : Location) : Disk :=
  let kept :=
    d.nodes.filter (fun entry => !l.isPrefixOf entry.1)
  { d with nodes := kept }

/- The names from one location down to another below it. -/
def relative? : Location → Location → Option Location
| [], l => some l
| _ :: _, [] => none
| a :: as, b :: bs => if a = b then relative? as bs else none

/-
  Everything below a location, by the names that lead to it,
  in the order of those names.  So a folder comes before what
  is in it, and what is in it before its next neighbour.
-/
def below
    (d : Disk)
    (l : Location) : List (Location × Node) :=
  let found := d.nodes.filterMap fun (place, n) =>
    match relative? l place with
    | none => none
    | some [] => none
    | some (name :: names) => some (name :: names, n)
  found.mergeSort (fun a b => Location.le a.1 b.1)

------------------------------------------------------------
-- Following paths
------------------------------------------------------------

/- The greatest number of bytes in a name. -/
def maxNameBytes : Nat :=
  255

/- The greatest number of bytes in the text of a path. -/
def maxPathBytes : Nat :=
  4095

/-
  Follow the segments of a path from a location.  Each step
  needs a folder to start from; the last step may lead to a
  place that is free.
-/
def follow
    (d : Disk) :
    Location →
    List String →
    Except IoError Location
| l, [] => .ok l
| l, segment :: rest =>
    match d.node? l with
    | none => .error .notFound
    | some (.file _) => .error .notFolder
    | some .folder =>
        if segment = "" ∨ segment = "." then follow d l rest
        else if segment = ".." then follow d l.dropLast rest
        else if maxNameBytes < segment.utf8ByteSize then
          .error .nameTooLong
        else follow d (l ++ [segment]) rest

/- Where a path starts. -/
def start (d : Disk) (p : Path) : Location :=
  if p.IsAbsolute then [] else d.home

/-
  The location that a path leads to.  Its text is looked at
  as a whole before any of it is followed.
-/
def locate
    (d : Disk)
    (p : Path) : Except IoError Location :=
  if p.segments.any (fun s => s.toList.contains '\x00') then
    .error .nulInName
  else if maxPathBytes < p.text.utf8ByteSize then
    .error .nameTooLong
  else if p.segments = [] ∨ p.segments = [""] then
    .error .notFound
  else
    d.follow (d.start p) p.segments

/- What stands at the end of a path. -/
def lookup
    (d : Disk)
    (p : Path) : Except IoError Node := do
  let l ← d.locate p
  match d.node? l with
  | none => .error .notFound
  | some n => .ok n

/- Whether anything stands at the end of a path. -/
def hasNode (d : Disk) (p : Path) : Bool :=
  match d.lookup p with
  | .ok _ => true
  | .error _ => false

/- Whether a file stands at the end of a path. -/
def hasFile (d : Disk) (p : Path) : Bool :=
  match d.lookup p with
  | .ok (.file _) => true
  | _ => false

/- Whether a folder stands at the end of a path. -/
def hasFolder (d : Disk) (p : Path) : Bool :=
  match d.lookup p with
  | .ok .folder => true
  | _ => false

------------------------------------------------------------
-- Files
------------------------------------------------------------

/- The bytes of a file. -/
def read
    (d : Disk)
    (p : Path) : Except IoError ByteArray := do
  match ← d.lookup p with
  | .file bytes => .ok bytes
  | .folder => .error .isFolder

end Disk

/-
  What becomes of bytes that are sent to a file.  Opening the
  file empties it, so a transfer that stops on the way leaves
  neither what was there nor what was sent.
-/
inductive Transfer where
| whole
| refused (e : IoError)
| stopped (e : IoError) (left : ByteArray)

namespace Disk

/- Send bytes to a location. -/
def send
    (d : Disk)
    (l : Location)
    (bytes : ByteArray) : Transfer → Disk × Option IoError
| .whole => (d.put l (.file bytes), none)
| .refused e => (d, some e)
| .stopped e left => (d.put l (.file left), some e)

/-
  Give a file new bytes, creating it if its place is free.  The
  tree is also given if that fails.
-/
def write
    (t : Transfer)
    (d : Disk)
    (p : Path)
    (bytes : ByteArray) : Disk × Option IoError :=
  match d.locate p with
  | .error e => (d, some e)
  | .ok l =>
      match d.node? l with
      | some .folder => (d, some .isFolder)
      | _ => d.send l bytes t

/- Copy a file. -/
def copy
    (t : Transfer)
    (d : Disk)
    (source target : Path) : Disk × Option IoError :=
  match d.lookup source with
  | .error e => (d, some e)
  | .ok .folder => (d, some .notRegular)
  | .ok (.file bytes) => d.write t target bytes

------------------------------------------------------------
-- Moving
------------------------------------------------------------

/- Whether a path ends in a name of its own. -/
def endsInName (p : Path) : Bool :=
  match p.segments.getLast? with
  | none => false
  | some name => name != "" && name != "." && name != ".."

/- The tree with everything at one location moved to another. -/
def relocate (d : Disk) (source target : Location) : Disk :=
  let moved :=
    (d.take target).nodes.map fun (place, n) =>
      match relative? source place with
      | none => (place, n)
      | some names => (target ++ names, n)
  { d with nodes := moved }

/-
  Move a file or folder.  A file may take the place of a file,
  and a folder that of an empty folder.
-/
def rename
    (d : Disk)
    (source target : Path) : Except IoError Disk := do
  let s ← d.locate source
  let t ← d.locate target
  if !endsInName source || !endsInName target then
    .error .busy
  else
    match d.node? s with
    | none => .error .notFound
    | some moved =>
        if s = t then
          .ok d
        else
          match moved, d.node? t with
          | _, none => .ok (d.relocate s t)
          | .file _, some (.file _) => .ok (d.relocate s t)
          | .file _, some .folder => .error .isFolder
          | .folder, some (.file _) => .error .notFolder
          | .folder, some .folder =>
              if (d.below t).isEmpty then
                .ok (d.relocate s t)
              else
                .error .notEmpty

------------------------------------------------------------
-- Setting up trees
------------------------------------------------------------

/-
  Make the folders that lead to a location, as far as they are
  missing.  A file in the way is an error.
-/
def makeFolders
    (d : Disk) :
    Location → List String → Except IoError Disk
| _, [] => .ok d
| l, name :: names =>
    match d.node? (l ++ [name]) with
    | some .folder => makeFolders d (l ++ [name]) names
    | some (.file _) => .error .notFolder
    | none =>
        makeFolders (d.put (l ++ [name]) .folder)
          (l ++ [name]) names

/- Put a file at a location, making the folders above it. -/
def install
    (d : Disk)
    (l : Location)
    (bytes : ByteArray) : Except IoError Disk := do
  let ready ← d.makeFolders [] l.dropLast
  match ready.node? l with
  | some .folder => .error .isFolder
  | _ => .ok (ready.put l (.file bytes))

/- Take away a file or folder that is there. -/
def delete
    (d : Disk)
    (l : Location) : Except IoError Disk :=
  match d.node? l with
  | none => .error .notFound
  | some _ => .ok (d.take l)

/- The files of a tree. -/
def files (d : Disk) : List (Location × ByteArray) :=
  d.nodes.filterMap fun (l, n) =>
    match n with
    | .file bytes => some (l, bytes)
    | .folder => none

end Disk

end LootFilter
