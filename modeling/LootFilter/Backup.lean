import LootFilter.DataFile

/-
  This file writes data files so that they can be brought
  back as they were.

  Before a file is first written, a copy of it is put next to
  it under its name with a suffix.  Restoring moves every such
  copy back over its file.

  Key definitions include:
    * `WriteError`
    * `Device`
    * `Backup.writeFile`
    * `Backup.writeFiles`
    * `Backup.candidates`
    * `Backup.restoreAll`
-/

namespace LootFilter

------------------------------------------------------------
-- Errors
------------------------------------------------------------

/- Why a file cannot be staged, written or restored. -/
inductive WriteError where
| io (path : Path) (e : IoError)
| invalidJson (path : Path) (e : Json.Fault)
| noAsset (base : String)
| malformedAsset (path : Path) (reason : String)
| unlisted (path : Path) (e : IoError)
deriving DecidableEq, Repr

namespace WriteError

/- The wording of the reason. -/
def message : WriteError → String
| .io path e =>
    "failed to access " ++ path.text ++ ": " ++ e.message
| .invalidJson path _ => "invalid JSON in " ++ path.text
| .noAsset base =>
    "base type '" ++ base ++ "' has no visual asset"
| .malformedAsset path reason =>
    "malformed asset " ++ path.text ++ ": " ++ reason
| .unlisted path e =>
    "attempting to read `" ++ path.text ++
      "` resulted in an error: " ++ e.message

/- What lies behind the reason, for a line of the log. -/
def causes : WriteError → List String
| .io _ e => [e.message]
| _ => []

end WriteError

/-
  What became of a list of steps that ends with the first
  failure: the tree afterwards, what the steps before the
  failure were done to, and the failure.
-/
structure Progress where
  disk : Disk
  done : List Path
  failure : Option WriteError
deriving DecidableEq

/- The paths that were done, unless a step failed. -/
def Progress.result
    (r : Progress) : Except WriteError (List Path) :=
  match r.failure with
  | none => .ok r.done
  | some e => .error e

------------------------------------------------------------
-- Devices
------------------------------------------------------------

/-
  How a system treats files that are written one after the
  other: what becomes of copying and of writing each of them,
  by its number and its path.
-/
structure Device where
  copying : Nat → Path → Transfer
  writing : Nat → Path → Transfer

namespace Device

/- Nothing gets in the way. -/
def sound : Device :=
  ⟨fun _ _ => .whole, fun _ _ => .whole⟩

/- How the files after the first are treated. -/
def next (device : Device) : Device :=
  ⟨fun i => device.copying (i + 1),
    fun i => device.writing (i + 1)⟩

end Device

namespace Backup

------------------------------------------------------------
-- Writing
------------------------------------------------------------

/-
  See to it that a copy of a file is next to it.  A copy that
  is there already is older than any change and stays.
-/
def keepPristine
    (t : Transfer)
    (d : Disk)
    (p : Path) : Disk × Option IoError :=
  if d.hasNode (DataFile.backup p) then
    (d, none)
  else
    d.copy t p (DataFile.backup p)

/-
  Write a document over a file, keeping the file as it was at
  first.  The tree is also given when that fails.
-/
def writeFile
    (copying writing : Transfer)
    (d : Disk)
    (p : Path)
    (v : Json.Value) : Disk × Option WriteError :=
  match keepPristine copying d p with
  | (kept, some e) => (kept, some (.io p e))
  | (kept, none) =>
      match DataFile.writeJson writing kept p v with
      | (written, some e) => (written, some (.io p e))
      | (written, none) => (written, none)

/- Write documents over files, one after the other. -/
def writeFiles
    (device : Device)
    (d : Disk) :
    List (Path × Json.Value) → Progress
| [] => ⟨d, [], none⟩
| (p, v) :: rest =>
    match writeFile (device.copying 0 p) (device.writing 0 p)
        d p v with
    | (next, some e) => ⟨next, [], some e⟩
    | (next, none) =>
        let r := writeFiles device.next next rest
        { r with done := p :: r.done }

------------------------------------------------------------
-- Restoring
------------------------------------------------------------

/- The folders of the data directory that may be written to. -/
def roots : List String :=
  ["local", "hd"]

/- Whether a name is that of a copy. -/
def isBackupName (name : String) : Bool :=
  DataFile.backupSuffix.toList.isSuffixOf name.toList

/-
  The name that a copy gets back.  The suffix alone is a name
  without an ending, and stays.
-/
def restoredName (name : String) : String :=
  if name = DataFile.backupSuffix then
    name
  else
    String.ofList
      (name.toList.take
        (name.toList.length -
          DataFile.backupSuffix.toList.length))

/-
  The folder that a path names, spelled without repeated and
  final slashes, and without dots in front.  Nothing is looked
  for if a slash follows such a dot at once.
-/
def searched? (p : Path) : Option Path :=
  if p.IsAbsolute then
    some ⟨"" :: p.segments.filter (· ≠ "")⟩
  else
    match p.segments.dropWhile (· = ".") with
    | "" :: _ => none
    | segments => some ⟨segments.filter (· ≠ "")⟩

/-
  What restoring looks at below one root: the path and kind of
  everything there, folders before what is in them.
-/
def candidates
    (d : Disk)
    (dir : Path)
    (root : String) : List (Path × Node) :=
  match searched? ⟨dir.segments ++ [root]⟩ with
  | none => []
  | some top =>
      match d.locate top with
      | .error _ => []
      | .ok l =>
          if d.node? l = some .folder then
            (d.below l).map fun (names, n) =>
              (⟨top.segments ++ names⟩, n)
          else
            []

/-
  Restore one candidate, if its name is that of a copy.  The
  result holds the restored path.
-/
def restoreOne
    (d : Disk)
    (p : Path) : Except WriteError (Disk × Option Path) :=
  if isBackupName (p.segments.getLast?.getD "") then
    let target := p.mapName restoredName
    match d.rename p target with
    | .error e => .error (.io p e)
    | .ok moved => .ok (moved, some target)
  else
    .ok (d, none)

/-
  Whether a candidate that is a folder can still be listed.  A
  folder above it may have been moved meanwhile.
-/
def listing
    (d : Disk)
    (p : Path)
    (n : Node) : Option IoError :=
  match n with
  | .file _ => none
  | .folder =>
      match d.lookup p with
      | .error e => some e
      | .ok _ => none

/- Restore candidates, one after the other. -/
def restoreEach
    (d : Disk) :
    List (Path × Node) → Progress
| [] => ⟨d, [], none⟩
| (p, n) :: rest =>
    match restoreOne d p, listing d p n with
    | .error e, _ => ⟨d, [], some e⟩
    | .ok (next, restored), some e =>
        ⟨next, restored.toList, some (.unlisted p e)⟩
    | .ok (next, restored), none =>
        let r := restoreEach next rest
        { r with done := restored.toList ++ r.done }

/- Restore everything below the given roots, in their order. -/
def restoreRoots
    (d : Disk)
    (dir : Path) : List String → Progress
| [] => ⟨d, [], none⟩
| root :: rest =>
    let first := restoreEach d (candidates d dir root)
    match first.failure with
    | some _ => first
    | none =>
        let r := restoreRoots first.disk dir rest
        { r with done := first.done ++ r.done }

/- Restore every copy below the data directory. -/
def restoreAll (d : Disk) (dir : Path) : Progress :=
  restoreRoots d dir roots

end Backup

end LootFilter
