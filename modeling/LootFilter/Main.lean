import Std.Data.HashMap
import LootFilter.CommandLine

/-
  This file runs the program on the files of the machine.

  What matters of them is loaded into a tree, the arguments
  are answered on that tree, and what the answer changed is
  written back: first what is new, then what is gone.

  Key definitions include:
    * `CommandLine.loadPath`
    * `CommandLine.loadBelow`
    * `CommandLine.load`
    * `CommandLine.store`
    * `main`
-/

namespace LootFilter.CommandLine

------------------------------------------------------------
-- Looking at the machine
------------------------------------------------------------

/- The absolute path of a location. -/
def place (l : Location) : String :=
  "/" ++ "/".intercalate l

/- The bytes of a file, if there is one. -/
def readFile? (l : Location) : IO (Option ByteArray) := do
  match ← (IO.FS.readBinFile (place l)).toBaseIO with
  | .ok bytes => return some bytes
  | .error _ => return none

/- The names in a folder, if there is one. -/
def readFolder? (l : Location) : IO (Option (List String)) := do
  let listing : IO (List String) := do
    let folder ← IO.FS.realPath (place l)
    return (← folder.readDir).toList.map (·.fileName)
  match ← listing.toBaseIO with
  | .ok names => return some names
  | .error _ => return none

------------------------------------------------------------
-- Loading
------------------------------------------------------------

/- Load what stands at one location. -/
def loadPlace (disk : Disk) (l : Location) : IO Disk := do
  match ← readFolder? l with
  | some _ => return disk.put l .folder
  | none =>
      match ← readFile? l with
      | some bytes => return disk.put l (.file bytes)
      | none => return disk

/- The location one step on. -/
def advance (l : Location) (segment : String) : Location :=
  if segment = "" ∨ segment = "." then l
  else if segment = ".." then l.dropLast
  else l ++ [segment]

/- Load what stands along a path. -/
def loadPath (disk : Disk) (p : Path) : IO Disk := do
  let (loaded, _) ← p.segments.foldlM
    (fun (disk, l) segment => do
      let next := advance l segment
      return (← loadPlace disk next, next))
    (disk, disk.start p)
  return loaded

/- How many folders deep files are looked for. -/
def maxFolderDepth : Nat :=
  64

/- Whether a name is that of a document. -/
def isDocumentName (name : String) : Bool :=
  ".json".toList.isSuffixOf name.toList

/-
  Load what matters below a location on top of what was found
  before: copies and what stands in their place, with all that
  is in them, and the documents of some folders.
-/
def loadBelow
    (documentFolders : List Location) :
    Nat →
    Bool →
    Location →
    List (Location × Node) →
    IO (List (Location × Node))
| 0, _, _, found => return found
| depth + 1, whole, l, found => do
    let names := (← readFolder? l).getD []
    let hasDocuments := documentFolders.any (·.isPrefixOf l)
    names.foldlM
      (fun found name => do
        let inner := l ++ [name]
        let wanted :=
          whole || Backup.isBackupName name ||
            names.contains (name ++ DataFile.backupSuffix)
        match ← readFolder? inner with
        | some _ =>
            let more ←
              loadBelow documentFolders depth wanted inner found
            if wanted || found.length < more.length then
              return (inner, .folder) :: more
            else
              return found
        | none =>
            if wanted || hasDocuments && isDocumentName name then
              match ← readFile? inner with
              | some bytes => return (inner, .file bytes) :: found
              | none => return found
            else
              return found)
      found

/- The tree with further places, unless it has them. -/
def addPlaces
    (disk : Disk)
    (found : List (Location × Node)) : Disk :=
  let known :=
    disk.nodes.filter fun (l, _) =>
      !(found.any fun (other, _) => other = l)
  { disk with nodes := known ++ found }

/- The part of the machine's files that a run may look at. -/
def load (options : Options) : IO Disk := do
  let home := Path.ofText (← IO.currentDir).toString
  let disk ← loadPath Disk.empty home
  let disk : Disk :=
    { disk with home := home.segments.filter (· ≠ "") }
  let dir := Path.ofText options.dir
  let locate (p : Path) : Location :=
    p.segments.foldl advance (disk.start p)
  let documentFolders :=
    [DataFile.itemNames dir, DataFile.assetIndex dir].map
      fun p => (locate p).dropLast
  let disk ←
    [ Path.ofText options.filter, DataFile.armorTable dir,
      DataFile.miscTable dir ].foldlM loadPath disk
  Backup.roots.foldlM
    (fun disk root => do
      let top := dir.below [root]
      let found ←
        loadBelow documentFolders maxFolderDepth false
          (locate top) []
      return addPlaces (← loadPath disk top) found)
    disk

------------------------------------------------------------
-- Writing back
------------------------------------------------------------

/- Write back what differs between two trees. -/
def store (before after : Disk) : IO Unit := do
  let was := Std.HashMap.ofList before.nodes
  let is := Std.HashMap.ofList after.nodes
  for (l, n) in after.nodes do
    if was[l]? ≠ some n then
      match n with
      | .folder => IO.FS.createDirAll (place l)
      | .file bytes =>
          IO.FS.createDirAll (place l.dropLast)
          IO.FS.writeBinFile (place l) bytes
  let gone := before.nodes.filter fun (l, _) => !is.contains l
  let deepestFirst :=
    gone.mergeSort fun a b => b.1.length ≤ a.1.length
  for (l, n) in deepestFirst do
    match n with
    | .folder => IO.FS.removeDir (place l)
    | .file _ => IO.FS.removeFile (place l)

/- Run on the machine's files what the arguments ask for. -/
def answerOnFiles (args : List String) : IO Reply := do
  let named ← IO.getEnv "RUST_LOG"
  let threshold := named.bind Threshold.ofName?
  match Request.ofArguments args with
  | .run options =>
      let disk ← load options
      let reply := answer Device.sound disk threshold args
      store disk reply.disk
      return reply
  | _ => return answer Device.sound Disk.empty threshold args

end LootFilter.CommandLine

/- Answer the arguments of the program. -/
def main (args : List String) : IO UInt32 := do
  let reply ← LootFilter.CommandLine.answerOnFiles args
  for line in reply.lines do
    IO.println line
  if reply.code = 2 then
    IO.eprintln
      "Usage: d2lootfilter [OPTIONS] <FILTER> <DATA_DIR>"
  return reply.code.toUInt32
