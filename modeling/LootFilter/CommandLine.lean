import LootFilter.Catalog.Load
import LootFilter.Filter
import LootFilter.Log
import LootFilter.Writer

/-
  This file defines what the program does for a list of
  arguments: undo earlier runs, then check or apply a filter.
  A run is a function from one tree of files to another, with
  the events that it reports.

  Key definitions include:
    * `Options`
    * `Request`
    * `Request.ofArguments`
    * `Run`
    * `Options.execute`
    * `Reply`
    * `answer`
-/

namespace LootFilter.CommandLine

------------------------------------------------------------
-- Arguments
------------------------------------------------------------

/- What a run is asked to do. -/
structure Options where
  filter : String
  dir : String
  check : Bool
  verbosity : Nat
deriving DecidableEq, Repr

/- What a list of arguments asks for. -/
inductive Request where
| run (options : Options)
| version
| help
| refused
deriving DecidableEq, Repr

/-
  The arguments read so far.  `verbatim` is set once no
  argument is an option any more.
-/
structure Reading where
  values : List String
  check : Bool
  verbosity : Nat
  verbatim : Bool
deriving DecidableEq, Repr

namespace Request

/- No argument has been read. -/
def start : Reading :=
  ⟨[], false, 0, false⟩

/- What a single argument leads to: reading on, or an end. -/
inductive Step where
| next (r : Reading)
| stop (request : Request)
deriving DecidableEq, Repr

/-
  Read a value.  There are two, the filter and the data
  directory, and the directory must not be empty.
-/
def readValue (r : Reading) (value : String) : Step :=
  match r.values with
  | [] => .next { r with values := [value] }
  | [filter] =>
      if value = "" then
        .stop .refused
      else
        .next { r with values := [filter, value] }
  | _ => .stop .refused

/- Read a long option. -/
def readLong (r : Reading) (option : String) : Step :=
  if option = "--check" then
    if r.check then
      .stop .refused
    else
      .next { r with check := true }
  else if option = "--verbose" then
    .next { r with verbosity := r.verbosity + 1 }
  else if option = "--version" then .stop .version
  else if option = "--help" then .stop .help
  else .stop .refused

/- Read the letters of short options, one after the other. -/
def readShort (r : Reading) : List Char → Step
| [] => .next r
| c :: cs =>
    if c = 'v' then
      readShort { r with verbosity := r.verbosity + 1 } cs
    else if c = 'V' then .stop .version
    else if c = 'h' then .stop .help
    else .stop .refused

/- Read one argument. -/
def readArgument (r : Reading) (arg : String) : Step :=
  if r.verbatim then
    readValue r arg
  else
    match arg.toList with
    | ['-', '-'] => .next { r with verbatim := true }
    | '-' :: '-' :: _ => readLong r arg
    | '-' :: c :: cs => readShort r (c :: cs)
    | _ => readValue r arg

/- What the arguments that are left ask for. -/
def read (r : Reading) : List String → Request
| [] =>
    match r.values with
    | [filter, dir] => .run ⟨filter, dir, r.check, r.verbosity⟩
    | _ => .refused
| arg :: args =>
    match readArgument r arg with
    | .stop request => request
    | .next r => read r args

/- What a list of arguments asks for. -/
def ofArguments (args : List String) : Request :=
  read start args

end Request

------------------------------------------------------------
-- Runs
------------------------------------------------------------

/-
  A finished run: the tree afterwards, what was reported, and
  the failure that ended it, if any, as a chain of texts.
-/
structure Run where
  disk : Disk
  events : List Event
  failure : Option (List String)
deriving DecidableEq

namespace Run

/- The run with events before its own. -/
def after (events : List Event) (r : Run) : Run :=
  { r with events := events ++ r.events }

/- The run as a whole reports its failure last. -/
def allEvents (r : Run) : List Event :=
  match r.failure with
  | none => r.events
  | some texts => r.events ++ [.failed texts]

/- The exit code of a run. -/
def code (r : Run) : Nat :=
  match r.failure with
  | none => 0
  | some _ => 1

end Run

/- Write a filter's rules to the data files. -/
def applyFilter
    (device : Device)
    (disk : Disk)
    (dir : Path)
    (catalog : Catalog)
    (filter : Filter) : Run :=
  let (writer, failure) :=
    (Writer.new dir catalog).writeAll disk filter.rules
  let missing := writer.staging.unmatched.map Event.rowMissing
  match failure with
  | some e => ⟨disk, missing, some (e.message :: e.causes)⟩
  | none =>
      let r := writer.finish device disk
      let written := missing ++ r.done.map Event.written
      match r.failure with
      | some e =>
          ⟨r.disk, written, some (e.message :: e.causes)⟩
      | none =>
          ⟨r.disk, written ++ [.applied filter r.done.length],
            none⟩

/- Read a filter, then list its rules or apply it. -/
def useFilter
    (device : Device)
    (disk : Disk)
    (options : Options)
    (catalog : Catalog) : Run :=
  let path := Path.ofText options.filter
  let context := "invalid filter " ++ options.filter
  match DataFile.readText disk path with
  | .error e => ⟨disk, [], some [context, e.message]⟩
  | .ok source =>
      let resolved :=
        (catalog.resolvedRules source).map Event.ruleResolved
      match Filter.ofSource catalog source with
      | .error e => ⟨disk, resolved, some [context, e.message]⟩
      | .ok filter =>
          let known := resolved ++ [.filterRead filter path]
          if options.check then
            ⟨disk, known ++ filter.rules.map Event.ruleChecked,
              none⟩
          else
            (applyFilter device disk (Path.ofText options.dir)
              catalog filter).after known

/- Load the catalog, then use the filter. -/
def loadAndUse
    (device : Device)
    (disk : Disk)
    (options : Options) : Run :=
  let dir := Path.ofText options.dir
  let skipped :=
    (Catalog.codelessRows disk dir).map Event.codelessRow
  match Catalog.load disk dir with
  | .error e => ⟨disk, skipped, some (e.message :: e.causes)⟩
  | .ok catalog =>
      let loaded : Event :=
        .catalogLoaded dir catalog.names.length
          catalog.runes.length catalog.assets.length
      (useFilter device disk options catalog).after
        (skipped ++ [loaded])

/- The word in place of a filter that only undoes runs. -/
def removeWord : String :=
  "remove"

/- What is done once earlier runs are undone. -/
def proceed
    (device : Device)
    (disk : Disk)
    (options : Options) : Run :=
  if options.filter = removeWord then
    ⟨disk, [], none⟩
  else
    loadAndUse device disk options

/-
  Do what is asked for.  Earlier runs are undone first, unless
  the filter is only checked.
-/
def Options.execute
    (options : Options)
    (device : Device)
    (disk : Disk) : Run :=
  if options.check then
    proceed device disk options
  else
    let r := Backup.restoreAll disk (Path.ofText options.dir)
    let restored := r.done.map Event.restored
    match r.failure with
    | some e =>
        ⟨r.disk, restored,
          some ("failed to remove previous rules" ::
            e.message :: e.causes)⟩
    | none =>
        (proceed device r.disk options).after
          (restored ++ [.restoredCount r.done.length])

------------------------------------------------------------
-- Replies
------------------------------------------------------------

/- What the caller of the program sees. -/
structure Reply where
  disk : Disk
  code : Nat
  lines : List String
deriving DecidableEq

/- The name and version of the program. -/
def versionLine : String :=
  "d2lootfilter 0.1.0"

/- How the program is used. -/
def helpLines : List String :=
  [ "Apply a loot filter to a game data directory",
    "",
    "Usage: d2lootfilter [OPTIONS] <FILTER> <DATA_DIR>",
    "",
    "Arguments:",
    "  <FILTER>    Filter file to apply, or `remove` to " ++
      "restore the original data files",
    "  <DATA_DIR>  Game data directory (the one containing " ++
      "`local/`, `global/` and `hd/`)",
    "",
    "Options:",
    "      --check       Parse, evaluate and validate the " ++
      "filter without touching any file",
    "  -v, --verbose...  Increase log verbosity (-v debug, " ++
      "-vv trace)",
    "  -h, --help        Print help",
    "  -V, --version     Print version" ]

/-
  Answer a list of arguments.  A threshold that is given
  outranks the one that the arguments ask for.
-/
def answer
    (device : Device)
    (disk : Disk)
    (threshold : Option Threshold)
    (args : List String) : Reply :=
  match Request.ofArguments args with
  | .refused => ⟨disk, 2, []⟩
  | .version => ⟨disk, 0, [versionLine]⟩
  | .help => ⟨disk, 0, helpLines⟩
  | .run options =>
      let r := options.execute device disk
      let shown :=
        threshold.getD (.ofVerbosity options.verbosity)
      ⟨r.disk, r.code, Event.visible shown r.allEvents⟩

end LootFilter.CommandLine
