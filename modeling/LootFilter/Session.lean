import LootFilter.CommandLine

/-
  This file defines sessions: what is done to a tree of data
  files over time, one action after the other.

  A writer may stay open while other things happen.  It keeps
  what was staged, and writes it when it is finished.

  Key definitions include:
    * `Halt`
    * `Backup.restoreUntil`
    * `CommandLine.Call`
    * `Action`
    * `Session`
    * `Session.perform`
    * `Session.run`
-/

namespace LootFilter

------------------------------------------------------------
-- Stops
------------------------------------------------------------

/-
  Where restoring ends early, because the system stops it or
  refuses to move a file: once some roots are restored, and
  some candidates of the next one.  Moving a file is one step,
  which is not stopped on the way.
-/
structure Halt where
  whole : Nat
  count : Nat

/- The tree when the system has stopped restoring. -/
def Backup.restoreUntil
    (halt : Halt)
    (d : Disk)
    (dir : Path) : Disk :=
  let first := restoreRoots d dir (roots.take halt.whole)
  match first.failure, roots[halt.whole]? with
  | none, some root =>
      let next := candidates first.disk dir root
      (restoreEach first.disk (next.take halt.count)).disk
  | _, _ => first.disk

namespace CommandLine

/-
  A call of the program on a device.  The system may stop it
  while it restores.  A program that is stopped while it writes
  leaves what one leaves whose device fails from there on.
-/
structure Call where
  threshold : Option Threshold
  args : List String
  device : Device
  halt : Option Halt

/- The tree that a call leaves behind. -/
def Call.after (disk : Disk) (call : Call) : Disk :=
  match Request.ofArguments call.args, call.halt with
  | .run options, some halt =>
      if options.check then
        disk
      else
        Backup.restoreUntil halt disk (Path.ofText options.dir)
  | _, _ =>
      (answer call.device disk call.threshold call.args).disk

/- The tree that calls leave behind, one after the other. -/
def afterCalls (disk : Disk) (calls : List Call) : Disk :=
  calls.foldl Call.after disk

end CommandLine

------------------------------------------------------------
-- Sessions
------------------------------------------------------------

/-
  Something that is done to the data files.  The system may
  stop restoring, and a device may fail while a writer writes.
-/
inductive Action where
| openWriter (dir : Path) (catalog : Catalog)
| stage (rule : Rule)
| stageAll (rules : List Rule)
| finish (device : Device)
| restore (dir : Path) (halt : Option Halt)
| command (call : CommandLine.Call)

/- A tree and the writer that is open, if any. -/
structure Session where
  disk : Disk
  writer : Option Writer

namespace Session

/- A session before its first action. -/
def start (disk : Disk) : Session :=
  ⟨disk, none⟩

/-
  Perform an action, whether it succeeds or fails.  A writer
  that failed to stage something stays open; a finished one
  does not.  Without a writer there is nothing to stage into
  or to finish.
-/
def perform (s : Session) : Action → Session
| .openWriter dir catalog =>
    { s with writer := some (Writer.new dir catalog) }
| .stage rule =>
    match s.writer with
    | none => s
    | some w =>
        { s with writer := some (w.write s.disk rule).1 }
| .stageAll rules =>
    match s.writer with
    | none => s
    | some w =>
        { s with writer := some (w.writeAll s.disk rules).1 }
| .finish device =>
    match s.writer with
    | none => s
    | some w => ⟨(w.finish device s.disk).disk, none⟩
| .restore dir none =>
    { s with disk := (Backup.restoreAll s.disk dir).disk }
| .restore dir (some halt) =>
    { s with disk := Backup.restoreUntil halt s.disk dir }
| .command call => { s with disk := call.after s.disk }

/- Perform actions in order. -/
def run (s : Session) (actions : List Action) : Session :=
  actions.foldl perform s

end Session

end LootFilter
