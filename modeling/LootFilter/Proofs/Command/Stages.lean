import LootFilter.Proofs.Documents
import LootFilter.Session

/-
  The stages of a run.

  Earlier runs are undone, then changes are staged in memory,
  then they are written.  So a run that does not get as far as
  writing leaves the tree as restoring left it.

  Main declarations:
    * `CommandLine.Options.staged?`
    * `CommandLine.disk_proceed`
    * `CommandLine.CallStep`
    * `CommandLine.callStep`
-/

namespace LootFilter

namespace CommandLine

variable {device : Device} {disk : Disk} {options : Options}

------------------------------------------------------------
-- Staging
------------------------------------------------------------

/- The writer that a filter's rules are staged in. -/
def stagedRules?
    (disk : Disk)
    (dir : Path)
    (catalog : Catalog)
    (filter : Filter) : Option Writer :=
  match (Writer.new dir catalog).writeAll disk filter.rules with
  | (_, some _) => none
  | (w, none) => some w

/-
  The writer that a run finishes on the restored tree, if it
  gets that far.
-/
def Options.staged?
    (options : Options)
    (disk : Disk) : Option Writer :=
  let dir := Path.ofText options.dir
  if options.filter = removeWord then
    none
  else
    match Catalog.load disk dir with
    | .error _ => none
    | .ok catalog =>
        match DataFile.readText disk
            (Path.ofText options.filter) with
        | .error _ => none
        | .ok source =>
            match Filter.ofSource catalog source with
            | .error _ => none
            | .ok filter => stagedRules? disk dir catalog filter

/- It holds all rules of a filter, for the loaded catalog. -/
theorem Options.staged?_eq_some
    {w : Writer}
    (hStaged : options.staged? disk = some w) :
    ∃ catalog filter,
      Catalog.load disk (Path.ofText options.dir) =
          .ok catalog ∧
        (Writer.new (Path.ofText options.dir) catalog).writeAll
          disk (Filter.rules filter) = (w, none) := by
  unfold staged? stagedRules? at hStaged
  dsimp only at hStaged
  split at hStaged
  · cases hStaged
  · split at hStaged
    · cases hStaged
    · rename_i catalog hLoad
      split at hStaged
      · cases hStaged
      · split at hStaged
        · cases hStaged
        · rename_i filter _
          split at hStaged
          · cases hStaged
          · rename_i next hWrite
            cases hStaged
            exact ⟨catalog, filter, hLoad, hWrite⟩

/- A writer that a run finishes names documents. -/
theorem namesDocuments_of_staged?
    {w : Writer}
    (hStaged : options.staged? disk = some w) :
    w.NamesDocuments := by
  rcases Options.staged?_eq_some hStaged with
    ⟨catalog, filter, _, hWrite⟩
  exact Writer.namesDocuments_of_writeAll hWrite

/- Applying a filter changes the tree by finishing only. -/
theorem disk_applyFilter
    (device : Device)
    (disk : Disk)
    (dir : Path)
    (catalog : Catalog)
    (filter : Filter) :
    (applyFilter device disk dir catalog filter).disk =
      match stagedRules? disk dir catalog filter with
      | none => disk
      | some w => (w.finish device disk).disk := by
  unfold applyFilter stagedRules?
  cases hWrite :
      (Writer.new dir catalog).writeAll disk filter.rules with
  | mk w failure =>
      cases failure with
      | some e => rfl
      | none =>
          dsimp only
          split <;> rfl

/- So does what follows the restoring. -/
theorem disk_proceed
    (device : Device)
    (disk : Disk)
    (hCheck : options.check = false) :
    (proceed device disk options).disk =
      match options.staged? disk with
      | none => disk
      | some w => (w.finish device disk).disk := by
  unfold proceed Options.staged? loadAndUse useFilter
  dsimp only
  by_cases hRemove : options.filter = removeWord
  · simp only [hRemove, if_true]
  · simp only [hRemove, if_false, hCheck, Bool.false_eq_true]
    cases Catalog.load disk (Path.ofText options.dir) with
    | error e => rfl
    | ok catalog =>
        dsimp only [Run.after]
        cases DataFile.readText disk
            (Path.ofText options.filter) with
        | error e => rfl
        | ok source =>
            dsimp only
            cases Filter.ofSource catalog source with
            | error e => rfl
            | ok filter =>
                exact
                  disk_applyFilter device disk _ catalog filter

/- A check changes nothing. -/
theorem disk_proceed_of_check
    (device : Device)
    (disk : Disk)
    (hCheck : options.check = true) :
    (proceed device disk options).disk = disk := by
  unfold proceed
  split
  · rfl
  · unfold loadAndUse
    dsimp only
    split
    · rfl
    · unfold useFilter
      dsimp only [Run.after]
      split
      · rfl
      · split
        · rfl
        · simp only [hCheck, if_true]

/- An empty filter changes nothing. -/
theorem disk_proceed_of_empty
    (hSource :
      DataFile.readText disk (Path.ofText options.filter) =
        .ok "") :
    (proceed device disk options).disk = disk := by
  unfold proceed loadAndUse useFilter
  split
  · rfl
  · dsimp only
    split
    · rfl
    · rename_i catalog _
      have hRules : Filter.ofSource catalog "" = .ok ⟨[]⟩ := rfl
      simp only [hSource, hRules, Run.after]
      split <;> rfl

/- It succeeds with every catalog. -/
theorem failure_proceed_of_empty
    {catalog : Catalog}
    (hLoad :
      Catalog.load disk (Path.ofText options.dir) = .ok catalog)
    (hSource :
      DataFile.readText disk (Path.ofText options.filter) =
        .ok "") :
    (proceed device disk options).failure = none := by
  have hRules : Filter.ofSource catalog "" = .ok ⟨[]⟩ := rfl
  unfold proceed loadAndUse useFilter
  split
  · rfl
  · simp only [hLoad, hSource, hRules, Run.after]
    split <;> rfl

------------------------------------------------------------
-- Calls
------------------------------------------------------------

/-
  What a call comes to: nothing, restoring that the system may
  have stopped, or finishing a writer on the restored tree.
-/
inductive CallStep (disk : Disk) (call : Call) : Disk → Prop
| idle : CallStep disk call disk
| stopped
    {options : Options}
    (hRequest :
      Request.ofArguments call.args = .run options)
    (halt : Halt) :
    CallStep disk call
      (Backup.restoreUntil halt disk (Path.ofText options.dir))
| restored
    {options : Options}
    (hRequest :
      Request.ofArguments call.args = .run options) :
    CallStep disk call
      (Backup.restoreAll disk (Path.ofText options.dir)).disk
| written
    {options : Options}
    {restored : Disk}
    {w : Writer}
    (hRequest :
      Request.ofArguments call.args = .run options)
    (hRestored :
      (Backup.restoreAll disk (Path.ofText options.dir)).disk =
        restored)
    (hStaged : options.staged? restored = some w) :
    CallStep disk call (w.finish call.device restored).disk

/- A run that is not stopped while it restores is a step. -/
theorem callStep_execute
    {call : Call}
    (hRequest : Request.ofArguments call.args = .run options) :
    CallStep disk call
      (options.execute call.device disk).disk := by
  unfold Options.execute
  cases hCheck : options.check with
  | true =>
      rw [if_pos rfl, disk_proceed_of_check _ _ hCheck]
      exact .idle
  | false =>
      rw [if_neg (by simp)]
      dsimp only
      split
      · exact .restored hRequest
      · dsimp only [Run.after]
        rw [disk_proceed _ _ hCheck]
        split
        · exact .restored hRequest
        · rename_i hStaged
          exact .written hRequest rfl hStaged

/- Every call is a step. -/
theorem callStep (disk : Disk) (call : Call) :
    CallStep disk call (call.after disk) := by
  unfold Call.after
  split
  · rename_i options halt hRequest _
    split
    · exact .idle
    · exact .stopped hRequest halt
  · unfold answer
    split
    · exact .idle
    · exact .idle
    · exact .idle
    · rename_i options hRequest
      exact callStep_execute hRequest

end CommandLine

end LootFilter
