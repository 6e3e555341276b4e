import LootFilter.Proofs.Disk.Follow
import LootFilter.Proofs.Outcome

/-
  What reading, writing, copying and moving a file come to,
  in terms of the places that the paths lead to.

  A device may stop writing and copying on the way.  Then the
  file is there, and holds whatever was left in it.

  Main declarations:
    * `Disk.lookup_eq_ok_iff`
    * `Disk.WriteStep`
    * `Disk.writeStep`
    * `Disk.write_eq_none_iff`
    * `Disk.copyStep`
    * `Disk.exists_node_of_rename`
    * `Disk.rename_file_eq_ok_iff`
-/

namespace LootFilter

namespace Disk

variable {d next : Disk} {p source target : Path}

/- Looking up a path is finding something at its place. -/
theorem lookup_eq_ok_iff
    {n : Node} :
    d.lookup p = .ok n ↔
      ∃ l, d.locate p = .ok l ∧ d.node? l = some n := by
  unfold lookup
  rw [bind_eq_ok_iff]
  apply exists_congr
  intro l
  apply and_congr_right
  intro _
  cases d.node? l with
  | none => simp
  | some other => simp

/- Something stands at the end of a path. -/
theorem hasNode_iff :
    d.hasNode p = true ↔
      ∃ l n, d.locate p = .ok l ∧ d.node? l = some n := by
  unfold hasNode
  cases hLookup : d.lookup p with
  | ok n =>
      rcases lookup_eq_ok_iff.mp hLookup with
        ⟨l, hLocate, hNode⟩
      simp only [true_iff]
      exact ⟨l, n, hLocate, hNode⟩
  | error e =>
      constructor
      · intro h
        cases h
      · rintro ⟨l, n, hPlace⟩
        rw [lookup_eq_ok_iff.mpr ⟨l, hPlace⟩] at hLookup
        cases hLookup

/-
  What writing to a path comes to: nothing, or a file at the
  path's place, which holds what the transfer left.
-/
inductive WriteStep
    (t : Transfer)
    (d : Disk)
    (p : Path)
    (bytes : ByteArray) : Disk × Option IoError → Prop
| refused (e : IoError) :
    WriteStep t d p bytes (d, some e)
| whole
    {l : Location}
    (hLocate : d.locate p = .ok l)
    (hFree : d.node? l ≠ some .folder)
    (hTransfer : t = .whole) :
    WriteStep t d p bytes (d.put l (.file bytes), none)
| stopped
    {l : Location}
    {e : IoError}
    {left : ByteArray}
    (hLocate : d.locate p = .ok l)
    (hFree : d.node? l ≠ some .folder)
    (hTransfer : t = .stopped e left) :
    WriteStep t d p bytes (d.put l (.file left), some e)

/- Writing comes to one of these. -/
theorem writeStep
    (t : Transfer)
    (d : Disk)
    (p : Path)
    (bytes : ByteArray) :
    WriteStep t d p bytes (d.write t p bytes) := by
  unfold write
  split
  · exact .refused _
  · rename_i l hLocate
    split
    · exact .refused _
    · rename_i hFree
      cases t with
      | whole => exact .whole hLocate hFree rfl
      | refused e => exact .refused e
      | stopped e left => exact .stopped hLocate hFree rfl

/- So a path's place is all that writing can change. -/
theorem WriteStep.eq_or_put
    {t : Transfer}
    {bytes : ByteArray}
    {failure : Option IoError}
    (hStep : WriteStep t d p bytes (next, failure)) :
    next = d ∨
      ∃ l held,
        d.locate p = .ok l ∧
          d.node? l ≠ some .folder ∧
          next = d.put l (.file held) := by
  cases hStep with
  | refused => exact Or.inl rfl
  | whole hLocate hFree | stopped hLocate hFree =>
      exact Or.inr ⟨_, _, hLocate, hFree, rfl⟩

/- Writing succeeds if the transfer is whole and can begin. -/
theorem write_eq_none_iff
    {t : Transfer}
    {bytes : ByteArray} :
    d.write t p bytes = (next, none) ↔
      t = .whole ∧
        ∃ l,
          d.locate p = .ok l ∧
            d.node? l ≠ some .folder ∧
            next = d.put l (.file bytes) := by
  constructor
  · intro hWrite
    have hStep := writeStep t d p bytes
    rw [hWrite] at hStep
    cases hStep with
    | whole hLocate hFree hTransfer =>
        exact ⟨hTransfer, _, hLocate, hFree, rfl⟩
  · rintro ⟨rfl, l, hLocate, hFree, rfl⟩
    simp only [write, hLocate]
    rfl

/-
  What copying a file comes to: nothing, or a file at the place
  of the target, which holds what the transfer left.
-/
inductive CopyStep
    (t : Transfer)
    (d : Disk)
    (source target : Path) : Disk × Option IoError → Prop
| refused (e : IoError) :
    CopyStep t d source target (d, some e)
| whole
    {l m : Location}
    {bytes : ByteArray}
    (hLocate : d.locate source = .ok l)
    (hFile : d.node? l = some (.file bytes))
    (hTarget : d.locate target = .ok m)
    (hFree : d.node? m ≠ some .folder)
    (hTransfer : t = .whole) :
    CopyStep t d source target (d.put m (.file bytes), none)
| stopped
    {l m : Location}
    {bytes left : ByteArray}
    {e : IoError}
    (hLocate : d.locate source = .ok l)
    (hFile : d.node? l = some (.file bytes))
    (hTarget : d.locate target = .ok m)
    (hFree : d.node? m ≠ some .folder)
    (hTransfer : t = .stopped e left) :
    CopyStep t d source target (d.put m (.file left), some e)

/- Copying comes to one of these. -/
theorem copyStep
    (t : Transfer)
    (d : Disk)
    (source target : Path) :
    CopyStep t d source target (d.copy t source target) := by
  unfold copy
  split
  · exact .refused _
  · exact .refused _
  · rename_i bytes hLookup
    rcases lookup_eq_ok_iff.mp hLookup with
      ⟨l, hLocate, hFile⟩
    have hStep := writeStep t d target bytes
    generalize d.write t target bytes = result at hStep ⊢
    cases hStep with
    | refused e => exact .refused e
    | whole hTarget hFree hTransfer =>
        exact .whole hLocate hFile hTarget hFree hTransfer
    | stopped hTarget hFree hTransfer =>
        exact .stopped hLocate hFile hTarget hFree hTransfer

/- What is moved is there. -/
theorem exists_node_of_rename
    (hRename : d.rename source target = .ok next) :
    ∃ s n, d.locate source = .ok s ∧ d.node? s = some n := by
  unfold rename at hRename
  rcases bind_eq_ok_iff.mp hRename with ⟨s, hSource, hRest⟩
  rcases bind_eq_ok_iff.mp hRest with ⟨t, _, hMove⟩
  split at hMove
  · cases hMove
  · split at hMove
    · cases hMove
    · rename_i moved hNode
      exact ⟨s, moved, hSource, hNode⟩

/- Moving a file needs a target that is no folder. -/
theorem rename_file_eq_ok_iff
    {s : Location}
    {bytes : ByteArray}
    (hSource : d.locate source = .ok s)
    (hFile : d.node? s = some (.file bytes)) :
    d.rename source target = .ok next ↔
      endsInName source = true ∧
        endsInName target = true ∧
        ∃ t,
          d.locate target = .ok t ∧
            ((s = t ∧ next = d) ∨
              (s ≠ t ∧ d.node? t ≠ some .folder ∧
                next = d.relocate s t)) := by
  unfold rename
  rw [hSource]
  cases hTarget : d.locate target with
  | error e => simp [bind, Except.bind]
  | ok t =>
      by_cases hEnds :
          endsInName source = true ∧ endsInName target = true
      · by_cases hSame : s = t
        · subst hSame
          simp [bind, Except.bind, hEnds, hFile, eq_comm]
        · cases hNode : d.node? t with
          | none =>
              simp [bind, Except.bind, hEnds, hFile, hSame,
                hNode, eq_comm]
          | some n =>
              cases n <;>
                simp [bind, Except.bind, hEnds, hFile, hSame,
                  hNode, eq_comm]
      · have hBusy :
            (!endsInName source || !endsInName target) =
              true := by
          rw [Bool.or_eq_true, Bool.not_eq_true',
            Bool.not_eq_true', ← Bool.not_eq_true,
            ← Bool.not_eq_true]
          exact Decidable.not_and_iff_or_not.mp hEnds
        simp only [bind, Except.bind, hBusy, if_true]
        constructor
        · intro h
          cases h
        · rintro ⟨hS, hT, _⟩
          exact absurd ⟨hS, hT⟩ hEnds

/- A path can be moved if its last segment is a name. -/
theorem endsInName_iff
    {segments : List String}
    {name : String}
    (hPath : p.segments = segments ++ [name]) :
    endsInName p = true ↔ NamesEntry name := by
  unfold endsInName NamesEntry
  simp [hPath, and_assoc]

end Disk

end LootFilter
