import LootFilter.Backup
import LootFilter.Proofs.Disk.Tree

/-
  Trees that cannot be told apart.

  Two trees may list their places in different orders.  What
  is read from them, and what becomes of them when files are
  written, depends on what stands where only.

  Main declarations:
    * `Disk.Same`
    * `Disk.Same.locate_eq`
    * `Disk.Same.read_eq`
    * `Disk.Same.write`
    * `Disk.Same.writeFiles`
-/

namespace LootFilter

namespace Disk

/- Two trees have the same at every place. -/
structure Same (a b : Disk) : Prop where
  home : a.home = b.home
  node : ∀ l, a.node? l = b.node? l

namespace Same

variable {a b : Disk}

------------------------------------------------------------
-- Reading
------------------------------------------------------------

/- Segments are followed in the same way. -/
theorem follow_eq
    (h : Same a b)
    (l : Location)
    (segments : List String) :
    a.follow l segments = b.follow l segments := by
  induction segments generalizing l with
  | nil => rfl
  | cons segment rest ih =>
      rw [follow, follow, h.node l]
      simp only [ih]

/- A path leads to the same place. -/
theorem locate_eq
    (h : Same a b)
    (p : Path) :
    a.locate p = b.locate p := by
  have hStart : a.start p = b.start p := by
    rw [start, start, h.home]
  rw [locate, locate, hStart, h.follow_eq]

/- The same stands at the end of a path. -/
theorem lookup_eq
    (h : Same a b)
    (p : Path) :
    a.lookup p = b.lookup p := by
  unfold lookup
  rw [h.locate_eq]
  simp only [h.node]

/- Something stands at the end of a path in both, or in none. -/
theorem hasNode_eq
    (h : Same a b)
    (p : Path) :
    a.hasNode p = b.hasNode p := by
  rw [hasNode, hasNode, h.lookup_eq]

/- A file stands at the end of a path in both, or in none. -/
theorem hasFile_eq
    (h : Same a b)
    (p : Path) :
    a.hasFile p = b.hasFile p := by
  rw [hasFile, hasFile, h.lookup_eq]

/- The same is read from a file. -/
theorem read_eq
    (h : Same a b)
    (p : Path) :
    a.read p = b.read p := by
  rw [read, read, h.lookup_eq]

------------------------------------------------------------
-- Writing
------------------------------------------------------------

/- The same put at a place leaves the trees the same. -/
theorem put
    (h : Same a b)
    {l : Location}
    (hRoot : l ≠ [])
    (n : Node) :
    Same (a.put l n) (b.put l n) where
  home := h.home
  node := by
    intro x
    rw [node?_put hRoot, node?_put hRoot, h.node]

end Same

/- Whether a change of two trees comes out the same. -/
def SameResult
    {ε : Type}
    (x y : Disk × Option ε) : Prop :=
  ∃ a b failure, x = (a, failure) ∧ y = (b, failure) ∧ Same a b

/- Whether steps done to two trees come out the same. -/
structure SameProgress (x y : Progress) : Prop where
  disk : Same x.disk y.disk
  done : x.done = y.done
  failure : x.failure = y.failure

namespace Same

variable {a b : Disk}

/- Writing a file comes out the same. -/
theorem write
    (h : Same a b)
    (t : Transfer)
    (p : Path)
    (bytes : ByteArray) :
    SameResult (a.write t p bytes) (b.write t p bytes) := by
  unfold Disk.write
  rw [h.locate_eq]
  cases b.locate p with
  | error e => exact ⟨_, _, _, rfl, rfl, h⟩
  | ok l =>
      simp only [h.node]
      split
      · exact ⟨_, _, _, rfl, rfl, h⟩
      · rename_i hFolder
        have hRoot : l ≠ [] := by
          rintro rfl
          exact hFolder (node?_nil b)
        cases t with
        | whole => exact ⟨_, _, _, rfl, rfl, h.put hRoot _⟩
        | refused e => exact ⟨_, _, _, rfl, rfl, h⟩
        | stopped e left => exact ⟨_, _, _, rfl, rfl, h.put hRoot _⟩

/- Copying a file comes out the same. -/
theorem copy
    (h : Same a b)
    (t : Transfer)
    (source target : Path) :
    SameResult (a.copy t source target)
      (b.copy t source target) := by
  unfold Disk.copy
  rw [h.lookup_eq]
  cases b.lookup source with
  | error e => exact ⟨_, _, _, rfl, rfl, h⟩
  | ok n =>
      cases n with
      | folder => exact ⟨_, _, _, rfl, rfl, h⟩
      | file bytes => exact h.write t target bytes

/- Seeing to the copy of a file comes out the same. -/
theorem keepPristine
    (h : Same a b)
    (t : Transfer)
    (p : Path) :
    SameResult (Backup.keepPristine t a p)
      (Backup.keepPristine t b p) := by
  unfold Backup.keepPristine
  rw [h.hasNode_eq]
  split
  · exact ⟨_, _, _, rfl, rfl, h⟩
  · exact h.copy t _ _

/- Writing a document comes out the same. -/
theorem writeFile
    (h : Same a b)
    (copying writing : Transfer)
    (p : Path)
    (v : Json.Value) :
    SameResult (Backup.writeFile copying writing a p v)
      (Backup.writeFile copying writing b p v) := by
  unfold Backup.writeFile DataFile.writeJson
  rcases h.keepPristine copying p with
    ⟨keptA, keptB, failure, hA, hB, hKept⟩
  rw [hA, hB]
  cases failure with
  | some e => exact ⟨_, _, _, rfl, rfl, hKept⟩
  | none =>
      dsimp only
      rcases hKept.write writing p (DataFile.encodeJson v) with
        ⟨writtenA, writtenB, failure, hA, hB, hWritten⟩
      rw [hA, hB]
      cases failure <;> exact ⟨_, _, _, rfl, rfl, hWritten⟩

/- Writing documents comes out the same. -/
theorem writeFiles
    (h : Same a b)
    (device : Device)
    (staged : List (Path × Json.Value)) :
    SameProgress (Backup.writeFiles device a staged)
      (Backup.writeFiles device b staged) := by
  induction staged generalizing device a b with
  | nil => exact ⟨h, rfl, rfl⟩
  | cons entry rest ih =>
      obtain ⟨p, v⟩ := entry
      unfold Backup.writeFiles
      rcases h.writeFile (device.copying 0 p)
          (device.writing 0 p) p v with
        ⟨nextA, nextB, failure, hA, hB, hNext⟩
      rw [hA, hB]
      cases failure with
      | some e => exact ⟨hNext, rfl, rfl⟩
      | none =>
          have hRest := ih hNext device.next
          exact
            ⟨hRest.disk, congrArg (p :: ·) hRest.done,
              hRest.failure⟩

end Same

end Disk

end LootFilter
