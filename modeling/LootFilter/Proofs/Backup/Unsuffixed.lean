import LootFilter.Proofs.Backup.Sessions

/-
  Restoring takes the suffix off all copies at once.

  This holds of every tree, however its copies came about: in
  a folder, there may be a file, its copy and a copy of that.
  It only needs each of them to be a file that can have its
  shorter name.

  Main declarations:
    * `Backup.Unsuffixable`
    * `Backup.AllUnsuffixable.movable`
    * `Backup.Unsuffixed`
    * `Backup.unsuffixed_restoreAll`
-/

namespace LootFilter

namespace Backup

open Disk (WellFormed IsName IsPlace NamesEntry)

variable {d : Disk} {dir f parent : Location} {stem : String}
variable {path : Path}

------------------------------------------------------------
-- Taking the Suffix Off
------------------------------------------------------------

/-
  Whether what is in a folder under a name with the suffix can
  have the name without it: it is a file, and the shorter name
  names something that is no folder.
-/
structure Unsuffixable
    (d : Disk)
    (parent : Location)
    (stem : String) : Prop where
  file :
    ∃ bytes,
      d.node? (parent ++ [stem ++ DataFile.backupSuffix]) =
        some (.file bytes)
  named : NamesEntry stem
  free : d.node? (parent ++ [stem]) ≠ some .folder

/- Whether all below the roots with the suffix can lose it. -/
def AllUnsuffixable (d : Disk) (dir : Location) : Prop :=
  ∀ parent stem,
    UnderRoot dir
        (parent ++ [stem ++ DataFile.backupSuffix]) →
      d.node? (parent ++ [stem ++ DataFile.backupSuffix]) ≠
          none →
        Unsuffixable d parent stem

/- Then every copy below the roots can be moved back. -/
theorem AllUnsuffixable.movable
    (hAll : AllUnsuffixable d dir)
    (hTree : d.WellFormed)
    (hCopied : Copied d dir f) :
    Movable d f := by
  rcases hCopied with ⟨hUnder, hCopy⟩
  rcases hUnder.exists_concat with ⟨parent, stem, rfl⟩
  rw [← underRoot_copyPlace_iff] at hUnder
  rw [copyPlace_concat] at hUnder hCopy
  have hShort := hAll parent stem hUnder hCopy
  rcases hShort.file with ⟨bytes, hFile⟩
  have hPlace := hTree.isPlace_of_node? hFile
  have hLong : IsName (stem ++ DataFile.backupSuffix) :=
    hPlace _ (List.mem_append_right _ (by simp))
  refine ⟨?_, ⟨bytes, ?_⟩, hShort.free⟩
  · intro name hMem
    rcases List.mem_append.mp hMem with hAbove | hLast
    · exact hPlace name (List.mem_append_left _ hAbove)
    · rw [List.mem_singleton.mp hLast]
      exact IsName.of_append hShort.named hLong
  · rw [copyPlace_concat]
    exact hFile

------------------------------------------------------------
-- All at Once
------------------------------------------------------------

/-
  What comes of a tree when the suffix is taken off all copies
  below the roots at once.  Each place gets what was at its
  name with the suffix; if nothing was, a name with the suffix
  is free afterwards and another place is as it was.
-/
structure Unsuffixed
    (d : Disk)
    (dir : Location)
    (r : Progress) : Prop where
  failure : r.failure = none
  reported :
    ∃ files : List Location,
      r.done.map d.locate = files.map .ok ∧
        files.Nodup ∧
        ∀ f, f ∈ files ↔ Copied d dir f
  moved :
    ∀ f, UnderRoot dir f → d.node? (copyPlace f) ≠ none →
      r.disk.node? f = d.node? (copyPlace f)
  gone :
    ∀ f, UnderRoot dir f → d.node? (copyPlace f) = none →
      endsInBackup f = true → r.disk.node? f = none
  kept :
    ∀ f, UnderRoot dir f → d.node? (copyPlace f) = none →
      endsInBackup f = false → r.disk.node? f = d.node? f
  outside :
    ∀ l, ¬ UnderRoot dir l → r.disk.node? l = d.node? l

/-
  Restoring does this, under every spelling that reaches
  everything.
-/
theorem unsuffixed_restoreAll
    (hTree : d.WellFormed)
    (hAll : AllUnsuffixable d dir)
    (hDirectory : d.locate path = .ok dir)
    (hReaches : Reaches d dir path) :
    Unsuffixed d dir (restoreAll d path) := by
  rcases movesBack_restoreAll hTree hDirectory hReaches
      (fun _ hCopied => hAll.movable hTree hCopied) with
    ⟨files, hMoves⟩
  have hNode := (hMoves.shifted hTree).node
  have hNotMoved :
      ∀ l, d.node? (copyPlace l) = none → l ∉ files :=
    fun l hFree hMem => ((hMoves.mem l).mp hMem).2 hFree
  refine
    ⟨hMoves.failure,
      ⟨files, hMoves.reported, hMoves.inOrder.distinct,
        hMoves.mem⟩, ?_, ?_, ?_, ?_⟩
  · intro f hUnder hCopy
    rw [hNode, if_pos ((hMoves.mem f).mpr ⟨hUnder, hCopy⟩)]
  · intro f hUnder hFree hName
    rw [hNode, if_neg (hNotMoved f hFree)]
    split
    · rfl
    · rename_i hNotCopy
      rcases endsInBackup_iff.mp hName with ⟨g, _, rfl⟩
      by_contra hStands
      apply hNotCopy
      apply copyPlace_mem_map_iff.mpr
      exact
        (hMoves.mem g).mpr
          ⟨underRoot_copyPlace_iff.mp hUnder, hStands⟩
  · intro f _ hFree hName
    have hNotCopy : f ∉ files.map copyPlace := by
      intro hMem
      rcases List.mem_map.mp hMem with ⟨g, hG, rfl⟩
      have hRoot := ((hMoves.mem g).mp hG).1.ne_nil
      rw [endsInBackup_iff.mpr ⟨g, hRoot, rfl⟩] at hName
      cases hName
    rw [hNode, if_neg (hNotMoved f hFree), if_neg hNotCopy]
  · intro l hOutside
    have hNotFile : l ∉ files :=
      fun hMem => hOutside ((hMoves.mem l).mp hMem).1
    have hNotCopy : l ∉ files.map copyPlace := by
      intro hMem
      rcases List.mem_map.mp hMem with ⟨g, hG, rfl⟩
      apply hOutside
      exact
        underRoot_copyPlace_iff.mpr ((hMoves.mem g).mp hG).1
    rw [hNode, if_neg hNotFile, if_neg hNotCopy]

------------------------------------------------------------
-- A Copy of a Copy
------------------------------------------------------------

/- It is enough to look at the listed places. -/
theorem allUnsuffixable_of_keys
    (hKeys :
      ∀ l ∈ Assoc.keys d.nodes, endsInBackup l = true →
        l.getLast? ≠ some DataFile.backupSuffix ∧
          d.node? l ≠ some .folder ∧
          NamesEntry (restoredName (l.getLast?.getD "")) ∧
          d.node?
              (l.dropLast ++
                [restoredName (l.getLast?.getD "")]) ≠
            some .folder) :
    AllUnsuffixable d dir := by
  intro parent stem _ hStands
  rcases Option.ne_none_iff_exists'.mp hStands with
    ⟨n, hNode⟩
  have hName :
      endsInBackup
          (parent ++ [stem ++ DataFile.backupSuffix]) =
        true := by
    simp [endsInBackup]
  have hPlace :=
    hKeys _ (Disk.mem_keys_of_node? (by simp) hNode) hName
  rw [List.getLast?_concat, List.dropLast_concat,
    Option.getD_some] at hPlace
  rcases hPlace with ⟨hStem, hFile, hNamed, hFree⟩
  have hSome : stem ≠ "" := by
    rintro rfl
    exact hStem (by simp)
  rw [restoredName_append hSome] at hNamed hFree
  refine ⟨?_, hNamed, hFree⟩
  cases n with
  | folder => exact absurd hNode hFile
  | file bytes => exact ⟨bytes, hNode⟩

/- A data directory with a file, its copy and a copy of that. -/
def chainTree : Disk :=
  ⟨[(["data"], .folder),
    (["data", "local"], .folder),
    (["data", "local", "a"], .file "0".toUTF8),
    (["data", "local", "a.d2lootfilter"], .file "1".toUTF8),
    (["data", "local", "a.d2lootfilter.d2lootfilter"],
      .file "2".toUTF8)], []⟩

/- The suffix can be taken off both copies. -/
theorem chainTree_unsuffixable :
    chainTree.WellFormed ∧
      AllUnsuffixable chainTree ["data"] :=
  ⟨⟨by decide +kernel, by decide +kernel, by decide +kernel,
    by decide +kernel⟩,
    allUnsuffixable_of_keys (by decide +kernel)⟩

/- Each takes the place of what it is a copy of. -/
theorem unsuffixed_restoreAll_chain :
    (chainTree.WellFormed ∧
        AllUnsuffixable chainTree ["data"]) ∧
      chainTree.locate ⟨["data"]⟩ = .ok ["data"] ∧
      Reaches chainTree ["data"] ⟨["data"]⟩ ∧
      Unsuffixed chainTree ["data"]
        (restoreAll chainTree ⟨["data"]⟩) := by
  have hDirectory :
      chainTree.locate ⟨["data"]⟩ = .ok ["data"] := by
    decide +kernel
  have hReaches : Reaches chainTree ["data"] ⟨["data"]⟩ :=
    reaches_of_keys (fun root => ⟨["data", root]⟩)
      (by decide +kernel) (by decide +kernel)
  exact
    ⟨chainTree_unsuffixable, hDirectory, hReaches,
      unsuffixed_restoreAll chainTree_unsuffixable.1
        chainTree_unsuffixable.2 hDirectory hReaches⟩

/- Nothing is done behind a dot with two slashes. -/
theorem restoreAll_dotted :
    restoreAll chainTree Session.dottedSpelling =
      ⟨chainTree, [], none⟩ := by
  decide +kernel

/- Below a spelling that is too long, a copy stays. -/
theorem failure_restoreAll_chain :
    (restoreAll chainTree (Session.spelling 2040 [])).failure ≠
      none := by
  have hLocal : "local" ∈ roots := by decide
  have hTop :
      chainTree.locate (Session.spelling 2040 ["local"]) =
        .ok ["data", "local"] :=
    Session.locate_spelling_names rfl (by decide +kernel)
      (by decide) (by decide) (by decide +kernel)
  have hCopy :
      chainTree.node?
          (["data", "local"] ++ ["a.d2lootfilter"]) =
        some (.file "1".toUTF8) := by
    decide +kernel
  have hMem :=
    mem_candidates_of_node? chainTree_unsuffixable.1
      (Session.searched?_spelling 2040 hLocal) hTop
      (List.cons_ne_nil _ _) hCopy
  apply failure_restoreRoots_cons
  apply failure_restoreEach hMem
  · right
    rw [endsInBackup_append _ (by simp)]
    decide +kernel
  · have hPath :
        (⟨(Session.spelling 2040 ["local"]).segments ++
            ["a.d2lootfilter"]⟩ : Path) =
          Session.spelling 2040
            ["local", "a.d2lootfilter"] := by
      simp only [Session.spelling, List.cons_append,
        List.append_assoc, List.nil_append]
    rw [hPath, Session.utf8ByteSize_spelling]
    decide

/-
  Not every spelling serves.  Below one that is too long,
  restoring fails, and behind a dot with two slashes it finds
  nothing.
-/
theorem unsuffixed_missed :
    (chainTree.WellFormed ∧
        AllUnsuffixable chainTree ["data"]) ∧
      (chainTree.locate (Session.spelling 2040 []) =
          .ok ["data"] ∧
        ¬ Unsuffixed chainTree ["data"]
          (restoreAll chainTree (Session.spelling 2040 []))) ∧
      chainTree.locate Session.dottedSpelling = .ok ["data"] ∧
        ¬ Unsuffixed chainTree ["data"]
          (restoreAll chainTree Session.dottedSpelling) := by
  refine
    ⟨chainTree_unsuffixable, ⟨?_, ?_⟩, by decide +kernel, ?_⟩
  · exact
      Session.locate_spelling_names rfl (by decide +kernel)
        (by decide) (by decide) rfl
  · intro hDone
    exact failure_restoreAll_chain hDone.failure
  · intro hDone
    rw [restoreAll_dotted] at hDone
    have hUnder :
        UnderRoot ["data"] ["data", "local", "a"] :=
      ⟨"local", by decide, ["a"], by simp, rfl⟩
    have hMoved := hDone.moved _ hUnder (by decide +kernel)
    revert hMoved
    decide +kernel

end Backup

end LootFilter
