import BlockScript.Folder
import Mathlib.Data.List.Basic

/-!
# Files that were written

A file that was written is there to be read, by the path it was written to, and a file that can be
read can be written.  Following a path, the new file can only be met at the last step, so what
comes before is as it was.

## What is here

* `Folder.read_of_follow` — what is read where a path leads to a file.
* `Folder.read_of_write` — what was written is read.
* `Folder.exists_write` — where something can be read, anything can be written.
-/

set_option autoImplicit false
namespace BlockScript.Folder

variable {folder : Folder} {path : String} {here there other : List String} {steps : List String}
  {bytes : ByteArray}

/-! ## Reading -/

theorem read_of_follow (hrefusal : refusal? path = none)
    (hfollow : folder.follow (startingFolder path) (Folder.steps path) = .ok (.file there))
    (hbytes : folder.files.lookup there = some bytes) : folder.read path = .ok bytes := by
  rw [read, locate, hrefusal]
  simp only [hfollow, hbytes]

theorem follow_of_read (h : folder.read path = .ok bytes) : refusal? path = none ∧
    ∃ there, folder.follow (startingFolder path) (Folder.steps path) = .ok (.file there) := by
  rw [read, locate] at h
  cases hrefusal : refusal? path with
  | some failure => rw [hrefusal] at h; cases h
  | none =>
    simp only [hrefusal] at h
    split at h
    · cases h
    · next there hfollow => exact ⟨rfl, there, hfollow⟩
    · cases h
    · cases h

/-- A folder with one file. -/
def single (name text : String) : Folder := { files := [([name], text.toUTF8)] }

theorem read_single {name : String} (text : String)
    (hpath : refusal? name = none ∧ startingFolder name = [] ∧ Folder.steps name = [name])
    (hfollow : (single name text).follow [] [name] = .ok (.file [name])) :
    (single name text).read name = .ok text.toUTF8 := by
  refine read_of_follow hpath.1 ?_ List.lookup_cons_self
  rw [hpath.2.1, hpath.2.2, hfollow]

/-! ## Where a path leads -/

/-- A path that leads to a file or to none leads where there is one or where there is nothing. -/
theorem place_of_follow (folder : Folder) (here there steps : List String) :
    (folder.follow here steps = .ok (.file there) → folder.isFile there = true) ∧
    (folder.follow here steps = .ok (.vacant there) →
      folder.isFile there = false ∧ folder.isFolder there = false) := by
  fun_induction follow folder here steps with
  | case1 here => exact ⟨nofun, nofun⟩
  | case2 here step rest hstays ih => exact ih
  | case3 here rest hstays ih => exact ih
  | case4 here step rest hstays hup hlong => exact ⟨nofun, nofun⟩
  | case5 here step rest hstays hup hlong inside hfile hlast =>
    refine ⟨fun h => ?_, nofun⟩
    rwa [← Place.file.inj (Except.ok.inj h)]
  | case6 here step rest hstays hup hlong inside hfile hlast => exact ⟨nofun, nofun⟩
  | case7 here step rest hstays hup hlong inside hfile hfolder ih => exact ih
  | case8 here step rest hstays hup hlong inside hfile hfolder hlast =>
    refine ⟨nofun, fun h => ?_⟩
    rw [← Place.vacant.inj (Except.ok.inj h)]
    exact ⟨eq_false_of_ne_true hfile, eq_false_of_ne_true hfolder⟩
  | case9 here step rest hstays hup hlong inside hfile hfolder hlast => exact ⟨nofun, nofun⟩

/-- A path whose last step is empty leads to a folder. -/
theorem follow_append_blank {place : Place}
    (h : folder.follow here (steps ++ [""]) = .ok place) : ∃ found, place = .folder found := by
  induction steps generalizing here with
  | nil =>
    cases h
    exact ⟨here, rfl⟩
  | cons step rest ih =>
    rw [List.cons_append, follow] at h
    have hmore : (rest ++ [""]).isEmpty = false := by simp
    simp only [hmore, Bool.false_eq_true, if_false] at h
    split_ifs at h
    all_goals exact ih h

/-! ## Writing -/

/-- The folder with a file put into it. -/
def holding (folder : Folder) (there : List String) (bytes : ByteArray) : Folder :=
  { folder with files := (there, bytes) :: folder.files }

theorem isFile_holding :
    (folder.holding there bytes).isFile other = (other == there || folder.isFile other) := by
  rw [isFile, holding, List.lookup_cons]
  cases h : other == there
  · rfl
  · rfl

theorem isFolder_holding (h : folder.isFolder other = true) :
    (folder.holding there bytes).isFolder other = true := by
  simp only [isFolder, holding, List.any_cons, Bool.or_eq_true] at h ⊢
  tauto

/-- A path that leads to a file, or to none, leads to a file that is put there. -/
theorem follow_holding
    (h : folder.follow here steps = .ok (.file there) ∨
      folder.follow here steps = .ok (.vacant there)) :
    (folder.holding there bytes).follow here steps = .ok (.file there) := by
  have hthere := place_of_follow folder here there steps
  fun_induction follow folder here steps with
  | case1 here => simp at h
  | case2 here step rest hstays ih => rw [follow, if_pos hstays, ih h hthere]
  | case3 here rest hstays ih => rw [follow, if_neg hstays, if_pos rfl, ih h hthere]
  | case4 here step rest hstays hup hlong => simp at h
  | case5 here step rest hstays hup hlong inside hfile hlast =>
    obtain rfl : inside = there := by simpa using h
    rw [follow, if_neg hstays, if_neg hup, if_neg hlong]
    simp only [isFile_holding, BEq.rfl, Bool.true_or, if_true, hlast, inside]
  | case6 here step rest hstays hup hlong inside hfile hlast => simp at h
  | case7 here step rest hstays hup hlong inside hfile hfolder ih =>
    -- a folder on the way is not where the file is put
    have hne : (inside == there) = false := by
      refine beq_false_of_ne ?_
      rintro rfl
      rcases h with h | h
      · exact hfile (hthere.1 h)
      · exact absurd hfolder (by simp [(hthere.2 h).2])
    rw [follow, if_neg hstays, if_neg hup, if_neg hlong]
    have hfile' : (folder.holding there bytes).isFile inside = false := by
      rw [isFile_holding, hne, eq_false_of_ne_true hfile, Bool.or_self]
    have hfolder' : (folder.holding there bytes).isFolder inside = true := isFolder_holding hfolder
    simp only [inside] at hfile' hfolder'
    simp only [hfile', hfolder', Bool.false_eq_true, if_false, if_true]
    exact ih h hthere
  | case8 here step rest hstays hup hlong inside hfile hfolder hlast =>
    obtain rfl : inside = there := by simpa using h
    rw [follow, if_neg hstays, if_neg hup, if_neg hlong]
    simp only [isFile_holding, BEq.rfl, Bool.true_or, if_true, hlast, inside]
  | case9 here step rest hstays hup hlong inside hfile hfolder hlast => simp at h

theorem write_eq_ok {folder' : Folder} (h : folder.write path bytes = .ok folder') :
    refusal? path = none ∧ ∃ there, folder' = folder.holding there bytes ∧
      (folder.follow (startingFolder path) (stepsToWrite path) = .ok (.file there) ∨
        folder.follow (startingFolder path) (stepsToWrite path) = .ok (.vacant there)) := by
  rw [write, locate] at h
  cases hrefusal : refusal? path with
  | some failure => rw [hrefusal] at h; cases h
  | none =>
    simp only [hrefusal] at h
    refine ⟨rfl, ?_⟩
    split at h
    · cases h
    · cases h
    · next there hfollow => exact ⟨there, (Except.ok.inj h).symm, .inr hfollow⟩
    · next there hfollow => exact ⟨there, (Except.ok.inj h).symm, .inl hfollow⟩

/-- The steps of a path that ends in a slash end in an empty one. -/
theorem steps_of_endsWith (h : path.endsWith "/" = true) :
    ∃ before, Folder.steps path = before ++ [""] := by
  rw [String.endsWith_eq_endsWith_toSlice, String.Slice.endsWith_string_iff] at h
  obtain ⟨before, hbefore⟩ := h
  rw [String.copy_toSlice] at hbefore
  refine ⟨(before.splitOn '/').map String.ofList, ?_⟩
  rw [Folder.steps, ← hbefore]
  exact (congrArg _ (List.splitOn_append_cons_self before [])).trans List.map_append

/-- **What was written is read**, by the same path. -/
theorem read_of_write {folder' : Folder} (h : folder.write path bytes = .ok folder') :
    folder'.read path = .ok bytes := by
  obtain ⟨hrefusal, there, rfl, hplace⟩ := write_eq_ok h
  have hsteps : stepsToWrite path = Folder.steps path := by
    rw [stepsToWrite]
    split
    · next hslash =>
      rw [stepsToWrite, if_pos hslash] at hplace
      rcases hplace with hplace | hplace
      all_goals
        obtain ⟨found, hfound⟩ := follow_append_blank hplace
        cases hfound
    · rfl
  rw [hsteps] at hplace
  refine read_of_follow hrefusal (follow_holding hplace) ?_
  rw [holding, List.lookup_cons_self]

/-- **Where something can be read, anything can be written.** -/
theorem exists_write {old : ByteArray} (h : folder.read path = .ok old) (bytes : ByteArray) :
    ∃ folder', folder.write path bytes = .ok folder' := by
  obtain ⟨hrefusal, there, hfollow⟩ := follow_of_read h
  have hsteps : stepsToWrite path = Folder.steps path := by
    rw [stepsToWrite, if_neg]
    intro hslash
    obtain ⟨before, hbefore⟩ := steps_of_endsWith hslash
    rw [hbefore] at hfollow
    obtain ⟨found, hfound⟩ := follow_append_blank hfollow
    cases hfound
  refine ⟨folder.holding there bytes, ?_⟩
  rw [write, locate, hrefusal, hsteps, hfollow]
  rfl

end BlockScript.Folder
