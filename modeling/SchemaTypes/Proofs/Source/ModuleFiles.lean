import SchemaTypes.Model.Normalization
import SchemaTypes.Proofs.FileTree.AnyDepth
import SchemaTypes.Source

/-!
# The module files of a directory

A search of a directory finds the files that one of the wanted patterns leads to and that none of the unwanted
patterns describes. An unwanted name between `**/` and `/**` keeps out what stands at any depth in a directory of
that name, so no module is read from an installed package, unless settings name the unwanted files themselves.

Results:
* `FileTree.mem_findFiles_iff`: which files a search finds.
* `FileTree.trail_of_mem_findFiles`: none of them stands in a directory whose name is unwanted, at any depth.
* `Mongoose.moduleFiles_outside_packages`: so it is for modules and the directories of installed packages.
-/

namespace SchemaTypes

/-! ## What a search finds -/

namespace FileTree

variable {tree : FileTree} {directory path : Path} {wanted unwanted : List String} {files : List Path}

/-- The results of a step that is taken for each element and does not fail. -/
theorem mem_of_mapM_eq_ok {α β ε : Type} {f : α → Except ε β} {xs : List α} {ys : List β}
    (h : xs.mapM f = .ok ys) {y : β} : y ∈ ys ↔ ∃ x ∈ xs, f x = .ok y := by
  induction xs generalizing ys with
  | nil =>
    rw [List.mapM_nil] at h
    rw [← Except.ok.inj h]
    simp
  | cons x xs ih =>
    simp only [List.mapM_cons, bind, bind_eq_ok_iff, pure, Except.pure, Except.ok.injEq] at h
    obtain ⟨first, hfirst, rest, hrest, rfl⟩ := h
    rw [List.mem_cons, ih hrest]
    simp [hfirst, eq_comm]

/-- A search finds the files that a wanted pattern leads to and no unwanted pattern describes. -/
theorem mem_findFiles_iff (h : tree.findFiles directory wanted unwanted = .ok files) :
    path ∈ files ↔ ∃ trail : List String, path = { directory with parts := directory.parts ++ trail } ∧
      (∃ text ∈ wanted, ∃ pattern, SearchPattern.ofString text = .ok pattern ∧
        trail ∈ tree.search directory pattern) ∧
      ∀ text ∈ unwanted, Glob.describesPath ("/".intercalate trail) text = false := by
  obtain ⟨found, hfound, hfiles⟩ := bind_eq_ok_iff.mp h
  have hmem {trail : List String} : trail ∈ found.flatten ↔ ∃ text ∈ wanted, ∃ pattern,
      SearchPattern.ofString text = .ok pattern ∧ trail ∈ tree.search directory pattern := by
    simp only [List.mem_flatten, mem_of_mapM_eq_ok hfound, bind, bind_eq_ok_iff, pure, Except.pure,
      Except.ok.injEq]
    constructor
    · rintro ⟨_, ⟨text, htext, pattern, hpattern, rfl⟩, htrail⟩
      exact ⟨text, htext, pattern, hpattern, htrail⟩
    · rintro ⟨text, htext, pattern, hpattern, htrail⟩
      exact ⟨_, ⟨text, htext, pattern, hpattern, rfl⟩, htrail⟩
  have hkept {trail : List String} :
      (!unwanted.any (Glob.describesPath ("/".intercalate trail))) = true ↔
        ∀ text ∈ unwanted, Glob.describesPath ("/".intercalate trail) text = false := by
    simp
  rw [← Except.ok.inj hfiles, Path.sort, (List.mergeSort_perm _ _).mem_iff]
  simp only [List.mem_map, List.mem_eraseDups, List.mem_filter, hmem, hkept]
  constructor
  · rintro ⟨trail, hfound, rfl⟩
    exact ⟨trail, rfl, hfound⟩
  · rintro ⟨trail, rfl, hfound⟩
    exact ⟨trail, hfound, rfl⟩

/-- No file that is found stands in a directory whose name is unwanted. -/
theorem trail_of_mem_findFiles {name : String} (hplain : Glob.IsPlain name.toList)
    (hname : "**/" ++ name ++ "/**" ∈ unwanted) (h : tree.findFiles directory wanted unwanted = .ok files)
    (hpath : path ∈ files) :
    ∃ trail : List String, path = { directory with parts := directory.parts ++ trail } ∧
      name ∉ trail.dropLast := by
  obtain ⟨trail, htrail, -, hnone⟩ := (mem_findFiles_iff h).mp hpath
  refine ⟨trail, htrail, fun hmem => ?_⟩
  have hdescribed := Glob.describesPath_of_mem hplain hmem
  rw [hnone _ hname] at hdescribed
  cases hdescribed

end FileTree

/-! ## Installed packages -/

/-- No module of a directory stands in a directory of installed packages, at any depth. -/
theorem Mongoose.moduleFiles_outside_packages {tree : FileTree} {search : ModuleSearch} {location path : Path}
    {files : List Path} (hunwanted : search.excludes = ModuleSearch.foreignFiles)
    (hdirectory : tree.isFile location = false) (h : moduleFiles tree search location = .ok files)
    (hpath : path ∈ files) :
    ∃ trail : List String, path = { location with parts := location.parts ++ trail } ∧
      "node_modules" ∉ trail.dropLast := by
  unfold moduleFiles at h
  split at h
  · cases h
  · rw [hdirectory, if_neg Bool.false_ne_true] at h
    cases hfound : tree.findFiles location search.includes search.excludes with
    | error e =>
      rw [hfound] at h
      cases h
    | ok found =>
      rw [hfound] at h
      rw [← Except.ok.inj h] at hpath
      have hplain : Glob.IsPlain "node_modules".toList := by decide
      have hname : "**/" ++ "node_modules" ++ "/**" ∈ search.excludes := by
        rw [hunwanted]
        decide
      exact FileTree.trail_of_mem_findFiles hplain hname hfound hpath

end SchemaTypes
