import SchemaTypes.Proofs.FileTree.PathText
import SchemaTypes.Proofs.FileTree.Writing

/-!
# Writing over a file

A proper tree is one as a file system keeps it: whatever stands in it stands in a directory, and the home
directory is one. The empty tree is proper, and a write keeps a tree so, since a path is followed through
directories alone.

In a proper tree the path of a file leads through the directory in which the file stands. So a write to the
path finds that directory, makes none and cannot fail. It changes the bytes of the file and nothing else.

Results:
* `isProper_empty`, `writeText_isProper`: proper trees, and that they stay so.
* `place_child`: where a path leads, its parent leads to the directory above.
* `ensureDirectory_of_directory`, `writeText_of_file`: nothing is made where a directory is, and what a write
  over a file does.
-/

namespace SchemaTypes

namespace FileTree

/-! ## Proper trees -/

/-- The home directory is a directory, and everything else stands in one. -/
structure IsProper (tree : FileTree) : Prop where
  home : tree.node? tree.home = some .directory
  above : ∀ place name node, tree.node? (place ++ [name]) = some node →
    tree.node? place = some .directory

variable {tree later : FileTree} {above place : List String} {name : String} {node : Node}

theorem mem_of_find {nodes : List (List String × Node)} (h : find place nodes = some node) :
    (place, node) ∈ nodes := by
  induction nodes with
  | nil => simp [find] at h
  | cons e rest ih =>
    rw [find] at h
    split at h
    · rename_i heq
      obtain rfl := Option.some.inj h
      exact heq ▸ List.mem_cons_self
    · exact List.mem_cons_of_mem _ (ih h)

theorem exists_find_of_mem {nodes : List (List String × Node)} (h : (place, node) ∈ nodes) :
    ∃ found, find place nodes = some found := by
  induction nodes with
  | nil => simp at h
  | cons e rest ih =>
    rw [find]
    split
    · exact ⟨_, rfl⟩
    · rename_i hne
      rcases List.mem_cons.mp h with rfl | h
      · exact absurd rfl hne
      · exact ih h

/-- In the empty tree stand the directories on the way to its home. -/
theorem node?_empty_iff (home : List String) :
    (empty home).node? place = some node ↔ node = .directory ∧ place <+: home := by
  have hmem (place : List String) (node : Node) : (place, node) ∈ (empty home).nodes ↔
      node = .directory ∧ ∃ n < home.length, home.take (n + 1) = place := by
    simp only [empty, List.mem_map, List.mem_range, Prod.mk.injEq]
    constructor
    · rintro ⟨n, hn, hplace, hnode⟩
      exact ⟨hnode.symm, n, hn, hplace⟩
    · rintro ⟨hnode, n, hn, hplace⟩
      exact ⟨n, hn, hplace, hnode.symm⟩
  by_cases hroot : place = []
  · simp [node?, hroot, eq_comm]
  have hfind : (empty home).node? place = find place (empty home).nodes := by
    simp [node?, hroot]
  rw [hfind]
  constructor
  · intro h
    obtain ⟨hnode, n, -, rfl⟩ := (hmem place node).mp (mem_of_find h)
    exact ⟨hnode, List.take_prefix _ _⟩
  · rintro ⟨rfl, hprefix⟩
    have hlength : 0 < place.length := List.length_pos_iff.mpr hroot
    have hle := hprefix.length_le
    obtain ⟨found, hfound⟩ := exists_find_of_mem ((hmem place .directory).mpr
      ⟨rfl, place.length - 1, by omega, by
        rw [Nat.sub_add_cancel hlength, ← List.prefix_iff_eq_take.mp hprefix]⟩)
    rw [hfound, ((hmem place found).mp (mem_of_find hfound)).1]

theorem isProper_empty (home : List String) : (empty home).IsProper where
  home := (node?_empty_iff home).mpr ⟨rfl, List.prefix_rfl⟩
  above place name node h := by
    obtain ⟨-, hprefix⟩ := (node?_empty_iff home).mp h
    exact (node?_empty_iff home).mpr ⟨rfl, (List.prefix_append place [name]).trans hprefix⟩

/-- A node put into a directory, unless it takes the place of a directory. -/
theorem IsProper.put (h : tree.IsProper) (habove : tree.node? above = some .directory)
    (hnode : node = .directory ∨ tree.node? (above ++ [name]) ≠ some .directory) :
    (tree.put (above ++ [name]) node).IsProper := by
  have hdirectory (place : List String) (hplace : tree.node? place = some .directory) :
      (tree.put (above ++ [name]) node).node? place = some .directory := by
    by_cases heq : place = above ++ [name]
    · subst heq
      rcases hnode with rfl | hnode
      · exact node?_put_self tree (by simp) _
      · exact absurd hplace hnode
    · rw [node?_put_of_ne tree heq, hplace]
  refine ⟨hdirectory _ h.home, fun place other found hfound => hdirectory place ?_⟩
  by_cases heq : place ++ [other] = above ++ [name]
  · rw [(List.append_inj' heq rfl).1, habove]
  · rw [node?_put_of_ne tree heq] at hfound
    exact h.above place other found hfound

/-- Above a directory there is a directory. -/
theorem IsProper.node?_dropLast (h : tree.IsProper) (hplace : tree.node? place = some .directory) :
    tree.node? place.dropLast = some .directory := by
  rcases List.eq_nil_or_concat place with rfl | ⟨start, last, rfl⟩
  · exact hplace
  · rw [List.concat_eq_append] at hplace ⊢
    rw [List.dropLast_concat]
    exact h.above start last _ hplace

/-- A path leads to a directory or to a name in one. -/
theorem IsProper.follow_cases (h : tree.IsProper) {start parts : List String}
    (hstart : tree.node? start = some .directory) (hplace : tree.follow start parts = .ok place) :
    tree.node? place = some .directory ∨
      ∃ above name, place = above ++ [name] ∧ tree.node? above = some .directory := by
  induction parts generalizing start with
  | nil =>
    obtain rfl : start = place := by simpa [follow] using hplace
    exact Or.inl hstart
  | cons part rest ih =>
    rw [follow] at hplace
    split at hplace
    · exact ih (h.node?_dropLast hstart) hplace
    split at hplace
    · simp at hplace
    split at hplace
    · exact Or.inr ⟨start, part, (Except.ok.inj hplace).symm, hstart⟩
    split at hplace
    · exact ih ‹_› hplace
    · simp at hplace
    · simp at hplace

theorem IsProper.place_cases (h : tree.IsProper) {path : Path} (hplace : tree.place path = .ok place) :
    tree.node? place = some .directory ∨
      ∃ above name, place = above ++ [name] ∧ tree.node? above = some .directory := by
  unfold FileTree.place at hplace
  split at hplace
  · simp at hplace
  split at hplace
  · simp at hplace
  split at hplace
  · exact h.follow_cases rfl hplace
  · exact h.follow_cases h.home hplace

theorem makeDirectory_isProper (h : tree.IsProper) {path : Path}
    (hmade : tree.makeDirectory path = .ok later) : later.IsProper := by
  simp only [makeDirectory, bind, Except.bind] at hmade
  split at hmade
  · simp at hmade
  rename_i place hplace
  split at hmade
  · simp [throw, throwThe, MonadExceptOf.throw] at hmade
  rename_i hnone
  simp only [pure, Except.pure, Except.ok.injEq] at hmade
  subst hmade
  rcases h.place_cases hplace with hdirectory | ⟨above, name, rfl, habove⟩
  · simp [hnone] at hdirectory
  · exact h.put habove (Or.inl rfl)

theorem ensureDirectory_isProper (h : tree.IsProper) (depth : Nat) (path : Path) :
    (tree.ensureDirectory depth path).tree.IsProper := by
  induction depth generalizing path with
  | zero =>
    unfold ensureDirectory
    split
    · exact h
    split
    · exact makeDirectory_isProper h ‹_›
    · exact h
    · simpa using h
  | succ depth ih =>
    unfold ensureDirectory
    split
    · exact h
    split
    · exact makeDirectory_isProper h ‹_›
    · split
      · rename_i hdepth _
        cases hdepth
        have habove := ih path.parent
        dsimp only
        split
        · exact habove
        split
        · exact makeDirectory_isProper habove ‹_›
        · simpa using habove
      · exact h
    · simpa using h

theorem writeBytes_isProper (h : tree.IsProper) {path : Path} {bytes : ByteArray}
    (hwritten : tree.writeBytes path bytes = .ok later) : later.IsProper := by
  simp only [writeBytes, bind, Except.bind] at hwritten
  split at hwritten
  · simp at hwritten
  rename_i place hplace
  split at hwritten
  · simp [throw, throwThe, MonadExceptOf.throw] at hwritten
  rename_i hother
  simp only [pure, Except.pure, Except.ok.injEq] at hwritten
  subst hwritten
  rcases h.place_cases hplace with hdirectory | ⟨above, name, rfl, habove⟩
  · exact absurd hdirectory hother
  · exact h.put habove (Or.inr hother)

/-- A write keeps a tree proper, whether it fails or not. -/
theorem writeText_isProper (h : tree.IsProper) (path : Path) (text : String) :
    (tree.writeText path text).tree.IsProper := by
  have habove := ensureDirectory_isProper h path.parts.length path.parent
  unfold writeText
  dsimp only
  split
  · exact habove
  split
  · exact habove
  split
  · exact writeBytes_isProper habove ‹_›
  · exact habove

/-! ## The directory above -/

/-- Behind the directory above, the last name is all that is left of the way. -/
theorem follow_concat {start parts : List String} (hname : name ≠ "..")
    (h : tree.follow start (parts ++ [name]) = .ok place) :
    ∃ above, tree.follow start parts = .ok above ∧ place = above ++ [name] := by
  induction parts generalizing start with
  | nil =>
    refine ⟨start, rfl, ?_⟩
    rw [List.nil_append, follow, if_neg (by simpa using hname)] at h
    split at h
    · simp at h
    · simpa using h.symm
  | cons part rest ih =>
    rw [List.cons_append, follow] at h
    rw [follow]
    split at h
    · rename_i hup
      rw [if_pos hup]
      exact ih h
    rename_i hup
    rw [if_neg hup]
    split at h
    · simp at h
    rename_i hshort
    rw [if_neg hshort]
    rw [if_neg (by simp)] at h
    split at h
    · rename_i hdirectory
      obtain ⟨above, habove, hplace⟩ := ih h
      refine ⟨above, ?_, hplace⟩
      split
      · -- The directory itself is the last one on the way.
        rename_i hlast
        rw [List.isEmpty_iff] at hlast
        subst hlast
        simpa [follow] using habove
      · exact habove
    · simp at h
    · simp at h

theorem utf8ByteSize_toString_le (path : Path) (name : String) :
    path.toString.utf8ByteSize ≤ max 1 (path.child name).toString.utf8ByteSize := by
  obtain ⟨root, parts⟩ := path
  have hchild : (Path.child ⟨root, parts⟩ name).toString = root ++ "/".intercalate (parts ++ [name]) := by
    simp [Path.toString, Path.child]
  have hpoint : ".".utf8ByteSize = 1 := by decide
  rw [hchild, Path.toString]
  split
  · omega
  · cases parts with
    | nil =>
      simp only [String.intercalate_nil, String.utf8ByteSize_append, String.utf8ByteSize_empty]
      omega
    | cons first rest =>
      rw [String.intercalate_append_of_ne_nil (by simp) (by simp)]
      simp only [String.utf8ByteSize_append]
      omega

/-- Where a path leads, its parent leads to the directory above. -/
theorem place_child {path : Path} (hname : name ≠ "..") (h : tree.place (path.child name) = .ok place) :
    ∃ above, tree.place path = .ok above ∧ place = above ++ [name] := by
  unfold FileTree.place at h ⊢
  split at h
  · simp at h
  rename_i hnul
  split at h
  · simp at h
  rename_i hshort
  have hlength := utf8ByteSize_toString_le path name
  have hlimit : 1 ≤ pathLimit := by decide
  rw [if_neg fun hparent => hnul (holdsNul_of_parent (by rwa [Path.parent_child])), if_neg (by omega)]
  exact follow_concat hname h

/-! ## Writing -/

theorem not_holdsNul_of_place {path : Path} (h : tree.place path = .ok place) : path.holdsNul = false := by
  unfold FileTree.place at h
  split at h
  · simp at h
  · rename_i hnul
    simpa using hnul

/-- Where a directory is, none is made. -/
theorem ensureDirectory_of_directory {path : Path} (hplace : tree.place path = .ok place)
    (hnode : tree.node? place = some .directory) (depth : Nat) :
    tree.ensureDirectory depth path = ⟨tree, none⟩ := by
  have hmade : tree.makeDirectory path = .error .taken := by
    simp [makeDirectory, hplace, hnode, bind, Except.bind, throw, throwThe, MonadExceptOf.throw]
  have haccepted : tree.acceptDirectory path .taken = ⟨tree, none⟩ := by
    simp [acceptDirectory, isDirectory, get_of_place hplace hnode]
  unfold ensureDirectory
  simp only [not_holdsNul_of_place hplace, hmade, haccepted, Bool.false_eq_true, if_false]

/-- A write over a file puts the new bytes in its place. -/
theorem writeText_of_file (htree : tree.IsProper) {path : Path} {bytes : ByteArray} (hname : name ≠ "..")
    (hplace : tree.place (path.child name) = .ok place) (hfile : tree.node? place = some (.file bytes))
    (text : String) :
    tree.writeText (path.child name) text = ⟨tree.put place (.file text.toUTF8), none⟩ := by
  obtain ⟨above, habove, rfl⟩ := place_child hname hplace
  have hdirectory := htree.above above name _ hfile
  have hwritten : tree.writeBytes (path.child name) text.toUTF8 =
      .ok (tree.put (above ++ [name]) (.file text.toUTF8)) := by
    simp [writeBytes, hplace, hfile, bind, Except.bind, pure, Except.pure]
  unfold writeText
  rw [Path.parent_child, ensureDirectory_of_directory habove hdirectory]
  dsimp only
  rw [if_neg (by simp), if_neg (by simp [not_holdsNul_of_place hplace]), hwritten]

end FileTree

end SchemaTypes
