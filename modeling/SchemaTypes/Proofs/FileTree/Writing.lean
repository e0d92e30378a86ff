import SchemaTypes.FileTree.Basic

/-!
# Writing to a file tree

A write makes the directories above its path and stores one file. Nothing that stands in the tree
goes away, and the only file that changes is the one at the place of the path. Since a path is
followed through directories alone, every path that led to a place before a write leads there
afterwards.

Results:
* `place_of_keeps`: where the directories stay, paths lead where they led before.
* `ensureDirectory_extends`: making directories changes nothing that stands in the tree.
* `writeText_stored`, `readText_of_file`: what a write that does not fail leaves behind, and what is
  read there.
* `writeText_nul`: the paths that cannot be handed over.
-/

namespace SchemaTypes.FileTree

/-! ## Trees that keep what stands in another one -/

/-- The later tree has the same home, and every directory is still one. -/
structure KeepsDirectories (tree later : FileTree) : Prop where
  home : later.home = tree.home
  directory : ∀ place, tree.node? place = some .directory → later.node? place = some .directory

/-- The later tree has the same home, and everything still stands at its place. -/
structure Extends (tree later : FileTree) : Prop where
  home : later.home = tree.home
  node : ∀ place node, tree.node? place = some node → later.node? place = some node

variable {tree next later : FileTree}

theorem KeepsDirectories.refl (tree : FileTree) : KeepsDirectories tree tree :=
  ⟨rfl, fun _ h => h⟩

theorem KeepsDirectories.trans (h : KeepsDirectories tree next) (h' : KeepsDirectories next later) :
    KeepsDirectories tree later :=
  ⟨h'.home.trans h.home, fun place hplace => h'.directory place (h.directory place hplace)⟩

theorem Extends.refl (tree : FileTree) : Extends tree tree :=
  ⟨rfl, fun _ _ h => h⟩

theorem Extends.trans (h : Extends tree next) (h' : Extends next later) : Extends tree later :=
  ⟨h'.home.trans h.home, fun place node hnode => h'.node place node (h.node place node hnode)⟩

theorem Extends.keepsDirectories (h : Extends tree later) : KeepsDirectories tree later :=
  ⟨h.home, fun place hplace => h.node place _ hplace⟩

@[simp] theorem put_home (tree : FileTree) (place : List String) (node : Node) :
    (tree.put place node).home = tree.home := rfl

/-- A node put where no directory stands. -/
theorem put_keepsDirectories {place : List String} (h : tree.node? place ≠ some .directory) (node : Node) :
    KeepsDirectories tree (tree.put place node) := by
  refine ⟨rfl, fun other hother => ?_⟩
  have hne : other ≠ place := by
    rintro rfl
    exact h hother
  rw [node?_put_of_ne tree hne, hother]

/-- A node put where nothing stands. -/
theorem put_extends {place : List String} (h : tree.node? place = none) (node : Node) :
    Extends tree (tree.put place node) := by
  refine ⟨rfl, fun other old hold => ?_⟩
  have hne : other ≠ place := by
    rintro rfl
    simp [h] at hold
  rw [node?_put_of_ne tree hne, hold]

/-! ## Places -/

theorem follow_of_keeps (h : KeepsDirectories tree later) {start parts place : List String}
    (hplace : tree.follow start parts = .ok place) : later.follow start parts = .ok place := by
  induction parts generalizing start with
  | nil => simpa [follow] using hplace
  | cons part rest ih =>
    rw [follow] at hplace ⊢
    split at hplace
    · rename_i hup
      rw [if_pos hup]
      exact ih hplace
    rename_i hup
    rw [if_neg hup]
    split at hplace
    · simp at hplace
    rename_i hshort
    rw [if_neg hshort]
    split at hplace
    · rename_i hlast
      rw [if_pos hlast]
      exact hplace
    rename_i hlast
    rw [if_neg hlast]
    split at hplace
    · rename_i hdirectory
      rw [h.directory _ hdirectory]
      exact ih hplace
    · simp at hplace
    · simp at hplace

/-- A path leads where it led before as long as the directories stay. -/
theorem place_of_keeps (h : KeepsDirectories tree later) {path : Path} {place : List String}
    (hplace : tree.place path = .ok place) : later.place path = .ok place := by
  unfold FileTree.place at hplace ⊢
  split at hplace
  · simp at hplace
  rename_i hnul
  rw [if_neg hnul]
  split at hplace
  · simp at hplace
  rename_i hshort
  rw [if_neg hshort, h.home]
  exact follow_of_keeps h hplace

theorem get_of_place {path : Path} {place : List String} {node : Node}
    (hplace : tree.place path = .ok place) (hnode : tree.node? place = some node) :
    tree.get path = .ok node := by
  simp [get, hplace, hnode, bind, Except.bind, pure, Except.pure]

theorem readBytes_of_file {path : Path} {place : List String} {bytes : ByteArray}
    (hplace : tree.place path = .ok place) (hfile : tree.node? place = some (.file bytes)) :
    tree.readBytes path = .ok bytes := by
  rw [readBytes, get_of_place hplace hfile]
  rfl

/-- A text that was written is read with unified line ends. -/
theorem readText_of_file {path : Path} {place : List String} {text : String}
    (hplace : tree.place path = .ok place) (hfile : tree.node? place = some (.file text.toUTF8)) :
    tree.readText path = .ok (String.ofList (Text.unifyEnds text.toList)) := by
  simp only [readText, readBytes_of_file hplace hfile, decode_toUTF8]

/-! ## Directories -/

theorem makeDirectory_extends {path : Path} (h : tree.makeDirectory path = .ok later) :
    Extends tree later := by
  simp only [makeDirectory, bind, Except.bind] at h
  split at h
  · simp at h
  split at h
  · simp [throw, throwThe, MonadExceptOf.throw] at h
  · rename_i hnone
    simp only [pure, Except.pure, Except.ok.injEq] at h
    subst h
    exact put_extends hnone .directory

@[simp] theorem acceptDirectory_tree (tree : FileTree) (path : Path) (e : FileError) :
    (tree.acceptDirectory path e).tree = tree := by
  unfold acceptDirectory
  split <;> rfl

/-- Directories made above a path change nothing that stands in the tree. -/
theorem ensureDirectory_extends (tree : FileTree) (depth : Nat) (path : Path) :
    Extends tree (tree.ensureDirectory depth path).tree := by
  induction depth generalizing path with
  | zero =>
    unfold ensureDirectory
    split
    · exact Extends.refl tree
    split
    · exact makeDirectory_extends ‹_›
    · exact Extends.refl tree
    · simpa using Extends.refl tree
  | succ depth ih =>
    unfold ensureDirectory
    split
    · exact Extends.refl tree
    split
    · exact makeDirectory_extends ‹_›
    · split
      · rename_i hdepth _
        cases hdepth
        have habove := ih path.parent
        dsimp only
        split
        · exact habove
        split
        · exact habove.trans (makeDirectory_extends ‹_›)
        · simpa using habove
      · exact Extends.refl tree
    · simpa using Extends.refl tree

/-! ## Files -/

/-- What a write leaves behind: the bytes at the place of the path, and everything else as it was. -/
structure Stored (tree later : FileTree) (path : Path) (bytes : ByteArray) (place : List String) :
    Prop where
  keeps : KeepsDirectories tree later
  leads : later.place path = .ok place
  file : later.node? place = some (.file bytes)
  others : ∀ other node, other ≠ place → tree.node? other = some node →
    later.node? other = some node

theorem Stored.of_extends {path : Path} {bytes : ByteArray} {place : List String}
    (h : Extends tree next) (hstored : Stored next later path bytes place) :
    Stored tree later path bytes place :=
  { hstored with
    keeps := h.keepsDirectories.trans hstored.keeps
    others := fun other node hne hnode => hstored.others other node hne (h.node other node hnode) }

theorem writeBytes_stored {path : Path} {bytes : ByteArray}
    (h : tree.writeBytes path bytes = .ok later) : ∃ place, Stored tree later path bytes place := by
  simp only [writeBytes, bind, Except.bind] at h
  split at h
  · simp at h
  rename_i place hplace
  split at h
  · simp [throw, throwThe, MonadExceptOf.throw] at h
  rename_i hfile
  simp only [pure, Except.pure, Except.ok.injEq] at h
  subst h
  -- The root is a directory, so a file never stands there.
  have hroot : place ≠ [] := by
    rintro rfl
    exact hfile (by simp [node?])
  have hkeeps := put_keepsDirectories hfile (.file bytes)
  refine ⟨place, hkeeps, place_of_keeps hkeeps hplace, node?_put_self tree hroot _, ?_⟩
  intro other node hne hnode
  rw [node?_put_of_ne tree hne, hnode]

/-- What a write that does not fail leaves behind. -/
theorem writeText_stored {path : Path} {text : String}
    (h : (tree.writeText path text).failure = none) :
    ∃ place, Stored tree (tree.writeText path text).tree path text.toUTF8 place := by
  have hextends := ensureDirectory_extends tree path.parts.length path.parent
  unfold writeText at h ⊢
  dsimp only at h ⊢
  split at h
  · rename_i habove
    simp [h] at habove
  rename_i habove
  rw [if_neg habove]
  split at h
  · simp at h
  rename_i hnul
  rw [if_neg hnul]
  split at h
  · rename_i hwritten
    obtain ⟨place, hstored⟩ := writeBytes_stored hwritten
    exact ⟨place, hstored.of_extends hextends⟩
  · simp at h

/-! ## Paths that cannot be handed over -/

theorem holdsNul_of_parent {path : Path} (h : path.parent.holdsNul = true) :
    path.holdsNul = true := by
  simp only [Path.holdsNul, Path.parent, List.any_eq_true] at h ⊢
  obtain ⟨part, hpart, hnul⟩ := h
  exact ⟨part, List.dropLast_subset _ hpart, hnul⟩

theorem acceptDirectory_ne_nul (tree : FileTree) (path : Path) (e : FileError) :
    (tree.acceptDirectory path e).failure ≠ some .nul := by
  unfold acceptDirectory
  split <;> simp

theorem ensureDirectory_nul {depth : Nat} {path : Path}
    (h : (tree.ensureDirectory depth path).failure = some .nul) : path.holdsNul = true := by
  induction depth generalizing path with
  | zero =>
    unfold ensureDirectory at h
    split at h
    · assumption
    split at h
    · simp at h
    · simp at h
    · exact absurd h (acceptDirectory_ne_nul tree path _)
  | succ depth ih =>
    unfold ensureDirectory at h
    split at h
    · assumption
    split at h
    · simp at h
    · split at h
      · rename_i hdepth _
        cases hdepth
        dsimp only at h
        split at h
        · exact holdsNul_of_parent (ih h)
        split at h
        · simp at h
        · exact absurd h (acceptDirectory_ne_nul _ path _)
      · simp at h
    · exact absurd h (acceptDirectory_ne_nul tree path _)

/-- Only a path with the character that ends a text cannot be handed over. -/
theorem writeText_nul {path : Path} {text : String}
    (h : (tree.writeText path text).failure = some .nul) : path.holdsNul = true := by
  unfold writeText at h
  dsimp only at h
  split at h
  · exact holdsNul_of_parent (ensureDirectory_nul h)
  split at h
  · assumption
  split at h <;> simp at h

end SchemaTypes.FileTree
