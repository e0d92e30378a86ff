import SchemaTypes.Proofs.References.Rotation

/-!
# Keys of cycles

The nodes of a cycle that meets each of them once have as many rotations as there are nodes, and one of them
starts with the smallest node. That one is the key of the cycle, wherever the cycle was entered. What starts with
its smallest node is its own key, so cycles are compared up to rotation by comparing their keys.

Results:
* `StartsSmallest.rotationKey?`: what starts with its smallest node is its own key.
* `rotationKey?_eq_some_iff`: the key is the rotation that starts with the smallest node, and the only one.
* `cycleKey_canonical`: closed cycles have the same key exactly if one is a rotation of the other, and there
  always is a key.
-/

namespace SchemaTypes.References

variable {nodes key : List String}

/-! ## Rotations that start with the smallest node -/

/-- The first of some nodes is the smallest of them. -/
def StartsSmallest (nodes : List String) : Prop :=
  ∃ least rest, nodes = least :: rest ∧ ∀ x ∈ nodes, least ≤ x

theorem rotationKey?_isRotated (h : rotationKey? nodes = some key) : key ~r nodes := by
  obtain ⟨front, back, rfl, rfl⟩ := key_rotation h
  exact List.isRotated_append

theorem rotationKey?_startsSmallest (h : rotationKey? nodes = some key) : StartsSmallest key := by
  have hrotated := rotationKey?_isRotated h
  obtain ⟨least, hleast, rfl⟩ := Option.map_eq_some_iff.mp h
  obtain ⟨hmem, hle⟩ := smallest?_spec hleast
  obtain ⟨front, back, rfl, hfront⟩ := List.eq_append_cons_of_mem hmem
  refine ⟨least, back ++ front, ?_, fun x hx => hle x (hrotated.mem_iff.mp hx)⟩
  rw [dropWhile_cut hfront, takeWhile_cut hfront, List.cons_append]

theorem exists_rotationKey? (h : nodes ≠ []) : ∃ key, rotationKey? nodes = some key := by
  obtain ⟨least, hleast⟩ := Option.ne_none_iff_exists'.mp (mt smallest?_eq_none_iff.mp h)
  exact ⟨_, Option.map_eq_some_iff.mpr ⟨least, hleast, rfl⟩⟩

/-- What starts with its smallest node is its own key. -/
theorem StartsSmallest.rotationKey? (h : StartsSmallest nodes) : rotationKey? nodes = some nodes := by
  obtain ⟨first, rest, rfl, hfirst⟩ := h
  obtain ⟨key, hkey⟩ := exists_rotationKey? (List.cons_ne_nil first rest)
  obtain ⟨least, hleast, rfl⟩ := Option.map_eq_some_iff.mp hkey
  obtain ⟨hmem, hle⟩ := smallest?_spec hleast
  have hsame : least = first := String.le_antisymm (hle first List.mem_cons_self) (hfirst least hmem)
  rw [hkey, hsame]
  simp

/-- The key is the rotation that starts with the smallest node. -/
theorem rotationKey?_eq_some_iff (hnodup : nodes.Nodup) :
    rotationKey? nodes = some key ↔ key ~r nodes ∧ StartsSmallest key := by
  constructor
  · intro h
    exact ⟨rotationKey?_isRotated h, rotationKey?_startsSmallest h⟩
  · rintro ⟨hrotated, hstarts⟩
    rw [← (rotationKey_eq_iff hnodup).mpr hrotated, hstarts.rotationKey?]

/-! ## Closed cycles -/

theorem cycleKey?_closed (nodes : List String) (first : String) :
    cycleKey? (nodes ++ [first]) = rotationKey? nodes := by
  rw [cycleKey?, List.dropLast_concat]

/-- Closed cycles have the same key exactly if the nodes of one are a rotation of those of the other, and the
key of a cycle is a rotation of its nodes that starts with the smallest. -/
theorem cycleKey_canonical {a b : String} {s t : List String} (ha : (a :: s).Nodup) (hb : (b :: t).Nodup) :
    (cycleKey? (a :: s ++ [a]) = cycleKey? (b :: t ++ [b]) ↔ (a :: s) ~r (b :: t)) ∧
      ∃ key, cycleKey? (a :: s ++ [a]) = some key ∧ key ~r (a :: s) ∧ StartsSmallest key := by
  rw [cycleKey?_closed, cycleKey?_closed]
  obtain ⟨key, hkey⟩ := exists_rotationKey? (List.cons_ne_nil a s)
  exact ⟨rotationKey_eq_iff hb, key, hkey, (rotationKey?_eq_some_iff ha).mp hkey⟩

theorem cycleKey_canonical_blog :
    (["User", "Post", "Blog"].Nodup ∧ ["Post", "Blog", "User"].Nodup) ∧
      (cycleKey? ["User", "Post", "Blog", "User"] = cycleKey? ["Post", "Blog", "User", "Post"] ↔
        ["User", "Post", "Blog"] ~r ["Post", "Blog", "User"]) ∧
      ∃ key, cycleKey? ["User", "Post", "Blog", "User"] = some key ∧
        key ~r ["User", "Post", "Blog"] ∧ StartsSmallest key := by
  have huser : ["User", "Post", "Blog"].Nodup := by decide
  have hpost : ["Post", "Blog", "User"].Nodup := by decide
  exact ⟨⟨huser, hpost⟩, cycleKey_canonical huser hpost⟩

end SchemaTypes.References
