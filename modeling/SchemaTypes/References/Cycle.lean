import SchemaTypes.References.Component

/-!
# Reference cycles

A cycle leads from a model along references back to it and meets at least two models, each once. It
is written with the first model again at its end. Two cycles are the same if one is a rotation of
the other; a cycle is told from others by its key, the rotation that starts with its smallest name.

The search follows paths from every model in order. A cycle never leaves a component, so a path is
dropped when it does, and the component that it leads to is searched for itself, each component
once. The search ends when it has found as many cycles as are reported.

Results: `key_rotation`, the key of a cycle is one of its rotations; `follow_out`, `follow_back` and
`follow_on`, the three ways on from the end of a path.
-/

namespace SchemaTypes.References

/-! ## Keys -/

/-- The smallest of some names. -/
def smallest? : List String → Option String
  | [] => none
  | name :: names =>
    match smallest? names with
    | none => some name
    | some least => if least < name then some least else some name

/-- The nodes of a cycle, rotated so that the smallest comes first. -/
def rotationKey? (nodes : List String) : Option (List String) :=
  (smallest? nodes).map fun least =>
    nodes.dropWhile (· != least) ++ nodes.takeWhile (· != least)

/-- The key of a closed cycle; there is none if the cycle has no nodes. -/
def cycleKey? (cycle : List String) : Option (List String) :=
  rotationKey? cycle.dropLast

theorem key_rotation {nodes key : List String} (h : rotationKey? nodes = some key) :
    ∃ front back, nodes = front ++ back ∧ key = back ++ front := by
  obtain ⟨least, _, rfl⟩ := Option.map_eq_some_iff.1 h
  exact ⟨nodes.takeWhile (· != least), nodes.dropWhile (· != least),
    (List.takeWhile_append_dropWhile).symm, rfl⟩

/-- The cycle in one line. -/
def cycleText (cycle : List String) : String :=
  " -> ".intercalate cycle

/-! ## Search -/

/-- How many cycles are reported at most. -/
def cycleLimit : Nat := 50

/-- The cycles found so far and the components that were searched. -/
structure Search where
  cycles : List (List String) := []
  searched : List Nat := []

namespace Search

/-- Whether no further cycle is reported. -/
def isFull (s : Search) : Bool :=
  cycleLimit ≤ s.cycles.length

/-- The search with a cycle, unless a rotation of it was found before. -/
def record (s : Search) (cycle : List String) : Search :=
  if s.cycles.any fun other => cycleKey? other == cycleKey? cycle then s
  else { s with cycles := s.cycles ++ [cycle] }

end Search

/-- The cycle that closes when a path leads back to one of its nodes. -/
def closedCycle (path : List String) (node : String) : List String :=
  path.dropWhile (· != node) ++ [node]

namespace Search

variable (number : String → Nat) (explore : (path : List String) → String → Search → Search)

/-- The search started at a model, unless its component was searched before. `explore` continues a
search at the end of a path. -/
def enter (s : Search) (node : String) : Search :=
  if s.searched.contains (number node) then s
  else explore [] node { s with searched := number node :: s.searched }

/-- A reference followed from the end of a trail, which is a path with its last node. -/
def follow (trail : List String) (node : String) (s : Search) (target : String) : Search :=
  if s.isFull || target == node then s
  else if number target != number node then s.enter number explore target
  else if trail.contains target then s.record (closedCycle trail target)
  else explore trail target s

variable {number explore} {trail : List String} {node : String} {s : Search} {target : String}

theorem enter_searched (h : number node ∈ s.searched) : s.enter number explore node = s := by
  simp [enter, h]

theorem enter_new (h : number node ∉ s.searched) :
    s.enter number explore node =
      explore [] node { s with searched := number node :: s.searched } := by
  simp [enter, h]

theorem follow_full (h : s.isFull) : s.follow number explore trail node target = s := by
  simp [follow, h]

theorem follow_self : s.follow number explore trail node node = s := by
  simp [follow]

theorem follow_out (h : ¬ s.isFull) (hne : number target ≠ number node) :
    s.follow number explore trail node target = s.enter number explore target := by
  have hself : target ≠ node := fun he => hne (he ▸ rfl)
  simp [follow, h, hself, hne]

theorem follow_back (h : ¬ s.isFull) (hself : target ≠ node) (he : number target = number node)
    (hmem : target ∈ trail) :
    s.follow number explore trail node target = s.record (closedCycle trail target) := by
  simp [follow, h, hself, he, hmem]

theorem follow_on (h : ¬ s.isFull) (hself : target ≠ node) (he : number target = number node)
    (hmem : target ∉ trail) :
    s.follow number explore trail node target = explore trail target s := by
  simp [follow, h, hself, he, hmem]

end Search

/-- The search continued at the end of a path. `path` holds the nodes before; the fuel bounds the
number of nodes that are searched at the same time. -/
def explore (next : String → List String) (number : String → Nat) :
    (fuel : Nat) → (path : List String) → (node : String) → Search → Search
  | 0, _, _, s => s
  | fuel + 1, path, node, s =>
    if s.isFull then s
    else (next node).foldl (Search.follow number (explore next number fuel) (path ++ [node]) node) s

/-- The cycles of the graph, up to the limit. -/
def Graph.cycles (g : Graph) : List (List String) :=
  let numbers := g.componentNumbers
  let number (node : String) : Nat := (numbers.lookup node).getD 0
  (g.order.foldl (Search.enter number (explore g.references number (g.order.length + 1))) {}).cycles

end SchemaTypes.References
