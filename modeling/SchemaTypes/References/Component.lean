import SchemaTypes.References.Graph

/-!
# Components

Two models belong to one component if each can be reached from the other along references. One
depth-first search finds all components (Tarjan). It enters every model once and gives it an index.
A model that was entered is kept on a stack until its component is complete. This is so when no
reference leads from a model, or from one that was entered after it, to a model below it on the
stack: the model and all above it are then taken from the stack and get the next number.

Results: `complete_split`, the component that is complete is the part of the stack down to its root;
`index_enter`, entering a model keeps the indices of those before it.
-/

namespace SchemaTypes.References

/-! ## Lists cut at a name -/

theorem takeWhile_cut {name : String} {front back : List String} (h : name ∉ front) :
    (front ++ name :: back).takeWhile (· != name) = front := by
  rw [List.takeWhile_append_of_pos]
  · simp
  · intro x hx
    simp only [bne_iff_ne, ne_eq]
    rintro rfl
    exact h hx

theorem dropWhile_cut {name : String} {front back : List String} (h : name ∉ front) :
    (front ++ name :: back).dropWhile (· != name) = name :: back := by
  rw [List.dropWhile_append_of_pos]
  · simp
  · intro x hx
    simp only [bne_iff_ne, ne_eq]
    rintro rfl
    exact h hx

/-! ## The state of the search -/

/-- The models that were entered, in order; those without a component, latest first; the first model
of each component that is complete, and the models with the numbers of their components. -/
structure Survey where
  entered : List String := []
  stack : List String := []
  roots : List String := []
  numbers : List (String × Nat) := []

namespace Survey

/-- The index of a model: how many models were entered before it. -/
def index (s : Survey) (node : String) : Nat :=
  s.entered.idxOf node

/-- A model entered. -/
def enter (s : Survey) (node : String) : Survey :=
  { s with entered := s.entered ++ [node], stack := node :: s.stack }

/-- The stack down to the root taken off as the next component. -/
def complete (s : Survey) (root : String) : Survey :=
  let members := s.stack.takeWhile (· != root) ++ [root]
  { s with
    stack := (s.stack.dropWhile (· != root)).tail
    roots := s.roots ++ [root]
    numbers := s.numbers ++ members.map fun member => (member, s.roots.length) }

theorem index_enter {s : Survey} {node x : String} (h : x ∈ s.entered) :
    (s.enter node).index x = s.index x := by
  simp [index, enter, List.idxOf_append, h]

theorem complete_split {s : Survey} {root : String} {above below : List String}
    (hs : s.stack = above ++ root :: below) (hroot : root ∉ above) :
    s.complete root =
      { s with
        stack := below
        roots := s.roots ++ [root]
        numbers := s.numbers ++ (above ++ [root]).map fun member => (member, s.roots.length) } := by
  simp only [complete, hs, takeWhile_cut hroot, dropWhile_cut hroot, List.tail_cons]

end Survey

/-! ## Depth-first search -/

/-- A search and the least index on the stack that it is known to lead back to. -/
structure Return where
  survey : Survey
  low : Nat

/-- A reference followed. `connect` continues the search at a model that was not entered yet. -/
def Return.follow (connect : Survey → String → Return) (r : Return) (target : String) : Return :=
  if !r.survey.entered.contains target then
    let inner := connect r.survey target
    { survey := inner.survey, low := min r.low inner.low }
  else if r.survey.stack.contains target then { r with low := min r.low (r.survey.index target) }
  else r

namespace Return

variable {connect : Survey → String → Return} {r : Return} {target : String}

theorem follow_new (h : target ∉ r.survey.entered) :
    r.follow connect target =
      { survey := (connect r.survey target).survey
        low := min r.low (connect r.survey target).low } := by
  simp [follow, h]

theorem follow_open (h : target ∈ r.survey.entered) (hs : target ∈ r.survey.stack) :
    r.follow connect target = { r with low := min r.low (r.survey.index target) } := by
  simp [follow, h, hs]

theorem follow_closed (h : target ∈ r.survey.entered) (hs : target ∉ r.survey.stack) :
    r.follow connect target = r := by
  simp [follow, h, hs]

end Return

/-- The search continued at a model that was not entered yet. The fuel bounds the number of models
that are searched at the same time. -/
def connect (next : String → List String) : (fuel : Nat) → Survey → String → Return
  | 0, s, node => { survey := s, low := s.index node }
  | fuel + 1, s, node =>
    let start := s.entered.length
    let r := (next node).foldl (Return.follow (connect next fuel))
      { survey := s.enter node, low := start }
    if r.low == start then { r with survey := r.survey.complete node } else r

/-- The search from every model, in order. -/
def survey (next : String → List String) (order : List String) : Survey :=
  order.foldl (fun s node =>
    if s.entered.contains node then s else (connect next order.length s node).survey) {}

/-- Each model with the number of its component. -/
def Graph.componentNumbers (g : Graph) : List (String × Nat) :=
  (survey g.references g.order).numbers

end SchemaTypes.References
