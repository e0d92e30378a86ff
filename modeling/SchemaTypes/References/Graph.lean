import SchemaTypes.Model.Basic

/-!
# The graph of references

A model refers to the models that its fields name, at any depth: as a single item, as the element of
an array or inside an object. A reference to a name that no model has is unresolved.

A batch may hold several models of one name. The references of the name are then those of the last
of them, while its referrers and unresolved references are those of all.

Results: `mem_references`, every reference is a mention of a model.
-/

namespace SchemaTypes

mutual

/-- The names that an item refers to, in order. -/
def ItemType.targets : ItemType → List String
  | .scalar _ => []
  | .enum _ _ => []
  | .reference target => if target == "" then [] else [target]
  | .object fields => targetsOf fields

/-- The names that a field refers to, in order. -/
def Field.targets : Field → List String
  | ⟨_, _, .single item, _, _, _, _, _⟩ => item.targets
  | ⟨_, _, .array item _, _, _, _, _, _⟩ => item.targets

/-- The names that fields refer to, in order. -/
def targetsOf : List Field → List String
  | [] => []
  | f :: fs => f.targets ++ targetsOf fs

end

/-- The names that a model refers to, in order. -/
def Model.targets (m : Model) : List String :=
  targetsOf m.fields

namespace References

/-- Each model of a batch with the names that it refers to, in order, and for each name the models
that it refers to. -/
structure Graph where
  mentions : List (String × List String)
  table : List (String × List String)

/-- The texts in order, each once. -/
def listing (xs : List String) : List String :=
  sortTexts xs.eraseDups

theorem mem_listing {xs : List String} {x : String} : x ∈ listing xs ↔ x ∈ xs := by
  simp [listing, sortTexts]

/-- The names to which the last model of the given name refers. -/
def lastMention (mentions : List (String × List String)) (name : String) : List String :=
  (mentions.reverse.lookup name).getD []

/-- The graph of what models mention. -/
def Graph.ofMentions (mentions : List (String × List String)) : Graph :=
  let names := mentions.map (·.1)
  { mentions
    table := names.eraseDups.map fun name =>
      (name, listing ((lastMention mentions name).filter names.contains)) }

/-- The graph of a batch of models. -/
def Graph.ofModels (models : List Model) : Graph :=
  .ofMentions (models.map fun m => (m.name, m.targets))

namespace Graph

/-- The names of the models, in order. -/
def order (g : Graph) : List String :=
  g.mentions.map (·.1)

/-- The models to which a model refers, in the order of their names. -/
def references (g : Graph) (name : String) : List String :=
  (g.table.lookup name).getD []

/-- The models that refer to a model, in the order of their names. -/
def referrers (g : Graph) (name : String) : List String :=
  if g.order.contains name then
    listing ((g.mentions.filter fun m => m.2.contains name).map (·.1))
  else []

/-- The names to which a model refers and which no model has, in order. -/
def unresolved (g : Graph) (name : String) : List String :=
  listing (((g.mentions.filter fun m => m.1 == name).flatMap (·.2)).filter
    fun target => !g.order.contains target)

end Graph

/-- A name looked up among pairs that a function makes is found with its value. -/
theorem lookup_map_pair {β : Type} (f : String → β) (names : List String) (name : String) :
    (names.map fun n => (n, f n)).lookup name = if name ∈ names then some (f name) else none := by
  induction names with
  | nil => simp
  | cons n names ih =>
    by_cases h : name = n
    · simp [h]
    · have h' : (name == n) = false := by simpa using h
      simp [List.lookup_cons, h', ih, h]

theorem Graph.references_ofMentions (mentions : List (String × List String)) (name : String) :
    (Graph.ofMentions mentions).references name =
      if name ∈ mentions.map (·.1) then
        listing ((lastMention mentions name).filter (mentions.map (·.1)).contains)
      else [] := by
  simp only [Graph.references, Graph.ofMentions, lookup_map_pair, List.mem_eraseDups]
  split <;> simp_all

theorem Graph.mem_references {mentions : List (String × List String)} {name target : String}
    (h : target ∈ (Graph.ofMentions mentions).references name) :
    target ∈ mentions.map (·.1) ∧ target ∈ lastMention mentions name := by
  rw [references_ofMentions] at h
  split at h
  · have h := mem_listing.mp h
    simp only [List.mem_filter, List.contains_iff_mem] at h
    exact ⟨h.2, h.1⟩
  · simp at h

end References

end SchemaTypes
