import SchemaTypes.Generation.Output

/-!
# Writers

A writer takes documents one by one and says for each whether it was stored. One writer stores them
in a file tree, another one in memory; any other may follow a script. A run hands over the documents
in order and stops at the first one that is not stored. The writer to files breaks off at a path that
cannot be handed to the system.
-/

namespace SchemaTypes

/-- What became of a document. A failure may come without a reason. -/
inductive WriteOutcome where
  | stored
  | failed (reason : Option String)
  | broken (fault : FileTree.PathFault)
  deriving DecidableEq, Repr, Inhabited

/-- A writer with a state. -/
structure Writer (σ : Type) where
  write : σ → Path → String → σ × WriteOutcome

namespace Writer

/-- The writer that stores documents in a file tree. -/
def toFiles : Writer FileTree where
  write tree path content :=
    let attempt := tree.writeText path content
    (attempt.tree, match attempt.failure with
      | none => .stored
      | some .nul => .broken .nul
      | some fault => .failed (some fault.message))

/-- A document put among others, in place of one with the same path. -/
def putDocument (path : Path) (content : String) : List Document → List Document
  | [] => [{ path, content }]
  | d :: ds =>
    if d.path = path then { d with content } :: ds else d :: putDocument path content ds

/-- The writer that keeps documents in memory. -/
def toMemory : Writer (List Document) where
  write held path content := (putDocument path content held, .stored)

/-- The writer that stores nothing and fails at one of its calls. -/
def failingAt (call : Nat) (reason : Option String) : Writer Nat where
  write calls _ _ := (calls + 1, if calls + 1 == call then .failed reason else .stored)

end Writer

/-- What a writer did with documents: its state afterwards, the documents that were stored, the one
that was not, and why the writer broke off at one. -/
structure Writing (σ : Type) where
  state : σ
  written : List Document
  failure : Option (Document × String)
  broken : Option FileTree.PathFault

/-- What is said about a document that is not stored for no reason. -/
def unknownReason : String := "write failed"

/-- The documents handed to a writer, up to the first one that is not stored. -/
def writeAll {σ : Type} (w : Writer σ) (state : σ) : List Document → Writing σ
  | [] => { state, written := [], failure := none, broken := none }
  | d :: ds =>
    match w.write state d.path d.content with
    | (state, .stored) =>
      let rest := writeAll w state ds
      { rest with written := d :: rest.written }
    | (state, .failed reason) =>
      { state, written := []
        failure := some (d, match reason with
          | none | some "" => unknownReason
          | some reason => reason)
        broken := none }
    | (state, .broken fault) => { state, written := [], failure := none, broken := some fault }

end SchemaTypes
