import SchemaTypes.Fault
import SchemaTypes.FileTree.Search
import SchemaTypes.Issue

/-!
# What ends a run

A run that yields no result ends with an issue, which it reports, or with one of four faults of its
input for which there is no issue: a value that does not fit the description of its type, a text
that is no search pattern, a path that cannot be used, and a process that prints no text.
-/

namespace SchemaTypes

/-- Why there is no result. -/
inductive Problem where
  | issue (i : Issue)
  | invalid (faults : List Fault)
  | pattern (fault : FileTree.PatternFault)
  | path (fault : FileTree.PathFault)
  | noText
  deriving Repr

/-- What a message says about the problem. -/
def Problem.message : Problem → String
  | issue i => i.message
  | invalid faults => Fault.describe "" faults
  | pattern fault => fault.message
  | path fault => fault.message
  | noText => FileTree.ReadError.notUtf8.message

end SchemaTypes
