import SchemaTypes.Json.Basic
import SchemaTypes.Text.Case

/-!
# Log events

What happens during a run is told as events, each with a level, a name and some fields. Of the
events those are shown whose level is not below a threshold.
-/

namespace SchemaTypes

/-- How much an event matters. -/
inductive Level where
  | debug
  | info
  | warning
  | error
  deriving DecidableEq, Repr, Inhabited

namespace Level

/-- The level as a number. -/
def number : Level → Nat
  | debug => 10
  | info => 20
  | warning => 30
  | error => 40

/-- The level as it is written. -/
def text : Level → String
  | debug => "debug"
  | info => "info"
  | warning => "warning"
  | error => "error"

/-- The level that a text names, whatever the case of its letters. Other texts stand for the level
of information. -/
def ofText (s : String) : Level :=
  match Text.upperCase s with
  | "DEBUG" => debug
  | "WARN" | "WARNING" => warning
  | "ERROR" => error
  | _ => info

end Level

/-- Something that happened. -/
structure Event where
  level : Level
  name : String
  fields : List (String × Json)
  deriving Inhabited

namespace Event

/-- The event as a record. -/
def toJson (e : Event) : Json :=
  .obj [("level", .str e.level.text), ("event", .str e.name), ("fields", .obj e.fields)]

/-- The events that are not below a level. -/
def shown (threshold : Level) (events : List Event) : List Event :=
  events.filter fun e => threshold.number ≤ e.level.number

end Event

end SchemaTypes
