import SchemaTypes.FileTree.Basic

/-!
# Introspection

A module that is a program can say itself what models it holds: a script loads it in the runtime of
its language and prints its contract. The script stands here; running it is not the work of this
library, which only names the command and reads what came of it: bytes on two streams and a status, or no
end at all. The bytes are read as UTF-8 with unified line ends, like those of files.
-/

namespace SchemaTypes.Mongoose

/-- The script. It gets the path of the module as its argument. -/
def introspectionScript : String := Text.joinLines
  [
    "",
    "const path = require('path');",
    "const file = path.resolve(process.argv[1]);",
    "",
    "function typeName(t) \x7b",
    "  if (typeof t === 'function') return t.schemaName || t.name;",
    "  if (t && typeof t === 'object' && t.schemaName) return t.schemaName;",
    "  return t;",
    "\x7d",
    "",
    "// Option keys whose function values are behaviour, not types.",
    "const BEHAVIOUR_KEYS = new Set(['default', 'validate', 'get', 'set', 'transform', 'required', 'alias']);",
    "",
    "function encode(def) \x7b",
    "  if (Array.isArray(def)) return def.map(encode);",
    "  if (typeof def === 'function') return typeName(def);",
    "  if (def && typeof def === 'object') \x7b",
    "    if (def.obj && def.paths) return encode(def.obj);",
    "    if (def instanceof RegExp || def instanceof Date) return String(def);",
    "    const out = \x7b\x7d;",
    "    for (const [key, value] of Object.entries(def)) \x7b",
    "      if (typeof value === 'function' && BEHAVIOUR_KEYS.has(key)) continue;",
    "      out[key] = encode(value);",
    "    \x7d",
    "    return out;",
    "  \x7d",
    "  return def;",
    "\x7d",
    "",
    "const mod = require(file);",
    "const candidates = [mod, mod && mod.default, mod && mod.model, mod && mod.schema]",
    "  .concat(mod && typeof mod === 'object' ? Object.values(mod) : []);",
    "const models = [];",
    "for (const exp of candidates) \x7b",
    "  if (!exp) continue;",
    "  let name = null;",
    "  let schema = null;",
    "  if (exp.schema && exp.modelName) \x7b",
    "    name = exp.modelName;",
    "    schema = exp.schema;",
    "  \x7d else if (exp.obj && exp.paths) \x7b",
    "    schema = exp;",
    "  \x7d",
    "  if (!schema) continue;",
    "  const required = Object.keys(schema.paths).filter((p) => schema.paths[p].isRequired);",
    "  models.push(\x7b name: name, fields: encode(schema.obj), required_paths: required \x7d);",
    "  break;",
    "\x7d",
    "process.stdout.write(JSON.stringify(\x7b contract_version: 1, source: file, models: models \x7d));",
    ""
  ]

/-- How a child process ended. It may print any bytes on its two streams. -/
inductive ProcessOutcome where
  | exited (status : Int) (output errors : ByteArray)
  | timedOut
  | notStarted (errno : Int)
  deriving Inhabited

/-- The text that a process printed if it ended well. -/
def ProcessOutcome.printed? : ProcessOutcome → Option String
  | exited status output _ => if status == 0 then FileTree.decode output else none
  | timedOut => none
  | notStarted _ => none

/-- How modules are introspected: the runtime, and the seconds that it may take as they are written
in messages. -/
structure Runtime where
  executable : String := "node"
  timeout : String := "30.0"
  deriving DecidableEq, Repr, Inhabited

/-- The path without the components that lead back. -/
def settledPath (path : Path) : String :=
  { path with parts := Path.resolve [] path.parts }.toString

/-- The command that introspects the module at an absolute path. -/
def Runtime.command (r : Runtime) (path : Path) : List String :=
  [r.executable, "-e", introspectionScript, settledPath path]

end SchemaTypes.Mongoose
