import Gamebook.Json
import Gamebook.Story

/-!
# Stories as JSON documents
-/

namespace Gamebook

/-- A row of texts. -/
def JsonDocument.texts (ss : List String) : JsonDocument :=
  .array (ss.map .string)

/-- A value: its atoms and its integer. -/
def Value.toJson (v : Value) : JsonDocument :=
  .object [("text_values", .texts v.atoms), ("integer", .integer v.integer.toInt)]

/-- Read a value: an object with both fields, whatever else it holds, or an array of the two. -/
def Value.ofJson? (d : JsonDocument) : Option Value := do
  let (atoms, n) ← match d with
    | .array [atoms, n] => some (atoms, n)
    | d => (d.field? "text_values").bind fun atoms => (d.field? "integer").map fun n => (atoms, n)
  return { atoms := ← atoms.strings?, integer := ← n.word? }

/-- A verb. -/
def Verb.toJson (v : Verb) : JsonDocument :=
  .object [("visual_name", .string v.visualName), ("names", .texts v.names),
    ("root", .integer v.root)]

/-- A block. -/
def Block.toJson (b : Block) : JsonDocument :=
  .object [("expression", .string b.expression), ("execute", .bool b.isExecuted),
    ("is_else", .bool b.isElse),
    ("children", .array (b.children.map fun (id : Nat) => .integer id))]

/-- A page. -/
def Page.toJson (p : Page) : JsonDocument :=
  .object [("name", .string p.name), ("defaults", p.defaults.toJson), ("source", .string p.source),
    ("verbs", .array (p.verbs.map Verb.toJson)), ("blocks", .array (p.blocks.map Block.toJson))]

/-- A pattern. -/
def Pattern.toJson (p : Pattern) : JsonDocument :=
  .object [("name", .string p.name), ("placeholder", .string p.placeholder),
    ("template", .string p.template)]

/-- A story: its pages in their order, and its patterns by name. -/
def Story.toJson (s : Story) : JsonDocument :=
  .object [("pages", .array (s.pages.map Page.toJson)),
    ("patterns", .object (s.patterns.entries.map fun (name, p) => (name, p.toJson)))]

end Gamebook
