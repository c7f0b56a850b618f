import AutoQa.LlmAgents.Providers

/-!
# Structured output

The agents that ask for a JSON document clean the response text of Markdown
fences, parse it and check it against a zod schema, once in `validate` and once
after `generate`. A schema is a partial function on documents, and its error
texts are not modelled.
-/

namespace AutoQa.LlmAgents

open AutoQa.Base AutoQa.Base.Text

/-- Trim, drop a leading and a trailing fence, trim. -/
def cleanAnalysis (analysis : String) : String :=
  let t := trim analysis
  let t := if startsWith t "```json" then substring t 7 else t
  let t := if startsWith t "```" then substring t 3 else t
  let t := if endsWith t "```" then dropRight t 3 else t
  trim t

/-! ## zod schemas -/

abbrev Schema (α : Type) := Json → Except String α

def zodError : String := "Invalid input"

namespace Schema

def string : Schema String
  | .str s => .ok s
  | _ => .error zodError

def boolean : Schema Bool
  | .bool b => .ok b
  | _ => .error zodError

def array {α : Type} (item : Schema α) : Schema (List α)
  | .arr items => items.mapM item
  | _ => .error zodError

/-- `z.enum([...])`, with the value that each name stands for. -/
def enum {α : Type} (names : List (String × α)) : Schema α
  | .str s =>
      match names.lookup s with
      | some a => .ok a
      | none => .error zodError
  | _ => .error zodError

/-- A required field of an object. -/
def field {α : Type} (v : Json) (key : String) (schema : Schema α) : Except String α :=
  match v with
  | .obj _ =>
      match v.member key with
      | some x => schema x
      | none => .error zodError
  | _ => .error zodError

/-- A field under `.nullable().optional()`. -/
def optionalField {α : Type} (v : Json) (key : String) (schema : Schema α) :
    Except String (Option α) :=
  match v with
  | .obj _ =>
      match v.member key with
      | none | some .null => .ok none
      | some x => (schema x).map some
  | _ => .error zodError

/-- A field under `.optional()`, which `null` does not satisfy. -/
def undefinedField {α : Type} (v : Json) (key : String) (schema : Schema α) :
    Except String (Option α) :=
  match v with
  | .obj _ =>
      match v.member key with
      | none => .ok none
      | some x => (schema x).map some
  | _ => .error zodError

end Schema

/-- `schema.parse(JSON.parse(clean))`. -/
def parseClean {α : Type} (schema : Schema α) (text : String) : Except String α :=
  match Json.parse (cleanAnalysis text) with
  | some v => schema v
  | none => .error "Unexpected token in JSON"

/-- The `validate` of the analyzers: an absent or empty text is refused. -/
def validateWith {α : Type} (schema : Schema α) (res : Response) : Except String Unit :=
  match res.text.bind orUndefined with
  | none => .error "No JSON found in response"
  | some analysis => (parseClean schema analysis).map fun _ => ()

/-- `response.text!` followed by `.trim()` and the parse. -/
def parseText {α : Type} (schema : Schema α) (text : Option String) : Except String α :=
  match text with
  | none => .error "Cannot read properties of undefined (reading 'trim')"
  | some text => parseClean schema text

/-- `zodToJsonSchema(schema, name)` whole; the analyzers take only the definition
out of it. -/
def namedJsonSchema (w : World) (name : String) : Json :=
  .obj [("$ref", .str ("#/definitions/" ++ name)),
    ("definitions", .obj [(name, w.zodToJsonSchema name)]),
    ("$schema", .str "http://json-schema.org/draft-07/schema#")]

/-- `provider.generate` with a response schema, and the parse that follows it. -/
def generateStructured {α : Type} (w : World) (provider : LLMProvider) (messages : List Message)
    (responseSchema : Json) (schema : Schema α) (validate : Response → Except String Unit) :
    Prog Trace (α × Usage) := do
  let response ← provider.generate w
    { messages, responseSchema := some responseSchema, validate := some validate }
  let result ← Prog.ofExcept (parseText schema response.text)
  pure (result, response.usage)

end AutoQa.LlmAgents
