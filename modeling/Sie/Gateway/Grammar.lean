import Sie.Lib.JsonSchema

/-!
# The grammar parser

Model of `parse_grammar` in `sie_gateway/src/handlers/grammar.rs`: the checks on the `grammar`
object of a request, the expansion of the internal references of a JSON schema, and the walk
that rejects what the worker does not support.

`visited` counts the nodes a pass has seen and is threaded through.  The traversal depth is
counted down: `left` is `MAX_SCHEMA_TRAVERSAL_DEPTH + 1 - traversal_depth`, so that it is zero
where the depth exceeds the limit.  The reference stack is an argument, since a successful call
leaves it as it was.  The length of a serialised float is a parameter.
-/

namespace Sie.Gateway

open Sie.Lib Sie.Lib.JsonSchema

namespace Grammar

def maxGrammarBytes : ℕ := 64 * 1024
def maxSchemaDepth : ℕ := 16
def maxSchemaTraversalDepth : ℕ := 128
def maxSchemaNodes : ℕ := 16 * 1024
def maxRegexLen : ℕ := 4 * 1024
def maxEbnfLen : ℕ := 8 * 1024

def unsupportedKeywords : List String :=
  ["$dynamicRef", "if", "then", "else", "unevaluatedProperties", "dependentSchemas"]

/-! ### Errors -/

inductive ErrorCode
  | invalidRequest
  | unsupportedField
  deriving DecidableEq

/-- A 400 response. -/
structure GrammarError where
  message : String
  param : String
  code : ErrorCode
  deriving DecidableEq

/-- A text as Rust prints it for debugging, for texts of printable characters. -/
def debugText (s : String) : String :=
  let escaped := s.toList.flatMap fun c =>
    if c = '"' then ['\\', '"'] else if c = '\\' then ['\\', '\\'] else [c]
  "\"" ++ String.ofList escaped ++ "\""

def nodeCountError (path : String) : GrammarError where
  message := "JSON Schema node count exceeds limit (" ++ toString maxSchemaNodes ++ ")"
  param := path
  code := .invalidRequest

def traversalDepthError (path : String) : GrammarError where
  message :=
    "JSON Schema traversal depth exceeds limit (" ++ toString maxSchemaTraversalDepth ++ ")"
  param := path
  code := .invalidRequest

def schemaDepthError (path : String) : GrammarError where
  message := "JSON Schema depth exceeds limit (" ++ toString maxSchemaDepth ++ ")"
  param := path
  code := .invalidRequest

def keywordError (path keyword : String) : GrammarError where
  message := "JSON Schema keyword '" ++ keyword ++ "' is not supported"
  param := path ++ "." ++ keyword
  code := .unsupportedField

/-! ### Expanding references -/

abbrev SchemaContext := Position

def schemaChildContext (parent : SchemaContext) (key : String) : SchemaContext :=
  match parent with
  | .schema =>
    match key with
    | "properties" | "patternProperties" | "$defs" | "definitions" | "dependentSchemas" =>
      .schemaMap
    | "oneOf" | "anyOf" | "allOf" | "prefixItems" => .schemaArray
    | "items" | "additionalProperties" | "contains" | "propertyNames" | "not" | "if" | "then"
    | "else" => .schema
    | _ => .other
  | .schemaMap => .schema
  | .schemaArray | .other => .other

/-- What an item of an array stands for. -/
def itemContext (context : SchemaContext) : SchemaContext :=
  if context = .schema ∨ context = .schemaArray then .schema else .other

/-- One call of the recursion: a path, a context and a value, and the nodes visited so far. -/
abbrev Visit (α : Type) :=
  String → SchemaContext → Json → ℕ → Except GrammarError (α × ℕ)

/-- The loop over the fields of an object. -/
def dereferenceFields (inner : Visit Json) (context : SchemaContext) (path : String) :
    List (String × Json) → ℕ → Except GrammarError (List (String × Json) × ℕ)
  | [], visited => .ok ([], visited)
  | (k, child) :: rest, visited => do
      let (value, visited) ← inner (path ++ "." ++ k) (schemaChildContext context k) child visited
      let (out, visited) ← dereferenceFields inner context path rest visited
      return ((k, value) :: out, visited)

/-- The loop over the items of an array, from the index `i` on. -/
def dereferenceItems (inner : Visit Json) (context : SchemaContext) (path : String) :
    ℕ → List Json → ℕ → Except GrammarError (List Json × ℕ)
  | _, [], visited => .ok ([], visited)
  | i, child :: rest, visited => do
      let (value, visited) ←
        inner (path ++ "[" ++ toString i ++ "]") (itemContext context) child visited
      let (out, visited) ← dereferenceItems inner context path (i + 1) rest visited
      return (value :: out, visited)

/-- The pointer of a reference that is neither external nor on the stack, and its target. -/
def refTarget (root : Json) (path : String) (stack : List String) (ref : Json) :
    Except GrammarError (String × Json) :=
  let refParam := path ++ ".$ref"
  match ref with
  | .str refStr =>
    match refStr.toList with
    | '#' :: fragment =>
      let pointer := String.ofList fragment
      if fragment ≠ [] ∧ fragment.head? ≠ some '/' then
        .error ⟨"only internal JSON-pointer '$ref' values are supported", refParam,
          .unsupportedField⟩
      else if pointer ∈ stack then
        .error ⟨"recursive '$ref' cycle detected at " ++ debugText refStr, refParam,
          .invalidRequest⟩
      else
        match root.pointer pointer with
        | none =>
          .error ⟨"unresolved internal '$ref' " ++ debugText refStr, refParam,
            .invalidRequest⟩
        | some target => .ok (pointer, target)
    | _ => .error ⟨"external '$ref' is not supported", refParam, .unsupportedField⟩
  | _ => .error ⟨"'$ref' must be a string", refParam, .invalidRequest⟩

/-- The fields the loop does not skip. -/
def keptFields (context : SchemaContext) (map : List (String × Json)) : List (String × Json) :=
  map.filter fun f => ¬ (context = .schema ∧ (f.1 = "$defs" ∨ f.1 = "definitions"))

/-- The fields beside a reference. -/
def siblingFields (map : List (String × Json)) : List (String × Json) :=
  map.filter fun f => ¬ (f.1 = "$ref" ∨ f.1 = "$defs" ∨ f.1 = "definitions")

def dereferenceSchemaRefsInner (root : Json) : ℕ → List String → Visit Json
  | 0, _, path, _, _, visited =>
    if visited + 1 > maxSchemaNodes then .error (nodeCountError path)
    else .error (traversalDepthError path)
  | left + 1, stack, path, context, v, visited =>
    let visited := visited + 1
    if visited > maxSchemaNodes then .error (nodeCountError path)
    else
      match v with
      | .obj map =>
        match (if context = .schema then map.lookup "$ref" else none) with
        | some ref => do
            let (pointer, target) ← refTarget root path stack ref
            let (resolved, visited) ← dereferenceSchemaRefsInner root left (pointer :: stack)
              path .schema target visited
            let (siblings, visited) ← dereferenceFields
              (dereferenceSchemaRefsInner root left stack) context path (siblingFields map)
              visited
            -- Siblings of `$ref` apply beside the referenced schema.
            if siblings.isEmpty then return (resolved, visited)
            else return (.obj [("allOf", .arr [resolved, .obj siblings])], visited)
        | none => do
            let (out, visited) ← dereferenceFields
              (dereferenceSchemaRefsInner root left stack) context path
              (keptFields context map) visited
            return (.obj out, visited)
      | .arr items => do
          let (out, visited) ← dereferenceItems (dereferenceSchemaRefsInner root left stack)
            context path 0 items visited
          return (.arr out, visited)
      | v => .ok (v, visited)

def dereferenceSchemaRefs (schema : Json) (path : String) : Except GrammarError Json :=
  (dereferenceSchemaRefsInner schema (maxSchemaTraversalDepth + 1) [] path .schema schema 0).map
    Prod.fst

/-! ### The walk over the expanded schema -/

def isSchemaNestingKey (key : String) : Bool :=
  key ∈ ["properties", "patternProperties", "additionalProperties", "unevaluatedProperties",
    "items", "prefixItems", "contains", "propertyNames", "oneOf", "anyOf", "allOf", "not",
    "definitions", "$defs", "dependentSchemas", "if", "then", "else"]

/-- One call of the walk: a depth beside what a `Visit` has. -/
abbrev Walk := String → ℕ → SchemaContext → Json → ℕ → Except GrammarError ℕ

def walkFields (inner : Walk) (path : String) (depth : ℕ) (context : SchemaContext) :
    List (String × Json) → ℕ → Except GrammarError ℕ
  | [], visited => .ok visited
  | (k, child) :: rest, visited => do
      let childDepth := if context = .schema ∧ isSchemaNestingKey k then depth + 1 else depth
      let visited ← inner (path ++ "." ++ k) childDepth (schemaChildContext context k) child visited
      walkFields inner path depth context rest visited

def walkItems (inner : Walk) (path : String) (depth : ℕ) (context : SchemaContext) :
    ℕ → List Json → ℕ → Except GrammarError ℕ
  | _, [], visited => .ok visited
  | i, child :: rest, visited => do
      let visited ← inner (path ++ "[" ++ toString i ++ "]") depth (itemContext context) child
        visited
      walkItems inner path depth context (i + 1) rest visited

/-- The first unsupported keyword of a schema object. -/
def unsupportedIn (context : SchemaContext) (map : List (String × Json)) : Option String :=
  if context = .schema then unsupportedKeywords.find? fun kw => (map.lookup kw).isSome else none

def walkSchemaInner : ℕ → Walk
  | 0, path, _, _, _, visited =>
    if visited + 1 > maxSchemaNodes then .error (nodeCountError path)
    else .error (traversalDepthError path)
  | left + 1, path, depth, context, v, visited =>
    let visited := visited + 1
    if visited > maxSchemaNodes then .error (nodeCountError path)
    else if depth > maxSchemaDepth then .error (schemaDepthError path)
    else
      match v with
      | .obj map =>
        match unsupportedIn context map with
        | some keyword => .error (keywordError path keyword)
        | none => walkFields (walkSchemaInner left) path depth context map visited
      | .arr items => walkItems (walkSchemaInner left) path depth context 0 items visited
      | _ => .ok visited

def walkSchema (v : Json) (path : String) (depth : ℕ) : Except GrammarError Unit :=
  (walkSchemaInner (maxSchemaTraversalDepth + 1) path depth .schema v 0).map fun _ => ()

/-! ### The parser -/

inductive GrammarSpec
  | jsonSchema (value : Json) (label : Option String) (strict : Option Bool)
  | regex (value : String) (label : Option String) (strict : Option Bool)
  | ebnf (value : String) (label : Option String) (strict : Option Bool)
  deriving DecidableEq

/-- The length of a character within a serialised string. -/
def charLen (c : Char) : ℕ :=
  if c = '"' ∨ c = '\\' then 2
  else if c.toNat < 32 then (if c.toNat ∈ [8, 9, 10, 12, 13] then 2 else 6)
  else c.utf8Size

def stringLen (s : String) : ℕ := 2 + (s.toList.map charLen).sum

mutual

/-- The length of `serde_json::to_vec`, in bytes. -/
def jsonLen (floatLen : BitVec 64 → ℕ) : Json → ℕ
  | .null => 4
  | .bool b => if b then 4 else 5
  | .num (.posInt n) => (toString n).length
  | .num (.negInt n) => 1 + (toString (n + 1)).length
  | .num (.float bits) => floatLen bits
  | .str s => stringLen s
  | .arr items => 2 + itemsLen floatLen items + (items.length - 1)
  | .obj fields => 2 + fieldsLen floatLen fields + (fields.length - 1)

def itemsLen (floatLen : BitVec 64 → ℕ) : List Json → ℕ
  | [] => 0
  | v :: rest => jsonLen floatLen v + itemsLen floatLen rest

def fieldsLen (floatLen : BitVec 64 → ℕ) : List (String × Json) → ℕ
  | [] => 0
  | (k, v) :: rest => stringLen k + 1 + jsonLen floatLen v + fieldsLen floatLen rest

end

def jsonSchemaGrammarLen (floatLen : BitVec 64 → ℕ) (schema : Json) (label : Option String)
    (strict : Option Bool) : ℕ :=
  jsonLen floatLen (.obj ([("json_schema", schema)] ++ label.toList.map (fun l => ("label", .str l))
    ++ strict.toList.map fun s => ("strict", .bool s)))

def grammarBytesError (len : ℕ) : GrammarError where
  message := "grammar payload " ++ toString len ++ " bytes exceeds limit (" ++
    toString maxGrammarBytes ++ " bytes)"
  param := "grammar"
  code := .invalidRequest

/-- The branch for `json_schema`. -/
def parseJsonSchema (floatLen : BitVec 64 → ℕ) (schema : Json) (label : Option String)
    (strict : Option Bool) : Except GrammarError GrammarSpec := do
  let resolved ← dereferenceSchemaRefs schema "grammar.json_schema"
  let len := jsonSchemaGrammarLen floatLen resolved label strict
  if len > maxGrammarBytes then .error (grammarBytesError len)
  else
    walkSchema resolved "grammar.json_schema" 0
    return .jsonSchema resolved label strict

/-- The branch for `regex`. -/
def parseRegex (regexVal : Json) (label : Option String) (strict : Option Bool) :
    Except GrammarError GrammarSpec :=
  match regexVal with
  | .str regex =>
    if regex.utf8ByteSize > maxRegexLen then
      .error ⟨"regex length " ++ toString regex.utf8ByteSize ++ " exceeds limit (" ++
        toString maxRegexLen ++ ")", "grammar.regex", .invalidRequest⟩
    else .ok (.regex regex label strict)
  | _ => .error ⟨"'grammar.regex' must be a string", "grammar.regex", .invalidRequest⟩

/-- The branch for `ebnf`. -/
def parseEbnf (ebnfVal : Json) (label : Option String) (strict : Option Bool) :
    Except GrammarError GrammarSpec :=
  match ebnfVal with
  | .str ebnf =>
    if ebnf.utf8ByteSize > maxEbnfLen then
      .error ⟨"ebnf length " ++ toString ebnf.utf8ByteSize ++ " exceeds limit (" ++
        toString maxEbnfLen ++ ")", "grammar.ebnf", .invalidRequest⟩
    else if strict = some true then
      .error ⟨"'grammar.strict' is not supported for EBNF grammars", "grammar.strict",
        .unsupportedField⟩
    else .ok (.ebnf ebnf label strict)
  | _ => .error ⟨"'grammar.ebnf' must be a string", "grammar.ebnf", .invalidRequest⟩

def asBool : Json → Option Bool
  | .bool b => some b
  | _ => none

def parseGrammar (floatLen : BitVec 64 → ℕ) (v : Json) : Except GrammarError GrammarSpec :=
  if !v.isObject then
    .error ⟨"'grammar' must be a JSON object", "grammar", .invalidRequest⟩
  else if jsonLen floatLen v > maxGrammarBytes then
    .error (grammarBytesError (jsonLen floatLen v))
  else
    let label := v.getStr "label"
    let strict := (v.get "strict").bind asBool
    match v.get "json_schema", v.get "regex", v.get "ebnf" with
    | some schema, none, none => parseJsonSchema floatLen schema label strict
    | none, some regex, none => parseRegex regex label strict
    | none, none, some ebnf => parseEbnf ebnf label strict
    | none, none, none =>
      .error ⟨"'grammar' must contain exactly one of 'json_schema', 'regex' or 'ebnf'",
        "grammar", .invalidRequest⟩
    | _, _, _ =>
      .error ⟨"'grammar.json_schema', 'grammar.regex' and 'grammar.ebnf' are mutually exclusive",
        "grammar", .invalidRequest⟩

end Grammar

end Sie.Gateway
