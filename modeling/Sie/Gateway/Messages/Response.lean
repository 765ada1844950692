import Sie.Lib.Json
import Sie.Lib.Text

/-!
# A chat completion as a Message

The gateway's `handlers/messages/response.rs`: the buffered translation of a chat
completion into an Anthropic Message.  `Codec` stands for what the translation is built
on: the JSON parser, and the wording of a translated error.

## Main definitions

* `stopReason`, `anthropicUsage`, `toolInput` — the parts both translations share.
* `chatCompletionToMessage` — the buffered translation.
-/

namespace Sie.Gateway.Messages

open Sie.Lib

/-- What the translations take from outside. -/
structure Codec where
  /-- `serde_json::from_str`. -/
  fromStr : String → Option Json
  /-- The message of `translate_error_body` for a status and an `error` object. -/
  errorMessage : ℕ → Json → String

/-- The signature of every thinking block. -/
def thinkingSignature : String := "sie-unsigned"

/-- The `stop_reason` for a chat `finish_reason`. -/
def stopReason (finishReason : Option String) (hasToolUse : Bool) : String :=
  if finishReason = some "length" then "max_tokens"
  else if finishReason = some "content_filter" then "refusal"
  else if finishReason = some "tool_calls" ∨ finishReason = some "function_call" then "tool_use"
  else if hasToolUse then "tool_use"
  else "end_turn"

/-- The usage of a Message from that of a chat completion: the prompt tokens that were
served from the cache are reported on their own. -/
def anthropicUsage (usage : Json) : Option Json := do
  let prompt ← (usage.get "prompt_tokens").bind Json.asU64
  let completion ← (usage.get "completion_tokens").bind Json.asU64
  let cached := min ((((usage.get "prompt_tokens_details").bind
    (Json.get · "cached_tokens")).bind Json.asU64).getD 0) prompt
  return .obj [("input_tokens", .nat (prompt - cached)), ("cache_creation_input_tokens", .nat 0),
    ("cache_read_input_tokens", .nat cached), ("output_tokens", .nat completion)]

/-- The input of a tool from the `arguments` of its call. -/
def toolInput (codec : Codec) (arguments : String) : Except String Json :=
  if isBlank arguments then .ok (.obj [])
  else
    match codec.fromStr arguments with
    | some input =>
      if input.isObject then .ok input else .error "tool call arguments are not a JSON object"
    | none => .error "tool call arguments are not valid JSON"

/-! The three content blocks of a Message. -/

def thinkingBlock (thinking signature : String) : Json :=
  .obj [("type", .str "thinking"), ("thinking", .str thinking), ("signature", .str signature)]

def textBlock (text : String) : Json := .obj [("type", .str "text"), ("text", .str text)]

def toolUseBlock (id name : String) (input : Json) : Json :=
  .obj [("type", .str "tool_use"), ("id", .str id), ("name", .str name), ("input", input)]

/-- Reasoning that is not empty is a thinking block. -/
def thinkingContent (reasoning : Option String) : List Json :=
  match reasoning.filter (· ≠ "") with
  | some reasoning => [thinkingBlock reasoning thinkingSignature]
  | none => []

/-- Text that is not blank is a text block. -/
def textContent (text : Option String) : List Json :=
  match text.filter (!isBlank ·) with
  | some text => [textBlock text]
  | none => []

/-- One iteration of the loop over the tool calls. -/
def toolUse (codec : Codec) (call : Json) : Except String Json := do
  let some id := call.getStr "id" | .error "tool call has no id"
  let some function := call.get "function" | .error "tool call has no function"
  let some name := function.getStr "name" | .error "tool call has no name"
  let input ← toolInput codec ((function.getStr "arguments").getD "")
  return toolUseBlock id name input

/-- The buffered translation. -/
def chatCompletionToMessage (codec : Codec) (chat : Json) (model requestId : String) :
    Except String Json := do
  let some choice := (chat.getItems "choices").head? | .error "chat completion has no choices"
  let some message := choice.get "message" | .error "chat completion choice has no message"
  let thinking := thinkingContent (message.getStr "reasoning_content")
  let text := textContent (message.getStr "content")
  let calls := message.getItems "tool_calls"
  let toolUses ← calls.mapM (toolUse codec)
  let some usage := (chat.get "usage").bind anthropicUsage | .error "chat completion has no usage"
  return .obj [("id", .str ("msg_" ++ requestId)), ("type", .str "message"),
    ("role", .str "assistant"), ("model", .str model),
    ("content", .arr (thinking ++ text ++ toolUses)),
    ("stop_reason", .str (stopReason (choice.getStr "finish_reason") (!calls.isEmpty))),
    ("stop_sequence", .null), ("usage", usage)]

end Sie.Gateway.Messages
