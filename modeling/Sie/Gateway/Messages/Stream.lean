import Sie.Gateway.Messages.Response
import Sie.Lib.Run

/-!
# A chat stream as Message events

The `StreamMachine` of the gateway's `handlers/messages/stream.rs`: it turns each payload
of a chat SSE stream into the events of an Anthropic Messages stream.  An event is kept as
what its name and its data are made from (`Event.name`, `Event.data`).

A function of the machine returns the machine and the events it pushes.
-/

namespace Sie.Gateway.Messages

open Sie.Lib

inductive Block
  | text
  | thinking
  | toolUse (chatIndex : ℕ)
  deriving DecidableEq

/-- What a content block starts with. -/
inductive ContentBlock
  | text
  | thinking
  | toolUse (id name : String)
  deriving DecidableEq

inductive Delta
  | text (text : String)
  | thinking (thinking : String)
  | signature (signature : String)
  | inputJson (partialJson : String)
  deriving DecidableEq

/-- An event of a Messages stream. -/
inductive Event
  | messageStart (id model : String)
  | contentBlockStart (index : ℕ) (block : ContentBlock)
  | contentBlockDelta (index : ℕ) (delta : Delta)
  | contentBlockStop (index : ℕ)
  | messageDelta (stopReason : String) (usage : Json)
  | messageStop
  | error (errorType message : String)
  deriving DecidableEq

def zeroUsage : Json :=
  .obj [("input_tokens", .nat 0), ("cache_creation_input_tokens", .nat 0),
    ("cache_read_input_tokens", .nat 0), ("output_tokens", .nat 0)]

def ContentBlock.data : ContentBlock → Json
  | .text => textBlock ""
  | .thinking => thinkingBlock "" ""
  | .toolUse id name => toolUseBlock id name (.obj [])

def Delta.data : Delta → Json
  | .text s => .obj [("type", .str "text_delta"), ("text", .str s)]
  | .thinking s => .obj [("type", .str "thinking_delta"), ("thinking", .str s)]
  | .signature s => .obj [("type", .str "signature_delta"), ("signature", .str s)]
  | .inputJson s => .obj [("type", .str "input_json_delta"), ("partial_json", .str s)]

def Event.name : Event → String
  | .messageStart _ _ => "message_start"
  | .contentBlockStart _ _ => "content_block_start"
  | .contentBlockDelta _ _ => "content_block_delta"
  | .contentBlockStop _ => "content_block_stop"
  | .messageDelta _ _ => "message_delta"
  | .messageStop => "message_stop"
  | .error _ _ => "error"

def Event.data (event : Event) : Json :=
  .obj (("type", .str event.name) ::
    match event with
    | .messageStart id model =>
      [("message", .obj [("id", .str id), ("type", .str "message"), ("role", .str "assistant"),
        ("model", .str model), ("content", .arr []), ("stop_reason", .null),
        ("stop_sequence", .null), ("usage", zeroUsage)])]
    | .contentBlockStart index block => [("index", .nat index), ("content_block", block.data)]
    | .contentBlockDelta index delta => [("index", .nat index), ("delta", delta.data)]
    | .contentBlockStop index => [("index", .nat index)]
    | .messageDelta stopReason usage =>
      [("delta", .obj [("stop_reason", .str stopReason), ("stop_sequence", .null)]),
        ("usage", usage)]
    | .messageStop => []
    | .error errorType message =>
      [("error", .obj [("type", .str errorType), ("message", .str message)])])

/-- The HTTP status that an error code of a chat stream stands for. -/
def statusForCode (code : String) : ℕ :=
  if code ∈ ["invalid_request", "unsupported_field", "context_exceeded", "INPUT_TOO_LONG",
    "grammar_invalid"] then 400
  else if code = "PAYLOAD_TOO_LARGE" then 413
  else if code ∈ ["rate_limit_exceeded", "COLD_START_RATE_LIMITED"] then 429
  else if code ∈ ["RESOURCE_EXHAUSTED", "QUEUE_FULL", "MODEL_LOADING", "LORA_LOADING",
    "transport_failure", "provisioning", "QUEUE_UNAVAILABLE"] then 503
  else if code ∈ ["first_chunk_timeout", "inter_chunk_timeout", "overall_timeout",
    "GATEWAY_TIMEOUT", "cancelled"] then 504
  else 500

def errorTypeForStatus (status : ℕ) : String :=
  if status = 401 then "authentication_error"
  else if status = 402 then "billing_error"
  else if status = 403 then "permission_error"
  else if status = 404 then "not_found_error"
  else if status = 408 ∨ status = 504 then "timeout_error"
  else if status = 413 then "request_too_large"
  else if status = 429 then "rate_limit_error"
  else if status = 503 ∨ status = 529 then "overloaded_error"
  else if 400 ≤ status ∧ status ≤ 499 then "invalid_request_error"
  else "api_error"

structure StreamMachine where
  messageId : String
  model : String
  nextIndex : ℕ
  /-- The block that is open, with its index. -/
  open_ : Option (Block × ℕ)
  heldWhitespace : String
  toolIndices : List ℕ
  finishReason : Option String
  usage : Option Json
  started : Bool
  done : Bool
  deriving DecidableEq

def StreamMachine.new (messageId model : String) : StreamMachine where
  messageId
  model
  nextIndex := 0
  open_ := none
  heldWhitespace := ""
  toolIndices := []
  finishReason := none
  usage := none
  started := false
  done := false

/-- The parts of a tool call that the machine reads. -/
structure CallParts where
  index : ℕ
  id : Option String
  name : Option String
  arguments : Option String

def callParts (call : Json) : CallParts :=
  let function := (call.get "function").getD .null
  { index := ((call.get "index").bind Json.asU64).getD 0
    id := call.getStr "id"
    name := function.getStr "name"
    arguments := (function.getStr "arguments").filter (· ≠ "") }

/-- The error that a chunk reports. -/
def errorObject (chunk : Json) : Option Json := (chunk.get "error").filter Json.isObject

/-- One function of the machine after another. -/
def andThen (r : StreamMachine × List Event) (f : StreamMachine → StreamMachine × List Event) :
    StreamMachine × List Event :=
  ((f r.1).1, r.2 ++ (f r.1).2)

namespace StreamMachine

def start (m : StreamMachine) : StreamMachine × List Event :=
  if m.started then (m, [])
  else ({ m with started := true }, [.messageStart m.messageId m.model])

def openBlock (m : StreamMachine) (block : Block) (contentBlock : ContentBlock) :
    StreamMachine × List Event :=
  ({ m with nextIndex := m.nextIndex + 1, open_ := some (block, m.nextIndex) },
    [.contentBlockStart m.nextIndex contentBlock])

def delta (m : StreamMachine) (delta : Delta) : StreamMachine × List Event :=
  match m.open_ with
  | some (_, index) => (m, [.contentBlockDelta index delta])
  | none => (m, [])

section

variable (m : StreamMachine)

def close : StreamMachine × List Event :=
  match m.open_ with
  | none => (m, [])
  | some (block, index) =>
    ({ m with open_ := none },
      (if block = .thinking then [.contentBlockDelta index (.signature thinkingSignature)]
        else []) ++ [.contentBlockStop index])

def clearHeld : StreamMachine := { m with heldWhitespace := "" }

/-- Whether the open block is this one. -/
def opens (block : Block) : Bool := m.open_.map Prod.fst = some block

def thinking (text : String) : StreamMachine × List Event :=
  if m.opens .thinking then m.delta (.thinking text)
  else
    andThen (andThen m.clearHeld.close fun m => m.openBlock .thinking .thinking)
      fun m => m.delta (.thinking text)

end

/-- Blank text is held back until a text block is opened. -/
def text (m : StreamMachine) (text : String) : StreamMachine × List Event :=
  if m.opens .text then m.delta (.text text)
  else if isBlank text then ({ m with heldWhitespace := m.heldWhitespace ++ text }, [])
  else
    andThen (andThen m.close fun m => m.openBlock .text .text)
      fun m => m.clearHeld.delta (.text (m.heldWhitespace ++ text))

/-- The first delta of a tool call opens its block. -/
def toolStart (m : StreamMachine) (call : CallParts) : Except String (StreamMachine × List Event) :=
  if call.index ∈ m.toolIndices then .ok (m, [])
  else
    match call.id, call.name with
    | some id, some name =>
      let r := andThen m.clearHeld.close fun m =>
        m.openBlock (.toolUse call.index) (.toolUse id name)
      .ok ({ r.1 with toolIndices := r.1.toolIndices ++ [call.index] }, r.2)
    | _, _ => .error "a tool call arrived without its id and name"

/-- Arguments go to the block of their call, which must be open. -/
def toolArguments (m : StreamMachine) (call : CallParts) :
    Except String (StreamMachine × List Event) :=
  match call.arguments with
  | none => .ok (m, [])
  | some arguments =>
    if m.opens (.toolUse call.index) then .ok (m.delta (.inputJson arguments))
    else .error "tool call arguments arrived after another content block started"

def toolCall (m : StreamMachine) (call : Json) : Except String (StreamMachine × List Event) :=
  match m.toolStart (callParts call) with
  | .error message => .error message
  | .ok r =>
    match r.1.toolArguments (callParts call) with
    | .error message => .error message
    | .ok r' => .ok (r'.1, r.2 ++ r'.2)

/-- The loop over the tool calls, with the message of the call that failed. -/
def toolCalls (m : StreamMachine) : List Json → (StreamMachine × List Event) × Option String
  | [] => ((m, []), none)
  | call :: calls =>
    match m.toolCall call with
    | .error message => ((m, []), some message)
    | .ok r =>
      let rest := toolCalls r.1 calls
      ((rest.1.1, r.2 ++ rest.1.2), rest.2)

def complete (m : StreamMachine) : StreamMachine × List Event :=
  andThen m.close fun m =>
    ({ m with done := true },
      [.messageDelta (stopReason m.finishReason (!m.toolIndices.isEmpty))
        (m.usage.getD zeroUsage), .messageStop])

def fail (m : StreamMachine) (errorType message : String) : StreamMachine × List Event :=
  ({ m with done := true }, [.error errorType message])

def finish (m : StreamMachine) : StreamMachine × List Event :=
  if m.finishReason.isSome then m.complete
  else m.fail "api_error" "the generation stream ended without a finish reason"

section

variable (m : StreamMachine)

/-- A finish reason closes the block that is open. -/
def noteFinish (finishReason : Option String) : StreamMachine × List Event :=
  match finishReason with
  | none => (m, [])
  | some reason =>
    andThen m.close fun m => ({ m.clearHeld with finishReason := some reason }, [])

def withUsage (usage : Option Json) : StreamMachine :=
  { m with usage := usage <|> m.usage }

/-- The usage of a chunk, and the completion once the finish reason is there too. -/
def noteUsage (usage : Option Json) : StreamMachine × List Event :=
  let m := m.withUsage usage
  if m.finishReason.isSome && m.usage.isSome then m.complete else (m, [])

def noteReasoning (reasoning : Option String) : StreamMachine × List Event :=
  match reasoning with
  | some reasoning => m.thinking reasoning
  | none => (m, [])

def noteContent (text : Option String) : StreamMachine × List Event :=
  match text with
  | some text => m.text text
  | none => (m, [])

/-- The text parts of a delta. -/
def noteText (delta : Json) : StreamMachine × List Event :=
  andThen (m.noteReasoning ((delta.getStr "reasoning_content").filter (· ≠ ""))) fun m =>
    m.noteContent ((delta.getStr "content").filter (· ≠ ""))

/-- A delta, with the message of the tool call that failed. -/
def noteDelta (delta : Json) : (StreamMachine × List Event) × Option String :=
  let r := m.noteText delta
  let calls := r.1.toolCalls (delta.getItems "tool_calls")
  ((calls.1.1, r.2 ++ calls.1.2), calls.2)

end

/-- A parsed chunk. -/
def onChunk (codec : Codec) (m : StreamMachine) (chunk : Json) : StreamMachine × List Event :=
  let usage := (chunk.get "usage").bind anthropicUsage
  match errorObject chunk with
  | some error =>
    let status := statusForCode ((error.getStr "code").getD "")
    m.fail (errorTypeForStatus status) (codec.errorMessage status error)
  | none =>
    match (chunk.getItems "choices").head? with
    | none => m.noteUsage usage
    | some choice =>
      let r := m.noteDelta ((choice.get "delta").getD .null)
      match r.2 with
      | some message => andThen r.1 fun m => m.fail "api_error" message
      | none =>
        andThen (andThen r.1 fun m => m.noteFinish (choice.getStr "finish_reason"))
          fun m => m.noteUsage usage

/-- One payload of the chat stream. -/
def onData (codec : Codec) (m : StreamMachine) (data : String) : StreamMachine × List Event :=
  andThen m.start fun m =>
    if m.done then (m, [])
    else if data = "[DONE]" then m.finish
    else
      match codec.fromStr data with
      | none => m.fail "api_error" "the generation stream sent a malformed chunk"
      | some chunk => m.onChunk codec chunk

/-- The chat stream ended. -/
def onEnd (m : StreamMachine) : StreamMachine × List Event :=
  andThen m.start fun m => if m.done then (m, []) else m.finish

/-- The chat stream broke. -/
def onTransportError (m : StreamMachine) : StreamMachine × List Event :=
  andThen m.start fun m =>
    if m.done then (m, []) else m.fail "api_error" "the generation stream ended unexpectedly"

end StreamMachine

/-- A call of the machine. -/
inductive Input
  | start
  | data (data : String)
  | end_
  | transportError
  deriving DecidableEq

/-- One call.  Every call is possible in every state. -/
def StreamMachine.step (codec : Codec) (m : StreamMachine) (input : Input) :
    Option (StreamMachine × List Event) :=
  match input with
  | .start => some m.start
  | .data data => some (m.onData codec data)
  | .end_ => some m.onEnd
  | .transportError => some m.onTransportError

end Sie.Gateway.Messages
