import Mathlib.Data.List.Basic

/-!
# Generation chunks

What a generation adapter of the worker yields (`adapters/_generation_base.py`): delta
chunks and a terminal one.  The entries of `logprobs` are opaque here.
-/

namespace Sie.Server

inductive FinishReason
  | stop
  | length
  | cancelled
  | error
  | toolCalls
  deriving DecidableEq

/-- A delta of an OpenAI tool call. -/
structure ToolCallDelta where
  index : ℕ
  id : Option String := none
  functionName : Option String := none
  argumentsDelta : String := ""
  deriving DecidableEq

/-- A whole tool call of a candidate. -/
structure CandidateCall where
  id : String
  name : String
  arguments : String
  deriving DecidableEq

/-- A candidate of a terminal chunk. -/
structure Candidate (Λ : Type) where
  text : Option String
  logprobs : List Λ := []
  reasoningContent : Option String := none
  toolCalls : List CandidateCall := []
  finishReason : Option FinishReason := none
  deriving DecidableEq

/-- A chunk of a generation.  No `logprobs` and an empty tuple are both the empty list. -/
structure GenerationChunk (Λ : Type) where
  textDelta : String
  done : Bool := false
  isFirst : Bool := false
  finishReason : Option FinishReason := none
  promptTokens : Option ℕ := none
  completionTokens : Option ℕ := none
  cachedTokens : Option ℕ := none
  toolCallDelta : Option ToolCallDelta := none
  errorCode : Option String := none
  errorMessage : Option String := none
  logprobs : List Λ := []
  candidates : Option (List (Candidate Λ)) := none
  choiceIndex : ℕ := 0
  reasoningDelta : String := ""
  deriving DecidableEq

/-- The error codes that are public. -/
def clientSafeGenerationErrorCodes : List String :=
  ["inference_error", "grammar_compile_failed", "INPUT_TOO_LONG", "MODEL_LOADING",
    "MODEL_OUTPUT_PARSE_ERROR", "RESOURCE_EXHAUSTED", "COLD_START_RATE_LIMITED", "LORA_LOADING",
    "PAYLOAD_TOO_LARGE", "cancelled", "context_exceeded", "empty_model_output", "grammar_invalid",
    "invalid_request", "invalid_guard_verdict", "parallel_tool_calls_violated",
    "rate_limit_exceeded", "tool_call_parse_error", "transport_failure", "unsupported_field"]

def clientSafeGenerationErrorCode (errorCode : Option String) : String :=
  let code := errorCode.getD "inference_error"
  if code ∈ clientSafeGenerationErrorCodes then code else "inference_error"

end Sie.Server
