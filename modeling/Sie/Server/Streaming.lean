import Sie.Lib.Run
import Sie.Server.Generation

/-!
# Streaming a generation to the gateway

The loop of `StreamingProcessor._stream_generate` (`processors/streaming.py`): it takes the
chunks of the adapter, coalesces text, reasoning and logprobs, and puts envelopes on a
bounded queue; a publisher task drains the queue, and the work item is acknowledged at the
end.

A put either happens or times out.  Which of the two is decided by how fast the publisher
drains the queue, so every turn of the loop comes with the outcomes of its puts, and the
queue is kept as all that was ever put on it.  A turn that is interrupted at a put leaves
what the same turn leaves when all its later puts time out.
-/

namespace Sie.Server

open Sie.Lib

variable {Λ : Type}

structure Usage where
  promptTokens : ℕ
  completionTokens : ℕ
  totalTokens : ℕ
  cachedTokens : Option ℕ
  deriving DecidableEq

/-- A wire chunk. -/
structure Envelope (Λ : Type) where
  seq : ℕ
  textDelta : String := ""
  done : Bool := false
  isFirst : Bool := false
  finishReason : Option FinishReason := none
  usage : Option Usage := none
  /-- The code and the message of an error. -/
  error : Option (String × String) := none
  logprobs : List Λ := []
  choiceIndex : ℕ := 0
  reasoningDelta : String := ""
  toolCallDelta : Option ToolCallDelta := none
  deriving DecidableEq

/-- The `usage` of an envelope. -/
def encodeUsage (promptTokens completionTokens cachedTokens : Option ℕ) : Option Usage :=
  if promptTokens.isSome || completionTokens.isSome then
    some
      { promptTokens := promptTokens.getD 0
        completionTokens := completionTokens.getD 0
        totalTokens := promptTokens.getD 0 + completionTokens.getD 0
        cachedTokens := cachedTokens.map fun cached => min cached (promptTokens.getD 0) }
  else none

/-- The `error` of an envelope. -/
def encodeError (errorCode errorMessage : Option String) : Option (String × String) :=
  if errorCode.isSome || errorMessage.isSome then
    some (clientSafeGenerationErrorCode errorCode, errorMessage.getD "")
  else none

/-- The terminal that `_enqueue_transport_failure` puts. -/
def transportFailureEnvelope (seq : ℕ) : Envelope Λ :=
  { seq
    done := true
    finishReason := some .error
    error := encodeError (some "transport_failure")
      (some "sustained chunk publish failure or queue overflow") }

def flushMaxTokens : ℕ := 32

/-- What the loop is run with. -/
structure Settings where
  multiCandidateStream : Bool
  /-- The public message of `client_safe_generation_error_message`. -/
  safeMessage : Option String → Option String → String

/-- The state of the loop. -/
structure Driver (Λ : Type) where
  seq : ℕ
  pendingText : List String
  pendingReasoning : List String
  pendingReasoningChoice : ℕ
  pendingLogprobs : List Λ
  pendingCount : ℕ
  firstTextPublished : Bool
  terminalSent : Bool
  transportFailurePublished : Bool
  /-- The loop has not been left. -/
  running : Bool
  /-- All that was put on the queue. -/
  queue : List (Envelope Λ)
  /-- Whether the next puts happen. -/
  puts : List Bool
  deriving DecidableEq

/-- What the loop wakes up to. -/
inductive Turn (Λ : Type)
  /-- A chunk; `due` when the flush interval has passed. -/
  | chunk (chunk : GenerationChunk Λ) (due : Bool)
  /-- The iterator ended without a terminal chunk. -/
  | exhausted
  /-- The iterator raised, with the code and the message that are reported. -/
  | raised (errorCode errorMessage : String)
  | cancelled
  deriving DecidableEq

namespace Driver

def start (Λ : Type) : Driver Λ where
  seq := 0
  pendingText := []
  pendingReasoning := []
  pendingReasoningChoice := 0
  pendingLogprobs := []
  pendingCount := 0
  firstTextPublished := false
  terminalSent := false
  transportFailurePublished := false
  running := true
  queue := []
  puts := []

section

variable (d : Driver Λ)

/-- A put on the queue, which happens or times out. -/
def put (e : Envelope Λ) : Driver Λ × Bool :=
  if d.puts.headD false then ({ d with queue := d.queue ++ [e], puts := d.puts.tail }, true)
  else ({ d with puts := d.puts.tail }, false)

/-- A put of an envelope that is not the last one: `seq` advances only when it happens. -/
def putNext (e : Envelope Λ) : Driver Λ × Bool :=
  match d.put e with
  | (d, true) => ({ d with seq := d.seq + 1 }, true)
  | (d, false) => (d, false)

/-- The pending reasoning is put on the queue. -/
def flushReasoning : Driver Λ × Bool :=
  let e :=
    { seq := d.seq
      choiceIndex := d.pendingReasoningChoice
      reasoningDelta := String.join d.pendingReasoning }
  match d.putNext e with
  | (d, true) => ({ d with pendingReasoning := [] }, true)
  | (d, false) => (d, false)

/-- The pending text is put on the queue, with the pending logprobs. -/
def flushText : Driver Λ × Bool :=
  let text := String.join d.pendingText
  let e :=
    { seq := d.seq
      textDelta := text
      isFirst := text ≠ "" && !d.firstTextPublished
      logprobs := d.pendingLogprobs }
  match d.putNext e with
  | (d, true) =>
    ({ d with
      firstTextPublished := d.firstTextPublished || text ≠ ""
      pendingText := []
      pendingLogprobs := []
      pendingCount := 0 }, true)
  | (d, false) => (d, false)

/-- The second half of `_flush_pending`. -/
def flushRest (progress : Bool) : Driver Λ × Bool :=
  if d.pendingText.isEmpty && !progress then (d, true) else d.flushText

def flushPending (progress : Bool) : Driver Λ × Bool :=
  if d.pendingReasoning.isEmpty then d.flushRest progress
  else
    match d.flushReasoning with
    | (d, false) => (d, false)
    | (d, true) =>
      if d.pendingText.isEmpty then ({ d with pendingCount := 0 }, true)
      else d.flushRest progress

section

variable (chunk : GenerationChunk Λ)

/-- New reasoning first flushes the text before it, and reasoning of another choice. -/
def pendReasoning : Driver Λ × Bool :=
  let otherChoice := !d.pendingReasoning.isEmpty && chunk.choiceIndex ≠ d.pendingReasoningChoice
  let r := if !d.pendingText.isEmpty || otherChoice then d.flushPending false else (d, true)
  match r with
  | (d, false) => (d, false)
  | (d, true) =>
    ({ d with
      pendingReasoningChoice := chunk.choiceIndex
      pendingReasoning := d.pendingReasoning ++ [chunk.reasoningDelta]
      pendingCount := d.pendingCount + max 1 chunk.reasoningDelta.length }, true)

/-- The reasoning of a chunk, if it has any. -/
def noteReasoning : Driver Λ × Bool :=
  if chunk.reasoningDelta = "" then (d, true) else d.pendReasoning chunk

/-- The text and the logprobs of a chunk. -/
def noteText : Driver Λ :=
  { d with
    pendingText := if chunk.textDelta = "" then d.pendingText else d.pendingText ++
        [chunk.textDelta]
    pendingCount :=
      if chunk.textDelta = "" then d.pendingCount
      else d.pendingCount + max 1 chunk.textDelta.length
    pendingLogprobs := d.pendingLogprobs ++ chunk.logprobs }

end

/-- The loop is left. -/
def leave : Driver Λ := { d with running := false }

/-- A `transport_failure` terminal is put on the queue, and the loop is left. -/
def failTransport : Driver Λ :=
  let r := d.put (transportFailureEnvelope d.seq)
  { r.1 with transportFailurePublished := true, terminalSent := r.2 }.leave

end

/-- The loop goes on if the puts of this turn happened. -/
def orFail (r : Driver Λ × Bool) (f : Driver Λ → Driver Λ) : Driver Λ :=
  match r with
  | (d, true) => f d
  | (d, false) => d.failTransport

/-- The terminal of a terminal chunk. -/
def terminalOf (settings : Settings) (seq : ℕ) (chunk : GenerationChunk Λ) : Envelope Λ :=
  let hasError := chunk.errorCode.isSome || chunk.errorMessage.isSome ||
    chunk.finishReason = some .error
  { seq
    done := true
    finishReason := some (chunk.finishReason.getD .stop)
    usage := encodeUsage chunk.promptTokens chunk.completionTokens chunk.cachedTokens
    error :=
      if hasError then
        encodeError (some (chunk.errorCode.getD "inference_error"))
          (some (settings.safeMessage chunk.errorCode chunk.errorMessage))
      else none }

/-- A terminal chunk. -/
def onDone (settings : Settings) (d : Driver Λ) (chunk : GenerationChunk Λ) : Driver Λ :=
  orFail (d.noteReasoning chunk) fun d =>
    orFail ((d.noteText chunk).flushPending false) fun d =>
      orFail (d.put (terminalOf settings d.seq chunk)) fun d =>
          { d with terminalSent := true }.leave

/-- A chunk with a tool-call delta, which goes out on its own. -/
def onToolCall (d : Driver Λ) (delta : ToolCallDelta) : Driver Λ :=
  orFail (d.flushPending false) fun d =>
    orFail (d.putNext { seq := d.seq, isFirst := d.seq = 0, toolCallDelta := some delta }) id

/-- A chunk with text, reasoning or logprobs. -/
def onDelta (d : Driver Λ) (chunk : GenerationChunk Λ) (due : Bool) : Driver Λ :=
  orFail (d.noteReasoning chunk) fun d =>
    let d := d.noteText chunk
    if d.pendingCount ≥ flushMaxTokens || d.seq = 0 || due then orFail (d.flushPending true) id
    else d

def candidateEnvelope (d : Driver Λ) (chunk : GenerationChunk Λ) : Envelope Λ where
  seq := d.seq
  textDelta := chunk.textDelta
  finishReason := chunk.finishReason
  choiceIndex := chunk.choiceIndex
  logprobs := chunk.logprobs
  toolCallDelta := chunk.toolCallDelta
  reasoningDelta := chunk.reasoningDelta

/-- A chunk of one of several candidates. -/
def onCandidate (d : Driver Λ) (chunk : GenerationChunk Λ) : Driver Λ :=
  orFail (d.putNext (d.candidateEnvelope chunk)) id

def onChunk (settings : Settings) (d : Driver Λ) (chunk : GenerationChunk Λ) (due : Bool) :
    Driver Λ :=
  if settings.multiCandidateStream && !chunk.done then d.onCandidate chunk
  else if chunk.done then d.onDone settings chunk
  else
    match chunk.toolCallDelta with
    | some delta => d.onToolCall delta
    | none => d.onDelta chunk due

section

variable (d : Driver Λ)

/-- A terminal whose put may time out. -/
def putLast (e : Envelope Λ) : Driver Λ :=
  let r := d.put e
  { r.1 with terminalSent := r.2 }.leave

/-- The iterator ended: a terminal is made up, unless content was lost. -/
def onExhausted : Driver Λ :=
  orFail (d.flushPending false) fun d =>
    d.putLast { seq := d.seq, done := true, finishReason := some .stop }

def onRaised (errorCode errorMessage : String) : Driver Λ :=
  d.putLast
    { seq := d.seq
      done := true
      finishReason := some .error
      error := encodeError (some errorCode) (some errorMessage) }

/-- A cancelled stream gets no terminal ahead of content that could not be put. -/
def onCancelled : Driver Λ :=
  match d.flushPending false with
  | (d, false) => d.leave
  | (d, true) => d.putLast { seq := d.seq, done := true, finishReason := some .cancelled }

end

/-- One turn of the loop. -/
def turn (settings : Settings) (d : Driver Λ) (t : Turn Λ) : Driver Λ :=
  match t with
  | .chunk chunk due => d.onChunk settings chunk due
  | .exhausted => d.onExhausted
  | .raised errorCode errorMessage => d.onRaised errorCode errorMessage
  | .cancelled => d.onCancelled

end Driver

/-- The loop, the publisher and the work item. -/
structure Worker (Λ : Type) where
  driver : Driver Λ
  /-- What was published. -/
  published : List (Envelope Λ)
  /-- What the publisher returned. -/
  publisherOk : Option Bool
  settled : Bool
  acked : Bool
  deriving DecidableEq

inductive WorkerEvent (Λ : Type)
  /-- A turn of the loop, with what becomes of its puts. -/
  | turn (turn : Turn Λ) (puts : List Bool)
  /-- The publisher takes the next envelope; the publish succeeds or raises. -/
  | publish (ok : Bool)
  /-- The publisher takes the sentinel behind the last envelope. -/
  | sentinel
  /-- The publisher is awaited, and the work item acknowledged if all is well; closing the
  iterator may have failed. -/
  | settle (closeFailed : Bool)
  deriving DecidableEq

namespace Worker

def start (Λ : Type) : Worker Λ where
  driver := .start Λ
  published := []
  publisherOk := none
  settled := false
  acked := false

/-- One event. -/
def step (settings : Settings) (w : Worker Λ) :
    WorkerEvent Λ → Option (Worker Λ × List Empty)
  | .turn t puts =>
    if w.driver.running then
      some ({ w with driver := { w.driver with puts }.turn settings t }, [])
    else none
  | .publish ok =>
    match w.publisherOk, w.driver.queue.drop w.published.length with
    | none, e :: _ =>
      if ok then some ({ w with published := w.published ++ [e] }, [])
      else some ({ w with publisherOk := some false }, [])
    | _, _ => none
  | .sentinel =>
    if w.publisherOk = none ∧ w.driver.running = false ∧
        w.driver.queue.drop w.published.length = [] then
      some ({ w with publisherOk := some (w.published.any Envelope.done) }, [])
    else none
  | .settle closeFailed =>
    if w.driver.running = false ∧ w.settled = false then
      -- A publisher that did not return in time is cancelled.
      some ({ w with
        settled := true
        publisherOk := some (w.publisherOk.getD false)
        acked := !closeFailed && w.driver.terminalSent && w.publisherOk.getD false &&
          !w.driver.transportFailurePublished }, [])
    else none

end Worker

end Sie.Server
