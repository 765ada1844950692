import Mathlib.Data.Rat.Defs
import Mathlib.Data.String.Basic
import Sie.Lib.Json
import Sie.Lib.Word

/-!
# The collector of a streamed generation

The state machine of the gateway's `queue/streaming.rs`: a `StreamCollector` takes the
chunks of the worker attempts of one request, keeps those of one attempt, and builds the
aggregated outcome once that attempt's terminal chunk is in.

What belongs to an attempt is a structure of its own, `AttemptState`: it is exactly what
`bump_attempt_generation` puts aside when it opens the latch for the next attempt, and
what `rewind_attempt_generation` puts back when the republish failed.

Instants are nanoseconds.  The two durations of an outcome are exact rationals here; the
source computes them in floating point.
-/

namespace Sie.Gateway

open Sie.Lib Std

/-- A floating point number of the wire; only its being finite is looked at. -/
inductive WireFloat
  | finite (value : ℚ)
  | nonFinite
  deriving DecidableEq

structure ToolCallFunctionWire where
  name : Option String
  arguments : String
  deriving DecidableEq

/-- One tool-call delta.  The id and the name come on the first delta of a call; the
arguments come in parts. -/
structure ToolCallDeltaWire where
  index : ℕ
  id : Option String
  kind : String
  function : Option ToolCallFunctionWire
  deriving DecidableEq

structure ChunkError where
  code : String
  message : String
  param : Option String
  retryAfterS : Option ℕ
  reason : Option String
  deriving DecidableEq

structure UpstreamTokenUsage where
  promptTokens : ℕ
  completionTokens : ℕ
  cachedTokens : Option ℕ
  deriving DecidableEq

structure UsageBlock where
  promptTokens : ℕ
  completionTokens : ℕ
  totalTokens : ℕ
  images : Option ℕ
  gpuSecond : Option ℕ
  cachedTokens : Option ℕ
  upstreamUsage : Option UpstreamTokenUsage
  deriving DecidableEq

/-- One candidate of a generation with several of them. -/
structure CandidateData where
  text : String
  finishReason : Option String
  logprobs : Option (List Json)
  toolCalls : Option (List Json)
  reasoningContent : Option String
  deriving DecidableEq

/-- One chunk of a worker attempt. -/
structure ChunkEnvelope where
  kind : String
  requestId : String
  attemptId : String
  seq : ℕ
  textDelta : String
  done : Bool
  isFirst : Bool
  finishReason : Option String
  usage : Option UsageBlock
  ttftMs : Option WireFloat
  error : Option ChunkError
  toolCalls : Option (List ToolCallDeltaWire)
  logprobs : Option (List Json)
  candidates : List CandidateData
  choiceIndex : ℕ
  executedBundleConfigHash : Option String
  executionIdentitySha256 : Option String
  executionBindingSha256 : Option String
  reasoningDelta : String
  deriving DecidableEq

/-- Whether the chunk carries output of the model: text, reasoning or a tool call. -/
def ChunkEnvelope.carriesOutput (chunk : ChunkEnvelope) : Bool :=
  chunk.textDelta != "" || chunk.reasoningDelta != "" ||
    (match chunk.toolCalls with
      | some toolCalls => !toolCalls.isEmpty
      | none => false)

def isLowerSha256 (value : String) : Bool :=
  value.utf8ByteSize == 64 && value.toList.all fun c => c.isDigit || ('a' ≤ c && c ≤ 'f')

/-- The finish reasons a worker may send. -/
def isKnownFinishReason (reason : String) : Bool :=
  reason ∈ ["stop", "length", "tool_calls", "content_filter", "function_call", "error",
    "cancelled"]

/-- A tool call put together from its deltas. -/
structure AggregatedToolCall where
  index : ℕ
  id : String
  kind : String
  name : String
  arguments : String
  deriving DecidableEq

/-- The state of one attempt: what a bump puts aside and a rewind puts back. -/
structure AttemptState where
  chunks : List (ℕ × String)
  toolCallsByIndex : ExtTreeMap ℕ AggregatedToolCall
  logprobs : List Json
  reasoning : ExtTreeMap ℕ String
  firstChunkAt : Option ℕ
  lastChunkAt : Option ℕ
  lastOutputAt : Option ℕ
  outputEventCount : ℕ
  currentAttemptId : Option String
  lastAppliedSeq : Option ℕ
  executionIdentitySha256 : Option String
  executionIdentityConsistent : Bool
  executionBindingSha256 : Option String
  executionBindingConsistent : Bool

/-- The state of an attempt that no chunk was seen of. -/
def AttemptState.empty : AttemptState where
  chunks := []
  toolCallsByIndex := ∅
  logprobs := []
  reasoning := ∅
  firstChunkAt := none
  lastChunkAt := none
  lastOutputAt := none
  outputEventCount := 0
  currentAttemptId := none
  lastAppliedSeq := none
  executionIdentitySha256 := none
  executionIdentityConsistent := true
  executionBindingSha256 := none
  executionBindingConsistent := true

/-- What the terminal chunk says about the whole generation. -/
structure TerminalMeta where
  finishReason : String
  usage : Option UsageBlock
  ttftMs : Option WireFloat
  error : Option ChunkError
  candidates : List CandidateData
  executedBundleConfigHash : Option String
  deriving DecidableEq

/-- The collector of one request. -/
structure StreamCollector extends AttemptState where
  finalMeta : Option TerminalMeta
  publishedAt : ℕ
  attemptGeneration : ℕ
  encodedPayload : Option (List UInt8)
  poolFallbackSubject : Option String
  republished : Bool
  /-- Whether a tap was installed for the chunks. -/
  chunkTap : Bool
  abandonedAttemptId : Option String
  snapshot : Option AttemptState

/-- A new collector, with what the publish path sets before it puts it in the map. -/
def StreamCollector.new (publishedAt : ℕ) (poolFallbackSubject : Option String)
    (chunkTap : Bool) : StreamCollector where
  toAttemptState := .empty
  finalMeta := none
  publishedAt
  attemptGeneration := 0
  encodedPayload := none
  poolFallbackSubject
  republished := false
  chunkTap
  abandonedAttemptId := none
  snapshot := none

/-! ## What an accepted chunk adds -/

/-- Keep a digest as long as every chunk of the attempt brought the same valid one. -/
def noteDigest (held : Option String) (consistent : Bool) (brought : Option String) :
    Option String × Bool :=
  match brought with
  | some value =>
    if isLowerSha256 value && consistent then
      match held with
      | some current => if current ≠ value then (none, false) else (held, consistent)
      | none => (some value, consistent)
    else (none, false)
  | none => (none, false)

/-- The call of an index that no delta was seen of. -/
def AggregatedToolCall.fresh (tc : ToolCallDeltaWire) : AggregatedToolCall where
  index := tc.index
  id := ""
  kind := tc.kind
  name := ""
  arguments := ""

/-- Add a delta to its call: the first id and the first name stay, the arguments grow. -/
def AggregatedToolCall.extend (entry : AggregatedToolCall) (tc : ToolCallDeltaWire) :
    AggregatedToolCall :=
  let entry :=
    if entry.id = "" then
      match tc.id with
      | some id => { entry with id }
      | none => entry
    else entry
  match tc.function with
  | some func =>
    let entry :=
      if entry.name = "" then
        match func.name with
        | some name => { entry with name }
        | none => entry
      else entry
    { entry with arguments := entry.arguments ++ func.arguments }
  | none => entry

def absorbToolCall (calls : ExtTreeMap ℕ AggregatedToolCall) (tc : ToolCallDeltaWire) :
    ExtTreeMap ℕ AggregatedToolCall :=
  calls.alter tc.index fun entry =>
    some ((entry.getD (AggregatedToolCall.fresh tc)).extend tc)

def absorbReasoning (reasoning : ExtTreeMap ℕ String) (chunk : ChunkEnvelope) :
    ExtTreeMap ℕ String :=
  if chunk.reasoningDelta = "" then reasoning
  else reasoning.alter chunk.choiceIndex fun entry => some (entry.getD "" ++ chunk.reasoningDelta)

/-- What an accepted chunk of the attempt changes. -/
def AttemptState.absorb (a : AttemptState) (now : ℕ) (chunk : ChunkEnvelope) : AttemptState :=
  let identity := noteDigest a.executionIdentitySha256 a.executionIdentityConsistent
    chunk.executionIdentitySha256
  let binding := noteDigest a.executionBindingSha256 a.executionBindingConsistent
    chunk.executionBindingSha256
  let output := chunk.carriesOutput
  { chunks := if chunk.textDelta = "" then a.chunks else a.chunks ++ [(chunk.seq, chunk.textDelta)]
    toolCallsByIndex := (chunk.toolCalls.getD []).foldl absorbToolCall a.toolCallsByIndex
    logprobs := a.logprobs ++ chunk.logprobs.getD []
    reasoning := absorbReasoning a.reasoning chunk
    firstChunkAt := if output then a.firstChunkAt <|> some now else a.firstChunkAt
    lastChunkAt := some now
    lastOutputAt := if output then some now else a.lastOutputAt
    outputEventCount := if output then min (a.outputEventCount + 1) u64Max else a.outputEventCount
    currentAttemptId := a.currentAttemptId
    lastAppliedSeq := some chunk.seq
    executionIdentitySha256 := identity.1
    executionIdentityConsistent := identity.2
    executionBindingSha256 := binding.1
    executionBindingConsistent := binding.2 }

/-- The two digests, if both were brought by every chunk. -/
def AttemptState.evidence (a : AttemptState) : Option (String × String) :=
  if a.executionIdentityConsistent && a.executionBindingConsistent then
    match a.executionIdentitySha256, a.executionBindingSha256 with
    | some identity, some binding => some (identity, binding)
    | _, _ => none
  else none

/-- The copy of a chunk for the tap.  A terminal carries the digests of the whole
attempt, not its own. -/
def tappedChunk (a : AttemptState) (chunk : ChunkEnvelope) : ChunkEnvelope :=
  if chunk.done then
    { chunk with
      executionIdentitySha256 := a.evidence.map Prod.fst
      executionBindingSha256 := a.evidence.map Prod.snd }
  else chunk

/-- The meta data of a terminal chunk. -/
def ChunkEnvelope.terminalMeta (chunk : ChunkEnvelope) : TerminalMeta where
  finishReason := chunk.finishReason.getD "stop"
  usage := chunk.usage
  ttftMs := chunk.ttftMs
  error := chunk.error
  candidates := chunk.candidates
  executedBundleConfigHash := chunk.executedBundleConfigHash

/-! ## Applying a chunk -/

inductive ChunkApplied
  | delta
  | terminal
  | stale
  | duplicate
  | seqGap
  deriving DecidableEq

/-- A collector after a chunk, the answer to the caller, and what went to the tap. -/
structure Application where
  collector : StreamCollector
  applied : ChunkApplied
  tapped : List ChunkEnvelope

namespace StreamCollector

/-- Latch the collector to an attempt. -/
def latch (c : StreamCollector) (attemptId : String) : StreamCollector :=
  { c with currentAttemptId := some attemptId, abandonedAttemptId := none }

/-- Accept a chunk of the latched attempt. -/
def accept (c : StreamCollector) (now : ℕ) (chunk : ChunkEnvelope) : Application :=
  let a := c.toAttemptState.absorb now chunk
  { collector :=
      { c with
        toAttemptState := a
        finalMeta := if chunk.done then some chunk.terminalMeta else c.finalMeta }
    applied := if chunk.done then .terminal else .delta
    tapped := if c.chunkTap then [tappedChunk a chunk] else [] }

/-- The check of the sequence numbers, which a terminal chunk is exempt from. -/
def applySeq (c : StreamCollector) (now : ℕ) (chunk : ChunkEnvelope) : Application :=
  if chunk.done then c.accept now chunk
  else
    match c.lastAppliedSeq with
    | some last =>
      if chunk.seq ≤ last then ⟨c, .duplicate, []⟩
      else if last + 1 < chunk.seq then ⟨c, .seqGap, []⟩
      else c.accept now chunk
    | none => c.accept now chunk

/-- The wire-level checks of a chunk. -/
def wellFormed (chunk : ChunkEnvelope) : Bool :=
  chunk.kind == "chunk" && chunk.ttftMs != some .nonFinite &&
    (match chunk.finishReason with
      | some reason => isKnownFinishReason reason
      | none => true)

def apply (c : StreamCollector) (now : ℕ) (chunk : ChunkEnvelope) : Application :=
  if wellFormed chunk then
    match c.currentAttemptId with
    | none =>
      if c.abandonedAttemptId = some chunk.attemptId then ⟨c, .stale, []⟩
      else (c.latch chunk.attemptId).applySeq now chunk
    | some current =>
      if current ≠ chunk.attemptId then ⟨c, .stale, []⟩
      else c.applySeq now chunk
  else ⟨c, .stale, []⟩

/-! ## Bump, rewind and outcome -/

/-- Put the attempt aside and open the latch for the next one. -/
def bumpAttemptGeneration (c : StreamCollector) : StreamCollector :=
  { c with
    toAttemptState := .empty
    attemptGeneration := min (c.attemptGeneration + 1) u64Max
    snapshot := some c.toAttemptState
    abandonedAttemptId := c.currentAttemptId }

/-- Note the attempt a NAK named, if no chunk and no bump named one. -/
def recordAbandonedAttemptId (c : StreamCollector) (attemptId : String) : StreamCollector :=
  if attemptId = "" ∨ c.currentAttemptId.isSome ∨ c.abandonedAttemptId.isSome then c
  else { c with abandonedAttemptId := some attemptId }

/-- Without a snapshot the accumulated output stays and only the latch, the clocks and
the digests are cleared. -/
def clearedAttempt (a : AttemptState) : AttemptState :=
  { AttemptState.empty with
    chunks := a.chunks
    toolCallsByIndex := a.toolCallsByIndex
    logprobs := a.logprobs
    reasoning := a.reasoning }

/-- Undo a bump whose publish failed. -/
def rewindAttemptGeneration (c : StreamCollector) : StreamCollector :=
  { c with
    toAttemptState := c.snapshot.getD (clearedAttempt c.toAttemptState)
    attemptGeneration := c.attemptGeneration - 1
    snapshot := none
    abandonedAttemptId := none }

end StreamCollector

inductive StreamOutcomeOrigin
  | workerTerminal
  | gatewaySynthetic
  deriving DecidableEq

/-- What the handler of the request gets. -/
structure StreamOutcome where
  text : String
  finishReason : String
  usage : Option UsageBlock
  attemptId : String
  ttftMs : Option WireFloat
  tpotMs : Option ℚ
  error : Option ChunkError
  origin : StreamOutcomeOrigin
  toolCalls : Option (List AggregatedToolCall)
  logprobs : Option (List Json)
  candidates : List CandidateData
  executedBundleConfigHash : Option String
  executionIdentitySha256 : Option String
  executionBindingSha256 : Option String
  reasoning : ExtTreeMap ℕ String
  deriving DecidableEq

/-- Nanoseconds as milliseconds. -/
def millis (nanos : ℕ) : ℚ := nanos / 1000000

namespace StreamCollector

section

variable (c : StreamCollector)

def ttftMs (terminal : TerminalMeta) : Option WireFloat :=
  terminal.ttftMs <|> c.firstChunkAt.map fun t => .finite (millis (t - c.publishedAt))

def tpotMs (terminal : TerminalMeta) : Option ℚ :=
  match c.firstChunkAt, c.lastOutputAt with
  | some first, some last =>
    if first < last then
      let reported := (terminal.usage.map UsageBlock.completionTokens).getD 0
      let completion := if 0 < reported then reported else c.outputEventCount
      if 0 < completion then some (millis (last - first) / completion) else none
    else none
  | _, _ => none

/-- The aggregated outcome, once a terminal chunk was applied. -/
def buildOutcome : Option StreamOutcome :=
  c.finalMeta.map fun terminal =>
    { text := c.chunks.foldl (fun text delta => text ++ delta.2) ""
      finishReason := terminal.finishReason
      usage := terminal.usage
      attemptId := c.currentAttemptId.getD ""
      ttftMs := c.ttftMs terminal
      tpotMs := c.tpotMs terminal
      error := terminal.error
      origin := .workerTerminal
      toolCalls :=
        if c.toolCallsByIndex.isEmpty then none
        else some (c.toolCallsByIndex.toList.map Prod.snd)
      logprobs := if c.logprobs.isEmpty then none else some c.logprobs
      candidates := terminal.candidates
      executedBundleConfigHash := terminal.executedBundleConfigHash
      executionIdentitySha256 := c.evidence.map Prod.fst
      executionBindingSha256 := c.evidence.map Prod.snd
      reasoning := c.reasoning }

/-- The outcome of a stream the gateway ends itself. -/
def failure (code message : String) : StreamOutcome where
  text := ""
  finishReason := "error"
  usage := none
  attemptId := c.currentAttemptId.getD ""
  ttftMs := none
  tpotMs := none
  error := some ⟨code, message, none, none, none⟩
  origin := .gatewaySynthetic
  toolCalls := none
  logprobs := none
  candidates := []
  executedBundleConfigHash := none
  executionIdentitySha256 := none
  executionBindingSha256 := none
  reasoning := ∅

end

end StreamCollector

variable {c c₁ : StreamCollector} {chunk : ChunkEnvelope}

/-! ## What a chunk can do -/

/-- The collector `c₁` that goes on to check the sequence number: the latch was open for
this attempt, or was on it already. -/
inductive Latches (c : StreamCollector) (chunk : ChunkEnvelope) : StreamCollector → Prop
  | opened (hcurrent : c.currentAttemptId = none)
      (habandoned : c.abandonedAttemptId ≠ some chunk.attemptId) :
      Latches c chunk (c.latch chunk.attemptId)
  | kept (hcurrent : c.currentAttemptId = some chunk.attemptId) : Latches c chunk c

theorem Latches.current (h : Latches c chunk c₁) : c₁.currentAttemptId = some chunk.attemptId := by
  cases h with
  | opened => rfl
  | kept hcurrent => exact hcurrent

/-- What `apply` can do with a chunk. -/
inductive Applies (c : StreamCollector) (now : ℕ) (chunk : ChunkEnvelope) : Application → Prop
  | stale : Applies c now chunk ⟨c, .stale, []⟩
  | duplicate {c₁ : StreamCollector} {last : ℕ} (hlatch : Latches c chunk c₁)
      (hdone : chunk.done = false) (hlast : c₁.lastAppliedSeq = some last)
      (hseq : chunk.seq ≤ last) : Applies c now chunk ⟨c₁, .duplicate, []⟩
  | seqGap {c₁ : StreamCollector} {last : ℕ} (hlatch : Latches c chunk c₁)
      (hdone : chunk.done = false) (hlast : c₁.lastAppliedSeq = some last)
      (hseq : last + 1 < chunk.seq) : Applies c now chunk ⟨c₁, .seqGap, []⟩
  | accepted {c₁ : StreamCollector} (hlatch : Latches c chunk c₁)
      (hseq : chunk.done = false → ∀ last, c₁.lastAppliedSeq = some last →
        chunk.seq = last + 1) : Applies c now chunk (c₁.accept now chunk)

theorem applies_of_latches {now : ℕ} (hlatch : Latches c chunk c₁) :
    Applies c now chunk (c₁.applySeq now chunk) := by
  unfold StreamCollector.applySeq
  by_cases hdone : chunk.done = true
  · rw [if_pos hdone]
    exact .accepted hlatch fun hnot => absurd hdone (by simp [hnot])
  rw [if_neg hdone]
  have hdone : chunk.done = false := by simpa using hdone
  split
  next last hlast =>
    by_cases hdup : chunk.seq ≤ last
    · rw [if_pos hdup]
      exact .duplicate hlatch hdone hlast hdup
    rw [if_neg hdup]
    by_cases hgap : last + 1 < chunk.seq
    · rw [if_pos hgap]
      exact .seqGap hlatch hdone hlast hgap
    rw [if_neg hgap]
    refine .accepted hlatch fun _ last' hlast' => ?_
    cases hlast.symm.trans hlast'
    omega
  next hlast =>
    exact .accepted hlatch fun _ last hlast' => absurd (hlast.symm.trans hlast') (by simp)

/-- **One case for each answer of `apply`.** -/
theorem apply_applies (c : StreamCollector) (now : ℕ) (chunk : ChunkEnvelope) :
    Applies c now chunk (c.apply now chunk) := by
  unfold StreamCollector.apply
  by_cases hwell : StreamCollector.wellFormed chunk = true
  · rw [if_pos hwell]
    split
    next hcurrent =>
      by_cases habandoned : c.abandonedAttemptId = some chunk.attemptId
      · rw [if_pos habandoned]
        exact .stale
      · rw [if_neg habandoned]
        exact applies_of_latches (.opened hcurrent habandoned)
    rename_i current hcurrent
    by_cases hsame : current = chunk.attemptId
    · rw [if_neg (by simpa using hsame)]
      exact applies_of_latches (.kept (hsame ▸ hcurrent))
    · rw [if_pos hsame]
      exact .stale
  · rw [if_neg hwell]
    exact .stale

/-- A well-formed chunk of the latched attempt that leaves a number out is a gap. -/
theorem apply_of_skips {now last : ℕ} (hwell : StreamCollector.wellFormed chunk = true)
    (hcurrent : c.currentAttemptId = some chunk.attemptId) (hdone : chunk.done = false)
    (hlast : c.lastAppliedSeq = some last) (hseq : last + 1 < chunk.seq) :
    c.apply now chunk = ⟨c, .seqGap, []⟩ := by
  have hdup : ¬ chunk.seq ≤ last := by omega
  simp [StreamCollector.apply, StreamCollector.applySeq, hwell, hcurrent, hdone, hlast, hseq, hdup]

end Sie.Gateway
