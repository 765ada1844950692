import Sie.Lib.Marker
import Sie.Server.Generation

/-!
# Parsing tool calls out of a generation

`processors/tool_call_parser.py`: text between `<tool_call>` and `</tool_call>` becomes tool
call deltas, the text around it stays text.  The streaming parser gets the text of each
choice in pieces; the one-shot parser gets the whole text of a candidate.

What stands inside a block is read by `_tool_call_deltas`: a function of the block's text,
the format and the schemas of the request.  It is a parameter here (`payload`): the name and
the serialised arguments, or what it raises.  The identifiers of calls are random.
-/

namespace Sie.Server

open Sie.Lib

variable {Λ : Type}

/-- `<tool_call>` -/
def toolOpen : List Char := ['<', 't', 'o', 'o', 'l', '_', 'c', 'a', 'l', 'l', '>']

/-- `</tool_call>` -/
def toolClose : List Char := ['<', '/', 't', 'o', 'o', 'l', '_', 'c', 'a', 'l', 'l', '>']

def maxToolBufferChars : ℕ := 256 * 1024

def maxTextBufferChars : ℕ := 256 * 1024

inductive ToolCallFormat
  | auto
  | qwenXml
  | hermesJson
  | glmXml
  | museAtem
  deriving DecidableEq

/-- What `_tool_call_deltas` raises.  The parsers catch a `ValueError`; the `RecursionError` of
`json.loads` or `json.dumps` on a value that is nested too deeply they do not. -/
inductive PayloadError
  | valueError (message : String)
  | recursionError
  deriving DecidableEq

/-- How a stream stops: after its terminal, or with an exception. -/
inductive Stop
  | ended
  | raised
  deriving DecidableEq

/-- What the parser is called with. -/
structure ToolCallParser where
  format : ToolCallFormat
  parallelToolCalls : Bool
  /-- The name and the serialised arguments of the call in a block, or the error. -/
  payload : ToolCallFormat → List Char → Except PayloadError (String × String)
  callId : ℕ → String

/-- The parser of one choice. -/
structure ChoiceState where
  textBuffer : List Char := []
  inToolCall : Bool := false
  toolBuffer : List Char := []
  toolIndex : ℕ := 0
  emittedToolCall : Bool := false
  firstEmitted : Bool := false
  pendingFinish : Option FinishReason := none
  pendingPromptTokens : Option ℕ := none
  pendingCompletionTokens : Option ℕ := none
  closed : Bool := false
  deriving DecidableEq

def parseErrorChunk (message : String) : GenerationChunk Λ where
  textDelta := ""
  done := true
  finishReason := some .error
  errorCode := some "MODEL_OUTPUT_PARSE_ERROR"
  errorMessage := some message

def parallelToolCallsViolationChunk : GenerationChunk Λ where
  textDelta := ""
  done := true
  finishReason := some .error
  errorCode := some "parallel_tool_calls_violated"
  errorMessage := some
    ("model attempted a second tool call but parallel_tool_calls=false was set; " ++
      "refusing to silently drop additional calls")

/-! ### One choice -/

/-- Latch the marker of the first chunk. -/
def ChoiceState.markFirst (s : ChoiceState) (isFirstHint : Bool) : ChoiceState × Bool :=
  if s.firstEmitted || !isFirstHint then (s, false) else ({ s with firstEmitted := true }, true)

/-- Text of a choice as a chunk; none for no text. -/
def ChoiceState.emitText (s : ChoiceState) (text : List Char) (isFirstHint : Bool)
    (choiceIndex : ℕ) : ChoiceState × List (GenerationChunk Λ) :=
  if text = [] then (s, [])
  else
    let marked := s.markFirst isFirstHint
    (marked.1,
      [{ textDelta := String.ofList text, isFirst := marked.2, choiceIndex := choiceIndex }])

namespace ToolCallParser

/-- The two deltas of a block: the announcement, then the arguments. -/
def toolCallDeltas (p : ToolCallParser) (raw : List Char) (index : ℕ) :
    Except PayloadError (List ToolCallDelta) :=
  match p.payload p.format raw with
  | .error e => .error e
  | .ok (name, arguments) =>
    .ok [{ index := index, id := some (p.callId index), functionName := some name },
      { index := index, argumentsDelta := arguments }]

/-- The loop of `_process_text` over what is left of the piece: the chunks, and the state if
the stream goes on. -/
def processLoop (p : ToolCallParser) (isFirstHint : Bool) (choiceIndex : ℕ) (s : ChoiceState)
    (rest : List Char) : List (GenerationChunk Λ) × Except Stop ChoiceState :=
  if _hrest : rest = [] then ([], .ok s)
  else if s.inToolCall then
    match find toolClose rest with
    | none =>
      -- the end may be the beginning of a closing tag
      let absorbEnd := rest.length - (toolClose.length - 1)
      let toolBuffer := s.toolBuffer ++ rest.take absorbEnd
      if toolBuffer.length + (rest.length - absorbEnd) > maxToolBufferChars then
        ([parseErrorChunk
          "unterminated <tool_call> block exceeded 262144 chars without a closing tag"],
          .error .ended)
      else ([], .ok { s with toolBuffer := toolBuffer, textBuffer := rest.drop absorbEnd })
    | some closeIdx =>
      match p.toolCallDeltas (s.toolBuffer ++ rest.take closeIdx) s.toolIndex with
      | .error (.valueError message) => ([parseErrorChunk message], .error .ended)
      | .error .recursionError => ([], .error .raised)
      | .ok deltas =>
        let chunks : List (GenerationChunk Λ) := deltas.map fun delta =>
          { textDelta := "", toolCallDelta := some delta, choiceIndex := choiceIndex }
        let s' : ChoiceState :=
          { s with
            emittedToolCall := true
            toolIndex := s.toolIndex + 1
            toolBuffer := []
            inToolCall := false }
        let next := p.processLoop isFirstHint choiceIndex s'
          (rest.drop (closeIdx + toolClose.length))
        (chunks ++ next.1, next.2)
  else
    match find toolOpen rest with
    | none =>
      let textBuffer := s.textBuffer ++ rest
      if textBuffer.length > maxTextBufferChars then
        ([parseErrorChunk
          "text buffer exceeded 262144 chars without producing a tool-call boundary"],
          .error .ended)
      else
        let flushLen := textBuffer.length - (toolOpen.length - 1)
        let emitted := s.emitText (textBuffer.take flushLen) isFirstHint choiceIndex
        (emitted.2, .ok { emitted.1 with textBuffer := textBuffer.drop flushLen })
    | some openIdx =>
      let emitted := s.emitText (s.textBuffer ++ rest.take openIdx) isFirstHint choiceIndex
      if !p.parallelToolCalls && s.emittedToolCall then
        (emitted.2 ++ [parallelToolCallsViolationChunk], .error .ended)
      else
        let s' : ChoiceState := { emitted.1 with textBuffer := [], inToolCall := true }
        let next := p.processLoop isFirstHint choiceIndex s' (rest.drop (openIdx + toolOpen.length))
        (emitted.2 ++ next.1, next.2)
termination_by rest.length
decreasing_by
  all_goals
    have hpos : 0 < rest.length := List.length_pos_iff.mpr _hrest
    simp [toolClose, toolOpen]
    omega

/-- One piece of text through the parser of a choice.  An exception takes the chunks of the
piece with it. -/
def processText (p : ToolCallParser) (s : ChoiceState) (incoming : List Char)
    (isFirstHint : Bool) (choiceIndex : ℕ) :
    List (GenerationChunk Λ) × Except Stop ChoiceState :=
  if incoming = [] then ([], .ok s)
  else
    let processed := p.processLoop isFirstHint choiceIndex { s with textBuffer := [] }
      (s.textBuffer ++ incoming)
    match processed.2 with
    | .error .raised => ([], .error .raised)
    | _ => processed

end ToolCallParser

/-- The closure of one choice of several. -/
def ChoiceState.close (s : ChoiceState) (choiceIndex : ℕ) (fallbackFinish : Option FinishReason) :
    List (GenerationChunk Λ) × ChoiceState :=
  if s.inToolCall then ([parseErrorChunk "unterminated <tool_call> block"], s)
  else
    let emitted := s.emitText s.textBuffer false choiceIndex
    let finish :=
      if s.emittedToolCall then FinishReason.toolCalls
      else ((s.pendingFinish <|> fallbackFinish).getD .stop)
    (emitted.2 ++
      [{ textDelta := ""
         finishReason := some finish
         choiceIndex := choiceIndex
         promptTokens := s.pendingPromptTokens
         completionTokens := s.pendingCompletionTokens }],
      { emitted.1 with textBuffer := [], closed := true })

/-! ### A whole text at once -/

namespace ToolCallParser

/-- The loop of the one-shot parser over what is left of the text; nothing if it raises. -/
def parseCandidateLoop (p : ToolCallParser) (toolIndex : ℕ) (rest : List Char) :
    Option (List Char × List CandidateCall) :=
  if _hrest : rest = [] then some ([], [])
  else
    match find toolOpen rest with
    | none => some (rest, [])
    | some openIdx =>
      let after := rest.drop (openIdx + toolOpen.length)
      match find toolClose after with
      -- an unterminated block stays text
      | none => some (rest.take openIdx ++ rest.drop openIdx, [])
      | some closeIdx =>
        let left := after.drop (closeIdx + toolClose.length)
        match p.toolCallDeltas (after.take closeIdx) toolIndex with
        | .error .recursionError => none
        | .error (.valueError _) =>
          -- a malformed block stays text
          let block := toolOpen.length + closeIdx + toolClose.length
          (p.parseCandidateLoop toolIndex left).map fun next =>
            (rest.take openIdx ++ (rest.drop openIdx).take block ++ next.1, next.2)
        | .ok deltas =>
          let calls : List CandidateCall :=
            match deltas with
            | [announce, body] =>
              [{ id := announce.id.getD ""
                 name := announce.functionName.getD ""
                 arguments := body.argumentsDelta }]
            | _ => []
          (p.parseCandidateLoop (toolIndex + 1) left).map fun next =>
            (rest.take openIdx ++ next.1, calls ++ next.2)
termination_by rest.length
decreasing_by
  all_goals
    have hpos : 0 < rest.length := List.length_pos_iff.mpr _hrest
    simp [toolClose, toolOpen]
    omega

/-- The text outside of the blocks of a whole text, and its calls; nothing if it raises. -/
def parseCandidateText (p : ToolCallParser) (text : List Char) :
    Option (List Char × List CandidateCall) :=
  if (find toolOpen text).isNone then some (text, [])
  else p.parseCandidateLoop 0 text

/-! ### A stream -/

/-- The parsers of the choices, in the order in which they came. -/
abbrev States := List (ℕ × ChoiceState)

def stateOf (states : States) (choiceIndex : ℕ) : ChoiceState :=
  match states.find? fun x => x.1 = choiceIndex with
  | some x => x.2
  | none => {}

def setState : States → ℕ → ChoiceState → States
  | [], i, s => [(i, s)]
  | (j, t) :: states, i, s =>
    if j = i then (i, s) :: states else (j, t) :: setState states i s

/-- The end of the stream for the choices that are not closed: the rest of their text, or an
error for an open block. -/
def flush (isFirstHint : Bool) : States → List (GenerationChunk Λ) × Option States
  | [] => ([], some [])
  | (i, s) :: states =>
    if s.closed then
      let next := flush isFirstHint states
      (next.1, next.2.map ((i, s) :: ·))
    else if s.inToolCall then ([parseErrorChunk "unterminated <tool_call> block"], none)
    else
      let emitted := s.emitText s.textBuffer isFirstHint i
      let next := flush isFirstHint states
      (emitted.2 ++ next.1, next.2.map ((i, { emitted.1 with textBuffer := [] }) :: ·))

/-- A candidate of the terminal, with the calls of its text. -/
def parseCandidate (p : ToolCallParser) (candidate : Candidate Λ) :
    Option (Candidate Λ × Bool) :=
  (p.parseCandidateText ((candidate.text.getD "").toList)).map fun parsed =>
    if parsed.2.isEmpty then ({ candidate with text := some (String.ofList parsed.1) }, false)
    else
      ({ candidate with
          text := some (String.ofList parsed.1)
          toolCalls := parsed.2
          finishReason := some .toolCalls }, true)

/-- The terminal with its candidates parsed; nothing if that raises. -/
def parseCandidates (p : ToolCallParser) (c : GenerationChunk Λ) :
    Option (GenerationChunk Λ) :=
  match c.candidates with
  | some (first :: others) => do
    let parsed ← (first :: others).mapM p.parseCandidate
    return {
      textDelta := c.textDelta
      done := true
      isFirst := c.isFirst
      finishReason := if parsed.any Prod.snd then some .toolCalls else c.finishReason
      promptTokens := c.promptTokens
      completionTokens := c.completionTokens
      cachedTokens := c.cachedTokens
      candidates := some (parsed.map Prod.fst)
      logprobs := c.logprobs
      errorCode := c.errorCode
      errorMessage := c.errorMessage }
  | _ => some c

/-- The finish reason of the stream. -/
def globalFinish (states : States) (finishReason : Option FinishReason) : FinishReason :=
  let anyCall := states.any fun x => x.2.emittedToolCall
  match states, finishReason with
  | [(0, s)], some finish => if s.emittedToolCall then .toolCalls else finish
  | _, some finish => finish
  | _, none => if anyCall then .toolCalls else .stop

/-- What follows the terminal of the adapter. -/
def terminal (p : ToolCallParser) (states : States) (c : GenerationChunk Λ) :
    List (GenerationChunk Λ) × Stop :=
  match p.parseCandidates c with
  | none => ([], .raised)
  | some c =>
    let states := if states.isEmpty then [(0, {})] else states
    let flushed := flush c.isFirst states
    match flushed.2 with
    | none => (flushed.1, .ended)
    | some states =>
      (flushed.1 ++
        [{ textDelta := ""
           done := true
           isFirst := ((stateOf states 0).markFirst c.isFirst).2
           finishReason := some (globalFinish states c.finishReason)
           promptTokens := c.promptTokens
           completionTokens := c.completionTokens
           cachedTokens := c.cachedTokens
           errorCode := c.errorCode
           errorMessage := c.errorMessage
           candidates := c.candidates }], .ended)

/-- What follows the end of the adapter's chunks without a terminal. -/
def exhausted (states : States) : List (GenerationChunk Λ) :=
  let flushed := flush false states
  match flushed.2 with
  | none => flushed.1
  | some states =>
    let anyCall := states.any fun x => x.2.emittedToolCall
    flushed.1 ++
      [{ textDelta := ""
         done := true
         finishReason := some (if anyCall then .toolCalls else .stop) }]

/-- The text of a chunk: the chunks it becomes, and an empty one where a block absorbs it. -/
def takeText (p : ToolCallParser) (s : ChoiceState) (c : GenerationChunk Λ) :
    List (GenerationChunk Λ) × Except Stop ChoiceState :=
  let perChoiceFinish := c.finishReason.isSome && !c.done
  if c.textDelta ≠ "" ∨ (perChoiceFinish && s.inToolCall) = true then
    let processed := p.processText s c.textDelta.toList c.isFirst c.choiceIndex
    match processed.2 with
    | .error _ => processed
    | .ok s' =>
      let silent := processed.1.isEmpty && c.reasoningDelta == "" && c.logprobs.isEmpty
        && c.finishReason.isNone && !c.done
      if silent then ([{ textDelta := "", choiceIndex := c.choiceIndex }], .ok s')
      else (processed.1, .ok s')
  else ([], .ok s)

/-- One chunk of the adapter: the chunks it becomes, and the parsers if the stream goes on. -/
def feed (p : ToolCallParser) (states : States) (c : GenerationChunk Λ) :
    List (GenerationChunk Λ) × Except Stop States :=
  if c.textDelta = "" ∧ c.done = false ∧ c.finishReason = none ∧ c.logprobs = [] then
    ([c], .ok states)
  else
    let i := c.choiceIndex
    let reasoning : List (GenerationChunk Λ) :=
      if c.reasoningDelta = "" then []
      else [{ textDelta := "", choiceIndex := i, reasoningDelta := c.reasoningDelta }]
    let taken := p.takeText (stateOf states i) c
    match taken.2 with
    | .error stop => (reasoning ++ taken.1, .error stop)
    | .ok s =>
      let logprobs : List (GenerationChunk Λ) :=
        if c.logprobs.isEmpty then []
        else [{ textDelta := "", choiceIndex := i, logprobs := c.logprobs }]
      let closed :=
        if c.finishReason.isSome && !c.done then
          let pending : ChoiceState :=
            { s with
              pendingFinish := c.finishReason
              pendingPromptTokens := c.promptTokens
              pendingCompletionTokens := c.completionTokens }
          pending.close i c.finishReason
        else ([], s)
      let states := setState states i closed.2
      let before := reasoning ++ taken.1 ++ logprobs ++ closed.1
      if c.done then
        let last := p.terminal states c
        (before ++ last.1, .error last.2)
      else (before, .ok states)

/-- A whole stream and how it stops: chunks after that are not taken. -/
def parseStream (p : ToolCallParser) (states : States) :
    List (GenerationChunk Λ) → List (GenerationChunk Λ) × Stop
  | [] => (exhausted states, .ended)
  | c :: cs =>
    let fed := p.feed states c
    match fed.2 with
    | .error stop => (fed.1, stop)
    | .ok states =>
      let next := p.parseStream states cs
      (fed.1 ++ next.1, next.2)

end ToolCallParser

end Sie.Server
