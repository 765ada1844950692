import Sie.Lib.Marker
import Sie.Lib.Run
import Sie.Server.Generation

/-!
# Hiding the reasoning of a model

`ThinkingBlockStripper` and `suppress_thinking_blocks` (`adapters/_generation_base.py`).
The stripper takes the text of one choice piece by piece and takes the reasoning blocks out
of it; the wrapper keeps one stripper per choice and rewrites the chunks of a generation,
with the hidden text on `reasoning_delta` if the caller asked for it.

Texts are lists of characters here.  Where the wrapper asks whether a text is blank
(`str.strip`), the white space of the language is a parameter.
-/

namespace Sie.Server

open Sie.Lib

inductive ReasoningFormat
  | qwen3
  | gemma4
  deriving DecidableEq

/-- The marker that opens a reasoning block. -/
def ReasoningFormat.opening : ReasoningFormat → List Char
  | qwen3 => ['<', 't', 'h', 'i', 'n', 'k', '>']
  | gemma4 =>
    ['<', '|', 'c', 'h', 'a', 'n', 'n', 'e', 'l', '>', 't', 'h', 'o', 'u', 'g', 'h', 't', '\n']

/-- The marker that closes a reasoning block. -/
def ReasoningFormat.closing : ReasoningFormat → List Char
  | qwen3 => ['<', '/', 't', 'h', 'i', 'n', 'k', '>']
  | gemma4 => ['<', 'c', 'h', 'a', 'n', 'n', 'e', 'l', '|', '>']

/-! ### The stripper -/

structure ThinkingBlockStripper where
  buffer : List Char := []
  inside : Bool
  format : ReasoningFormat
  keep : Bool
  /-- The runs since the last `take_parts`: reasoning, then visible text. -/
  parts : List (List Char × List Char) := []
  deriving DecidableEq

/-- The lengths from `length` down to 1: the first whose end of the text begins a delimiter. -/
def delimiterPrefixFrom (text : List Char) (delimiters : List (List Char)) : ℕ → ℕ
  | 0 => 0
  | length + 1 =>
    let suffix := text.drop (text.length - (length + 1))
    if delimiters.any fun delimiter => suffix.isPrefixOf delimiter then length + 1
    else delimiterPrefixFrom text delimiters length

/-- The length of the longest end of the text that begins a delimiter. -/
def delimiterPrefixLength (text : List Char) (delimiters : List (List Char)) : ℕ :=
  let maxLen := min ((delimiters.map List.length).foldr max 0 - 1) text.length
  delimiterPrefixFrom text delimiters maxLen

namespace ThinkingBlockStripper

section

variable (s : ThinkingBlockStripper)

def hide (text : List Char) : ThinkingBlockStripper :=
  if s.keep = true ∧ text ≠ [] then
    match s.parts.getLast? with
    | some (reasoning, []) =>
      { s with parts := s.parts.dropLast ++ [(reasoning ++ text, [])] }
    | _ => { s with parts := s.parts ++ [(text, [])] }
  else s

/-- `_show`; the text it returns is the one it was given. -/
def display (text : List Char) : ThinkingBlockStripper :=
  if s.keep = true ∧ text ≠ [] then
    let last := s.parts.getLast?.getD ([], [])
    { s with parts := s.parts.dropLast ++ [(last.1, last.2 ++ text)] }
  else s

/-- The marker of the outside that stands first in the buffer: its place, the marker, and
whether it opens a block. -/
def firstMarker : Option (ℕ × List Char × Bool) :=
  match find s.format.opening s.buffer, find s.format.closing s.buffer with
  | some openAt, some closeAt =>
    if closeAt < openAt then some (closeAt, s.format.closing, false)
    else some (openAt, s.format.opening, true)
  | some openAt, none => some (openAt, s.format.opening, true)
  | none, some closeAt => some (closeAt, s.format.closing, false)
  | none, none => none

end

theorem firstMarker_drop {s : ThinkingBlockStripper} {at_ : ℕ} {marker : List Char}
    {opens : Bool} (h : s.firstMarker = some (at_, marker, opens)) : 0 < marker.length := by
  have hmarker : marker = s.format.closing ∨ marker = s.format.opening := by
    unfold firstMarker at h
    split at h
    · split at h <;> simp_all
    all_goals simp_all
  rcases hmarker with rfl | rfl <;> cases s.format <;> decide

/-- The loop of `feed`: the stripper when it stops, and the visible text. -/
def feedLoop (s : ThinkingBlockStripper) : ThinkingBlockStripper × List Char :=
  if _hbuffer : s.buffer = [] then (s, [])
  else if s.inside then
    match find s.format.closing s.buffer with
    | some closeAt =>
      let rest := s.buffer.drop (closeAt + s.format.closing.length)
      feedLoop { s.hide (s.buffer.take closeAt) with buffer := rest, inside := false }
    | none =>
      let keep := delimiterPrefixLength s.buffer [s.format.closing]
      let hideUpto := s.buffer.length - keep
      let rest := s.buffer.drop hideUpto
      ({ s.hide (s.buffer.take hideUpto) with buffer := rest }, [])
  else
    match _hfirst : s.firstMarker with
    | some (markerAt, marker, opens) =>
      let shown := s.buffer.take markerAt
      let rest := s.buffer.drop (markerAt + marker.length)
      -- a stray closing marker is hidden, and the text around it stays
      let next := feedLoop { s.display shown with buffer := rest, inside := opens }
      (next.1, shown ++ next.2)
    | none =>
      let keep := delimiterPrefixLength s.buffer [s.format.opening, s.format.closing]
      let emitUpto := s.buffer.length - keep
      let shown := s.buffer.take emitUpto
      let rest := s.buffer.drop emitUpto
      ({ s.display shown with buffer := rest }, shown)
termination_by s.buffer.length
decreasing_by
  all_goals
    have hpos : 0 < s.buffer.length := List.length_pos_iff.mpr _hbuffer
    simp only [List.length_drop]
  · have hclose : 0 < s.format.closing.length := by cases s.format <;> decide
    omega
  · have hmarker := firstMarker_drop _hfirst
    omega

def feed (s : ThinkingBlockStripper) (text : List Char) : ThinkingBlockStripper × List Char :=
  feedLoop { s with buffer := s.buffer ++ text }

/-- Flush the buffer: as visible text, or hidden inside a block. -/
def finish (s : ThinkingBlockStripper) : ThinkingBlockStripper × List Char :=
  if s.inside then
    ({ s.hide s.buffer with buffer := [], inside := false }, [])
  else
    ({ s.display s.buffer with buffer := [], inside := false }, s.buffer)

end ThinkingBlockStripper

/-- The visible text and the reasoning of a whole text. -/
def splitThinkingBlocks (text : List Char) (startInside : Bool) (format : ReasoningFormat) :
    List Char × List Char :=
  let stripper : ThinkingBlockStripper := { inside := startInside, format := format, keep := true }
  let fed := stripper.feed text
  let finished := fed.1.finish
  (fed.2 ++ finished.2, finished.1.parts.flatMap Prod.fst)

/-! ### The wrapper -/

/-- What the wrapper is called with. -/
structure Suppression where
  startInside : Bool
  format : ReasoningFormat
  keepReasoning : Bool
  /-- The white space that `str.strip` takes off. -/
  isSpace : Char → Bool

/-- A text that is not blank. -/
def Suppression.meaningful (cfg : Suppression) (text : List Char) : Bool :=
  text.any fun c => !cfg.isSpace c

structure Suppressor where
  cfg : Suppression
  /-- The stripper of each choice; one that had no chunk yet is fresh. -/
  states : ℕ → ThinkingBlockStripper
  emittedVisibleText : Bool := false
  emittedMeaningfulText : Bool := false
  emittedToolCall : Bool := false
  hidReasoning : Bool := false

variable {Λ : Type}

/-- The wrapper before the first chunk. -/
def Suppression.start (cfg : Suppression) : Suppressor where
  cfg := cfg
  states _ := { inside := cfg.startInside, format := cfg.format, keep := cfg.keepReasoning }

/-- A candidate of a terminal chunk, and whether its text was changed. -/
def Suppression.rewriteCandidate (cfg : Suppression) (candidate : Candidate Λ) :
    Candidate Λ × Bool :=
  match candidate.text with
  | none => (candidate, false)
  | some text =>
    let split := splitThinkingBlocks text.toList cfg.startInside cfg.format
    let visible := split.1
    let reasoning := split.2
    let changed := decide (visible ≠ text.toList)
    let item :=
      if changed then { candidate with text := some (String.ofList visible), logprobs := [] }
      else candidate
    let item :=
      if cfg.keepReasoning = true ∧ reasoning ≠ [] then
        { item with reasoningContent := some (String.ofList reasoning) }
      else item
    (item, changed)

/-- `_candidates_have_visible_text` -/
def Suppression.candidatesHaveVisibleText (cfg : Suppression)
    (candidates : Option (List (Candidate Λ))) : Bool :=
  (candidates.getD []).any fun candidate =>
    match candidate.text with
    | some text => cfg.meaningful text.toList
    | none => false

/-- What the loop over the parts has in hand. -/
structure Split where
  reasoningDelta : List Char
  visibleDelta : List Char
  emittedVisibleText : Bool
  emittedMeaningfulText : Bool

/-- The chunks of all parts but the last, whose reasoning stays in hand. -/
def Suppression.splitParts (cfg : Suppression) (choiceIndex : ℕ) :
    List (List Char × List Char) → Split → Split × List (GenerationChunk Λ)
  | [], h => (h, [])
  | [last], h => ({ h with reasoningDelta := h.reasoningDelta ++ last.1 }, [])
  | (reasoning, text) :: next :: rest, h =>
    let chunk : GenerationChunk Λ :=
      { textDelta := String.ofList text
        isFirst := !h.emittedVisibleText
        choiceIndex := choiceIndex
        reasoningDelta := String.ofList (h.reasoningDelta ++ reasoning) }
    let after : Split :=
      { reasoningDelta := []
        visibleDelta := h.visibleDelta.drop text.length
        emittedVisibleText := true
        emittedMeaningfulText := h.emittedMeaningfulText || cfg.meaningful text }
    let done := cfg.splitParts choiceIndex (next :: rest) after
    (done.1, chunk :: done.2)

/-- The message of a terminal that has no visible output. -/
def emptyModelOutput (hidReasoning : Bool) : String :=
  if hidReasoning then
    "model produced no visible output text (private reasoning consumed the generation budget)"
  else "model produced no visible output text"

/-- A chunk whose choice ends with it. -/
def GenerationChunk.finishes (c : GenerationChunk Λ) : Bool := c.done || c.finishReason.isSome

/-- The stripper of the chunk's choice after the chunk, the visible text, and whether the
text was changed. -/
def ThinkingBlockStripper.take (s : ThinkingBlockStripper) (c : GenerationChunk Λ) :
    ThinkingBlockStripper × List Char × Bool :=
  let fed := s.feed c.textDelta.toList
  let textChanged := decide (fed.2 ≠ c.textDelta.toList)
  if c.finishes then
    let finished := fed.1.finish
    (finished.1, fed.2 ++ finished.2, textChanged)
  else (fed.1, fed.2, textChanged)

/-- The chunk with what is left of its text, and without logprobs if they could no longer be
aligned with it. -/
def GenerationChunk.rewrite (c : GenerationChunk Λ) (hand : Split) (hidden : Bool)
    (candidates : Option (List (Candidate Λ))) : GenerationChunk Λ :=
  { c with
    textDelta := String.ofList hand.visibleDelta
    isFirst := !hand.visibleDelta.isEmpty && !hand.emittedVisibleText
    logprobs := if hidden then [] else c.logprobs
    candidates := candidates
    reasoningDelta := String.ofList hand.reasoningDelta }

/-- A terminal that has no visible output, as an error. -/
def GenerationChunk.stampEmpty (c : GenerationChunk Λ) (hidReasoning : Bool) : GenerationChunk Λ :=
  { c with
    finishReason := some .error
    errorCode := some "empty_model_output"
    errorMessage := some (emptyModelOutput hidReasoning) }

/-- The terminal of a stream that never had meaningful output. -/
def Suppression.unusable (cfg : Suppression) (c : GenerationChunk Λ)
    (emittedMeaningfulText emittedToolCall : Bool) : Bool :=
  c.done && !emittedMeaningfulText && !emittedToolCall && c.errorCode.isNone
    && (c.finishReason == some .stop || c.finishReason == some .length)
    && !cfg.candidatesHaveVisibleText c.candidates

/-- One turn of the loop: the chunks it yields. -/
def Suppressor.feed (s : Suppressor) (c : GenerationChunk Λ) :
    Suppressor × List (GenerationChunk Λ) :=
  let items := c.candidates.map (List.map s.cfg.rewriteCandidate)
  let hidCandidate := (items.getD []).any Prod.snd
  let candidates := items.map (List.map Prod.fst)
  let state := s.states c.choiceIndex
  let taken := state.take c
  let stripper := taken.1
  let hidden := taken.2.2 || state.inside
  let split := s.cfg.splitParts c.choiceIndex stripper.parts
    { reasoningDelta := c.reasoningDelta.toList
      visibleDelta := taken.2.1
      emittedVisibleText := s.emittedVisibleText
      emittedMeaningfulText := s.emittedMeaningfulText }
  let hand := split.1
  let meaningful := hand.emittedMeaningfulText || s.cfg.meaningful hand.visibleDelta
  let toolCall := s.emittedToolCall || c.toolCallDelta.isSome
  let hid := s.hidReasoning || hidCandidate || hidden
  let rewritten := c.rewrite hand hidden candidates
  let last :=
    if s.cfg.unusable rewritten meaningful toolCall then rewritten.stampEmpty hid else rewritten
  let next : Suppressor :=
    { s with
      states := Function.update s.states c.choiceIndex { stripper with parts := [] }
      emittedVisibleText := hand.emittedVisibleText || !hand.visibleDelta.isEmpty
      emittedMeaningfulText := meaningful
      emittedToolCall := toolCall
      hidReasoning := hid }
  (next, split.2 ++ [last])

/-- The wrapper takes every chunk. -/
def Suppressor.step (s : Suppressor) (c : GenerationChunk Λ) :
    Option (Suppressor × List (GenerationChunk Λ)) := some (s.feed c)

end Sie.Server
