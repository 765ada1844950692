import Sie.Server.ToolCallParser.Blocks

/-!
# Streaming and one-shot parsing agree

A generation of one choice, cut into chunks in any way.  `Following` says that the stream so
far is the text so far, read.  At the end, or at a malformed block, it is compared with the
whole text (`Ended`), which says nothing about the cuts.
-/

namespace Sie.Server

open Sie.Lib List Progress

variable {Λ : Type}

/-- A chunk of the only choice that is not the terminal. -/
structure Piece (c : GenerationChunk Λ) : Prop where
  choice : c.choiceIndex = 0
  raw : c.toolCallDelta = none
  goesOn : c.done = false
  unfinished : c.finishReason = none

/-- The terminal of the only choice.  That it finishes with tool calls is for the parser to
say. -/
structure Last (c : GenerationChunk Λ) : Prop where
  choice : c.choiceIndex = 0
  done : c.done = true
  alone : c.candidates = none
  finish : c.finishReason ≠ some .toolCalls

namespace ToolCallParser
variable {p : ToolCallParser} {text : List Char} {os : List (GenerationChunk Λ)} {states : States}
  {c : GenerationChunk Λ} {s : ChoiceState} {cs : List (GenerationChunk Λ)}

/-- The stream so far is the text so far, read. -/
structure Following (p : ToolCallParser) (text : List Char) (os : List (GenerationChunk Λ))
    (s : ChoiceState) : Prop where
  free : toolMarkers.Free s.inToolCall s.textBuffer
  read : ∃ E, toolMarkers.Reads false text E s.inToolCall s.textBuffer ∧
    Matches s (read p {} E) ∧ Emits {} (read p {} E) os

/-- The whole stream, by the whole text alone: the text and the calls if every block is closed
and well formed, and else an error after the calls before the block that is not.  Where the
block raises there is no more to say. -/
inductive Ended (p : ToolCallParser) (text : List Char) (os : List (GenerationChunk Λ)) :
    Stop → Prop
  | raised (raises : p.Raises text) : Ended p text os .raised
  | ended (quiet : ¬ p.Raises text)
      (calls : deltasOf os = (p.whole text).calls.flatMap Call.deltas)
      (wellFormed : p.WellFormed text → textOf os = (p.whole text).text ∧
        ∃ before last, os = before ++ [last] ∧ last.done = true ∧
          (last.finishReason = some .toolCalls ↔ (p.whole text).calls ≠ []))
      (illFormed : ¬ p.WellFormed text →
        ∃ before message, os = before ++ [parseErrorChunk message]) :
      Ended p text os .ended

/-- Chunks without text and calls. -/
structure Silent (cs : List (GenerationChunk Λ)) : Prop where
  text : textOf cs = []
  calls : deltasOf cs = []

theorem Silent.nil : Silent ([] : List (GenerationChunk Λ)) := ⟨rfl, rfl⟩

theorem silent_singleton (h : c.textDelta = "") (h' : c.toolCallDelta = none) : Silent [c] :=
  ⟨by simp [textOf, h], by simp [deltasOf, h']⟩

/-- An error after what was read, for a text that is not well formed. -/
theorem ended_parseError {g : Progress} (hemits : Emits {} g os)
    (hcalls : (p.whole text).calls = g.calls) (hill : ¬ p.WellFormed text)
    (hquiet : ¬ p.Raises text) (message : String) :
    Ended p text (os ++ [parseErrorChunk message]) .ended := by
  have herror : Silent ([parseErrorChunk message] : List (GenerationChunk Λ)) :=
    silent_singleton rfl rfl
  refine .ended hquiet ?_ (fun hwell => absurd hwell hill) fun _ => ⟨os, message, rfl⟩
  rw [hcalls, deltasOf_append, herror.calls, append_nil, hemits.calls]
  rfl

/-- What follows a malformed block is not read. -/
theorem whole_of_failure {E : List (Mark Bool Char)} {inTool : Bool} {left : List Char}
    {e : PayloadError} (hreads : toolMarkers.Reads false text E inTool left)
    (hfailure : (Progress.read p {} E).failure = some e) (rest : List Char) :
    p.whole (text ++ rest) = Progress.read p {} E := by
  rw [whole, hreads rest, read_append, read_of_failure hfailure]

/-! ### One chunk -/

/-- The buffers fit in the text so far. -/
theorem Following.length_le {g : Progress} {E : List (Mark Bool Char)}
    (hreads : toolMarkers.Reads false text E s.inToolCall s.textBuffer)
    (hg : g = Progress.read p {} E) (t : List Char) :
    g.body.length + (s.textBuffer ++ t).length ≤ (text ++ t).length := by
  have hbody := Progress.length_body_read (p := p) (g := {}) E
  have htext := congrArg length hreads.text
  rw [← hg] at hbody
  simp only [length_append, length_nil] at htext hbody ⊢
  omega

/-- What the text of a chunk becomes. -/
inductive Taken (p : ToolCallParser) (text : List Char) (os : List (GenerationChunk Λ)) :
    List (GenerationChunk Λ) × Except Stop ChoiceState → Prop
  | goesOn (s' : ChoiceState) (cs : List (GenerationChunk Λ))
      (h : Following p text (os ++ cs) s') : Taken p text os (cs, .ok s')
  | stops (stop : Stop) (cs : List (GenerationChunk Λ))
      (h : ∀ rest, Ended p (text ++ rest) (os ++ cs) stop) : Taken p text os (cs, .error stop)

theorem taken_processText (hparallel : p.parallelToolCalls = true) (h : Following p text os s)
    {t : List Char} (hlen : (text ++ t).length ≤ maxToolBufferChars) (isFirstHint : Bool)
    (choiceIndex : ℕ) :
    Taken p (text ++ t) os (p.processText (Λ := Λ) s t isFirstHint choiceIndex) := by
  obtain ⟨E, hreads, hmatches, hemits⟩ := h.read
  have hfit := (Following.length_le (p := p) hreads rfl t).trans hlen
  have hprocessed := processed_processText (Λ := Λ) hparallel hmatches h.free hfit isFirstHint
    choiceIndex
  generalize p.processText (Λ := Λ) s t isFirstHint choiceIndex = r at hprocessed ⊢
  cases hprocessed with
  | goesOn _ s' cs hreads' hfree hmatches' hemits' =>
    rw [← Progress.read_append] at hmatches' hemits'
    exact .goesOn s' cs ⟨hfree, _, (hreads.append t).trans hreads', hmatches', hemits.trans hemits'⟩
  | fails _ _ _ cs message hreads' hfailure hemits' =>
    rw [← Progress.read_append] at hfailure hemits'
    refine .stops _ _ fun rest => ?_
    have hwhole := whole_of_failure ((hreads.append t).trans hreads') hfailure rest
    rw [← append_assoc]
    refine ended_parseError (hemits.trans hemits') (by rw [hwhole]) (fun hwell => ?_)
      (fun hraises => ?_) message
    · rw [WellFormed, hwhole, hfailure] at hwell
      cases hwell.1
    · rw [Raises, hwhole, hfailure] at hraises
      cases hraises
  | raises _ _ _ cs hreads' hfailure =>
    rw [← Progress.read_append] at hfailure
    refine .stops _ cs fun rest => .raised ?_
    rw [Raises, whole_of_failure ((hreads.append t).trans hreads') hfailure rest, hfailure]

/-- Silent chunks change nothing. -/
theorem Following.silent (h : Following p text os s) (hs : Silent cs) :
    Following p text (os ++ cs) s := by
  obtain ⟨E, hreads, hmatches, hemits⟩ := h.read
  refine ⟨h.free, E, hreads, hmatches, ?_, ?_⟩
  · rw [textOf_append, hs.text, append_nil, hemits.text]
  · rw [deltasOf_append, hs.calls, append_nil, hemits.calls]

theorem taken_takeText (hparallel : p.parallelToolCalls = true) (h : Following p text os s)
    (hfinish : (c.finishReason.isSome && !c.done) = false)
    (hlen : (text ++ c.textDelta.toList).length ≤ maxToolBufferChars) :
    Taken p (text ++ c.textDelta.toList) os (p.takeText s c) := by
  unfold takeText
  simp only [hfinish, Bool.false_and, Bool.false_eq_true, or_false]
  split
  · have htaken := taken_processText (Λ := Λ) hparallel h hlen c.isFirst c.choiceIndex
    generalize p.processText (Λ := Λ) s c.textDelta.toList c.isFirst c.choiceIndex = r at htaken ⊢
    cases htaken with
    | goesOn s' cs hnext =>
      dsimp only
      split_ifs with hsilent
      · simp at hsilent
        obtain ⟨⟨⟨⟨rfl, -⟩, -⟩, -⟩, -⟩ := hsilent
        rw [append_nil] at hnext
        exact .goesOn s' _ (hnext.silent (silent_singleton rfl rfl))
      · exact .goesOn s' cs hnext
    | stops stop cs hstops => exact .stops stop cs hstops
  next hempty =>
    have hnil : c.textDelta.toList = [] := by simpa using hempty
    rw [hnil, append_nil]
    exact .goesOn s [] (by rwa [append_nil])

/-- The parsers of a stream with one choice: none before its first chunk. -/
inductive Single : States → ChoiceState → Prop
  | none : Single [] {}
  | one (s : ChoiceState) : Single [(0, s)] s

theorem Single.stateOf (h : Single states s) : stateOf states 0 = s := by
  cases h <;> rfl

theorem Single.setState (h : Single states s) (s' : ChoiceState) :
    setState states 0 s' = [(0, s')] := by
  cases h <;> rfl

/-- What a chunk says besides its text. -/
def asides (c : GenerationChunk Λ) : List (GenerationChunk Λ) × List (GenerationChunk Λ) :=
  (if c.reasoningDelta = "" then []
    else [{ textDelta := "", choiceIndex := c.choiceIndex, reasoningDelta := c.reasoningDelta }],
   if c.logprobs.isEmpty then []
    else [{ textDelta := "", choiceIndex := c.choiceIndex, logprobs := c.logprobs }])

theorem silent_asides (c : GenerationChunk Λ) : Silent (asides c).1 ∧ Silent (asides c).2 := by
  unfold asides
  constructor <;> dsimp only <;> split <;>
    first | exact Silent.nil | exact silent_singleton rfl rfl

/-- A chunk of the choice: it is passed on, or its text is taken. -/
theorem feed_eq (hs : Single states s) (hchoice : c.choiceIndex = 0)
    (hfinish : (c.finishReason.isSome && !c.done) = false)
    (hsaid : ¬ (c.textDelta = "" ∧ c.done = false ∧ c.finishReason = none ∧ c.logprobs = [])) :
    p.feed states c = match (p.takeText s c).2 with
      | .error stop => ((asides c).1 ++ (p.takeText s c).1, .error stop)
      | .ok s' =>
        let before := (asides c).1 ++ (p.takeText s c).1 ++ (asides c).2
        if c.done then
          (before ++ (p.terminal [(0, s')] c).1, .error (p.terminal [(0, s')] c).2)
        else (before, .ok [(0, s')]) := by
  rw [feed, if_neg hsaid]
  cases htaken : (p.takeText s c).2 <;>
    simp [hchoice, hs.stateOf, htaken, hfinish, hs.setState, asides]

/-- What a chunk does to the stream of the choice. -/
inductive FedTo (p : ToolCallParser) (text : List Char) (os : List (GenerationChunk Λ)) :
    List (GenerationChunk Λ) × Except Stop States → Prop
  | goesOn (s : ChoiceState) (states : States) (cs : List (GenerationChunk Λ))
      (hs : Single states s) (h : Following p text (os ++ cs) s) : FedTo p text os (cs, .ok states)
  | stops (stop : Stop) (cs : List (GenerationChunk Λ))
      (h : ∀ rest, Ended p (text ++ rest) (os ++ cs) stop) : FedTo p text os (cs, .error stop)

/-- **A chunk that is not the terminal.** -/
theorem fed_piece (hparallel : p.parallelToolCalls = true) (hs : Single states s)
    (h : Following p text os s) (hc : Piece c)
    (hlen : (text ++ c.textDelta.toList).length ≤ maxToolBufferChars) :
    FedTo p (text ++ c.textDelta.toList) os (p.feed states c) := by
  by_cases hsaid : c.textDelta = "" ∧ c.done = false ∧ c.finishReason = none ∧ c.logprobs = []
  · rw [feed, if_pos hsaid, hsaid.1, String.toList_empty, append_nil]
    exact .goesOn s states _ hs (h.silent (silent_singleton hsaid.1 hc.raw))
  have hfinish : (c.finishReason.isSome && !c.done) = false := by simp [hc.unfinished]
  have htaken := taken_takeText hparallel (h.silent (silent_asides c).1) hfinish hlen
  rw [feed_eq hs hc.choice hfinish hsaid]
  generalize p.takeText s c = r at htaken ⊢
  cases htaken with
  | goesOn s' _ hnext =>
    simp [hc.goesOn]
    refine .goesOn s' _ _ (.one s') ?_
    have hnext' := hnext.silent (silent_asides c).2
    simpa [append_assoc] using hnext'
  | stops stop _ hstops =>
    refine .stops stop _ fun rest => ?_
    simpa [append_assoc] using hstops rest

/-! ### The two ends -/

/-- The end of a stream that has followed the text: an error if a block is open, and else
what was held back and a terminal that tells whether there were calls. -/
theorem Following.ended (h : Following p text os s) :
    (s.inToolCall = true → ∀ message, Ended p text (os ++ [parseErrorChunk message]) .ended) ∧
      (s.inToolCall = false → ∀ cs last, textOf cs = s.textBuffer → deltasOf cs = [] →
        Silent [last] → last.done = true →
        (last.finishReason = some .toolCalls ↔ s.emittedToolCall = true) →
        Ended p text (os ++ (cs ++ [last])) .ended) := by
  obtain ⟨E, hreads, hmatches, hemits⟩ := h.read
  have hscan := hreads.scan h.free
  constructor
  · intro hin message
    have hwhole : p.whole text =
        { Progress.read p {} E with body := (Progress.read p {} E).body ++ s.textBuffer } := by
      rw [whole, hscan, read_append, hin, read_body hmatches.sound]
    refine ended_parseError hemits (by rw [hwhole]) (fun hwell => ?_) (fun hraises => ?_) message
    · rw [WellFormed, hwhole] at hwell
      have hout : (Progress.read p {} E).inTool = false := hwell.2
      rw [← hmatches.inTool, hin] at hout
      cases hout
    · rw [Raises, hwhole] at hraises
      cases hmatches.sound.symm.trans hraises
  · intro hout cs last htext hcalls hlast hdone hfinish
    have hwhole : p.whole text =
        { Progress.read p {} E with text := (Progress.read p {} E).text ++ s.textBuffer } := by
      rw [whole, hscan, read_append, hout, read_text hmatches.sound]
    refine .ended (fun hraises => ?_) ?_ (fun _ => ⟨?_, os ++ cs, last, by simp, hdone, ?_⟩)
      fun hill => ?_
    · rw [Raises, hwhole] at hraises
      cases hmatches.sound.symm.trans hraises
    · rw [hwhole, deltasOf_append, deltasOf_append, hcalls, hlast.calls, hemits.calls]
      simp
    · rw [hwhole, textOf_append, textOf_append, htext, hlast.text, hemits.text]
      simp
    · rw [hfinish, hmatches.emitted, hwhole]
      simp
    · refine absurd ⟨?_, ?_⟩ hill
      · rw [hwhole]
        exact hmatches.sound
      · rw [hwhole]
        exact hmatches.inTool.symm.trans hout

theorem flush_single (hgoes : s.closed = false) (isFirstHint : Bool) :
    flush (Λ := Λ) isFirstHint [(0, s)] =
      if s.inToolCall then ([parseErrorChunk "unterminated <tool_call> block"], none)
      else
        let emitted := s.emitText (Λ := Λ) s.textBuffer isFirstHint 0
        (emitted.2, some [(0, { emitted.1 with textBuffer := [] })]) := by
  simp [flush, hgoes]

theorem emittedToolCall_emitText (s : ChoiceState) (t : List Char) (isFirstHint : Bool)
    (choiceIndex : ℕ) :
    (s.emitText (Λ := Λ) t isFirstHint choiceIndex).1.emittedToolCall = s.emittedToolCall := by
  unfold ChoiceState.emitText ChoiceState.markFirst
  split
  · rfl
  · split <;> rfl

theorem globalFinish_eq_toolCalls {finish : Option FinishReason} (h : finish ≠ some .toolCalls) :
    globalFinish [(0, s)] finish = .toolCalls ↔ s.emittedToolCall = true := by
  cases finish with
  | none => cases hcall : s.emittedToolCall <;> simp [globalFinish, hcall]
  | some f =>
    have hf : f ≠ .toolCalls := fun hf => h (congrArg some hf)
    cases hcall : s.emittedToolCall <;> simp [globalFinish, hcall, hf]

/-- **The terminal of the adapter.** -/
theorem ended_terminal (h : Following p text os s) (hc : Last c) :
    Ended p text (os ++ (p.terminal [(0, s)] c).1) (p.terminal [(0, s)] c).2 := by
  have hcandidates : p.parseCandidates c = some c := by simp [parseCandidates, hc.alone]
  obtain ⟨E, -, hmatches, -⟩ := h.read
  simp [terminal, hcandidates, flush_single hmatches.goesOn]
  cases hin : s.inToolCall
  · refine h.ended.2 hin _ _ (emitText_chunks ..).1 (emitText_chunks ..).2
      (silent_singleton rfl rfl) rfl ?_
    rw [Option.some_inj, globalFinish_eq_toolCalls hc.finish]
    rw [emittedToolCall_emitText]
  · exact h.ended.1 hin _

/-- **The end of the adapter's chunks without a terminal.** -/
theorem ended_exhausted (hs : Single states s) (h : Following p text os s) :
    Ended p text (os ++ exhausted states) .ended := by
  obtain ⟨E, -, hmatches, -⟩ := h.read
  cases hs with
  | none =>
    refine h.ended.2 rfl [] _ rfl rfl (silent_singleton rfl rfl) rfl ?_
    simp
  | one s =>
    simp only [exhausted, flush_single hmatches.goesOn]
    cases hin : s.inToolCall
    · refine h.ended.2 hin _ _ (emitText_chunks ..).1 (emitText_chunks ..).2
        (silent_singleton rfl rfl) rfl ?_
      simp only [any_cons, any_nil, Bool.or_false, emittedToolCall_emitText]
      cases s.emittedToolCall <;> simp
    · exact h.ended.1 hin _

/-- **The chunk that is the terminal**, with what text it has. -/
theorem ended_last (hparallel : p.parallelToolCalls = true) (hs : Single states s)
    (h : Following p text os s) (hc : Last c)
    (hlen : (text ++ c.textDelta.toList).length ≤ maxToolBufferChars) :
    ∃ stop, (p.feed states c).2 = .error stop ∧
      Ended p (text ++ c.textDelta.toList) (os ++ (p.feed states c).1) stop := by
  have hfinish : (c.finishReason.isSome && !c.done) = false := by simp [hc.done]
  have htaken := taken_takeText hparallel (h.silent (silent_asides c).1) hfinish hlen
  rw [feed_eq hs hc.choice hfinish (by simp [hc.done])]
  generalize p.takeText s c = r at htaken ⊢
  cases htaken with
  | goesOn _ _ hnext =>
    simp only [hc.done, if_true]
    have hended := ended_terminal (hnext.silent (silent_asides c).2) hc
    exact ⟨_, rfl, by simpa [append_assoc] using hended⟩
  | stops stop _ hstops =>
    have hended := hstops []
    exact ⟨stop, rfl, by simpa [append_assoc] using hended⟩

/-! ### Whole streams -/

/-- A generation of one choice, cut into chunks: with a terminal, or without one. -/
inductive Cut : List (GenerationChunk Λ) → Prop
  | exhausted : Cut []
  | last (c : GenerationChunk Λ) (rest : List (GenerationChunk Λ)) (hc : Last c)
      (hrest : textOf rest = []) : Cut (c :: rest)
  | piece (c : GenerationChunk Λ) (cs : List (GenerationChunk Λ)) (hc : Piece c) (h : Cut cs) :
      Cut (c :: cs)

theorem textOf_cons (c : GenerationChunk Λ) (cs : List (GenerationChunk Λ)) :
    textOf (c :: cs) = c.textDelta.toList ++ textOf cs := flatMap_cons

section

variable (hparallel : p.parallelToolCalls = true)
include hparallel

/-- From any point of the stream on. -/
theorem ended_parseStream_from (hcut : Cut cs)
    {states : States} {text : List Char} {os : List (GenerationChunk Λ)} (hs : Single states s)
    (h : Following p text os s) (hlen : (text ++ textOf cs).length ≤ maxToolBufferChars) :
    Ended p (text ++ textOf cs) (os ++ (p.parseStream states cs).1)
      (p.parseStream states cs).2 := by
  induction hcut generalizing states s text os with
  | exhausted =>
    rw [parseStream, show textOf ([] : List (GenerationChunk Λ)) = [] from rfl, append_nil]
    exact ended_exhausted hs h
  | last _ _ hc hrest =>
    rw [textOf_cons, hrest, append_nil] at hlen ⊢
    obtain ⟨stop, hstops, hended⟩ := ended_last hparallel hs h hc hlen
    rwa [parseStream, hstops]
  | piece c _ hc _ ih =>
    rw [textOf_cons, ← append_assoc] at hlen ⊢
    have hfit : (text ++ c.textDelta.toList).length ≤ maxToolBufferChars := by
      rw [length_append] at hlen
      omega
    have hfed := fed_piece hparallel hs h hc hfit
    rw [parseStream]
    generalize p.feed states c = r at hfed ⊢
    cases hfed with
    | goesOn _ _ _ hs' hnext =>
      rw [← append_assoc]
      exact ih hs' hnext hlen
    | stops _ _ hstops => exact hstops _

/-- **A whole stream, by its whole text.** -/
theorem ended_parseStream (hcut : Cut cs) (hlen : (textOf cs).length ≤ maxToolBufferChars) :
    Ended p (textOf cs) (p.parseStream [] cs).1 (p.parseStream [] cs).2 := by
  have hstart : Following p [] ([] : List (GenerationChunk Λ)) {} :=
    ⟨Markers.free_nil _ _, [], Markers.Reads.refl _ _ _,
      ⟨rfl, rfl, rfl, rfl, fun _ => rfl, rfl, rfl⟩, rfl, rfl⟩
  exact ended_parseStream_from hparallel hcut .none hstart hlen

/-- **Streaming and one-shot parsing agree.**  For a text whose blocks are all closed and well
formed, cut in any way: the joined text deltas and the calls are those of the one-shot parser,
and the stream finishes with tool calls exactly when there is one.  For any other text the
stream ends in a parse error exactly when no block raises, and then every cutting does so after
the same calls. -/
theorem parseStream_agrees
    {cs : List (GenerationChunk Λ)} (hcut : Cut cs) (hlen : (textOf cs).length ≤ 256 * 1024) :
    (p.WellFormed (textOf cs) →
      ∃ whole, p.parseCandidateText (textOf cs) = some whole ∧
        (p.parseStream [] cs).2 = .ended ∧
        textOf (p.parseStream [] cs).1 = whole.1 ∧
        deltasOf (p.parseStream [] cs).1 = (indexed 0 whole.2).flatMap Call.deltas ∧
        ∃ before last, (p.parseStream [] cs).1 = before ++ [last] ∧ last.done = true ∧
          (last.finishReason = some .toolCalls ↔ whole.2 ≠ [])) ∧
    (¬ p.WellFormed (textOf cs) →
      ((p.parseStream [] cs).2 = .ended ∧
          (∃ before message, (p.parseStream [] cs).1 = before ++ [parseErrorChunk message]) ↔
        ¬ p.Raises (textOf cs)) ∧
      (¬ p.Raises (textOf cs) →
        ∀ cs' : List (GenerationChunk Λ), Cut cs' → textOf cs' = textOf cs →
          deltasOf (p.parseStream [] cs').1 = deltasOf (p.parseStream [] cs).1)) := by
  have hended := ended_parseStream hparallel hcut hlen
  generalize p.parseStream [] cs = out at hended ⊢
  obtain ⟨os, stop⟩ := out
  cases hended with
  | raised hraises =>
    refine ⟨fun hwell => ?_, fun _ => ⟨⟨fun h => (by cases h.1), fun h => absurd hraises h⟩,
      fun h => absurd hraises h⟩⟩
    cases hwell.1.symm.trans hraises
  | ended hquiet hcalls hwellFormed hillFormed =>
    refine ⟨fun hwell => ?_, fun hill => ⟨⟨fun _ => hquiet, fun _ => ⟨rfl, hillFormed hill⟩⟩, ?_⟩⟩
    · obtain ⟨whole, hwhole, htext, hindexed⟩ := parseCandidateText_eq hwell
      obtain ⟨hjoined, before, last, hout, hdone, hfinish⟩ := hwellFormed hwell
      refine ⟨whole, hwhole, rfl, hjoined.trans htext, by rw [hcalls, hindexed], before, last, hout,
        hdone, ?_⟩
      rw [hfinish, hindexed]
      simp [indexed]
    · intro _ cs' hcut' hsame
      have hended' := ended_parseStream hparallel hcut' (hsame.symm ▸ hlen)
      rw [hsame] at hended'
      generalize p.parseStream [] cs' = out at hended' ⊢
      obtain ⟨os', stop'⟩ := out
      cases hended' with
      | raised hraises => exact absurd hraises hquiet
      | ended _ hcalls' => exact hcalls'.trans hcalls.symm

end

end ToolCallParser

namespace CutTags

/-- A parser that takes every block that is not empty. -/
def parser : ToolCallParser where
  format := .hermesJson
  parallelToolCalls := true
  payload _ raw :=
    if raw = [] then .error (.valueError "malformed") else .ok ("f", String.ofList raw)
  callId _ := "call"

/-- A call between two words; both tags are cut. -/
def chunks : List (GenerationChunk Unit) :=
  [{ textDelta := "a<tool" }, { textDelta := "_call>\x7b\x7d</tool_" },
    { textDelta := "call>b", done := true, finishReason := some .stop }]

theorem cut : ToolCallParser.Cut chunks :=
  .piece _ _ ⟨rfl, rfl, rfl, rfl⟩ (.piece _ _ ⟨rfl, rfl, rfl, rfl⟩
    (.last _ _ ⟨rfl, rfl, rfl, by decide⟩ rfl))

theorem wellFormed : parser.WellFormed (textOf chunks) := by decide +kernel

theorem oneShot : parser.parseCandidateText (textOf chunks) =
    some (['a', 'b'], [{ id := "call", name := "f", arguments := "\x7b\x7d" }]) := by
  decide +kernel

/-- At a text whose tags are cut: the stream has the text and the call of the one-shot
parser. -/
theorem parseStream_agrees_chunks :
    textOf (parser.parseStream [] chunks).1 = ['a', 'b'] ∧
      deltasOf (parser.parseStream [] chunks).1 = (⟨0, "f", "\x7b\x7d"⟩ : Call).deltas := by
  obtain ⟨whole, hwhole, -, htext, hcalls, -⟩ :=
    (ToolCallParser.parseStream_agrees (p := parser) rfl cut (by decide +kernel)).1 wellFormed
  obtain rfl := Option.some.inj (oneShot.symm.trans hwhole)
  exact ⟨htext, hcalls⟩

end CutTags

/-! ### A block that raises -/

namespace Nested

/-- The Hermes reading of a body of opening brackets: `json.loads` goes down one level for each
of them, and `limit` of them are more than the interpreter allows. -/
def parser (limit : ℕ) : ToolCallParser where
  format := .hermesJson
  parallelToolCalls := true
  payload _ raw :=
    if limit ≤ (raw.takeWhile (· == '[')).length then .error .recursionError
    else .error (.valueError "malformed tool-call JSON: Expecting value")
  callId _ := "call"

/-- A block of `n` opening brackets, in one delta. -/
def chunk (n : ℕ) : GenerationChunk Unit where
  textDelta := String.ofList (toolOpen ++ (List.replicate n '[' ++ toolClose))

theorem textOf_chunk (n : ℕ) :
    textOf [chunk n] = toolOpen ++ (List.replicate n '[' ++ toolClose) := by
  simp [textOf, chunk]

theorem find_close (n : ℕ) : find toolClose (List.replicate n '[' ++ toolClose) = some n := by
  induction n with
  | zero => decide
  | succ n ih =>
    have hhead : toolClose.isPrefixOf ('[' :: (List.replicate n '[' ++ toolClose)) = false := rfl
    rw [find] at ih
    rw [find, List.replicate_succ, cons_append, tails_cons, findIdx?_cons, hhead, ih]
    rfl

theorem find_open (l : List Char) : find toolOpen (toolOpen ++ l) = some 0 := by
  rfl

theorem raises {n limit : ℕ} (h : limit ≤ n) : (parser limit).Raises (textOf [chunk n]) := by
  rw [textOf_chunk]
  refine ToolCallParser.failure_block (g := {}) rfl rfl (find_open _) rfl (find_close n) ?_
  simp [parser, h]

theorem length_chunk (n : ℕ) : (textOf [chunk n]).length = n + 23 := by
  simp [textOf_chunk, toolOpen, toolClose]

/-- **A block of 20000 opening brackets**, more than the interpreter allows: it is closed and
malformed, and the stream stops with the exception instead of a parse error. -/
theorem nested_block_raises :
    ToolCallParser.Cut [chunk 20000] ∧ (textOf [chunk 20000]).length ≤ 256 * 1024 ∧
      ¬ (parser 10000).WellFormed (textOf [chunk 20000]) ∧
      ((parser 10000).parseStream [] [chunk 20000]).2 = .raised := by
  have hcut : ToolCallParser.Cut [chunk 20000] := .piece _ _ ⟨rfl, rfl, rfl, rfl⟩ .exhausted
  have hlen : (textOf [chunk 20000]).length ≤ 256 * 1024 := by
    rw [length_chunk]
    decide
  have hraises : (parser 10000).Raises (textOf [chunk 20000]) := raises (by decide)
  refine ⟨hcut, hlen, fun hwell => ?_, ?_⟩
  · cases hwell.1.symm.trans hraises
  · have hended := ToolCallParser.ended_parseStream (p := parser 10000) rfl hcut hlen
    generalize ((parser 10000).parseStream [] [chunk 20000]).2 = stop at hended ⊢
    cases hended with
    | raised => rfl
    | ended hquiet => exact absurd hraises hquiet

end Nested

end Sie.Server
