import Sie.Gateway.Messages.Content

/-!
# The streamed and the buffered Message agree

The pieces of a chat stream join to a chat completion, which the buffered translation turns
into a Message; the events of the same stream fold to a Message.  When the pieces come as
reasoning, content, tool calls one after another and a finish reason, the two are equal,
however the pieces are cut into chunks.  In any order, nothing but whitespace of the
content is lost.

Both are read off the transcript: `Carries` holds in any order, `Shape` says what the
blocks are in each phase of a stream in order, and `Told` takes them through a run.
-/

namespace Sie.Gateway.Messages

open Sie.Lib List StreamMachine Input Built

/-! ## The chat completion the deltas join to -/

/-- A tool call of the joined chat completion. -/
structure JoinedCall where
  index : ℕ
  id : String
  name : String
  arguments : String

/-- The joined deltas of a chat stream. -/
structure Joined where
  reasoning : String
  content : String
  calls : List JoinedCall
  finishReason : Option String

namespace Joined

def empty : Joined := ⟨"", "", [], none⟩

/-- A tool call is joined to the call with its index. -/
def joinCall (calls : List JoinedCall) (call : CallParts) : List JoinedCall :=
  if call.index ∈ calls.map JoinedCall.index then
    calls.map fun c =>
      if c.index = call.index then { c with arguments := c.arguments ++ call.arguments.getD "" }
      else c
  else
    calls ++ [⟨call.index, call.id.getD "", call.name.getD "", call.arguments.getD ""⟩]

def note (j : Joined) : Piece → Joined
  | .reasoning s => { j with reasoning := j.reasoning ++ s }
  | .content s => { j with content := j.content ++ s }
  | .toolCall call => { j with calls := joinCall j.calls call }
  | .finish reason => { j with finishReason := some reason }

/-- The joined deltas of some pieces. -/
def of (ps : List Piece) : Joined := ps.foldl note empty

@[simp] theorem of_concat (ps : List Piece) (p : Piece) : of (ps ++ [p]) = (of ps).note p := by
  simp [of]

/-- A finish reason is no part of the content. -/
theorem of_append_finishes {ps late : List Piece} (h : ∀ p ∈ late, ∃ reason, p = .finish reason) :
    ∃ finishReason, of (ps ++ late) = { of ps with finishReason } := by
  induction late using reverseRecOn with
  | nil => exact ⟨_, by rw [append_nil]⟩
  | append_singleton late p ih =>
    obtain ⟨_, hof⟩ := ih fun q hq => h q (by simp [hq])
    obtain ⟨reason, rfl⟩ := h p (by simp)
    exact ⟨some reason, by rw [← append_assoc, of_concat, hof]; rfl⟩

/-- The chat completion that says the same. -/
def chatCompletion (j : Joined) (usage : Json) : Json :=
  .obj [("object", .str "chat.completion"),
    ("choices", .arr [.obj [("index", .nat 0),
      ("message", .obj [("role", .str "assistant"), ("reasoning_content", .str j.reasoning),
        ("content", .str j.content),
        ("tool_calls", .arr (j.calls.map fun c =>
          .obj [("id", .str c.id), ("type", .str "function"),
            ("function", .obj [("name", .str c.name), ("arguments", .str c.arguments)])]))]),
      ("finish_reason", (j.finishReason.map .str).getD .null)]]),
    ("usage", usage)]

end Joined

/-- The block of a joined call. -/
def JoinedCall.built (c : JoinedCall) : Built := ⟨.toolUse c.id c.name, c.arguments, ""⟩

/-- The usage of a chunk, if it can be translated. -/
def Input.chatUsage (codec : Codec) (input : Input) : Option Json :=
  (input.chunk codec).bind fun chunk =>
    (chunk.get "usage").filter fun usage => (anthropicUsage usage).isSome

/-! ## Streams in order -/

/-- How far a stream in order has come. -/
inductive Phase
  | reasoning
  | content
  /-- The tool calls that were begun. -/
  | tools (indices : List ℕ)
  | finished
  deriving DecidableEq

namespace Phase

variable {ps : List Piece} {phase : Phase} {call : CallParts} {p : Piece}

def calls : Phase → List ℕ
  | .tools indices => indices
  | _ => []

/-- A tool call goes on with the call before it, or begins with its id and name. -/
def nextCall (indices : List ℕ) (call : CallParts) : Option Phase :=
  if indices.getLast? = some call.index then some (.tools indices)
  else if call.index ∉ indices ∧ call.id.isSome ∧ call.name.isSome then
    some (.tools (indices ++ [call.index]))
  else none

/-- Reasoning, then content, then the tool calls one after another, then the finish
reason. -/
def next : Phase → Piece → Option Phase
  | .reasoning, .reasoning _ => some .reasoning
  | .reasoning, .content _ | .content, .content _ => some .content
  | .finished, _ => none
  | phase, .toolCall call => nextCall phase.calls call
  | _, .finish _ => some .finished
  | _, _ => none

/-- The phase after some pieces, if they come in order. -/
def of (ps : List Piece) : Option Phase := ps.foldlM next .reasoning

theorem of_append_eq_some {qs : List Piece} (h : of (ps ++ qs) = some phase) :
    ∃ before, of ps = some before ∧ qs.foldlM next before = some phase := by
  simpa [of, foldlM_append, Option.bind_eq_some_iff] using h

theorem of_concat_eq_some (h : of (ps ++ [p]) = some phase) :
    ∃ before, of ps = some before ∧ before.next p = some phase := by
  simpa using of_append_eq_some h

end Phase

/-! ## Nothing but whitespace is lost -/

/-- The transcript carries what was joined: every character of the reasoning, every tool call
with its arguments, and the content but for whitespace. -/
structure Carries (j : Joined) (m : StreamMachine) (t : Transcript) : Prop where
  linked : Linked m t
  thinking : charsOf .thinking t.content = j.reasoning.toList
  text : DropsOnly isWhitespace j.content.toList
    (charsOf .text t.content ++ m.heldWhitespace.toList)
  held_blank : isBlank m.heldWhitespace = true
  held_text : m.opens .text = true → m.heldWhitespace = ""
  tools : toolsOf t.content = j.calls.map JoinedCall.built
  indices : m.toolIndices = j.calls.map JoinedCall.index
  nodup : m.toolIndices.Nodup
  /-- An open tool block is that of the last call. -/
  open_last : ∀ index, m.opens (.toolUse index) = true → m.toolIndices.getLast? = some index
  finish : m.finishReason = j.finishReason

/-- Arguments are joined to the last call. -/
theorem Joined.joinCall_last {calls : List JoinedCall} {call : CallParts}
    (hnodup : (calls.map JoinedCall.index).Nodup)
    (hlast : (calls.map JoinedCall.index).getLast? = some call.index) :
    ∃ before c, calls = before ++ [c] ∧ Joined.joinCall calls call =
      before ++ [{ c with arguments := c.arguments ++ call.arguments.getD "" }] := by
  obtain ⟨before, c, rfl⟩ : ∃ before c, calls = before ++ [c] := by
    rcases eq_nil_or_concat calls with rfl | ⟨before, c, rfl⟩
    · simp at hlast
    · exact ⟨before, c, concat_eq_append⟩
  have hindex : c.index = call.index := by simpa using hlast
  rw [map_append, nodup_append] at hnodup
  have hbefore : ∀ c' ∈ before, ¬ c'.index = call.index := by
    intro c' hc' heq
    refine hnodup.2.2 c'.index (mem_map_of_mem hc') c.index (by simp) ?_
    rw [heq, hindex]
  refine ⟨before, c, rfl, ?_⟩
  have hsame : before.map (fun c' => if c'.index = call.index then
      { c' with arguments := c'.arguments ++ call.arguments.getD "" } else c') = before := by
    refine map_congr_left (g := id) ?_ |>.trans (map_id before)
    intro c' hc'
    simp [hbefore c' hc']
  simp [joinCall, hindex, hsame]

namespace Carries

variable {j : Joined} {m m' : StreamMachine} {t t' : Transcript} {p : Piece} {call : CallParts}

theorem start (messageId model : String) : Carries .empty (.begun messageId model) ⟨[], none⟩ := by
  refine ⟨?_, rfl, .nil, rfl, fun _ => rfl, rfl, rfl, nodup_nil, ?_, rfl⟩
  · intro _ index hopen
    simp [begun, new] at hopen
  · intro index hopens
    simp [opens, begun, new] at hopens

section

variable (h : Carries j m t)
include h

/-- The usage may change. -/
theorem withUsage (usage : Option Json) : Carries j (m.withUsage usage) t :=
  { h with }

/-- Whitespace that was held back may be dropped. -/
theorem text_dropped : DropsOnly isWhitespace j.content.toList (charsOf .text t.content) :=
  h.text.of_append h.held_blank

theorem reasoning (s : String) :
    Carries (j.note (.reasoning s)) (m.thinking s).1 (m.thinkingOn t s) := by
  have hlinked := h.linked.next (.reasoning s)
  have hputs := h.linked.puts_thinking s
  have hthinking : charsOf .thinking (m.thinkingOn t s).content = (j.reasoning ++ s).toList := by
    rw [hputs.charsOf_eq, h.thinking, String.toList_append]
  have htext := hputs.charsOf_of_ne .text (by simp)
  have htools := hputs.toolsOf_eq (by simp)
  rw [thinking_fst] at hlinked ⊢
  split_ifs with hopens
  · rw [if_pos hopens] at hlinked
    exact { h with
      linked := hlinked
      thinking := hthinking
      text := htext ▸ h.text
      tools := htools.trans h.tools }
  rw [if_neg hopens] at hlinked
  refine ⟨hlinked, hthinking, ?_, rfl, fun _ => rfl, htools.trans h.tools, h.indices, h.nodup,
    ?_, h.finish⟩
  · rw [htext]
    simpa [Joined.note] using h.text_dropped
  · intro _ hopens'
    simp [opens] at hopens'

theorem content (s : String) : Carries (j.note (.content s)) (m.text s).1 (m.textOn t s) := by
  have hlinked := h.linked.next (.content s)
  by_cases hshown : m.opens .text = true ∨ isBlank s = false
  · have hputs := h.linked.puts_text s hshown h.held_text
    have hthinking := hputs.charsOf_of_ne .thinking (by simp)
    have htools := hputs.toolsOf_eq (by simp)
    have htext : DropsOnly isWhitespace (j.content ++ s).toList
        (charsOf .text (m.textOn t s).content) := by
      rw [hputs.charsOf_eq, String.toList_append, String.toList_append, ← append_assoc]
      exact h.text.append (.refl _)
    rw [text_fst] at hlinked ⊢
    split
    next hopens =>
      rw [if_pos hopens] at hlinked
      refine ⟨hlinked, hthinking.trans h.thinking, ?_, h.held_blank, h.held_text,
        htools.trans h.tools, h.indices, h.nodup, h.open_last, h.finish⟩
      rw [h.held_text hopens]
      simpa [Joined.note] using htext
    rename_i hopens
    have hblank : ¬ isBlank s = true := by simpa [hopens] using hshown
    rw [if_neg hopens, if_neg hblank] at hlinked
    rw [if_neg hblank]
    refine ⟨hlinked, hthinking.trans h.thinking, ?_, rfl, fun _ => rfl, htools.trans h.tools,
      h.indices, h.nodup, ?_, h.finish⟩
    · simpa [Joined.note] using htext
    · intro _ hopens'
      simp [opens] at hopens'
  · -- The text is blank and no text block is open: it is held back.
    rw [not_or, Bool.not_eq_false] at hshown
    obtain ⟨hopens, hblank⟩ := hshown
    have hon : m.textOn t s = t := by simp [textOn, hopens, hblank]
    rw [hon] at hlinked ⊢
    rw [text_fst, if_neg hopens, if_pos hblank] at hlinked ⊢
    refine ⟨hlinked, h.thinking, ?_, ?_, ?_, h.tools, h.indices, h.nodup, h.open_last, h.finish⟩
    · simp only [Joined.note, String.toList_append, ← append_assoc]
      exact h.text.append (.refl _)
    · simp [h.held_blank, hblank]
    · intro hopens'
      exact absurd hopens' hopens

theorem finishes (reason : String) :
    Carries (j.note (.finish reason))
      { m with open_ := none, heldWhitespace := "", finishReason := some reason } t.close := by
  refine ⟨?_, ?_, ?_, rfl, fun _ => rfl, ?_, h.indices, h.nodup, ?_, rfl⟩
  · intro _ index hopen
    simp at hopen
  · simpa [Joined.note] using h.thinking
  · simpa [Joined.note] using h.text_dropped
  · simpa [Joined.note] using h.tools
  · intro index hopens
    simp [opens] at hopens

/-- A call that is begun. -/
theorem beginsCall {id name : String}
    (hnew : call.index ∉ m.toolIndices) (hid : call.id = some id) (hname : call.name = some name)
    (hlinked : Linked (m.withTool call.index) t')
    (hputs : Puts (.toolUse id name) (call.arguments.getD "") t.content false t'.content)
    (htools : toolsOf t'.content = toolsOf t.content ++
      [⟨.toolUse id name, call.arguments.getD "", ""⟩]) :
    Carries (j.note (.toolCall call)) (m.withTool call.index) t' := by
  have hcalls : (j.note (.toolCall call)).calls =
      j.calls ++ [⟨call.index, id, name, call.arguments.getD ""⟩] := by
    rw [h.indices] at hnew
    simp [Joined.note, Joined.joinCall, hnew, hid, hname]
  refine ⟨hlinked, ?_, ?_, rfl, fun _ => rfl, ?_, ?_, ?_, ?_, h.finish⟩
  · rw [hputs.charsOf_of_ne .thinking (by simp), h.thinking]
    rfl
  · rw [hputs.charsOf_of_ne .text (by simp)]
    simpa [withTool, Joined.note] using h.text_dropped
  · rw [htools, h.tools, hcalls]
    simp [JoinedCall.built]
  · rw [hcalls]
    simp [withTool, h.indices]
  · simp only [withTool]
    rw [nodup_append]
    refine ⟨h.nodup, by simp, ?_⟩
    rintro a ha b hb rfl
    rw [mem_singleton.mp hb] at ha
    exact hnew ha
  · intro index hopens
    obtain rfl : call.index = index := by
      simpa [opens, withTool] using hopens
    simp [withTool]

theorem toolCall (htakes : m.Takes t call m' t') : Carries (j.note (.toolCall call)) m' t' := by
  have hlinked := h.linked.next (.toolCall htakes)
  cases htakes with
  | @opens id name hnew hid hname =>
    have hcontent := t.content_beginCall id name call.arguments
    refine h.beginsCall hnew hid hname hlinked ?_ ?_
    · rw [hcontent]
      exact .opens
    · rw [hcontent]
      simp [toolsOf, isTool, write, Transcript.fresh]
  | @continues arguments _ hopen harguments =>
    obtain ⟨before, b, hcontent, htool, hwrite⟩ := h.linked.puts_arguments hopen arguments
    have hlast := h.open_last _ hopen
    rw [h.indices] at hlast
    obtain ⟨callsBefore, c, hcalls, hjoin⟩ := Joined.joinCall_last (h.indices ▸ h.nodup) hlast
    have hchars : ∀ block, (∀ id name, block ≠ .toolUse id name) →
        charsOf block (t.write (.inputJson arguments)).content = charsOf block t.content := by
      intro block _
      have hb : ¬ b.block = block := by
        rintro rfl
        cases hblock : b.block <;> simp_all [isTool]
      simp [hwrite, hcontent, charsOf, write, hb]
    have htools := h.tools
    rw [hcontent, hcalls] at htools
    refine ⟨hlinked, ?_, ?_, h.held_blank, h.held_text, ?_, ?_, h.nodup, h.open_last, h.finish⟩
    · rw [hchars .thinking (by simp), h.thinking]
      rfl
    · rw [hchars .text (by simp)]
      exact h.text
    · have hlastBlock : toolsOf before = callsBefore.map JoinedCall.built ∧ b = c.built := by
        simpa [toolsOf, htool] using htools
      simp only [hwrite, toolsOf, filter_append, Joined.note, hjoin, map_append]
      rw [← toolsOf, hlastBlock.1]
      simp [hlastBlock.2, harguments, JoinedCall.built, write, isTool]
    · rw [h.indices]
      simp only [Joined.note, hjoin]
      simp [hcalls]
  | nothing hknown harguments =>
    have hsame : j.note (.toolCall call) = j := by
      rw [h.indices] at hknown
      simp only [Joined.note, Joined.joinCall, if_pos hknown, harguments, Option.getD_none,
        String.append_empty]
      simp
    rwa [hsame]

/-- **One piece.** -/
theorem next (hwrites : Writes m t p m' t') : Carries (j.note p) m' t' := by
  cases hwrites with
  | reasoning s => exact h.reasoning s
  | content s => exact h.content s
  | toolCall htakes => exact h.toolCall htakes
  | finish reason => exact h.finishes reason

end

end Carries

/-! ## A stream in order -/

/-- The thinking block of a Message. -/
def thinkingPart (reasoning : String) : List Built :=
  if reasoning = "" then [] else [⟨.thinking, reasoning, thinkingSignature⟩]

/-- The text block of a Message. -/
def textPart (content : String) : List Built :=
  if isBlank content then [] else [⟨.text, content, ""⟩]

theorem not_isTool_of_mem {reasoning content : String} {b : Built}
    (h : b ∈ thinkingPart reasoning ++ textPart content) : b.isTool = false := by
  unfold thinkingPart textPart at h
  split at h <;> split at h <;> simp at h
  · rw [h]; rfl
  · rw [h]; rfl
  · rcases h with rfl | rfl <;> rfl

/-- The machine and the transcript in each phase of a stream in order. -/
inductive Shape (j : Joined) (m : StreamMachine) (t : Transcript) : Phase → Prop
  | reasoning (hcontent : t.content = thinkingPart j.reasoning) (hnone : j.content = "")
      (hcalls : m.toolIndices = []) (hheld : m.heldWhitespace = "")
      (hthinking : m.opens .thinking = !(j.reasoning == "")) (htext : m.opens .text = false) :
      Shape j m t .reasoning
  | content (hcontent : t.content = thinkingPart j.reasoning ++ textPart j.content)
      (hcalls : m.toolIndices = [])
      (hheld : m.heldWhitespace = if isBlank j.content then j.content else "")
      (htext : m.opens .text = !isBlank j.content) :
      Shape j m t .content
  | tools {indices : List ℕ} (tools : List Built)
      (hcontent : t.content = thinkingPart j.reasoning ++ textPart j.content ++ tools)
      (htools : ∀ b ∈ tools, b.isTool = true) (hindices : m.toolIndices = indices)
      (hopen : ∀ index, indices.getLast? = some index → m.opens (.toolUse index) = true) :
      Shape j m t (.tools indices)
  | finished (tools : List Built)
      (hcontent : t.content = thinkingPart j.reasoning ++ textPart j.content ++ tools)
      (htools : ∀ b ∈ tools, b.isTool = true) : Shape j m t .finished

/-- A reasoning piece is not empty. -/
def Piece.nonempty : Piece → Prop
  | .reasoning s => s ≠ ""
  | _ => True

namespace Shape

variable {j : Joined} {m m' : StreamMachine} {t t' : Transcript} {phase phase' : Phase}
  {indices : List ℕ} {s : String} {call : CallParts} {p : Piece}

theorem toContent (h : Shape j m t .reasoning) : Shape j m t .content := by
  cases h with
  | reasoning hcontent hnone hcalls hheld _ htext =>
    refine .content ?_ hcalls ?_ ?_
    · simp [hcontent, hnone, textPart]
    · simp [hnone, hheld]
    · simp [hnone, htext]

/-- Before the finish reason, tool calls may begin. -/
theorem toTools (h : Shape j m t phase) (hphase : phase ≠ .finished) :
    Shape j m t (.tools phase.calls) := by
  have of_content : Shape j m t .content → Shape j m t (.tools []) := by
    rintro (_ | ⟨hcontent, hcalls, _, _⟩)
    exact .tools [] (by simpa using hcontent) (by simp) hcalls (by simp)
  cases phase with
  | reasoning => exact of_content h.toContent
  | content => exact of_content h
  | tools => exact h
  | finished => exact absurd rfl hphase

theorem reasoning_next (h : Shape j m t .reasoning) (hlinked : Linked m t) (hs : s ≠ "") :
    Shape (j.note (.reasoning s)) (m.thinking s).1 (m.thinkingOn t s) .reasoning := by
  cases h with
  | reasoning hcontent hnone hcalls hheld hthinking htext =>
    have hputs := hlinked.puts_thinking s
    have hlonger : j.reasoning ++ s ≠ "" := by simp [hs]
    have hcontent' : (m.thinkingOn t s).content = thinkingPart (j.reasoning ++ s) := by
      rw [hthinking, hcontent] at hputs
      generalize (m.thinkingOn t s).content = content' at hputs
      by_cases hfirst : j.reasoning = ""
      · simp [hfirst] at hputs
        cases hputs with
        | opens =>
          simp [thinkingPart, hfirst, hs, Transcript.fresh, write]
      have hnot : (!(j.reasoning == "")) = true := by simp [hfirst]
      rw [hnot] at hputs
      cases hputs with
      | last hlast =>
        rw [thinkingPart, if_neg hfirst] at hlast
        obtain ⟨rfl, rfl⟩ := append_singleton_inj.mp (show [] ++ [_] = _ ++ [_] from hlast)
        simp [thinkingPart, hlonger, write]
    rw [thinking_fst]
    split_ifs with hopens
    · exact .reasoning hcontent' hnone hcalls hheld (by simp [Joined.note, hopens, hs]) htext
    · exact .reasoning hcontent' hnone hcalls rfl
        (by simp [Joined.note, hs, opens]) (by simp [opens])

/-- The content after a text that is shown. -/
theorem content_textOn (h : Shape j m t .content) (hcarries : Carries j m t)
    (hshown : m.opens .text = true ∨ isBlank s = false) :
    (m.textOn t s).content = thinkingPart j.reasoning ++ textPart (j.content ++ s) := by
  cases h with
  | content hcontent _ hheld htext =>
    have hputs := hcarries.linked.puts_text s hshown hcarries.held_text
    generalize (m.textOn t s).content = content' at hputs ⊢
    rw [hheld, htext, hcontent] at hputs
    cases hblank : isBlank j.content with
    | true =>
      simp only [hblank, Bool.not_true, if_true] at hputs
      have hs : isBlank s = false := by simpa [htext, hblank] using hshown
      cases hputs with
      | opens => simp [textPart, hblank, hs, Transcript.fresh, write]
    | false =>
      simp [hblank] at hputs
      cases hputs with
      | last hlast =>
        rw [textPart, if_neg (by simp [hblank])] at hlast
        obtain ⟨rfl, rfl⟩ := append_singleton_inj.mp hlast
        simp [textPart, hblank, write]

theorem content_next (h : Shape j m t .content) (hcarries : Carries j m t) (s : String) :
    Shape (j.note (.content s)) (m.text s).1 (m.textOn t s) .content := by
  by_cases hshown : m.opens .text = true ∨ isBlank s = false
  · have hcontent' := h.content_textOn hcarries hshown
    cases h with
    | content _ hcalls _ htext =>
      have hblank : isBlank (j.content ++ s) = false := by
        rw [isBlank_append, Bool.and_eq_false_iff]
        simpa [htext] using hshown
      rw [text_fst]
      split
      next hopens =>
        refine .content hcontent' hcalls ?_ ?_
        · simpa [Joined.note, hblank] using hcarries.held_text hopens
        · simpa [Joined.note, hblank] using hopens
      rename_i hopens
      rw [if_neg (by simpa [hopens] using hshown)]
      refine .content hcontent' hcalls ?_ ?_
      · simp [Joined.note, hblank]
      · simp [Joined.note, hblank, opens]
  · rw [not_or, Bool.not_eq_false] at hshown
    obtain ⟨hopens, hs⟩ := hshown
    cases h with
    | content hcontent hcalls hheld htext =>
      have hblank : isBlank j.content = true := by simpa [hopens] using htext
      rw [text_fst, if_neg hopens, if_pos hs]
      rw [textOn, if_neg hopens, if_pos hs]
      refine .content ?_ hcalls ?_ ?_
      · simpa [Joined.note, textPart, hblank, hs] using hcontent
      · simp [Joined.note, hheld, hblank, hs]
      · simpa [Joined.note, hblank, hs, opens] using hopens

/-- A tool call that comes in turn can be taken. -/
theorem takes (h : Shape j m t (.tools indices))
    (hnext : Phase.nextCall indices call = some phase') : ∃ m' t', m.Takes t call m' t' := by
  cases h with
  | tools _ _ _ hindices hopen =>
    unfold Phase.nextCall at hnext
    split at hnext
    next hlast =>
      have hknown : call.index ∈ m.toolIndices := by
        rw [hindices]
        exact mem_of_getLast? hlast
      cases harguments : call.arguments with
      | none => exact ⟨m, t, .nothing hknown harguments⟩
      | some => exact ⟨m, _, .continues hknown (hopen _ hlast) harguments⟩
    split at hnext
    next hnew =>
      obtain ⟨hnew, hid, hname⟩ := hnew
      obtain ⟨id, hid⟩ := Option.isSome_iff_exists.mp hid
      obtain ⟨_, hname⟩ := Option.isSome_iff_exists.mp hname
      exact ⟨_, _, .opens (hindices ▸ hnew) hid hname⟩
    · simp at hnext

theorem toolCall_next (h : Shape j m t (.tools indices)) (hlinked : Linked m t)
    (hnext : Phase.nextCall indices call = some phase') (htakes : m.Takes t call m' t') :
    Shape (j.note (.toolCall call)) m' t' phase' := by
  cases h with
  | tools tools hcontent htools hindices hopen =>
    have hphase : call.index ∈ m.toolIndices → phase' = .tools indices := by
      intro hknown
      rw [hindices] at hknown
      unfold Phase.nextCall at hnext
      split at hnext
      · exact (Option.some.inj hnext).symm
      · simp [hknown] at hnext
    cases htakes with
    | @opens id name hnew hid hname =>
      have hfresh : call.index ∉ indices := hindices ▸ hnew
      have hlast : indices.getLast? ≠ some call.index := fun hlast =>
        hfresh (mem_of_getLast? hlast)
      obtain rfl : phase' = .tools (indices ++ [call.index]) := by
        simpa [Phase.nextCall, hlast, hfresh, hid, hname, eq_comm] using hnext
      refine .tools (tools ++ [(Transcript.fresh (.toolUse id name)).write
        (call.arguments.getD "")]) ?_ ?_ ?_ ?_
      · rw [Transcript.content_beginCall, hcontent, append_assoc]
        rfl
      · simpa [isTool, write, Transcript.fresh, or_imp, forall_and] using htools
      · simp [withTool, hindices]
      · simp [withTool, opens]
    | @continues arguments hknown hopens =>
      obtain rfl := hphase hknown
      obtain ⟨_, b, hlast, htool, hwrite⟩ := hlinked.puts_arguments hopens arguments
      rw [hcontent] at hlast
      obtain rfl | ⟨tools, b', rfl⟩ := eq_nil_or_concat tools
      · have hmem : b ∈ thinkingPart j.reasoning ++ textPart j.content := by
          rw [append_nil] at hlast
          simp [hlast]
        exact absurd (not_isTool_of_mem hmem) (by simp [htool])
      rw [concat_eq_append, ← append_assoc] at hlast
      obtain ⟨rfl, rfl⟩ := append_singleton_inj.mp hlast
      refine .tools (tools ++ [b'.write arguments]) ?_ ?_ hindices hopen
      · rw [hwrite, append_assoc]
        rfl
      · intro b hb
        rcases mem_append.mp hb with hb | hb
        · exact htools b (by simp [hb])
        · rwa [mem_singleton.mp hb]
    | nothing hknown =>
      obtain rfl := hphase hknown
      exact .tools tools hcontent htools hindices hopen

theorem finish_next (h : Shape j m t phase) (hphase : phase ≠ .finished) (reason : String) :
    Shape (j.note (.finish reason))
      { m with open_ := none, heldWhitespace := "", finishReason := some reason } t.close
      .finished := by
  cases h.toTools hphase with
  | tools tools hcontent htools =>
    refine .finished tools ?_ htools
    rw [Transcript.content_close, hcontent]
    rfl

/-- **One piece that comes in order.** -/
theorem next (h : Shape j m t phase) (hcarries : Carries j m t) (hp : p.nonempty)
    (hnext : phase.next p = some phase') (hwrites : Writes m t p m' t') :
    Shape (j.note p) m' t' phase' := by
  have hphase : phase ≠ .finished := by
    rintro rfl
    cases p <;> simp [Phase.next] at hnext
  cases hwrites with
  | reasoning =>
    cases phase <;> simp [Phase.next] at hnext
    subst hnext
    exact h.reasoning_next hcarries.linked hp
  | content s =>
    cases phase <;> simp [Phase.next] at hnext
    · subst hnext
      exact h.toContent.content_next hcarries s
    · subst hnext
      exact h.content_next hcarries s
  | toolCall htakes =>
    refine (h.toTools hphase).toolCall_next hcarries.linked ?_ htakes
    cases phase with
    | finished => exact absurd rfl hphase
    | _ => simpa [Phase.next] using hnext
  | finish reason =>
    obtain rfl : phase' = .finished := by
      cases phase <;> simp_all [Phase.next]
    exact h.finish_next hphase reason

end Shape

/-! ## Whole streams -/

/-- The transcript carries the pieces so far, exactly if they come in order. -/
structure Tracks (ps : List Piece) (m : StreamMachine) (t : Transcript) : Prop where
  carries : Carries (.of ps) m t
  shape : ∀ phase, Phase.of ps = some phase → Shape (.of ps) m t phase

namespace Tracks

variable {ps qs : List Piece} {m m' : StreamMachine} {t t' : Transcript} {p : Piece}

theorem start (messageId model : String) : Tracks [] (.begun messageId model) ⟨[], none⟩ := by
  refine ⟨.start messageId model, ?_⟩
  intro phase hphase
  obtain rfl : Phase.reasoning = phase := by simpa [Phase.of] using hphase
  exact .reasoning rfl rfl rfl rfl rfl rfl

theorem next (h : Tracks ps m t) (hp : p.nonempty) (hwrites : Writes m t p m' t') :
    Tracks (ps ++ [p]) m' t' := by
  constructor
  · rw [Joined.of_concat]
    exact h.carries.next hwrites
  · intro _ hphase
    obtain ⟨before, hbefore, hnext⟩ := Phase.of_concat_eq_some hphase
    rw [Joined.of_concat]
    exact (h.shape before hbefore).next h.carries hp hnext hwrites

theorem nextAll (hwrites : WritesAll m t qs m' t') (hqs : ∀ q ∈ qs, q.nonempty) :
    ∀ {ps : List Piece}, Tracks ps m t → Tracks (ps ++ qs) m' t' := by
  induction hwrites with
  | nil =>
    intro ps h
    simpa using h
  | cons hfirst _ ih =>
    intro ps h
    have hrest := ih (fun q hq => hqs q (by simp [hq])) (h.next (hqs _ (by simp)) hfirst)
    simpa using hrest

theorem withUsage (h : Tracks ps m t) (usage : Option Json) : Tracks ps (m.withUsage usage) t := by
  refine ⟨h.carries.withUsage usage, ?_⟩
  intro phase hphase
  cases h.shape phase hphase with
  | reasoning hcontent hnone hcalls hheld hthinking htext =>
    exact .reasoning hcontent hnone hcalls hheld hthinking htext
  | content hcontent hcalls hheld htext => exact .content hcontent hcalls hheld htext
  | tools tools hcontent htools hindices hopen =>
    exact .tools tools hcontent htools hindices hopen
  | finished tools hcontent htools => exact .finished tools hcontent htools

end Tracks

/-- The pieces of an input have no empty reasoning. -/
theorem Input.nonempty_of_mem {codec : Codec} {input : Input} {p : Piece}
    (h : p ∈ input.pieces codec) : p.nonempty := by
  cases p with
  | reasoning =>
    unfold pieces at h
    cases hchunk : input.chunk codec with
    | none => simp [hchunk] at h
    | some =>
      simp [hchunk, Messages.pieces] at h
      split at h
      · simp at h
      · simp only [textPieces, toolPieces, mem_append, mem_map] at h
        simp at h
        exact h.2
  | _ => trivial

section

variable (codec : Codec) (inputs : List Input)

/-- The chat usage of a stream: the last one. -/
def lastUsage : Option Json :=
  (inputs.filterMap (chatUsage codec)).getLast?

/-- The stream has shown that it is over: a finish reason came, and usage or an end. -/
def Over : Prop :=
  (∃ reason, .finish reason ∈ inputs.flatMap (Input.pieces codec)) ∧
    ((lastUsage codec inputs).isSome = true ∨ ∃ input ∈ inputs, input.ends = true)

/-- No input carries a delta once the stream has shown that it is over. -/
def Kept : Prop :=
  ∀ before input after, inputs = before ++ input :: after → Over codec before →
    ∀ p ∈ input.pieces codec, ∃ reason, p = .finish reason

end

/-- Every input carries a chunk, and the pieces come in order. -/
structure InOrder (codec : Codec) (inputs : List Input) : Prop where
  chunks : ∀ input ∈ inputs, input = .start ∨ (input.chunk codec).isSome = true
  phase : (Phase.of (inputs.flatMap (Input.pieces codec))).isSome = true

/-- What the events tell after some inputs. -/
inductive Told (codec : Codec) (messageId model : String) (inputs : List Input)
    (m : StreamMachine) (events : List Event) : Prop
  | fresh (hinputs : inputs = []) (hm : m = .new messageId model) (hevents : events = [])
  | running (t : Transcript) (hrunning : Running messageId model m t events)
      (htracks : Tracks (inputs.flatMap (Input.pieces codec)) m t)
      (husage : m.usage = (lastUsage codec inputs).bind anthropicUsage)
      (hwaits : m.settled = false)
  | completed (now late : List Input) (hinputs : inputs = now ++ late) (m' : StreamMachine)
      (t : Transcript) (hstarted : m.started = true) (hdone : m.done = true)
      (hevents : events = messageEvents messageId model t.close.closed none ++
        [.messageDelta (stopReason m'.finishReason (!m'.toolIndices.isEmpty))
          (m'.usage.getD zeroUsage), .messageStop])
      (htracks : Tracks (now.flatMap (Input.pieces codec)) m' t)
      (husage : m'.usage = (lastUsage codec now).bind anthropicUsage) (hover : Over codec now)
  | failed (hstarted : m.started = true) (hdone : m.done = true) (closed : List BlockRun)
      (cut : Option BlockRun) (errorType message : String)
      (hevents : events = messageEvents messageId model closed cut ++ [.error errorType message])
      (horder : ¬ InOrder codec inputs)

section Told

variable {codec : Codec} {messageId model : String} {inputs : List Input} {m : StreamMachine}
  {events : List Event} {input : Input} {r : StreamMachine × List Event} {more : List Input}
  {t : Transcript} {m' : StreamMachine}

theorem usage_of_chatUsage (codec : Codec) (input : Input) :
    (input.chatUsage codec).bind anthropicUsage = input.usage codec := by
  unfold Input.chatUsage Input.usage
  cases input.chunk codec with
  | none => rfl
  | some chunk =>
    cases husage : chunk.get "usage" with
    | none => simp [husage]
    | some usage =>
      cases htranslated : anthropicUsage usage <;>
        simp [husage, htranslated, Option.filter_some]

theorem lastUsage_concat (codec : Codec) (inputs : List Input) (input : Input) :
    lastUsage codec (inputs ++ [input]) = (input.chatUsage codec <|> lastUsage codec inputs) := by
  cases husage : input.chatUsage codec <;> simp [lastUsage, husage]

theorem usage_translated {usage : Json} (h : lastUsage codec inputs = some usage) :
    ∃ translated, anthropicUsage usage = some translated := by
  have hmem := mem_of_getLast? h
  obtain ⟨_, -, hinput⟩ := mem_filterMap.mp hmem
  obtain ⟨_, -, hfilter⟩ := Option.bind_eq_some_iff.mp hinput
  exact Option.isSome_iff_exists.mp (Option.filter_eq_some_iff.mp hfilter).2

theorem usage_concat (hbefore : m.usage = (lastUsage codec inputs).bind anthropicUsage) :
    (m.withUsage (input.usage codec)).usage =
      (lastUsage codec (inputs ++ [input])).bind anthropicUsage := by
  rw [lastUsage_concat, withUsage, hbefore, ← usage_of_chatUsage]
  cases husage : input.chatUsage codec with
  | none => simp
  | some usage =>
    have hsome : (anthropicUsage usage).isSome = true := by
      unfold chatUsage at husage
      obtain ⟨_, -, hfilter⟩ := Option.bind_eq_some_iff.mp husage
      exact (Option.filter_eq_some_iff.mp hfilter).2
    obtain ⟨_, htranslated⟩ := Option.isSome_iff_exists.mp hsome
    simp [htranslated]

theorem InOrder.of_append (h : InOrder codec (inputs ++ more)) : InOrder codec inputs := by
  obtain ⟨_, hphase⟩ := Option.isSome_iff_exists.mp h.phase
  rw [flatMap_append] at hphase
  obtain ⟨_, hbefore, -⟩ := Phase.of_append_eq_some hphase
  exact ⟨fun input hinput => h.chunks input (by simp [hinput]), by simp [hbefore]⟩

theorem Over.append (h : Over codec inputs) (more : List Input) : Over codec (inputs ++ more) := by
  obtain ⟨⟨reason, hreason⟩, hrest⟩ := h
  refine ⟨⟨reason, by rw [flatMap_append]; exact mem_append_left _ hreason⟩, ?_⟩
  refine hrest.imp (fun hsome => ?_) fun ⟨input, hinput, hends⟩ => ⟨input, by simp [hinput], hends⟩
  rw [lastUsage, getLast?_isSome] at hsome ⊢
  simp [filterMap_append, hsome]

/-- What is said of every input after the stream has shown that it is over. -/
theorem Over.late {P : Input → Prop} (h : Over codec inputs)
    (hall : ∀ before input after, inputs ++ more = before ++ input :: after → Over codec before →
      P input) : ∀ input ∈ more, P input := by
  intro input hinput
  obtain ⟨before, after, rfl⟩ := append_of_mem hinput
  exact hall (inputs ++ before) input after (by simp) (h.append before)

/-- A call that fails does not carry a stream in order on. -/
theorem not_inOrder_of_fails {t' : Transcript}
    (htracks : Tracks (inputs.flatMap (Input.pieces codec)) m t)
    (hfails : Fails codec m t input m' t') : ¬ InOrder codec (inputs ++ [input]) := by
  intro horder
  cases hfails with
  | chunkless hstart hchunk =>
    obtain hnot | hsome := horder.chunks input (by simp)
    · exact hstart hnot
    · simp [hchunk] at hsome
  | @refused _ _ ps _ call hpieces hwrites hcall =>
    obtain ⟨_, hphase⟩ := Option.isSome_iff_exists.mp horder.phase
    have hps : ∀ p ∈ ps, p.nonempty := fun p hp =>
      nonempty_of_mem (hpieces ▸ by simp [hp] : p ∈ input.pieces codec)
    have htracks' := Tracks.nextAll hwrites hps htracks
    rw [flatMap_append, flatMap_singleton, hpieces, ← append_assoc] at hphase
    obtain ⟨before, hbefore, hrest⟩ := Phase.of_append_eq_some hphase
    rw [foldlM_cons] at hrest
    obtain ⟨phase', hnext, -⟩ := Option.bind_eq_some_iff.mp hrest
    have hnot : before ≠ .finished := by
      rintro rfl
      simp [Phase.next] at hnext
    have hcalls : Phase.nextCall before.calls call = some phase' := by
      cases before with
      | finished => exact absurd rfl hnot
      | _ => simpa [Phase.next] using hnext
    obtain ⟨m'', t'', htakes⟩ := ((htracks'.shape before hbefore).toTools hnot).takes hcalls
    exact hcall m'' t'' htakes

/-- A finish reason of the machine came in a piece. -/
theorem Tracks.finish_mem {ps : List Piece} (h : Tracks ps m t)
    (hfinish : m.finishReason.isSome = true) : ∃ reason, .finish reason ∈ ps := by
  rw [h.carries.finish] at hfinish
  clear h
  induction ps using reverseRecOn with
  | nil => simp [Joined.of, Joined.empty] at hfinish
  | append_singleton _ p ih =>
    rw [Joined.of_concat] at hfinish
    cases p with
    | finish reason => exact ⟨reason, by simp⟩
    | _ =>
      obtain ⟨reason, hmem⟩ := ih hfinish
      exact ⟨reason, by simp [hmem]⟩

theorem over_of_settled (h : Tracks (inputs.flatMap (Input.pieces codec)) m t)
    (husage : m.usage = (lastUsage codec inputs).bind anthropicUsage)
    (hsettled : m.settled = true) : Over codec inputs := by
  obtain ⟨hfinish, hsome⟩ := Bool.and_eq_true_iff.mp hsettled
  refine ⟨h.finish_mem hfinish, .inl ?_⟩
  rw [husage] at hsome
  cases hlast : lastUsage codec inputs with
  | none => simp [hlast] at hsome
  | some => rfl

/-- What a call does that is fed to a machine on which the events so far tell everything. -/
theorem told_of_fed {before es : List Event} (hrunning : Running messageId model m t before)
    (htracks : Tracks (inputs.flatMap (Input.pieces codec)) m t)
    (husage : m.usage = (lastUsage codec inputs).bind anthropicUsage) (hwaits : m.settled = false)
    (hfed : Fed codec m t before input m' es) :
    Told codec messageId model (inputs ++ [input]) m' (before ++ es) := by
  have hpieces : (inputs ++ [input]).flatMap (Input.pieces codec) =
      inputs.flatMap (Input.pieces codec) ++ input.pieces codec := by simp
  have hstage := hrunning.stage hfed
  cases hfed with
  | @goesOn _ t' _ hwrites hshows hstill =>
    have hframe := hwrites.sameFrame
    have hnext := Tracks.nextAll hwrites (fun _ => nonempty_of_mem) htracks
    rw [← hpieces] at hnext
    refine .running t' ?_ (hnext.withUsage _) ?_ (hstill hwaits)
    · exact ⟨hframe.started.trans hrunning.started, hframe.done.trans hrunning.done,
        hframe.messageId.trans hrunning.messageId_eq, hframe.model.trans hrunning.model_eq,
        { hshows with }⟩
    · exact usage_concat (hframe.usage.trans husage)
  | @completes m' t' es hwrites hshows hfinish hover =>
    have hframe := hwrites.sameFrame
    have hnext := Tracks.nextAll hwrites (fun _ => nonempty_of_mem) htracks
    rw [← hpieces] at hnext
    have htold := hnext.withUsage (input.usage codec)
    have hlast : _ = (lastUsage codec (inputs ++ [input])).bind anthropicUsage :=
      usage_concat (hframe.usage.trans husage)
    have hused : Shows (m'.withUsage (input.usage codec)) t' (before ++ es) := { hshows with }
    rw [complete_fst] at hstage ⊢
    refine .completed _ [] (append_nil _).symm (m'.withUsage (input.usage codec)) t' ?_ rfl ?_
      htold hlast ?_
    · exact hframe.started.trans hrunning.started
    · rw [← append_assoc, hused.complete]
      simp [withUsage, hframe.messageId, hframe.model, hrunning.messageId_eq, hrunning.model_eq]
    · obtain hsettled | hends := hover
      · exact over_of_settled htold hlast hsettled
      · exact ⟨htold.finish_mem hfinish, .inr ⟨input, by simp, hends⟩⟩
  | @fails _ t' _ errorType message hfails hshows =>
    have hframe := hfails.sameFrame
    refine .failed (hframe.started.trans hrunning.started) rfl t'.closed t'.current errorType
      message ?_ (not_inOrder_of_fails htracks hfails)
    rw [← append_assoc, hshows.events_eq, hframe.messageId, hframe.model,
      hrunning.messageId_eq, hrunning.model_eq]

/-- **One call.** -/
theorem Told.next (h : Told codec messageId model inputs m events)
    (hstep : m.step codec input = some r) :
    Told codec messageId model (inputs ++ [input]) r.1 (events ++ r.2) := by
  cases h with
  | fresh hinputs hm hevents =>
    subst hinputs hm hevents
    obtain ⟨es, hfed, hes⟩ := fed_of_new hstep
    have htold : Told codec messageId model ([] ++ [input]) r.1 (_ ++ es) :=
      told_of_fed (running_begun messageId model) (.start messageId model) rfl rfl hfed
    rwa [hes]
  | running _ hrunning htracks husage hwaits =>
    exact told_of_fed hrunning htracks husage hwaits
      (fed_of_step hrunning.shows hrunning.started hrunning.done hstep)
  | completed now late hinputs m' t hstarted hdone hevents htracks husage hover =>
    cases (step_of_done hstarted hdone).symm.trans hstep
    rw [append_nil]
    exact .completed now (late ++ [input]) (by simp [hinputs]) m' t hstarted hdone hevents htracks
      husage hover
  | failed hstarted hdone closed cut errorType message hevents horder =>
    cases (step_of_done hstarted hdone).symm.trans hstep
    rw [append_nil]
    exact .failed hstarted hdone closed cut errorType message hevents
      fun hall => horder hall.of_append

theorem told_of_runs (h : runs (step codec) (.new messageId model) inputs = some (m, events)) :
    Told codec messageId model inputs m events := by
  refine runs_induction (fun inputs events m => Told codec messageId model inputs m events)
    (.fresh rfl rfl rfl) ?_ inputs events m h
  intro inputs events m _ m' es _ ih hstep
  exact ih.next hstep

end Told

variable {ps : List Piece} {translated : Json} {m : StreamMachine}

/-- A stream that is not over has no `message_stop`. -/
theorem messageStop_not_mem {messageId model : String} {closed : List BlockRun}
    {cut : Option BlockRun} : .messageStop ∉ messageEvents messageId model closed cut := by
  have hopening : ∀ (index : ℕ) (r : BlockRun), .messageStop ∉ r.opening index := by
    simp [BlockRun.opening]
  have hblocks : ∀ (rs : List BlockRun) (index : ℕ), .messageStop ∉ blocksFrom index rs := by
    intro rs
    induction rs with
    | nil => simp [blocksFrom]
    | cons r rs ih =>
      intro index
      simp [blocksFrom, BlockRun.whole, hopening, ih]
  cases cut <;> simp [messageEvents, hblocks, hopening]

/-! ## The buffered Message -/

section

variable (codec : Codec)

theorem toolUse_json (c : JoinedCall) :
    toolUse codec (.obj [("id", .str c.id), ("type", .str "function"),
      ("function", .obj [("name", .str c.name), ("arguments", .str c.arguments)])]) =
      c.built.json codec := by
  simp only [toolUse, Json.getStr, Json.get, lookup_cons, Json.asStr, JoinedCall.built, json,
    String.reduceBEq, Option.bind_some, Option.getD_some]
  cases toolInput codec c.arguments <;> rfl

theorem mapM_thinkingPart (reasoning : String) :
    (thinkingPart reasoning).mapM (json codec) = .ok (thinkingContent reasoning) := by
  by_cases h : reasoning = ""
  · simp only [thinkingPart, h, if_true]
    rfl
  · simp [thinkingPart, thinkingContent, Option.filter_some, h, json]

theorem mapM_textPart (content : String) :
    (textPart content).mapM (json codec) = .ok (textContent content) := by
  by_cases h : isBlank content = true
  · simp only [textPart, h, if_true, textContent, Option.filter_some]
    rfl
  · simp [textPart, textContent, Option.filter_some, h, json]

theorem mapM_content (j : Joined) :
    (thinkingPart j.reasoning ++ textPart j.content ++ j.calls.map JoinedCall.built).mapM
        (json codec) = (j.calls.mapM fun c : JoinedCall => c.built.json codec).map
        (thinkingContent j.reasoning ++ textContent j.content ++ ·) := by
  rw [mapM_append, mapM_append, mapM_thinkingPart, mapM_textPart, mapM_map]
  simp only [Function.comp_def]
  cases j.calls.mapM fun c : JoinedCall => c.built.json codec <;> rfl

/-- The buffered Message of the joined chat completion. -/
theorem chatCompletionToMessage_joined (j : Joined) {usage : Json}
    (husage : anthropicUsage usage = some translated) (model requestId : String) :
    chatCompletionToMessage codec (j.chatCompletion usage) model requestId =
      Snapshot.message codec ⟨"msg_" ++ requestId, model,
        thinkingPart j.reasoning ++ textPart j.content ++ j.calls.map JoinedCall.built,
        some (stopReason j.finishReason (!j.calls.isEmpty)), translated⟩ := by
  unfold chatCompletionToMessage Snapshot.message
  rw [mapM_content]
  simp only [Joined.chatCompletion, Json.getItems, Json.getStr, Json.get, lookup_cons, Json.asStr,
    Json.asArray, String.reduceBEq, Option.bind_some, Option.getD_some, head?_cons,
    mapM_map, isEmpty_map, Function.comp_def, toolUse_json, husage]
  cases j.calls.mapM fun c : JoinedCall => c.built.json codec with
  | error => rfl
  | ok => cases j.finishReason <;> rfl

end

/-! ## Both parts -/

/-- A chat stream whose deltas come in order, with a finish reason and usage. -/
structure Answer (codec : Codec) (inputs : List Input) (usage : Json) : Prop where
  chunks : ∀ input ∈ inputs, input = .start ∨ (input.chunk codec).isSome = true
  finished : Phase.of (inputs.flatMap (Input.pieces codec)) = some .finished
  usage_eq : lastUsage codec inputs = some usage
  /-- The usage is not revised once the stream has shown that it is over. -/
  usage_final : ∀ before input after, inputs = before ++ input :: after → Over codec before →
    input.chatUsage codec = none

theorem Phase.finished_of_mem {reason : String} (hmem : .finish reason ∈ ps) :
    ∀ {phase : Phase}, Phase.of ps = some phase → phase = .finished := by
  induction ps using reverseRecOn with
  | nil => simp at hmem
  | append_singleton _ _ ih =>
    intro phase hphase
    obtain ⟨before, hbefore, hnext⟩ := Phase.of_concat_eq_some hphase
    rcases mem_append.mp hmem with hmem | hmem
    · rw [ih hmem hbefore] at hnext
      simp [Phase.next] at hnext
    · rw [← mem_singleton.mp hmem] at hnext
      cases before <;> simp_all [Phase.next]

theorem Phase.finishReason_of_finished (h : Phase.of ps = some .finished) :
    (Joined.of ps).finishReason.isSome = true := by
  obtain rfl | ⟨ps, p, rfl⟩ := eq_nil_or_concat ps
  · simp [Phase.of] at h
  rw [concat_eq_append] at h ⊢
  obtain ⟨before, -, hnext⟩ := Phase.of_concat_eq_some h
  rw [Joined.of_concat]
  cases p with
  | finish => rfl
  | toolCall => cases before <;> simp_all [Phase.next, Phase.nextCall] <;> grind
  | _ => cases before <;> simp [Phase.next] at hnext

/-- A stream that came in order to its finish reason has just the blocks of the Message. -/
theorem Tracks.content_eq {t : Transcript} (h : Tracks ps m t)
    (hfinished : Phase.of ps = some .finished) :
    t.content = thinkingPart (Joined.of ps).reasoning ++ textPart (Joined.of ps).content ++
      (Joined.of ps).calls.map JoinedCall.built := by
  cases h.shape .finished hfinished with
  | finished tools hcontent htools =>
    have hnone : toolsOf (thinkingPart (Joined.of ps).reasoning ++
        textPart (Joined.of ps).content) = [] := by
      refine filter_eq_nil_iff.mpr ?_
      intro b hb
      simp [not_isTool_of_mem hb]
    have hall : toolsOf tools = tools := filter_eq_self.mpr htools
    have hcalls := h.carries.tools
    rw [hcontent, toolsOf, filter_append, ← toolsOf, ← toolsOf, hnone, hall, nil_append] at hcalls
    rw [hcontent, hcalls]

namespace Answer

variable {codec : Codec} {inputs : List Input} {usage : Json}

theorem pieces_late (h : Answer codec inputs usage) {before after : List Input} {input : Input}
    (hinputs : inputs = before ++ input :: after) (hover : Over codec before) :
    input.pieces codec = [] := by
  obtain ⟨_, hreason⟩ := hover.1
  have hphase := h.finished
  rw [hinputs, flatMap_append] at hphase
  obtain ⟨_, hbefore, hrest⟩ := Phase.of_append_eq_some hphase
  rw [Phase.finished_of_mem hreason hbefore, flatMap_cons] at hrest
  cases hpieces : input.pieces codec with
  | nil => rfl
  | cons p ps => simp [hpieces, Phase.next] at hrest

theorem kept (h : Answer codec inputs usage) : Kept codec inputs := by
  intro before input after hinputs hover p hp
  rw [h.pieces_late hinputs hover] at hp
  cases hp

/-- A stream with just one usage. -/
theorem of_one_usage
    (hchunks : ∀ input ∈ inputs, input = .start ∨ (input.chunk codec).isSome = true)
    (hfinished : Phase.of (inputs.flatMap (Input.pieces codec)) = some .finished)
    (hone : inputs.filterMap (chatUsage codec) = [usage]) : Answer codec inputs usage := by
  refine ⟨hchunks, hfinished, by simp [lastUsage, hone], ?_⟩
  rintro before input _ rfl ⟨-, hover⟩
  have hbefore : (lastUsage codec before).isSome = true := by
    refine hover.resolve_right ?_
    rintro ⟨i, hi, hends⟩
    obtain rfl | _ := hchunks i (by simp [hi])
    · simp [ends] at hends
    · cases i <;> simp_all [ends, chunk]
  rw [lastUsage, getLast?_isSome] at hbefore
  cases hlate : input.chatUsage codec with
  | none => rfl
  | some =>
    rw [filterMap_append, filterMap_cons_some hlate] at hone
    have hlength := congrArg length hone
    have hpos := length_pos_iff.mpr hbefore
    simp at hlength
    omega

/-- The events of such a stream complete. -/
theorem completed (h : Answer codec inputs usage) {messageId model : String} {events : List Event}
    (husage : anthropicUsage usage = some translated)
    (hrun : runs (step codec) (.new messageId model) inputs = some (m, events)) :
    m.started = true ∧ m.done = true ∧
      ∃ m' t, events = messageEvents messageId model t.close.closed none ++
        [.messageDelta (stopReason m'.finishReason (!m'.toolIndices.isEmpty)) translated,
          .messageStop] ∧ Tracks (inputs.flatMap (Input.pieces codec)) m' t := by
  have hused : (lastUsage codec inputs).bind anthropicUsage = some translated := by
    rw [h.usage_eq, Option.bind_some, husage]
  cases told_of_runs hrun with
  | fresh hinputs =>
    have hfinished := h.finished
    simp [hinputs, Phase.of] at hfinished
  | running _ _ htracks hlast hwaits =>
    have hfinish := Phase.finishReason_of_finished h.finished
    rw [← htracks.carries.finish] at hfinish
    simp [settled, hfinish, hlast, hused] at hwaits
  | completed now late hinputs m' t hstarted hdone hevents htracks hlast hover =>
    subst hinputs
    have hpieces := flatMap_eq_nil_iff.mpr (hover.late fun _ _ _ => h.pieces_late)
    have hchat := filterMap_eq_nil_iff.mpr (hover.late h.usage_final)
    rw [lastUsage, filterMap_append, hchat, append_nil, ← lastUsage] at hused
    rw [hlast, hused] at hevents
    refine ⟨hstarted, hdone, m', t, hevents, ?_⟩
    rwa [flatMap_append, hpieces, append_nil]
  | failed _ _ _ _ _ _ _ horder => exact absurd ⟨h.chunks, by simp [h.finished]⟩ horder

end Answer

/-- **The streamed and the buffered Message agree.**  When the deltas come as reasoning,
content, tool calls one after another and a finish reason, the Message that the events fold
to is the one that the joined chat completion is translated to, however the deltas were cut
into chunks and whatever comes after.  In any order, a stream that completes loses nothing
but whitespace of the content, as long as no delta comes once it has shown that it is
over. -/
theorem streamed_and_buffered_agree (codec : Codec) (requestId model : String)
    (inputs : List Input) :
    (∀ usage, Answer codec inputs usage → ∀ more, ∃ m events s,
      runs (step codec) (.new ("msg_" ++ requestId) model) (inputs ++ more) =
        some (m, events) ∧ folded events = some s ∧ s.message codec = chatCompletionToMessage codec
        ((Joined.of (inputs.flatMap (Input.pieces codec))).chatCompletion usage) model requestId) ∧
    (Kept codec inputs → ∀ m events,
      runs (step codec) (.new ("msg_" ++ requestId) model) inputs = some (m, events) →
      .messageStop ∈ events → ∃ s, folded events = some s ∧ charsOf .thinking s.content =
          (Joined.of (inputs.flatMap (Input.pieces codec))).reasoning.toList ∧ toolsOf s.content =
          (Joined.of (inputs.flatMap (Input.pieces codec))).calls.map JoinedCall.built ∧
        DropsOnly isWhitespace (Joined.of (inputs.flatMap (Input.pieces codec))).content.toList
          (charsOf .text s.content)) := by
  constructor
  · intro usage hanswer more
    obtain ⟨⟨m, events⟩, hrun⟩ := runs_total codec inputs (.new ("msg_" ++ requestId) model)
    obtain ⟨_, husage⟩ := usage_translated hanswer.usage_eq
    obtain ⟨hstarted, hdone, m', t, hevents, htracks⟩ := hanswer.completed husage hrun
    refine ⟨m, events, _, ?_, hevents ▸ folded_completed _ _ _ _ _, ?_⟩
    · rw [runs_append_eq_some]
      exact ⟨m, events, [], hrun, runs_of_done hstarted hdone more, by simp⟩
    · have hcontent : t.close.closed.map BlockRun.built = _ := htracks.content_eq hanswer.finished
      rw [chatCompletionToMessage_joined codec _ husage, hcontent, htracks.carries.finish,
        htracks.carries.indices, isEmpty_map]
  · intro hkept m events hrun hstop
    cases told_of_runs hrun with
    | fresh _ _ hevents => simp [hevents] at hstop
    | running _ hrunning =>
      rw [hrunning.shows.events_eq] at hstop
      exact absurd hstop messageStop_not_mem
    | completed now late hinputs _ _ _ _ hevents htracks _ hover =>
      subst hinputs
      have hlate := hover.late hkept
      have hfinishes : ∀ p ∈ late.flatMap (Input.pieces codec), ∃ reason, p = .finish reason := by
        intro p hp
        obtain ⟨input, hinput, hp⟩ := mem_flatMap.mp hp
        exact hlate input hinput p hp
      obtain ⟨_, hof⟩ := Joined.of_append_finishes hfinishes
      rw [flatMap_append, hof]
      exact ⟨_, hevents ▸ folded_completed _ _ _ _ _, htracks.carries.thinking,
        htracks.carries.tools, htracks.carries.text_dropped⟩
    | failed _ _ _ _ _ _ hevents =>
      rw [hevents, mem_append] at hstop
      obtain hstop | hstop := hstop
      · exact absurd hstop messageStop_not_mem
      · simp at hstop

/-! ## A tool call, and content that comes late -/

namespace WeatherCall

def choice (delta : List (String × Json)) (finishReason : Option String) : Json :=
  .obj [("choices", .arr [.obj (("delta", .obj delta) ::
    (finishReason.map fun reason => ("finish_reason", Json.str reason)).toList)])]

def usage : Json := .obj [("prompt_tokens", .nat 3), ("completion_tokens", .nat 2)]

/-- The payloads of the streams below, with what they parse to. -/
def payloads : List (String × Json) :=
  [("\x7b\"choices\":[\x7b\"delta\":\x7b\"reasoning_content\":\"Hm\"\x7d\x7d]\x7d",
      choice [("reasoning_content", .str "Hm")] none),
    ("\x7b\"choices\":[\x7b\"delta\":\x7b\"content\":\" \"\x7d\x7d]\x7d",
      choice [("content", .str " ")] none),
    ("\x7b\"choices\":[\x7b\"delta\":\x7b\"content\":\"Hi\"\x7d\x7d]\x7d",
      choice [("content", .str "Hi")] none),
    ("\x7b\"choices\":[\x7b\"delta\":\x7b\"tool_calls\":[\x7b\"index\":0,\"id\":\"c\"," ++
        "\"function\":\x7b\"name\":\"f\",\"arguments\":\"\x7b\x7d\"\x7d\x7d]\x7d," ++
        "\"finish_reason\":\"tool_calls\"\x7d]\x7d",
      choice [("tool_calls", .arr [.obj [("index", .nat 0), ("id", .str "c"),
        ("function", .obj [("name", .str "f"), ("arguments", .str "\x7b\x7d")])]])]
        (some "tool_calls")),
    ("\x7b\"choices\":[],\"usage\":\x7b\"prompt_tokens\":3,\"completion_tokens\":2\x7d\x7d",
      .obj [("choices", .arr []), ("usage", usage)]),
    ("\x7b\x7d", .obj [])]

def codec : Codec where
  fromStr text := payloads.lookup text
  errorMessage _ _ := ""

/-- The payload with a number. -/
def payload (n : ℕ) : Input := .data ((payloads.map Prod.fst).getD n "")

/-- Reasoning, content whose first character is held back, a tool call. -/
def cut : List Input := [.start, payload 0, payload 1, payload 2, payload 3, payload 4]

theorem cut_answer : Answer codec cut usage := by
  refine .of_one_usage ?_ ?_ ?_
  all_goals decide +kernel

theorem cut_goes : (runs (step codec) (.new "msg_1" "m") cut).isSome = true := by
  decide +kernel

/-- The answer that was cut so, read to its end and beyond. -/
theorem streamed_and_buffered_agree_cut :
    (∃ m events s, runs (step codec) (.new "msg_1" "m") (cut ++ [.data "[DONE]", .end_]) =
        some (m, events) ∧ folded events = some s ∧ s.message codec = chatCompletionToMessage codec
        ((Joined.of (cut.flatMap (Input.pieces codec))).chatCompletion usage) "m" "1") ∧
      ∃ s, folded (reached _ _ _ cut_goes).2 = some s ∧ charsOf .thinking s.content = "Hm".toList ∧
        toolsOf s.content = [⟨.toolUse "c" "f", "\x7b\x7d", ""⟩] ∧
        DropsOnly isWhitespace " Hi".toList (charsOf .text s.content) := by
  have hagree := streamed_and_buffered_agree codec "1" "m" cut
  refine ⟨hagree.1 usage cut_answer [.data "[DONE]", .end_], ?_⟩
  exact hagree.2 cut_answer.kept _ _ (runs_eq_reached cut_goes) (by decide +kernel)

/-- The content comes after the finish reason and the usage. -/
def late : List Input := [payload 3, payload 4, payload 2, .data "[DONE]"]

theorem late_goes : (runs (step codec) (.new "msg_1" "m") late).isSome = true := by
  decide +kernel

/-- The stream completes, and its content is lost: the machine is done when it comes. -/
theorem late_content_lost :
    .messageStop ∈ (reached _ _ _ late_goes).2 ∧
      (Joined.of (late.flatMap (Input.pieces codec))).content = "Hi" ∧
      ∀ s, folded (reached _ _ _ late_goes).2 = some s →
        ¬ DropsOnly isWhitespace (Joined.of (late.flatMap (Input.pieces codec))).content.toList
          (charsOf .text s.content) := by
  have hfolded : (folded (reached _ _ _ late_goes).2).map (fun s => charsOf .text s.content) =
      some [] := by decide +kernel
  have hcontent : (Joined.of (late.flatMap (Input.pieces codec))).content = "Hi" := by
    decide +kernel
  refine ⟨by decide +kernel, hcontent, ?_⟩
  intro s hs hdrops
  rw [hs, Option.map_some, Option.some_inj] at hfolded
  have hfilter := hdrops.filter_eq
  rw [hfolded, hcontent] at hfilter
  exact absurd hfilter (by decide +kernel)

end WeatherCall

end Sie.Gateway.Messages
