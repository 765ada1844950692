import Sie.Gateway.Messages.Stream

/-!
# The events of a Messages stream are well formed

Whatever the machine is fed, its events are a `message_start`, content blocks with
consecutive indices, one after the other, and one ending.  The events so far are the
rendering of a transcript: the blocks that are closed, and the one that is open.  Each
function of the machine writes to the transcript (`Shows.close`, `Shows.openBlock`,
`Shows.delta`), and every fact about the events of a run goes through it.
-/

namespace Sie.Gateway.Messages

open Sie.Lib List StreamMachine ContentBlock Option

/-! ## Well-formed event streams -/

/-- A content block with the deltas that were written to it. -/
structure BlockRun where
  block : ContentBlock
  deltas : List Delta
  deriving DecidableEq

/-- Whether a delta is of the kind of its block. -/
def ContentBlock.takes : ContentBlock → Delta → Bool
  | .text, .text _ => true
  | .thinking, .thinking _ => true
  | .thinking, .signature _ => true
  | .toolUse _ _, .inputJson _ => true
  | _, _ => false

namespace BlockRun

def Fits (r : BlockRun) : Prop := ∀ d ∈ r.deltas, r.block.takes d = true

/-- The events of a block that is not stopped. -/
def opening (index : ℕ) (r : BlockRun) : List Event :=
  .contentBlockStart index r.block :: r.deltas.map (.contentBlockDelta index)

/-- The events of a block. -/
def whole (index : ℕ) (r : BlockRun) : List Event := r.opening index ++ [.contentBlockStop index]

def add (r : BlockRun) (d : Delta) : BlockRun := { r with deltas := r.deltas ++ [d] }

theorem opening_add (index : ℕ) (r : BlockRun) (d : Delta) :
    (r.add d).opening index = r.opening index ++ [.contentBlockDelta index d] := by
  simp [opening, add]

theorem Fits.add {r : BlockRun} {d : Delta} (h : r.Fits) (hd : r.block.takes d = true) :
    (r.add d).Fits := by
  intro d' hd'
  obtain hd' | hd' := mem_append.mp hd'
  · exact h d' hd'
  · rwa [mem_singleton.mp hd']

end BlockRun

/-- The events of blocks, with consecutive indices from `index` on. -/
def blocksFrom (index : ℕ) : List BlockRun → List Event
  | [] => []
  | r :: rs => r.whole index ++ blocksFrom (index + 1) rs

theorem blocksFrom_concat (index : ℕ) (rs : List BlockRun) (r : BlockRun) :
    blocksFrom index (rs ++ [r]) = blocksFrom index rs ++ r.whole (index + rs.length) := by
  induction rs generalizing index with
  | nil => simp [blocksFrom]
  | cons r' rs ih =>
    simp [blocksFrom, ih]
    rw [Nat.add_right_comm, Nat.add_assoc]

/-- The events before the ending: the blocks that are closed, and at most one that is cut. -/
def messageEvents (messageId model : String) (closed : List BlockRun) (cut : Option BlockRun) :
    List Event :=
  .messageStart messageId model ::
    (blocksFrom 0 closed ++ (cut.map (BlockRun.opening closed.length)).getD [])

/-- The events of a stream that has ended: every block is closed, or the stream failed. -/
inductive WellFormed (messageId model : String) : List Event → Prop
  | completed (closed : List BlockRun) (hfits : ∀ r ∈ closed, r.Fits) (stopReason : String)
      (usage : Json) :
      WellFormed messageId model (messageEvents messageId model closed none ++
        [.messageDelta stopReason usage, .messageStop])
  | failed (closed : List BlockRun) (cut : Option BlockRun)
      (hfits : ∀ r ∈ closed ++ cut.toList, r.Fits) (errorType message : String) :
      WellFormed messageId model (messageEvents messageId model closed cut ++
        [.error errorType message])

/-! ## Transcripts -/

/-- What was written: the closed blocks and the open one. -/
structure Transcript where
  closed : List BlockRun
  current : Option BlockRun

namespace Transcript

section

variable (t : Transcript)

def all : List BlockRun := t.closed ++ t.current.toList

/-- A thinking block is signed when it is closed. -/
def close : Transcript :=
  match t.current with
  | none => t
  | some r =>
    ⟨t.closed ++ [if r.block = .thinking then r.add (.signature thinkingSignature) else r], none⟩

def openBlock (block : ContentBlock) : Transcript :=
  { t with current := some ⟨block, []⟩ }

def write (d : Delta) : Transcript :=
  { t with current := t.current.map (BlockRun.add · d) }

/-- The block of a tool call is opened in place of what was open. -/
def beginCall (id name : String) (arguments : Option String) : Transcript :=
  match arguments with
  | none => t.close.openBlock (.toolUse id name)
  | some arguments => (t.close.openBlock (.toolUse id name)).write (.inputJson arguments)

@[simp] theorem close_current : t.close.current = none := by
  cases h : t.current <;> simp [close, h]

end

end Transcript

theorem StreamMachine.opens_iff (m : StreamMachine) (block : Block) :
    m.opens block = true ↔ ∃ index, m.open_ = some (block, index) := by
  cases h : m.open_ <;> simp [opens, h, Prod.ext_iff]

/-- Whether the open block of the machine was started so. -/
def Block.starts : Block → ContentBlock → Prop
  | .text, .text => True
  | .thinking, .thinking => True
  | .toolUse _, .toolUse _ _ => True
  | _, _ => False

/-- The machine, its transcript and the events so far. -/
structure Shows (m : StreamMachine) (t : Transcript) (events : List Event) : Prop where
  events_eq : events = messageEvents m.messageId m.model t.closed t.current
  next : m.nextIndex = t.all.length
  none_open : t.current = none → m.open_ = none
  some_open : ∀ r, t.current = some r → ∃ block, m.open_ = some (block, t.closed.length) ∧
    block.starts r.block
  fits : ∀ r ∈ t.all, r.Fits

namespace Shows

variable {m : StreamMachine} {t : Transcript} {events : List Event} {block : Block}

theorem current_of_open {index : ℕ} (h : Shows m t events) (hopen : m.open_ = some (block, index)) :
    index = t.closed.length ∧ ∃ r, t.current = some r ∧ block.starts r.block := by
  cases hcurrent : t.current with
  | none => cases hopen.symm.trans (h.none_open hcurrent)
  | some r =>
    obtain ⟨_, hopen', hstarts⟩ := h.some_open r hcurrent
    cases hopen.symm.trans hopen'
    exact ⟨rfl, r, rfl, hstarts⟩

theorem current_none (h : Shows m t events) (hopen : m.open_ = none) : t.current = none := by
  cases hcurrent : t.current with
  | none => rfl
  | some r =>
    obtain ⟨_, hsome, -⟩ := h.some_open r hcurrent
    cases hopen.symm.trans hsome

theorem close (h : Shows m t events) : Shows m.close.1 t.close (events ++ m.close.2) := by
  cases hopen : m.open_ with
  | none =>
    have hcurrent := h.current_none hopen
    simpa [StreamMachine.close, Transcript.close, hopen, hcurrent] using h
  | some p =>
    obtain ⟨block, _⟩ := p
    obtain ⟨rfl, r, hcurrent, _⟩ := h.current_of_open hopen
    have hthinking : r.block = .thinking ↔ block = .thinking := by
      cases block <;> cases hblock : r.block <;> simp_all [Block.starts]
    have hfits : r.Fits := h.fits r (by simp [Transcript.all, hcurrent])
    refine ⟨?_, ?_, by simp [StreamMachine.close, hopen], by simp, ?_⟩
    · rw [h.events_eq]
      by_cases hblock : block = .thinking
      · simp [StreamMachine.close, Transcript.close, messageEvents, hopen, hcurrent, hblock,
          hthinking.mpr hblock, blocksFrom_concat, BlockRun.whole, BlockRun.opening_add]
      · have hnot : ¬ r.block = .thinking := fun hr => hblock (hthinking.mp hr)
        simp [StreamMachine.close, Transcript.close, messageEvents, hopen, hcurrent, hblock,
          hnot, blocksFrom_concat, BlockRun.whole]
    · have hnext := h.next
      simpa [StreamMachine.close, Transcript.close, Transcript.all, hopen, hcurrent] using hnext
    · intro r' hr'
      simp [Transcript.close, hcurrent, Transcript.all] at hr'
      obtain hr' | rfl := hr'
      · exact h.fits r' (by simp [Transcript.all, hr'])
      split_ifs with hblock
      · exact hfits.add (by simp [hblock, takes])
      · exact hfits

theorem openBlock {contentBlock : ContentBlock} (h : Shows m t events) (hopen : m.open_ = none)
    (hstarts : block.starts contentBlock) :
    Shows (m.openBlock block contentBlock).1 (t.openBlock contentBlock)
      (events ++ (m.openBlock block contentBlock).2) := by
  have hcurrent := h.current_none hopen
  have hnext : m.nextIndex = t.closed.length := by
    rw [h.next]
    simp [Transcript.all, hcurrent]
  refine ⟨?_, ?_, by simp [Transcript.openBlock], ?_, ?_⟩
  · rw [h.events_eq]
    simp [StreamMachine.openBlock, Transcript.openBlock, messageEvents, BlockRun.opening, hcurrent,
      hnext]
  · simp [StreamMachine.openBlock, Transcript.openBlock, Transcript.all, hnext]
  · intro r hr
    cases hr
    exact ⟨block, by simp [StreamMachine.openBlock, Transcript.openBlock, hnext], hstarts⟩
  · intro r hr
    simp [Transcript.openBlock, Transcript.all] at hr
    obtain hr | rfl := hr
    · exact h.fits r (by simp [Transcript.all, hr])
    · simp [BlockRun.Fits]

theorem delta {d : Delta} (h : Shows m t events) (hopens : m.opens block = true)
    (htakes : ∀ contentBlock, block.starts contentBlock → contentBlock.takes d = true) :
    Shows (m.delta d).1 (t.write d) (events ++ (m.delta d).2) := by
  obtain ⟨_, hopen⟩ := (m.opens_iff block).mp hopens
  obtain ⟨rfl, r, hcurrent, hstarts⟩ := h.current_of_open hopen
  have hmachine : (m.delta d).1 = m := by simp [StreamMachine.delta, hopen]
  rw [hmachine]
  refine ⟨?_, ?_, by simp [Transcript.write, hcurrent], ?_, ?_⟩
  · rw [h.events_eq]
    simp [StreamMachine.delta, Transcript.write, messageEvents, BlockRun.opening_add, hopen,
      hcurrent]
  · rw [h.next]
    simp [Transcript.write, Transcript.all, hcurrent]
  · intro r' hr'
    obtain rfl : r.add d = r' := by simpa [Transcript.write, hcurrent] using hr'
    exact ⟨block, hopen, hstarts⟩
  · intro r' hr'
    simp [Transcript.write, Transcript.all, hcurrent] at hr'
    obtain hr' | rfl := hr'
    · exact h.fits r' (by simp [Transcript.all, hr'])
    · exact (h.fits r (by simp [Transcript.all, hcurrent])).add (htakes _ hstarts)

end Shows

/-! ## What the machine becomes, and what it writes -/

/-- What no part of a chunk's deltas touches. -/
structure SameFrame (m m' : StreamMachine) : Prop where
  messageId : m'.messageId = m.messageId
  model : m'.model = m.model
  started : m'.started = m.started
  done : m'.done = m.done
  usage : m'.usage = m.usage

theorem SameFrame.refl (m : StreamMachine) : SameFrame m m := ⟨rfl, rfl, rfl, rfl, rfl⟩

theorem SameFrame.trans {m m' m'' : StreamMachine} (h : SameFrame m m') (h' : SameFrame m' m'') :
    SameFrame m m'' :=
  ⟨h'.messageId.trans h.messageId, h'.model.trans h.model, h'.started.trans h.started,
    h'.done.trans h.done, h'.usage.trans h.usage⟩

namespace StreamMachine

variable (m : StreamMachine) (t : Transcript)

theorem close_fst : m.close.1 = { m with open_ := none } := by
  obtain ⟨_, _, _, open_, -, _, _, _, _, _⟩ := m
  cases open_ <;> rfl

theorem delta_fst (d : Delta) : (m.delta d).1 = m := by
  unfold delta
  split <;> rfl

/-- A block is opened in place of what was open. -/
theorem reopen_fst (block : Block) (contentBlock : ContentBlock) :
    (andThen m.close fun m => m.openBlock block contentBlock).1 =
      { m with nextIndex := m.nextIndex + 1, open_ := some (block, m.nextIndex) } := by
  simp [andThen, openBlock, close_fst]

theorem thinking_fst (s : String) : (m.thinking s).1 =
    if m.opens .thinking then m
    else { m with
      heldWhitespace := ""
      nextIndex := m.nextIndex + 1
      open_ := some (.thinking, m.nextIndex) } := by
  unfold thinking
  split
  · exact delta_fst m _
  · rw [andThen, delta_fst, reopen_fst]
    rfl

theorem text_fst (s : String) : (m.text s).1 = if m.opens .text then m
    else if isBlank s then { m with heldWhitespace := m.heldWhitespace ++ s }
    else { m with
      heldWhitespace := ""
      nextIndex := m.nextIndex + 1
      open_ := some (.text, m.nextIndex) } := by
  unfold text
  split
  · exact delta_fst m _
  split
  · rfl
  · rw [andThen, delta_fst, reopen_fst]
    rfl

/-- What `thinking` writes. -/
def thinkingOn (s : String) : Transcript :=
  if m.opens .thinking then t.write (.thinking s)
  else (t.close.openBlock .thinking).write (.thinking s)

/-- What `text` writes. -/
def textOn (s : String) : Transcript :=
  if m.opens .text then t.write (.text s)
  else if isBlank s then t
  else (t.close.openBlock .text).write (.text (m.heldWhitespace ++ s))

/-- The machine with the block of a new tool call open. -/
def withTool (index : ℕ) : StreamMachine :=
  { m with
    heldWhitespace := ""
    nextIndex := m.nextIndex + 1
    open_ := some (.toolUse index, m.nextIndex)
    toolIndices := m.toolIndices ++ [index] }

/-- A tool call that is taken: its block is opened on its first delta, and arguments are
written only to a block that is open. -/
inductive Takes (call : CallParts) : StreamMachine → Transcript → Prop
  | opens {id name : String} (hnew : call.index ∉ m.toolIndices) (hid : call.id = some id)
      (hname : call.name = some name) :
      Takes call (m.withTool call.index) (t.beginCall id name call.arguments)
  | continues {arguments : String} (hknown : call.index ∈ m.toolIndices)
      (hopen : m.opens (.toolUse call.index) = true)
      (harguments : call.arguments = some arguments) :
      Takes call m (t.write (.inputJson arguments))
  | nothing (hknown : call.index ∈ m.toolIndices) (harguments : call.arguments = none) :
      Takes call m t

end StreamMachine

namespace Shows

variable {m : StreamMachine} {t : Transcript} {events : List Event} {r : StreamMachine × List Event}

theorem of_andThen {f : StreamMachine → StreamMachine × List Event} {t' : Transcript}
    (h : Shows (f r.1).1 t' (events ++ r.2 ++ (f r.1).2)) :
    Shows (andThen r f).1 t' (events ++ (andThen r f).2) := by
  simpa [andThen] using h

section

variable (h : Shows m t events)
include h

/-- A block is opened in place of what was open. -/
theorem reopen (block : Block) (contentBlock : ContentBlock) (hstarts : block.starts contentBlock) :
    Shows (andThen m.close fun m => m.openBlock block contentBlock).1
      (t.close.openBlock contentBlock)
      (events ++ (andThen m.close fun m => m.openBlock block contentBlock).2) := by
  refine Shows.of_andThen (h.close.openBlock ?_ hstarts)
  rw [close_fst]

theorem clearHeld : Shows m.clearHeld t events := { h with }

theorem thinking (s : String) :
    Shows (m.thinking s).1 (m.thinkingOn t s) (events ++ (m.thinking s).2) := by
  have htakes : ∀ c : ContentBlock, Block.thinking.starts c → c.takes (.thinking s) = true := by
    intro c hc
    cases c <;> simp_all [Block.starts, takes]
  unfold StreamMachine.thinking StreamMachine.thinkingOn
  split_ifs with hopens
  · exact h.delta hopens htakes
  · refine Shows.of_andThen ((h.clearHeld.reopen .thinking .thinking trivial).delta ?_ htakes)
    simp [reopen_fst, opens]

theorem text (s : String) : Shows (m.text s).1 (m.textOn t s) (events ++ (m.text s).2) := by
  have htakes : ∀ (s : String) (c : ContentBlock), Block.text.starts c →
      c.takes (.text s) = true := by
    intro s c hc
    cases c <;> simp_all [Block.starts, takes]
  unfold StreamMachine.text StreamMachine.textOn
  split
  next hopens => exact h.delta hopens (htakes s)
  split
  · rw [append_nil]
    exact { h with }
  have hreopen := (h.reopen .text .text trivial).clearHeld
  have hheld : (andThen m.close fun m => m.openBlock .text .text).1.heldWhitespace =
      m.heldWhitespace := by
    rw [StreamMachine.reopen_fst]
  rw [← hheld]
  refine Shows.of_andThen (hreopen.delta ?_ (htakes _))
  simp [StreamMachine.clearHeld, StreamMachine.reopen_fst, StreamMachine.opens]

end

theorem toolStart {call : CallParts} {id name : String} (h : Shows m t events)
    (hnew : call.index ∉ m.toolIndices) (hid : call.id = some id) (hname : call.name = some name) :
    ∃ es, m.toolStart call = .ok (m.withTool call.index, es) ∧
      Shows (m.withTool call.index) (t.close.openBlock (.toolUse id name)) (events ++ es) := by
  have hreopen := h.clearHeld.reopen (.toolUse call.index) (.toolUse id name) trivial
  refine ⟨(andThen m.clearHeld.close fun m =>
    m.openBlock (.toolUse call.index) (.toolUse id name)).2, ?_, ?_⟩
  · rw [StreamMachine.toolStart, if_neg hnew, hid, hname]
    simp only [reopen_fst]
    rfl
  · rw [reopen_fst] at hreopen
    exact { hreopen with }

/-- **A tool call that is taken.** -/
theorem toolCall {call : Json} (h : Shows m t events) (hr : m.toolCall call = .ok r) :
    ∃ t', m.Takes t (callParts call) r.1 t' ∧ Shows r.1 t' (events ++ r.2) := by
  have htakes : ∀ (s : String) (c : ContentBlock), (Block.toolUse (callParts call).index).starts c →
      c.takes (.inputJson s) = true := by
    intro s c hc
    cases c <;> simp_all [Block.starts, takes]
  unfold StreamMachine.toolCall at hr
  generalize callParts call = parts at hr htakes ⊢
  by_cases hknown : parts.index ∈ m.toolIndices
  · rw [show m.toolStart parts = .ok (m, []) from if_pos hknown] at hr
    simp only [toolArguments] at hr
    cases harguments : parts.arguments with
    | none =>
      rw [harguments] at hr
      obtain rfl := Except.ok.inj hr
      exact ⟨t, .nothing hknown harguments, by simpa using h⟩
    | some arguments =>
      rw [harguments] at hr
      by_cases hopens : m.opens (.toolUse parts.index) = true
      · simp only [hopens, if_true, nil_append] at hr
        obtain rfl := Except.ok.inj hr
        rw [delta_fst]
        refine ⟨_, .continues hknown hopens harguments, ?_⟩
        have hdelta := h.delta hopens (htakes arguments)
        rwa [delta_fst] at hdelta
      · simp [hopens] at hr
  · cases hid : parts.id with
    | none => simp [StreamMachine.toolStart, hknown, hid] at hr
    | some id =>
      cases hname : parts.name with
      | none => simp [StreamMachine.toolStart, hknown, hid, hname] at hr
      | some =>
        obtain ⟨es, hstart, hshows⟩ := h.toolStart hknown hid hname
        have hopens : (m.withTool parts.index).opens (.toolUse parts.index) = true := by
          simp [withTool, opens]
        have htaken : m.Takes t parts (m.withTool parts.index) _ := .opens hknown hid hname
        rw [hstart] at hr
        simp only [toolArguments] at hr
        cases harguments : parts.arguments with
        | none =>
          rw [harguments] at hr htaken
          obtain rfl := Except.ok.inj hr
          exact ⟨_, htaken, by simpa [Transcript.beginCall] using hshows⟩
        | some arguments =>
          rw [harguments] at hr htaken
          simp only [hopens, if_true] at hr
          obtain rfl := Except.ok.inj hr
          refine ⟨_, htaken, ?_⟩
          have hdelta := hshows.delta hopens (htakes arguments)
          rwa [delta_fst, append_assoc] at hdelta

end Shows

variable {m m' : StreamMachine} {t t' : Transcript}

/-- A tool call that is refused could not be taken. -/
theorem StreamMachine.not_takes {call : Json} {message : String}
    (hr : m.toolCall call = .error message) (m' : StreamMachine) (t' : Transcript) :
    ¬ m.Takes t (callParts call) m' t' := by
  unfold toolCall at hr
  generalize callParts call = parts at hr ⊢
  rintro (⟨hnew, hid, hname⟩ | ⟨hknown, hopen, harguments⟩ | ⟨hknown, harguments⟩)
  · rw [toolStart, if_neg hnew, hid, hname] at hr
    cases harguments : parts.arguments <;>
      simp [reopen_fst, toolArguments, opens, harguments] at hr
  · rw [toolStart, if_pos hknown] at hr
    simp [toolArguments, hopen, harguments] at hr
  · rw [toolStart, if_pos hknown] at hr
    simp [toolArguments, harguments] at hr

/-! ## The pieces of a chunk -/

/-- A part of a chunk's delta, or its finish reason. -/
inductive Piece
  | reasoning (text : String)
  | content (text : String)
  | toolCall (call : CallParts)
  | finish (reason : String)

variable {ps : List Piece} {p : Piece}

/-- The pieces of a delta but for the tool calls. -/
def textPieces (delta : Json) : List Piece :=
  ((delta.getStr "reasoning_content").filter (· ≠ "")).toList.map .reasoning ++
    ((delta.getStr "content").filter (· ≠ "")).toList.map .content

def toolPieces (calls : List Json) : List Piece := calls.map (.toolCall ∘ callParts)

/-- The pieces of a chunk, in the order in which the machine takes them. -/
def pieces (chunk : Json) : List Piece :=
  match (chunk.getItems "choices").head? with
  | none => []
  | some choice =>
    let delta := (choice.get "delta").getD .null
    textPieces delta ++ toolPieces (delta.getItems "tool_calls") ++
      (choice.getStr "finish_reason").toList.map .finish

/-- A piece takes the machine and its transcript on. -/
inductive Writes (m : StreamMachine) (t : Transcript) : Piece → StreamMachine → Transcript → Prop
  | reasoning (s : String) : Writes m t (.reasoning s) (m.thinking s).1 (m.thinkingOn t s)
  | content (s : String) : Writes m t (.content s) (m.text s).1 (m.textOn t s)
  | toolCall {call : CallParts} {m' : StreamMachine} {t' : Transcript}
      (htakes : m.Takes t call m' t') : Writes m t (.toolCall call) m' t'
  | finish (reason : String) :
      Writes m t (.finish reason)
        { m with open_ := none, heldWhitespace := "", finishReason := some reason } t.close

inductive WritesAll : StreamMachine → Transcript → List Piece → StreamMachine → Transcript → Prop
  | nil {m : StreamMachine} {t : Transcript} : WritesAll m t [] m t
  | cons {m m₁ m₂ : StreamMachine} {t t₁ t₂ : Transcript} {p : Piece} {ps : List Piece}
      (hfirst : Writes m t p m₁ t₁) (hrest : WritesAll m₁ t₁ ps m₂ t₂) :
      WritesAll m t (p :: ps) m₂ t₂

theorem WritesAll.append {m₁ m₂ : StreamMachine} {t₁ t₂ : Transcript} {qs : List Piece}
    (h : WritesAll m t ps m₁ t₁) (h' : WritesAll m₁ t₁ qs m₂ t₂) :
    WritesAll m t (ps ++ qs) m₂ t₂ := by
  induction h with
  | nil => exact h'
  | cons hfirst _ ih => exact .cons hfirst (ih h')

theorem Writes.sameFrame (h : Writes m t p m' t') : SameFrame m m' := by
  cases h with
  | reasoning =>
    rw [thinking_fst]
    split <;> exact ⟨rfl, rfl, rfl, rfl, rfl⟩
  | content =>
    rw [text_fst]
    repeat' split
    all_goals exact ⟨rfl, rfl, rfl, rfl, rfl⟩
  | toolCall htakes => cases htakes <;> exact ⟨rfl, rfl, rfl, rfl, rfl⟩
  | finish => exact ⟨rfl, rfl, rfl, rfl, rfl⟩

theorem WritesAll.sameFrame (h : WritesAll m t ps m' t') : SameFrame m m' := by
  induction h with
  | nil => exact .refl _
  | cons hfirst _ ih => exact hfirst.sameFrame.trans ih

/-- Only a finish reason sets the finish reason. -/
theorem Writes.finishReason (h : Writes m t p m' t') (hsome : m'.finishReason.isSome = true) :
    m.finishReason.isSome = true ∨ ∃ reason, p = .finish reason := by
  cases h with
  | reasoning =>
    rw [thinking_fst] at hsome
    split at hsome <;> exact .inl hsome
  | content =>
    rw [text_fst] at hsome
    repeat' split at hsome
    all_goals exact .inl hsome
  | toolCall htakes => cases htakes <;> exact .inl hsome
  | finish reason => exact .inr ⟨reason, rfl⟩

theorem WritesAll.finishReason (h : WritesAll m t ps m' t')
    (hsome : m'.finishReason.isSome = true) :
    m.finishReason.isSome = true ∨ ∃ reason, .finish reason ∈ ps := by
  induction h with
  | nil => exact .inl hsome
  | cons hfirst _ ih =>
    obtain hbefore | ⟨reason, hmem⟩ := ih hsome
    · obtain hbefore | ⟨reason, rfl⟩ := hfirst.finishReason hbefore
      · exact .inl hbefore
      · exact .inr ⟨reason, by simp⟩
    · exact .inr ⟨reason, by simp [hmem]⟩

/-- The calls that were not taken: none, or those from the first that is refused on. -/
inductive Refuses (m : StreamMachine) (t : Transcript) : List Json → Option String → Prop
  | none : Refuses m t [] none
  | call {call : Json} {rest : List Json}
      (hcall : ∀ m' t', ¬ m.Takes t (callParts call) m' t') (message : String) :
      Refuses m t (call :: rest) (some message)

namespace Shows

variable {events : List Event}

/-- The tool calls of a chunk, up to the first that is refused. -/
theorem toolCalls (calls : List Json) :
    ∀ {m : StreamMachine} {t : Transcript} {events : List Event}, Shows m t events →
      ∃ t' taken rest, calls = taken ++ rest ∧
        WritesAll m t (toolPieces taken) (m.toolCalls calls).1.1 t' ∧
        Shows (m.toolCalls calls).1.1 t' (events ++ (m.toolCalls calls).1.2) ∧
        Refuses (m.toolCalls calls).1.1 t' rest (m.toolCalls calls).2 := by
  induction calls with
  | nil =>
    intro m t events h
    exact ⟨t, [], [], rfl, .nil, by simpa [StreamMachine.toolCalls] using h, .none⟩
  | cons call calls ih =>
    intro m t events h
    cases hcall : m.toolCall call with
    | error message =>
      refine ⟨t, [], call :: calls, rfl, ?_, ?_, ?_⟩
      · simpa [StreamMachine.toolCalls, toolPieces, hcall] using WritesAll.nil
      · simpa [StreamMachine.toolCalls, hcall] using h
      · simpa [StreamMachine.toolCalls, hcall] using
          Refuses.call (not_takes hcall) message
    | ok =>
      obtain ⟨t₁, htakes, hshows⟩ := h.toolCall hcall
      obtain ⟨t', taken, rest, rfl, hwrites, hshows', hrefuses⟩ := ih hshows
      refine ⟨t', call :: taken, rest, rfl, ?_, ?_, ?_⟩
      · simpa [StreamMachine.toolCalls, toolPieces, hcall] using
          WritesAll.cons (.toolCall htakes) hwrites
      · simpa [StreamMachine.toolCalls, hcall] using hshows'
      · simpa [StreamMachine.toolCalls, hcall] using hrefuses

section

variable (h : Shows m t events)
include h

theorem noteFinish (reason : String) :
    (m.noteFinish (some reason)).1 =
        { m with open_ := none, heldWhitespace := "", finishReason := some reason } ∧
      Shows (m.noteFinish (some reason)).1 t.close (events ++ (m.noteFinish (some reason)).2) := by
  constructor
  · simp [StreamMachine.noteFinish, andThen, StreamMachine.clearHeld, close_fst]
  · refine Shows.of_andThen ?_
    rw [append_nil]
    exact { h.close with }

theorem noteText (delta : Json) :
    ∃ t', WritesAll m t (textPieces delta) (m.noteText delta).1 t' ∧
      Shows (m.noteText delta).1 t' (events ++ (m.noteText delta).2) := by
  have hreasoning : ∀ reasoning : Option String, ∃ t',
      WritesAll m t (reasoning.toList.map .reasoning) (m.noteReasoning reasoning).1 t' ∧
        Shows (m.noteReasoning reasoning).1 t' (events ++ (m.noteReasoning reasoning).2) := by
    intro reasoning
    cases reasoning with
    | none => exact ⟨t, .nil, by simpa [noteReasoning] using h⟩
    | some s => exact ⟨_, .cons (.reasoning s) .nil, h.thinking s⟩
  obtain ⟨t₁, hwrites, hshows⟩ := hreasoning ((delta.getStr "reasoning_content").filter (· ≠ ""))
  unfold StreamMachine.noteText textPieces
  cases (delta.getStr "content").filter (· ≠ "") with
  | none =>
    refine ⟨t₁, ?_, of_andThen (by simpa [noteContent] using hshows)⟩
    simpa [noteContent, andThen] using hwrites
  | some s => exact ⟨_, hwrites.append (.cons (.content s) .nil), of_andThen (hshows.text s)⟩

/-- A delta, up to the first tool call that is refused. -/
theorem noteDelta (delta : Json) :
    ∃ t' taken rest, delta.getItems "tool_calls" = taken ++ rest ∧
      WritesAll m t (textPieces delta ++ toolPieces taken) (m.noteDelta delta).1.1 t' ∧
      Shows (m.noteDelta delta).1.1 t' (events ++ (m.noteDelta delta).1.2) ∧
      Refuses (m.noteDelta delta).1.1 t' rest (m.noteDelta delta).2 := by
  obtain ⟨t₁, hwrites₁, hshows₁⟩ := h.noteText delta
  obtain ⟨t₂, taken, rest, hcalls, hwrites₂, hshows₂, hrefuses⟩ :=
    hshows₁.toolCalls (delta.getItems "tool_calls")
  rw [append_assoc] at hshows₂
  exact ⟨t₂, taken, rest, hcalls, hwrites₁.append hwrites₂, hshows₂, hrefuses⟩

end

end Shows

/-! ## What a call can do -/

/-- The call tells that the chat stream is over. -/
def Input.ends : Input → Bool
  | .start => false
  | .data payload => payload = "[DONE]"
  | .end_ => true
  | .transportError => true

/-- The parsed chunk of an input, unless it reports an error. -/
def Input.chunk (codec : Codec) : Input → Option Json
  | .data payload =>
    if payload = "[DONE]" then none
    else (codec.fromStr payload).filter fun chunk => (errorObject chunk).isNone
  | _ => none

/-- The pieces of an input. -/
def Input.pieces (codec : Codec) (input : Input) : List Piece :=
  ((input.chunk codec).map Messages.pieces).getD []

def Input.usage (codec : Codec) (input : Input) : Option Json :=
  (input.chunk codec).bind fun chunk => (chunk.get "usage").bind anthropicUsage

/-- The machine has a finish reason and usage. -/
def StreamMachine.settled (m : StreamMachine) : Bool := m.finishReason.isSome && m.usage.isSome

/-- Why a call fails: it carries no chunk, or a tool call is refused. -/
inductive Fails (codec : Codec) (m : StreamMachine) (t : Transcript) (input : Input) :
    StreamMachine → Transcript → Prop
  | chunkless (hstart : input ≠ .start) (hchunk : input.chunk codec = none) :
      Fails codec m t input m t
  | refused {m' : StreamMachine} {t' : Transcript} {ps rest : List Piece} {call : CallParts}
      (hpieces : input.pieces codec = ps ++ .toolCall call :: rest)
      (hwrites : WritesAll m t ps m' t') (hcall : ∀ m'' t'', ¬ m'.Takes t' call m'' t'') :
      Fails codec m t input m' t'

theorem Fails.sameFrame {codec : Codec} {m m' : StreamMachine} {t t' : Transcript} {input : Input}
    (h : Fails codec m t input m' t') : SameFrame m m' := by
  cases h with
  | chunkless => exact .refl m
  | refused _ hwrites => exact hwrites.sameFrame

/-- What a call can do to a machine that has started and is not done. -/
inductive Fed (codec : Codec) (m : StreamMachine) (t : Transcript) (events : List Event)
    (input : Input) : StreamMachine → List Event → Prop
  | goesOn {m' : StreamMachine} {t' : Transcript} {es : List Event}
      (hwrites : WritesAll m t (input.pieces codec) m' t') (hshows : Shows m' t' (events ++ es))
      (hwaits : m.settled = false → (m'.withUsage (input.usage codec)).settled = false) :
      Fed codec m t events input (m'.withUsage (input.usage codec)) es
  | completes {m' : StreamMachine} {t' : Transcript} {es : List Event}
      (hwrites : WritesAll m t (input.pieces codec) m' t') (hshows : Shows m' t' (events ++ es))
      (hfinish : m'.finishReason.isSome = true)
      (hover : (m'.withUsage (input.usage codec)).settled = true ∨ input.ends = true) :
      Fed codec m t events input (m'.withUsage (input.usage codec)).complete.1
        (es ++ (m'.withUsage (input.usage codec)).complete.2)
  | fails {m' : StreamMachine} {t' : Transcript} {es : List Event} {errorType message : String}
      (hfails : Fails codec m t input m' t') (hshows : Shows m' t' (events ++ es)) :
      Fed codec m t events input { m' with done := true } (es ++ [.error errorType message])

section Fed

variable {codec : Codec} {events es : List Event} {input : Input}

theorem StreamMachine.complete_fst : m.complete.1 = { m with open_ := none, done := true } := by
  simp [complete, andThen, close_fst]

theorem Shows.complete (h : Shows m t events) :
    events ++ m.complete.2 = messageEvents m.messageId m.model t.close.closed none ++
      [.messageDelta (stopReason m.finishReason (!m.toolIndices.isEmpty))
        (m.usage.getD zeroUsage), .messageStop] := by
  have hclose := h.close.events_eq
  rw [Transcript.close_current, StreamMachine.close_fst] at hclose
  simp only [StreamMachine.complete, andThen, StreamMachine.close_fst]
  rw [← append_assoc, hclose]

/-- The usage of a chunk may complete the stream. -/
theorem fed_noteUsage (hwrites : WritesAll m t (input.pieces codec) m' t')
    (hshows : Shows m' t' (events ++ es)) :
    Fed codec m t events input (andThen (m', es) fun m => m.noteUsage (input.usage codec)).1
      (andThen (m', es) fun m => m.noteUsage (input.usage codec)).2 := by
  simp only [andThen, noteUsage]
  split
  next hboth => exact .completes hwrites hshows (Bool.and_eq_true_iff.mp hboth).1 (.inl hboth)
  next hnot =>
    rw [append_nil]
    exact .goesOn hwrites hshows fun _ => by simpa [settled] using hnot

theorem fed_onChunk {chunk : Json} (h : Shows m t events) (hchunk : input.chunk codec = some chunk)
    (herror : errorObject chunk = none) :
    Fed codec m t events input (m.onChunk codec chunk).1 (m.onChunk codec chunk).2 := by
  have hpieces : input.pieces codec = pieces chunk := by simp [Input.pieces, hchunk]
  have husage : input.usage codec = (chunk.get "usage").bind anthropicUsage := by
    simp [Input.usage, hchunk]
  unfold onChunk
  simp only [herror]
  rw [← husage]
  split
  next hchoice =>
    have hnone : WritesAll m t (input.pieces codec) m t := by
      rw [hpieces, pieces, hchoice]
      exact .nil
    have hself : Shows m t (events ++ []) := by simpa using h
    simpa [andThen] using fed_noteUsage hnone hself
  rename_i choice hchoice
  obtain ⟨t₁, taken, rest, hcalls, hwrites, hshows, hrefuses⟩ :=
    h.noteDelta ((choice.get "delta").getD .null)
  rw [pieces, hchoice] at hpieces
  simp only [hcalls] at hpieces
  generalize m.noteDelta ((choice.get "delta").getD .null) = r at hwrites hshows hrefuses ⊢
  obtain ⟨r, _⟩ := r
  cases hrefuses with
  | @call call rest hcall =>
    have hrefused : input.pieces codec =
        (textPieces ((choice.get "delta").getD .null) ++ toolPieces taken) ++
          .toolCall (callParts call) ::
            (toolPieces rest ++ (choice.getStr "finish_reason").toList.map .finish) := by
      rw [hpieces]
      simp [toolPieces]
    exact .fails (.refused hrefused hwrites hcall) hshows
  | none =>
    rw [append_nil] at hpieces
    cases hfinish : choice.getStr "finish_reason" with
    | none =>
      refine fed_noteUsage ?_ (by simpa [noteFinish, andThen] using hshows)
      rw [hpieces]
      simpa [hfinish, noteFinish, andThen] using hwrites
    | some reason =>
      obtain ⟨hmachine, hfinished⟩ := hshows.noteFinish reason
      rw [append_assoc] at hfinished
      refine fed_noteUsage ?_ hfinished
      rw [hpieces]
      refine hwrites.append ?_
      rw [hfinish, hmachine]
      exact .cons (.finish reason) .nil

theorem fed_finish (h : Shows m t events) (hchunk : input.chunk codec = none)
    (hends : input.ends = true) : Fed codec m t events input m.finish.1 m.finish.2 := by
  have hself : Shows m t (events ++ []) := by simpa using h
  have hnone : WritesAll m t (input.pieces codec) m t := by
    rw [Input.pieces, hchunk]
    exact .nil
  unfold finish
  split_ifs with hfinish
  · have hcompletes := Fed.completes hnone hself hfinish (.inr hends)
    simpa [Input.usage, hchunk, withUsage] using hcompletes
  · refine .fails (.chunkless ?_ hchunk) hself
    rintro rfl
    simp [Input.ends] at hends

/-- **One case for each kind of call.** -/
theorem fed_of_step {r : StreamMachine × List Event} (h : Shows m t events)
    (hstarted : m.started = true) (hdone : m.done = false) (hstep : m.step codec input = some r) :
    Fed codec m t events input r.1 r.2 := by
  have hself : Shows m t (events ++ []) := by simpa using h
  have hstart : m.start = (m, []) := by simp [start, hstarted]
  have of_some : ∀ {r' : StreamMachine × List Event}, some r' = some r →
      Fed codec m t events input r'.1 r'.2 → Fed codec m t events input r.1 r.2 := by
    intro r' hr' hfed
    rwa [some.inj hr'] at hfed
  cases input with
  | start =>
    have hgoes : Fed codec m t events .start _ [] := .goesOn .nil hself id
    refine of_some hstep ?_
    simpa [hstart, Input.usage, Input.chunk, withUsage] using hgoes
  | data payload =>
    refine of_some hstep ?_
    simp [onData, hstart, andThen, hdone]
    by_cases hend : payload = "[DONE]"
    · rw [if_pos hend]
      exact fed_finish h (by simp [Input.chunk, hend]) (by simp [Input.ends, hend])
    rw [if_neg hend]
    cases hchunk : codec.fromStr payload with
    | none => exact .fails (.chunkless (by simp) (by simp [Input.chunk, hend, hchunk])) hself
    | some chunk =>
      cases herror : errorObject chunk with
      | none => exact fed_onChunk h (by simp [Input.chunk, hend, hchunk, herror]) herror
      | some =>
        simp only [onChunk, herror]
        refine .fails (.chunkless (by simp) ?_) hself
        simp [Input.chunk, hend, hchunk, herror]
  | end_ =>
    refine of_some hstep ?_
    simp [onEnd, hstart, andThen, hdone]
    exact fed_finish h rfl rfl
  | transportError =>
    refine of_some hstep ?_
    simp [onTransportError, hstart, andThen, hdone]
    exact .fails (.chunkless (by simp) rfl) hself

end Fed

/-! ## Whole runs -/

/-- A machine that has started and is not done. -/
structure Running (messageId model : String) (m : StreamMachine) (t : Transcript)
    (events : List Event) : Prop where
  started : m.started = true
  done : m.done = false
  messageId_eq : m.messageId = messageId
  model_eq : m.model = model
  shows : Shows m t events

/-- The machine and the events after some calls. -/
inductive Stage (messageId model : String) (m : StreamMachine) (events : List Event) : Prop
  | fresh (hm : m = .new messageId model) (hevents : events = [])
  | running (t : Transcript) (hrunning : Running messageId model m t events)
  | ended (hstarted : m.started = true) (hdone : m.done = true)
      (hwell : WellFormed messageId model events)

section Runs

variable {codec : Codec} {messageId model : String} {events : List Event} {input : Input}
  {r : StreamMachine × List Event} {inputs : List Input}

theorem step_of_done (hstarted : m.started = true) (hdone : m.done = true) :
    m.step codec input = some (m, []) := by
  cases input <;>
    simp [step, onData, onEnd, onTransportError, start, andThen, hstarted, hdone]

/-- The first call begins with the `message_start`. -/
theorem step_of_fresh (hstarted : m.started = false) (hstep : m.step codec input = some r) :
    ∃ es, step codec { m with started := true } input = some (r.1, es) ∧
      r.2 = .messageStart m.messageId m.model :: es := by
  cases input <;>
  · cases hstep
    simp [step, onData, onEnd, onTransportError, start, andThen, hstarted]

theorem done_of_ends (hends : input.ends = true) (hstep : m.step codec input = some r) :
    r.1.done = true := by
  have hfinish : ∀ m : StreamMachine, m.finish.1.done = true := by
    intro m
    unfold finish
    split <;> rfl
  cases input with
  | start => simp [Input.ends] at hends
  | data payload =>
    obtain rfl : payload = "[DONE]" := by simpa [Input.ends] using hends
    cases hstep
    simp only [onData, andThen, if_true]
    split
    · assumption
    · exact hfinish _
  | end_ =>
    cases hstep
    simp only [onEnd, andThen]
    split
    · assumption
    · exact hfinish _
  | transportError =>
    cases hstep
    simp only [onTransportError, andThen]
    split
    · assumption
    · rfl

/-- The machine once it has started. -/
def StreamMachine.begun (messageId model : String) : StreamMachine :=
  { new messageId model with started := true }

theorem running_begun (messageId model : String) :
    Running messageId model (.begun messageId model) ⟨[], none⟩
        [.messageStart messageId model] := by
  refine ⟨rfl, rfl, rfl, rfl, rfl, rfl, fun _ => rfl, by simp, by simp [Transcript.all]⟩

/-- The first call is fed to the machine once it has started. -/
theorem fed_of_new (hstep : (new messageId model).step codec input = some r) :
    ∃ es, Fed codec (.begun messageId model) ⟨[], none⟩ [.messageStart messageId model] input
      r.1 es ∧ r.2 = .messageStart messageId model :: es := by
  obtain ⟨es, hstarted, hes⟩ := step_of_fresh rfl hstep
  exact ⟨es, fed_of_step (running_begun messageId model).shows rfl rfl hstarted, hes⟩

/-- A call of a machine that is not done is fed to a machine that has started. -/
theorem Stage.fed (h : Stage messageId model m events) (hdone : m.done = false)
    (hstep : m.step codec input = some r) :
    ∃ m₀ t before es, Running messageId model m₀ t before ∧ m₀.finishReason = m.finishReason ∧
      Fed codec m₀ t before input r.1 es ∧ events ++ r.2 = before ++ es := by
  cases h with
  | fresh hm hevents =>
    subst hm hevents
    obtain ⟨es, hfed, hes⟩ := fed_of_new hstep
    exact ⟨_, _, _, es, running_begun messageId model, rfl, hfed, by simp [hes]⟩
  | running t hrunning =>
    exact ⟨m, t, events, r.2, hrunning, rfl,
      fed_of_step hrunning.shows hrunning.started hrunning.done hstep, rfl⟩
  | ended _ hended => cases hended.symm.trans hdone

theorem Running.stage {m' : StreamMachine} {es : List Event}
    (h : Running messageId model m t events) (hfed : Fed codec m t events input m' es) :
    Stage messageId model m' (events ++ es) := by
  cases hfed with
  | goesOn hwrites hshows =>
    have hframe := hwrites.sameFrame
    exact .running _ ⟨hframe.started.trans h.started, hframe.done.trans h.done,
      hframe.messageId.trans h.messageId_eq, hframe.model.trans h.model_eq,
      { hshows with }⟩
  | @completes m' t' es hwrites hshows =>
    have hframe := hwrites.sameFrame
    have hused : Shows (m'.withUsage (input.usage codec)) t' (events ++ es) :=
      { hshows with }
    rw [complete_fst, ← append_assoc, hused.complete]
    refine .ended (hframe.started.trans h.started) rfl ?_
    rw [← h.messageId_eq, ← h.model_eq, ← hframe.messageId, ← hframe.model]
    refine .completed _ ?_ _ _
    intro r hr
    exact hshows.close.fits r (by simp [Transcript.all, hr])
  | @fails _ _ _ _ _ hfails hshows =>
    have hframe := hfails.sameFrame
    refine .ended (hframe.started.trans h.started) rfl ?_
    rw [← append_assoc, hshows.events_eq, hframe.messageId, hframe.model, h.messageId_eq,
      h.model_eq]
    exact .failed _ _ hshows.fits _ _

theorem Stage.started_of_done (h : Stage messageId model m events) (hdone : m.done = true) :
    m.started = true := by
  cases h with
  | fresh hm => exact absurd (hm ▸ hdone) (by simp [new])
  | running _ hrunning => exact hrunning.started
  | ended hstarted => exact hstarted

/-- **One call.** -/
theorem Stage.next (h : Stage messageId model m events) (hstep : m.step codec input = some r) :
    Stage messageId model r.1 (events ++ r.2) := by
  cases hdone : m.done with
  | false =>
    obtain ⟨m₀, t, _, es, hrunning, -, hfed, hevents⟩ := h.fed hdone hstep
    rw [hevents]
    exact hrunning.stage hfed
  | true =>
    cases (step_of_done (h.started_of_done hdone) hdone).symm.trans hstep
    rwa [append_nil]

theorem Running.started_next {m' : StreamMachine} {es : List Event}
    (h : Running messageId model m t events) (hfed : Fed codec m t events input m' es) :
    m'.started = true := by
  cases hfed with
  | goesOn hwrites => exact hwrites.sameFrame.started.trans h.started
  | completes hwrites =>
    rw [complete_fst]
    exact hwrites.sameFrame.started.trans h.started
  | fails hfails => exact hfails.sameFrame.started.trans h.started

/-- A machine has started once it was called. -/
theorem Stage.started_next (h : Stage messageId model m events)
    (hstep : m.step codec input = some r) : r.1.started = true := by
  cases hdone : m.done with
  | false =>
    obtain ⟨m₀, t, _, es, hrunning, -, hfed, -⟩ := h.fed hdone hstep
    exact hrunning.started_next hfed
  | true =>
    have hstarted := h.started_of_done hdone
    cases (step_of_done hstarted hdone).symm.trans hstep
    exact hstarted

section

variable (h : runs (step codec) (.new messageId model) inputs = some (m, events))
include h

theorem stage_of_runs : Stage messageId model m events :=
  runs_induction (fun _ events m => Stage messageId model m events) (.fresh rfl rfl)
    (fun _ _ _ _ _ _ _ hstage hstep => hstage.next hstep) inputs events m h

theorem eq_nil_of_runs : m.started = true ∨ inputs = [] := by
  refine runs_induction (fun inputs _ m => m.started = true ∨ inputs = []) (.inr rfl) ?_
    inputs events m h
  intro inputs events m _ m' es hrun _ hstep
  exact .inl ((stage_of_runs hrun).started_next hstep)

end

/-- Once the machine is done, nothing is added. -/
theorem runs_of_done (hstarted : m.started = true) (hdone : m.done = true) (more : List Input) :
    runs (step codec) m more = some (m, []) := by
  induction more with
  | nil => rfl
  | cons _ more ih => simp [runs, step_of_done hstarted hdone, ih]

variable (codec) in
theorem runs_total (inputs : List Input) :
    ∀ m : StreamMachine, ∃ r, runs (step codec) m inputs = some r := by
  induction inputs with
  | nil => exact fun m => ⟨(m, []), rfl⟩
  | cons input inputs ih =>
    intro m
    obtain ⟨r, hr⟩ : ∃ r, m.step codec input = some r := by cases input <;> exact ⟨_, rfl⟩
    obtain ⟨r', hr'⟩ := ih r.1
    exact ⟨(r'.1, r.2 ++ r'.2), by simp [runs, hr, hr']⟩

section

variable (h : runs (step codec) (.new messageId model) inputs = some (m, events))
include h

/-- A chat stream that is over leaves the machine done. -/
theorem done_of_runs : (∃ input ∈ inputs, input.ends = true) → m.done = true := by
  refine runs_induction (fun inputs _ m =>
    (∃ input ∈ inputs, input.ends = true) → m.done = true) (by simp) ?_ inputs events m h
  rintro inputs events m input m' es hrun ih hstep ⟨i, hi, hends⟩
  rcases mem_append.mp hi with hi | hi
  · have hdone := ih ⟨i, hi, hends⟩
    have hstarted := (stage_of_runs hrun).started_of_done hdone
    obtain ⟨rfl, rfl⟩ := Prod.mk.inj
      (some.inj ((step_of_done hstarted hdone).symm.trans hstep))
    exact hdone
  · obtain rfl := mem_singleton.mp hi
    exact done_of_ends hends hstep

/-- Without a finish reason a stream ends in an error. -/
theorem error_of_runs (hnone : ∀ input ∈ inputs, ∀ reason, .finish reason ∉ input.pieces codec) :
    (m.done = false → m.finishReason = none) ∧ (m.done = true → ∃ before errorType message,
        events = before ++ [.error errorType message]) := by
  refine runs_induction (fun inputs events m =>
    (∀ input ∈ inputs, ∀ reason, .finish reason ∉ input.pieces codec) →
    (m.done = false → m.finishReason = none) ∧ (m.done = true → ∃ before errorType message,
        events = before ++ [.error errorType message])) ?_ ?_ inputs events m h hnone
  · exact fun _ => ⟨fun _ => rfl, by simp [new]⟩
  · intro inputs events m input m' es hrun ih hstep hnone
    obtain ⟨hopen, herror⟩ := ih fun i hi => hnone i (by simp [hi])
    have hstage := stage_of_runs hrun
    cases hdone : m.done with
    | true =>
      have hstarted := hstage.started_of_done hdone
      obtain ⟨rfl, rfl⟩ := Prod.mk.inj
        (some.inj ((step_of_done hstarted hdone).symm.trans hstep))
      rw [append_nil]
      exact ⟨by simp [hdone], herror⟩
    | false =>
      obtain ⟨m₀, t, before, _, hrunning, hsame, hfed, hevents⟩ := hstage.fed hdone hstep
      have hstill : ∀ {m'' : StreamMachine} {t' : Transcript},
          WritesAll m₀ t (input.pieces codec) m'' t' → m''.finishReason = none := by
        intro m'' t' hwrites
        by_contra hsome
        obtain hbefore | ⟨reason, hmem⟩ := hwrites.finishReason (isSome_iff_ne_none.mpr hsome)
        · simp [hsame, hopen hdone] at hbefore
        · exact hnone input (by simp) reason hmem
      rw [hevents]
      cases hfed with
      | goesOn hwrites =>
        refine ⟨fun _ => (hstill hwrites :), ?_⟩
        intro hend
        rw [show _ = m₀.done from hwrites.sameFrame.done, hrunning.done] at hend
        cases hend
      | completes hwrites _ hfinish => simp [hstill hwrites] at hfinish
      | @fails _ _ es'' errorType message =>
        exact ⟨by simp, fun _ => ⟨before ++ es'', errorType, message, by simp⟩⟩

end

/-- **The events of a Messages stream are well formed.**  Whatever the machine is fed: once
it is done, its events are a `message_start`, blocks with consecutive indices, each closed
before the next is opened, and one ending, and nothing is ever added; before that, they
are such a stream that has not ended.  A chat stream that is over leaves the machine done,
and without a finish reason the ending is an error. -/
theorem message_events_wellFormed (codec : Codec) (messageId model : String) (inputs : List Input) :
    ∃ m events, runs (step codec) (.new messageId model) inputs = some (m, events) ∧
      (m.done = true → WellFormed messageId model events ∧ ∀ more,
        runs (step codec) (.new messageId model) (inputs ++ more) = some (m, events)) ∧
      (m.done = false → (inputs = [] ∧ events = []) ∨
        ∃ closed cut, (∀ r ∈ closed ++ cut.toList, r.Fits) ∧
          events = messageEvents messageId model closed cut) ∧
      ((∃ input ∈ inputs, input.ends = true) → m.done = true) ∧
      ((∀ input ∈ inputs, ∀ reason, .finish reason ∉ input.pieces codec) → m.done = true →
        ∃ before errorType message, events = before ++ [.error errorType message]) := by
  obtain ⟨⟨m, events⟩, hrun⟩ := runs_total codec inputs (.new messageId model)
  refine ⟨m, events, hrun, ?_, ?_, ?_, fun hnone => (error_of_runs hrun hnone).2⟩
  · intro hdone
    cases stage_of_runs hrun with
    | fresh hm => exact absurd (hm ▸ hdone) (by simp [new])
    | running _ hrunning => cases hrunning.done.symm.trans hdone
    | ended hstarted _ hwell =>
      refine ⟨hwell, fun more => ?_⟩
      rw [runs_append_eq_some]
      exact ⟨m, events, [], hrun, runs_of_done hstarted hdone more, by simp⟩
  · intro hdone
    cases stage_of_runs hrun with
    | fresh hm hevents =>
      refine .inl ⟨(eq_nil_of_runs hrun).resolve_left ?_, hevents⟩
      simp [hm, new]
    | running t hrunning =>
      refine .inr ⟨t.closed, t.current, hrunning.shows.fits, ?_⟩
      rw [hrunning.shows.events_eq, hrunning.messageId_eq, hrunning.model_eq]
    | ended _ hended => cases hended.symm.trans hdone
  · exact done_of_runs hrun

end Runs

end Sie.Gateway.Messages
