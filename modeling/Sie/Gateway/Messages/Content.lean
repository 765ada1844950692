import Sie.Gateway.Messages.Transcript

/-!
# The Message that the events fold to

A client folds the events of a stream into a Message: a block is appended when it starts,
and its deltas are joined.  On a transcript this is `Transcript.content`, the blocks as
they are once the open one is closed; a piece of a chunk puts its text to the last block
or to a new one.
-/

namespace Sie.Gateway.Messages

open Sie.Lib BlockRun Transcript StreamMachine List

/-! ## The Message a client puts together -/

/-- A content block with what its deltas add up to. -/
structure Built where
  block : ContentBlock
  body : String
  signature : String
  deriving DecidableEq

namespace Built

def add (b : Built) : Delta → Built
  | .text s | .thinking s | .inputJson s => { b with body := b.body ++ s }
  | .signature s => { b with signature := b.signature ++ s }

/-- The block as JSON.  The input of a tool is parsed from all of its partial JSON. -/
def json (codec : Codec) (b : Built) : Except String Json :=
  match b.block with
  | .text => .ok (textBlock b.body)
  | .thinking => .ok (thinkingBlock b.body b.signature)
  | .toolUse id name => (toolInput codec b.body).map (toolUseBlock id name)

end Built

/-- The Message so far. -/
structure Snapshot where
  id : String
  model : String
  content : List Built
  stopReason : Option String
  usage : Json

/-- An event is added to the Message. -/
def accumulate (s : Option Snapshot) : Event → Option Snapshot
  | .messageStart id model => some ⟨id, model, [], none, zeroUsage⟩
  | .contentBlockStart _ block =>
    s.map fun s => { s with content := s.content ++ [⟨block, "", ""⟩] }
  | .contentBlockDelta index delta =>
    s.map fun s => { s with content := s.content.modify index (Built.add · delta) }
  | .messageDelta stopReason usage => s.map fun s => { s with stopReason := stopReason, usage }
  | .contentBlockStop _ | .messageStop | .error _ _ => s

/-- The Message of a list of events. -/
def folded (events : List Event) : Option Snapshot := events.foldl accumulate none

/-- The Message as JSON. -/
def Snapshot.message (codec : Codec) (s : Snapshot) : Except String Json := do
  let content ← s.content.mapM (Built.json codec)
  return .obj [("id", .str s.id), ("type", .str "message"), ("role", .str "assistant"),
    ("model", .str s.model), ("content", .arr content),
    ("stop_reason", (s.stopReason.map .str).getD .null), ("stop_sequence", .null),
    ("usage", s.usage)]

section

variable (r : BlockRun)

/-- What the deltas of a block add up to. -/
def BlockRun.built : Built := r.deltas.foldl Built.add ⟨r.block, "", ""⟩

theorem BlockRun.built_add (d : Delta) : (r.add d).built = r.built.add d := by
  simp [built, add]

theorem BlockRun.built_block : r.built.block = r.block := by
  have hfold : ∀ (ds : List Delta) (b : Built), (ds.foldl Built.add b).block = b.block := by
    intro ds
    induction ds with
    | nil => exact fun _ => rfl
    | cons d ds ih =>
      intro b
      rw [foldl_cons, ih]
      cases d <;> rfl
  exact hfold r.deltas _

/-- A block as it is closed. -/
def BlockRun.sealed : BlockRun :=
  if r.block = .thinking then r.add (.signature thinkingSignature) else r

end

variable {d : Delta}

theorem BlockRun.built_sealed_add (r : BlockRun) (hd : ∀ s, d ≠ .signature s) :
    (r.add d).sealed.built = r.sealed.built.add d := by
  have hcomm : ∀ (b : Built) (s : String),
      (b.add d).add (.signature s) = (b.add (.signature s)).add d := by
    intro b s
    cases d with
    | signature s' => exact absurd rfl (hd s')
    | _ => rfl
  have hadd : (r.add d).block = r.block := rfl
  rw [sealed, sealed, hadd]
  split
  · simp only [built_add]
    exact hcomm _ _
  · exact r.built_add d

section Folding

variable {s : Snapshot}

theorem modify_concat {α : Type} (as : List α) (a : α) (f : α → α) :
    (as ++ [a]).modify as.length f = as ++ [f a] := by
  induction as with
  | nil => rfl
  | cons a as ih => simp [ih]

theorem accumulate_deltas (index : ℕ) (deltas : List Delta) {before : List Built} {b : Built}
    (hcontent : s.content = before ++ [b]) (hindex : before.length = index) :
    (deltas.map (Event.contentBlockDelta index)).foldl accumulate (some s) =
      some { s with content := before ++ [deltas.foldl Built.add b] } := by
  induction deltas generalizing s b with
  | nil => simp [← hcontent]
  | cons d deltas ih =>
    simp [accumulate]
    rw [ih (b := b.add d)]
    rw [hcontent, ← hindex]
    exact modify_concat before b _

theorem accumulate_opening (r : BlockRun) :
    (r.opening s.content.length).foldl accumulate (some s) =
      some { s with content := s.content ++ [r.built] } := by
  simp [opening, accumulate]
  rw [accumulate_deltas _ _ rfl rfl]
  rfl

theorem accumulate_blocksFrom (rs : List BlockRun) :
    (blocksFrom s.content.length rs).foldl accumulate (some s) =
      some { s with content := s.content ++ rs.map built } := by
  induction rs generalizing s with
  | nil => simp [blocksFrom]
  | cons r rs ih =>
    have hnext := ih (s := { s with content := s.content ++ [r.built] })
    simp at hnext
    simp only [blocksFrom, whole, foldl_append, accumulate_opening, foldl_cons,
      foldl_nil, accumulate, hnext]
    simp

/-- The Message of the events before the ending. -/
theorem folded_messageEvents (messageId model : String) (closed : List BlockRun) :
    folded (messageEvents messageId model closed none) =
      some ⟨messageId, model, closed.map built, none, zeroUsage⟩ := by
  have hblocks := accumulate_blocksFrom (s := ⟨messageId, model, [], none, zeroUsage⟩) closed
  simpa [folded, messageEvents, accumulate] using hblocks

theorem folded_completed (messageId model : String) (closed : List BlockRun) (stopReason : String)
    (usage : Json) :
    folded (messageEvents messageId model closed none ++
        [.messageDelta stopReason usage, .messageStop]) =
      some ⟨messageId, model, closed.map built, some stopReason, usage⟩ := by
  rw [folded, foldl_append, ← folded, folded_messageEvents]
  rfl

end Folding

/-! ## The content of a transcript -/

namespace Transcript

/-- The blocks of a transcript, as they are once the open one is closed. -/
def content (t : Transcript) : List Built := t.close.closed.map built

variable {t : Transcript}

@[simp] theorem content_close : t.close.content = t.content := by
  have hclosed : t.close.close = t.close := by
    conv_lhs => rw [close]
    rw [close_current]
  rw [content, hclosed, content]

/-- A block that was just opened. -/
def fresh (block : ContentBlock) : Built :=
  ⟨block, "", if block = .thinking then thinkingSignature else ""⟩

theorem content_openBlock (block : ContentBlock) :
    (t.close.openBlock block).content = t.content ++ [fresh block] := by
  by_cases hblock : block = .thinking <;>
    simp [content, openBlock, close, hblock, fresh, built, add, Built.add]

/-- A delta goes to the last block. -/
theorem content_write {r : BlockRun} (hcurrent : t.current = some r) (hd : ∀ s, d ≠ .signature s) :
    ∃ before b, t.content = before ++ [b] ∧ b.block = r.block ∧
      (t.write d).content = before ++ [b.add d] := by
  refine ⟨t.closed.map built, r.sealed.built, ?_, ?_, ?_⟩
  · simp [content, close, hcurrent, sealed]
  · rw [built_block, sealed]
    split <;> rfl
  · rw [← built_sealed_add r hd]
    simp [content, close, write, hcurrent, sealed]

theorem content_openBlock_write {block : ContentBlock} (hd : ∀ s, d ≠ .signature s) :
    ((t.close.openBlock block).write d).content = t.content ++ [(fresh block).add d] := by
  obtain ⟨_, b, hcontent, _, hwrite⟩ :=
    content_write (t := t.close.openBlock block) (r := ⟨block, []⟩) rfl hd
  rw [content_openBlock] at hcontent
  obtain ⟨rfl, rfl⟩ := append_singleton_inj.mp hcontent.symm
  exact hwrite

end Transcript

/-! ## What a piece does to the content -/

namespace Built

/-- Text is added to a block. -/
def write (b : Built) (s : String) : Built := { b with body := b.body ++ s }

def isTool (b : Built) : Bool :=
  match b.block with
  | .toolUse _ _ => true
  | _ => false

end Built

/-- The characters of the blocks of one kind, joined. -/
def charsOf (block : ContentBlock) (content : List Built) : List Char :=
  content.flatMap fun b => if b.block = block then b.body.toList else []

def toolsOf (content : List Built) : List Built := content.filter Built.isTool

/-- A text is put to a block: to the last one if that is open, else to a new one. -/
inductive Puts (block : ContentBlock) (s : String) (content : List Built) : Bool → List Built → Prop
  | last {before : List Built} {b : Built} (hcontent : content = before ++ [b])
      (hblock : b.block = block) : Puts block s content true (before ++ [b.write s])
  | opens : Puts block s content false (content ++ [(fresh block).write s])

namespace Puts

variable {block : ContentBlock} {s : String} {content content' : List Built} {opened : Bool}

section

variable (h : Puts block s content opened content')
include h

theorem charsOf_eq : charsOf block content' = charsOf block content ++ s.toList := by
  cases h with
  | last hcontent hblock => simp [hcontent, charsOf, Built.write, hblock]
  | opens => simp [charsOf, Built.write, fresh]

theorem charsOf_of_ne (block' : ContentBlock)
    (hne : block ≠ block') : charsOf block' content' = charsOf block' content := by
  cases h with
  | last hcontent hblock => simp [hcontent, charsOf, Built.write, hblock, hne]
  | opens => simp [charsOf, Built.write, fresh, hne]

theorem toolsOf_eq
    (hne : ∀ id name, block ≠ .toolUse id name) : toolsOf content' = toolsOf content := by
  have hnot : ∀ b : Built, b.block = block → b.isTool = false := by
    rintro b rfl
    unfold Built.isTool
    split
    next id name hb => exact absurd hb (hne id name)
    · rfl
  cases h with
  | @last _ b hcontent hblock =>
    simp [hcontent, toolsOf, hnot b hblock, hnot (b.write s) hblock]
  | opens => simp [toolsOf, hnot ((fresh block).write s) rfl]

end

end Puts

theorem Transcript.content_beginCall (t : Transcript) (id name : String)
    (arguments : Option String) : (t.beginCall id name arguments).content =
      t.content ++ [(fresh (.toolUse id name)).write (arguments.getD "")] := by
  cases arguments with
  | none =>
    rw [beginCall, content_openBlock]
    simp [Built.write]
  | some arguments =>
    rw [beginCall, content_openBlock_write (by simp)]
    rfl

/-- The block that the machine holds open is the current one of the transcript. -/
def Linked (m : StreamMachine) (t : Transcript) : Prop :=
  ∀ block index, m.open_ = some (block, index) → ∃ r, t.current = some r ∧ block.starts r.block

namespace Linked

variable {m m' : StreamMachine} {t t' : Transcript} {p : Piece}

section

variable (h : Linked m t)
include h

theorem current {block : Block} (hopens : m.opens block = true) :
    ∃ r, t.current = some r ∧ block.starts r.block := by
  obtain ⟨index, hopen⟩ := (m.opens_iff block).mp hopens
  exact h block index hopen

theorem puts_thinking (s : String) :
    Puts .thinking s t.content (m.opens .thinking) (m.thinkingOn t s).content := by
  unfold thinkingOn
  split_ifs with hopens
  · obtain ⟨r, hcurrent, _⟩ := h.current hopens
    obtain ⟨_, b, hcontent, _, hwrite⟩ := content_write (d := .thinking s) hcurrent (by simp)
    rw [hwrite, hopens]
    refine .last hcontent ?_
    cases hr : r.block <;> simp_all [Block.starts]
  · rw [content_openBlock_write (by simp), Bool.eq_false_iff.mpr hopens]
    exact .opens

/-- Text that is not held back goes to a text block, after the whitespace that was. -/
theorem puts_text (s : String) (hshown : m.opens .text = true ∨ isBlank s = false)
    (hheld : m.opens .text = true → m.heldWhitespace = "") :
    Puts .text (m.heldWhitespace ++ s) t.content (m.opens .text) (m.textOn t s).content := by
  unfold textOn
  split
  next hopens =>
    obtain ⟨r, hcurrent, _⟩ := h.current hopens
    obtain ⟨_, b, hcontent, _, hwrite⟩ := content_write (d := .text s) hcurrent (by simp)
    rw [hwrite, hheld hopens, String.empty_append, hopens]
    refine .last hcontent ?_
    cases hr : r.block <;> simp_all [Block.starts]
  next hopens =>
    rw [if_neg (by simpa [hopens] using hshown)]
    rw [content_openBlock_write (by simp), Bool.eq_false_iff.mpr hopens]
    exact .opens

/-- The arguments of a tool call go to the last block. -/
theorem puts_arguments {index : ℕ} (hopens : m.opens (.toolUse index) = true) (arguments : String) :
    ∃ before b, t.content = before ++ [b] ∧ b.isTool = true ∧
      (t.write (.inputJson arguments)).content = before ++ [b.write arguments] := by
  obtain ⟨r, hcurrent, _⟩ := h.current hopens
  obtain ⟨before, b, hcontent, _, hwrite⟩ :=
    content_write (d := .inputJson arguments) hcurrent (by simp)
  refine ⟨before, b, hcontent, ?_, hwrite⟩
  cases hr : r.block <;> simp_all [Block.starts, Built.isTool]

/-- A link is kept by every piece. -/
theorem next (hwrites : Writes m t p m' t') : Linked m' t' := by
  intro block index hopen
  have hwrite : ∀ (t : Transcript) (d : Delta) (block : Block),
      (∃ r, t.current = some r ∧ block.starts r.block) →
        ∃ r, (t.write d).current = some r ∧ block.starts r.block := by
    rintro t d block ⟨r, hcurrent, hstarts⟩
    exact ⟨r.add d, by simp [write, hcurrent], hstarts⟩
  cases hwrites with
  | reasoning =>
    rw [thinking_fst] at hopen
    unfold thinkingOn
    split_ifs at hopen with hopens
    · rw [if_pos hopens]
      exact hwrite _ _ _ (h block index hopen)
    cases hopen
    rw [if_neg hopens]
    exact hwrite _ _ _ ⟨_, rfl, trivial⟩
  | content =>
    rw [text_fst] at hopen
    unfold textOn
    split at hopen
    next hopens =>
      rw [if_pos hopens]
      exact hwrite _ _ _ (h block index hopen)
    rename_i hopens
    rw [if_neg hopens]
    split_ifs at hopen with hblank
    · rw [if_pos hblank]
      exact h block index hopen
    cases hopen
    rw [if_neg hblank]
    exact hwrite _ _ _ ⟨_, rfl, trivial⟩
  | @toolCall call _ _ htakes =>
    cases htakes with
    | opens =>
      cases hopen
      cases call.arguments with
      | none => exact ⟨_, rfl, trivial⟩
      | some => exact hwrite _ _ _ ⟨_, rfl, trivial⟩
    | continues => exact hwrite _ _ _ (h block index hopen)
    | nothing => exact h block index hopen
  | finish => simp at hopen

end

end Linked

end Sie.Gateway.Messages
