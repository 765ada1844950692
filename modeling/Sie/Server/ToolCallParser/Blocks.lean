import Sie.Server.ToolCallParser

/-!
# The blocks of a text

A whole text, read with the two tags, is a list of characters outside and inside of blocks,
and of tags (`toolMarkers`, `Markers.scan`).  `Progress.read` goes over these marks and says
which text and which calls they are, and what a malformed block raises.  Both parsers are
compared with it: the one-shot parser on a whole text, the streaming parser on what it has
read so far.
-/

namespace Sie.Server

open Sie.Lib List

variable {Λ : Type} {rest : List Char}

/-- The tags.  The mode says whether a block is open. -/
def toolMarkers : Markers Bool Char where
  head := '<'
  of inTool := if inTool then [(toolClose, false)] else [(toolOpen, true)]
  sharp inTool p hp := by
    cases inTool <;> simp at hp <;> subst hp
    · exact ⟨_, rfl, by decide⟩
    · exact ⟨_, rfl, by decide⟩
  prefixFree inTool p hp q hq _ := by
    cases inTool <;> simp at hp hq <;> rw [hp, hq]

theorem mem_toolMarkers {inTool : Bool} {q : List Char × Bool} :
    q ∈ toolMarkers.of inTool ↔ q = if inTool then (toolClose, false) else (toolOpen, true) := by
  cases inTool <;> simp [toolMarkers]

/-- The tag that ends a mode. -/
def toolTag (inTool : Bool) : List Char := if inTool then toolClose else toolOpen

theorem meets_tag (inTool : Bool) {i : ℕ} (h : find (toolTag inTool) rest = some i) :
    toolMarkers.Meets inTool rest i (toolTag inTool, !inTool) := by
  obtain ⟨hhere, hfirst⟩ := find_eq_some h
  have hmem : ∀ q, q ∈ toolMarkers.of inTool ↔ q = (toolTag inTool, !inTool) := by
    intro q
    rw [mem_toolMarkers]
    cases inTool <;> rfl
  refine ⟨(hmem _).mpr rfl, hhere, fun j hj q hq => ?_⟩
  rw [(hmem q).mp hq]
  exact hfirst j hj

theorem free_tag (inTool : Bool) (h : find (toolTag inTool) rest = none) :
    toolMarkers.Free inTool rest := by
  intro j q hq
  rw [mem_toolMarkers] at hq
  subst hq
  cases inTool <;> exact find_eq_none h j

/-! ### Reading marks -/

/-- A tool call of a stream. -/
structure Call where
  index : ℕ
  name : String
  arguments : String
  deriving DecidableEq

/-- The deltas of a call, without its identifier. -/
def Call.deltas (c : Call) : List ToolCallDelta :=
  [{ index := c.index, functionName := some c.name },
    { index := c.index, argumentsDelta := c.arguments }]

/-- What the marks of a text are, so far. -/
structure Progress where
  text : List Char := []
  /-- The text of the open block. -/
  body : List Char := []
  inTool : Bool := false
  calls : List Call := []
  /-- What a malformed block raises. -/
  failure : Option PayloadError := none
  deriving DecidableEq

namespace Progress

section

variable (p : ToolCallParser) (g : Progress)

/-- The end of a block. -/
def closeBlock : Progress :=
  match p.payload p.format g.body with
  | .error e => { g with failure := some e }
  | .ok (name, arguments) =>
    { g with
      calls := g.calls ++ [⟨g.calls.length, name, arguments⟩]
      body := []
      inTool := false }

/-- One mark; nothing is read after a malformed block. -/
def absorb (m : Mark Bool Char) : Progress :=
  if g.failure.isSome then g
  else
    match m with
    | .char false a => { g with text := g.text ++ [a] }
    | .char true a => { g with body := g.body ++ [a] }
    | .marker _ true => { g with inTool := true }
    | .marker _ false => g.closeBlock p

def read (E : List (Mark Bool Char)) : Progress :=
  E.foldl (absorb p) g

end

variable {p : ToolCallParser} {g : Progress}

@[simp] theorem read_nil : g.read p [] = g := rfl

theorem read_cons (m : Mark Bool Char) (E : List (Mark Bool Char)) :
    g.read p (m :: E) = (g.absorb p m).read p E := rfl

theorem read_append (E F : List (Mark Bool Char)) :
    g.read p (E ++ F) = (g.read p E).read p F := foldl_append

theorem read_of_failure {e : PayloadError} (h : g.failure = some e) (E : List (Mark Bool Char)) :
    g.read p E = g := by
  induction E with
  | nil => rfl
  | cons m E ih =>
    have habsorb : g.absorb p m = g := by simp [absorb, h]
    rw [read_cons, habsorb, ih]

section

variable (h : g.failure = none)
include h

theorem read_text (l : List Char) :
    g.read p (l.map (.char false)) = { g with text := g.text ++ l } := by
  induction l generalizing g with
  | nil => simp
  | cons a l ih =>
    have habsorb : g.absorb p (.char false a) = { g with text := g.text ++ [a] } := by
      simp [absorb, h]
    rw [map_cons, read_cons, habsorb, ih (g := { g with text := g.text ++ [a] }) h]
    simp

theorem read_body (l : List Char) :
    g.read p (l.map (.char true)) = { g with body := g.body ++ l } := by
  induction l generalizing g with
  | nil => simp
  | cons a l ih =>
    have habsorb : g.absorb p (.char true a) = { g with body := g.body ++ [a] } := by
      simp [absorb, h]
    rw [map_cons, read_cons, habsorb, ih (g := { g with body := g.body ++ [a] }) h]
    simp

/-- Text up to an opening tag. -/
theorem read_opens (l d : List Char) (E : List (Mark Bool Char)) :
    g.read p (l.map (.char false) ++ .marker d true :: E) =
      { g with text := g.text ++ l, inTool := true }.read p E := by
  rw [read_append, read_text h, read_cons]
  simp [absorb, h]

/-- The rest of a block up to its closing tag. -/
theorem read_closes (l d : List Char) (E : List (Mark Bool Char)) :
    g.read p (l.map (.char true) ++ .marker d false :: E) =
      ({ g with body := g.body ++ l }.closeBlock p).read p E := by
  rw [read_append, read_body h, read_cons]
  simp [absorb, h]

end

theorem closeBlock_error {e : PayloadError} (h : p.payload p.format g.body = .error e) :
    g.closeBlock p = { g with failure := some e } := by
  rw [closeBlock, h]

theorem closeBlock_ok {name arguments : String}
    (h : p.payload p.format g.body = .ok (name, arguments)) :
    g.closeBlock p =
      { g with
        calls := g.calls ++ [⟨g.calls.length, name, arguments⟩]
        body := []
        inTool := false } := by
  rw [closeBlock, h]

/-- The body of the open block is part of what was read. -/
theorem length_body_read (E : List (Mark Bool Char)) :
    (g.read p E).body.length ≤ g.body.length + (E.flatMap Mark.text).length := by
  induction E generalizing g with
  | nil => simp
  | cons m E ih =>
    have hone : (g.absorb p m).body.length ≤ g.body.length + m.text.length := by
      unfold absorb closeBlock
      split
      · omega
      split
      · exact Nat.le_add_right ..
      · simp [Mark.text]
      · exact Nat.le_add_right ..
      · split
        · exact Nat.le_add_right ..
        · simp
    rw [read_cons, flatMap_cons, length_append]
    have hrest := ih (g := g.absorb p m)
    omega

end Progress

/-! ### The one-shot parser -/

/-- The calls of a whole text with their places. -/
def indexed (start : ℕ) (calls : List CandidateCall) : List Call :=
  (calls.zipIdx start).map fun x => ⟨x.2, x.1.name, x.1.arguments⟩

namespace ToolCallParser
variable {p : ToolCallParser} {raw : List Char} {index : ℕ}

theorem toolCallDeltas_error {e : PayloadError} :
    p.toolCallDeltas raw index = .error e ↔ p.payload p.format raw = .error e := by
  unfold toolCallDeltas
  cases p.payload p.format raw <;> simp

theorem toolCallDeltas_ok {deltas : List ToolCallDelta}
    (h : p.toolCallDeltas raw index = .ok deltas) :
    ∃ name arguments, p.payload p.format raw = .ok (name, arguments) ∧
      deltas = [{ index := index, id := some (p.callId index), functionName := some name },
        { index := index, argumentsDelta := arguments }] := by
  unfold toolCallDeltas at h
  cases hpay : p.payload p.format raw with
  | error => rw [hpay] at h; cases h
  | ok call =>
    rw [hpay] at h
    exact ⟨call.1, call.2, rfl, (Except.ok.inj h).symm⟩

section
variable {g : Progress} {i : ℕ}

section

variable (h : g.failure = none)
include h

theorem read_plain (hopen : find toolOpen rest = none) :
    g.read p (toolMarkers.scan false rest) = { g with text := g.text ++ rest } := by
  rw [(free_tag false hopen).scan, Progress.read_text h]

theorem read_open (hopen : find toolOpen rest = some i) :
    g.read p (toolMarkers.scan false rest) =
      { g with text := g.text ++ rest.take i, inTool := true }.read p
        (toolMarkers.scan true (rest.drop (i + toolOpen.length))) := by
  rw [(meets_tag false hopen).scan]
  exact Progress.read_opens h ..

/-- A text up to the end of its first block. -/
theorem read_block (hbody : g.body = []) (hopen : find toolOpen rest = some i) {after : List Char}
    (hafter : after = rest.drop (i + toolOpen.length)) {k : ℕ}
    (hclose : find toolClose after = some k) :
    g.read p (toolMarkers.scan false rest) =
      ({ g with text := g.text ++ rest.take i, body := after.take k, inTool := true }.closeBlock
        p).read p (toolMarkers.scan false (after.drop (k + toolClose.length))) := by
  rw [read_open h hopen, ← hafter, (meets_tag true hclose).scan]
  refine (Progress.read_closes (by exact h) ..).trans ?_
  simp [hbody, toolTag]

/-- Nothing is read after a first block that is malformed. -/
theorem failure_block (hbody : g.body = []) (hopen : find toolOpen rest = some i)
    {after : List Char} (hafter : after = rest.drop (i + toolOpen.length)) {k : ℕ}
    (hclose : find toolClose after = some k) {e : PayloadError}
    (hpayload : p.payload p.format (after.take k) = .error e) :
    (g.read p (toolMarkers.scan false rest)).failure = some e := by
  rw [read_block h hbody hopen hafter hclose, Progress.closeBlock_error hpayload,
    Progress.read_of_failure rfl]

end

end

variable {g : Progress}

/-- What the one-shot loop returns for a text without unclosed or malformed blocks is what
its marks are. -/
theorem parseCandidateLoop_eq (toolIndex : ℕ) (rest : List Char) (hbody : g.body = [])
    (hsound : g.failure = none) (hindex : g.calls.length = toolIndex)
    (hok : (g.read p (toolMarkers.scan false rest)).failure = none)
    (hclosed : (g.read p (toolMarkers.scan false rest)).inTool = false) :
    ∃ r, p.parseCandidateLoop toolIndex rest = some r ∧
      (g.read p (toolMarkers.scan false rest)).text = g.text ++ r.1 ∧
      (g.read p (toolMarkers.scan false rest)).calls = g.calls ++ indexed toolIndex r.2 := by
  fun_induction parseCandidateLoop p toolIndex rest generalizing g with
  | case1 => simp [indexed]
  | case2 _ _ _ hopen =>
    rw [read_plain hsound hopen]
    simp [indexed]
  | case3 _ rest _ openIdx hopen after =>
    -- the block stays open
    rename_i hclose
    rw [read_open hsound hopen, show rest.drop (openIdx + toolOpen.length) = after from rfl,
      (free_tag true hclose).scan, Progress.read_body (by exact hsound)] at hclosed
    cases hclosed
  | case4 _ _ _ _ hopen _ _ hclose =>
    rename_i herror
    rw [failure_block hsound hbody hopen rfl hclose (toolCallDeltas_error.mp herror)] at hok
    cases hok
  | case5 _ _ _ _ hopen _ _ hclose _ _ herror =>
    rw [failure_block hsound hbody hopen rfl hclose (toolCallDeltas_error.mp herror)] at hok
    cases hok
  | case6 _ rest _ openIdx hopen _ _ hclose _ _ hdeltas calls =>
    rename_i ih
    obtain ⟨name, arguments, hpayload, rfl⟩ := toolCallDeltas_ok hdeltas
    rw [read_block hsound hbody hopen rfl hclose, Progress.closeBlock_ok hpayload] at hok hclosed ⊢
    obtain ⟨next, hnext, htext, hcalls⟩ := ih
      (g := { text := g.text ++ rest.take openIdx
              calls := g.calls ++ [⟨g.calls.length, name, arguments⟩]
              failure := g.failure }) rfl hsound (by simp [hindex]) hok hclosed
    refine ⟨_, by rw [hnext]; rfl, htext.trans ?_, hcalls.trans ?_⟩
    · simp
    · simp [calls, indexed, hindex]

/-- What the marks of a whole text are. -/
def whole (p : ToolCallParser) (text : List Char) : Progress :=
  Progress.read p {} (toolMarkers.scan false text)

/-- Every block of the text is closed and well formed. -/
def WellFormed (p : ToolCallParser) (text : List Char) : Prop :=
  (p.whole text).failure = none ∧ (p.whole text).inTool = false

/-- A closed block of the text makes `json.loads` or `json.dumps` raise, and none before it is
malformed. -/
def Raises (p : ToolCallParser) (text : List Char) : Prop :=
  (p.whole text).failure = some .recursionError

instance (p : ToolCallParser) (text : List Char) : Decidable (p.WellFormed text) :=
  inferInstanceAs (Decidable (_ ∧ _))

/-- **The one-shot parser** returns the text and the calls of a well-formed text. -/
theorem parseCandidateText_eq {text : List Char} (h : p.WellFormed text) :
    ∃ r, p.parseCandidateText text = some r ∧ (p.whole text).text = r.1 ∧
      (p.whole text).calls = indexed 0 r.2 := by
  unfold parseCandidateText
  split_ifs with hopen
  · rw [whole, read_plain rfl (Option.isNone_iff_eq_none.mp hopen)]
    exact ⟨_, rfl, rfl, rfl⟩
  · exact parseCandidateLoop_eq 0 text rfl rfl rfl h.1 h.2

end ToolCallParser

variable {g : Progress} {cs : List (GenerationChunk Λ)}

/-! ### The parser of a choice -/

/-- The joined text of chunks. -/
def textOf (cs : List (GenerationChunk Λ)) : List Char :=
  cs.flatMap fun c => c.textDelta.toList

/-- The tool call deltas of chunks, without their identifiers. -/
def deltasOf (cs : List (GenerationChunk Λ)) : List ToolCallDelta :=
  cs.filterMap fun c => c.toolCallDelta.map fun d => { d with id := none }

@[simp] theorem textOf_append (cs ds : List (GenerationChunk Λ)) :
    textOf (cs ++ ds) = textOf cs ++ textOf ds := flatMap_append

@[simp] theorem deltasOf_append (cs ds : List (GenerationChunk Λ)) :
    deltasOf (cs ++ ds) = deltasOf cs ++ deltasOf ds := filterMap_append ..

/-- Chunks that take the stream from one progress to another. -/
structure Emits (g g' : Progress) (cs : List (GenerationChunk Λ)) : Prop where
  text : g'.text = g.text ++ textOf cs
  calls : g'.calls.flatMap Call.deltas = g.calls.flatMap Call.deltas ++ deltasOf cs

theorem Emits.trans {g' g'' : Progress} {ds : List (GenerationChunk Λ)} (h : Emits g g' cs)
    (h' : Emits g' g'' ds) : Emits g g'' (cs ++ ds) :=
  ⟨by rw [h'.text, h.text, textOf_append, append_assoc],
    by rw [h'.calls, h.calls, deltasOf_append, append_assoc]⟩

/-- The parser of a choice is where the marks are. -/
structure Matches (s : ChoiceState) (g : Progress) : Prop where
  inTool : s.inToolCall = g.inTool
  body : s.toolBuffer = g.body
  index : s.toolIndex = g.calls.length
  emitted : s.emittedToolCall = !g.calls.isEmpty
  outside : g.inTool = false → g.body = []
  sound : g.failure = none
  goesOn : s.closed = false

@[simp] theorem emitText_chunks (s : ChoiceState) (text : List Char) (isFirstHint : Bool)
    (choiceIndex : ℕ) : textOf (s.emitText (Λ := Λ) text isFirstHint choiceIndex).2 = text ∧
      deltasOf (s.emitText (Λ := Λ) text isFirstHint choiceIndex).2 = [] := by
  unfold ChoiceState.emitText
  split_ifs with h
  · simp [h, textOf, deltasOf]
  · simp [textOf, deltasOf]

theorem Matches.emitText {s : ChoiceState} (h : Matches s g) (text : List Char) (isFirstHint : Bool)
    (choiceIndex : ℕ) : Matches (s.emitText (Λ := Λ) text isFirstHint choiceIndex).1 g := by
  unfold ChoiceState.emitText ChoiceState.markFirst
  split
  · exact h
  · split <;> exact { h with }

/-- What a piece of text does to the parser of a choice: it reads on, or it comes to the end
of a malformed block. -/
inductive Processed (p : ToolCallParser) (inTool : Bool) (rest : List Char) (g : Progress) :
    List (GenerationChunk Λ) × Except Stop ChoiceState → Prop
  | goesOn (E : List (Mark Bool Char)) (s' : ChoiceState) (cs : List (GenerationChunk Λ))
      (hreads : toolMarkers.Reads inTool rest E s'.inToolCall s'.textBuffer)
      (hfree : toolMarkers.Free s'.inToolCall s'.textBuffer)
      (hmatches : Matches s' (g.read p E)) (hemits : Emits g (g.read p E) cs) :
      Processed p inTool rest g (cs, .ok s')
  | fails (E : List (Mark Bool Char)) (inTool' : Bool) (left : List Char)
      (cs : List (GenerationChunk Λ)) (message : String)
      (hreads : toolMarkers.Reads inTool rest E inTool' left)
      (hfailure : (g.read p E).failure = some (.valueError message))
      (hemits : Emits g (g.read p E) cs) :
      Processed p inTool rest g (cs ++ [parseErrorChunk message], .error .ended)
  | raises (E : List (Mark Bool Char)) (inTool' : Bool) (left : List Char)
      (cs : List (GenerationChunk Λ)) (hreads : toolMarkers.Reads inTool rest E inTool' left)
      (hfailure : (g.read p E).failure = some .recursionError) :
      Processed p inTool rest g (cs, .error .raised)

/-- A part of the piece that was read before the rest of it. -/
theorem Processed.after {p : ToolCallParser} {inTool inTool₁ : Bool} {rest₁ : List Char}
    {E : List (Mark Bool Char)} {r : List (GenerationChunk Λ) × Except Stop ChoiceState}
    (hreads : toolMarkers.Reads inTool rest E inTool₁ rest₁) (hemits : Emits g (g.read p E) cs)
    (h : Processed p inTool₁ rest₁ (g.read p E) r) :
    Processed p inTool rest g (cs ++ r.1, r.2) := by
  cases h with
  | goesOn _ s' _ hreads' hfree hmatches hemits' =>
    rw [← Progress.read_append] at hmatches hemits'
    exact .goesOn _ s' _ (hreads.trans hreads') hfree hmatches (hemits.trans hemits')
  | fails _ inTool' left _ message hreads' hfailure hemits' =>
    rw [← Progress.read_append] at hfailure hemits'
    rw [← append_assoc]
    exact .fails _ inTool' left _ message (hreads.trans hreads') hfailure (hemits.trans hemits')
  | raises _ inTool' left _ hreads' hfailure =>
    rw [← Progress.read_append] at hfailure
    exact .raises _ inTool' left _ (hreads.trans hreads') hfailure

theorem length_toolMarkers (inTool : Bool) :
    ∀ q ∈ toolMarkers.of inTool, q.1.length ≤ (toolTag inTool).length - 1 + 1 := by
  intro q hq
  rw [mem_toolMarkers] at hq
  subst hq
  cases inTool <;> decide

section
variable {inTool : Bool} {i : ℕ}

theorem reads_close (hin : inTool = true) (hclose : find toolClose rest = some i) :
    toolMarkers.Reads inTool rest
      ((rest.take i).map (.char true) ++ [.marker toolClose false]) false
      (rest.drop (i + toolClose.length)) := by
  subst hin
  exact (meets_tag true hclose).reads

theorem reads_open (hout : inTool = false) (hopen : find toolOpen rest = some i) :
    toolMarkers.Reads inTool rest ((rest.take i).map (.char false) ++ [.marker toolOpen true]) true
      (rest.drop (i + toolOpen.length)) := by
  subst hout
  exact (meets_tag false hopen).reads

/-- A closing tag may have begun at the end of the piece. -/
theorem reads_absorb (hin : inTool = true) (hclose : find toolClose rest = none)
    (hi : i = rest.length - (toolClose.length - 1)) :
    toolMarkers.Reads inTool rest ((rest.take i).map (.char true)) inTool (rest.drop i) ∧
      toolMarkers.Free inTool (rest.drop i) := by
  subst hin hi
  have hfree := free_tag true hclose
  exact ⟨hfree.reads_take (length_toolMarkers true), hfree.drop _⟩

/-- An opening tag may have begun at the end of the piece. -/
theorem reads_flush (hout : inTool = false) (hopen : find toolOpen rest = none)
    (hi : i = rest.length - (toolOpen.length - 1)) :
    toolMarkers.Reads inTool rest ((rest.take i).map (.char false)) inTool (rest.drop i) ∧
      toolMarkers.Free inTool (rest.drop i) := by
  subst hout hi
  have hfree := free_tag false hopen
  exact ⟨hfree.reads_take (length_toolMarkers false), hfree.drop _⟩

end

namespace ToolCallParser
variable {p : ToolCallParser}

/-- The rest of a block that is malformed. -/
theorem read_failing (hsound : g.failure = none) {i : ℕ} {e : PayloadError}
    (hpayload : p.payload p.format (g.body ++ rest.take i) = .error e) :
    g.read p ((rest.take i).map (.char true) ++ [.marker toolClose false]) =
      { g with body := g.body ++ rest.take i, failure := some e } := by
  rw [Progress.read_closes hsound, Progress.closeBlock_error hpayload, Progress.read_nil]

theorem processed_processLoop (hparallel : p.parallelToolCalls = true) (isFirstHint : Bool)
    (choiceIndex : ℕ) (s : ChoiceState) (rest : List Char) (hm : Matches s g)
    (hbuffer : s.textBuffer = []) (hlen : g.body.length + rest.length ≤ maxToolBufferChars) :
    Processed (Λ := Λ) p s.inToolCall rest g (p.processLoop isFirstHint choiceIndex s rest) := by
  fun_induction processLoop p isFirstHint choiceIndex s rest generalizing g with
  | case1 s =>
    refine .goesOn [] s [] ?_ ?_ hm ⟨by simp [textOf], by simp [deltasOf]⟩
    · rw [hbuffer]
      exact Markers.Reads.refl _ _ _
    · rw [hbuffer]
      exact Markers.free_nil _ _
  | case2 _ _ _ _ _ absorbEnd toolBuffer =>
    -- the block does not outgrow the buffer
    rename_i hlong
    simp only [toolBuffer, absorbEnd, length_append, length_take, hm.body] at hlong
    omega
  | case3 _ _ _ hin hclose absorbEnd toolBuffer =>
    obtain ⟨hreads, hfree⟩ := reads_absorb hin hclose rfl
    refine .goesOn _ _ [] hreads hfree ?_ ?_
    · rw [Progress.read_body hm.sound]
      refine ⟨hm.inTool, ?_, hm.index, hm.emitted, fun h => ?_, hm.sound, hm.goesOn⟩
      · simp [toolBuffer, absorbEnd, hm.body]
      · rw [← hm.inTool, hin] at h
        cases h
    · rw [Progress.read_body hm.sound]
      exact ⟨by simp [textOf], by simp [deltasOf]⟩
  | case4 _ _ _ hin _ hclose message herror =>
    rw [hm.body, toolCallDeltas_error] at herror
    have hread := read_failing hm.sound herror
    refine .fails _ false _ [] message (reads_close hin hclose) ?_ ?_
    · rw [hread]
    · rw [hread]
      exact ⟨by simp [textOf], by simp [deltasOf]⟩
  | case5 _ _ _ hin _ hclose herror =>
    rw [hm.body, toolCallDeltas_error] at herror
    refine .raises _ false _ [] (reads_close hin hclose) ?_
    rw [read_failing hm.sound herror]
  | case6 _ rest _ hin closeIdx hclose _ hdeltas chunks s' =>
    rename_i ih
    obtain ⟨name, arguments, hpayload, rfl⟩ := toolCallDeltas_ok hdeltas
    rw [hm.body] at hpayload
    have hread : g.read p ((rest.take closeIdx).map (.char true) ++ [.marker toolClose false]) =
        { g with
          calls := g.calls ++ [⟨g.calls.length, name, arguments⟩]
          body := []
          inTool := false } := by
      rw [Progress.read_closes hm.sound, Progress.closeBlock_ok hpayload, Progress.read_nil]
    refine Processed.after (reads_close hin hclose) ?_ ?_
    · rw [hread]
      exact ⟨by simp [chunks, textOf], by simp [chunks, deltasOf, Call.deltas, hm.index]⟩
    · rw [hread]
      refine ih ⟨rfl, rfl, ?_, ?_, fun _ => rfl, hm.sound, hm.goesOn⟩ hbuffer ?_
      · simp [s', hm.index]
      · simp [s']
      · simp only [length_nil, length_drop]
        omega
  | case7 _ rest _ _ _ textBuffer =>
    rename_i hlong
    rw [show textBuffer = rest by simp [textBuffer, hbuffer]] at hlong
    have hmax : maxTextBufferChars = maxToolBufferChars := rfl
    omega
  | case8 s rest _ hout hopen textBuffer =>
    rename_i flushLen emitted
    rw [Bool.not_eq_true] at hout
    have htext : textBuffer = rest := by simp [textBuffer, hbuffer]
    have hm' := hm.emitText (Λ := Λ) (textBuffer.take flushLen) isFirstHint choiceIndex
    obtain ⟨hreads, hfree⟩ := reads_flush hout hopen (i := flushLen) (by rw [← htext])
    have hsame : emitted.1.inToolCall = s.inToolCall := hm'.inTool.trans hm.inTool.symm
    refine .goesOn ((rest.take flushLen).map (.char false)) _ _ ?_ ?_ ?_ ?_
    · rwa [htext, hsame]
    · rwa [htext, hsame]
    · rw [Progress.read_text hm.sound]
      exact { hm' with }
    · rw [Progress.read_text hm.sound]
      exact ⟨by simp [emitted, htext], by simp [emitted]⟩
  | case9 =>
    rename_i hviolated
    simp [hparallel] at hviolated
  | case10 s rest _ hout openIdx hopen emitted =>
    rename_i ih
    rw [Bool.not_eq_true] at hout
    have hread : g.read p ((rest.take openIdx).map (.char false) ++ [.marker toolOpen true]) =
        { g with text := g.text ++ rest.take openIdx, inTool := true } := by
      rw [Progress.read_opens hm.sound, Progress.read_nil]
    have hm' := hm.emitText (Λ := Λ) (s.textBuffer ++ rest.take openIdx) isFirstHint choiceIndex
    refine Processed.after (reads_open hout hopen) ?_ ?_
    · rw [hread]
      exact ⟨by simp [emitted, hbuffer], by simp [emitted]⟩
    · rw [hread]
      refine ih ⟨rfl, hm'.body, hm'.index, hm'.emitted, (by simp), hm.sound, hm'.goesOn⟩ rfl ?_
      simp only [length_drop]
      omega

/-- **One piece of text through the parser of a choice.** -/
theorem processed_processText (hparallel : p.parallelToolCalls = true) {s : ChoiceState}
    (hm : Matches s g) (hfree : toolMarkers.Free s.inToolCall s.textBuffer) {incoming : List Char}
    (hlen : g.body.length + (s.textBuffer ++ incoming).length ≤ maxToolBufferChars)
    (isFirstHint : Bool) (choiceIndex : ℕ) :
    Processed (Λ := Λ) p s.inToolCall (s.textBuffer ++ incoming) g
      (p.processText s incoming isFirstHint choiceIndex) := by
  unfold processText
  split_ifs with hnil
  · rw [hnil, append_nil]
    exact .goesOn [] s [] (Markers.Reads.refl _ _ _) hfree hm ⟨by simp [textOf], by simp [deltasOf]⟩
  · have hprocessed := processed_processLoop (Λ := Λ) hparallel isFirstHint choiceIndex
      { s with textBuffer := [] } (s.textBuffer ++ incoming)
      { hm with } rfl hlen
    generalize p.processLoop isFirstHint choiceIndex _ _ = r at hprocessed ⊢
    cases hprocessed with
    | goesOn E s' cs hreads hfree hmatches hemits =>
      exact .goesOn E s' cs hreads hfree hmatches hemits
    | fails E inTool left cs message hreads hfailure hemits =>
      exact .fails E inTool left cs message hreads hfailure hemits
    | raises E inTool left _ hreads hfailure => exact .raises E inTool left [] hreads hfailure

end ToolCallParser

end Sie.Server
