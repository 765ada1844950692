import Mathlib.Data.List.Forall2
import Sie.Server.Thinking.Stripper

/-!
# Hidden reasoning stays hidden

What the wrapper yields for a choice is the whole text of the choice, read, wherever it was
cut and whatever other choices do in between.  `ChunkTurn` says what one turn yields; `Reading`
and `Ended` say what a run has done for a choice before and after its finishing chunk.
-/

namespace Sie.Server

open Sie.Lib List ThinkingBlockStripper GenerationChunk Suppressor Suppression

/-! ### One turn of the wrapper -/

variable {Λ : Type} {c : GenerationChunk Λ}

section

variable {s : ThinkingBlockStripper}

theorem ThinkingBlockStripper.take_goesOn (h : c.finishes = false) (s : ThinkingBlockStripper) :
    let fed := s.feed c.textDelta.toList
    s.take c = (fed.1, fed.2, decide (fed.2 ≠ c.textDelta.toList)) := by
  simp [take, h]

theorem ThinkingBlockStripper.take_ends (h : c.finishes = true) (s : ThinkingBlockStripper) :
    let fed := s.feed c.textDelta.toList
    s.take c = (fed.1.finish.1, fed.2 ++ fed.1.finish.2, decide (fed.2 ≠ c.textDelta.toList)) := by
  simp [take, h]

theorem ThinkingBlockStripper.take_changed (s : ThinkingBlockStripper) (c : GenerationChunk Λ) :
    (s.take c).2.2 = decide ((s.feed c.textDelta.toList).2 ≠ c.textDelta.toList) := by
  unfold take
  cases c.finishes <;> rfl

theorem ThinkingBlockStripper.parts_take (hkeep : s.keep = false) (c : GenerationChunk Λ) :
    (s.take c).1.parts = s.parts := by
  cases hfin : c.finishes
  · obtain ⟨E, hE, -⟩ := s.fed_feed c.textDelta.toList
    rw [take_goesOn hfin]
    exact hE.tells.dropped hkeep
  · rw [take_ends hfin]
    exact (s.tells_feed_finish _).dropped hkeep

/-- A chunk without text does nothing to a stripper that has nothing to come. -/
theorem ThinkingBlockStripper.take_empty (h : s.Empty) (htext : c.textDelta.toList = []) :
    Tells s (s.take c).1 (s.take c).2.1 [] ∧ (s.take c).1.Empty := by
  cases hfin : c.finishes
  · rw [take_goesOn hfin, htext, feed_nil h.buffer]
    exact ⟨⟨rfl, by simp, by simp, rfl, rfl⟩, h⟩
  have htells := s.tells_feed_finish c.textDelta.toList
  rw [h.buffer, htext, nil_append, Markers.scan_nil, marked_nil] at htells
  rw [take_ends hfin, htext]
  exact ⟨htells, empty_finish _⟩

/-- What a chunk says: its reasoning, then its text. -/
def GenerationChunk.marks (c : GenerationChunk Λ) : List (Bool × Char) :=
  c.reasoningDelta.toList.map (Prod.mk true) ++ c.textDelta.toList.map (Prod.mk false)

end

section

variable (cfg : Suppression) (i : ℕ) (parts : List (List Char × List Char)) (h : Split)
include i parts h cfg

theorem splitParts_choiceIndex :
    ∀ o ∈ (cfg.splitParts (Λ := Λ) i parts h).2, o.choiceIndex = i := by
  fun_induction splitParts cfg i parts h with
  | case1 => simp
  | case2 => simp
  | case3 _ _ _ _ _ _ _ _ ih =>
    intro o ho
    rcases mem_cons.mp ho with rfl | ho
    · rfl
    · exact ih o ho

/-- The chunks of the parts, and what stays in hand for the last chunk, say the parts. -/
theorem marks_splitParts (hvisible : h.visibleDelta = parts.flatMap Prod.snd) :
    let r := cfg.splitParts (Λ := Λ) i parts h
    r.2.flatMap marks
        ++ (r.1.reasoningDelta.map (Prod.mk true) ++ r.1.visibleDelta.map (Prod.mk false)) =
      h.reasoningDelta.map (Prod.mk true) ++ told parts := by
  fun_induction splitParts cfg i parts h with
  | case1 => simp [hvisible]
  | case2 last =>
    obtain ⟨reasoning, text⟩ := last
    simp [hvisible]
  | case3 reasoning text next rest h chunk after done ih =>
    have hafter : after.visibleDelta = (next :: rest).flatMap Prod.snd := by
      simp [after, hvisible]
    have htold : told ((reasoning, text) :: next :: rest) =
        (reasoning.map (Prod.mk true) ++ text.map (Prod.mk false)) ++ told (next :: rest) :=
      flatMap_cons
    have hchunk : chunk.marks = (h.reasoningDelta ++ reasoning).map (Prod.mk true) ++
        text.map (Prod.mk false) := by
      simp [marks, chunk]
    have hrest : done.2.flatMap marks ++
        (done.1.reasoningDelta.map (Prod.mk true) ++ done.1.visibleDelta.map (Prod.mk false)) =
          told (next :: rest) := ih hafter
    dsimp only
    rw [flatMap_cons, append_assoc, hrest, hchunk, htold]
    simp

end

/-- What the turn of a chunk yields: chunks of its choice alone, that say its reasoning delta
and what its stripper hands on. -/
structure ChunkTurn (s : Suppressor) (c : GenerationChunk Λ) (s' : Suppressor)
    (os : List (GenerationChunk Λ)) (taken : ThinkingBlockStripper × List Char × Bool) : Prop where
  cfg : s'.cfg = s.cfg
  states : s'.states = Function.update s.states c.choiceIndex { taken.1 with parts := [] }
  choice : ∀ o ∈ os, o.choiceIndex = c.choiceIndex
  parts : taken.2.1 = taken.1.parts.flatMap Prod.snd →
    os.flatMap marks =
      c.reasoningDelta.toList.map (Prod.mk true) ++ told taken.1.parts
  alone : taken.1.parts = [] → ∃ o, os = [o] ∧ o.textDelta.toList = taken.2.1 ∧
    o.reasoningDelta = c.reasoningDelta ∧ o.toolCallDelta = c.toolCallDelta ∧
    o.logprobs = (if taken.2.2 || (s.states c.choiceIndex).inside then [] else c.logprobs) ∧
    o.candidates = c.candidates.map (map fun x => (s.cfg.rewriteCandidate x).1) ∧
    (o.errorMessage = c.errorMessage ∨ ∃ hid, o.errorMessage = some (emptyModelOutput hid))

/-- The last chunk of a turn. -/
structure Rewritten (c o : GenerationChunk Λ) (hand : Split) (hidden : Bool)
    (candidates : Option (List (Candidate Λ))) : Prop where
  choice : o.choiceIndex = c.choiceIndex
  text : o.textDelta = String.ofList hand.visibleDelta
  reasoning : o.reasoningDelta = String.ofList hand.reasoningDelta
  toolCall : o.toolCallDelta = c.toolCallDelta
  logprobs : o.logprobs = if hidden then [] else c.logprobs
  candidates : o.candidates = candidates
  message : o.errorMessage = c.errorMessage ∨ ∃ hid, o.errorMessage = some (emptyModelOutput hid)

theorem rewritten_last (c : GenerationChunk Λ) (hand : Split) (hidden hid unusable : Bool)
    (candidates : Option (List (Candidate Λ))) :
    Rewritten c (if unusable then (c.rewrite hand hidden candidates).stampEmpty hid
      else c.rewrite hand hidden candidates) hand hidden candidates := by
  cases unusable
  · exact ⟨rfl, rfl, rfl, rfl, rfl, rfl, .inl rfl⟩
  · exact ⟨rfl, rfl, rfl, rfl, rfl, rfl, .inr ⟨hid, rfl⟩⟩

theorem Rewritten.marks {o : GenerationChunk Λ} {hand : Split} {hidden : Bool}
    {candidates : Option (List (Candidate Λ))} (h : Rewritten c o hand hidden candidates) :
    o.marks = hand.reasoningDelta.map (Prod.mk true) ++ hand.visibleDelta.map (Prod.mk false) := by
  simp [GenerationChunk.marks, h.text, h.reasoning]

/-- What a turn has in hand when its loop over the parts begins. -/
def Suppressor.hand (s : Suppressor) (c : GenerationChunk Λ) : Split where
  reasoningDelta := c.reasoningDelta.toList
  visibleDelta := ((s.states c.choiceIndex).take c).2.1
  emittedVisibleText := s.emittedVisibleText
  emittedMeaningfulText := s.emittedMeaningfulText

theorem Suppressor.feed_outputs (s : Suppressor) (c : GenerationChunk Λ) :
    let taken := (s.states c.choiceIndex).take c
    let split := s.cfg.splitParts (Λ := Λ) c.choiceIndex taken.1.parts (s.hand c)
    ∃ o, (s.feed c).2 = split.2 ++ [o] ∧
      Rewritten c o split.1 (taken.2.2 || (s.states c.choiceIndex).inside)
        ((c.candidates.map (map s.cfg.rewriteCandidate)).map (map Prod.fst)) :=
  ⟨_, rfl, rewritten_last ..⟩

theorem chunkTurn_feed (s : Suppressor) (c : GenerationChunk Λ) :
    ChunkTurn s c (s.feed c).1 (s.feed c).2 ((s.states c.choiceIndex).take c) := by
  obtain ⟨o, hos, ho⟩ := s.feed_outputs c
  refine ⟨rfl, rfl, fun o' ho' => ?_, fun hvisible => ?_, fun hparts => ?_⟩
  · rw [hos, mem_append, mem_singleton] at ho'
    rcases ho' with ho' | rfl
    · exact splitParts_choiceIndex _ _ _ _ o' ho'
    · exact ho.choice
  · rw [hos, flatMap_append, flatMap_singleton, ho.marks]
    exact marks_splitParts s.cfg c.choiceIndex _ (s.hand c) hvisible
  · rw [hparts] at hos ho
    refine ⟨o, hos, ?_, ?_, ho.toolCall, ho.logprobs, ?_, ho.message⟩
    · rw [ho.text, String.toList_ofList]
      rfl
    · rw [ho.reasoning]
      exact String.ofList_toList
    · rw [ho.candidates, Option.map_map]
      congr 1
      funext l
      simp

/-- What a turn says, by what its stripper hands on. -/
theorem ChunkTurn.yields {s s' : Suppressor} {os : List (GenerationChunk Λ)}
    {taken : ThinkingBlockStripper × List Char × Bool} {l : List (Bool × Char)}
    (h : ChunkTurn s c s' os taken) (hparts : (s.states c.choiceIndex).parts = [])
    (htells : ThinkingBlockStripper.Tells (s.states c.choiceIndex) taken.1 taken.2.1 l) :
    within false (os.flatMap marks) = within false l ∧
      ((s.states c.choiceIndex).keep = true → os.flatMap marks =
        c.reasoningDelta.toList.map (Prod.mk true) ++ l) := by
  cases hkeep : (s.states c.choiceIndex).keep
  · obtain ⟨o, rfl, htext, -⟩ := h.alone ((htells.dropped hkeep).trans hparts)
    simp [marks, htext, htells.shown, within_other]
  have hl : told taken.1.parts = l := by simpa [hparts] using htells.kept hkeep
  have hmarks := h.parts (by rw [htells.shown, ← hl, (within_told _).2])
  rw [hl] at hmarks
  exact ⟨by simp [hmarks, within_other], fun _ => hmarks⟩

/-! ### A choice along a run -/

section

variable (i : ℕ) (cs : List (GenerationChunk Λ))

/-- The chunks of one choice. -/
def ofChoice : List (GenerationChunk Λ) :=
  cs.filter fun c => c.choiceIndex = i

/-- The text of a choice. -/
def choiceText : List Char :=
  (ofChoice i cs).flatMap fun c => c.textDelta.toList

/-- What the chunks of a choice say, in order. -/
def choiceMarks : List (Bool × Char) :=
  (ofChoice i cs).flatMap marks

end

section
variable {i : ℕ} {cs ds : List (GenerationChunk Λ)}

theorem ofChoice_append : ofChoice i (cs ++ ds) = ofChoice i cs ++ ofChoice i ds :=
  filter_append ..

theorem ofChoice_own (h : ∀ c ∈ cs, c.choiceIndex = i) : ofChoice i cs = cs :=
  filter_eq_self.mpr fun c hc => by simpa using h c hc

theorem ofChoice_other (h : ∀ c ∈ cs, c.choiceIndex ≠ i) : ofChoice i cs = [] :=
  filter_eq_nil_iff.mpr fun c hc => by simpa using h c hc

theorem ofChoice_singleton_own (hc : c.choiceIndex = i) : ofChoice i [c] = [c] :=
  ofChoice_own (by simpa using hc)

@[simp] theorem choiceText_append :
    choiceText i (cs ++ ds) = choiceText i cs ++ choiceText i ds := by
  simp [choiceText, ofChoice_append]

@[simp] theorem choiceMarks_append :
    choiceMarks i (cs ++ ds) = choiceMarks i cs ++ choiceMarks i ds := by
  simp [choiceMarks, ofChoice_append]

end

variable {cfg : Suppression} {i : ℕ} {es os : List (GenerationChunk Λ)} {st : ThinkingBlockStripper}
  {s : Suppressor} {l : List (Bool × Char)} {E : List (Mark Bool Char)} {text : List Char}
  {pre post : List (GenerationChunk Λ)}

/-- The chunks `os` of a choice say the characters `l`: its text does, and with the reasoning
kept all of it does, in order, where the chunks `es` had no reasoning delta of their own. -/
structure Says (cfg : Suppression) (i : ℕ) (es os : List (GenerationChunk Λ))
    (l : List (Bool × Char)) : Prop where
  visible : within false (choiceMarks i os) = within false l
  all : cfg.keepReasoning = true → (∀ c ∈ ofChoice i es, c.reasoningDelta = "") →
    choiceMarks i os = l

/-- The stripper of a choice between two turns. -/
structure Strips (cfg : Suppression) (st : ThinkingBlockStripper) : Prop where
  parts : st.parts = []
  format : st.format = cfg.format
  keep : st.keep = cfg.keepReasoning

/-- A choice that has not ended. -/
structure Reading (cfg : Suppression) (i : ℕ) (es os : List (GenerationChunk Λ))
    (st : ThinkingBlockStripper) (E : List (Mark Bool Char)) : Prop where
  strips : Strips cfg st
  reads : cfg.format.markers.Reads cfg.startInside (choiceText i es) E st.inside st.buffer
  holds : st.Holds
  yields : Says cfg i es os (marked E)

/-- A choice that has ended. -/
structure Ended (cfg : Suppression) (i : ℕ) (es os : List (GenerationChunk Λ))
    (st : ThinkingBlockStripper) : Prop where
  strips : Strips cfg st
  empty : st.Empty
  yields : Says cfg i es os (marked (cfg.format.markers.scan cfg.startInside (choiceText i es)))

theorem Strips.next {st' : ThinkingBlockStripper} {v : List Char} (h : Strips cfg st)
    (ht : ThinkingBlockStripper.Tells st st' v l) : Strips cfg { st' with parts := [] } :=
  ⟨rfl, ht.format.trans h.format, ht.keep.trans h.keep⟩

/-- A turn of the choice says more, by what its stripper hands on. -/
theorem Says.next {l' : List (Bool × Char)} (h : Says cfg i es os l) (hc : c.choiceIndex = i)
    (hstrips : Strips cfg (s.states i))
    (htells : ThinkingBlockStripper.Tells (s.states i) ((s.states i).take c).1
      ((s.states i).take c).2.1 l') : Says cfg i (es ++ [c]) (os ++ (s.feed c).2) (l ++ l') := by
  subst hc
  have hturned := chunkTurn_feed s c
  have hown : choiceMarks c.choiceIndex (s.feed c).2 =
      (s.feed c).2.flatMap marks := by
    rw [choiceMarks, ofChoice_own hturned.choice]
  obtain ⟨hvisible, hall⟩ := hturned.yields hstrips.parts htells
  refine ⟨?_, fun hkeep hraw => ?_⟩
  · rw [choiceMarks_append, within_append, within_append, h.visible, hown, hvisible]
  · rw [ofChoice_append, ofChoice_singleton_own rfl] at hraw
    have hown' := hraw c (by simp)
    rw [choiceMarks_append, h.all hkeep fun c hc => hraw c (by simp [hc]), hown,
      hall (hstrips.keep.trans hkeep), hown']
    simp

theorem choiceText_own (hc : c.choiceIndex = i) :
    choiceText i (es ++ [c]) = choiceText i es ++ c.textDelta.toList := by
  rw [choiceText_append]
  simp [choiceText, ofChoice_singleton_own hc]

theorem states_own (hc : c.choiceIndex = i) :
    (s.feed c).1.states i = { ((s.states i).take c).1 with parts := [] } := by
  subst hc
  rw [(chunkTurn_feed s c).states, Function.update_self]

theorem Reading.next (h : Reading cfg i es os (s.states i) E) (hc : c.choiceIndex = i)
    (hfin : c.finishes = false) :
    ∃ F, Reading cfg i (es ++ [c]) (os ++ (s.feed c).2) ((s.feed c).1.states i) F := by
  obtain ⟨F, hF, hholds⟩ := (s.states i).fed_feed c.textDelta.toList
  have htake := take_goesOn hfin (s.states i)
  have htells : ThinkingBlockStripper.Tells (s.states i) ((s.states i).take c).1
      ((s.states i).take c).2.1 (marked F) := by
    rw [htake]
    exact ⟨hF.tells.shown, hF.tells.kept, hF.tells.dropped, hF.tells.format, hF.tells.keep⟩
  refine ⟨E ++ F, ?_, ?_, ?_, ?_⟩
  · rw [states_own hc]
    exact h.strips.next htells
  · rw [states_own hc, choiceText_own hc, htake]
    exact (h.reads.append _).trans (h.strips.format ▸ hF.reads)
  · rw [states_own hc, htake]
    exact ⟨hholds.free, hholds.short⟩
  · rw [marked_append]
    exact h.yields.next hc h.strips htells

/-- The chunk that ends a choice hands on all that was held back. -/
theorem Reading.ended (h : Reading cfg i es os (s.states i) E) (hc : c.choiceIndex = i)
    (hfin : c.finishes = true) :
    Ended cfg i (es ++ [c]) (os ++ (s.feed c).2) ((s.feed c).1.states i) := by
  have htake := take_ends hfin (s.states i)
  have htells := (s.states i).tells_feed_finish c.textDelta.toList
  have hscan := h.reads c.textDelta.toList
  rw [h.strips.format] at htells
  constructor
  · rw [states_own hc, htake]
    exact h.strips.next htells
  · rw [states_own hc, htake]
    have hempty := ((s.states i).feed c.textDelta.toList).1.empty_finish
    exact ⟨hempty.buffer, hempty.inside⟩
  · rw [choiceText_own hc, hscan, marked_append]
    exact h.yields.next hc h.strips (by rw [htake]; exact htells)

/-- A chunk without text, after the end of its choice, adds nothing. -/
theorem Ended.next (h : Ended cfg i es os (s.states i)) (hc : c.choiceIndex = i)
    (htext : c.textDelta = "") :
    Ended cfg i (es ++ [c]) (os ++ (s.feed c).2) ((s.feed c).1.states i) := by
  have hnil : c.textDelta.toList = [] := by simp [htext]
  obtain ⟨htells, hempty⟩ := take_empty h.empty hnil
  constructor
  · rw [states_own hc]
    exact h.strips.next htells
  · rw [states_own hc]
    exact ⟨hempty.buffer, hempty.inside⟩
  · have hyields := h.yields.next hc h.strips htells
    rw [append_nil] at hyields
    rwa [choiceText_own hc, hnil, append_nil]

/-! ### Whole runs -/

/-- The choice gets a finishing chunk, and no text after it. -/
def Finishes (i : ℕ) (es : List (GenerationChunk Λ)) : Prop :=
  ∃ before last after, ofChoice i es = before ++ last :: after ∧
    (∀ c ∈ before, c.finishes = false) ∧ last.finishes = true ∧ ∀ c ∈ after, c.textDelta = ""

/-- What a run has done for a choice. -/
structure Done (cfg : Suppression) (i : ℕ) (es os : List (GenerationChunk Λ)) (s : Suppressor) :
    Prop where
  config : s.cfg = cfg
  reading : (∀ c ∈ ofChoice i es, c.finishes = false) → ∃ E, Reading cfg i es os (s.states i) E
  ended : Finishes i es → Ended cfg i es os (s.states i)

/-- A turn of another choice. -/
theorem Done.other (h : Done cfg i es os s) (hc : c.choiceIndex ≠ i) :
    Done cfg i (es ++ [c]) (os ++ (s.feed c).2) (s.feed c).1 := by
  have hturned := chunkTurn_feed s c
  have hstates : (s.feed c).1.states i = s.states i := by
    rw [hturned.states, Function.update_of_ne (Ne.symm hc)]
  have hes : ofChoice i (es ++ [c]) = ofChoice i es := by
    simp [ofChoice, hc]
  have hos : ofChoice i (os ++ (s.feed c).2) = ofChoice i os := by
    have hother : ofChoice i (s.feed c).2 = [] := ofChoice_other fun o ho => by
      rwa [hturned.choice o ho]
    rw [ofChoice_append, hother, append_nil]
  have hyields : ∀ {l}, Says cfg i es os l → Says cfg i (es ++ [c]) (os ++ (s.feed c).2) l := by
    intro l hl
    refine ⟨?_, fun hkeep hraw => ?_⟩
    · rw [choiceMarks, hos]
      exact hl.visible
    · rw [choiceMarks, hos]
      exact hl.all hkeep (hes ▸ hraw)
  have htext : choiceText i (es ++ [c]) = choiceText i es := by rw [choiceText, hes, choiceText]
  refine ⟨hturned.cfg.trans h.config, fun hgoes => ?_, fun hfin => ?_⟩
  · obtain ⟨E, hE⟩ := h.reading (hes ▸ hgoes)
    rw [hstates]
    exact ⟨E, hE.strips, htext ▸ hE.reads, hE.holds, hyields hE.yields⟩
  · have hE := h.ended (by rwa [Finishes, hes] at hfin)
    rw [hstates]
    exact ⟨hE.strips, hE.empty, htext ▸ hyields hE.yields⟩

/-- A turn of the choice. -/
theorem Done.own (h : Done cfg i es os s) (hc : c.choiceIndex = i) :
    Done cfg i (es ++ [c]) (os ++ (s.feed c).2) (s.feed c).1 := by
  have hes : ofChoice i (es ++ [c]) = ofChoice i es ++ [c] := by
    rw [ofChoice_append, ofChoice_singleton_own hc]
  refine ⟨(chunkTurn_feed s c).cfg.trans h.config, fun hgoes => ?_, ?_⟩
  · rw [hes] at hgoes
    obtain ⟨E, hE⟩ := h.reading fun c hc => hgoes c (by simp [hc])
    exact hE.next hc (hgoes c (by simp))
  · rintro ⟨before, last, after, hsplit, hbefore, hlast, hafter⟩
    rw [hes] at hsplit
    -- the new chunk is the finishing one, or one after it
    rcases eq_nil_or_concat after with rfl | ⟨after, d, rfl⟩
    · obtain ⟨hsame, hd⟩ := append_inj' hsplit rfl
      obtain rfl : c = last := by simpa using hd
      obtain ⟨E, hE⟩ := h.reading (hsame ▸ hbefore)
      exact hE.ended hc hlast
    rw [concat_eq_append, ← cons_append, ← append_assoc] at hsplit
    obtain ⟨hsame, hd⟩ := append_inj' hsplit rfl
    obtain rfl : c = d := by simpa using hd
    refine (h.ended ⟨before, last, after, hsame, hbefore, hlast, fun c hc => ?_⟩).next hc ?_
    · exact hafter c (by simp [hc])
    · exact hafter c (by simp)

theorem done_run (hrun : runs step cfg.start es = some (s, os)) (i : ℕ) : Done cfg i es os s := by
  refine runs_induction (fun es os s => Done cfg i es os s) ?_ ?_ es os s hrun
  · refine ⟨rfl, fun _ => ⟨[], ⟨rfl, rfl, rfl⟩, fun _ => rfl, ⟨?_, ?_⟩, rfl, fun _ _ => rfl⟩, ?_⟩
    · exact Markers.free_nil _ _
    · intro _
      exact Nat.zero_le _
    · rintro ⟨_, _, _, hsplit, -⟩
      simp [ofChoice] at hsplit
  · intro es os s c s' os' _ h hstep
    obtain ⟨rfl, rfl⟩ : (s.feed c).1 = s' ∧ (s.feed c).2 = os' := by
      simpa [step, Prod.ext_iff] using hstep
    by_cases hc : c.choiceIndex = i
    · exact h.own hc
    · exact h.other hc

/-! ### What is not kept -/

/-- The text outside of the reasoning blocks. -/
def Suppression.visible (cfg : Suppression) (text : List Char) : List Char :=
  within false (marked (cfg.format.markers.scan cfg.startInside text))

/-- The bodies of the reasoning blocks. -/
def Suppression.bodies (cfg : Suppression) (text : List Char) : List Char :=
  within true (marked (cfg.format.markers.scan cfg.startInside text))

/-- A candidate without its reasoning: logprobs stay only where no character of the text was
in a block. -/
structure RedactedCandidate (cfg : Suppression) (x y : Candidate Λ) : Prop where
  text : y.text = x.text.map fun text => String.ofList (cfg.visible text.toList)
  reasoning : y.reasoningContent = x.reasoningContent
  logprobs : y.logprobs = [] ∨
    y.logprobs = x.logprobs ∧ ∀ text ∈ x.text, cfg.bodies text.toList = []

/-- The chunk `o` that is yielded for `c`, when its choice had the text `before`: nothing that
is not of `c` itself, and logprobs only where no character of the text was in a block. -/
structure Redacted (cfg : Suppression) (before : List Char) (c o : GenerationChunk Λ) : Prop where
  reasoning : o.reasoningDelta = c.reasoningDelta
  toolCall : o.toolCallDelta = c.toolCallDelta
  message : o.errorMessage = c.errorMessage ∨ ∃ hid, o.errorMessage = some (emptyModelOutput hid)
  logprobs : o.logprobs = [] ∨ o.logprobs = c.logprobs ∧
    cfg.bodies (before ++ c.textDelta.toList) = cfg.bodies before
  candidates : ∀ xs ∈ c.candidates, ∃ ys ∈ o.candidates,
    List.Forall₂ (RedactedCandidate cfg) xs ys

/-- A text that stays as it was has no body. -/
theorem bodies_of_visible_eq (h : cfg.visible text = text) : cfg.bodies text = [] := by
  have hlen := (length_scan cfg.format cfg.startInside text).1
  have hvisible := congrArg length h
  rw [visible] at hvisible
  exact eq_nil_of_length_eq_zero (by rw [bodies]; omega)

theorem redacted_rewriteCandidate (hkeep : cfg.keepReasoning = false) (x : Candidate Λ) :
    RedactedCandidate cfg x (cfg.rewriteCandidate x).1 := by
  obtain ⟨text, _, _, _, _⟩ := x
  cases text with
  | none => exact ⟨rfl, rfl, .inr ⟨rfl, by simp⟩⟩
  | some text =>
    have hsplit := splitThinkingBlocks_eq text.toList cfg.startInside cfg.format
    simp only [rewriteCandidate, hsplit, hkeep, Bool.false_eq_true, false_and, if_false]
    by_cases hsame : cfg.visible text.toList = text.toList
    · have hfalse : ¬ within false
          (marked (cfg.format.markers.scan cfg.startInside text.toList)) ≠ text.toList :=
        not_not.mpr hsame
      simp [hfalse]
      refine ⟨by simp [hsame], rfl, .inr ⟨rfl, ?_⟩⟩
      simpa using bodies_of_visible_eq hsame
    · have htrue : within false (marked (cfg.format.markers.scan cfg.startInside text.toList)) ≠
          text.toList := hsame
      simp [htrue]
      exact ⟨rfl, rfl, .inl rfl⟩

/-- **A piece that is shown as it came has no character in a block.**  What was held back
before it is too short for an opening marker and a character. -/
theorem Reading.bodies_eq (h : Reading cfg i es os st E) (hout : st.inside = false)
    (hsame : (st.feed text).2 = text) :
    cfg.bodies (choiceText i es ++ text) = cfg.bodies (choiceText i es) := by
  obtain ⟨F, hF, hholds⟩ := st.fed_feed text
  have hbefore := h.reads.scan (h.strips.format ▸ h.holds.free)
  have hall := h.reads text
  have hpiece := hF.reads.scan (by
    have hfree := hholds.free
    rwa [hF.tells.format] at hfree)
  have hlen := (length_scan st.format st.inside (st.buffer ++ text)).2 hout
  have hshown : text = within false (marked F) := hsame.symm.trans hF.tells.shown
  have hshort := h.holds.short hout
  have hbound : bound st.format ≤ st.format.opening.length := by
    cases st.format <;> decide
  have hnone : within true
      (marked (st.format.markers.scan st.inside (st.buffer ++ text))) = [] := by
    by_contra hbody
    have hbody' := hlen hbody
    have hpos := length_pos_iff.mpr hbody
    have hvisible : text.length ≤
        (within false (marked (st.format.markers.scan st.inside (st.buffer ++ text)))).length := by
      rw [hpiece, marked_append, within_append, ← hshown, length_append]
      exact Nat.le_add_right ..
    rw [length_append] at hbody'
    omega
  rw [bodies, bodies, hall, hbefore, marked_append, marked_append, within_append, within_append,
    ← h.strips.format, hnone, marked_chars, hout, within_other (by decide)]

/-- A chunk comes while its choice is read, or after its end and has no text. -/
theorem Finishes.at (h : Finishes i (pre ++ c :: post)) (hc : c.choiceIndex = i) :
    (∀ d ∈ ofChoice i pre, d.finishes = false) ∨ Finishes i pre ∧ c.textDelta = "" := by
  obtain ⟨before, last, _, hsplit, hbefore, hlast, hafter⟩ := h
  have hes : ofChoice i (pre ++ c :: post) = ofChoice i pre ++ c :: ofChoice i post := by
    simp [ofChoice, hc]
  rw [hes] at hsplit
  rcases append_eq_append_iff.mp hsplit with ⟨rest, hrest, -⟩ | ⟨rest, hrest, hends⟩
  · exact .inl fun d hd => hbefore d (by simp [hrest, hd])
  cases rest with
  | nil => exact .inl fun d hd => hbefore d (by simpa [hrest] using hd)
  | cons d rest =>
    obtain ⟨rfl, rfl⟩ := cons.inj hends
    refine .inr ⟨⟨before, last, rest, hrest, hbefore, hlast, fun d hd => ?_⟩, ?_⟩
    · exact hafter d (by simp [hd])
    · exact hafter c (by simp)

/-- **What is not kept is not yielded on any field.** -/
theorem redacted_feed {os₁ : List (GenerationChunk Λ)} {t : Suppressor}
    (hkeep : cfg.keepReasoning = false) (hrun : runs step cfg.start pre = some (t, os₁))
    (hfin : Finishes i (pre ++ c :: post)) (hc : c.choiceIndex = i) :
    ∀ o ∈ (t.feed c).2, Redacted cfg (choiceText i pre) c o := by
  have hdone := done_run hrun i
  have hchoice : Strips cfg (t.states i) ∧ ((t.states i).inside = false →
      ((t.states i).feed c.textDelta.toList).2 = c.textDelta.toList →
      cfg.bodies (choiceText i pre ++ c.textDelta.toList) = cfg.bodies (choiceText i pre)) := by
    rcases hfin.at hc with hgoes | ⟨hended, htext⟩
    · obtain ⟨E, hE⟩ := hdone.reading hgoes
      exact ⟨hE.strips, hE.bodies_eq⟩
    · exact ⟨(hdone.ended hended).strips, fun _ _ => by simp [htext]⟩
  obtain ⟨hstrips, hbodies⟩ := hchoice
  subst hc
  obtain ⟨o, hos, -, hreasoning, htool, hlogprobs, hcandidates, hmessage⟩ :=
    (chunkTurn_feed t c).alone
      ((parts_take (hstrips.keep.trans hkeep) c).trans hstrips.parts)
  intro o' ho'
  rw [hos, mem_singleton] at ho'
  subst ho'
  refine ⟨hreasoning, htool, hmessage, ?_, fun xs hxs => ?_⟩
  · rw [take_changed] at hlogprobs
    split_ifs at hlogprobs with hshown
    · exact .inl hlogprobs
    · simp at hshown
      exact .inr ⟨hlogprobs, hbodies hshown.2 hshown.1⟩
  · refine ⟨xs.map fun x => (cfg.rewriteCandidate x).1, by
      rw [hcandidates, hxs, hdone.config]; rfl, ?_⟩
    rw [forall₂_map_right_iff, forall₂_same]
    exact fun x _ => redacted_rewriteCandidate hkeep x

/-! ### Two generations -/

/-- Two texts that differ only inside of reasoning blocks, read in the same mode. -/
inductive SameOutside (f : ReasoningFormat) : Bool → List Char → List Char → Prop
  | plain (v : List Char) (hv : f.markers.Free false v) : SameOutside f false v v
  | opens (v x y : List Char) (hv : f.markers.Free false v) (h : SameOutside f true x y) :
      SameOutside f false (v ++ (f.opening ++ x)) (v ++ (f.opening ++ y))
  | stray (v x y : List Char) (hv : f.markers.Free false v) (h : SameOutside f false x y) :
      SameOutside f false (v ++ (f.closing ++ x)) (v ++ (f.closing ++ y))
  | unclosed (b b' : List Char) (hb : f.markers.Free true b) (hb' : f.markers.Free true b') :
      SameOutside f true b b'
  | closes (b b' x y : List Char) (hb : f.markers.Free true b) (hb' : f.markers.Free true b')
      (h : SameOutside f false x y) :
      SameOutside f true (b ++ (f.closing ++ x)) (b' ++ (f.closing ++ y))

theorem SameOutside.visible_eq {f : ReasoningFormat} {inside : Bool} {x y : List Char}
    (h : SameOutside f inside x y) :
    within false (marked (f.markers.scan inside x)) =
      within false (marked (f.markers.scan inside y)) := by
  have hopen : (f.opening, true) ∈ f.markers.of false := mem_markers_outside.mpr (.inl rfl)
  have hstray : (f.closing, false) ∈ f.markers.of false := mem_markers_outside.mpr (.inr rfl)
  have hclose : (f.closing, false) ∈ f.markers.of true := mem_markers_inside.mpr rfl
  induction h with
  | plain => rfl
  | opens _ _ _ hv _ ih =>
    simp [hv.scan_then_marker hopen, marked_append, marked_cons_marker, within_append, ih]
  | stray _ _ _ hv _ ih =>
    simp [hv.scan_then_marker hstray, marked_append, marked_cons_marker, within_append, ih]
  | unclosed _ _ hb hb' =>
    simp [hb.scan, hb'.scan, marked_chars, within_other (show true ≠ false by decide)]
  | closes _ _ _ _ hb hb' _ ih =>
    simp only [hb.scan_then_marker hclose, hb'.scan_then_marker hclose, marked_append, marked_chars,
      marked_cons_marker, within_append, ih, within_other (show true ≠ false by decide)]

/-! ### The result -/

section

variable (i) (cs : List (GenerationChunk Λ))

/-- The joined reasoning deltas of a choice. -/
def choiceReasoning : List Char :=
  (ofChoice i cs).flatMap fun c => c.reasoningDelta.toList

theorem within_false_choiceMarks : within false (choiceMarks i cs) = choiceText i cs := by
  rw [choiceMarks, choiceText]
  induction ofChoice i cs with
  | nil => rfl
  | cons c cs ih =>
    simp [marks, ih, within_other (show true ≠ false by decide)]

theorem within_true_choiceMarks : within true (choiceMarks i cs) = choiceReasoning i cs := by
  rw [choiceMarks, choiceReasoning]
  induction ofChoice i cs with
  | nil => rfl
  | cons c cs ih =>
    simp [marks, ih, within_other (show false ≠ true by decide)]

end

theorem text_of_run (hrun : runs step cfg.start es = some (s, os)) (hfin : Finishes i es) :
    choiceText i os = cfg.visible (choiceText i es) := by
  rw [← within_false_choiceMarks]
  exact ((done_run hrun i).ended hfin).yields.visible

theorem runs_step (s : Suppressor) (es : List (GenerationChunk Λ)) :
    ∃ t os, runs step s es = some (t, os) := by
  induction es generalizing s with
  | nil => exact ⟨s, [], rfl⟩
  | cons c es ih =>
    obtain ⟨t, os, h⟩ := ih (s.feed c).1
    exact ⟨t, _, runs_cons_eq_some.mpr ⟨_, _, os, rfl, h, rfl⟩⟩

/-- **Hidden reasoning stays hidden.**  However the text of a choice is cut and whatever other
choices do in between, its joined text deltas are the text outside of the reasoning blocks.
With the reasoning kept, its joined reasoning deltas are the bodies, and both come in the
order of the text.  Two generations that differ only in the bodies have the same visible
text, and with the reasoning not kept no field has a character of a body. -/
theorem thinking_suppressed (cfg : Suppression) (i : ℕ) (es : List (GenerationChunk Λ))
    (hfin : Finishes i es) :
    ∃ s os, runs step cfg.start es = some (s, os) ∧
      choiceText i os = cfg.visible (choiceText i es) ∧
      (cfg.keepReasoning = true → (∀ c ∈ ofChoice i es, c.reasoningDelta = "") →
        choiceReasoning i os = cfg.bodies (choiceText i es) ∧
        choiceMarks i os = marked (cfg.format.markers.scan cfg.startInside (choiceText i es))) ∧
      (∀ (es' : List (GenerationChunk Λ)) s' os',
        runs step cfg.start es' = some (s', os') → Finishes i es' →
        SameOutside cfg.format cfg.startInside (choiceText i es) (choiceText i es') →
        choiceText i os = choiceText i os') ∧
      (cfg.keepReasoning = false → ∀ pre c post t os₁, es = pre ++ c :: post →
        c.choiceIndex = i → runs step cfg.start pre = some (t, os₁) →
        ∀ o ∈ (t.feed c).2, Redacted cfg (choiceText i pre) c o) := by
  obtain ⟨s, os, hrun⟩ := runs_step cfg.start es
  refine ⟨s, os, hrun, text_of_run hrun hfin, fun hkeep hraw => ?_, ?_, ?_⟩
  · have hall := ((done_run hrun i).ended hfin).yields.all hkeep hraw
    exact ⟨by rw [← within_true_choiceMarks, hall, bodies], hall⟩
  · intro es' s' os' hrun' hfin' hsame
    rw [text_of_run hrun hfin, text_of_run hrun' hfin']
    exact hsame.visible_eq
  · rintro hkeep pre c post t os₁ rfl hc hpre
    exact redacted_feed hkeep hpre hfin hc

namespace TwoChoices

/-- Two choices of one generation; the markers of the first are cut. -/
def chunks : List (GenerationChunk Unit) :=
  [{ textDelta := "Hi<thi" }, { textDelta := "</think>on", choiceIndex := 1 },
    { textDelta := "nk>sec</th" },
    { textDelta := "<think>x", choiceIndex := 1, finishReason := some .stop },
    { textDelta := "ink>!", done := true, finishReason := some .stop }]

def hidden : Suppression where
  startInside := false
  format := .qwen3
  keepReasoning := true
  isSpace c := c == ' '

theorem finishes : Finishes 0 chunks :=
  ⟨[{ textDelta := "Hi<thi" }, { textDelta := "nk>sec</th" }],
    { textDelta := "ink>!", done := true, finishReason := some .stop }, [], by decide,
    by decide, by decide, by decide⟩

theorem scan_text : hidden.visible (choiceText 0 chunks) = ['H', 'i', '!'] ∧
    hidden.bodies (choiceText 0 chunks) = ['s', 'e', 'c'] := by
  decide +kernel

/-- At a generation of two choices: the first shows what stands around its block. -/
theorem thinking_suppressed_chunks : ∃ s os, runs step hidden.start chunks = some (s, os) ∧
    choiceText 0 os = ['H', 'i', '!'] ∧ choiceReasoning 0 os = ['s', 'e', 'c'] := by
  obtain ⟨s, os, hrun, htext, hkept, -⟩ := thinking_suppressed hidden 0 chunks finishes
  refine ⟨s, os, hrun, htext.trans scan_text.1, ?_⟩
  exact (hkept rfl (by decide)).1.trans scan_text.2

end TwoChoices

end Sie.Server
