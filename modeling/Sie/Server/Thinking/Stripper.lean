import Sie.Server.Thinking

/-!
# What the stripper hands on

A whole text, read with the markers of a reasoning format, is a list of characters inside
and outside of reasoning blocks (`ReasoningFormat.markers`, `Markers.scan`).  The stripper
gets the text in pieces.  `Fed` says which marks a call has read, whatever text follows, and
`Holds` what may be held back between two calls.
-/

namespace Sie.Server

open Sie.Lib List ReasoningFormat

/-- The markers of a format.  The mode says whether a reasoning block is open. -/
def ReasoningFormat.markers (f : ReasoningFormat) : Markers Bool Char where
  head := '<'
  of inside := if inside then [(f.closing, false)] else [(f.opening, true), (f.closing, false)]
  sharp inside p hp := by
    have hp' : p.1 = f.closing ∨ p.1 = f.opening := by
      cases inside <;> simp at hp <;> grind
    rcases hp' with h | h <;> rw [h] <;> cases f <;> exact ⟨_, rfl, by decide⟩
  prefixFree inside p hp q hq h := by
    cases inside <;> cases f <;> simp at hp hq <;>
      grind [opening, closing]

/-! ### What is held back -/

section delimiterPrefixLength
variable {text : List Char} {ds : List (List Char)} {d : List Char}

theorem delimiterPrefixFrom_le (n : ℕ) : delimiterPrefixFrom text ds n ≤ n := by
  induction n with
  | zero => exact le_rfl
  | succ n ih =>
    rw [delimiterPrefixFrom]
    split <;> omega

/-- No length above the one that is returned begins a delimiter. -/
theorem not_prefix_of_delimiterPrefixFrom_lt {n k : ℕ} (hk : k ≤ n)
    (hlt : delimiterPrefixFrom text ds n < k) (hd : d ∈ ds) :
    ¬ text.drop (text.length - k) <+: d := by
  induction n with
  | zero => omega
  | succ n ih =>
    rw [delimiterPrefixFrom] at hlt
    split_ifs at hlt with hnone
    · omega
    rcases Nat.lt_or_eq_of_le hk with hk | rfl
    · exact ih (by omega) hlt
    · simp only [any_eq_true, isPrefixOf_iff_prefix] at hnone
      exact fun hpre => hnone ⟨d, hd, hpre⟩

theorem length_le_foldr_max (hd : d ∈ ds) : d.length ≤ (ds.map length).foldr max 0 := by
  induction ds with
  | nil => simp at hd
  | cons e ds ih =>
    rcases mem_cons.mp hd with rfl | hd
    · exact le_max_left ..
    · exact (ih hd).trans (le_max_right ..)

/-- No longer end of the text begins a delimiter, unless it is that delimiter. -/
theorem eq_of_prefix_of_lt {j : ℕ} (hj : j < text.length - delimiterPrefixLength text ds)
    (hd : d ∈ ds) (hpre : text.drop j <+: d) : d = text.drop j := by
  have hlen := hpre.length_le
  have hmax := length_le_foldr_max hd
  rw [length_drop] at hlen
  by_cases hfit : text.length - j ≤ (ds.map length).foldr max 0 - 1
  · refine absurd hpre ?_
    rw [show j = text.length - (text.length - j) by omega]
    exact not_prefix_of_delimiterPrefixFrom_lt (le_min hfit (Nat.sub_le _ _))
      (show delimiterPrefixLength text ds < text.length - j by omega) hd
  · exact (hpre.eq_of_length (by rw [length_drop]; omega)).symm

end delimiterPrefixLength

/-! ### The stripper -/

/-- The characters of the runs, in order, with whether each is reasoning. -/
def told (parts : List (List Char × List Char)) : List (Bool × Char) :=
  parts.flatMap fun part => part.1.map (Prod.mk true) ++ part.2.map (Prod.mk false)

@[simp] theorem told_nil : told [] = [] := rfl

@[simp] theorem told_append (ps qs : List (List Char × List Char)) :
    told (ps ++ qs) = told ps ++ told qs := flatMap_append

@[simp] theorem told_singleton (reasoning visible : List Char) :
    told [(reasoning, visible)] = reasoning.map (Prod.mk true) ++ visible.map (Prod.mk false) := by
  simp [told]

@[simp] theorem within_told (parts : List (List Char × List Char)) :
    within true (told parts) = parts.flatMap Prod.fst ∧
      within false (told parts) = parts.flatMap Prod.snd := by
  induction parts with
  | nil => exact ⟨rfl, rfl⟩
  | cons part parts ih =>
    have hhead : told (part :: parts) = _ ++ told parts := flatMap_cons
    simp [hhead, ih, within_other]

namespace ThinkingBlockStripper
variable {s s' s'' : ThinkingBlockStripper} {text v v' : List Char}

@[simp] theorem same_hide : (s.hide text).format = s.format ∧ (s.hide text).keep = s.keep ∧
    (s.hide text).inside = s.inside := by
  unfold hide
  split <;> [split; skip] <;> exact ⟨rfl, rfl, rfl⟩

@[simp] theorem same_display : (s.display text).format = s.format ∧
    (s.display text).keep = s.keep ∧ (s.display text).inside = s.inside := by
  unfold display
  split <;> exact ⟨rfl, rfl, rfl⟩

theorem told_hide (h : s.keep = true) :
    told (s.hide text).parts = told s.parts ++ text.map (Prod.mk true) := by
  by_cases htext : text = []
  · simp [hide, htext]
  simp [hide, h, htext]
  split
  next hlast =>
    conv_rhs => rw [← dropLast_append_getLast? _ hlast]
    simp
  · simp

theorem told_display (h : s.keep = true) :
    told (s.display text).parts = told s.parts ++ text.map (Prod.mk false) := by
  by_cases htext : text = []
  · simp [display, htext]
  simp [display, h, htext]
  cases hlast : s.parts.getLast? with
  | none => simp [getLast?_eq_none_iff.mp hlast]
  | some last =>
    obtain ⟨_, _⟩ := last
    conv_rhs => rw [← dropLast_append_getLast? _ hlast]
    simp

/-- The longest buffer that is ever held back outside of a block. -/
def bound (f : ReasoningFormat) : ℕ := max f.opening.length f.closing.length - 1

/-- What one call hands on: the characters `l`, with whether each is reasoning. -/
structure Tells (s s' : ThinkingBlockStripper) (visible : List Char) (l : List (Bool × Char)) :
    Prop where
  shown : visible = within false l
  kept : s.keep = true → told s'.parts = told s.parts ++ l
  dropped : s.keep = false → s'.parts = s.parts
  format : s'.format = s.format
  keep : s'.keep = s.keep

/-- One call reads the marks `E` of the buffer, whatever follows. -/
structure Fed (s s' : ThinkingBlockStripper) (visible : List Char) (E : List (Mark Bool Char)) :
    Prop where
  reads : s.format.markers.Reads s.inside s.buffer E s'.inside s'.buffer
  tells : Tells s s' visible (marked E)

/-- A stripper between two pieces of text. -/
structure Holds (s : ThinkingBlockStripper) : Prop where
  free : s.format.markers.Free s.inside s.buffer
  short : s.inside = false → s.buffer.length ≤ bound s.format

theorem Tells.trans {l l' : List (Bool × Char)} (h : Tells s s' v l) (h' : Tells s' s'' v' l') :
    Tells s s'' (v ++ v') (l ++ l') where
  shown := by simp [h.shown, h'.shown]
  kept hkeep := by simp [h'.kept (h.keep.trans hkeep), h.kept hkeep]
  dropped hkeep := (h'.dropped (h.keep.trans hkeep)).trans (h.dropped hkeep)
  format := h'.format.trans h.format
  keep := h'.keep.trans h.keep

theorem Fed.trans {E F : List (Mark Bool Char)} (h : Fed s s' v E) (h' : Fed s' s'' v' F) :
    Fed s s'' (v ++ v') (E ++ F) where
  reads := h.reads.trans (h.tells.format ▸ h'.reads)
  tells := marked_append E F ▸ h.tells.trans h'.tells

section
variable {rest : List Char} {inside : Bool}

theorem tells_hide (s : ThinkingBlockStripper) (text : List Char) :
    Tells s { s.hide text with buffer := rest, inside := inside } [] (text.map (Prod.mk true)) where
  shown := (within_other (by decide) _).symm
  kept hkeep := told_hide hkeep
  dropped hkeep := by simp [hide, hkeep]
  format := same_hide.1
  keep := same_hide.2.1

theorem tells_display (s : ThinkingBlockStripper) (text : List Char) :
    Tells s { s.display text with buffer := rest, inside := inside } text
      (text.map (Prod.mk false)) where
  shown := (within_same ..).symm
  kept hkeep := told_display hkeep
  dropped hkeep := by simp [display, hkeep]
  format := same_display.1
  keep := same_display.2.1

variable {E : List (Mark Bool Char)}

theorem fed_hide (hin : s.inside = true)
    (hreads : s.format.markers.Reads s.inside s.buffer E s'.inside s'.buffer)
    (hE : marked E = text.map (Prod.mk s.inside))
    (hs' : s' = { s.hide text with buffer := s'.buffer, inside := s'.inside }) : Fed s s' [] E := by
  refine ⟨hreads, ?_⟩
  rw [hE, hin, hs']
  exact tells_hide s text

theorem fed_display (hout : s.inside = false)
    (hreads : s.format.markers.Reads s.inside s.buffer E s'.inside s'.buffer)
    (hE : marked E = text.map (Prod.mk s.inside))
    (hs' : s' = { s.display text with buffer := s'.buffer, inside := s'.inside }) :
    Fed s s' text E := by
  refine ⟨hreads, ?_⟩
  rw [hE, hout, hs']
  exact tells_display s text

end

variable {f : ReasoningFormat} {q : List Char × Bool}

theorem mem_markers_inside : q ∈ f.markers.of true ↔ q = (f.closing, false) := by
  simp [markers]

theorem mem_markers_outside :
    q ∈ f.markers.of false ↔ q = (f.opening, true) ∨ q = (f.closing, false) := by
  simp [markers]

theorem meets_closing {closeAt : ℕ} (hin : s.inside = true)
    (h : find s.format.closing s.buffer = some closeAt) :
    s.format.markers.Meets s.inside s.buffer closeAt (s.format.closing, false) := by
  obtain ⟨hhere, hfirst⟩ := find_eq_some h
  rw [hin]
  refine ⟨mem_markers_inside.mpr rfl, hhere, fun j hj q hq => ?_⟩
  obtain rfl := mem_markers_inside.mp hq
  exact hfirst j hj

theorem free_of_closing (hin : s.inside = true) (h : find s.format.closing s.buffer = none) :
    s.format.markers.Free s.inside s.buffer := by
  intro j q hq
  rw [hin] at hq
  obtain rfl := mem_markers_inside.mp hq
  exact find_eq_none h j

/-- The smaller of the two places is the place of the leftmost marker. -/
theorem meets_firstMarker {markerAt : ℕ} {marker : List Char} {opens : Bool}
    (hout : s.inside = false) (h : s.firstMarker = some (markerAt, marker, opens)) :
    s.format.markers.Meets s.inside s.buffer markerAt (marker, opens) := by
  have hmeets : (marker, opens) ∈ s.format.markers.of false ∧ marker <+: s.buffer.drop markerAt ∧
      (∀ j < markerAt, ¬ s.format.opening <+: s.buffer.drop j) ∧
      ∀ j < markerAt, ¬ s.format.closing <+: s.buffer.drop j := by
    rw [mem_markers_outside]
    unfold firstMarker at h
    split at h
    next openAt closeAt ho hc =>
      have ho' := find_eq_some ho
      have hc' := find_eq_some hc
      split at h
      · cases h
        exact ⟨.inr rfl, hc'.1, fun j hj => ho'.2 j (by omega), hc'.2⟩
      · cases h
        exact ⟨.inl rfl, ho'.1, ho'.2, fun j hj => hc'.2 j (by omega)⟩
    next openAt ho hc =>
      cases h
      exact ⟨.inl rfl, (find_eq_some ho).1, (find_eq_some ho).2, fun j _ => find_eq_none hc j⟩
    next closeAt ho hc =>
      cases h
      exact ⟨.inr rfl, (find_eq_some hc).1, fun j _ => find_eq_none ho j, (find_eq_some hc).2⟩
    · cases h
  obtain ⟨hmem, hhere, hopen, hclose⟩ := hmeets
  rw [hout]
  refine ⟨hmem, hhere, fun j hj q hq => ?_⟩
  rcases mem_markers_outside.mp hq with rfl | rfl
  · exact hopen j hj
  · exact hclose j hj

theorem free_of_firstMarker (hout : s.inside = false) (h : s.firstMarker = none) :
    s.format.markers.Free s.inside s.buffer := by
  have hnone : find s.format.opening s.buffer = none ∧ find s.format.closing s.buffer = none := by
    unfold firstMarker at h
    split at h
    · split at h <;> cases h
    · cases h
    · cases h
    next ho hc => exact ⟨ho, hc⟩
  intro j q hq
  rw [hout] at hq
  rcases mem_markers_outside.mp hq with rfl | rfl
  · exact find_eq_none hnone.1 j
  · exact find_eq_none hnone.2 j

/-- What is not held back is read, whatever follows. -/
theorem reads_take {ds : List (List Char)} (hfree : s.format.markers.Free s.inside s.buffer)
    (hds : ∀ q ∈ s.format.markers.of s.inside, q.1 ∈ ds) {upto : ℕ}
    (hupto : upto = s.buffer.length - delimiterPrefixLength s.buffer ds) :
    s.format.markers.Reads s.inside s.buffer ((s.buffer.take upto).map (.char s.inside))
      s.inside (s.buffer.drop upto) := by
  have hsplit := take_append_drop upto s.buffer
  have hreads := Markers.Free.reads (e := s.buffer.take upto) (k := s.buffer.drop upto)
    (hsplit.symm ▸ hfree) fun j hj q hq hpre => by
      rw [hsplit] at hpre
      rw [length_take] at hj
      have heq := eq_of_prefix_of_lt (by omega) (hds q hq) hpre
      exact hfree j q hq (heq ▸ prefix_rfl)
  rwa [hsplit] at hreads

theorem marked_read (m : Bool) (l d : List Char) (n : Bool) :
    marked (l.map (.char m) ++ [.marker d n]) = l.map (Prod.mk m) := by
  rw [marked_append, marked_chars, marked_cons_marker, marked_nil, append_nil]

theorem fed_feedLoop (s : ThinkingBlockStripper) :
    ∃ E, Fed s s.feedLoop.1 s.feedLoop.2 E ∧ Holds s.feedLoop.1 := by
  fun_induction feedLoop s with
  | case1 s hbuffer =>
    refine ⟨[], ⟨fun _ => rfl, rfl, by simp, by simp, rfl, rfl⟩, ?_, ?_⟩
    · simpa [hbuffer] using Markers.free_nil s.format.markers s.inside
    · simp [hbuffer]
  | case2 _ _ hin _ hfind _ ih =>
    obtain ⟨F, hF, hheld⟩ := ih
    exact ⟨_, (fed_hide hin (meets_closing hin hfind).reads (marked_read ..) rfl).trans hF, hheld⟩
  | case3 s _ hin hfind _ hideUpto =>
    have hfree := free_of_closing hin hfind
    have hds : ∀ q ∈ s.format.markers.of s.inside, q.1 ∈ [s.format.closing] := by
      intro q hq
      rw [hin] at hq
      simp [mem_markers_inside.mp hq]
    refine ⟨_, fed_hide hin ?_ (marked_chars _ (s.buffer.take hideUpto)) rfl, ?_, ?_⟩
    · simpa using reads_take hfree hds rfl
    · simpa using hfree.drop hideUpto
    · simp [hin]
  | case4 _ _ hout _ _ _ hfirst _ _ _ ih =>
    obtain ⟨F, hF, hheld⟩ := ih
    rw [Bool.not_eq_true] at hout
    have hmeets := meets_firstMarker hout hfirst
    exact ⟨_, (fed_display hout hmeets.reads (marked_read ..) rfl).trans hF, hheld⟩
  | case5 s _ hout hfirst keep emitUpto _ rest =>
    rw [Bool.not_eq_true] at hout
    have hfree := free_of_firstMarker hout hfirst
    have hds : ∀ q ∈ s.format.markers.of s.inside,
        q.1 ∈ [s.format.opening, s.format.closing] := by
      intro q hq
      rw [hout] at hq
      rcases mem_markers_outside.mp hq with rfl | rfl <;> simp
    refine ⟨_, fed_display hout ?_ (marked_chars _ (s.buffer.take emitUpto)) rfl, ?_, ?_⟩
    · simpa using reads_take hfree hds rfl
    · simpa using hfree.drop emitUpto
    · have hle : delimiterPrefixLength s.buffer [s.format.opening, s.format.closing] ≤ _ :=
        delimiterPrefixFrom_le _
      simp at hle
      simp only [rest, emitUpto, keep, length_drop, same_display, bound]
      omega

/-- What `feed` does. -/
theorem fed_feed (s : ThinkingBlockStripper) (text : List Char) :
    ∃ E, Fed { s with buffer := s.buffer ++ text } (s.feed text).1 (s.feed text).2 E ∧
      Holds (s.feed text).1 := fed_feedLoop _

theorem feed_nil (h : s.buffer = []) : s.feed [] = (s, []) := by
  rw [feed, feedLoop]
  simp only [h, append_nil, dif_pos]
  rw [← h]

/-- `finish` hands on what was held back: plain text, or the end of an open block. -/
theorem tells_finish (s : ThinkingBlockStripper) :
    Tells s s.finish.1 s.finish.2 (s.buffer.map (Prod.mk s.inside)) := by
  unfold finish
  cases hin : s.inside
  · exact tells_display s s.buffer
  · exact tells_hide s s.buffer

/-- A choice that ended is as one that has no text to come: no block is open, and nothing is
held back. -/
structure Empty (s : ThinkingBlockStripper) : Prop where
  buffer : s.buffer = []
  inside : s.inside = false

theorem empty_finish (s : ThinkingBlockStripper) : Empty s.finish.1 := by
  unfold finish
  cases s.inside <;> exact ⟨rfl, rfl⟩

/-- **The end of a choice**: the whole text is handed on. -/
theorem tells_feed_finish (s : ThinkingBlockStripper) (text : List Char) :
    Tells s (s.feed text).1.finish.1 ((s.feed text).2 ++ (s.feed text).1.finish.2)
      (marked (s.format.markers.scan s.inside (s.buffer ++ text))) := by
  obtain ⟨E, hE, hholds⟩ := fed_feed s text
  have hformat : (s.feed text).1.format = s.format := hE.tells.format
  have hscan := hE.reads.scan (hformat ▸ hholds.free)
  have htells := hE.tells.trans (tells_finish (s.feed text).1)
  rw [← marked_chars, ← marked_append, ← hscan] at htells
  exact { htells with }

end ThinkingBlockStripper

/-- **A whole text is split as it is read**: what stands outside of the blocks, and the
bodies. -/
theorem splitThinkingBlocks_eq (text : List Char) (startInside : Bool) (f : ReasoningFormat) :
    splitThinkingBlocks text startInside f =
      (within false (marked (f.markers.scan startInside text)),
        within true (marked (f.markers.scan startInside text))) := by
  have h := ThinkingBlockStripper.tells_feed_finish
    { inside := startInside, format := f, keep := true } text
  refine Prod.ext h.shown ?_
  have hkept := congrArg (within true) (h.kept rfl)
  simpa [splitThinkingBlocks] using hkept

/-! ### How much is hidden -/

/-- A block body costs at least its opening marker. -/
theorem length_scan (f : ReasoningFormat) (inside : Bool) (text : List Char) :
    (within false (marked (f.markers.scan inside text))).length
      + (within true (marked (f.markers.scan inside text))).length ≤ text.length ∧
    (inside = false → within true (marked (f.markers.scan inside text)) ≠ [] →
      (within false (marked (f.markers.scan inside text))).length
        + (within true (marked (f.markers.scan inside text))).length
        + f.opening.length ≤ text.length) := by
  induction inside, text using Markers.scan_induction (S := f.markers) with
  | nil => simp
  | char inside _ _ hnone ih =>
    rw [Markers.scan_char hnone]
    obtain ⟨hall, hbody⟩ := ih
    cases inside
    · have hbody := hbody rfl
      simp only [marked_cons_char, within_cons, if_true, length_cons, Bool.false_eq_true, if_false]
      exact ⟨by omega, fun _ h => by have := hbody h; omega⟩
    · simp [marked_cons_char, within_cons]
      omega
  | marker _ _ _ hp ih =>
    rw [Markers.scan_marker_append hp, marked_cons_marker, length_append]
    obtain ⟨hall, hbody⟩ := ih
    refine ⟨by omega, fun hout h => ?_⟩
    subst hout
    rcases ThinkingBlockStripper.mem_markers_outside.mp hp with rfl | rfl
    · dsimp only at hall ⊢
      omega
    · have := hbody rfl h
      omega

end Sie.Server
