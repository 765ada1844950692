import Mathlib.Data.List.Infix

/-!
# Reading a text that is cut by markers

A reader of a text is in a mode; in each mode some words are markers, which are taken out
of the text and lead to a mode.  `Markers.scan` says what the whole text is: its characters
with the mode each stands in, and the markers.  A program that gets the text piece by piece
must hold back what may still become a marker.  `Markers.Reads` says that a buffer was
handed on rightly: whatever follows, the scan of the buffer is what was handed on, then the
scan of what is held back.

All markers begin with one character that stands nowhere else in them, and in a mode no
marker begins another.  So two markers never overlap, and the leftmost one in a buffer is
the leftmost one of every longer text.

## Main definitions

* `Markers μ α` — the markers of each mode; `Markers.scan` — the whole text, read.
* `Markers.Reads` — a buffer is handed on in part, whatever comes after it.
* `Markers.Meets`, `Markers.Free` — the leftmost marker of a buffer, and that it has none.
* `find` — the first place of a word.
-/

namespace Sie.Lib

open List

universe u v
variable {μ : Type u} {α : Type v}

/-- The words that are markers in each mode, with the mode a marker leads to. -/
structure Markers (μ : Type u) (α : Type v) where
  /-- The character every marker begins with. -/
  head : α
  of : μ → List (List α × μ)
  sharp : ∀ m, ∀ p ∈ of m, ∃ t, p.1 = head :: t ∧ head ∉ t
  prefixFree : ∀ m, ∀ p ∈ of m, ∀ q ∈ of m, p.1 <+: q.1 → p = q

/-- What a text consists of: characters, each in a mode, and markers. -/
inductive Mark (μ : Type u) (α : Type v)
  | char (m : μ) (a : α)
  | marker (d : List α) (next : μ)
  deriving DecidableEq

/-- The text a mark stands for. -/
def Mark.text : Mark μ α → List α
  | char _ a => [a]
  | marker d _ => d

/-- The characters among the marks, with their modes. -/
def marked (E : List (Mark μ α)) : List (μ × α) :=
  E.filterMap fun
    | .char m a => some (m, a)
    | .marker _ _ => none

@[simp] theorem marked_nil : marked ([] : List (Mark μ α)) = [] := rfl

@[simp] theorem marked_cons_char (m : μ) (a : α) (E : List (Mark μ α)) :
    marked (.char m a :: E) = (m, a) :: marked E := rfl

@[simp] theorem marked_cons_marker (d : List α) (m : μ) (E : List (Mark μ α)) :
    marked (.marker d m :: E) = marked E := rfl

@[simp] theorem marked_append (E F : List (Mark μ α)) :
    marked (E ++ F) = marked E ++ marked F := filterMap_append ..

@[simp] theorem marked_chars (m : μ) (l : List α) :
    marked (l.map (.char m)) = l.map (Prod.mk m) := by
  induction l with
  | nil => rfl
  | cons a l ih => simp [ih]

/-- The characters in one mode. -/
def within [DecidableEq μ] (m : μ) (l : List (μ × α)) : List α :=
  (l.filter fun p => p.1 = m).map Prod.snd

section
variable [DecidableEq μ] {m : μ}

@[simp] theorem within_nil (m : μ) : within m ([] : List (μ × α)) = [] := rfl

@[simp] theorem within_cons (m n : μ) (a : α) (l : List (μ × α)) :
    within m ((n, a) :: l) = if n = m then a :: within m l else within m l := by
  by_cases h : n = m <;> simp [within, h]

@[simp] theorem within_append (m : μ) (l l' : List (μ × α)) :
    within m (l ++ l') = within m l ++ within m l' := by
  simp [within]

@[simp] theorem within_same (m : μ) (l : List α) : within m (l.map (Prod.mk m)) = l := by
  simp [within, filter_map, Function.comp_def]

theorem within_other {n : μ} (h : n ≠ m) (l : List α) : within m (l.map (Prod.mk n)) = [] := by
  simp [within, h]

end

namespace Markers

variable {S : Markers μ α} {m : μ} {p : List α × μ}

theorem length_pos (hp : p ∈ S.of m) : 0 < p.1.length := by
  obtain ⟨t, ht, -⟩ := S.sharp m p hp
  simp [ht]

/-- A marker does not begin inside another: only its first character is the head. -/
theorem not_head_inside (hp : p ∈ S.of m)
    {w l : List α} (hw : w ≠ []) : p.1 ≠ w ++ S.head :: l := by
  intro h
  obtain ⟨t, ht, hnot⟩ := S.sharp m p hp
  cases w with
  | nil => exact hw rfl
  | cons a w =>
    rw [ht] at h
    have htail : t = w ++ S.head :: l := (cons.inj h).2
    exact hnot (by simp [htail])

/-! ### Where markers stand -/

/-- No marker of the mode stands anywhere in the buffer. -/
def Free (S : Markers μ α) (m : μ) (b : List α) : Prop :=
  ∀ j, ∀ q ∈ S.of m, ¬ q.1 <+: b.drop j

theorem free_nil (S : Markers μ α) (m : μ) : S.Free m [] := by
  intro j q hq h
  have hpos := length_pos hq
  rw [drop_nil, prefix_nil] at h
  simp [h] at hpos

theorem Free.drop {b : List α} (h : S.Free m b) (n : ℕ) : S.Free m (b.drop n) := by
  intro j q hq hpre
  rw [drop_drop] at hpre
  exact h (n + j) q hq hpre

/-- The leftmost marker of the mode in the buffer is `p`, and it stands at `i`. -/
structure Meets (S : Markers μ α) (m : μ) (b : List α) (i : ℕ) (p : List α × μ) : Prop where
  mem : p ∈ S.of m
  here : p.1 <+: b.drop i
  first : ∀ j < i, ∀ q ∈ S.of m, ¬ q.1 <+: b.drop j

variable [DecidableEq α]

/-- The marker of the mode `m` a text begins with. -/
def at? (S : Markers μ α) (m : μ) (l : List α) : Option (List α × μ) :=
  (S.of m).find? fun p => p.1.isPrefixOf l

/-- The whole text, read from the left in the mode `m`. -/
def scan (S : Markers μ α) (m : μ) (l : List α) : List (Mark μ α) :=
  match l with
  | [] => []
  | a :: as =>
    match S.at? m (a :: as) with
    | none => .char m a :: S.scan m as
    -- a marker is not empty: this is the text after it
    | some (d, n) => .marker d n :: S.scan n (as.drop (d.length - 1))
termination_by l.length
decreasing_by all_goals simp only [length_drop, length_cons]; omega

variable {m' m'' : μ} {l b b' b'' : List α} {E : List (Mark μ α)} {i : ℕ}

/-! ### The whole text -/

@[simp] theorem scan_nil (m : μ) : S.scan m [] = [] := by rw [scan]

theorem at?_eq_none_iff : S.at? m l = none ↔ ∀ q ∈ S.of m, ¬ q.1 <+: l := by
  simp [at?, find?_eq_none]

/-- A marker at the beginning of a text is the one read there: no other begins like it. -/
theorem at?_eq_some (hp : p ∈ S.of m) (hl : p.1 <+: l) : S.at? m l = some p := by
  cases h : S.at? m l with
  | none => exact absurd hl (at?_eq_none_iff.mp h p hp)
  | some q =>
    have hq : q ∈ S.of m := mem_of_find?_eq_some h
    have hql : q.1 <+: l := by simpa using find?_some h
    rcases prefix_or_prefix_of_prefix hl hql with hpq | hqp
    · rw [S.prefixFree m p hp q hq hpq]
    · rw [S.prefixFree m q hq p hp hqp]

theorem scan_char {a : α} (h : ∀ q ∈ S.of m, ¬ q.1 <+: a :: l) :
    S.scan m (a :: l) = .char m a :: S.scan m l := by
  rw [scan, at?_eq_none_iff.mpr h]

theorem scan_marker (hp : p ∈ S.of m) (hl : p.1 <+: l) :
    S.scan m l = .marker p.1 p.2 :: S.scan p.2 (l.drop p.1.length) := by
  have hpos := length_pos hp
  cases l with
  | nil => simp [prefix_nil.mp hl] at hpos
  | cons a as =>
    rw [scan, at?_eq_some hp hl]
    obtain ⟨n, hn⟩ : ∃ n, p.1.length = n + 1 := ⟨p.1.length - 1, by omega⟩
    simp [hn]

/-- **Induction along a scan**: the text is empty, or begins with a character that no marker
begins at, or with a marker. -/
theorem scan_induction {P : μ → List α → Prop} (nil : ∀ m, P m [])
    (char : ∀ m a l, (∀ q ∈ S.of m, ¬ q.1 <+: a :: l) → P m l → P m (a :: l))
    (marker : ∀ m p l, p ∈ S.of m → P p.2 l → P m (p.1 ++ l)) (m : μ) (l : List α) : P m l := by
  induction hn : l.length using Nat.strongRecOn generalizing m l with
  | ind _ ih =>
    subst hn
    by_cases hmark : ∃ p ∈ S.of m, p.1 <+: l
    · obtain ⟨p, hp, rest, rfl⟩ := hmark
      have hpos := length_pos hp
      exact marker m p rest hp (ih rest.length (by simp; omega) _ _ rfl)
    push Not at hmark
    cases l with
    | nil => exact nil m
    | cons a l => exact char m a l hmark (ih l.length (by simp) _ _ rfl)

theorem scan_marker_append (hp : p ∈ S.of m) (l : List α) :
    S.scan m (p.1 ++ l) = .marker p.1 p.2 :: S.scan p.2 l := by
  rw [scan_marker hp (prefix_append ..), drop_left]

/-- Nothing of the text is lost or added. -/
theorem text_scan (m : μ) (l : List α) : (S.scan m l).flatMap Mark.text = l := by
  induction m, l using scan_induction (S := S) with
  | nil => simp
  | char _ _ _ hnone ih => rw [scan_char hnone, flatMap_cons, ih]; rfl
  | marker _ _ _ hp ih => rw [scan_marker_append hp, flatMap_cons, ih]; rfl

/-- A text in which no marker begins before `rest` is read as its characters. -/
theorem scan_append {e rest : List α}
    (h : ∀ j < e.length, ∀ q ∈ S.of m, ¬ q.1 <+: (e ++ rest).drop j) :
    S.scan m (e ++ rest) = e.map (.char m) ++ S.scan m rest := by
  induction e with
  | nil => rfl
  | cons a e ih =>
    have hhere := h 0 (by simp)
    rw [drop_zero, cons_append] at hhere
    rw [cons_append, scan_char hhere, ih, map_cons, cons_append]
    intro j hj
    exact h (j + 1) (by simpa using hj)

theorem Free.scan (h : S.Free m b) : S.scan m b = b.map (.char m) := by
  have hb : S.scan m (b ++ []) = b.map (.char m) ++ S.scan m [] :=
    scan_append fun j _ => by simpa using h j
  simpa using hb

/-! ### Handing on a buffer -/

/-- Whatever follows the buffer `b` in the mode `m`, its scan begins with the marks `E`,
and what is left to read is `b'` in the mode `m'`. -/
def Reads (S : Markers μ α) (m : μ) (b : List α) (E : List (Mark μ α)) (m' : μ)
    (b' : List α) : Prop :=
  ∀ rest, S.scan m (b ++ rest) = E ++ S.scan m' (b' ++ rest)

theorem Reads.refl (S : Markers μ α) (m : μ) (b : List α) : S.Reads m b [] m b :=
  fun _ => rfl

theorem Reads.trans {F : List (Mark μ α)} (h : S.Reads m b E m' b') (h' : S.Reads m' b' F m'' b'') :
    S.Reads m b (E ++ F) m'' b'' := by
  intro rest
  rw [h rest, h' rest, append_assoc]

section

variable (h : S.Reads m b E m' b')
include h

theorem Reads.append (t : List α) : S.Reads m (b ++ t) E m' (b' ++ t) := by
  intro rest
  rw [append_assoc, append_assoc, h (t ++ rest)]

/-- At the end of the text, what is held back and has no marker is its characters. -/
theorem Reads.scan (hfree : S.Free m' b') : S.scan m b = E ++ b'.map (.char m') := by
  have hb := h []
  rwa [append_nil, append_nil, hfree.scan] at hb

theorem Reads.text : b = E.flatMap Mark.text ++ b' := by
  have hb := congrArg (flatMap Mark.text) (h [])
  simpa [text_scan] using hb

end

/-- **The leftmost marker of a buffer is the leftmost one of every longer text.** -/
theorem Meets.reads (h : S.Meets m b i p) :
    S.Reads m b ((b.take i).map (.char m) ++ [.marker p.1 p.2]) p.2 (b.drop (i + p.1.length)) := by
  intro rest
  obtain ⟨t, ht, -⟩ := S.sharp m p h.mem
  obtain ⟨after, hafter⟩ := h.here
  have hi : i ≤ b.length := by
    by_contra hlt
    have hnil : b.drop i = [] := drop_eq_nil_of_le (by omega)
    rw [hnil, ht] at hafter
    simp at hafter
  have hb : b = b.take i ++ (p.1 ++ after) := by rw [hafter, take_append_drop]
  have hlen : (b.take i).length = i := by simp [hi]
  have hdrop : b.drop (i + p.1.length) = after := by
    rw [← drop_drop, ← hafter, drop_left]
  have htext : b ++ rest = b.take i ++ (p.1 ++ (after ++ rest)) := by
    conv_lhs => rw [hb]
    simp
  rw [htext, scan_append, scan_marker h.mem (prefix_append _ _), drop_left, hdrop]
  · simp
  · intro j hj q hq hpre
    rw [hlen] at hj
    -- a marker there would either be in the buffer or run over the one at `i`
    have hq' : q.1 <+: (b.drop j) ++ rest := by
      rwa [← htext, drop_append_of_le_length (by omega)] at hpre
    rcases prefix_or_prefix_of_prefix hq' (prefix_append _ _) with hin | ⟨w, hw⟩
    · exact h.first j hj q hq hin
    have hover : q.1 = (b.drop j).take (i - j) ++ S.head :: (t ++ after ++ w) := by
      have hrun : b.drop j = (b.drop j).take (i - j) ++ (S.head :: t ++ after) := by
        conv_lhs => rw [← take_append_drop (i - j) (b.drop j)]
        rw [drop_drop, show j + (i - j) = i by omega, ← hafter, ht]
      rw [← hw]
      conv_lhs => rw [hrun]
      simp
    refine not_head_inside hq (fun hnil => ?_) hover
    have hnone := congrArg length hnil
    simp at hnone
    omega

omit [DecidableEq α] in
/-- A marker after a text that has none. -/
theorem Free.meets (h : S.Free m b) (hp : p ∈ S.of m) : S.Meets m (b ++ p.1) b.length p := by
  refine ⟨hp, by rw [drop_left], fun j hj q hq hpre => ?_⟩
  rw [drop_append_of_le_length hj.le] at hpre
  rcases prefix_or_prefix_of_prefix hpre (prefix_append _ _) with hin | ⟨w, hw⟩
  · exact h j q hq hin
  obtain ⟨t, ht, -⟩ := S.sharp m p hp
  rw [← hw] at hpre
  cases w with
  | nil => exact h j q hq (by rw [← hw, append_nil])
  | cons a w =>
    obtain ⟨rfl, -⟩ : a = S.head ∧ w <+: t := by
      simpa [ht] using (prefix_append_right_inj _).mp hpre
    exact not_head_inside hq (by simpa using hj) hw.symm

/-- A text without markers, then a marker, then anything. -/
theorem Free.scan_then_marker (h : S.Free m b) (hp : p ∈ S.of m) (l : List α) :
    S.scan m (b ++ (p.1 ++ l)) = b.map (.char m) ++ .marker p.1 p.2 :: S.scan p.2 l := by
  have hreads := (h.meets hp).reads l
  simpa using hreads

/-- **What cannot become a marker is handed on.**  The buffer has no marker, and from no
place before the held-back end on does it begin one. -/
theorem Free.reads {e k : List α} (h : S.Free m (e ++ k))
    (hheld : ∀ j < e.length, ∀ q ∈ S.of m, ¬ (e ++ k).drop j <+: q.1) :
    S.Reads m (e ++ k) (e.map (.char m)) m k := by
  intro rest
  rw [append_assoc]
  refine scan_append fun j hj q hq hpre => ?_
  have hq' : q.1 <+: (e ++ k).drop j ++ rest := by
    rwa [← append_assoc, drop_append_of_le_length (by simp; omega)] at hpre
  rcases prefix_or_prefix_of_prefix hq' (prefix_append _ _) with hin | hout
  · exact h j q hq hin
  · exact hheld j hj q hq hout

/-- A buffer without markers may be handed on but for one character less than the longest
marker. -/
theorem Free.reads_take {n : ℕ} (h : S.Free m b) (hn : ∀ q ∈ S.of m, q.1.length ≤ n + 1) :
    S.Reads m b ((b.take (b.length - n)).map (.char m)) m (b.drop (b.length - n)) := by
  have hsplit := take_append_drop (b.length - n) b
  have hreads := Free.reads (e := b.take (b.length - n)) (k := b.drop (b.length - n))
    (hsplit.symm ▸ h) fun j hj q hq hpre => by
      rw [hsplit] at hpre
      rw [length_take] at hj
      have hlen := hpre.length_le
      have hle := hn q hq
      rw [length_drop] at hlen
      have heq := hpre.eq_of_length (by rw [length_drop]; omega)
      exact h j q hq (heq ▸ prefix_rfl)
  rwa [hsplit] at hreads

theorem Meets.scan (h : S.Meets m b i p) :
    S.scan m b = (b.take i).map (.char m) ++ .marker p.1 p.2 ::
      S.scan p.2 (b.drop (i + p.1.length)) := by
  have hreads := h.reads []
  simpa using hreads

end Markers

/-! ### The first place of a word -/

variable [DecidableEq α]

/-- The first place where the word `d` stands in the text. -/
def find (d l : List α) : Option ℕ := l.tails.findIdx? fun s => d.isPrefixOf s

theorem find_eq_some {d l : List α} {i : ℕ} (h : find d l = some i) :
    d <+: l.drop i ∧ ∀ j < i, ¬ d <+: l.drop j := by
  obtain ⟨hi, hhere, hfirst⟩ := findIdx?_eq_some_iff_getElem.mp h
  refine ⟨by simpa using hhere, fun j hj => ?_⟩
  have hno := hfirst j hj
  simpa using hno

theorem find_eq_none {d l : List α} (h : find d l = none) (j : ℕ) : ¬ d <+: l.drop j := by
  intro hpre
  have hno := findIdx?_eq_none_iff.mp h (l.drop j) ((mem_tails _ _).mpr (drop_suffix j l))
  rw [ isPrefixOf_iff_prefix.mpr hpre] at hno
  simp at hno

end Sie.Lib
