import Sie.Gateway.PendingStream

/-!
# Republishing a stream to the pool

A request that was dispatched to one worker falls back to the pool when that worker
refuses it (a NAK) or when no first chunk came in time.  Whether to republish is decided
under the collector's lock, the publish is awaited without it, and a failed publish is
rolled back under it again, so that a NAK, a timeout and the chunks of two attempts may
come between any two of these.

The flag `republished` makes the fallback happen at most once (`Flags`).  The latch and
the recorded id keep the abandoned attempt out (`Guarded`).  A NAK is compared with the
latch when it is taken up and acts later; the two agree unless a rollback of the driver
puts another attempt back in between (`Undisturbed`).
-/

namespace Sie.Gateway

variable {c c₁ : StreamCollector} {generation : ℕ} {os o : List StreamOutput} {s t : PendingStream}
  {chunk : ChunkEnvelope} {e : StreamEvent} {named : Option String} {nak : Option NakEnvelope}
  {r : PendingStream × List StreamOutput}

open Sie.Lib List Option PendingStream Inbox StreamCollector

/-! ## What a republish does to the collector -/

/-- The attempt a bump abandons: the latched one, else the one a NAK named. -/
def abandonedBy (c : StreamCollector) (named : Option String) : Option String :=
  c.currentAttemptId <|> named.filter (· ≠ "")

theorem republishBump_eq (c : StreamCollector) (named : Option String) :
    republishBump c named =
      { c with
        toAttemptState := .empty
        republished := true
        attemptGeneration := min (c.attemptGeneration + 1) u64Max
        snapshot := some c.toAttemptState
        abandonedAttemptId := abandonedBy c named } := by
  unfold republishBump abandonedBy
  obtain hcurrent | ⟨_, hcurrent⟩ := eq_none_or_eq_some c.currentAttemptId
  · cases named with
    | none => simp [bumpAttemptGeneration, hcurrent]
    | some attemptId =>
      by_cases hempty : attemptId = "" <;>
        simp [bumpAttemptGeneration, recordAbandonedAttemptId,
          AttemptState.empty, Option.filter, hcurrent, hempty]
  · cases named <;>
      simp [bumpAttemptGeneration, recordAbandonedAttemptId, hcurrent]

/-- The collector after a rollback. -/
def rolledBack (c : StreamCollector) : StreamCollector :=
  { c with republished := false }.rewindAttemptGeneration

/-! ## The republish happens at most once -/

/-- The generation a NAK's republish waits for. -/
def Inbox.publishing : Inbox → Option ℕ
  | .nakPublishing _ generation => some generation
  | _ => none

/-- The republishes that were published and not yet acknowledged. -/
def PendingStream.inFlight (s : PendingStream) : List ℕ :=
  s.driver.toList ++ s.inbox.publishing.toList

/-- How many republishes succeeded. -/
def successes (os : List StreamOutput) : ℕ := os.count .republished

@[simp] theorem successes_append (os os' : List StreamOutput) :
    successes (os ++ os') = successes os + successes os' := count_append ..

@[simp] theorem successes_nil : successes [] = 0 := rfl

@[simp] theorem successes_cons (o : StreamOutput) (os : List StreamOutput) :
    successes (o :: os) = successes os + if o = .republished then 1 else 0 := by
  simp [successes, count_cons]

/-- The flag says whether a republish is in flight or has succeeded, and there is at most
one.  What is in flight has the collector's generation. -/
structure Flags (os : List StreamOutput) (s : PendingStream) : Prop where
  once : successes os + s.inFlight.length ≤ 1
  flag : ∀ c ∈ s.collector, c.republished = true ↔ successes os + s.inFlight.length = 1
  generation : ∀ c ∈ s.collector, ∀ g ∈ s.inFlight, c.attemptGeneration = g
  /-- The inbox worker that publishes takes no chunk, so the latch stays open. -/
  opened : ∀ c ∈ s.collector, s.inbox.publishing.isSome = true →
    c.currentAttemptId = none ∧ c.snapshot.isSome = true

section

variable (h : Flags os s)
include h

/-- A republish in flight is acknowledged. -/
theorem Flags.of_acked (hcollector : t.collector = s.collector)
    (hinFlight : s.inFlight = [generation]) (hnone : t.inFlight = [])
    (ht : t.inbox.publishing = none) : Flags (os ++ [.republished]) t := by
  obtain ⟨honce, hflag, -, -⟩ := h
  rw [hinFlight] at honce hflag
  constructor <;> simp_all

/-- A collector whose republish is in flight is marked. -/
theorem Flags.marked (hc : s.collector = some c)
    (hinFlight : s.inFlight = [generation]) : c.republished = true := by
  have honce := h.once
  rw [h.flag c hc]
  rw [hinFlight, length_singleton] at honce ⊢
  omega

/-- The rollback of what is in flight takes place. -/
theorem Flags.rollback_eq (hc : s.collector = some c) (hinFlight : s.inFlight = [generation]) :
    rollbackRepublishAttempt s.collector generation = (some (rolledBack c), [.rolledBack]) := by
  have hgeneration := h.generation c hc generation (by simp [hinFlight])
  simp [rollbackRepublishAttempt, rolledBack, hc, h.marked hc hinFlight, hgeneration]

/-- A republish in flight is rolled back. -/
theorem Flags.of_rolledBack
    (hcollector : t.collector = (rollbackRepublishAttempt s.collector generation).1)
    (hinFlight : s.inFlight = [generation]) (hnone : t.inFlight = [])
    (ht : t.inbox.publishing = none) :
    Flags (os ++ (rollbackRepublishAttempt s.collector generation).2) t := by
  have honce := h.once
  rw [hinFlight, length_singleton] at honce
  cases hc : s.collector with
  | none => constructor <;> simp_all [rollbackRepublishAttempt]
  | some c =>
    have hcleared : (rolledBack c).republished = false := rfl
    rw [← hc]
    rw [h.rollback_eq hc hinFlight] at hcollector ⊢
    constructor <;> simp_all

/-- Before the first republish nothing is in flight. -/
theorem Flags.none_before (hc : s.collector = some c)
    (hfirst : c.republished = false) : successes os = 0 ∧ s.inFlight = [] := by
  have hflag := h.flag c hc
  have honce := h.once
  rw [hfirst] at hflag
  refine ⟨by grind, eq_nil_of_length_eq_zero (by grind)⟩

/-- A first republish. -/
theorem Flags.of_bumped (hc : s.collector = some c)
    (hfirst : c.republished = false) (hcollector : t.collector = some (republishBump c named))
    (hinFlight : t.inFlight = [(republishBump c named).attemptGeneration]) (ho : successes o = 0) :
    Flags (os ++ o) t := by
  obtain ⟨hnone, -⟩ := h.none_before hc hfirst
  constructor <;> simp_all [republishBump_eq, AttemptState.empty]

theorem Flags.inFlight_of_publishing (hinbox : s.inbox.publishing = some generation) :
    s.driver = none ∧ s.inFlight = [generation] := by
  have honce := h.once
  cases hdriver : s.driver <;> simp_all [inFlight]

theorem Flags.inFlight_of_driver (hdriver : s.driver = some generation) :
    s.inbox.publishing = none ∧ s.inFlight = [generation] := by
  have honce := h.once
  cases hinbox : s.inbox.publishing <;> simp_all [inFlight]

end

theorem successes_bumpOutputs (nak : Option NakEnvelope) (c c₁ : StreamCollector) :
    successes (bumpOutputs nak c c₁) = 0 := by
  cases h : c₁.abandonedAttemptId <;> simp [bumpOutputs, h]

theorem Latches.same (h : Latches c chunk c₁) :
    c₁.republished = c.republished ∧ c₁.attemptGeneration = c.attemptGeneration ∧
      c₁.snapshot = c.snapshot ∧ c₁.finalMeta = c.finalMeta ∧ c₁.chunkTap = c.chunkTap := by
  cases h with
  | opened | kept => exact ⟨rfl, rfl, rfl, rfl, rfl⟩

theorem successes_tapped (tapped : List ChunkEnvelope) : successes (tapped.map .tapped) = 0 := by
  induction tapped with
  | nil => rfl
  | cons _ tapped ih => simp [ih]

theorem successes_outcome (outcome : Option StreamOutcome) :
    successes (outcome.map .outcome).toList = 0 := by
  cases outcome <;> simp

/-- **The flags hold after every step.** -/
theorem Flags.next (h : Flags os s) (hstep : Steps s e r) : Flags (os ++ r.2) r.1 := by
  have ⟨honce, hflag, hgeneration, hopened⟩ := h
  cases hstep with
  | nothing => simpa using h
  | published =>
    constructor <;> simp_all [inFlight]
    exact hgeneration
  | finished | nakChecked | complete | failGap | nakFails | nakAlready | nakDecidesToFail
  | nakWaits =>
    constructor <;> simp_all [inFlight, publishing, successes_outcome]
  | removed | shutdown => exact ⟨by simpa [inFlight] using honce, by simp, by simp, by simp⟩
  | duplicate _ _ hlatch | gap _ _ hlatch =>
    have hsame := hlatch.same
    constructor <;> simp_all [inFlight, publishing]
  | @accepted _ _ _ chunk _ _ hlatch =>
    have hsame := hlatch.same
    cases hdone : chunk.done <;>
      constructor <;> simp_all [inFlight, publishing, accept, successes_tapped]
  | nakBump hc hinbox hfirst =>
    have hnone := (h.none_before hc hfirst).2
    exact h.of_bumped hc hfirst rfl (by simp_all [inFlight, publishing])
      (successes_bumpOutputs _ _ _)
  | nakAcked hinbox =>
    obtain ⟨hdriver, hinFlight⟩ := h.inFlight_of_publishing (by rw [hinbox]; rfl)
    exact h.of_acked rfl hinFlight (by simp [inFlight, hdriver, publishing]) rfl
  | nakRollsBack hinbox =>
    obtain ⟨hdriver, hinFlight⟩ := h.inFlight_of_publishing (by rw [hinbox]; rfl)
    exact h.of_rolledBack rfl hinFlight
      (by simp [inFlight, hdriver, publishing]) rfl
  | driverBump hc hdriver hfirst =>
    have hnone := (h.none_before hc hfirst).2
    exact h.of_bumped hc hfirst rfl (by simp_all [inFlight])
      (successes_bumpOutputs _ _ _)
  | driverAcked hdriver =>
    obtain ⟨hinbox, hinFlight⟩ := h.inFlight_of_driver hdriver
    exact h.of_acked rfl hinFlight (by simp [inFlight, hinbox]) hinbox
  | driverRollsBack hdriver =>
    obtain ⟨hinbox, hinFlight⟩ := h.inFlight_of_driver hdriver
    exact h.of_rolledBack rfl hinFlight (by simp [inFlight, hinbox]) hinbox

theorem Flags.start (publishedAt : ℕ) (subject : Option String) (chunkTap : Bool) :
    Flags [] (.start publishedAt subject chunkTap) := by
  refine ⟨by simp [PendingStream.start, PendingStream.inFlight, publishing], ?_, ?_, ?_⟩
  · intro c hc
    cases hc
    simp [new, PendingStream.start, PendingStream.inFlight, publishing]
  · simp [PendingStream.start, PendingStream.inFlight, publishing]
  · simp [PendingStream.start, publishing]

/-! ## A NAK acts on the attempt it names -/

/-- The NAK names no attempt, or the one that is latched, if one is. -/
def Names (nak : NakEnvelope) (latched : Option String) : Prop :=
  ∀ current, latched = some current → nak.attemptId = "" ∨ nak.attemptId = current

theorem names_of_not_stale {nak : NakEnvelope} {current abandoned : Option String}
    (h : nakIsStale current abandoned nak.attemptId = false) : Names nak current := by
  rintro _ rfl
  by_cases hempty : nak.attemptId = ""
  · exact .inl hempty
  · simp [nakIsStale, hempty] at h
    exact .inr h.symm

/-- The NAK that was compared with the latch and has still to act. -/
def Inbox.pendingNak : Inbox → Option NakEnvelope
  | .nakChecked nak => some nak
  | .nakFail nak _ => some nak
  | _ => none

/-- No republish of the driver is rolled back while a NAK that was compared with the
latch has still to act. -/
def Undisturbed (s : PendingStream) (e : StreamEvent) : Prop :=
  e = .driverAck false → s.inbox.pendingNak = none

instance (s : PendingStream) (e : StreamEvent) : Decidable (Undisturbed s e) :=
  inferInstanceAs (Decidable (_ → _))

/-- Every NAK that republished or failed the stream named no other attempt than the
latched one. -/
def ActsOnNamed (os : List StreamOutput) : Prop :=
  ∀ nak latched, .bumped (some nak) latched ∈ os ∨ .nakFailed nak latched ∈ os →
    Names nak latched

/-- A NAK that has still to act names the latched attempt, or the one its own rollback
would put back. -/
structure Aims (os : List StreamOutput) (s : PendingStream) : Prop where
  acted : ActsOnNamed os
  pending : ∀ c ∈ s.collector, ∀ nak, s.inbox.pendingNak = some nak →
    Names nak c.currentAttemptId
  publishing : ∀ c ∈ s.collector, ∀ nak generation st, s.inbox = .nakPublishing nak generation →
    c.snapshot = some st → Names nak st.currentAttemptId

theorem ActsOnNamed.append (h : ActsOnNamed os) (ho : ActsOnNamed o) : ActsOnNamed (os ++ o) := by
  intro nak latched hmem
  simp only [mem_append] at hmem
  obtain (hos | hnew) | (hos | hnew) := hmem
  · exact h nak latched (.inl hos)
  · exact ho nak latched (.inl hnew)
  · exact h nak latched (.inr hos)
  · exact ho nak latched (.inr hnew)

theorem actsOnNamed_nil : ActsOnNamed [] := by
  simp [ActsOnNamed]

theorem actsOnNamed_bumpOutputs (h : ∀ n, nak = some n → Names n c.currentAttemptId) :
    ActsOnNamed (bumpOutputs nak c c₁) := by
  intro n latched hmem
  obtain ⟨hnak, rfl⟩ : some n = nak ∧ latched = c.currentAttemptId := by
    simpa [bumpOutputs] using hmem
  exact h n hnak.symm

/-- **What a NAK aims at stays right along every undisturbed step.** -/
theorem Aims.next (h : Aims os s) (hflags : Flags os s) (hquiet : Undisturbed s e)
    (hstep : Steps s e r) : Aims (os ++ r.2) r.1 := by
  have ⟨hacted, hpending, hpublishing⟩ := h
  cases hstep with
  | nothing => simpa using h
  | complete | failGap | shutdown | removed =>
    exact ⟨hacted.append (by simp [ActsOnNamed]), by simp, by simp⟩
  | finished | nakAlready | published | duplicate | gap | nakWaits | nakAcked | driverAcked =>
    refine ⟨hacted.append (by simp [ActsOnNamed]), ?_, ?_⟩ <;> simp_all [pendingNak]
  | @accepted _ _ _ chunk =>
    refine ⟨hacted.append (by simp [ActsOnNamed]), ?_, ?_⟩ <;>
      cases chunk.done <;> simp [pendingNak]
  | nakChecked _ hstale =>
    refine ⟨hacted.append (by simp [ActsOnNamed]), ?_, by simp⟩
    rintro c hc _ ⟨⟩
    rw [show s.collector = some c from hc] at hstale
    exact names_of_not_stale hstale
  | @nakBump c nak hc hinbox =>
    have hnames : Names nak c.currentAttemptId := hpending c hc nak (by rw [hinbox]; rfl)
    refine ⟨hacted.append (actsOnNamed_bumpOutputs (by simpa)), by simp [pendingNak], ?_⟩
    simp_all [republishBump_eq]
  | @nakDecidesToFail _ _ _ hc _ hstale =>
    have hnames := names_of_not_stale hstale
    refine ⟨hacted.append (by simp [ActsOnNamed]), ?_, by simp⟩
    simp_all [pendingNak]
  | @nakFails c nak _ hc hinbox =>
    have hnames : Names nak c.currentAttemptId := hpending c hc nak (by rw [hinbox]; rfl)
    exact ⟨hacted.append (by simp_all [ActsOnNamed]), by simp, by simp⟩
  | @nakRollsBack nak generation _ hinbox =>
    obtain ⟨-, hinFlight⟩ := hflags.inFlight_of_publishing (by rw [hinbox]; rfl)
    cases hc : s.collector with
    | none => exact ⟨hacted.append actsOnNamed_nil, by simp [rollbackRepublishAttempt], by simp⟩
    | some c =>
      obtain ⟨-, hsnapshot⟩ := hflags.opened c hc (by rw [hinbox]; rfl)
      obtain ⟨st, hst⟩ := isSome_iff_exists.mp hsnapshot
      rw [← hc, hflags.rollback_eq hc hinFlight]
      refine ⟨hacted.append (by simp [ActsOnNamed]), ?_, by simp⟩
      simp_all [rolledBack, rewindAttemptGeneration, pendingNak]
  | @driverBump _ _ hc hdriver hfirst =>
    have hnone := (hflags.none_before hc hfirst).2
    refine ⟨hacted.append (actsOnNamed_bumpOutputs (by simp)), ?_, ?_⟩
    · simp [republishBump_eq, AttemptState.empty, Names]
    · rintro _ _ _ _ _ hinbox
      simp_all [inFlight, Inbox.publishing]
  | driverRollsBack hdriver =>
    obtain ⟨hnone, -⟩ := hflags.inFlight_of_driver hdriver
    refine ⟨hacted.append ?_, by simp_all [Undisturbed], ?_⟩
    · unfold rollbackRepublishAttempt
      split
      · simp [ActsOnNamed]
      · split <;> simp [ActsOnNamed]
    · rintro _ _ _ _ _ hinbox
      simp_all [Inbox.publishing]

/-! ## An abandoned attempt stays out -/

/-- Whether there is a republish that was not rolled back, and the ids that were recorded
as abandoned by it. -/
structure Abandonment where
  live : Bool
  ids : List String

def Abandonment.note (a : Abandonment) : StreamOutput → Abandonment
  | .bumped _ _ => { a with live := true }
  | .abandoned attemptId => if a.live then { a with ids := attemptId :: a.ids } else a
  | .rolledBack => ⟨false, []⟩
  | _ => a

def abandonment (os : List StreamOutput) : Abandonment := os.foldl .note ⟨false, []⟩

/-- No chunk of an attempt is accepted once its id was recorded as abandoned by a
republish that was not rolled back since. -/
def NeverAfterAbandoned (os : List StreamOutput) : Prop :=
  ∀ before now chunk, before ++ [.accepted now chunk] <+: os →
    chunk.attemptId ∉ (abandonment before).ids

@[simp] theorem abandonment_append (os o : List StreamOutput) :
    abandonment (os ++ o) = o.foldl .note (abandonment os) := foldl_append

theorem NeverAfterAbandoned.concat {x : StreamOutput} (h : NeverAfterAbandoned os)
    (hx : ∀ now chunk, x = .accepted now chunk → chunk.attemptId ∉ (abandonment os).ids) :
    NeverAfterAbandoned (os ++ [x]) := by
  intro before now chunk hprefix
  obtain heq | hprefix := prefix_concat_iff.mp hprefix
  · obtain ⟨rfl, hlast⟩ := append_inj' heq rfl
    exact hx now chunk (by simpa using hlast.symm)
  · exact h before now chunk hprefix

/-- Outputs that accept no chunk. -/
theorem NeverAfterAbandoned.append (h : NeverAfterAbandoned os) :
    ∀ o : List StreamOutput, (∀ now chunk, .accepted now chunk ∉ o) →
      NeverAfterAbandoned (os ++ o) := by
  intro o
  induction o generalizing os with
  | nil => simpa using h
  | cons x o ih =>
    intro hnone
    have hfirst : NeverAfterAbandoned (os ++ [x]) := by
      refine h.concat ?_
      rintro now chunk rfl
      exact absurd mem_cons_self (hnone now chunk)
    have hrest := ih hfirst fun now chunk hmem => hnone now chunk (mem_cons_of_mem _ hmem)
    simpa using hrest

/-- An attempt recorded as abandoned is the one the guard refuses, or another is latched;
and the republish that abandoned it is the one the flag stands for. -/
structure Guarded (os : List StreamOutput) (s : PendingStream) : Prop where
  never : NeverAfterAbandoned os
  live : ∀ c ∈ s.collector, c.republished = (abandonment os).live
  flagged : ∀ c ∈ s.collector, (abandonment os).ids ≠ [] → c.republished = true
  kept : ∀ c ∈ s.collector, ∀ attemptId ∈ (abandonment os).ids,
    (c.currentAttemptId = none ∧ c.abandonedAttemptId = some attemptId) ∨
      ∃ current, c.currentAttemptId = some current ∧ current ≠ attemptId

/-- A chunk that gets past the latch is of no abandoned attempt. -/
theorem Guarded.not_abandoned (h : Guarded os s) (hc : s.collector = some c)
    (hlatch : Latches c chunk c₁) : chunk.attemptId ∉ (abandonment os).ids := by
  intro hmem
  obtain ⟨hopen, habandoned⟩ | ⟨_, hcurrent, hne⟩ := h.kept c hc _ hmem
  · cases hlatch with
    | opened _ hnot => exact hnot habandoned
    | kept hcurrent => cases hopen.symm.trans hcurrent
  · cases hlatch with
    | opened hopen => cases hopen.symm.trans hcurrent
    | kept hkept => exact hne (some.inj (hcurrent.symm.trans hkept))

/-- Afterwards its attempt is latched. -/
theorem Guarded.of_latched {c₂ : StreamCollector} (h : Guarded os s) (hc : s.collector = some c)
    (hlatch : Latches c chunk c₁) (hnever : NeverAfterAbandoned (os ++ o))
    (hsame : abandonment (os ++ o) = abandonment os) (hcollector : t.collector = some c₂)
    (hrepublished : c₂.republished = c₁.republished)
    (hcurrent : c₂.currentAttemptId = c₁.currentAttemptId) : Guarded (os ++ o) t := by
  have hflag : c₂.republished = c.republished := hrepublished.trans hlatch.same.1
  have hlive := h.live c hc
  have hflagged := h.flagged c hc
  refine ⟨hnever, by simp_all, by simp_all, ?_⟩
  rw [hcollector, hsame]
  rintro _ ⟨⟩ attemptId hmem
  refine .inr ⟨chunk.attemptId, ?_, ?_⟩
  · rw [hcurrent, hlatch.current]
  · rintro rfl
    exact h.not_abandoned hc hlatch hmem

/-- A first republish records at most the id it abandons. -/
theorem Guarded.of_bumped (h : Guarded os s) (hc : s.collector = some c)
    (hfirst : c.republished = false) (hcollector : t.collector = some (republishBump c named)) :
    Guarded (os ++ bumpOutputs nak c (republishBump c named)) t := by
  have hnone := h.flagged c hc
  rw [hfirst] at hnone
  have habandonment : abandonment (os ++ bumpOutputs nak c (republishBump c named)) =
      ⟨true, (republishBump c named).abandonedAttemptId.toList⟩ := by
    cases habandoned : (republishBump c named).abandonedAttemptId <;>
      simp_all [bumpOutputs, Abandonment.note]
  refine ⟨h.never.append _ (by simp [bumpOutputs]), ?_, ?_, ?_⟩ <;> rw [hcollector, habandonment]
  all_goals
    simp [republishBump_eq, AttemptState.empty]

/-- A rollback forgets what was recorded. -/
theorem Guarded.of_rolledBack (h : Guarded os s) (hflags : Flags os s)
    (hinFlight : s.inFlight = [generation])
    (hcollector : t.collector = (rollbackRepublishAttempt s.collector generation).1) :
    Guarded (os ++ (rollbackRepublishAttempt s.collector generation).2) t := by
  cases hc : s.collector with
  | none =>
    refine ⟨h.never.append [] (by simp), ?_, ?_, ?_⟩ <;> simp_all [rollbackRepublishAttempt]
  | some c =>
    rw [← hc]
    rw [hflags.rollback_eq hc hinFlight] at hcollector ⊢
    refine ⟨h.never.append _ (by simp), ?_, by simp [Abandonment.note], by simp [Abandonment.note]⟩
    simp [hcollector, Abandonment.note, rolledBack, rewindAttemptGeneration]

theorem abandonment_tapped (a : Abandonment) (tapped : List ChunkEnvelope) :
    (tapped.map StreamOutput.tapped).foldl .note a = a := by
  induction tapped with
  | nil => rfl
  | cons _ tapped ih => simpa [Abandonment.note] using ih

/-- **The guard holds after every step.** -/
theorem Guarded.next (h : Guarded os s) (hflags : Flags os s) (hstep : Steps s e r) :
    Guarded (os ++ r.2) r.1 := by
  have ⟨hnever, hlive, hflagged, hkept⟩ := h
  cases hstep with
  | nothing => simpa using h
  | complete | failGap | nakFails | removed | shutdown =>
    exact ⟨hnever.append _ (by simp), by simp, by simp, by simp⟩
  | finished | nakChecked | nakAlready | nakDecidesToFail | published | nakAcked | driverAcked =>
    refine ⟨hnever.append _ (by simp), ?_, ?_, ?_⟩ <;> simp_all [Abandonment.note]
  | duplicate hc _ hlatch =>
    exact h.of_latched hc hlatch (by simpa using hnever) (by simp) rfl rfl rfl
  | gap hc _ hlatch =>
    exact h.of_latched hc hlatch (hnever.append _ (by simp)) (by simp [Abandonment.note]) rfl
      rfl rfl
  | @accepted _ _ _ _ hc _ hlatch =>
    refine h.of_latched hc hlatch ?_ ?_ rfl rfl rfl
    · rw [append_cons]
      refine NeverAfterAbandoned.append (hnever.concat ?_) _ (by simp)
      intro _ _ heq
      obtain ⟨-, rfl⟩ := StreamOutput.accepted.inj heq
      exact h.not_abandoned hc hlatch
    · simp only [abandonment_append, foldl_cons, Abandonment.note, abandonment_tapped]
  | nakBump hc _ hfirst | driverBump hc _ hfirst => exact h.of_bumped hc hfirst rfl
  | @nakWaits c _ hc _ hopen habandoned =>
    -- nothing was recorded before: the latch is open and the guard is empty
    have hnone : (abandonment os).ids = [] := by
      rw [eq_nil_iff_forall_not_mem]
      intro attemptId hmem
      have hguard := hkept c hc attemptId hmem
      simp_all
    refine ⟨hnever.append _ (by simp), ?_, ?_, ?_⟩ <;>
      cases hl : (abandonment os).live <;> simp_all [Abandonment.note]
  | nakRollsBack hinbox =>
    obtain ⟨-, hinFlight⟩ := hflags.inFlight_of_publishing (by rw [hinbox]; rfl)
    exact h.of_rolledBack hflags hinFlight rfl
  | driverRollsBack hdriver =>
    obtain ⟨-, hinFlight⟩ := hflags.inFlight_of_driver hdriver
    exact h.of_rolledBack hflags hinFlight rfl

/-! ## Whole runs -/

section Runs

variable {publishedAt : ℕ} {subject : Option String} {chunkTap : Bool} {es : List StreamEvent}

section

variable (h : runs step (.start publishedAt subject chunkTap) es = some (s, os))
include h

theorem flags_of_runs : Flags os s :=
  runs_induction (fun _ os s => Flags os s) (.start publishedAt subject chunkTap)
    (fun _ _ _ _ _ _ _ hflags hstep => hflags.next (steps_of_step hstep)) es os s h

theorem guarded_of_runs : Guarded os s := by
  refine runs_induction (fun _ os s => Guarded os s) ?_ ?_ es os s h
  · exact ⟨by simp [NeverAfterAbandoned], by rintro _ ⟨⟩; rfl, by simp [abandonment],
      by simp [abandonment]⟩
  · intro es os s e t o hrun hguarded hstep
    exact hguarded.next (flags_of_runs hrun) (steps_of_step hstep)

theorem aims_of_runs
    (hquiet : Along step Undisturbed (.start publishedAt subject chunkTap) es) : Aims os s := by
  refine (runs_induction_along (fun os s => Flags os s ∧ Aims os s) ?_ ?_ es os s hquiet h).2
  · refine ⟨.start publishedAt subject chunkTap, actsOnNamed_nil, ?_, ?_⟩
    · simp [start, pendingNak]
    · simp [start]
  · rintro os s e t o ⟨hflags, haims⟩ hundisturbed hstep
    have hsteps := steps_of_step hstep
    exact ⟨hflags.next hsteps, haims.next hflags hundisturbed hsteps⟩

/-- **NAKs and republishes are safe.**  In every run of a request at most one republish
succeeds, and no attempt is accepted or latched once it was recorded as abandoned by a
republish that was not rolled back.  If besides no republish of the driver is rolled back
while a NAK that passed its check has still to act, then no NAK fails or republishes the
stream while another attempt than the one it names is latched. -/
theorem nak_republish_safety :
    successes os ≤ 1 ∧ NeverAfterAbandoned os ∧
    (∀ c attemptId, s.collector = some c → c.currentAttemptId = some attemptId →
      attemptId ∉ (abandonment os).ids) ∧
    (Along step Undisturbed (.start publishedAt subject chunkTap) es → ActsOnNamed os) := by
  have hflags := flags_of_runs h
  have hguarded := guarded_of_runs h
  refine ⟨?_, hguarded.never, ?_, fun hquiet => (aims_of_runs h hquiet).acted⟩
  · have honce := hflags.once
    omega
  · intro c attemptId hc hcurrent hmem
    obtain ⟨hopen, -⟩ | ⟨_, hother, hne⟩ := hguarded.kept c hc attemptId hmem
    · cases hopen.symm.trans hcurrent
    · exact hne (some.inj (hother.symm.trans hcurrent))

end

end Runs

namespace TwoAttempts

/-- A chunk of an attempt, with nothing but text. -/
def chunkOf (attemptId : String) (seq : ℕ) (textDelta : String) (done : Bool) : ChunkEnvelope where
  kind := "chunk"
  requestId := "r"
  attemptId
  seq
  textDelta
  done
  isFirst := seq = 0
  finishReason := if done then some "stop" else none
  usage := none
  ttftMs := none
  error := none
  toolCalls := none
  logprobs := none
  candidates := []
  choiceIndex := 0
  executedBundleConfigHash := none
  executionIdentitySha256 := none
  executionBindingSha256 := none
  reasoningDelta := ""

def nakOf (attemptId : String) : NakEnvelope where
  kind := "nak"
  requestId := "r"
  attemptId
  reason := "kv_budget"

def begun : PendingStream := .start 0 (some "pool") true

/-- Attempt `a` starts and then refuses; the pool's attempt `b` answers, and a late chunk
of `a` comes in between. -/
def refused : List StreamEvent :=
  [.published [1], .chunk 1 (chunkOf "a" 0 "" false), .nak (nakOf "a"), .proceed, .nakAck true,
    .chunk 2 (chunkOf "a" 1 "x" false), .nak (nakOf "a"), .chunk 3 (chunkOf "b" 0 "hi" false),
    .nak (nakOf "a"), .chunk 4 (chunkOf "b" 1 "" true), .proceed]

theorem refused_goes : (runs step begun refused).isSome = true := by
  decide +kernel

def afterRefused : PendingStream × List StreamOutput :=
  reached step begun refused refused_goes

/-- The republish succeeds once, `a` was recorded, and its late chunk was not accepted. -/
theorem nak_republish_safety_refused :
    .bumped (some (nakOf "a")) (some "a") ∈ afterRefused.2 ∧ successes afterRefused.2 = 1 ∧
    NeverAfterAbandoned afterRefused.2 ∧ ActsOnNamed afterRefused.2 := by
  obtain ⟨-, hnever, -, hacts⟩ := nak_republish_safety (runs_eq_reached refused_goes)
  refine ⟨by decide +kernel, by decide +kernel, hnever, hacts ?_⟩
  decide +kernel

/-- An empty chunk of `b` is latched when the driver's deadline passes.  A NAK of `a`
passes its check while the driver's republish is out; the republish fails and puts `b`
back, and then the NAK acts. -/
def crossed : List StreamEvent :=
  [.published [1], .chunk 1 (chunkOf "b" 0 "" false), .timeout true, .nak (nakOf "a"),
    .driverAck false, .proceed]

theorem crossed_goes : (runs step begun crossed).isSome = true := by
  decide +kernel

/-- **A NAK of another attempt republishes the stream.** -/
theorem nak_of_other_attempt_republishes :
    ∃ s os, runs step begun crossed = some (s, os) ∧
      .bumped (some (nakOf "a")) (some "b") ∈ os ∧ ¬ ActsOnNamed os := by
  have hbumped : .bumped (some (nakOf "a")) (some "b") ∈
      (reached step begun crossed crossed_goes).2 := by decide +kernel
  refine ⟨_, _, runs_eq_reached crossed_goes, hbumped, ?_⟩
  intro hacts
  have hnames := hacts (nakOf "a") (some "b") (.inl hbumped) "b" rfl
  revert hnames
  decide

end TwoAttempts

end Sie.Gateway
