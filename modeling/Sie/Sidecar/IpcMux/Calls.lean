import Sie.Lib.Ledger
import Sie.Lib.Run
import Sie.Sidecar.IpcMux.Places

/-!
# Every call is answered once

Over whole runs of the multiplexed client: a call is told a result at most once, its responder is
in one place until then, the frames of its response came to it on the connection it was registered
on, and what is drained or cancelled leaves nothing behind.
-/

namespace Sie.Sidecar

open Sie.Lib Sie.Wire IpcMux PendingResponse ResponseChunkBudget Mux

namespace Mux
variable {limits : ResponseChunkLimits} {sha256 : Bytes → Digest} {s s' : Mux} {e : MuxEvent}
  {os o : List MuxOutput} {id : String}

/-! ### What the parts of a step leave alone -/

@[simp] theorem sweep_kept : (s.sweep id).actor = s.actor ∧
    (s.sweep id).inflight = s.inflight ∧ (s.sweep id).connection = s.connection := by
  unfold sweep
  split
  · exact ⟨rfl, rfl, rfl⟩
  · split <;> exact ⟨rfl, rfl, rfl⟩

@[simp] theorem dropHeld_kept : (s.dropHeld id).actor = s.actor ∧
    (s.dropHeld id).inflight = s.inflight ∧ (s.dropHeld id).connection = s.connection := by
  unfold dropHeld
  split <;> exact ⟨rfl, rfl, rfl⟩

/-! ### Between two connections -/

/-- What a step does to the connection. -/
inductive Turn (s : Mux) : List MuxOutput → Mux → Prop
  | same {os : List MuxOutput} {s' : Mux} (hlink : s'.actor.link = s.actor.link)
      (hconnection : s'.connection = s.connection)
      (hinflight : s.actor.link ≠ .up → s.inflight = ∅ → s'.inflight = ∅)
      (hos : ∀ n, .drained n ∉ os) : Turn s os s'
  | connect {s' : Mux} (hlink : s.actor.link = .down) (hlink' : s'.actor.link = .up)
      (hconnection : s'.connection = s.connection + 1) : Turn s [] s'
  | drain {s' : Mux} (hlink : s.actor.link = .up) (hlink' : s'.actor.link = .draining)
      (hconnection : s'.connection = s.connection) (hinflight : s'.inflight = ∅) : Turn s [] s'
  | reconnect {s' : Mux} (hlink : s.actor.link = .draining) (hlink' : s'.actor.link = .down)
      (hconnection : s'.connection = s.connection) (hinflight : s'.inflight = s.inflight) :
      Turn s [.drained s.connection] s'

theorem turn_of_transition (h : Transition limits sha256 s os s') : Turn s os s' := by
  cases h with
  | call | enqueue | receive | close | skip => exact .same rfl rfl (fun _ h => h) (by simp)
  | cancel => exact .same (by simp [setPhase]) (by simp [setPhase]) (by simp [setPhase]) (by simp)
  | remove =>
    exact .same (by simp [setPhase]) (by simp [setPhase]) (fun _ hempty => by simp [hempty])
      (by simp)
  | dropResponse => exact .same (by simp) (by simp) (by simp) (by simp)
  | still ha hos =>
    refine .same ha.link rfl (fun _ h => h) fun n hn => ?_
    obtain ⟨_, ⟨⟩⟩ := hos _ hn
  | take hactor | skipTook hactor | register hactor | refuse hactor =>
    exact .same (by simp [Actor.link, hactor]) rfl (by simp [Actor.link, hactor]) (by simp)
  | answerRefused hactor | writeError hactor | drainOne hactor =>
    rw [(answerError_self _).2]
    exact .same (by simp [Actor.link, hactor]) (by simp) (by simp [Actor.link, hactor])
      (by unfold View.answer; split <;> simp)
  | hold => exact .same (setReader_same _ _).2.2 rfl (fun _ h => h) (by simp)
  | push =>
    simp only [pushStep]
    split
    · exact .same (by simp) (by simp) (by simp) (by simp)
    · exact .same (setReader_same _ _).2.2 rfl (fun _ h => h) (by simp)
  | unregister =>
    exact .same (setReader_same _ _).2.2 rfl (fun _ hempty => by simp [hempty]) (by simp)
  | letGo | deliver =>
    exact .same (by simp [setReader]) (by simp [setReader]) (by simp [setReader]) (by simp)
  | connect hactor => exact .connect (by simp [Actor.link, hactor]) rfl rfl
  | drain hactor => exact .drain (by simp [Actor.link, hactor]) rfl rfl rfl
  | @reconnect closed hactor =>
    exact .reconnect (by simp [Actor.link, hactor]) (by cases closed <;> rfl) rfl rfl

/-- Between two connections the map is empty, and only connections that are over were drained. -/
structure Stage (os : List MuxOutput) (s : Mux) : Prop where
  quiet : s.Quiet
  drained : ∀ n, .drained n ∈ os → n < s.connection ∨ n = s.connection ∧ s.actor.link = .down

theorem Stage.next (h : Stage os s) (hturn : Turn s o s') : Stage (os ++ o) s' := by
  cases hturn with
  | same hlink hconnection hinflight hos =>
    refine ⟨fun hup => ?_, fun n hn => ?_⟩
    · rw [hlink] at hup
      exact hinflight hup (h.quiet hup)
    · rw [hlink, hconnection]
      exact h.drained n ((List.mem_append.mp hn).resolve_right (hos n))
  | connect _ hlink' =>
    refine ⟨fun hup => absurd hlink' hup, fun n hn => ?_⟩
    rcases h.drained n (by simpa using hn) with hlt | ⟨heq, -⟩ <;> omega
  | drain hlink _ _ hinflight =>
    refine ⟨fun _ => hinflight, fun n hn => ?_⟩
    rcases h.drained n (by simpa using hn) with hlt | ⟨-, hdown⟩
    · exact .inl (by omega)
    · rw [hlink] at hdown
      cases hdown
  | reconnect hlink hlink' _ hinflight =>
    refine ⟨fun _ => ?_, fun n hn => ?_⟩
    · rw [hinflight]
      exact h.quiet (by simp [hlink])
    · rcases List.mem_append.mp hn with hn | hn
      · rcases h.drained n hn with hlt | ⟨heq, -⟩
        · exact .inl (by omega)
        · exact .inr ⟨by omega, hlink'⟩
      · have : n = s.connection := by simpa using hn
        exact .inr ⟨by omega, hlink'⟩

/-! ### The budget -/

end Mux

/-- What the response in the reader's hand holds of the budget. -/
def IpcMux.Reader.reserved : Reader → ℕ
  | .delivering _ (some r) | .sending _ (some r) => r.reserved
  | _ => 0

/-- What the assembler of a cell holds of the budget. -/
def IpcMux.PendingResponse.reserved (cell : PendingResponse) : ℕ := cell.assembler.reserved

namespace Mux
variable {limits : ResponseChunkLimits} {sha256 : Bytes → Digest} {s s' : Mux} {e : MuxEvent}
  {os o : List MuxOutput} {id : String} {limit extra : ℕ} {r : CallResult}
  {cell cell' : PendingResponse} {f : FrameResult} {p : Pushed} {n : ℕ}

/-- The budget counts the cells, the responses callers hold, and what else is said; a caller that
holds a response was told it. -/
structure Books (limit extra : ℕ) (s : Mux) : Prop where
  limit_eq : s.budget.limit = limit
  used : s.budget.used = total reserved s.cells +
    total AssembledResponse.reserved s.held + extra
  le : s.budget.used ≤ limit
  held : ∀ id r, s.held.lookup id = some r → s.phase id = .answered ∨ s.phase id = .received

theorem Books.setPhase {p : CallPhase} (h : Books limit extra s)
    (hheld : s.held.lookup id = none ∨ p = .answered ∨ p = .received) :
    Books limit extra (s.setPhase id p) := by
  refine { h with held := fun j r hj => ?_ }
  by_cases hjid : j = id
  · subst hjid
    rw [phase_setPhase_self]
    rcases hheld with hnone | hp
    · rw [show s.held.lookup j = some r from hj] at hnone
      cases hnone
    · exact hp
  · rw [phase_setPhase_of_ne _ hjid]
    exact h.held j r hj

section

variable (h : Books limit extra s)
include h

/-- A call that was not told a result holds no response. -/
theorem Books.held_eq_none (id : String) (hanswered : s.phase id ≠ .answered)
    (hreceived : s.phase id ≠ .received) : s.held.lookup id = none := by
  by_contra hsome
  obtain ⟨r, hr⟩ := Option.ne_none_iff_exists'.mp hsome
  rcases h.held id r hr with hp | hp
  · exact hanswered hp
  · exact hreceived hp

theorem Books.dropHeld (id : String) :
    Books limit extra (s.dropHeld id) ∧ (s.dropHeld id).held.lookup id = none := by
  have hused := h.used
  have hle := h.le
  unfold Mux.dropHeld
  split
  case h_1 hnone => exact ⟨h, hnone⟩
  case h_2 r hr =>
    have herase := total_erase AssembledResponse.reserved hr
    refine ⟨⟨h.limit_eq, ?_, ?_, fun j r' hj => ?_⟩, AList.lookup_erase _ _⟩
    · simp only [release]
      omega
    · simp only [release]
      omega
    · by_cases hjid : j = id
      · rw [hjid, AList.lookup_erase] at hj
        cases hj
      · rw [AList.lookup_erase_ne hjid] at hj
        exact h.held j r' hj

theorem Books.sweep : Books limit extra (s.sweep id) := by
  have hused := h.used
  have hle := h.le
  unfold Mux.sweep
  split
  · exact h
  split
  · exact h
  rename_i cell hcell
  have herase := total_erase reserved hcell
  have hcell : reserved cell = cell.assembler.reserved := rfl
  refine ⟨h.limit_eq, ?_, ?_, h.held⟩
  · simp only [release]
    omega
  · simp only [release]
    omega

end

theorem Books.release (h : Books limit (n + extra) s) :
    Books limit extra { s with budget := s.budget.release n } := by
  have hused := h.used
  have hle := h.le
  refine ⟨h.limit_eq, ?_, ?_, h.held⟩
  · simp only [ResponseChunkBudget.release]
    omega
  · simp only [ResponseChunkBudget.release]
    omega

/-- What is sent goes to the caller or is dropped. -/
theorem Books.send (h : Books limit (r.reserved + extra) s) :
    Books limit extra (s.send id r).1 := by
  have hused := h.used
  unfold Mux.send
  split
  case isTrue hphase =>
    have hnone := h.held_eq_none id (by simp [hphase]) (by simp [hphase])
    cases r with
    | error =>
      exact { (h.setPhase (p := .answered) (.inl hnone)) with
        used := by simpa [CallResult.reserved, Mux.setPhase] using hused }
    | ok =>
      refine ⟨h.limit_eq, ?_, h.le, fun j r' hj => ?_⟩
      · simp only [CallResult.reserved] at hused
        simp only [Mux.setPhase, total_insert, total_erase_of_lookup_eq_none _ hnone]
        omega
      · by_cases hjid : j = id
        · rw [hjid]
          exact .inl (phase_setPhase_self (s := s) .answered)
        · rw [AList.lookup_insert_ne hjid] at hj
          have hsame := phase_setPhase_of_ne (s := s) .answered hjid
          exact (h.held j r' hj).imp hsame.trans hsame.trans
  case isFalse => exact h.release

/-- The cell of a call is another one, with the same reservation. -/
theorem Books.insert_cell (h : Books limit extra s) (hcell : s.cells.lookup id = some cell)
    (hsame : cell'.assembler = cell.assembler) :
    Books limit extra { s with cells := s.cells.insert id cell' } := by
  have hused := h.used
  have herase := total_erase reserved hcell
  have hreserved : cell'.reserved = cell.reserved := by
    rw [reserved, hsame]
    rfl
  refine ⟨h.limit_eq, ?_, h.le, h.held⟩
  simp only [total_insert]
  omega

theorem Books.answerError (h : Books limit extra s) (e : MuxError) :
    Books limit extra (s.answerError id e).1 := by
  unfold Mux.answerError
  split
  · exact h
  rename_i cell hcell
  split
  · have hinsert : Books limit extra
        { s with cells := s.cells.insert id { cell with respond := false } } :=
      h.insert_cell hcell rfl
    exact Books.send (r := .error e) (by simpa [CallResult.reserved] using hinsert)
  · exact h

/-- What a push takes from the budget is what the cell and the result hold more. -/
theorem pushed_books {b : ResponseChunkBudget} {a : ResponseAssembler} {frame : Bytes}
    {parser allocates : Bool} (hheld : a.reserved ≤ b.used) (hle : b.used ≤ b.limit) :
    (pushed limits sha256 b a frame parser allocates).budget.used + a.reserved = b.used +
        (pushed limits sha256 b a frame parser allocates).assembler.reserved +
        (pushed limits sha256 b a frame parser allocates).result.reserved ∧
      (pushed limits sha256 b a frame parser allocates).budget.limit = b.limit ∧
      (pushed limits sha256 b a frame parser allocates).budget.used ≤ b.limit := by
  unfold pushed
  split
  · exact push_spec.used hheld hle
  · exact pushLegacy_books a b frame hle

theorem reserved_delivery (h : delivery f = some r) : f.reserved = r.reserved := by
  unfold delivery at h
  split at h <;> cases h <;> rfl

theorem reserved_pending (h : delivery f = none) : f.reserved = 0 := by
  unfold delivery at h
  split at h <;> cases h
  rfl

section

variable (h : Books limit 0 s) (hcell : s.cells.lookup id = some cell)
  (hp : cell.assembler.reserved ≤ s.budget.used → s.budget.used ≤ s.budget.limit →
    p.budget.used + cell.assembler.reserved =
        s.budget.used + p.assembler.reserved + p.result.reserved ∧
      p.budget.limit = s.budget.limit ∧ p.budget.used ≤ s.budget.limit)
include h hcell hp

/-- A frame goes to the assembler of a cell. -/
theorem Books.push (hassembler : cell'.assembler = p.assembler) :
    Books limit p.result.reserved
      { s with budget := p.budget, cells := s.cells.insert id cell' } := by
  have hused := h.used
  have hmax := h.limit_eq
  have hle := h.le
  have herase := total_erase reserved hcell
  have hold : reserved cell = cell.assembler.reserved := rfl
  have hnew : reserved cell' = p.assembler.reserved := by
    rw [reserved, hassembler]
  obtain ⟨-, hlimit, hle'⟩ := hp (by omega) (by omega)
  refine ⟨hlimit.trans hmax, ?_, hle'.trans_eq hmax, h.held⟩
  simp only [total_insert]
  omega

/-- The reader has its frame assembled, and takes the responder with a result. -/
theorem Books.pushStep (hgone : s.actor.reader ≠ .gone) :
    Books limit (s.pushStep id cell p).actor.reader.reserved (s.pushStep id cell p) := by
  unfold Mux.pushStep
  split
  next hpending =>
    have hpush : Books limit p.result.reserved { s with
        budget := p.budget
        cells := s.cells.insert id { cell with assembler := p.assembler } } :=
      h.push hcell hp rfl
    rw [reserved_pending hpending] at hpush
    rw [sweep_kept.1, setReader_reader hgone]
    exact Books.sweep { hpush with }
  rename_i hresult
  have hpush : Books limit p.result.reserved { s with
      budget := p.budget
      cells := s.cells.insert id ⟨false, p.assembler⟩ } := h.push hcell hp rfl
  rw [reserved_delivery hresult] at hpush
  dsimp only
  rw [setReader_reader hgone]
  by_cases hrespond : cell.respond = true
  · simp only [hrespond, if_true]
    exact { hpush with }
  · simp only [hrespond]
    exact { (Books.release hpush : Books limit 0 _) with }

end

/-- An error was sent and a task let go of the entry; the reader is as before. -/
theorem Books.answered {t : Mux} {m : Finset String} {a : Actor} (e : MuxError)
    (h : Books limit s.actor.reader.reserved s) (ha : a.reader = s.actor.reader)
    (ht : t = { (s.answerError id e).1 with inflight := m, actor := a }.sweep id) :
    Books limit t.actor.reader.reserved t := by
  rw [ht, sweep_kept.1, ha]
  exact Books.sweep { h.answerError _ with }

theorem reserved_of_alike {a b : Actor} (h : a.Alike b) :
    b.reader.reserved = a.reader.reserved := by
  rcases h.reader with hr | ⟨ha, hb⟩
  · rw [hr]
  · rw [ha, hb]
    rfl

theorem Books.next (h : Books limit s.actor.reader.reserved s)
    (hplaces : ∀ id, ∃ os, Places id os (s.view id))
    (hstep : Transition limits sha256 s os s') : Books limit s'.actor.reader.reserved s' := by
  cases hstep with
  | @call id _ hphase =>
    exact h.setPhase (.inl (h.held_eq_none id (by simp [hphase]) (by simp [hphase])))
  | @enqueue id _ hphase =>
    have hset := h.setPhase (p := .waiting)
      (.inl (h.held_eq_none id (by simp [hphase]) (by simp [hphase])))
    exact { hset with }
  | @cancel id =>
    obtain ⟨hdrop, hnone⟩ := h.dropHeld id
    have hactor : ((s.dropHeld id).setPhase id .cancelling).actor = s.actor := dropHeld_kept.1
    rw [hactor]
    exact hdrop.setPhase (p := .cancelling) (.inl hnone)
  | @remove id hphase =>
    have hset := h.setPhase (p := .cancelled)
      (.inl (h.held_eq_none id (by simp [hphase]) (by simp [hphase])))
    rw [sweep_kept.1]
    exact Books.sweep { hset with }
  | receive => exact h.setPhase (.inr (.inr rfl))
  | @dropResponse id =>
    rw [dropHeld_kept.1]
    exact (h.dropHeld id).1
  | close | skip => exact { h with }
  | still ha =>
    rw [← reserved_of_alike ha] at h
    exact { h with }
  | take hactor | skipTook hactor | refuse hactor | connect hactor | drain hactor =>
    rw [hactor] at h
    exact { h with }
  | @register c _ hactor =>
    obtain ⟨_, hp⟩ := hplaces c.requestId
    have htook : (s.view c.requestId).took = true := by simp [took_view, hactor]
    have hnone : s.cells.lookup c.requestId = none := (hp.cell_eq_none (by simp [htook])).2
    have hused := h.used
    rw [hactor] at h hused
    refine { h with used := ?_ }
    simp only [total_insert, total_erase_of_lookup_eq_none _ hnone]
    simpa [reserved, ResponseAssembler.reserved] using hused
  | answerRefused hactor | writeError hactor | drainOne hactor =>
    exact h.answered _ (by rw [hactor]; rfl) rfl
  | hold hreader =>
    have hgone : s.actor.reader ≠ .gone := by simp [hreader]
    rw [hreader] at h
    simp only [setReader, setReader_reader hgone]
    exact { h with }
  | push hreader hcell =>
    have hgone : s.actor.reader ≠ .gone := by simp [hreader]
    rw [hreader] at h
    exact h.pushStep hcell pushed_books hgone
  | @unregister _ d hreader =>
    have hgone : s.actor.reader ≠ .gone := by simp [hreader]
    rw [hreader] at h
    simp only [setReader_reader hgone]
    cases d <;> exact { h with }
  | letGo hreader =>
    have hgone : s.actor.reader ≠ .gone := by simp [hreader]
    rw [hreader] at h
    rw [sweep_kept.1, setReader, setReader_reader hgone]
    exact Books.sweep { h with }
  | @deliver id _ hreader =>
    have hgone : s.actor.reader ≠ .gone := by simp [hreader]
    rw [hreader] at h
    rw [sweep_kept.1, setReader, (send_kept _).1, setReader_reader hgone]
    exact Books.sweep { (Books.send h : Books limit 0 (s.send id _).1) with }
  | @reconnect closed hactor =>
    rw [hactor] at h
    cases closed <;> exact { h with }

/-! ### Whole runs -/

/-- What holds of the client and of every call. -/
structure Sound (limits : ResponseChunkLimits) (sha256 : Bytes → Digest) (limit : ℕ)
    (os : List MuxOutput) (s : Mux) : Prop where
  stage : Stage os s
  places : ∀ id, Places id os (s.view id)
  origin : ∀ id, Origin limits sha256 id os (s.view id)
  books : Books limit s.actor.reader.reserved s

theorem view_start (limit : ℕ) (id : String) :
    (start limit).view id = ⟨0, .fresh, 0, false, false, false, false, .none, none⟩ := rfl

theorem sound_start (limits : ResponseChunkLimits) (sha256 : Bytes → Digest) (limit : ℕ) :
    Sound limits sha256 limit [] (start limit) where
  stage := ⟨fun _ => rfl, by simp⟩
  places id := by
    rw [view_start]
    exact ⟨⟨by simp [View.refers], by simp, by simp [registrations], fun _ => ⟨rfl, rfl⟩,
      by simp [View.responders, View.hasResponder, answers], by simp, by simp, by simp, by simp,
      by simp⟩, by simp⟩
  origin id := by
    rw [view_start]
    exact ⟨by simp, by simp, by simp, by simp⟩
  books := ⟨rfl, rfl, Nat.zero_le _, by simp [start]⟩

theorem Sound.next (h : Sound limits sha256 limit os s)
    (hstep : s.step limits sha256 e = some (s', o)) : Sound limits sha256 limit (os ++ o) s' := by
  have htransition := transition_of_step hstep
  have hmove := fun id => move_of_transition h.stage.quiet htransition id
  exact ⟨h.stage.next (turn_of_transition htransition), fun id => (h.places id).next (hmove id),
    fun id => (h.origin id).next (h.places id) (hmove id),
    h.books.next (fun id => ⟨os, h.places id⟩) htransition⟩

theorem sound_run {es : List MuxEvent}
    (h : runs (step limits sha256) (start limit) es = some (s, os)) :
    Sound limits sha256 limit os s :=
  runs_induction (fun _ os s => Sound limits sha256 limit os s)
    (sound_start limits sha256 limit) (fun _ _ _ _ _ _ _ hs hstep => hs.next hstep) es os s h

theorem registrations_eq (h : .registered id n ∈ os) (hle : (registrations id os).length ≤ 1) :
    registrations id os = [n] := by
  have hmem : n ∈ registrations id os := List.mem_filterMap.mpr ⟨_, h, by simp⟩
  match hl : registrations id os, hmem, hle with
  | [m], hmem, _ => rw [List.mem_singleton.mp hmem]

/-- Without a connection, nothing refers to a cell. -/
theorem Sound.refers_eq_false (h : Sound limits sha256 limit os s) (hdown : s.actor.link = .down)
    (id : String) : (s.view id).refers = false := by
  have hempty := h.stage.quiet (by simp [hdown])
  rw [Bool.eq_false_iff, ne_eq, View.refers_iff, mapped_view, refusing_view, left_view]
  have hhand : (s.view id).hand = s.actor.reader.handOf id := rfl
  rw [hhand, hempty]
  cases hactor : s.actor <;> simp_all [Actor.link]

/-- A call whose connection was drained does not wait any more. -/
theorem Sound.not_waiting (h : Sound limits sha256 limit os s) (hregistered : .registered id n ∈ os)
    (hdrained : .drained n ∈ os) : s.phase id ≠ .waiting := by
  intro hwaiting
  have hplaces := h.places id
  have htickets := hplaces.tickets
  have hregistrations := registrations_eq hregistered (by omega)
  rw [hregistrations, List.length_singleton] at htickets
  have hone := hplaces.waiting hwaiting
  -- The command is neither in the queue nor in the writer's hand, so the cell is there.
  have hcell : (s.view id).cell.isSome = true := by
    by_contra hnone
    have hnone : (s.view id).cell = none := by simpa using hnone
    have hhand := View.hand_eq_none (hplaces.refers_eq_false hnone)
    simp only [View.responders, View.hasResponder, hnone, hhand] at hone
    simp at hone
    omega
  have hconnection := hplaces.registered hcell
  rw [hregistrations] at hconnection
  have hview : (s.view id).connection = s.connection := rfl
  have hn : n = s.connection := by simpa [hview] using hconnection
  rcases h.stage.drained n hdrained with _ | ⟨-, hdown⟩
  · omega
  · have hrefers := hplaces.swept hcell
    rw [h.refers_eq_false hdown id] at hrefers
    cases hrefers

end Mux

/-! ### The calls -/

/-- What holds of a call after a run. -/
structure Answered (limits : ResponseChunkLimits) (sha256 : Bytes → Digest) (limit : ℕ)
    (os : List MuxOutput) (s : Mux) (id : String) : Prop where
  /-- No call gets two results. -/
  once : (answers id os).length ≤ 1
  /-- A call that waits has its responder in exactly one place, and no result yet. -/
  waiting : s.phase id = .waiting → (s.view id).responders = 1 ∧ answers id os = []
  /-- A call that was not cancelled and does not wait any more got one result. -/
  told : s.phase id = .answered ∨ s.phase id = .received → (answers id os).length = 1
  /-- A response consists of frames that were read, for the request, on the one connection the
  call was registered on. -/
  own : ∀ r, .answer id (.ok r) ∈ os →
    ∃ n, registrations id os = [n] ∧ OwnResponse limits sha256 os n id r
  /-- No call waits on a connection that was drained. -/
  drained : ∀ n, .registered id n ∈ os → .drained n ∈ os → s.phase id ≠ .waiting
  /-- A cancelled call is not in the map and has no response; a cell of it is one that a task is
  about to let go of. -/
  cancelled : s.phase id = .cancelled → id ∉ s.inflight ∧ s.held.lookup id = none ∧
    (s.cells.lookup id ≠ none → s.actor.writer.bind Writer.hand = some id ∨
      s.actor.reader.hand = some id ∨ id ∈ s.actor.left)
  /-- The budget counts the cells and the responses, and nothing else. -/
  budget : s.budget.used = total reserved s.cells +
    total AssembledResponse.reserved s.held + s.actor.reader.reserved ∧ s.budget.used ≤ limit

/-- **Every call is answered once, with its own response.** -/
theorem calls_answered {limits : ResponseChunkLimits} {sha256 : Bytes → Digest} {limit : ℕ}
    {es : List MuxEvent} {s : Mux} {os : List MuxOutput}
    (h : runs (step limits sha256) (.start limit) es = some (s, os)) (id : String) :
    Answered limits sha256 limit os s id := by
  have hsound := sound_run h
  have hplaces := hsound.places id
  have hresponders := hplaces.responders
  refine ⟨by omega, fun hw => ?_, hplaces.told, fun r hr => ?_,
    fun n hn hd => hsound.not_waiting hn hd, fun hc => ?_, hsound.books.used, hsound.books.le⟩
  · have hone := hplaces.waiting hw
    exact ⟨hone, List.eq_nil_of_length_eq_zero (by omega)⟩
  · obtain ⟨n, hn, hown⟩ := (hsound.origin id).answer r hr
    have htickets := hplaces.tickets
    exact ⟨n, registrations_eq hn (by omega), hown⟩
  · have hmapped : ¬ id ∈ s.inflight := by
      rw [← mapped_view, hplaces.cancelled hc]
      simp
    refine ⟨hmapped, hsound.books.held_eq_none id (by simp [hc]) (by simp [hc]), fun hcell => ?_⟩
    have hrefers := hplaces.swept (Option.isSome_iff_ne_none.mpr hcell)
    rw [← refers_eq, refers, decide_eq_true_iff] at hrefers
    exact hrefers.resolve_left hmapped

namespace TwoCalls

/-- A response to the call `"a"`: a map with a version, the request id and `ok`. -/
def response : Bytes :=
  [0x83] ++ Lib.Msgpack.writeStr "version" ++ [1] ++ Lib.Msgpack.writeStr "request_id" ++
    Lib.Msgpack.writeStr "a" ++ Lib.Msgpack.writeStr "ok" ++ [0xc3]

/-- One call is answered; the other one is cancelled while its command is in the queue, and the
connection is lost. -/
def events : List MuxEvent :=
  [.call "a" 8, .enqueue "a", .call "b" 8, .enqueue "b", .connect, .recv, .register, .written,
    .cancel "b", .read response, .push true, .unregister, .remove "b", .deliver, .receive "a",
    .recv, .readerExit, .lost, .drain, .reconnect]

theorem events_go : (runs (step .production padded) (.start 1024) events).isSome = true := by
  decide +kernel

def after : Mux × List MuxOutput :=
  reached (step .production padded) (.start 1024) events events_go

theorem calls_answered_events :
    after.1.phase "a" = .received ∧ after.1.phase "b" = .cancelled ∧
      Answered .production padded 1024 after.2 after.1 "a" ∧
      Answered .production padded 1024 after.2 after.1 "b" :=
  ⟨by decide +kernel, by decide +kernel, calls_answered (runs_eq_reached events_go) "a",
    calls_answered (runs_eq_reached events_go) "b"⟩

end TwoCalls

end Sie.Sidecar
