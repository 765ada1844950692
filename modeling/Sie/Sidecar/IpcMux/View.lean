import Sie.Sidecar.IpcMux

/-!
# What the client does to one call

What the steps of the multiplexed client do to one call is a small system of its own: its phase,
its command on the way to the map, the references to its cell, and the cell.  Every step of the
client is a move of that system or leaves it alone.
-/

namespace Sie.Sidecar

open Sie.Wire Option AList

namespace IpcMux

/-! ### One call -/

/-- What the reader has in hand of a call. -/
inductive Hand
  | none
  | holding (frame : Bytes) (requiresChunkParser : Bool)
  | result (delivery : Option CallResult)
  deriving DecidableEq

@[simp]
def Reader.handOf (id : String) : Reader → Hand
  | .holding j frame parser => if j = id then .holding frame parser else .none
  | .delivering j d | .sending j d => if j = id then .result d else .none
  | .gone | .reading => .none

@[simp]
def Writer.took? : Writer → Option String
  | .took c => some c.requestId
  | _ => none

section
variable (closed : Bool) (w : Writer) (r : Reader) (left : Finset String)

@[simp] theorem Actor.connecting_parts : Actor.connecting.writer = none ∧
    Actor.connecting.reader = .gone ∧ Actor.connecting.left = ∅ := ⟨rfl, rfl, rfl⟩
@[simp] theorem Actor.running_parts : (Actor.running w r).writer = some w ∧
    (Actor.running w r).reader = r ∧ (Actor.running w r).left = ∅ := ⟨rfl, rfl, rfl⟩
@[simp] theorem Actor.stopping_parts : (Actor.stopping closed r).writer = none ∧
    (Actor.stopping closed r).reader = r ∧ (Actor.stopping closed r).left = ∅ := ⟨rfl, rfl, rfl⟩
@[simp] theorem Actor.draining_parts : (Actor.draining closed left).writer = none ∧
    (Actor.draining closed left).reader = .gone ∧ (Actor.draining closed left).left = left :=
  ⟨rfl, rfl, rfl⟩
@[simp] theorem Actor.exited_parts : Actor.exited.writer = none ∧
    Actor.exited.reader = .gone ∧ Actor.exited.left = ∅ := ⟨rfl, rfl, rfl⟩

end

@[ext]
structure View where
  connection : ℕ
  phase : CallPhase
  queued : ℕ
  took : Bool
  mapped : Bool
  refusing : Bool
  left : Bool
  hand : Hand
  cell : Option PendingResponse

namespace View

/-- The map or a task refers to the cell of the call. -/
def refers (v : View) : Bool := v.mapped || v.refusing || v.left || v.hand ≠ .none

theorem refers_iff {v : View} : v.refers = true ↔
    v.mapped = true ∨ v.refusing = true ∨ v.hand ≠ .none ∨ v.left = true := by
  simp [refers]
  tauto

section

variable (v : View)

def sweep : View := if v.refers then v else { v with cell := none }

/-- A result was sent. -/
def told : View :=
  { v with phase := if v.phase = .waiting then .answered else v.phase }

/-- The responder is in the cell. -/
def hasResponder : Bool := v.cell.any PendingResponse.respond

/-- The responder was taken out of the cell and used. -/
def taken : View :=
  if v.hasResponder then
    told { v with cell := v.cell.map fun cell => { cell with respond := false } }
  else v

@[simp] theorem taken_same : v.taken.took = v.took ∧ v.taken.mapped = v.mapped ∧
    v.taken.refusing = v.refusing ∧ v.taken.left = v.left ∧ v.taken.hand = v.hand := by
  unfold taken told
  split <;> exact ⟨rfl, rfl, rfl, rfl, rfl⟩

/-- The view of the call `id` with another map and another actor. -/
def withActor (id : String) (m : Finset String) (a : Actor) : View :=
  { v with
    took := a.writer.bind Writer.took? = some id
    mapped := id ∈ m
    refusing := a.writer.bind Writer.hand = some id
    left := id ∈ a.left
    hand := a.reader.handOf id }

/-- The places where the responder is. -/
def responders : ℕ :=
  v.queued + v.took.toNat + v.hasResponder.toNat +
    match v.hand with
    | .result (some _) => 1
    | _ => 0

end

end View

end IpcMux

open IpcMux

/-- What the state says about a call. -/
def Mux.view (s : Mux) (id : String) : View where
  connection := s.connection
  phase := s.phase id
  queued := (s.queue.map Command.requestId).count id
  took := s.actor.writer.bind Writer.took? = some id
  mapped := id ∈ s.inflight
  refusing := s.actor.writer.bind Writer.hand = some id
  left := id ∈ s.actor.left
  hand := s.actor.reader.handOf id
  cell := s.cells.lookup id

namespace IpcMux

/-- The outputs say nothing about the call. -/
def Silent (id : String) (os : List MuxOutput) : Prop :=
  (∀ n, .registered id n ∉ os) ∧ ∀ r, .answer id r ∉ os

/-- The answer that a responder in the cell gives. -/
def View.answer (v : View) (id : String) (e : MuxError) : List MuxOutput :=
  if v.hasResponder then [.answer id (.error e)] else []

section
variable (limits : ResponseChunkLimits) (sha256 : Bytes → Digest) (id : String) (v : View)

/-- What a step does to a call. -/
inductive CallMove : List MuxOutput → View → Prop
  | same {os : List MuxOutput} (h : Silent id os) : CallMove os v
  | call (len : ℕ) (h : v.phase = .fresh) :
      CallMove [] { v with phase := .sending len }
  | enqueue {len : ℕ} (h : v.phase = .sending len) :
      CallMove [] { v with phase := .waiting, queued := v.queued + 1 }
  | cancel (h : (∃ len, v.phase = .sending len) ∨ v.phase = .waiting ∨ v.phase = .answered) :
      CallMove [] { v with phase := .cancelling }
  | remove (h : v.phase = .cancelling) :
      CallMove [] { v with phase := .cancelled, mapped := false }.sweep
  | receive (h : v.phase = .answered) : CallMove [] { v with phase := .received }
  | connect (h : v.refers = false) :
      CallMove [] { v with connection := v.connection + 1 }
  | skip {n : ℕ} (hflag : v.phase.flag = true) (h : v.queued = n + 1) :
      CallMove [] { v with queued := n }
  | take {n : ℕ} (hflag : v.phase.flag = false) (h : v.queued = n + 1) (htook : v.took = false) :
      CallMove [] { v with queued := n, took := true }
  | skipTook (hflag : v.phase.flag = true) : CallMove [] { v with took := false }
  | register (hflag : v.phase.flag = false) (h : v.took = true) :
      CallMove [.registered id v.connection]
        { v with took := false, mapped := true, cell := some ⟨true, ⟨id, none⟩⟩ }
  | refuse (h : v.mapped = true) :
      CallMove [] { v with mapped := false, refusing := true }
  | answerRefused (h : v.refusing = true) (len : ℕ) :
      CallMove (v.answer id (.frameTooLarge len))
        { v.taken with refusing := false }.sweep
  | writeError (h : v.mapped = true) :
      CallMove (v.answer id .io) { v.taken with mapped := false }.sweep
  | hold {frame : Bytes} {parser : Bool} (h : v.mapped = true) (hhand : v.hand = .none)
      (hroute : responseFrameRoute limits frame = .ok ⟨id, parser⟩) :
      CallMove [.read v.connection frame]
          { v with hand := .holding frame parser }
  | pend {frame : Bytes} {parser allocates : Bool} {cell : PendingResponse}
      {b : ResponseChunkBudget} {p : Pushed} (hhand : v.hand = .holding frame parser)
      (hcell : v.cell = some cell)
      (hp : p = Mux.pushed limits sha256 b cell.assembler frame parser allocates)
      (hpending : Mux.delivery p.result = none) :
      CallMove []
        { v with hand := .none, cell := some { cell with assembler := p.assembler } }.sweep
  | settle {frame : Bytes} {parser allocates : Bool} {cell : PendingResponse}
      {b : ResponseChunkBudget} {p : Pushed} {result : CallResult}
      (hhand : v.hand = .holding frame parser) (hcell : v.cell = some cell)
      (hp : p = Mux.pushed limits sha256 b cell.assembler frame parser allocates)
      (hresult : Mux.delivery p.result = some result) :
      CallMove []
        { v with
          hand := .result (if cell.respond then some result else none)
          cell := some ⟨false, p.assembler⟩ }
  | unregister {d : Option CallResult} (h : v.hand = .result d) :
      CallMove [] { v with mapped := false }
  | letGo (h : v.hand = .result none) : CallMove []
      { v with hand := .none }.sweep
  | deliver {r : CallResult} (h : v.hand = .result (some r)) :
      CallMove [.answer id r] { v.told with hand := .none }.sweep
  | drain (h : v.mapped = true) (hleft : v.left = false) :
      CallMove [] { v with mapped := false, left := true }
  | drainOne (h : v.left = true) :
      CallMove (v.answer id .connectionLost) { v.taken with left := false }.sweep

end

end IpcMux

/-! ### The view after the parts of a step -/

namespace Mux
variable {s : Mux} {id j : String} {v : View} {cell : PendingResponse} {r : Reader}

section

variable (p : CallPhase)

@[simp] theorem phase_setPhase_self : (s.setPhase id p).phase id = p := by
  simp [setPhase, phase]

theorem phase_setPhase_of_ne (h : j ≠ id) : (s.setPhase id p).phase j = s.phase j := by
  simp [setPhase, phase, lookup_insert_ne h]

theorem view_setPhase_self : (s.setPhase id p).view id = { s.view id with phase := p } := by
  unfold view
  rw [phase_setPhase_self]
  rfl

theorem view_setPhase_of_ne (h : j ≠ id) : (s.setPhase id p).view j = s.view j := by
  unfold view
  rw [phase_setPhase_of_ne p h]
  rfl

end

theorem mapped_view : (s.view id).mapped = true ↔ id ∈ s.inflight := decide_eq_true_iff

theorem refusing_view :
    (s.view id).refusing = true ↔ s.actor.writer.bind Writer.hand = some id := decide_eq_true_iff

theorem left_view : (s.view id).left = true ↔ id ∈ s.actor.left := decide_eq_true_iff

theorem took_view : (s.view id).took = true ↔ s.actor.writer.bind Writer.took? = some id :=
  decide_eq_true_iff

/-- The view after a step of the actor or one of its tasks that changes the map. -/
theorem view_withActor (m : Finset String) (a : Actor) :
    { s with inflight := m, actor := a }.view id = (s.view id).withActor id m a := rfl

theorem view_dropHeld : (s.dropHeld id).view j = s.view j := by
  unfold dropHeld
  split <;> rfl

theorem hand_eq_some_iff : r.hand = some id ↔ r.handOf id ≠ .none := by
  cases r <;> simp [Reader.hand]

theorem refers_eq : s.refers id = (s.view id).refers := by
  rw [Bool.eq_iff_iff, View.refers_iff, refers, decide_eq_true_iff, hand_eq_some_iff,
    mapped_view, refusing_view, left_view]
  exact Iff.rfl

theorem view_sweep_self : (s.sweep id).view id = (s.view id).sweep := by
  unfold sweep View.sweep
  rw [refers_eq]
  split
  · rfl
  split
  next hcell =>
    unfold view
    rw [hcell]
  · unfold view
    rw [lookup_erase]
    rfl

theorem view_sweep_of_ne (h : j ≠ id) : (s.sweep id).view j = s.view j := by
  unfold sweep
  split
  · rfl
  split
  · rfl
  · unfold view
    rw [lookup_erase_ne h]
    rfl

theorem view_send_self (r : CallResult) : (s.send id r).1.view id = (s.view id).told := by
  unfold send
  by_cases hphase : s.phase id = .waiting
  · have hview : (s.view id).phase = .waiting := hphase
    rw [if_pos hphase, View.told, if_pos hview]
    exact view_setPhase_self (s := s) .answered
  · have hview : ¬ (s.view id).phase = .waiting := hphase
    rw [if_neg hphase, View.told, if_neg hview]
    rfl

theorem view_send_of_ne (r : CallResult) (h : j ≠ id) : (s.send id r).1.view j = s.view j := by
  unfold send
  split
  · exact view_setPhase_of_ne (s := s) .answered h
  · rfl

theorem send_outputs (r : CallResult) : (s.send id r).2 = [.answer id r] := by
  unfold send
  split <;> rfl

/-- The call's cell is another one, and nothing else changes. -/
theorem view_insert_cell_self (cell : PendingResponse) :
    { s with cells := s.cells.insert id cell }.view id = { s.view id with cell := some cell } := by
  unfold view
  rw [lookup_insert]
  rfl

theorem view_insert_cell_of_ne (cell : PendingResponse) (h : j ≠ id) :
    { s with cells := s.cells.insert id cell }.view j = s.view j := by
  unfold view
  rw [lookup_insert_ne h]
  rfl

theorem answerError_self (e : MuxError) : (s.answerError id e).1.view id = (s.view id).taken ∧
    (s.answerError id e).2 = (s.view id).answer id e := by
  unfold View.taken View.answer
  rw [show (s.view id).hasResponder = (s.cells.lookup id).any PendingResponse.respond from rfl,
    show (s.view id).cell = s.cells.lookup id from rfl]
  cases hcell : s.cells.lookup id with
  | none => simp [answerError, hcell]
  | some cell =>
    simp only [answerError, hcell, any_some]
    split
    · rw [view_send_self, view_insert_cell_self]
      exact ⟨rfl, send_outputs _⟩
    · exact ⟨rfl, rfl⟩

theorem view_answerError_of_ne (e : MuxError) (h : j ≠ id) :
    (s.answerError id e).1.view j = s.view j := by
  unfold answerError
  split
  · rfl
  · split
    · rw [view_send_of_ne _ h, view_insert_cell_of_ne _ h]
    · rfl

@[simp] theorem send_kept (r : CallResult) : (s.send id r).1.actor = s.actor ∧
    (s.send id r).1.inflight = s.inflight ∧ (s.send id r).1.connection = s.connection := by
  unfold send
  split <;> exact ⟨rfl, rfl, rfl⟩

section

variable (e : MuxError)

@[simp] theorem answerError_kept : (s.answerError id e).1.inflight = s.inflight ∧
    (s.answerError id e).1.connection = s.connection := by
  unfold answerError
  split
  · exact ⟨rfl, rfl⟩
  · split
    · exact (send_kept _).2
    · exact ⟨rfl, rfl⟩

theorem silent_answer (h : j ≠ id) : Silent j (v.answer id e) := by
  unfold View.answer
  split
  · simp [Silent, h]
  · simp [Silent]

end

/-! ### What a step can do -/

end Mux

/-- The actors have the same to do with every call. -/
structure IpcMux.Actor.Alike (a b : Actor) : Prop where
  link : b.link = a.link
  took : b.writer.bind Writer.took? = a.writer.bind Writer.took?
  hand : b.writer.bind Writer.hand = a.writer.bind Writer.hand
  left : b.left = a.left
  reader : b.reader = a.reader ∨ a.reader = .reading ∧ b.reader = .gone

theorem IpcMux.Actor.Alike.handOf {a b : Actor} (h : a.Alike b) (id : String) :
    b.reader.handOf id = a.reader.handOf id := by
  rcases h.reader with hr | ⟨ha, hb⟩
  · rw [hr]
  · rw [ha, hb]
    rfl

namespace Mux
variable {s : Mux} {id j : String}

@[simp] theorem setReader_same (a : Actor) (r : Reader) : (a.setReader r).writer = a.writer ∧
    (a.setReader r).left = a.left ∧ (a.setReader r).link = a.link := by
  cases a <;> exact ⟨rfl, rfl, rfl⟩

/-- The reader is there, so it can be set. -/
theorem setReader_reader {a : Actor} (h : a.reader ≠ .gone) (r : Reader) :
    (a.setReader r).reader = r := by
  cases a <;> simp_all [Actor.setReader]

/-- The reader returns. -/
theorem alike_gone {a : Actor} (h : a.reader = .reading) : a.Alike (a.setReader .gone) :=
  ⟨by simp, by simp, by simp, by simp, .inr ⟨h, setReader_reader (by simp [h]) _⟩⟩

section
variable (limits : ResponseChunkLimits) (sha256 : Bytes → Digest)

/-- What a step can do.  Steps that change nothing about any call are one case. -/
inductive Transition (s : Mux) : List MuxOutput → Mux → Prop
  | call {id : String} {len : ℕ} (hphase : s.phase id = .fresh) :
      Transition s [] (s.setPhase id (.sending len))
  | enqueue {id : String} {len : ℕ} (hphase : s.phase id = .sending len) :
      Transition s [] { s.setPhase id .waiting with queue := s.queue ++ [⟨id, len⟩] }
  | cancel {id : String} (hphase : (∃ len, s.phase id = .sending len) ∨ s.phase id = .waiting ∨
        s.phase id = .answered) :
      Transition s [] ((s.dropHeld id).setPhase id .cancelling)
  | remove {id : String} (hphase : s.phase id = .cancelling) :
      Transition s []
        ({ s.setPhase id .cancelled with inflight := s.inflight.erase id }.sweep id)
  | receive {id : String} (hphase : s.phase id = .answered) :
      Transition s [] (s.setPhase id .received)
  | dropResponse {id : String} : Transition s [] (s.dropHeld id)
  | close : Transition s [] { s with closed := true }
  | still {os : List MuxOutput} {a : Actor} (ha : s.actor.Alike a)
      (hos : ∀ o ∈ os, ∃ frame, o = .read s.connection frame) :
      Transition s os { s with actor := a }
  | skip {c : Command} {queue : List Command} (hqueue : s.queue = c :: queue)
      (hflag : (s.phase c.requestId).flag = true) :
      Transition s [] { s with queue := queue }
  | take {c : Command} {queue : List Command} {r : Reader} (hactor : s.actor = .running .idle r)
      (hqueue : s.queue = c :: queue) (hflag : (s.phase c.requestId).flag = false) :
      Transition s [] { s with queue := queue, actor := .running (.took c) r }
  | skipTook {c : Command} {r : Reader} (hactor : s.actor = .running (.took c) r)
      (hflag : (s.phase c.requestId).flag = true) :
      Transition s [] { s with actor := .running .idle r }
  | register {c : Command} {r : Reader} (hactor : s.actor = .running (.took c) r)
      (hflag : (s.phase c.requestId).flag = false) :
      Transition s [.registered c.requestId s.connection] { s with
        inflight := insert c.requestId s.inflight
        cells := s.cells.insert c.requestId ⟨true, ⟨c.requestId, none⟩⟩
        actor := .running (.writing c) r }
  | refuse {c : Command} {r : Reader} (hactor : s.actor = .running (.writing c) r)
      (hmem : c.requestId ∈ s.inflight) :
      Transition s []
        { s with inflight := s.inflight.erase c.requestId, actor := .running (.refusing c) r }
  | answerRefused {c : Command} {r : Reader} (hactor : s.actor = .running (.refusing c) r) :
      Transition s (s.answerError c.requestId (.frameTooLarge (c.len % 2 ^ 32))).2
        ({ (s.answerError c.requestId (.frameTooLarge (c.len % 2 ^ 32))).1 with
          actor := .running .idle r }.sweep c.requestId)
  | writeError {c : Command} {r : Reader} (hactor : s.actor = .running (.writing c) r)
      (hmem : c.requestId ∈ s.inflight) :
      Transition s (s.answerError c.requestId .io).2
        ({ (s.answerError c.requestId .io).1 with
          inflight := (s.answerError c.requestId .io).1.inflight.erase c.requestId
          actor := .running .failed r }.sweep c.requestId)
  | hold {id : String} {frame : Bytes} {parser : Bool} (hreader : s.actor.reader = .reading)
      (hmem : id ∈ s.inflight) (hroute : responseFrameRoute limits frame = .ok ⟨id, parser⟩) :
      Transition s [.read s.connection frame] (s.setReader (.holding id frame parser))
  | push {id : String} {frame : Bytes} {parser allocates : Bool} {cell : PendingResponse}
      (hreader : s.actor.reader = .holding id frame parser)
      (hcell : s.cells.lookup id = some cell) :
      Transition s [] (s.pushStep id cell
        (pushed limits sha256 s.budget cell.assembler frame parser allocates))
  | unregister {id : String} {d : Option CallResult}
      (hreader : s.actor.reader = .delivering id d) :
      Transition s []
        { s with inflight := s.inflight.erase id, actor := s.actor.setReader (.sending id d) }
  | letGo {id : String} (hreader : s.actor.reader = .sending id none) :
      Transition s [] ((s.setReader .reading).sweep id)
  | deliver {id : String} {r : CallResult} (hreader : s.actor.reader = .sending id (some r)) :
      Transition s [.answer id r] (((s.send id r).1.setReader .reading).sweep id)
  | connect (hactor : s.actor = .connecting) : Transition s []
      { s with connection := s.connection + 1, actor := .running .idle .reading }
  | drain {closed : Bool} (hactor : s.actor = .stopping closed .gone) :
      Transition s [] { s with inflight := ∅, actor := .draining closed s.inflight }
  | drainOne {id : String} {closed : Bool} {left : Finset String}
      (hactor : s.actor = .draining closed left) (hmem : id ∈ left) :
      Transition s (s.answerError id .connectionLost).2
        ({ (s.answerError id .connectionLost).1 with
          actor := .draining closed (left.erase id) }.sweep id)
  | reconnect {closed : Bool} (hactor : s.actor = .draining closed ∅) :
      Transition s [.drained s.connection]
        { s with actor := if closed then .exited else .connecting }

end

section
variable {limits : ResponseChunkLimits} {sha256 : Bytes → Digest} {s' : Mux} {os : List MuxOutput}
  {r : Reader}

theorem transition_running {w w' : Writer} (hactor : s.actor = .running w r)
    (htook : w'.took? = w.took?) (hhand : w'.hand = w.hand) :
    Transition limits sha256 s [] { s with actor := .running w' r } :=
  .still (by rw [hactor]; exact ⟨rfl, htook, hhand, rfl, .inl rfl⟩) (by simp)

theorem transition_recv (hactor : s.actor = .running .idle r)
    (h : s.recvStep r = some (s', os)) : Transition limits sha256 s os s' := by
  unfold recvStep at h
  split at h
  · split at h <;> cases h
    exact transition_running hactor rfl rfl
  rename_i c _ hqueue
  split at h
  case isTrue hflag =>
    cases h
    exact .skip hqueue hflag
  case isFalse hflag =>
    cases h
    exact .take hactor hqueue (Bool.eq_false_iff.mpr hflag)

theorem transition_read {frame : Bytes} (hreader : s.actor.reader = .reading) :
    Transition limits sha256 s [.read s.connection frame] (s.readStep limits frame) := by
  unfold readStep
  split
  · exact .still (alike_gone hreader) (by simp)
  split
  · exact .still (alike_gone hreader) (by simp)
  rename_i hroute
  split
  case isTrue hmem => exact .hold hreader hmem hroute
  case isFalse => exact .still (a := s.actor) ⟨rfl, rfl, rfl, rfl, .inl rfl⟩ (by simp)

theorem transition_lost {w : Writer} (hactor : s.actor = .running w r)
    (h : s.lostStep w r = some s') : Transition limits sha256 s [] s' := by
  unfold lostStep at h
  split at h <;> cases h
  all_goals exact .still (by rw [hactor]; exact ⟨rfl, rfl, rfl, rfl, .inl rfl⟩) (by simp)

/-- **Every step is a transition.** -/
theorem transition_of_step {e : MuxEvent} (h : s.step limits sha256 e = some (s', os)) :
    Transition limits sha256 s os s' := by
  cases e with
  | call =>
    obtain ⟨hfresh, ⟨⟩⟩ := ite_none_right_eq_some.mp h
    exact .call hfresh.2
  | enqueue =>
    simp only [step] at h
    split at h
    · obtain ⟨-, ⟨⟩⟩ := ite_none_right_eq_some.mp h
      exact .enqueue ‹_›
    · cases h
  | cancel =>
    simp only [step] at h
    split at h <;> cases h
    · exact .cancel (.inl ⟨_, ‹_›⟩)
    · exact .cancel (.inr (.inl ‹_›))
    · exact .cancel (.inr (.inr ‹_›))
  | remove =>
    obtain ⟨hphase, ⟨⟩⟩ := ite_none_right_eq_some.mp h
    exact .remove hphase
  | receive =>
    obtain ⟨hphase, ⟨⟩⟩ := ite_none_right_eq_some.mp h
    exact .receive hphase
  | dropResponse =>
    obtain ⟨-, ⟨⟩⟩ := ite_none_right_eq_some.mp h
    exact .dropResponse
  | close =>
    obtain ⟨-, ⟨⟩⟩ := ite_none_right_eq_some.mp h
    exact .close
  | connect =>
    simp only [step] at h
    split at h <;> cases h
    exact .connect ‹_›
  | recv =>
    simp only [step] at h
    split at h
    · exact transition_recv ‹_› h
    · cases h
  | register =>
    simp only [step, registerStep] at h
    split at h
    case h_1 c r hactor =>
      split at h <;> cases h
      case isTrue hflag => exact .skipTook hactor hflag
      case isFalse hflag => exact .register hactor (Bool.eq_false_iff.mpr hflag)
    case h_2 => cases h
  | refuse =>
    simp only [step, refuseStep] at h
    split at h
    case h_1 c r hactor =>
      obtain ⟨-, heq⟩ := ite_none_right_eq_some.mp h
      split at heq <;> cases heq
      · exact .refuse hactor ‹_›
      · exact transition_running hactor rfl rfl
    case h_2 => cases h
  | answerRefused =>
    simp only [step] at h
    split at h <;> cases h
    exact .answerRefused ‹_›
  | written =>
    simp only [step] at h
    split at h
    case h_1 c r hactor =>
      obtain ⟨-, ⟨⟩⟩ := ite_none_right_eq_some.mp h
      exact transition_running hactor rfl rfl
    case h_2 => cases h
  | writeError =>
    simp only [step, writeErrorStep] at h
    split at h
    case h_1 c r hactor =>
      obtain ⟨-, heq⟩ := ite_none_right_eq_some.mp h
      split at heq <;> cases heq
      · exact .writeError hactor ‹_›
      · exact transition_running hactor rfl rfl
    case h_2 => cases h
  | read =>
    obtain ⟨hreader, ⟨⟩⟩ := ite_none_right_eq_some.mp h
    exact transition_read hreader
  | readerExit =>
    obtain ⟨hreader, ⟨⟩⟩ := ite_none_right_eq_some.mp h
    exact .still (alike_gone hreader) (by simp)
  | push =>
    simp only [step] at h
    split at h
    · split at h <;> cases h
      exact .push ‹_› ‹_›
    · cases h
  | unregister =>
    simp only [step] at h
    split at h <;> cases h
    exact .unregister ‹_›
  | deliver =>
    simp only [step, deliverStep] at h
    split at h
    next id d hreader =>
      cases d with
      | none =>
        cases h
        exact .letGo hreader
      | some r =>
        cases h
        rw [send_outputs]
        exact .deliver hreader
    · cases h
  | lost =>
    simp only [step] at h
    split at h
    · obtain ⟨t, ht, ⟨⟩⟩ := map_eq_some_iff.mp h
      exact transition_lost ‹_› ht
    · cases h
  | abort =>
    simp only [step] at h
    split at h <;> cases h
    rename_i hactor
    exact .still (by rw [hactor]; exact ⟨rfl, rfl, rfl, rfl, .inr ⟨rfl, rfl⟩⟩) (by simp)
  | drain =>
    simp only [step] at h
    split at h <;> cases h
    exact .drain ‹_›
  | drainOne =>
    simp only [step] at h
    split at h
    · obtain ⟨hmem, ⟨⟩⟩ := ite_none_right_eq_some.mp h
      exact .drainOne ‹_› hmem
    · cases h
  | reconnect =>
    simp only [step] at h
    split at h
    · obtain ⟨rfl, ⟨⟩⟩ := ite_none_right_eq_some.mp h
      exact .reconnect ‹_›
    · cases h

/-! ### Every transition is a move of every call -/

theorem silent_nil : Silent id [] := by simp [Silent]

theorem move_of_view_eq (h : s'.view id = s.view id) (hs : Silent id os) :
    CallMove limits sha256 id (s.view id) os (s'.view id) := by
  rw [h]
  exact .same hs

/-- A transition that moves one call and leaves the others alone. -/
theorem move_of_one {v : View} (hmove : CallMove limits sha256 id (s.view id) os v)
    (hself : s'.view id = v) (hother : ∀ j, j ≠ id → s'.view j = s.view j) (j : String)
    (hs : ∀ j, j ≠ id → Silent j os := by simp +contextual [Silent]) :
    CallMove limits sha256 j (s.view j) os (s'.view j) := by
  by_cases hj : j = id
  · rwa [hj, hself]
  · exact move_of_view_eq (hother j hj) (hs j hj)

/-- An error is sent to one call, and a task lets go of its entry. -/
theorem move_of_answer {e : MuxError} {m : Finset String} {a : Actor} {v : View}
    (hmove : CallMove limits sha256 id (s.view id) ((s.view id).answer id e) v.sweep)
    (hself : (s.view id).taken.withActor id m a = v)
    (hother : ∀ j, j ≠ id → (s.view j).withActor j m a = s.view j) (j : String) :
    CallMove limits sha256 j (s.view j) (s.answerError id e).2
      (({ (s.answerError id e).1 with inflight := m, actor := a }.sweep id).view j) := by
  rw [(answerError_self e).2]
  refine move_of_one hmove ?_ (fun j hj => ?_) j fun j hj => silent_answer _ hj
  · rw [view_sweep_self, view_withActor, (answerError_self e).1, hself]
  · rw [view_sweep_of_ne hj, view_withActor, view_answerError_of_ne _ hj, hother j hj]

/-- The map is empty once it is drained, until the next connection. -/
def Quiet (s : Mux) : Prop := s.actor.link ≠ .up → s.inflight = ∅

theorem view_setReader (r : Reader) (h : s.actor.reader ≠ .gone) :
    (s.setReader r).view id = { s.view id with hand := r.handOf id } := by
  simp [view, phase, setReader, setReader_reader h]
  rfl

theorem move_push {frame : Bytes} {parser allocates : Bool} {cell : PendingResponse}
    (hreader : s.actor.reader = .holding id frame parser)
    (hcell : s.cells.lookup id = some cell) (j : String) :
    CallMove limits sha256 j (s.view j) [] ((s.pushStep id cell
      (pushed limits sha256 s.budget cell.assembler frame parser allocates)).view j) := by
  have hgone : s.actor.reader ≠ .gone := by simp [hreader]
  have hhand : (s.view id).hand = .holding frame parser := by simp [view, hreader]
  simp only [pushStep]
  split
  · refine move_of_one (.pend hhand hcell rfl ‹_›) ?_ (fun j hj => ?_) j
    · rw [view_sweep_self]
      congr 1
      simp [view, phase, setReader_reader hgone]
    · rw [view_sweep_of_ne hj]
      simp [view, phase, setReader_reader hgone, hreader, hj, Ne.symm hj, lookup_insert_ne]
  · refine move_of_one (.settle hhand hcell rfl ‹_›) ?_ (fun j hj => ?_) j
    · simp [view, phase, setReader_reader hgone]
    · simp [view, phase, setReader_reader hgone, hreader, hj, Ne.symm hj, lookup_insert_ne]

/-- **Every transition is a move of every call.** -/
theorem move_of_transition (hquiet : s.Quiet) (h : Transition limits sha256 s os s')
    (j : String) : CallMove limits sha256 j (s.view j) os (s'.view j) := by
  cases h with
  | call hphase =>
    exact move_of_one (.call _ hphase) (view_setPhase_self _)
      (fun j hj => view_setPhase_of_ne _ hj) j
  | enqueue hphase =>
    refine move_of_one (.enqueue hphase) ?_ (fun j hj => ?_) j
    · ext <;> simp [view, phase, setPhase] <;> rfl
    · ext <;> simp [view, phase, setPhase, hj, Ne.symm hj, lookup_insert_ne] <;> rfl
  | cancel hphase =>
    refine move_of_one (.cancel hphase) ?_ (fun j hj => ?_) j
    · rw [view_setPhase_self, view_dropHeld]
    · rw [view_setPhase_of_ne _ hj, view_dropHeld]
  | remove hphase =>
    refine move_of_one (.remove hphase) ?_ (fun j hj => ?_) j
    · rw [view_sweep_self]
      congr 1
      ext <;> simp [view, phase, setPhase] <;> rfl
    · rw [view_sweep_of_ne hj]
      ext <;> simp [view, phase, setPhase, hj, lookup_insert_ne] <;> rfl
  | receive hphase =>
    exact move_of_one (.receive hphase) (view_setPhase_self _)
      (fun j hj => view_setPhase_of_ne _ hj) j
  | dropResponse => exact move_of_view_eq view_dropHeld silent_nil
  | close => exact move_of_view_eq rfl silent_nil
  | still ha hos =>
    refine move_of_view_eq ?_ ⟨fun n hn => ?_, fun r hr => ?_⟩
    · simp [view, phase, ha.took, ha.hand, ha.left, ha.handOf, -Reader.handOf]
    · obtain ⟨frame, ⟨⟩⟩ := hos _ hn
    · obtain ⟨frame, ⟨⟩⟩ := hos _ hr
  | @skip c queue hqueue hflag =>
    refine move_of_one (.skip (n := (queue.map Command.requestId).count c.requestId) hflag
      (by simp [view, hqueue])) rfl (fun j hj => ?_) j
    simp [view, phase, hqueue, Ne.symm hj]
  | @take c queue _ hactor hqueue hflag =>
    refine move_of_one (.take (n := (queue.map Command.requestId).count c.requestId) hflag
      (by simp [view, hqueue]) (by simp [view, hactor])) ?_ (fun j hj => ?_) j
    · simp [view, phase, hactor]
    · simp [view, phase, hactor, hqueue, Ne.symm hj]
  | skipTook hactor hflag =>
    refine move_of_one (.skipTook hflag) ?_ (fun j hj => ?_) j
    · simp [view, phase, hactor]
    · simp [view, phase, hactor, Ne.symm hj]
  | register hactor hflag =>
    refine move_of_one (.register hflag (by simp [view, hactor])) ?_ (fun j hj => ?_) j
    · simp [view, phase, hactor]
    · simp [view, phase, hactor, hj, Ne.symm hj, lookup_insert_ne]
  | refuse hactor hmem =>
    refine move_of_one (.refuse (mapped_view.mpr hmem)) ?_ (fun j hj => ?_) j
    · simp [view, phase, hactor]
    · simp [view, phase, hactor, hj, Ne.symm hj]
  | answerRefused hactor =>
    refine move_of_answer (.answerRefused (by simp [view, hactor]) _) ?_ (fun j hj => ?_) j
    · simp [View.withActor, view, hactor]
    · simp [View.withActor, view, hactor, Ne.symm hj]
  | writeError hactor hmem =>
    refine move_of_answer (.writeError (mapped_view.mpr hmem)) ?_ (fun j hj => ?_) j
    · simp [View.withActor, view, hactor]
    · simp [View.withActor, view, hactor, hj]
  | hold hreader hmem hroute =>
    have hgone : s.actor.reader ≠ .gone := by simp [hreader]
    refine move_of_one (.hold (mapped_view.mpr hmem) (by simp [view, hreader]) hroute) ?_
      (fun j hj => ?_) j
    · rw [view_setReader _ hgone]
      simp
    · rw [view_setReader _ hgone]
      simp [view, hreader, Ne.symm hj]
  | push hreader hcell => exact move_push hreader hcell j
  | @unregister id d hreader =>
    have hgone : s.actor.reader ≠ .gone := by simp [hreader]
    have hhand : (s.view id).hand = .result d := by simp [view, hreader]
    refine move_of_one (.unregister hhand) ?_ (fun j hj => ?_) j
    · simp [view, phase, setReader_reader hgone, hreader]
    · simp [view, phase, setReader_reader hgone, hreader, hj, Ne.symm hj]
  | @letGo id hreader =>
    have hgone : s.actor.reader ≠ .gone := by simp [hreader]
    have hhand : (s.view id).hand = .result none := by simp [view, hreader]
    refine move_of_one (.letGo hhand) ?_ (fun j hj => ?_) j
    · rw [view_sweep_self, view_setReader _ hgone]
      simp
    · rw [view_sweep_of_ne hj, view_setReader _ hgone]
      simp [view, hreader, Ne.symm hj]
  | @deliver id r hreader =>
    have hgone : (s.send id r).1.actor.reader ≠ .gone := by simp [hreader]
    refine move_of_one (.deliver (by simp [view, hreader])) ?_ (fun j hj => ?_) j
    · rw [view_sweep_self, view_setReader _ hgone, view_send_self]
      simp
    · rw [view_sweep_of_ne hj, view_setReader _ hgone, view_send_of_ne _ hj]
      simp [view, hreader, Ne.symm hj]
  | connect hactor =>
    have hempty : s.inflight = ∅ := hquiet (by simp [hactor, Actor.link])
    have hview : Mux.view { s with
        connection := s.connection + 1, actor := .running .idle .reading } j =
        { s.view j with connection := s.connection + 1 } := by
      simp [view, phase, hactor]
    rw [hview]
    exact .connect (by simp [View.refers, view, hactor, hempty])
  | @drain closed hactor =>
    by_cases hj : j ∈ s.inflight
    · have hview : Mux.view { s with inflight := ∅, actor := .draining closed s.inflight } j =
          { s.view j with mapped := false, left := true } := by
        simp [view, phase, hactor, hj]
      rw [hview]
      exact .drain (mapped_view.mpr hj) (by simp [view, hactor])
    · refine move_of_view_eq ?_ silent_nil
      simp [view, phase, hactor, hj]
  | drainOne hactor hmem =>
    refine move_of_answer (.drainOne (by simp [view, hactor, hmem])) ?_ (fun j hj => ?_) j
    · simp [View.withActor, view, hactor]
    · simp [View.withActor, view, hactor, hj]
  | reconnect hactor =>
    refine move_of_view_eq ?_ (by simp [Silent])
    ext <;> split <;> simp [view, phase, hactor]

end

end Mux

end Sie.Sidecar
