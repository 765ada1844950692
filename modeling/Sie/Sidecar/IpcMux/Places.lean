import Sie.Sidecar.IpcMux.View

/-!
# Where the responder and the frames of a call are

The responder of a call that waits is in one place: in the queue, in the writer's hand, in the
call's cell, or in the reader's hand.  Each use of it is one answer.  The frames in the cell and
in the reader's hand came to the call on the connection it was registered on.
-/

namespace Sie.Sidecar

open Sie.Wire List

namespace IpcMux

/-! ### Where the responder is -/

/-- The connections on which the call was registered. -/
def registrations (id : String) (os : List MuxOutput) : List ℕ :=
  os.filterMap fun
    | .registered j n => if j = id then some n else none
    | _ => none

/-- The results that were sent to the call. -/
def answers (id : String) (os : List MuxOutput) : List CallResult :=
  os.filterMap fun
    | .answer j r => if j = id then some r else none
    | _ => none

/-- The command of the call is not in the queue yet. -/
def CallPhase.early : CallPhase → Bool
  | .fresh | .sending _ => true
  | _ => false

/-- Where the command and the responder of a call are, given what was said about it. -/
structure Core (id : String) (os : List MuxOutput) (v : View) : Prop where
  cell : v.refers = true → v.cell.isSome = true
  registered : v.cell.isSome = true → registrations id os = [v.connection]
  tickets : v.queued + v.took.toNat + (registrations id os).length ≤ 1
  early : v.phase.early = true →
    v.queued + v.took.toNat + (registrations id os).length = 0 ∧ answers id os = []
  responders : v.responders + (answers id os).length ≤ 1
  waiting : v.phase = .waiting → v.responders = 1
  told : v.phase = .answered ∨ v.phase = .received → (answers id os).length = 1
  owned : v.phase = .waiting → v.hasResponder = true →
    v.mapped = true ∨ v.refusing = true ∨ v.left = true
  handled : ∀ d, v.hand = .result d → v.hasResponder = false
  cancelled : v.phase = .cancelled → v.mapped = false

/-- A cell is there exactly as long as something refers to it. -/
structure Places (id : String) (os : List MuxOutput) (v : View) : Prop extends Core id os v where
  swept : v.cell.isSome = true → v.refers = true

section
variable {id : String} {os o : List MuxOutput} {v v' : View} {limits : ResponseChunkLimits}
  {sha256 : Bytes → Digest} {frame : Bytes} {parser : Bool} {len n : ℕ} {cell : PendingResponse}
  {a : ResponseAssembler}

theorem registrations_append (id : String) (os o : List MuxOutput) :
    registrations id (os ++ o) = registrations id os ++ registrations id o :=
  filterMap_append

theorem answers_append (id : String) (os o : List MuxOutput) :
    answers id (os ++ o) = answers id os ++ answers id o := filterMap_append

theorem Silent.registrations (h : Silent id o) : registrations id o = [] := by
  refine filterMap_eq_nil_iff.mpr fun x hx => ?_
  cases x <;> grind [Silent]

theorem Silent.answers (h : Silent id o) : answers id o = [] := by
  refine filterMap_eq_nil_iff.mpr fun x hx => ?_
  cases x <;> grind [Silent]

section

variable (h : Core id os v)
include h

/-- Nothing was said about the call. -/
theorem Core.silent (ho : Silent id o) : Core id (os ++ o) v := by
  have hr : registrations id (os ++ o) = registrations id os := by
    rw [registrations_append, ho.registrations, append_nil]
  have ha : IpcMux.answers id (os ++ o) = IpcMux.answers id os := by
    rw [answers_append, ho.answers, append_nil]
  exact { h with
    registered := by rw [hr]; exact h.registered
    tickets := by rw [hr]; exact h.tickets
    early := by rw [hr, ha]; exact h.early
    responders := by rw [ha]; exact h.responders
    told := by rw [ha]; exact h.told }

/-- A cell that nothing refers to is dropped; the responder of a call that waits is not in it. -/
theorem Core.sweep : Places id os v.sweep := by
  by_cases hrefers : v.refers = true
  · rw [View.sweep, if_pos hrefers]
    exact ⟨h, fun _ => hrefers⟩
  have hnot : v.refers = false := by simpa using hrefers
  have hloss : v.phase = .waiting → v.hasResponder = false := by
    intro hw
    by_contra hres
    have howned := h.owned hw (by simpa using hres)
    exact hrefers (View.refers_iff.mpr (by tauto))
  rw [View.sweep, if_neg (by simp [hnot])]
  have hle : View.responders { v with cell := none } ≤ v.responders := by
    simp [View.responders, View.hasResponder]
  refine ⟨{ h with
    cell := fun hr => absurd hr hrefers
    registered := by simp
    responders := le_trans (Nat.add_le_add_right hle _) h.responders
    waiting := fun hw => ?_
    owned := by simp [View.hasResponder]
    handled := by simp [View.hasResponder] }, by simp⟩
  have hsame : View.responders { v with cell := none } = v.responders := by
    have := hloss hw
    simp only [View.responders, this]
    simp [View.hasResponder]
  rw [hsame]
  exact h.waiting hw

/-- A command on the way is not registered yet, and no cell is there. -/
theorem Core.cell_eq_none (hon : 0 < v.queued + v.took.toNat) :
    registrations id os = [] ∧ v.cell = none := by
  have htickets := h.tickets
  have hnil : registrations id os = [] := eq_nil_of_length_eq_zero (by omega)
  refine ⟨hnil, ?_⟩
  by_contra hcell
  have := h.registered (Option.isSome_iff_ne_none.mpr hcell)
  rw [hnil] at this
  cases this

theorem Core.refers_eq_false (hcell : v.cell = none) : v.refers = false := by
  by_contra hrefers
  have := h.cell (by simpa using hrefers)
  rw [hcell] at this
  cases this

end

theorem View.hand_eq_none (h : v.refers = false) : v.hand = .none := by
  have hnot : ¬ v.refers = true := by simp [h]
  rw [View.refers_iff] at hnot
  tauto

/-- Before its command is in the queue, a call has no responder out. -/
theorem Core.responders_of_early (h : Core id os v) (hearly : v.phase.early = true) :
    v.responders = 0 ∧ v.cell = none := by
  obtain ⟨hnone, -⟩ := h.early hearly
  have hcell : v.cell = none := by
    by_contra hcell
    have := h.registered (Option.isSome_iff_ne_none.mpr hcell)
    rw [this] at hnone
    simp at hnone
  have hhand := View.hand_eq_none (h.refers_eq_false hcell)
  refine ⟨?_, hcell⟩
  have hres : v.hasResponder = false := by rw [View.hasResponder, hcell]; rfl
  simp only [View.responders, hres, hhand, Bool.toNat_false]
  omega

/-- The call moves on, and does not wait. -/
theorem Places.goOn {p : CallPhase} (h : Places id os v)
    (hearly : p.early = true → v.phase.early = true)
    (htold : p = .answered ∨ p = .received → v.phase = .answered)
    (hp : p ≠ .waiting ∧ p ≠ .cancelled) : Places id os { v with phase := p } :=
  { h with
    early := fun he => h.early (hearly he)
    waiting := fun hw => absurd hw hp.1
    told := fun ht => h.told (.inl (htold ht))
    owned := fun hw => absurd hw hp.1
    cancelled := fun hc => absurd hc hp.2 }

section

variable (h : Places id os v)
include h

theorem Places.enqueue (hphase : v.phase = .sending len) :
    Places id os { v with phase := .waiting, queued := v.queued + 1 } := by
  have hearly : v.phase.early = true := by rw [hphase]; rfl
  obtain ⟨_, hanswers⟩ := h.early hearly
  obtain ⟨hzero, hcell⟩ := h.responders_of_early hearly
  have hone : View.responders { v with phase := .waiting, queued := v.queued + 1 } = 1 := by
    simp only [View.responders, View.hasResponder] at hzero ⊢
    omega
  exact { h with
    tickets := by dsimp only; omega
    early := by simp [CallPhase.early]
    responders := by rw [hone, hanswers]; simp
    waiting := fun _ => hone
    told := by simp
    owned := by simp [View.hasResponder, hcell]
    cancelled := by simp }

theorem Places.remove : Places id os { v with phase := .cancelled, mapped := false }.sweep := by
  refine Core.sweep { h with
    cell := fun hr => h.cell ?_
    early := by simp [CallPhase.early]
    waiting := by simp
    told := by simp
    owned := by simp
    cancelled := by simp }
  rw [View.refers_iff] at hr ⊢
  tauto

theorem Places.connect (hrefers : v.refers = false) :
    Places id os { v with connection := v.connection + 1 } := by
  have hcell : ¬ v.cell.isSome = true := fun hcell => by simp [h.swept hcell] at hrefers
  exact { h with registered := fun hsome => absurd hsome hcell }

/-- A command moves on towards the map, or is skipped because its call is cancelled. -/
theorem Places.onTheWay (took : Bool) (hle : n + took.toNat ≤ v.queued + v.took.toNat)
    (hkept : v.phase.flag = true ∨ n + took.toNat = v.queued + v.took.toNat) :
    Places id os { v with queued := n, took := took } := by
  have htickets := h.tickets
  have hresponders := h.responders
  have hsum : View.responders { v with queued := n, took := took } + (v.queued + v.took.toNat) =
      v.responders + (n + took.toNat) := by
    simp only [View.responders, View.hasResponder]
    omega
  exact { h with
    tickets := by dsimp only; omega
    early := fun he => by
      obtain ⟨_, hanswers⟩ := h.early he
      exact ⟨by dsimp only; omega, hanswers⟩
    responders := by omega
    waiting := fun hw => by
      have hone := h.waiting hw
      have hsame := hkept.resolve_left fun hflag => by
        simp [show v.phase = .waiting from hw, CallPhase.flag] at hflag
      omega }

theorem Places.register (hflag : v.phase.flag = false) (htook : v.took = true) :
    Places id (os ++ [.registered id v.connection])
      { v with took := false, mapped := true, cell := some ⟨true, ⟨id, none⟩⟩ } := by
  obtain ⟨hnil, hcell⟩ := h.cell_eq_none (by simp [htook])
  have hhand := View.hand_eq_none (h.refers_eq_false hcell)
  have htickets := h.tickets
  have hr : registrations id (os ++ [.registered id v.connection]) = [v.connection] := by
    rw [registrations_append, hnil]
    simp [registrations]
  have ha : answers id (os ++ [.registered id v.connection]) = answers id os := by
    simp [answers]
  have hsame : View.responders { v with
      took := false, mapped := true, cell := some ⟨true, ⟨id, none⟩⟩ } = v.responders := by
    simp only [View.responders, View.hasResponder, htook, hcell, hhand]
    rfl
  have hearly : ¬ v.phase.early = true := by
    intro hearly
    have := (h.early hearly).1
    simp [htook] at this
  refine ⟨⟨fun _ => rfl, fun _ => hr, ?_, fun he => absurd he hearly, ?_, ?_, ?_, ?_, ?_, ?_⟩, ?_⟩
  · rw [hr]
    simp only [htook, Bool.toNat_true] at htickets
    simp
    omega
  · rw [hsame, ha]
    exact h.responders
  · rw [hsame]
    exact h.waiting
  · rw [ha]
    exact h.told
  · exact fun _ _ => .inl rfl
  · simp [hhand]
  · intro hphase
    simp [show v.phase = .cancelled from hphase, CallPhase.flag] at hflag
  · exact fun _ => View.refers_iff.mpr (.inl rfl)

end

/-- An entry is taken out of the map, to be refused or left. -/
theorem Places.takeOut {r l : Bool} (h : Places id os v) (hmapped : v.mapped = true)
    (hout : r = true ∨ l = true) :
    Places id os { v with mapped := false, refusing := r, left := l } :=
  { h with
    cell := fun _ => h.cell (View.refers_iff.mpr (.inl hmapped))
    owned := fun _ _ => .inr hout
    cancelled := fun _ => rfl
    swept := fun _ => View.refers_iff.mpr (by tauto) }

theorem Places.hold (h : Places id os v) (hmapped : v.mapped = true) (hhand : v.hand = .none) :
    Places id os { v with hand := .holding frame parser } := by
  have hsame : View.responders { v with hand := .holding frame parser } = v.responders := by
    simp [View.responders, View.hasResponder, hhand]
  exact { h with
    cell := fun _ => h.cell (View.refers_iff.mpr (.inl hmapped))
    responders := hsame ▸ h.responders
    waiting := hsame ▸ h.waiting
    handled := by simp
    swept := fun _ => View.refers_iff.mpr (by simp) }

/-- A task lets go of an entry whose responder is not there. -/
theorem Core.letGo {m r l : Bool} (h : Core id os v) (hres : v.hasResponder = false)
    (hm : m = true → v.mapped = true) (hr : r = true → v.refusing = true)
    (hl : l = true → v.left = true) : Core id os { v with mapped := m, refusing := r, left := l } :=
  { h with
    cell := fun hrefers => by
      apply h.cell
      rw [View.refers_iff] at hrefers ⊢
      dsimp only at hrefers
      tauto
    owned := fun _ hsome => absurd (hres.symm.trans hsome) (by simp)
    cancelled := fun hphase => by
      by_contra hm'
      exact absurd (hm (by simpa using hm')) (by simp [h.cancelled hphase]) }

theorem View.hasResponder_taken (v : View) : v.taken.hasResponder = false := by
  unfold taken
  split
  · simp [told, hasResponder, Option.any_map]
  · simp_all

/-- A responder is used: one place less, one answer more. -/
theorem Core.tell {w : View} (h : Core id os v) (r : CallResult)
    (hconnection : w.connection = v.connection) (hphase : w.phase = v.told.phase)
    (hqueued : w.queued = v.queued) (htook : w.took = v.took) (hmapped : w.mapped = v.mapped)
    (hcell : w.cell.isSome = v.cell.isSome) (hrefers : w.refers = true → v.refers = true)
    (hres : w.hasResponder = false) (hless : w.responders + 1 = v.responders) :
    Core id (os ++ [.answer id r]) w := by
  have hresponders := h.responders
  have hr : registrations id (os ++ [.answer id r]) = registrations id os := by
    simp [registrations]
  have ha : (answers id (os ++ [.answer id r])).length = (answers id os).length + 1 := by
    simp [answers]
  have hearly : ¬ v.phase.early = true := by
    intro hearly
    have := (h.responders_of_early hearly).1
    omega
  have htold : w.phase ≠ .waiting ∧ (w.phase.early = true → v.phase.early = true) ∧
      (w.phase = .cancelled → v.phase = .cancelled) := by
    rw [hphase, View.told]
    by_cases hw : v.phase = .waiting
    · simp [hw, CallPhase.early]
    · simp [hw]
  refine ⟨fun hrw => ?_, fun hsome => ?_, ?_, fun he => absurd (htold.2.1 he) hearly, by omega,
    fun hw => absurd hw htold.1, fun _ => by omega, fun hw => absurd hw htold.1,
    fun _ _ => hres, fun hc => ?_⟩
  · rw [hcell]
    exact h.cell (hrefers hrw)
  · rw [hr, hconnection]
    exact h.registered (hcell ▸ hsome)
  · rw [hr, hqueued, htook]
    exact h.tickets
  · rw [hmapped]
    exact h.cancelled (htold.2.2 hc)

/-- The responder that is taken out of the cell is used. -/
theorem Core.taken (h : Core id os v) (e : MuxError) : Core id (os ++ v.answer id e) v.taken := by
  have hnone := v.hasResponder_taken
  have hrefers : v.taken.refers = true → v.refers = true := by simp [View.refers]
  unfold View.answer
  unfold View.taken at hnone hrefers ⊢
  split
  case isFalse => simpa using h
  case isTrue hres =>
    rw [if_pos hres] at hnone hrefers
    refine h.tell (.error e) rfl rfl rfl rfl rfl (by simp [View.told]) hrefers hnone ?_
    simp only [View.responders, hnone, hres]
    simp [View.told]
    omega

/-- The responder is taken and used, and a task lets go of the entry. -/
theorem Places.answered {m r l : Bool} (h : Places id os v) (e : MuxError)
    (hm : m = true → v.taken.mapped = true) (hr : r = true → v.taken.refusing = true)
    (hl : l = true → v.taken.left = true) : Places id (os ++ v.answer id e)
      { v.taken with mapped := m, refusing := r, left := l }.sweep :=
  ((h.toCore.taken e).letGo v.hasResponder_taken hm hr hl).sweep

theorem Places.unregister {d : Option CallResult} (h : Places id os v)
    (hhand : v.hand = .result d) : Places id os { v with mapped := false } :=
  ⟨h.toCore.letGo (h.handled d hhand) (by simp) (fun hr => hr) (fun hl => hl),
    fun _ => View.refers_iff.mpr (by simp [hhand])⟩

theorem Places.letGo (h : Places id os v) (hhand : v.hand = .result none) :
    Places id os { v with hand := .none }.sweep := by
  have hsame : View.responders { v with hand := .none } = v.responders := by
    simp [View.responders, View.hasResponder, hhand]
  exact Core.sweep { h.toCore with
    cell := fun hrefers => h.cell (by
      rw [View.refers_iff] at hrefers ⊢
      tauto)
    responders := hsame ▸ h.responders
    waiting := hsame ▸ h.waiting
    handled := by simp }

theorem Places.deliver {r : CallResult} (h : Places id os v) (hhand : v.hand = .result (some r)) :
    Places id (os ++ [.answer id r]) { v.told with hand := .none }.sweep := by
  have hres := h.handled _ hhand
  have htell : Core id (os ++ [.answer id r]) { v.told with hand := .none } := by
    refine h.toCore.tell r rfl rfl rfl rfl rfl rfl ?_ hres ?_
    · rw [View.refers_iff, View.refers_iff]
      simp [hhand]
    · have hres' : View.hasResponder { v.told with hand := .none } = false := hres
      simp only [View.responders, hres, hres', hhand]
      simp [View.told]
  exact htell.sweep

theorem Places.pend (h : Places id os v) (hhand : v.hand = .holding frame parser)
    (hcell : v.cell = some cell) :
    Places id os { v with hand := .none, cell := some { cell with assembler := a } }.sweep := by
  have hsome : v.cell.isSome = true := by simp [hcell]
  have hsame : View.responders { v with
      hand := .none, cell := some { cell with assembler := a } } = v.responders := by
    simp only [View.responders, View.hasResponder, hhand, hcell]
    simp
  exact Core.sweep { h.toCore with
    cell := fun _ => rfl
    registered := fun _ => h.registered hsome
    responders := hsame ▸ h.responders
    waiting := hsame ▸ h.waiting
    owned := fun hw hres => h.owned hw (by simpa [View.hasResponder, hcell] using hres)
    handled := by simp }

theorem Places.settle (r : CallResult) (h : Places id os v) (hhand : v.hand = .holding frame parser)
    (hcell : v.cell = some cell) :
    Places id os { v with
      hand := .result (if cell.respond then some r else none)
      cell := some ⟨false, a⟩ } := by
  have hsome : v.cell.isSome = true := by simp [hcell]
  have hsame : View.responders { v with
      hand := .result (if cell.respond then some r else none)
      cell := some ⟨false, a⟩ } = v.responders := by
    by_cases hrespond : cell.respond = true
    · simp only [View.responders, View.hasResponder, hhand, hcell, hrespond]
      simp [hrespond]
    · simp only [View.responders, View.hasResponder, hhand, hcell, hrespond]
      simp [hrespond]
  exact { h with
    cell := fun _ => rfl
    registered := fun _ => h.registered hsome
    responders := hsame ▸ h.responders
    waiting := hsame ▸ h.waiting
    owned := by simp [View.hasResponder]
    handled := by simp [View.hasResponder]
    swept := fun _ => View.refers_iff.mpr (by simp) }

/-- **Every move keeps a responder in its one place.** -/
theorem Places.next (h : Places id os v) (hmove : CallMove limits sha256 id v o v') :
    Places id (os ++ o) v' := by
  cases hmove with
  | same hs => exact ⟨h.toCore.silent hs, h.swept⟩
  | call len hphase =>
    simpa using h.goOn (p := .sending len) (by simp [hphase, CallPhase.early]) (by simp) (by simp)
  | enqueue hphase => simpa using h.enqueue hphase
  | cancel =>
    simpa using h.goOn (p := .cancelling) (by simp [CallPhase.early]) (by simp) (by simp)
  | remove => simpa using h.remove
  | receive hphase =>
    simpa using h.goOn (p := .received) (by simp [CallPhase.early]) (fun _ => hphase) (by simp)
  | connect hrefers => simpa using h.connect hrefers
  | skip hflag => simpa using h.onTheWay v.took (by omega) (.inl hflag)
  | take _ hqueued htook =>
    simpa using h.onTheWay true (by simp [hqueued, htook]) (.inr (by simp [hqueued, htook]))
  | skipTook hflag => simpa using h.onTheWay false (by simp) (.inl hflag)
  | register hflag htook => exact h.register hflag htook
  | refuse hmapped => simpa using h.takeOut hmapped (.inl rfl)
  | answerRefused | writeError | drainOne =>
    exact h.answered _ (by simp) (by simp) (by simp)
  | hold hmapped hhand =>
    exact ⟨(h.hold hmapped hhand).toCore.silent (by simp [Silent]), (h.hold hmapped hhand).swept⟩
  | pend hhand hcell => simpa using h.pend hhand hcell
  | settle hhand hcell => simpa using h.settle _ hhand hcell
  | unregister hhand => simpa using h.unregister hhand
  | letGo hhand => simpa using h.letGo hhand
  | deliver hhand => exact h.deliver hhand
  | drain hmapped => simpa using h.takeOut hmapped (.inr rfl)

end

/-! ### Where a response comes from -/

section

variable (limits : ResponseChunkLimits) (os : List MuxOutput) (n : ℕ) (id : String)

/-- The frame was read on the connection and is for the request. -/
def CameOn (frame : Bytes) : Prop :=
  .read n frame ∈ os ∧ ∃ parser, responseFrameRoute limits frame = .ok ⟨id, parser⟩

/-- The chunk came in a frame that was read on the connection and is for the request. -/
def ChunkOn (c : IpcResponseChunkV1) : Prop :=
  ∃ frame, CameOn limits os n id frame ∧ IpcResponseChunkV1.fromSlice frame = some c

end

/-- The response is a frame that came on the connection for the request, or what chunks that came
there for the request declare. -/
def OwnResponse (limits : ResponseChunkLimits) (sha256 : Bytes → Digest) (os : List MuxOutput)
    (n : ℕ) (id : String) (r : AssembledResponse) : Prop :=
  Gives sha256 (ChunkOn limits os n id) (CameOn limits os n id) id (.ok (.complete r))

/-- What the cell and the reader have of a call came on its connection, and so did its answer. -/
structure Origin (limits : ResponseChunkLimits) (sha256 : Bytes → Digest) (id : String)
    (os : List MuxOutput) (v : View) : Prop where
  assembler : ∀ cell, v.cell = some cell → cell.assembler.expectedRequestId = id ∧
    cell.assembler.Holds (ChunkOn limits os v.connection id)
  frame : ∀ frame parser, v.hand = .holding frame parser → CameOn limits os v.connection id frame
  result : ∀ r, v.hand = .result (some (.ok r)) → OwnResponse limits sha256 os v.connection id r
  answer : ∀ r, .answer id (.ok r) ∈ os →
    ∃ n, .registered id n ∈ os ∧ OwnResponse limits sha256 os n id r

section
variable {limits : ResponseChunkLimits} {sha256 : Bytes → Digest} {id : String}
  {os o : List MuxOutput} {v v' : View} {n : ℕ} {frame : Bytes} {c : IpcResponseChunkV1}
  {r : AssembledResponse}

theorem CameOn.mono (h : CameOn limits os n id frame) (o : List MuxOutput) :
    CameOn limits (os ++ o) n id frame := ⟨mem_append_left _ h.1, h.2⟩

theorem ChunkOn.mono (h : ChunkOn limits os n id c) (o : List MuxOutput) :
    ChunkOn limits (os ++ o) n id c := by
  obtain ⟨frame, hcame, hc⟩ := h
  exact ⟨frame, hcame.mono o, hc⟩

theorem OwnResponse.mono (h : OwnResponse limits sha256 os n id r) (o : List MuxOutput) :
    OwnResponse limits sha256 (os ++ o) n id r :=
  Gives.mono h (fun _ hc => hc.mono o) fun _ hf => hf.mono o

/-- What was handed out stays as it was. -/
theorem Origin.answer_append (h : Origin limits sha256 id os v) (ho : ∀ r, .answer id (.ok r) ∉ o)
    (r : AssembledResponse) (hmem : .answer id (.ok r) ∈ os ++ o) :
    ∃ n, .registered id n ∈ os ++ o ∧ OwnResponse limits sha256 (os ++ o) n id r := by
  rcases mem_append.mp hmem with hmem | hmem
  · obtain ⟨n, hregistered, hown⟩ := h.answer r hmem
    exact ⟨n, mem_append_left _ hregistered, hown.mono o⟩
  · exact absurd hmem (ho r)

/-- Nothing new comes to the call. -/
theorem Origin.keep {w : View} (h : Origin limits sha256 id os v)
    (hconnection : w.connection = v.connection) (hcell : ∀ cell', w.cell = some cell' →
      ∃ cell, v.cell = some cell ∧ cell'.assembler = cell.assembler)
    (hhand : w.hand = v.hand ∨ w.hand = .none) (ho : ∀ r, .answer id (.ok r) ∉ o) :
    Origin limits sha256 id (os ++ o) w := by
  refine ⟨fun cell' hcell' => ?_, fun frame parser hf => ?_, fun r hr => ?_, h.answer_append ho⟩
  · obtain ⟨cell, hcell, hassembler⟩ := hcell cell' hcell'
    obtain ⟨hid, hholds⟩ := h.assembler cell hcell
    rw [hassembler, hconnection]
    exact ⟨hid, hholds.mono fun _ hc => hc.mono o⟩
  · rcases hhand with hhand | hhand
    · rw [hconnection]
      exact (h.frame frame parser (hhand ▸ hf)).mono o
    · simp [hhand] at hf
  · rcases hhand with hhand | hhand
    · rw [hconnection]
      exact (h.result r (hhand ▸ hr)).mono o
    · simp [hhand] at hr

theorem View.same_sweep : v.sweep.hand = v.hand ∧ v.sweep.connection = v.connection := by
  unfold sweep
  split <;> exact ⟨rfl, rfl⟩

theorem Origin.sweep (h : Origin limits sha256 id os v) : Origin limits sha256 id os v.sweep := by
  have := h.keep (o := []) (w := v.sweep) View.same_sweep.2
    (fun cell hcell => ⟨cell, by unfold View.sweep at hcell; grind, rfl⟩)
    (.inl View.same_sweep.1) (by simp)
  rwa [append_nil] at this

theorem View.cell_taken {cell' : PendingResponse} (h : v.taken.cell = some cell') :
    ∃ cell, v.cell = some cell ∧ cell'.assembler = cell.assembler := by
  unfold taken at h
  split at h
  · obtain ⟨cell, hcell, rfl⟩ := Option.map_eq_some_iff.mp h
    exact ⟨cell, hcell, rfl⟩
  · exact ⟨cell', h, rfl⟩

theorem View.connection_taken : v.taken.connection = v.connection := by
  unfold taken told
  split <;> rfl

/-- A task used the responder for an error. -/
theorem Origin.taken {v' : View} (h : Origin limits sha256 id os v) (e : MuxError)
    (hconnection : v'.connection = v.taken.connection) (hcell : v'.cell = v.taken.cell)
    (hhand : v'.hand = v.taken.hand) : Origin limits sha256 id (os ++ v.answer id e) v'.sweep := by
  refine (h.keep (hconnection.trans View.connection_taken)
    (fun cell' hcell' => View.cell_taken (hcell ▸ hcell'))
    (.inl (hhand.trans (by simp))) fun r => ?_).sweep
  unfold View.answer
  split <;> simp

/-- What the assembler makes of a frame that came to the call. -/
theorem pushed_gives {a : ResponseAssembler} (sha256 : Bytes → Digest) (b : ResponseChunkBudget)
    (parser allocates : Bool) (hframe : CameOn limits os n id frame)
    (hid : a.expectedRequestId = id) (hholds : a.Holds (ChunkOn limits os n id)) :
    (Mux.pushed limits sha256 b a frame parser allocates).assembler.expectedRequestId = id ∧
      (Mux.pushed limits sha256 b a frame parser allocates).assembler.Holds
        (ChunkOn limits os n id) ∧ Gives sha256 (ChunkOn limits os n id) (CameOn limits os n id) id
        (Mux.pushed limits sha256 b a frame parser allocates).result := by
  unfold Mux.pushed
  split
  · have hpush : PushSpec sha256 b a frame (a.push limits sha256 allocates b frame) := push_spec
    obtain ⟨hholds', hid', hgives⟩ := hpush.gives (P := ChunkOn limits os n id)
      (W := CameOn limits os n id) (fun c hc => ⟨frame, hframe, hc⟩) (fun _ => hframe) hholds
    rw [hid', hid]
    exact ⟨rfl, hholds', hid ▸ hgives⟩
  · exact ⟨hid, hholds, pushLegacy_gives hframe⟩

theorem delivery_eq_ok {f : FrameResult} (h : Mux.delivery f = some (.ok r)) :
    f = .ok (.complete r) := by
  unfold Mux.delivery at h
  split at h
  · cases h
  · cases h
    rfl
  · cases h

theorem mem_registrations (h : registrations id os = [n]) : .registered id n ∈ os := by
  have hmem : n ∈ registrations id os := by simp [h]
  obtain ⟨x, hx, heq⟩ := mem_filterMap.mp hmem
  cases x <;> grind

/-- **Every move keeps the frames of a call apart from those of others.** -/
theorem Origin.next (h : Origin limits sha256 id os v) (hplaces : Places id os v)
    (hmove : CallMove limits sha256 id v o v') : Origin limits sha256 id (os ++ o) v' := by
  cases hmove with
  | same hs => exact h.keep rfl (fun cell hcell => ⟨cell, hcell, rfl⟩) (.inl rfl) fun r => hs.2 _
  | call | enqueue | cancel | receive | skip | take | skipTook | refuse | unregister | drain =>
    exact h.keep rfl (fun cell hcell => ⟨cell, hcell, rfl⟩) (.inl rfl) (by simp)
  | remove =>
    exact (h.keep (w := { v with phase := .cancelled, mapped := false }) rfl
      (fun cell hcell => ⟨cell, hcell, rfl⟩) (.inl rfl) (by simp)).sweep
  | letGo =>
    exact (h.keep (w := { v with hand := .none }) rfl
      (fun cell hcell => ⟨cell, hcell, rfl⟩) (.inr rfl) (by simp)).sweep
  | connect hrefers =>
    have hcell : v.cell = none := by
      by_contra hcell
      have := hplaces.swept (Option.isSome_iff_ne_none.mpr hcell)
      simp [this] at hrefers
    have hhand := View.hand_eq_none hrefers
    rw [append_nil]
    exact ⟨by simp [hcell], by simp [hhand], by simp [hhand], h.answer⟩
  | register _ htook =>
    obtain ⟨-, hcell⟩ := hplaces.cell_eq_none (by simp [htook])
    have hhand := View.hand_eq_none (hplaces.refers_eq_false hcell)
    refine ⟨fun cell hcell => ?_, by simp [hhand], by simp [hhand], h.answer_append (by simp)⟩
    cases hcell
    exact ⟨rfl, by simp [ResponseAssembler.Holds]⟩
  | answerRefused | writeError | drainOne => exact h.taken _ rfl rfl rfl
  | @hold frame parser _ _ hroute =>
    have hkeep := h.keep (o := [.read v.connection frame]) (w := v) rfl
      (fun cell hcell => ⟨cell, hcell, rfl⟩) (.inl rfl) (by simp)
    refine { hkeep with frame := fun frame' parser' hf => ?_, result := by simp }
    cases hf
    exact ⟨by simp, parser, hroute⟩
  | @pend frame parser allocates cell b _ hhand hcell hp =>
    obtain ⟨hid, hholds⟩ := h.assembler cell hcell
    obtain ⟨hid', hholds', -⟩ := pushed_gives sha256 b parser allocates
      (h.frame frame parser hhand) hid hholds
    rw [append_nil]
    refine Origin.sweep ⟨fun cell' hcell' => ?_, by simp, by simp, h.answer⟩
    cases hcell'
    rw [hp]
    exact ⟨hid', hholds'⟩
  | @settle frame parser allocates cell b _ result hhand hcell hp hresult =>
    obtain ⟨hid, hholds⟩ := h.assembler cell hcell
    obtain ⟨hid', hholds', hgives⟩ := pushed_gives sha256 b parser allocates
      (h.frame frame parser hhand) hid hholds
    rw [append_nil]
    refine ⟨fun cell' hcell' => ?_, by simp, fun r hr => ?_, h.answer⟩
    · cases hcell'
      rw [hp]
      exact ⟨hid', hholds'⟩
    · have hok : result = .ok r := by
        split at hr <;> simp_all
      subst hok
      rw [hp] at hresult
      rwa [delivery_eq_ok hresult] at hgives
  | @deliver result hhand =>
    have hrefers : v.refers = true := View.refers_iff.mpr (by simp [hhand])
    have hregistered := mem_registrations (hplaces.registered (hplaces.cell hrefers))
    refine Origin.sweep ⟨fun cell hcell => ?_, by simp, by simp, fun r hr => ?_⟩
    · obtain ⟨hid, hholds⟩ := h.assembler cell hcell
      exact ⟨hid, hholds.mono fun _ hc => hc.mono _⟩
    · rcases mem_append.mp hr with hr | hr
      · obtain ⟨n, hn, hown⟩ := h.answer r hr
        exact ⟨n, mem_append_left _ hn, hown.mono _⟩
      · have hok : result = .ok r := by simpa [eq_comm] using hr
        subst hok
        exact ⟨v.connection, mem_append_left _ hregistered, (h.result r hhand).mono _⟩

end

end IpcMux

end Sie.Sidecar
