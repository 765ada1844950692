import Mathlib.Data.List.Chain
import Sie.Gateway.Republish

/-!
# Exactly-once aggregation of a stream

Whatever chunks of whatever attempts are delivered, in whatever order and however often,
the outcome of a stream is put together from the accepted chunks of one attempt, each
once and in order.

The argument is that the state of the latched attempt is the fold of `absorb` over its
accepted chunks in the log (`attemptAfter`), and that a bump puts exactly such a state
aside.  It needs two conditions on the run (`Steady`): no republish of the driver takes
the lock between a terminal chunk and the removal of the collector, and no republish of
the driver is rolled back after a chunk of another attempt was accepted.
-/

namespace Sie.Gateway

open Sie.Lib Std List PendingStream StreamCollector AttemptState ToolCallDeltaWire

/-! ## The accepted chunks -/

/-- The accepted chunks of a log, with the time each came. -/
def accepted (os : List StreamOutput) : List (ℕ × ChunkEnvelope) :=
  os.filterMap fun o =>
    match o with
    | .accepted now chunk => some (now, chunk)
    | _ => none

/-- Those of one attempt. -/
def acceptedOf (attemptId : String) (os : List StreamOutput) : List (ℕ × ChunkEnvelope) :=
  (accepted os).filter fun p => p.2.attemptId = attemptId

@[simp] theorem accepted_append (os o : List StreamOutput) :
    accepted (os ++ o) = accepted os ++ accepted o := filterMap_append

/-- The tool-call deltas of an index. -/
def deltasAt (index : ℕ) (chunks : List ChunkEnvelope) : List ToolCallDeltaWire :=
  (chunks.flatMap fun chunk => chunk.toolCalls.getD []).filter fun tc => tc.index = index

/-- The part of the arguments a delta brings. -/
def ToolCallDeltaWire.arguments (tc : ToolCallDeltaWire) : String :=
  (tc.function.map ToolCallFunctionWire.arguments).getD ""

/-- The outcome is put together from these chunks: deltas with consecutive numbers and
then the terminal, each once and in this order. -/
structure Aggregates (o : StreamOutcome) (chunks : List ChunkEnvelope) : Prop where
  attempt : ∀ chunk ∈ chunks, chunk.attemptId = o.attemptId
  ends : ∃ deltas terminal, chunks = deltas ++ [terminal] ∧ terminal.done = true ∧
    (∀ delta ∈ deltas, delta.done = false) ∧
    deltas.IsChain fun delta next => next.seq = delta.seq + 1
  text : o.text = String.join (chunks.map ChunkEnvelope.textDelta)
  reasoning : ∀ choice, o.reasoning.getD choice "" =
    String.join ((chunks.filter fun chunk => chunk.choiceIndex = choice).map
      ChunkEnvelope.reasoningDelta)
  logprobs : o.logprobs.getD [] = chunks.flatMap fun chunk => chunk.logprobs.getD []
  /-- The calls are those of the indices that occur, in their order. -/
  calls : (o.toolCalls.getD []).Pairwise fun call next => call.index < next.index
  occurs : ∀ index, (∃ call ∈ o.toolCalls.getD [], call.index = index) ↔
    deltasAt index chunks ≠ []
  arguments : ∀ call ∈ o.toolCalls.getD [], call.arguments =
    String.join ((deltasAt call.index chunks).map arguments)

/-! ## The state of an attempt -/

/-- The state of an attempt after its accepted chunks. -/
def attemptAfter (attemptId : String) (chunks : List (ℕ × ChunkEnvelope)) : AttemptState :=
  chunks.foldl (fun a p => a.absorb p.1 p.2)
    { empty with currentAttemptId := some attemptId }

section AttemptAfter

variable {attemptId : String} (chunks : List (ℕ × ChunkEnvelope))

theorem attemptAfter_concat (p : ℕ × ChunkEnvelope) :
    attemptAfter attemptId (chunks ++ [p]) = (attemptAfter attemptId chunks).absorb p.1 p.2 := by
  simp [attemptAfter]

theorem attemptAfter_current : (attemptAfter attemptId chunks).currentAttemptId =
    some attemptId := by
  induction chunks using reverseRecOn with
  | nil => rfl
  | append_singleton _ _ ih => rw [attemptAfter_concat, ← ih]; rfl

theorem attemptAfter_lastAppliedSeq :
    (attemptAfter attemptId chunks).lastAppliedSeq = chunks.getLast?.map fun p => p.2.seq := by
  induction chunks using reverseRecOn with
  | nil => rfl
  | append_singleton => simp [attemptAfter_concat, absorb]

theorem attemptAfter_text :
    (attemptAfter attemptId chunks).chunks.foldl (fun text delta => text ++ delta.2) "" =
      String.join (chunks.map fun p => p.2.textDelta) := by
  induction chunks using reverseRecOn with
  | nil => rfl
  | append_singleton _ p ih =>
    rw [attemptAfter_concat]
    by_cases hempty : p.2.textDelta = ""
    · simp [absorb, hempty, ih]
    · simp [absorb, hempty, ih]

theorem attemptAfter_logprobs :
    (attemptAfter attemptId chunks).logprobs = chunks.flatMap fun p => p.2.logprobs.getD [] := by
  induction chunks using reverseRecOn with
  | nil => rfl
  | append_singleton _ _ ih => simp [attemptAfter_concat, absorb, ih]

theorem attemptAfter_reasoning (choice : ℕ) :
    (attemptAfter attemptId chunks).reasoning[choice]?.getD "" =
      String.join ((chunks.filter fun p => p.2.choiceIndex = choice).map
        fun p => p.2.reasoningDelta) := by
  induction chunks using reverseRecOn with
  | nil => simp [attemptAfter, empty]
  | append_singleton _ p ih =>
    rw [attemptAfter_concat]
    simp [absorb, absorbReasoning, ← ih]
    by_cases hempty : p.2.reasoningDelta = ""
    · by_cases hchoice : p.2.choiceIndex = choice <;> simp [hempty, hchoice]
    · by_cases hchoice : p.2.choiceIndex = choice
      · simp [hempty, hchoice]
      · simp [hempty, hchoice, ExtTreeMap.getElem?_alter]

end AttemptAfter

variable {os o : List StreamOutput} {c c₁ : StreamCollector} {chunk : ChunkEnvelope}
  {s t : PendingStream} {attemptId : String} {os' : List StreamOutput} {named : Option String}
  {outcome : StreamOutcome}

/-! ## Tool calls -/

@[simp] theorem AggregatedToolCall.extend_index (entry : AggregatedToolCall)
    (tc : ToolCallDeltaWire) : (entry.extend tc).index = entry.index := by
  unfold extend
  dsimp only
  repeat' split
  all_goals rfl

@[simp] theorem AggregatedToolCall.extend_arguments (entry : AggregatedToolCall)
    (tc : ToolCallDeltaWire) : (entry.extend tc).arguments = entry.arguments ++ tc.arguments := by
  unfold extend ToolCallDeltaWire.arguments
  cases tc.function with
  | none =>
    dsimp only
    repeat' split
    all_goals simp
  | some =>
    dsimp only
    repeat' split
    all_goals rfl

/-- The call that its deltas give. -/
def callOf (deltas : List ToolCallDeltaWire) : Option AggregatedToolCall :=
  deltas.head?.map fun first => deltas.foldl .extend (.fresh first)

theorem callOf_concat (deltas : List ToolCallDeltaWire) (tc : ToolCallDeltaWire) :
    callOf (deltas ++ [tc]) = some (((callOf deltas).getD (.fresh tc)).extend tc) := by
  cases deltas <;> simp [callOf]

theorem callOf_spec {index : ℕ} {deltas : List ToolCallDeltaWire} {call : AggregatedToolCall}
    (hindex : ∀ tc ∈ deltas, tc.index = index) (h : callOf deltas = some call) :
    call.index = index ∧ call.arguments = String.join (deltas.map arguments) := by
  induction deltas using reverseRecOn generalizing call with
  | nil => simp [callOf] at h
  | append_singleton deltas tc ih =>
    rw [callOf_concat] at h
    cases h
    have hrest : ∀ d ∈ deltas, d.index = index := fun d hd => hindex d (by simp [hd])
    cases hcall : callOf deltas with
    | none =>
      have hnil : deltas = [] := by
        cases deltas with
        | nil => rfl
        | cons d ds => simp [callOf] at hcall
      simp [hnil, AggregatedToolCall.fresh, hindex tc (by simp)]
    | some call =>
      obtain ⟨hi, ha⟩ := ih hrest hcall
      simp [hi, ha]

theorem callOf_isSome (deltas : List ToolCallDeltaWire) :
    (callOf deltas).isSome = true ↔ deltas ≠ [] := by
  cases deltas <;> simp [callOf]

/-- Absorbing deltas gives at each index the call of all its deltas. -/
theorem getElem?_foldl_absorbToolCall (index : ℕ) (tcs : List ToolCallDeltaWire) :
    ∀ (calls : ExtTreeMap ℕ AggregatedToolCall) (deltas : List ToolCallDeltaWire),
      calls[index]? = callOf deltas → (tcs.foldl absorbToolCall calls)[index]? =
        callOf (deltas ++ tcs.filter fun tc => tc.index = index) := by
  induction tcs with
  | nil =>
    intro calls deltas h
    simpa using h
  | cons tc tcs ih =>
    intro calls deltas h
    rw [foldl_cons]
    by_cases hindex : tc.index = index
    · rw [ih (absorbToolCall calls tc) (deltas ++ [tc])]
      · simp [hindex]
      · rw [callOf_concat, ← h]
        simp [absorbToolCall, hindex]
    rw [ih (absorbToolCall calls tc) deltas]
    · simp [hindex]
    · rw [← h]
      simp [absorbToolCall, ExtTreeMap.getElem?_alter, hindex]

theorem attemptAfter_toolCalls (attemptId : String) (chunks : List (ℕ × ChunkEnvelope))
    (index : ℕ) :
    (attemptAfter attemptId chunks).toolCallsByIndex[index]? =
      callOf (deltasAt index (chunks.map Prod.snd)) := by
  induction chunks using reverseRecOn with
  | nil => simp [attemptAfter, empty, deltasAt, callOf]
  | append_singleton _ _ ih =>
    rw [attemptAfter_concat]
    simp only [absorb]
    rw [getElem?_foldl_absorbToolCall index _ _ _ ih]
    simp [deltasAt]

/-! ## The outcome of an attempt -/

/-- Deltas with consecutive numbers. -/
structure Deltas (chunks : List (ℕ × ChunkEnvelope)) : Prop where
  open_ : ∀ p ∈ chunks, p.2.done = false
  chain : chunks.IsChain fun p q => q.2.seq = p.2.seq + 1

/-- **The outcome of a collector whose attempt is the fold of its accepted chunks.** -/
theorem aggregates_of_attemptAfter {o : StreamOutcome} {deltas : List (ℕ × ChunkEnvelope)}
    {terminal : ℕ × ChunkEnvelope}
    (hstate : c.toAttemptState = attemptAfter attemptId (acceptedOf attemptId os))
    (haccepted : acceptedOf attemptId os = deltas ++ [terminal]) (hdeltas : Deltas deltas)
    (hdone : terminal.2.done = true) (ho : c.buildOutcome = some o) :
    o.attemptId = attemptId ∧ Aggregates o ((acceptedOf attemptId os).map Prod.snd) := by
  obtain ⟨m, -, rfl⟩ := Option.map_eq_some_iff.mp ho
  have hattempt : c.currentAttemptId = some attemptId := by rw [hstate, attemptAfter_current]
  have htoolCalls : ∀ call, call ∈ (if c.toolCallsByIndex.isEmpty then none
      else some (c.toolCallsByIndex.toList.map Prod.snd)).getD [] ↔
      ∃ index, callOf (deltasAt index ((acceptedOf attemptId os).map Prod.snd)) = some call := by
    intro call
    simp only [← attemptAfter_toolCalls attemptId, ← hstate]
    by_cases hempty : c.toolCallsByIndex.isEmpty = true
    · have hnone : c.toolCallsByIndex = ∅ := ExtTreeMap.isEmpty_iff.mp hempty
      simp [hnone]
    · simp [hempty, ExtTreeMap.mem_toList_iff_getElem?_eq_some]
  have hcall : ∀ index call,
      callOf (deltasAt index ((acceptedOf attemptId os).map Prod.snd)) = some call →
      call.index = index ∧ call.arguments = String.join
        ((deltasAt index ((acceptedOf attemptId os).map Prod.snd)).map arguments) := by
    intro index call h
    exact callOf_spec (by simp [deltasAt]) h
  refine ⟨by simp [hattempt], ?_, ?_, ?_, ?_, ?_, ?_, ?_, ?_⟩
  · intro chunk hchunk
    obtain ⟨p, hp, rfl⟩ := mem_map.mp hchunk
    simp [acceptedOf] at hp
    simp [hattempt, hp.2]
  · refine ⟨deltas.map Prod.snd, terminal.2, by simp [haccepted], hdone, ?_, ?_⟩
    · intro chunk hchunk
      obtain ⟨p, hp, rfl⟩ := mem_map.mp hchunk
      exact hdeltas.open_ p hp
    · rw [isChain_map]
      exact hdeltas.chain
  · dsimp only
    rw [hstate, attemptAfter_text, map_map]
    rfl
  · intro _
    dsimp only
    rw [ExtTreeMap.getD_eq_getD_getElem?, hstate, attemptAfter_reasoning, filter_map, map_map]
    rfl
  · dsimp only
    rw [hstate, attemptAfter_logprobs, flatMap_map]
    split_ifs with hempty
    · exact (isEmpty_iff.mp hempty).symm
    · rfl
  · dsimp only
    split
    · exact List.Pairwise.nil
    refine pairwise_map.mpr (c.toolCallsByIndex.ordered_keys_toList.imp_of_mem ?_)
    intro p q hp hq hlt
    rw [ExtTreeMap.mem_toList_iff_getElem?_eq_some, hstate, attemptAfter_toolCalls] at hp hq
    rw [(hcall _ _ hp).1, (hcall _ _ hq).1]
    exact compare_lt_iff_lt.mp hlt
  · intro index
    rw [← callOf_isSome]
    constructor
    · rintro ⟨call, hmem, rfl⟩
      obtain ⟨index, hsome⟩ := (htoolCalls call).mp hmem
      rw [(hcall _ _ hsome).1, hsome]
      rfl
    · intro hsome
      obtain ⟨call, hsome⟩ := Option.isSome_iff_exists.mp hsome
      exact ⟨call, (htoolCalls call).mpr ⟨index, hsome⟩, (hcall _ _ hsome).1⟩
  · intro call hmem
    obtain ⟨index, hsome⟩ := (htoolCalls call).mp hmem
    obtain ⟨rfl, harguments⟩ := hcall _ _ hsome
    exact harguments

/-! ## How a collector relates to the log -/

/-- The collector `c` after the log `os`. -/
inductive View (os : List StreamOutput) (c : StreamCollector) : Prop
  /-- No chunk was accepted. -/
  | fresh (hnone : accepted os = []) (hstate : c.toAttemptState = .empty)
      (hopen : c.finalMeta = none)
      (hsnapshot : c.republished = true → c.snapshot = some .empty)
  /-- An attempt is latched, and its terminal has not come. -/
  | latched (attemptId : String)
      (hstate : c.toAttemptState = attemptAfter attemptId (acceptedOf attemptId os))
      (hsome : acceptedOf attemptId os ≠ []) (hdeltas : Deltas (acceptedOf attemptId os))
      (hopen : c.finalMeta = none)
      (honly : c.republished = false → ∀ p ∈ accepted os, p.2.attemptId = attemptId)
  /-- The terminal of the latched attempt has come. -/
  | ended (attemptId : String) (deltas : List (ℕ × ChunkEnvelope))
      (terminal : ℕ × ChunkEnvelope)
      (hstate : c.toAttemptState = attemptAfter attemptId (acceptedOf attemptId os))
      (haccepted : acceptedOf attemptId os = deltas ++ [terminal]) (hdeltas : Deltas deltas)
      (hdone : terminal.2.done = true) (hended : c.finalMeta.isSome = true)
  /-- The attempt was put aside, and no other is latched. -/
  | aside (attemptId : String) (hstate : c.toAttemptState = .empty)
      (hsnapshot : c.snapshot = some (attemptAfter attemptId (acceptedOf attemptId os)))
      (hsome : acceptedOf attemptId os ≠ []) (hdeltas : Deltas (acceptedOf attemptId os))
      (hopen : c.finalMeta = none) (hrepublished : c.republished = true)
      (habandoned : c.abandonedAttemptId = some attemptId)
      (honly : ∀ p ∈ accepted os, p.2.attemptId = attemptId)

/-- The driver's republish does not take the lock between a terminal chunk and the removal
of the collector, and is not rolled back after a chunk was accepted behind it. -/
def Steady (s : PendingStream) : StreamEvent → Prop
  | .timeout _ => s.inbox ≠ .complete
  | .driverAck ok => ok = false → (s.collector.bind fun c => c.currentAttemptId) = none
  | _ => True

instance (s : PendingStream) : ∀ e, Decidable (Steady s e)
  | .timeout _ => inferInstanceAs (Decidable (_ ≠ _))
  | .driverAck _ => inferInstanceAs (Decidable (_ → _))
  | .published _ | .chunk .. | .nak _ | .proceed | .nakAck _ | .remove | .shutdown => isTrue ⟨⟩

/-- What a log says about the outcome: it is put together from the accepted chunks of the
latched attempt, and after a gap it is an error. -/
structure Yields (os : List StreamOutput) (o : StreamOutcome) : Prop where
  aggregates : o.origin = .workerTerminal →
    Aggregates o ((acceptedOf o.attemptId os).map Prod.snd)
  gap : ∀ chunk, .gap chunk ∈ os → o.error ≠ none

/-- The request after the log `os`. -/
structure Sound (os : List StreamOutput) (s : PendingStream) : Prop where
  view : ∀ c, s.collector = some c → View os c
  pending : ∀ c, s.collector = some c → ∀ o, .outcome o ∉ os
  ended : ∀ c, s.collector = some c → c.finalMeta.isSome = true → s.inbox = .complete
  gap : ∀ c, s.collector = some c → ∀ chunk, .gap chunk ∈ os → s.inbox = .failGap
  yields : ∀ o, .outcome o ∈ os → Yields os o

/-! ## Steps -/

theorem acceptedOf_congr (h : accepted os' = accepted os) (attemptId : String) :
    acceptedOf attemptId os' = acceptedOf attemptId os := by
  unfold acceptedOf
  rw [h]

/-- Nothing that the view is about changes. -/
theorem View.congr {c' : StreamCollector} (h : View os c)
    (haccepted : accepted os' = accepted os := by simp [accepted])
    (hstate : c'.toAttemptState = c.toAttemptState := by rfl)
    (hmeta : c'.finalMeta = c.finalMeta := by rfl)
    (hrepublished : c'.republished = c.republished := by rfl)
    (hsnapshot : c'.snapshot = c.snapshot := by rfl)
    (habandoned : c'.abandonedAttemptId = c.abandonedAttemptId := by rfl) : View os' c' := by
  have hof := acceptedOf_congr haccepted
  cases h with
  | fresh => apply View.fresh <;> grind
  | latched attemptId => apply View.latched attemptId <;> grind
  | ended attemptId deltas terminal => apply View.ended attemptId deltas terminal <;> grind
  | aside attemptId => apply View.aside attemptId <;> grind

/-- An open latch has no sequence number. -/
theorem View.lastAppliedSeq_of_open (h : View os c) (hcurrent : c.currentAttemptId = none) :
    c.lastAppliedSeq = none := by
  cases h with
  | fresh _ hstate | aside _ hstate => rw [hstate]; rfl
  | latched _ hstate | ended _ _ _ hstate =>
    simp [hstate, attemptAfter_current] at hcurrent

/-- A chunk with a predecessor found the latch on its attempt. -/
theorem View.eq_of_latches {last : ℕ} (h : View os c) (hlatch : Latches c chunk c₁)
    (hlast : c₁.lastAppliedSeq = some last) : c₁ = c := by
  cases hlatch with
  | opened hcurrent =>
    have hnone : c.lastAppliedSeq = none := h.lastAppliedSeq_of_open hcurrent
    cases hnone.symm.trans hlast
  | kept => rfl

/-- Before the terminal, a chunk that gets past the latch finds the fold of the accepted
chunks of its attempt. -/
theorem View.latched_state (h : View os c) (hopen : c.finalMeta = none)
    (hlatch : Latches c chunk c₁) :
    c₁.toAttemptState = attemptAfter chunk.attemptId (acceptedOf chunk.attemptId os) ∧
      Deltas (acceptedOf chunk.attemptId os) ∧
      (c.republished = false → ∀ p ∈ accepted os, p.2.attemptId = chunk.attemptId) := by
  have hempty : Deltas [] := ⟨by simp, isChain_nil⟩
  cases h with
  | fresh hnone hstate =>
    have hof : acceptedOf chunk.attemptId os = [] := by simp [acceptedOf, hnone]
    cases hlatch with
    | opened =>
      refine ⟨?_, hof ▸ hempty, by simp [hnone]⟩
      rw [hof]
      simp [latch, hstate, attemptAfter]
    | kept hcurrent =>
      rw [hstate] at hcurrent
      exact absurd hcurrent (by simp [empty])
  | latched attemptId hstate _ hdeltas _ honly =>
    have hcurrent : c.currentAttemptId = some attemptId := by
      rw [hstate, attemptAfter_current]
    cases hlatch with
    | opened hnone => cases hnone.symm.trans hcurrent
    | kept hkept =>
      cases hcurrent.symm.trans hkept
      exact ⟨hstate, hdeltas, honly⟩
  | ended _ _ _ _ _ _ _ hended => simp [hopen] at hended
  | aside _ hstate _ _ _ _ hrepublished habandoned honly =>
    cases hlatch with
    | opened _ hnot =>
      -- everything accepted so far is of the attempt the guard refuses
      have hof : acceptedOf chunk.attemptId os = [] := by
        rw [acceptedOf, filter_eq_nil_iff]
        intro p hp
        simp only [decide_eq_true_eq]
        intro heq
        exact hnot (habandoned.trans (congrArg some ((honly p hp).symm.trans heq)))
      refine ⟨?_, hof ▸ hempty, by simp [hrepublished]⟩
      rw [hof]
      simp [latch, hstate, attemptAfter]
    | kept hcurrent =>
      rw [hstate] at hcurrent
      exact absurd hcurrent (by simp [empty])

/-- An accepted chunk extends the fold. -/
theorem View.accept {now : ℕ} {tapped : List ChunkEnvelope} (h : View os c)
    (hopen : c.finalMeta = none) (hlatch : Latches c chunk c₁)
    (hseq : chunk.done = false → ∀ last, c₁.lastAppliedSeq = some last → chunk.seq = last + 1) :
    View (os ++ .accepted now chunk :: tapped.map .tapped) (c₁.accept now chunk).collector := by
  obtain ⟨hstate, hdeltas, honly⟩ := h.latched_state hopen hlatch
  have haccepted : accepted (os ++ .accepted now chunk :: tapped.map .tapped) =
      accepted os ++ [(now, chunk)] := by
    rw [accepted_append]
    simp [accepted]
  have hof : acceptedOf chunk.attemptId (os ++ .accepted now chunk :: tapped.map .tapped) =
      acceptedOf chunk.attemptId os ++ [(now, chunk)] := by
    simp only [acceptedOf, haccepted, filter_append]
    simp
  have hnext : (c₁.accept now chunk).collector.toAttemptState =
      attemptAfter chunk.attemptId (acceptedOf chunk.attemptId
        (os ++ .accepted now chunk :: tapped.map .tapped)) := by
    rw [hof, attemptAfter_concat, ← hstate]
    rfl
  cases hdone : chunk.done with
  | true =>
    refine .ended chunk.attemptId _ (now, chunk) hnext hof hdeltas hdone ?_
    simp [StreamCollector.accept, hdone]
  | false =>
    refine .latched chunk.attemptId hnext (by simp [hof]) ?_ ?_ ?_
    · rw [hof]
      refine ⟨?_, hdeltas.chain.append (isChain_singleton _) ?_⟩
      · intro p hp
        rcases mem_append.mp hp with hp | hp
        · exact hdeltas.open_ p hp
        · rwa [mem_singleton.mp hp]
      · intro p hp q hq
        obtain rfl : (now, chunk) = q := by simpa using hq
        refine hseq hdone p.2.seq ?_
        rw [hstate, attemptAfter_lastAppliedSeq, Option.mem_def.mp hp]
        rfl
    · simp [StreamCollector.accept, hdone, hlatch.same.2.2.2.1, hopen]
    · intro hfirst p hp
      rw [haccepted, mem_append, mem_singleton] at hp
      rcases hp with hp | rfl
      · exact honly (hlatch.same.1.symm.trans hfirst) p hp
      · rfl

/-- A first republish puts the attempt aside. -/
theorem View.bump (h : View os c) (hopen : c.finalMeta = none) (hfirst : c.republished = false)
    (ho : accepted o = []) : View (os ++ o) (republishBump c named) := by
  have haccepted : accepted (os ++ o) = accepted os := by simp [ho]
  have hof := acceptedOf_congr haccepted
  rw [republishBump_eq]
  cases h with
  | fresh hnone hstate => exact .fresh (haccepted.trans hnone) rfl hopen fun _ => by rw [hstate]
  | latched attemptId hstate _ _ _ honly =>
    refine .aside attemptId rfl ?_ ?_ ?_ hopen rfl ?_ ?_
    · rw [hof, hstate]
    · rwa [hof]
    · rwa [hof]
    · simp [abandonedBy, hstate, attemptAfter_current]
    · rw [haccepted]
      exact honly hfirst
  | ended _ _ _ _ _ _ _ hended => simp [hopen] at hended
  | aside _ _ _ _ _ _ hrepublished => simp [hfirst] at hrepublished

/-- A rollback behind which no chunk was accepted puts the attempt back. -/
theorem View.rollback (h : View os c) (hcurrent : c.currentAttemptId = none)
    (hrepublished : c.republished = true) (ho : accepted o = []) :
    View (os ++ o) (rolledBack c) := by
  have haccepted : accepted (os ++ o) = accepted os := by simp [ho]
  have hof := acceptedOf_congr haccepted
  cases h with
  | fresh hnone _ hopen hsnapshot =>
    refine .fresh (haccepted.trans hnone) ?_ hopen (by simp [rolledBack, rewindAttemptGeneration])
    simp [rolledBack, rewindAttemptGeneration, hsnapshot hrepublished]
  | latched _ hstate | ended _ _ _ hstate =>
    simp [hstate, attemptAfter_current] at hcurrent
  | aside attemptId _ hsnapshot _ _ hopen _ _ honly =>
    refine .latched attemptId ?_ ?_ ?_ hopen ?_
    · simp [rolledBack, rewindAttemptGeneration, hsnapshot, hof]
    · rwa [hof]
    · rwa [hof]
    · rw [haccepted]
      exact fun _ => honly

theorem Yields.append (h : Yields os outcome) (haccepted : accepted o = [])
    (hgap : ∀ chunk, .gap chunk ∉ o) : Yields (os ++ o) outcome := by
  constructor
  · have hsame : accepted (os ++ o) = accepted os := by simp [haccepted]
    rw [acceptedOf_congr hsame]
    exact h.aggregates
  · have hos := h.gap
    grind

theorem yields_failure (c : StreamCollector) (code message : String) :
    Yields os (c.failure code message) := by
  constructor <;> simp [StreamCollector.failure]

/-- The outcome of a collector that has ended. -/
theorem Sound.yields_buildOutcome (h : Sound os s) (hc : s.collector = some c)
    (ho : accepted o = []) (hgap : ∀ chunk, .gap chunk ∉ o)
    (houtcome : c.buildOutcome = some outcome) : Yields (os ++ o) outcome := by
  have hended : c.finalMeta.isSome = true := by
    obtain ⟨m, hm, -⟩ := Option.map_eq_some_iff.mp houtcome
    simp [hm]
  have hinbox := h.ended c hc hended
  refine Yields.append ⟨?_, ?_⟩ ho hgap
  · intro _
    cases h.view c hc with
    | fresh _ _ hopen | latched _ _ _ _ hopen | aside _ _ _ _ _ hopen => simp [hopen] at hended
    | ended _ _ _ hstate haccepted hdeltas hdone =>
      obtain ⟨hattempt, _⟩ := aggregates_of_attemptAfter hstate haccepted hdeltas hdone houtcome
      rwa [hattempt]
  · intro chunk hmem
    cases hinbox.symm.trans (h.gap c hc chunk hmem)

/-- A step that accepts nothing, skips nothing and ends nothing. -/
theorem Sound.of_view (h : Sound os s) (ho : accepted o = []) (hgap : ∀ chunk, .gap chunk ∉ o)
    (houtcome : ∀ outcome, .outcome outcome ∉ o)
    (hinbox : s.inbox = .complete ∨ s.inbox = .failGap → t.inbox = s.inbox ∨ t.collector = none)
    (hc : ∀ c, t.collector = some c → ∃ c₀, s.collector = some c₀ ∧ View (os ++ o) c ∧
      c.finalMeta = c₀.finalMeta) : Sound (os ++ o) t := by
  have ⟨_, hpending, hended, hgaps, hyields⟩ := h
  refine ⟨by grind, by grind, by grind, by grind, ?_⟩
  intro outcome hmem
  obtain hmem | hmem := mem_append.mp hmem
  · exact (hyields outcome hmem).append ho hgap
  · exact absurd hmem (houtcome outcome)

/-- The collector is removed with an outcome. -/
theorem Sound.of_outcome (h : Sound os s) (hc : s.collector = some c) (hgone : t.collector = none)
    (hyields : ∀ outcome, .outcome outcome ∈ o → Yields (os ++ o) outcome) : Sound (os ++ o) t := by
  constructor
  all_goals try
    intro c₁ hc₁
    cases hgone.symm.trans hc₁
  intro outcome hmem
  rcases mem_append.mp hmem with hmem | hmem
  · exact absurd hmem (h.pending c hc outcome)
  · exact hyields outcome hmem

theorem accepted_bumpOutputs (nak : Option NakEnvelope) (c c₁ : StreamCollector) :
    accepted (bumpOutputs nak c c₁) = [] := by
  cases h : c₁.abandonedAttemptId <;> simp [bumpOutputs, accepted, h]

/-- Before the terminal the inbox worker is not about to complete the stream. -/
theorem Sound.open_of_inbox (h : Sound os s) (hc : s.collector = some c)
    (hinbox : s.inbox ≠ .complete) : c.finalMeta = none := by
  by_contra hsome
  exact hinbox (h.ended c hc (Option.isSome_iff_ne_none.mpr hsome))

theorem Sound.of_bumped {nak : Option NakEnvelope} (h : Sound os s) (hc : s.collector = some c)
    (hinbox : s.inbox ≠ .complete) (hfirst : c.republished = false)
    (hsame : s.inbox = .failGap → t.inbox = s.inbox)
    (hcollector : t.collector = some (republishBump c named)) :
    Sound (os ++ bumpOutputs nak c (republishBump c named)) t := by
  have hopen := h.open_of_inbox hc hinbox
  refine h.of_view (accepted_bumpOutputs _ _ _) (by simp [bumpOutputs]) (by simp [bumpOutputs])
    ?_ ?_
  · rintro (hcomplete | hfail)
    · exact absurd hcomplete hinbox
    · exact .inl (hsame hfail)
  · intro c₁ hc₁
    cases hcollector.symm.trans hc₁
    refine ⟨c, hc, (h.view c hc).bump hopen hfirst (accepted_bumpOutputs _ _ _), ?_⟩
    rw [republishBump_eq]

theorem Sound.of_rolledBack {generation : ℕ} (h : Sound os s) (hflags : Flags os s)
    (hinFlight : s.inFlight = [generation])
    (hcurrent : ∀ c, s.collector = some c → c.currentAttemptId = none)
    (hinbox : s.inbox = .complete ∨ s.inbox = .failGap → t.inbox = s.inbox)
    (hcollector : t.collector = (rollbackRepublishAttempt s.collector generation).1) :
    Sound (os ++ (rollbackRepublishAttempt s.collector generation).2) t := by
  cases hc : s.collector with
  | none =>
    rw [hc] at hcollector
    refine h.of_view rfl (by simp [rollbackRepublishAttempt])
      (by simp [rollbackRepublishAttempt]) (fun hor => .inl (hinbox hor)) ?_
    intro c hsome
    exact absurd (hcollector.symm.trans hsome) (by simp [rollbackRepublishAttempt])
  | some c =>
    rw [← hc]
    rw [hflags.rollback_eq hc hinFlight] at hcollector ⊢
    refine h.of_view rfl (by simp) (by simp) (fun hor => .inl (hinbox hor)) ?_
    intro c₁ hc₁
    cases hcollector.symm.trans hc₁
    have hflag := hflags.marked hc hinFlight
    exact ⟨c, hc, (h.view c hc).rollback (hcurrent c hc) hflag rfl, rfl⟩

/-- **The request stays sound along every steady step.** -/
theorem Sound.next {e : StreamEvent} {r : PendingStream × List StreamOutput} (h : Sound os s)
    (hflags : Flags os s) (hsteady : Steady s e) (hstep : Steps s e r) : Sound (os ++ r.2) r.1 := by
  have hsame : ∀ c, s.collector = some c → View (os ++ []) c := by
    intro c hc
    rw [append_nil]
    exact h.view c hc
  cases hstep with
  | nothing =>
    exact h.of_view rfl (by simp) (by simp) (fun _ => .inl rfl)
      fun c hc => ⟨c, hc, hsame c hc, rfl⟩
  | finished hnothing =>
    refine h.of_view rfl (by simp) (by simp) ?_ fun c hc => ⟨c, hc, hsame c hc, rfl⟩
    intro hor
    obtain hnone | ⟨_, hnak | hnak⟩ := hnothing
    · exact .inr hnone
    · simp [hnak] at hor
    · simp [hnak] at hor
  | published hc =>
    refine h.of_view rfl (by simp) (by simp) (fun _ => .inl rfl) ?_
    intro c₁ hc₁
    cases hc₁
    exact ⟨_, hc, (h.view _ hc).congr, rfl⟩
  | duplicate hc hidle hlatch hlast =>
    refine h.of_view rfl (by simp) (by simp) (by simp [hidle]) ?_
    intro c₂ hc₂
    cases hc₂
    obtain rfl := (h.view _ hc).eq_of_latches hlatch hlast
    exact ⟨_, hc, hsame _ hc, rfl⟩
  | @gap _ c₁ _ _ chunk hc hidle hlatch hlast =>
    obtain rfl := (h.view _ hc).eq_of_latches hlatch hlast
    have hopen := h.open_of_inbox hc (by simp [hidle])
    have hview : View (os ++ [.gap chunk]) c₁ :=
      (h.view _ hc).congr
    have hpending := h.pending c₁ hc
    constructor <;> simp_all
  | @accepted c _ _ chunk hc hidle hlatch hseq =>
    have hopen := h.open_of_inbox hc (by simp [hidle])
    have hpending := h.pending c hc
    have hgap := h.gap c hc
    have hmeta := hlatch.same.2.2.2.1
    constructor
    · rintro _ ⟨⟩
      exact (h.view c hc).accept hopen hlatch hseq
    all_goals
      simp_all [accept]
  | nakChecked hidle =>
    exact h.of_view rfl (by simp) (by simp) (by simp [hidle])
      fun c hc => ⟨c, hc, hsame c hc, rfl⟩
  | @complete c hc =>
    refine h.of_outcome hc rfl ?_
    intro outcome hmem
    have houtcome : c.buildOutcome = some outcome := by simpa using hmem
    rw [houtcome]
    exact h.yields_buildOutcome hc rfl (by simp) houtcome
  | failGap hc | nakFails hc =>
    refine h.of_outcome hc rfl ?_
    intro outcome hmem
    obtain rfl : outcome = _ := by simpa using hmem
    exact yields_failure _ _ _
  | nakBump hc hinbox hfirst =>
    exact h.of_bumped hc (by simp [hinbox]) hfirst (by simp [hinbox]) rfl
  | nakAlready hc hinbox | nakDecidesToFail hc hinbox =>
    exact h.of_view rfl (by simp) (by simp) (by simp [hinbox])
      fun c hc => ⟨c, hc, hsame c hc, rfl⟩
  | @nakWaits c _ hc hinbox hopen habandoned =>
    refine h.of_view rfl (by simp) (by simp) (by simp [hinbox]) ?_
    intro c₁ hc₁
    cases hc₁
    refine ⟨c, hc, ?_, rfl⟩
    cases h.view c hc with
    | fresh hnone hstate hmeta hsnapshot =>
      exact .fresh (by simpa [Gateway.accepted] using hnone) hstate hmeta hsnapshot
    | latched _ hstate | ended _ _ _ hstate =>
      simp [hstate, attemptAfter_current] at hopen
    | aside _ _ _ _ _ _ _ hsome => cases habandoned.symm.trans hsome
  | nakAcked hinbox =>
    refine h.of_view rfl (by simp) (by simp) (by simp [hinbox]) ?_
    intro c hc
    exact ⟨c, hc, (h.view c hc).congr, rfl⟩
  | @nakRollsBack _ generation _ hinbox =>
    have hpublishing : s.inbox.publishing = some generation := by rw [hinbox]; rfl
    obtain ⟨-, hinFlight⟩ := hflags.inFlight_of_publishing hpublishing
    refine h.of_rolledBack hflags hinFlight ?_ (by simp [hinbox]) rfl
    intro c hc
    exact (hflags.opened c hc (by rw [hpublishing]; rfl)).1
  | driverBump hc _ hfirst =>
    exact h.of_bumped hc hsteady hfirst (fun _ => rfl) rfl
  | driverAcked =>
    refine h.of_view rfl (by simp) (by simp) (fun _ => .inl rfl) ?_
    intro c hc
    exact ⟨c, hc, (h.view c hc).congr, rfl⟩
  | driverRollsBack hdriver =>
    obtain ⟨-, hinFlight⟩ := hflags.inFlight_of_driver hdriver
    refine h.of_rolledBack hflags hinFlight ?_ (fun _ => rfl) rfl
    intro c hc
    have hnone := hsteady rfl
    rwa [hc] at hnone
  | removed =>
    exact h.of_view rfl (by simp) (by simp) (fun _ => .inr rfl) (by simp)
  | @shutdown c hc =>
    refine h.of_outcome hc rfl ?_
    intro outcome hmem
    obtain rfl : outcome = _ := by simpa using hmem
    cases houtcome : c.buildOutcome with
    | none => exact yields_failure _ _ _
    | some outcome => exact h.yields_buildOutcome hc rfl (by simp) houtcome

/-! ## Whole runs -/

section Runs

variable {publishedAt : ℕ} {subject : Option String} {chunkTap : Bool} {es : List StreamEvent}

theorem sound_of_runs (h : runs step (.start publishedAt subject chunkTap) es = some (s, os))
    (hsteady : Along step Steady (.start publishedAt subject chunkTap) es) : Sound os s := by
  refine (runs_induction_along (fun os s => Flags os s ∧ Sound os s) ?_ ?_ es os s hsteady h).2
  · refine ⟨.start publishedAt subject chunkTap, ?_, by simp, ?_, by simp, by simp⟩
    · intro c hc
      cases hc
      exact .fresh rfl rfl rfl (by simp [new])
    · intro c hc hended
      cases hc
      exact absurd hended (by simp [new])
  · rintro os s e t o ⟨hflags, hsound⟩ hsteady hstep
    have hsteps := steps_of_step hstep
    exact ⟨hflags.next hsteps, hsound.next hflags hsteady hsteps⟩

/-- The chunk fails the stream as one that leaves a sequence number out. -/
def FailsAtGap (s : PendingStream) (now : ℕ) (chunk : ChunkEnvelope) : Prop :=
  ∃ t u o, s.step (.chunk now chunk) = some (t, [.gap chunk]) ∧
    t.step .proceed = some (u, [.outcome o]) ∧ u.collector = none ∧
    o.error = some ⟨"transport_failure", gapMessage, none, none, none⟩

theorem Sound.failsAtGap {c : StreamCollector} {now : ℕ} {chunk : ChunkEnvelope}
    {last : ℕ × ChunkEnvelope} (h : Sound os s) (hc : s.collector = some c)
    (hidle : s.inbox = .idle) (hwell : wellFormed chunk = true)
    (hcurrent : c.currentAttemptId = some chunk.attemptId) (hdone : chunk.done = false)
    (hlast : (acceptedOf chunk.attemptId os).getLast? = some last)
    (hskips : last.2.seq + 1 < chunk.seq) : FailsAtGap s now chunk := by
  have hopen := h.open_of_inbox hc (by simp [hidle])
  obtain ⟨hstate, -⟩ := (h.view c hc).latched_state hopen (.kept hcurrent)
  have hseq : c.lastAppliedSeq = some last.2.seq := by
    rw [hstate, attemptAfter_lastAppliedSeq, hlast]
    rfl
  have happly : c.apply now chunk = ⟨c, .seqGap, []⟩ :=
    apply_of_skips hwell hcurrent hdone hseq hskips
  refine ⟨{ s with collector := some c, inbox := .failGap },
    { s with collector := none, inbox := .idle },
    c.failure "transport_failure" gapMessage, ?_, rfl, rfl, rfl⟩
  simp [step, handleChunk, hidle, hc, happly]

/-- **Exactly-once aggregation.**  In every steady run, whatever is delivered: an outcome
that the collector yields is put together from the accepted chunks of its attempt, each
once and in order; a delta of the latched attempt that leaves a number out fails the
stream; and no outcome after a gap is a success. -/
theorem stream_aggregation (h : runs step (.start publishedAt subject chunkTap) es = some (s, os))
    (hsteady : Along step Steady (.start publishedAt subject chunkTap) es) :
    (∀ o, .outcome o ∈ os → o.origin = .workerTerminal →
      Aggregates o ((acceptedOf o.attemptId os).map Prod.snd)) ∧
    (∀ c now chunk last, s.collector = some c → s.inbox = .idle →
      wellFormed chunk = true → c.currentAttemptId = some chunk.attemptId →
      chunk.done = false → (acceptedOf chunk.attemptId os).getLast? = some last →
      last.2.seq + 1 < chunk.seq → FailsAtGap s now chunk) ∧
    ((∃ chunk, .gap chunk ∈ os) → ∀ o, .outcome o ∈ os → o.error ≠ none) := by
  have hsound := sound_of_runs h hsteady
  refine ⟨?_, ?_, ?_⟩
  · intro o ho
    exact (hsound.yields o ho).aggregates
  · intro c now chunk last hc hidle hwell hcurrent hdone hlast hskips
    exact hsound.failsAtGap hc hidle hwell hcurrent hdone hlast hskips
  · rintro ⟨chunk, hgap⟩ o ho
    exact (hsound.yields o ho).gap chunk hgap

end Runs

namespace TwoAttempts

/-- The outcomes of a log. -/
def outcomes (os : List StreamOutput) : List StreamOutcome :=
  os.filterMap fun o =>
    match o with
    | .outcome outcome => some outcome
    | _ => none

theorem mem_outcomes {os : List StreamOutput} {o : StreamOutcome} :
    o ∈ outcomes os ↔ .outcome o ∈ os := by
  simp only [outcomes, mem_filterMap]
  constructor
  · rintro ⟨x, hx, _⟩
    cases x <;> simp_all
  · intro h
    exact ⟨_, h, rfl⟩

/-- A successful outcome of the worker with this text and attempt. -/
def success (text attemptId : String) (o : StreamOutcome) : Bool :=
  o.text = text && o.attemptId = attemptId && o.error = none && o.origin = .workerTerminal

/-- Attempt `a` is abandoned after its first chunk, a late chunk of it comes, and chunks
of the pool's attempt `b` come twice and late. -/
def redelivered : List StreamEvent :=
  [.published [1], .chunk 1 (chunkOf "a" 0 "half" false), .nak (nakOf "a"), .proceed,
    .nakAck true, .chunk 2 (chunkOf "a" 1 "x" false), .chunk 3 (chunkOf "b" 0 "he" false),
    .chunk 4 (chunkOf "b" 0 "he" false), .chunk 5 (chunkOf "b" 1 "llo" false),
    .chunk 6 (chunkOf "b" 0 "he" false), .chunk 7 (chunkOf "b" 2 "" true), .proceed]

theorem redelivered_goes : (runs step begun redelivered).isSome = true := by
  decide +kernel

def afterRedelivered : PendingStream × List StreamOutput :=
  reached step begun redelivered redelivered_goes

theorem stream_aggregation_redelivered :
    ∃ o ∈ outcomes afterRedelivered.2, success "hello" "b" o = true ∧
      Aggregates o ((acceptedOf "b" afterRedelivered.2).map Prod.snd) := by
  have hsteady : Along step Steady begun redelivered := by decide +kernel
  obtain ⟨hall, -, -⟩ := stream_aggregation (runs_eq_reached redelivered_goes) hsteady
  have hexists : ∃ o ∈ outcomes afterRedelivered.2, success "hello" "b" o = true := by
    decide +kernel
  obtain ⟨o, ho, hsuccess⟩ := hexists
  refine ⟨o, ho, hsuccess, ?_⟩
  simp [success] at hsuccess
  obtain ⟨⟨⟨-, hattempt⟩, -⟩, horigin⟩ := hsuccess
  exact hattempt ▸ hall o (mem_outcomes.mp ho) horigin

/-- The driver republishes before the first chunk, the chunks of `b` begin to come, and
the republish fails: the rollback drops the chunk accepted behind it. -/
def rolledBackBehind : List StreamEvent :=
  [.published [1], .timeout true, .chunk 1 (chunkOf "b" 0 "he" false), .driverAck false,
    .chunk 2 (chunkOf "b" 1 "llo" false), .chunk 3 (chunkOf "b" 2 "" true), .proceed]

/-- The driver republishes between the terminal of `b` and the removal of the collector. -/
def bumpedAtEnd : List StreamEvent :=
  [.published [1], .chunk 1 (chunkOf "b" 0 "hello" true), .timeout true, .proceed]

theorem rolledBackBehind_goes :
    (runs step begun rolledBackBehind).isSome = true := by decide +kernel

theorem bumpedAtEnd_goes : (runs step begun bumpedAtEnd).isSome = true := by
  decide +kernel

/-- **Accepted chunks are lost from a successful outcome.**  After the rollback `b`
answers "llo" for its accepted "he" and "llo"; after the late bump an empty answer of no
attempt is sent for the accepted "hello". -/
theorem accepted_chunks_lost :
    (∃ s os o, runs step begun rolledBackBehind = some (s, os) ∧
      .outcome o ∈ os ∧ success "llo" "b" o = true ∧
      ¬ Aggregates o ((acceptedOf o.attemptId os).map Prod.snd)) ∧
    (∃ s os o, runs step begun bumpedAtEnd = some (s, os) ∧
      .outcome o ∈ os ∧ success "" "" o = true ∧
      ¬ Aggregates o ((acceptedOf o.attemptId os).map Prod.snd)) := by
  constructor
  · have hexists : ∃ o ∈ outcomes (reached step begun rolledBackBehind
        rolledBackBehind_goes).2, success "llo" "b" o = true := by decide +kernel
    obtain ⟨o, ho, hsuccess⟩ := hexists
    refine ⟨_, _, o, runs_eq_reached rolledBackBehind_goes, mem_outcomes.mp ho, hsuccess, ?_⟩
    intro haggregates
    simp [success] at hsuccess
    obtain ⟨⟨⟨htext, hattempt⟩, -⟩, -⟩ := hsuccess
    rw [hattempt] at haggregates
    have hfull := haggregates.text
    rw [htext] at hfull
    revert hfull
    decide +kernel
  · have hexists : ∃ o ∈ outcomes (reached step begun bumpedAtEnd
        bumpedAtEnd_goes).2, success "" "" o = true := by decide +kernel
    obtain ⟨o, ho, hsuccess⟩ := hexists
    refine ⟨_, _, o, runs_eq_reached bumpedAtEnd_goes, mem_outcomes.mp ho, hsuccess, ?_⟩
    intro haggregates
    simp [success] at hsuccess
    obtain ⟨⟨⟨-, hattempt⟩, -⟩, -⟩ := hsuccess
    rw [hattempt] at haggregates
    obtain ⟨_, _, hends, -⟩ := haggregates.ends
    have hnone : (acceptedOf "" (reached step begun bumpedAtEnd
      bumpedAtEnd_goes).2).map Prod.snd = [] := by decide +kernel
    exact absurd (hnone.symm.trans hends) (by simp)

end TwoAttempts

end Sie.Gateway
