import Sie.Lib.Run
import Sie.Gateway.CollectorSpec

/-!
# Transfers are not mixed

The collector over a sequence of calls.  The fragments it buffers for a transfer all
come from delivered chunks of that transfer, so a completed transfer is made of chunks
of one digest, one chunk count and one length; and the chunks of a retry that was
superseded and is still remembered do nothing.
-/

namespace Sie.Gateway

open Sie.Lib Sie.Wire List ResultCollector

variable {sha256 : Bytes → Digest} {c : ResultCollector} {budget : ResultChunkBudget}
  {p : PartialResultTransfer} {c₁ : ResultCollector} {checked : CheckedChunk}

/-! ## Where fragments come from -/

/-- The chunk announces the transfer of an item: same ids, digest, count and length. -/
structure OfTransfer (workItemId : String) (p : PartialResultTransfer) (d : ResultChunkV1) :
    Prop where
  workItemId : d.workItemId = workItemId
  requestId : d.requestId = p.requestId
  itemIndex : d.itemIndex = p.itemIndex
  digest : d.transferDigest = p.transferDigest.1
  chunkCount : d.chunkCount = p.chunkCount
  totalBytes : d.totalBytes = p.totalBytes

/-- Every fragment of a transfer is the payload of a delivered chunk of that transfer,
and the transfer is none of those it superseded. -/
structure FragmentsFrom (delivered : List ResultChunkV1) (workItemId : String)
    (p : PartialResultTransfer) : Prop where
  fragment : ∀ i payload, p.chunks[i]? = some (some payload) →
    ∃ d ∈ delivered, OfTransfer workItemId p d ∧ d.chunkIndex = i ∧ d.payload = payload
  digest_active : p.transferDigest ∉ p.retiredDigests
  count_active : p.chunkCount ∉ p.retiredChunkCounts

/-- All transfers of a collector are made of delivered chunks. -/
def AllFrom (delivered : List ResultChunkV1) (c : ResultCollector) : Prop :=
  ∀ id p, c.transfer id = some p → FragmentsFrom delivered id p

theorem FragmentsFrom.mono {delivered more : List ResultChunkV1} {id : String}
    (h : FragmentsFrom delivered id p) (hsub : delivered ⊆ more) : FragmentsFrom more id p := by
  refine ⟨fun i payload hi => ?_, h.digest_active, h.count_active⟩
  obtain ⟨d, hd, hof⟩ := h.fragment i payload hi
  exact ⟨d, hsub hd, hof⟩

theorem AllFrom.mono {delivered more : List ResultChunkV1} (h : AllFrom delivered c)
    (hsub : delivered ⊆ more) : AllFrom more c :=
  fun id p hp => (h id p hp).mono hsub

/-- Fragments of transfers that are still there after some went. -/
theorem AllFrom.of_transfer {delivered : List ResultChunkV1} (h : AllFrom delivered c)
    (hsub : ∀ id p, c₁.transfer id = some p → c.transfer id = some p) : AllFrom delivered c₁ :=
  fun id p hp => h id p (hsub id p hp)

theorem mem_retire {α : Type} {limit : ℕ} {retired : List α} {a b : α}
    (h : a ∈ retire limit retired b) : a ∈ retired ∨ a = b := by
  rcases mem_append.mp h with h | h
  · left
    split_ifs at h
    · exact mem_of_mem_drop h
    · exact h
  · exact .inr (by simpa using h)

section

variable {delivered : List ResultChunkV1} {chunk : ResultChunkV1}

/-- A new transfer holds the one fragment it was started with. -/
theorem fragmentsFrom_start {bytes : ℕ} {digests : List Digest}
    {counts : List ℕ} (hmem : checked.toResultChunkV1 ∈ delivered)
    (hdigest : checked.digest ∉ digests) (hcount : checked.chunkCount ∉ counts) :
    FragmentsFrom delivered checked.workItemId (.start checked bytes digests counts) := by
  refine ⟨fun i payload hi => ?_, hdigest, hcount⟩
  simp only [PartialResultTransfer.start, getElem?_set, length_replicate] at hi
  split_ifs at hi with heq hlt
  · obtain rfl : checked.payload = payload := by simpa using hi
    exact ⟨checked.toResultChunkV1, hmem,
      ⟨rfl, rfl, rfl, checked.digest_eq.symm, rfl, rfl⟩, heq, rfl⟩
  · simp [getElem?_replicate] at hi

/-- A fragment of the same transfer may be added. -/
theorem FragmentsFrom.insert
    {hcount : p.chunkCount = checked.chunkCount} {hslot : p.slot checked hcount = none}
    {hle : p.bufferedBytes + checked.payload.length ≤ p.totalBytes}
    (h : FragmentsFrom delivered checked.workItemId p) (hmem : checked.toResultChunkV1 ∈ delivered)
    (hof : OfTransfer checked.workItemId p checked.toResultChunkV1) :
    FragmentsFrom delivered checked.workItemId (p.insert checked hcount hslot hle) := by
  refine ⟨fun i payload hi => ?_, h.digest_active, h.count_active⟩
  simp only [PartialResultTransfer.insert, getElem?_set] at hi
  split_ifs at hi with heq hlt
  · obtain rfl : checked.payload = payload := by simpa using hi
    exact ⟨checked.toResultChunkV1, hmem, { hof with }, heq, rfl⟩
  · obtain ⟨d, hd, hd₁, hd₂, hd₃⟩ := h.fragment i payload hi
    exact ⟨d, hd, { hd₁ with }, hd₂, hd₃⟩

/-- The transfer that a chunk puts into the collector is its own, made of delivered
chunks, and the other items keep theirs. -/
theorem put_from {c₂ : ResultCollector}
    {budget₂ : ResultChunkBudget} {n m : ℕ} {r : Replacement} (hfrom : AllFrom delivered c)
    (hmem : chunk ∈ delivered) (hbegins : Begins c chunk c₁ n (.proceed checked r))
    (hbuffers : Buffers c₁ budget checked r (.put c₂ budget₂ p m)) :
    FragmentsFrom delivered chunk.workItemId p ∧ OfTransfer chunk.workItemId p chunk ∧
      checked.workItemId = chunk.workItemId ∧
      ∀ id q, c₂.transfer id = some q → c.transfer id = some q := by
  have hcheck : checkChunk c chunk = .ok checked := by cases hbegins <;> assumption
  obtain ⟨rfl, -⟩ := checkChunk_eq_ok hcheck
  cases hbuffers with
  | inserted q hq hrequest hitem hcount htotal =>
    have hq' := hbegins.transfer hq
    have hdigest : q.transferDigest = checked.digest := by
      cases hbegins with
      | fresh _ _ _ hnone => simp [hnone] at hq
      | continues _ _ _ _ hp hdigest =>
        cases hp.symm.trans hq
        exact hdigest
      | newDigest | newLayout => simp at hq
    have hof : OfTransfer checked.workItemId q checked.toResultChunkV1 :=
      ⟨rfl, hrequest.symm, hitem.symm, by rw [hdigest]; exact checked.digest_eq.symm,
        hcount.symm, htotal.symm⟩
    exact ⟨(hfrom _ q hq').insert hmem hof, { hof with }, rfl,
      fun id q hq => hbegins.transfer hq⟩
  | started _ _ _ _ hreserves =>
    refine ⟨fragmentsFrom_start hmem ?_ ?_, ⟨rfl, rfl, rfl, checked.digest_eq.symm, rfl, rfl⟩,
      rfl, fun id q hq => hbegins.transfer (hreserves.transfer id ▸ hq)⟩
    · cases hbegins with
      | fresh | continues => exact not_mem_nil
      | newDigest _ _ _ _ _ hdigest hnew =>
        intro hold
        rcases mem_retire hold with hold | heq
        · exact hnew hold
        · exact hdigest heq.symm
      | newLayout _ q _ _ hq hdigest =>
        rw [← hdigest]
        exact (hfrom _ q hq).digest_active
    · cases hbegins with
      | fresh | continues | newDigest => exact not_mem_nil
      | newLayout _ _ _ _ _ _ _ hcount hnew =>
        intro hold
        rcases mem_retire hold with hold | heq
        · exact hnew hold
        · exact hcount heq.symm

end

/-- The bytes are the payloads of delivered chunks of one transfer, one for each index,
in order. -/
def MadeOf (delivered : List ResultChunkV1) (chunk : ResultChunkV1) (bytes : Bytes) : Prop :=
  ∃ pieces : List Bytes, bytes = pieces.flatten ∧ pieces.length = chunk.chunkCount ∧
    ∀ i piece, pieces[i]? = some piece →
      ∃ d ∈ delivered, d.workItemId = chunk.workItemId ∧ d.requestId = chunk.requestId ∧
        d.itemIndex = chunk.itemIndex ∧ d.transferDigest = chunk.transferDigest ∧
        d.chunkCount = chunk.chunkCount ∧ d.totalBytes = chunk.totalBytes ∧
        d.chunkIndex = i ∧ d.payload = piece

/-- A full transfer is made of the chunks its fragments came from. -/
theorem FragmentsFrom.madeOf {delivered : List ResultChunkV1} {chunk : ResultChunkV1}
    (h : FragmentsFrom delivered chunk.workItemId p) (hof : OfTransfer chunk.workItemId p chunk)
    (hall : p.chunks.all Option.isSome = true) : MadeOf delivered chunk (joined p.chunks) := by
  refine ⟨p.chunks.map fun o => o.getD [], by rw [joined, flatMap_def], ?_, ?_⟩
  · rw [length_map, p.chunks_length, hof.chunkCount]
  · intro i _ hi
    rw [getElem?_map] at hi
    obtain ⟨o, ho, rfl⟩ := Option.map_eq_some_iff.mp hi
    have hsome := all_eq_true.mp hall o (mem_of_getElem? ho)
    obtain ⟨payload, rfl⟩ := Option.isSome_iff_exists.mp hsome
    obtain ⟨d, hd, hd₁, hd₂, hd₃⟩ := h.fragment i payload ho
    exact ⟨d, hd, hd₁.workItemId, hd₁.requestId.trans hof.requestId.symm,
      hd₁.itemIndex.trans hof.itemIndex.symm, hd₁.digest.trans hof.digest.symm,
      hd₁.chunkCount.trans hof.chunkCount.symm, hd₁.totalBytes.trans hof.totalBytes.symm, hd₂, hd₃⟩

/-- What a completed transfer is: of the chunk's item, with the length and the digest
that were declared, made of delivered chunks of that one transfer. -/
structure Completes (sha256 : Bytes → Digest) (delivered : List ResultChunkV1)
    (chunk : ResultChunkV1) (completed : CompletedResultTransfer) : Prop where
  workItemId : completed.workItemId = chunk.workItemId
  requestId : completed.requestId = chunk.requestId
  itemIndex : completed.itemIndex = chunk.itemIndex
  length : completed.encodedWorkResult.length = chunk.totalBytes
  digest : (sha256 completed.encodedWorkResult).1 = chunk.transferDigest
  madeOf : MadeOf delivered chunk completed.encodedWorkResult

/-- The second part of a chunk keeps the provenance of all fragments, and completes
only whole transfers. -/
theorem insertChunk_from {delivered : List ResultChunkV1} {chunk : ResultChunkV1} {n : ℕ}
    {r : Replacement} (hfrom : AllFrom delivered c) (hmem : chunk ∈ delivered)
    (hbegins : Begins c chunk c₁ n (.proceed checked r)) :
    AllFrom delivered (insertChunk sha256 c₁ budget checked r).collector ∧
      ∀ completed, completedOf (insertChunk sha256 c₁ budget checked r).answer = some completed →
        Completes sha256 delivered chunk completed := by
  refine insertChunk_rule (P := fun a => AllFrom delivered a.collector ∧
    ∀ completed, completedOf a.answer = some completed →
      Completes sha256 delivered chunk completed) ?_ ?_
  · intro a hstop
    cases hstop with
    | refused _ hopen =>
      exact ⟨hfrom.of_transfer fun id p => hbegins.transfer,
        fun completed h => absurd (hopen.symm.trans h) (by simp)⟩
    | dropped _ _ _ _ hreserves =>
      exact ⟨hfrom.of_transfer fun id p hp => hbegins.transfer (hreserves.transfer id ▸ hp),
        fun completed h => absurd h (by simp [completedOf])⟩
  · intro c₂ _ p m a hput hfinishes
    obtain ⟨hp, hof, hid, hothers⟩ := put_from hfrom hmem hbegins hput
    have hall : AllFrom delivered (c₂.putTransfer checked.workItemId p m) := by
      intro id q hq
      rw [transfer_putTransfer] at hq
      split_ifs at hq with heq
      · cases hq
        rwa [heq, hid]
      · exact hfrom id q (hothers id q hq)
    have hrest : AllFrom delivered
        ((c₂.putTransfer checked.workItemId p m).removeTransfer checked.workItemId p) := by
      refine hall.of_transfer fun id q hq => ?_
      rw [transfer_removeTransfer] at hq
      split_ifs at hq
      exact hq
    cases hfinishes with
    | waits =>
      exact ⟨hall, fun completed h => absurd h (by simp [completedOf])⟩
    | mismatch =>
      exact ⟨hrest, fun completed h => absurd h (by simp [completedOf])⟩
    | completes _ hfull htotal hdigest =>
      refine ⟨hrest, fun completed h => ?_⟩
      cases h
      exact ⟨hid, hof.requestId.symm, hof.itemIndex.symm, htotal.trans hof.totalBytes.symm,
        by rw [hof.digest, hdigest], hp.madeOf hof hfull⟩

theorem applyResultChunk_from {delivered : List ResultChunkV1} {chunk : ResultChunkV1}
    (hfrom : AllFrom delivered c) (hmem : chunk ∈ delivered) :
    AllFrom delivered (applyResultChunk sha256 c budget chunk).collector ∧
      ∀ completed, completedOf (applyResultChunk sha256 c budget chunk).answer = some completed →
        Completes sha256 delivered chunk completed := by
  have hbegins := begins_beginChunk c chunk
  unfold applyResultChunk
  rcases hbegin : beginChunk c chunk with ⟨c₁, n, a | ⟨_, r⟩⟩
  · rw [hbegin] at hbegins
    cases hbegins with
    | answers _ hopen =>
      exact ⟨hfrom, fun completed h => absurd (hopen.symm.trans h) (by simp)⟩
  · rw [hbegin] at hbegins
    exact insertChunk_from hfrom hmem hbegins

/-! ## Calls on a collector -/

/-- A call on a collector.  A chunk finds the budget as other requests left it. -/
inductive CollectorCall
  | chunk (chunk : ResultChunkV1) (budget : ResultChunkBudget)
  | store (result : WorkResult) (completedReservationBytes : ℕ)
  | confirmFallback (indices : List ℕ)

/-- One call; a chunk gives its answer. -/
def callStep (sha256 : Bytes → Digest) (c : ResultCollector) :
    CollectorCall → Option (ResultCollector × List ChunkAnswer)
  | .chunk chunk budget =>
    let applied := applyResultChunk sha256 c budget chunk
    some (applied.collector, [applied.answer])
  | .store result completedReservationBytes =>
    some ((storeResult c result completedReservationBytes).1, [])
  | .confirmFallback indices => some (markDirectFallbackConfirmed c indices, [])

/-- The chunks among the calls. -/
def delivered (calls : List CollectorCall) : List ResultChunkV1 :=
  calls.filterMap fun
    | .chunk chunk _ => some chunk
    | _ => none

theorem runs_from {totalItems : ℕ} {subject worker : Option String} {calls : List CollectorCall}
    {answers : List ChunkAnswer} (h : runs (callStep sha256) (new totalItems subject worker) calls =
      some (c, answers)) : AllFrom (delivered calls) c := by
  refine runs_induction (fun calls _ c => AllFrom (delivered calls) c) ?_ ?_ calls answers c h
  · intro id p hp
    simp [transfer, new] at hp
  · intro calls answers c call c₁ _ _ hfrom hstep
    have hsub : delivered calls ⊆ delivered (calls ++ [call]) := by
      simp [delivered]
    cases call with
    | chunk =>
      obtain ⟨rfl, -⟩ := Prod.mk.inj (Option.some.inj hstep)
      exact (applyResultChunk_from (hfrom.mono hsub) (by simp [delivered])).1
    | store result n =>
      obtain ⟨rfl, -⟩ := Prod.mk.inj (Option.some.inj hstep)
      exact (hfrom.mono hsub).of_transfer fun id p => (stores_storeResult c result n).transfer
    | confirmFallback =>
      obtain ⟨rfl, -⟩ := Prod.mk.inj (Option.some.inj hstep)
      exact hfrom.mono hsub

/-- The chunk is of a digest that the transfer superseded, or of a chunk count of the
same bytes that it superseded, and the tombstone is still there. -/
def Tombstoned (p : PartialResultTransfer) (chunk : ResultChunkV1) : Prop :=
  (∃ d ∈ p.retiredDigests, chunk.transferDigest = d.1) ∨
    (chunk.transferDigest = p.transferDigest.1 ∧ chunk.totalBytes = p.totalBytes ∧
      chunk.chunkCount ∈ p.retiredChunkCounts)

/-- A tombstoned chunk changes neither the collector nor the budget. -/
theorem applyResultChunk_tombstoned {delivered : List ResultChunkV1} {chunk : ResultChunkV1}
    (hp : c.transfer chunk.workItemId = some p) (hfrom : FragmentsFrom delivered chunk.workItemId p)
    (htomb : Tombstoned p chunk) :
    (applyResultChunk sha256 c budget chunk).collector = c ∧
      (applyResultChunk sha256 c budget chunk).budget = budget := by
  have hbegins := begins_beginChunk c chunk
  unfold applyResultChunk
  rcases hbegin : beginChunk c chunk with ⟨c₁, n, a | ⟨checked, r⟩⟩
  · rw [hbegin] at hbegins
    cases hbegins with
    | answers => exact ⟨rfl, by simp [ResultChunkBudget.release]⟩
  rw [hbegin] at hbegins
  exfalso
  have hcheck : checkChunk c chunk = .ok checked := by cases hbegins <;> assumption
  obtain ⟨rfl, -⟩ := checkChunk_eq_ok hcheck
  have hsame : ∀ d : Digest, checked.transferDigest = d.1 → d = checked.digest :=
    fun d hd => Subtype.ext (hd.symm.trans checked.digest_eq.symm)
  cases hbegins with
  | fresh _ _ _ hnone => simp [hnone] at hp
  | continues _ _ _ _ hq hdigest _ hcount =>
    cases hq.symm.trans hp
    rcases htomb with ⟨d, hd, heq⟩ | ⟨-, -, hold⟩
    · exact hfrom.digest_active (by rw [hdigest, ← hsame d heq]; exact hd)
    · exact hfrom.count_active (hcount ▸ hold)
  | newDigest _ _ _ _ hq hdigest hnew =>
    cases hq.symm.trans hp
    rcases htomb with ⟨d, hd, heq⟩ | ⟨heq, -⟩
    · exact hnew (hsame d heq ▸ hd)
    · exact hdigest (hsame _ heq)
  | newLayout _ _ _ _ hq hdigest _ _ hnew =>
    cases hq.symm.trans hp
    rcases htomb with ⟨d, hd, heq⟩ | ⟨-, -, hold⟩
    · exact hfrom.digest_active (by rw [hdigest, ← hsame d heq]; exact hd)
    · exact hnew hold

/-- **No mixing of result transfers.**  After any calls on a collector, whatever chunk
comes next: a transfer that it completes has the declared length and digest and is made
of chunks of that one transfer of the item; and if it is of a superseded digest or
layout that is still tombstoned, it changes nothing. -/
theorem no_mixing (sha256 : Bytes → Digest) (totalItems : ℕ) (subject worker : Option String)
    (calls : List CollectorCall) (answers : List ChunkAnswer) (c : ResultCollector)
    (h : runs (callStep sha256) (new totalItems subject worker) calls = some (c, answers))
    (chunk : ResultChunkV1) (budget : ResultChunkBudget) :
    (∀ completed, completedOf (applyResultChunk sha256 c budget chunk).answer = some completed →
        Completes sha256 (delivered calls ++ [chunk]) chunk completed) ∧
      ∀ p, c.transfer chunk.workItemId = some p → Tombstoned p chunk →
        (applyResultChunk sha256 c budget chunk).collector = c ∧
          (applyResultChunk sha256 c budget chunk).budget = budget := by
  have hfrom := runs_from h
  constructor
  · exact (applyResultChunk_from (hfrom.mono (subset_append_left _ _)) (by simp)).2
  · intro p hp htomb
    exact applyResultChunk_tombstoned hp (hfrom _ p hp) htomb

namespace Retry

/-- A chunk of a transfer of item 0 of request `r`. -/
def chunk (bytes : Bytes) (chunkIndex : ℕ) (payload : Bytes) : ResultChunkV1 where
  kind := resultChunkKind
  workItemId := "r.0"
  requestId := "r"
  itemIndex := 0
  transferDigest := (padded bytes).1
  chunkIndex := chunkIndex
  chunkCount := 2
  totalBytes := bytes.length
  payload := payload

def idle : ResultChunkBudget := .new maxResultChunkReservedBytesGlobal

/-- The first attempt sends its second chunk, then a retry sends its first. -/
def calls : List CollectorCall :=
  [.chunk (chunk [1, 2, 3] 1 [2, 3]) idle, .chunk (chunk [1, 7, 8] 0 [1, 7]) idle]

theorem goes : (runs (callStep padded) (new 1 none none) calls).isSome = true := by
  decide +kernel

def after : ResultCollector × List ChunkAnswer := reached _ _ _ goes

theorem no_mixing_retry :
    (∃ completed,
      completedOf (applyResultChunk padded after.1 idle (chunk [1, 7, 8] 1 [8])).answer =
        some completed ∧
      Completes padded (delivered calls ++ [chunk [1, 7, 8] 1 [8]]) (chunk [1, 7, 8] 1 [8])
        completed) ∧
      (applyResultChunk padded after.1 idle (chunk [1, 2, 3] 0 [1])).collector = after.1 := by
  have hmixing := no_mixing padded 1 none none calls after.2 after.1 (runs_eq_reached goes)
  refine ⟨⟨⟨"r.0", "r", 0, [1, 7, 8], 4105⟩, ?_, ?_⟩, ?_⟩
  · decide +kernel
  · exact (hmixing _ idle).1 _ (by decide +kernel)
  · have hretired : (after.1.transfer "r.0").map PartialResultTransfer.retiredDigests =
        some [padded [1, 2, 3]] := by decide +kernel
    obtain ⟨p, hp, hdigests⟩ := Option.map_eq_some_iff.mp hretired
    exact ((hmixing _ idle).2 p hp (.inl ⟨padded [1, 2, 3], by rw [hdigests]; simp, rfl⟩)).1

end Retry

end Sie.Gateway
