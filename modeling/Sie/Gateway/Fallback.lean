import Sie.Gateway.Request

/-!
# Results with a direct-to-pool fallback

One request, answered by a worker directly, by the pool, or by both, while its items
may be published again to the pool.  Its results are delivered at most once, one for
each item in order.  A worker's own answer is discarded only where the pool has
acknowledged its copy of the item: the marks are set when all acknowledgements are in,
and a publish to the pool that fails leaves none, so an item that it was for can still
be answered from both sides.

The publishing side of a request is one task at a time (`Chain`): the first publish,
or, once that has left the payloads behind, one fallback.
-/

namespace Sie.Gateway

open Sie.Lib Sie.Wire List Request Option Hold

/-! ## What the operations leave alone -/

/-- The state of the fallback is the same. -/
structure SameFallback (c c₁ : ResultCollector) : Prop where
  marks : c₁.directFallbackRepublishedIndices = c.directFallbackRepublishedIndices
  payloads : c₁.directFallbackPayloads = c.directFallbackPayloads
  republished : c₁.directFallbackRepublished = c.directFallbackRepublished

/-- The results and the state of the fallback are the same. -/
structure SameAnswers (c c₁ : ResultCollector) : Prop extends SameFallback c c₁ where
  results : c₁.results = c.results

section Same

variable {sha256 : Bytes → Digest} {c c₁ : ResultCollector} {budget : ResultChunkBudget}

theorem Begins.same {chunk : ResultChunkV1} {n : ℕ} {b : Begun} (h : Begins c chunk c₁ n b) :
    SameAnswers c c₁ := by
  cases h <;> exact ⟨⟨rfl, rfl, rfl⟩, rfl⟩

theorem Reserves.same {totalBytes bytes : ℕ} {inherited : Option ℕ} {budget₁ : ResultChunkBudget}
    (h : Reserves c budget totalBytes inherited c₁ budget₁ bytes) : SameAnswers c c₁ := by
  cases h <;> exact ⟨⟨rfl, rfl, rfl⟩, rfl⟩

theorem same_insertChunk {chunk : CheckedChunk} {r : Replacement} :
    SameAnswers c (insertChunk sha256 c budget chunk r).collector := by
  refine insertChunk_rule (P := fun a => SameAnswers c a.collector) ?_ ?_
  · intro a hstop
    cases hstop with
    | refused => exact ⟨⟨rfl, rfl, rfl⟩, rfl⟩
    | dropped _ _ _ _ hreserves => exact hreserves.same
  · intro c₁ _ p n a hput hfinishes
    have hsame : SameAnswers c c₁ := by
      cases hput with
      | inserted => exact ⟨⟨rfl, rfl, rfl⟩, rfl⟩
      | started _ _ _ _ hreserves => exact hreserves.same
    cases hfinishes <;> exact { hsame with }

end Same

/-! ## The invariant -/

/-- Every result is in the slot of its item. -/
structure Slots (totalItems : ℕ) (c : ResultCollector) : Prop where
  length : c.results.length = totalItems
  index : ∀ (i : ℕ) (r : WorkResult), c.results[i]? = some (some r) → r.itemIndex = i

theorem Slots.of_results {totalItems : ℕ} {c c₁ : ResultCollector} (h : Slots totalItems c)
    (hresults : c₁.results = c.results) : Slots totalItems c₁ :=
  ⟨hresults ▸ h.length, hresults ▸ h.index⟩

/-- No item is marked as taken over by the pool. -/
def Unmarked (c : ResultCollector) : Prop := c.directFallbackRepublishedIndices = ∅

/-- No payload is kept for a fallback. -/
def Uncached (c : ResultCollector) : Prop := ∀ payload ∈ c.directFallbackPayloads, payload = none

/-- What a publishing task is part of. -/
inductive Phase
  | first
  | caching
  | fallback
  deriving DecidableEq

def Route.phase : Route → Phase
  | .initial => .first
  | .republish => .fallback

def Publisher.phase : Publisher → Phase
  | .publishItems _ _ => .first
  | .publishPool route _ _ => route.phase
  | .awaitAcks route _ _ _ => route.phase
  | .confirm route _ => route.phase
  | .cache _ => .caching
  | .abort => .first

/-- How a collector is in a phase of the publishing. -/
def InPhase (c : ResultCollector) : Phase → Prop
  | .first => Unmarked c ∧ Uncached c
  | .caching => (c.directFallbackRepublished = true ∨ Unmarked c) ∧ Uncached c
  | .fallback => c.directFallbackRepublished = true ∧ Unmarked c

/-- At most one task publishes, and the collector is as its phase has it. -/
def Chain (c : ResultCollector) : List Publisher → Prop
  | [] => c.directFallbackRepublished = true ∨ Unmarked c
  | [p] => InPhase c p.phase
  | _ => False

/-- An item that a task waits for is outstanding, acknowledged, or the task has failed;
one that it confirms is acknowledged. -/
def Publisher.Acknowledged (acked : Finset ℕ) : Publisher → Prop
  | .awaitAcks _ items outstanding failed =>
    ∀ i ∈ items.map Prod.fst, i ∈ outstanding ∨ i ∈ acked ∨ failed = true
  | .confirm _ items => ∀ i ∈ items.map Prod.fst, i ∈ acked
  | _ => True

/-- A publish to the pool has failed: no item is marked, and none will be. -/
def Failed (c : ResultCollector) (publishers : List Publisher) : Prop :=
  Unmarked c ∧ (publishers = [] ∧ c.directFallbackRepublished = true ∨ publishers = [.abort])

/-- The result vectors that were delivered. -/
def deliveries (outs : List Output) : List (List WorkResult) :=
  outs.filterMap fun
    | .deliver results => some results
    | _ => none

/-- The invariant of a request whose collector is in the map. -/
structure Live (outs : List Output) (req : Request) (c : ResultCollector) : Prop where
  slots : Slots req.totalItems c
  undelivered : deliveries outs = []
  finishing : .finish ∈ req.handlers → c.allDone = true
  marks : c.directFallbackRepublishedIndices ⊆ req.acked
  chain : Chain c req.publishers
  acknowledged : ∀ p ∈ req.publishers, p.Acknowledged req.acked
  failed : .fallbackFailed ∈ outs → Failed c req.publishers

/-- The invariant of a request. -/
structure Answers (outs : List Output) (req : Request) : Prop where
  delivered : ∀ results ∈ deliveries outs,
    results.map WorkResult.itemIndex = range req.totalItems
  once : (deliveries outs).length ≤ 1
  unwrapped : .unwrapNone ∉ outs
  stale : ∀ i, .staleDirectFallback i ∈ outs → i ∈ req.acked
  live : ∀ c, req.hold.live = some c → Live outs req c

theorem answers_new (requestId : String) (payloads : List Bytes) (subject worker : Option String) :
    Answers [] (new requestId payloads subject worker) := by
  refine ⟨by simp [deliveries], by simp [deliveries], by simp, by simp, ?_⟩
  intro c hc
  cases hc
  refine ⟨⟨by simp [ResultCollector.new, new], ?_⟩, rfl, by simp [new], ?_, ?_, ?_,
    by simp⟩
  · intro i r hi
    simp [ResultCollector.new, getElem?_replicate] at hi
  · simp [ResultCollector.new]
  · exact ⟨rfl, by simp [Uncached, ResultCollector.new]⟩
  · simp [new, Publisher.Acknowledged]

/-! ## Receiving -/

/-- An output that is about bytes only. -/
def Output.Quiet : Output → Prop
  | .reserve _ => True
  | .release _ _ _ => True
  | .drop _ _ => True
  | _ => False

/-- An output that is not about results. -/
def Output.Silent (o : Output) : Prop := o.Quiet ∨ o = .fallbackFailed

theorem quiet_releaseOutput {c : ResultCollector} {budget : ResultChunkBudget} {n : ℕ} :
    ∀ o ∈ releaseOutput c budget n, o.Quiet := by
  unfold releaseOutput
  split_ifs <;> simp [Output.Quiet]

theorem quiet_reserveOutput {c c₁ : ResultCollector} : ∀ o ∈ reserveOutput c c₁, o.Quiet := by
  unfold reserveOutput
  split_ifs <;> simp [Output.Quiet]

@[simp] theorem deliveries_append (outs os : List Output) :
    deliveries (outs ++ os) = deliveries outs ++ deliveries os := by
  simp [deliveries]

theorem deliveries_of_silent {os : List Output} (hos : ∀ o ∈ os, o.Silent) :
    deliveries os = [] := by
  refine filterMap_eq_nil_iff.mpr fun o ho => ?_
  rcases hos o ho with hquiet | rfl
  · cases o <;> first | rfl | exact absurd hquiet id
  · rfl

section Receiving

variable {sha256 : Bytes → Digest} {decode : Bytes → Option WorkResult} {req req₁ : Request}
  {outs os : List Output} {budget : ResultChunkBudget} {c c₁ : ResultCollector} {a : ChunkAnswer}
  {totalItems : ℕ} {results : List WorkResult} {α : Type}

theorem Answers.keep (h : Answers outs req) (hos : ∀ o ∈ os, o.Silent)
    (htotal : req₁.totalItems = req.totalItems) (hacked : req.acked ⊆ req₁.acked)
    (hlive : ∀ c₁, req₁.hold.live = some c₁ → Live (outs ++ os) req₁ c₁) :
    Answers (outs ++ os) req₁ where
  delivered := by simpa [deliveries_of_silent hos, htotal] using h.delivered
  once := by simpa [deliveries_of_silent hos] using h.once
  unwrapped hmem := by
    rcases mem_append.mp hmem with hmem | hmem
    · exact h.unwrapped hmem
    · rcases hos _ hmem with hquiet | heq
      · exact hquiet
      · simp at heq
  stale i hi := by
    rcases mem_append.mp hi with hi | hi
    · exact hacked (h.stale i hi)
    · rcases hos _ hi with hquiet | heq
      · exact absurd hquiet id
      · simp at heq
  live := hlive

theorem silent_of_quiet (hos : ∀ o ∈ os, o.Quiet) : ∀ o ∈ os, o.Silent :=
  fun o ho => .inl (hos o ho)

/-- The publishing side is as it was, and the results are still in their slots. -/
theorem Live.update (h : Live outs req c) (hsame : SameFallback c c₁) (hos : ∀ o ∈ os, o.Quiet)
    (hacked : req₁.acked = req.acked) (hpublishers : req₁.publishers = req.publishers)
    (hslots : Slots req₁.totalItems c₁) (hfinishing : .finish ∈ req₁.handlers → c₁.allDone = true) :
    Live (outs ++ os) req₁ c₁ := by
  obtain ⟨hmarks, hpayloads, hrepublished⟩ := hsame
  refine ⟨hslots, ?_, hfinishing, ?_, ?_, ?_, ?_⟩
  · rw [deliveries_append, deliveries_of_silent (silent_of_quiet hos), h.undelivered, append_nil]
  · rw [hmarks, hacked]
    exact h.marks
  · have hchain := h.chain
    rw [hpublishers]
    unfold Chain InPhase Unmarked Uncached at hchain ⊢
    rwa [hmarks, hpayloads, hrepublished]
  · rw [hpublishers, hacked]
    exact h.acknowledged
  · intro hmem
    have hbefore : .fallbackFailed ∈ outs := by
      rcases mem_append.mp hmem with hmem | hmem
      · exact hmem
      · exact absurd (hos _ hmem) id
    have hfailed := h.failed hbefore
    unfold Failed Unmarked at hfailed ⊢
    rwa [hpublishers, hmarks, hrepublished]

theorem Live.keep (h : Live outs req c) (hsame : SameAnswers c c₁) (hos : ∀ o ∈ os, o.Quiet)
    (htotal : req₁.totalItems = req.totalItems) (hacked : req₁.acked = req.acked)
    (hpublishers : req₁.publishers = req.publishers)
    (hfinish : .finish ∈ req₁.handlers → .finish ∈ req.handlers) : Live (outs ++ os) req₁ c₁ := by
  obtain ⟨hfallback, hresults⟩ := hsame
  refine h.update hfallback hos hacked hpublishers ?_ fun hmem => ?_
  · rw [htotal]
    exact h.slots.of_results hresults
  · rw [ResultCollector.allDone, hresults]
    exact h.finishing (hfinish hmem)

theorem finish_notMem_followUp : Handler.finish ∉ followUp a := by
  rcases a with e | ⟨status, _⟩
  · simp [followUp]
  · cases status <;> simp [followUp]

theorem finish_of_mem_append {handlers : List Handler} (h : .finish ∈ handlers ++ followUp a) :
    .finish ∈ handlers := by
  rcases mem_append.mp h with h | h
  · exact h
  · exact absurd h finish_notMem_followUp

theorem Answers.chunkTurn (h : Answers outs req) (hhold : req.hold = .pending c)
    (chunk : ResultChunkV1) :
    Answers (outs ++ (req.chunkTurn budget chunk c).outputs)
      (req.chunkTurn budget chunk c).request := by
  have hlive := h.live c (by rw [hhold]; rfl)
  refine chunkTurn_rule (P := fun t => Answers (outs ++ t.outputs) t.request) ?_ ?_
  · intro a _
    refine h.keep (by simp) rfl subset_rfl fun c₁ hc₁ => ?_
    cases hc₁
    exact hlive.keep ⟨⟨rfl, rfl, rfl⟩, rfl⟩ (by simp) rfl rfl rfl finish_of_mem_append
  · intro c₁ n _ r hbegins
    refine h.keep (silent_of_quiet quiet_releaseOutput) rfl subset_rfl fun c₂ hc₂ => ?_
    cases hc₂
    exact hlive.keep hbegins.same quiet_releaseOutput rfl rfl rfl id

theorem Answers.resumeTurn (h : Answers outs req) {chunk : CheckedChunk} {r : Replacement}
    (hhold : req.hold = .applying c chunk r) :
    Answers (outs ++ (req.resumeTurn budget sha256 c chunk r).outputs)
      (req.resumeTurn budget sha256 c chunk r).request := by
  have hlive := h.live c (by rw [hhold]; rfl)
  refine h.keep (silent_of_quiet quiet_reserveOutput) rfl subset_rfl fun c₁ hc₁ => ?_
  cases hc₁
  exact hlive.keep same_insertChunk quiet_reserveOutput rfl rfl rfl finish_of_mem_append

/-- Storing leaves the fallback alone, puts a result into its own slot only, and takes
none away. -/
theorem Stores.slots {result : WorkResult} {bytes n : ℕ} {outcome : StoreResultOutcome}
    (h : Stores c result bytes c₁ n outcome) (hslots : Slots totalItems c) :
    SameFallback c c₁ ∧ Slots totalItems c₁ ∧ (c.allDone = true → c₁.allDone = true) := by
  have hput : Slots totalItems (c.putResult result) := by
    refine ⟨by simp [ResultCollector.putResult, hslots.length], fun i r hi => ?_⟩
    simp only [ResultCollector.putResult, getElem?_set] at hi
    split_ifs at hi with heq hlt
    · obtain rfl : result = r := by simpa using hi
      exact heq
    · exact hslots.index i r hi
  have hdone : c.allDone = true → (c.putResult result).allDone = true := by
    intro hall
    refine all_eq_true.mpr fun o ho => ?_
    rcases mem_or_eq_of_mem_set ho with ho | rfl
    · exact all_eq_true.mp hall o ho
    · rfl
  cases h with
  | refused => exact ⟨⟨rfl, rfl, rfl⟩, { hslots with }, id⟩
  | stored => exact ⟨⟨rfl, rfl, rfl⟩, hput, hdone⟩
  | outran => exact ⟨⟨rfl, rfl, rfl⟩, { hput with }, hdone⟩

section

variable (h : Answers outs req)
include h

/-- A worker's answer is discarded for an item that the pool acknowledged. -/
theorem Answers.append_stale {i : ℕ} (hi : i ∈ req.acked) :
    Answers (outs ++ [.staleDirectFallback i]) req := by
  have hdeliveries : deliveries (outs ++ [.staleDirectFallback i]) = deliveries outs := by
    simp [deliveries]
  refine ⟨by rw [hdeliveries]; exact h.delivered, by rw [hdeliveries]; exact h.once, ?_, ?_, ?_⟩
  · simpa using h.unwrapped
  · intro j hj
    rcases mem_append.mp hj with hj | hj
    · exact h.stale j hj
    · obtain rfl : j = i := by simpa using hj
      exact hi
  · intro c hc
    obtain ⟨hslots, hnone, hfinishing, hmarks, hchain, hacked, hfailed⟩ := h.live c hc
    exact ⟨hslots, by rw [hdeliveries]; exact hnone, hfinishing, hmarks, hchain, hacked,
      by simpa using hfailed⟩

theorem Answers.storeTurn (hhold : req.hold = .pending c) (result : WorkResult) (bytes : ℕ) :
    Answers (outs ++ (req.storeTurn budget result bytes c).outputs)
      (req.storeTurn budget result bytes c).request := by
  have hlive := h.live c (by rw [hhold]; rfl)
  refine storeTurn_rule (P := fun t => Answers (outs ++ t.outputs) t.request) ?_
  intro c₁ n outcome hstores
  obtain ⟨hfallback, hslots, hdone⟩ := hstores.slots hlive.slots
  rw [← append_assoc]
  have hkept : Answers (outs ++ releaseOutput c budget n)
      { req with
        hold := .pending c₁
        handlers := req.handlers ++ (if c₁.allDone then [.finish] else [])
        kept := req.kept + lot (if outcome = .stored then bytes else 0) } := by
    refine h.keep (silent_of_quiet quiet_releaseOutput) rfl subset_rfl fun c₂ hc₂ => ?_
    cases hc₂
    refine hlive.update hfallback quiet_releaseOutput rfl rfl hslots fun hmem => ?_
    rcases mem_append.mp hmem with hmem | hmem
    · exact hdone (hlive.finishing hmem)
    · split_ifs at hmem with hall
      · exact hall
      · simp at hmem
  by_cases hstale : outcome = .staleDirectFallback
  · rw [if_pos hstale]
    refine hkept.append_stale (hlive.marks ?_)
    subst hstale
    cases hstores with
    | refused _ hrefused =>
      cases hrefused with
      | staleDirectFallback _ hmem => exact hmem
  · rwa [if_neg hstale, append_nil]

/-- The collector is gone, and no result is heard of. -/
theorem Answers.gone (hos : ∀ o ∈ os, o.Silent) (htotal : req₁.totalItems = req.totalItems)
    (hacked : req.acked ⊆ req₁.acked) (hgone : req₁.hold.live = none) : Answers (outs ++ os) req₁ :=
  h.keep hos htotal hacked fun c hc => absurd (hgone.symm.trans hc) (by simp)

/-- Something runs with the lock of the collector, and without one does nothing to the answers. -/
theorem Answers.locked {gone t : Turn} {f : ResultCollector → Turn}
    (hstep : req.hold.locked gone f = some t)
    (hf : ∀ c, req.hold = .pending c → Answers (outs ++ (f c).outputs) (f c).request)
    (hgone : gone.request.totalItems = req.totalItems ∧ gone.request.acked = req.acked ∧
      gone.request.hold = req.hold ∧ gone.outputs = [] := by exact ⟨rfl, rfl, rfl, rfl⟩) :
    Answers (outs ++ t.outputs) t.request := by
  obtain ⟨htotal, hacked, hhold, hos⟩ := hgone
  exact locked_rule (P := fun t => Answers (outs ++ t.outputs) t.request) hstep
    (fun hnone => h.gone (by simp [hos]) htotal hacked.symm.subset (by rw [hhold, hnone])) hf

/-- The one delivery of a request takes its collector out of the map. -/
theorem Answers.deliver (hlive : req.hold.live = some c)
    (hresults : results.map WorkResult.itemIndex = range req.totalItems)
    (htotal : req₁.totalItems = req.totalItems) (hacked : req.acked ⊆ req₁.acked)
    (hgone : req₁.hold.live = none) : Answers (outs ++ [.deliver results]) req₁ := by
  have hdeliveries : deliveries (outs ++ [.deliver results]) = [results] := by
    rw [deliveries_append, (h.live c hlive).undelivered]
    rfl
  refine ⟨?_, by rw [hdeliveries]; rfl, ?_, ?_, fun c hc => absurd (hgone.symm.trans hc) (by simp)⟩
  · rw [hdeliveries, htotal]
    simpa using hresults
  · simpa using h.unwrapped
  · intro i hi
    exact hacked (h.stale i (by simpa using hi))

end

/-- A whole vector of results is the list of results behind it. -/
theorem exists_of_all_isSome {l : List (Option α)} (h : l.all isSome = true) :
    ∃ values : List α, l = values.map some := by
  induction l with
  | nil => exact ⟨[], rfl⟩
  | cons o _ ih =>
    rw [all_cons, Bool.and_eq_true] at h
    obtain ⟨a, rfl⟩ := isSome_iff_exists.mp h.1
    obtain ⟨values, rfl⟩ := ih h.2
    exact ⟨a :: values, rfl⟩

theorem mapM_id_map_some (l : List α) : (l.map some).mapM id = some l := by
  induction l with
  | nil => rfl
  | cons a l ih => simp [ih]

theorem Slots.itemIndex_eq (h : Slots totalItems c) (hresults : c.results = results.map some) :
    results.map WorkResult.itemIndex = range totalItems := by
  have hlength : results.length = totalItems := by
    rw [← h.length, hresults, length_map]
  refine ext_getElem (by simp [hlength]) fun i hi _ => ?_
  rw [length_map] at hi
  simp
  exact h.index i results[i] (by simp [hresults, hi])

/-- Other handlers and ghosts, as long as no new one is about to deliver. -/
theorem Answers.tasks (h : Answers outs req) (htotal : req₁.totalItems = req.totalItems)
    (hacked : req₁.acked = req.acked) (hpublishers : req₁.publishers = req.publishers)
    (hhold : req₁.hold = req.hold) (hfinish : .finish ∈ req₁.handlers → .finish ∈ req.handlers) :
    Answers outs req₁ := by
  rw [← append_nil outs]
  refine h.keep (by simp) htotal hacked.symm.subset fun c hc => ?_
  rw [hhold] at hc
  exact (h.live c hc).keep ⟨⟨rfl, rfl, rfl⟩, rfl⟩ (by simp) htotal hacked hpublishers hfinish

theorem Answers.handlerTurn (h : Answers outs req) {handler : Handler} {t : Turn}
    (hfinish : handler = .finish → ∀ c, req.hold.live = some c → c.allDone = true)
    (hstep : req.handlerTurn budget decode handler = some t) :
    Answers (outs ++ t.outputs) t.request := by
  cases handler with
  | decode completed =>
    simp only [Request.handlerTurn] at hstep
    split at hstep
    · cases hstep
      rw [append_nil]
      exact h.tasks rfl rfl rfl rfl (by simp)
    rename_i result _
    exact h.locked hstep fun c hc =>
      h.storeTurn hc result completed.reservationBytes
  | fail =>
    refine h.locked hstep fun c hc => ?_
    have hlive : req.hold.live = some c := by rw [hc]; rfl
    refine h.deliver hlive ?_ rfl subset_rfl rfl
    rw [(h.live c hlive).slots.length]
    simp [failedResults, Function.comp_def]
  | finish =>
    refine h.locked hstep fun c hc => ?_
    have hlive : req.hold.live = some c := by rw [hc]; rfl
    obtain ⟨_, hresults⟩ := exists_of_all_isSome (hfinish rfl c hlive)
    simp only [finishTurn, hresults, mapM_id_map_some]
    exact h.deliver hlive ((h.live c hlive).slots.itemIndex_eq hresults) rfl subset_rfl rfl

end Receiving

/-! ## Publishing -/

section Publishing

variable {sha256 : Bytes → Digest} {decode : Bytes → Option WorkResult} {req req₁ : Request}
  {outs os : List Output} {budget : ResultChunkBudget} {c c₁ : ResultCollector} {n : ℕ}
  {p : Publisher} {items : List (ℕ × Bytes)} {route : Route} {t : Turn}

/-- A collector that keeps no payload has nothing to publish again. -/
theorem takeDirectFallbackPayloads_eq_none (h : Uncached c) :
    takeDirectFallbackPayloads c = none := by
  have hitems : ((range c.directFallbackPayloads.length).filterMap fun index =>
      if c.results[index]? = some none then
        (c.directFallbackPayloads[index]?.getD none).map fun bytes => (index, bytes)
      else none) = [] := by
    refine filterMap_eq_nil_iff.mpr fun index hindex => ?_
    have hlt := mem_range.mp hindex
    have hnone := h _ (getElem_mem hlt)
    simp [hlt, hnone]
  unfold takeDirectFallbackPayloads
  rw [hitems]
  split_ifs
  · rfl
  · split <;> rfl

/-- Only the last task of a live request can take a step. -/
theorem Chain.eq_singleton {publishers : List Publisher} (h : Chain c publishers)
    (hn : publishers[n]? = some p) : publishers = [p] ∧ publishers.eraseIdx n = [] := by
  match publishers, n, h, hn with
  | [], _, _, hn => simp at hn
  | [q], 0, _, hn =>
    obtain rfl : q = p := by simpa using hn
    exact ⟨rfl, rfl⟩
  | [q], n + 1, _, hn => simp at hn

section

variable (h : Live outs req c)
include h

theorem Live.inPhase (hp : req.publishers = [p]) : InPhase c p.phase := by
  have hchain := h.chain
  rwa [hp] at hchain

/-- Once a publish to the pool has failed, only an abort is left to run. -/
theorem Live.notFailed (hp : req.publishers = [p]) (hne : p ≠ .abort) : .fallbackFailed ∉ outs := by
  intro hmem
  rcases (h.failed hmem).2 with ⟨hnil, -⟩ | habort
  · simp [hp] at hnil
  · rw [hp] at habort
    exact hne (singleton_inj.mp habort)

/-- The publishing side moves, the results stay. -/
theorem Live.publishes (hos : ∀ o ∈ os, o.Silent) (hresults : c₁.results = c.results)
    (htotal : req₁.totalItems = req.totalItems) (hhandlers : req₁.handlers = req.handlers)
    (hmarks : c₁.directFallbackRepublishedIndices ⊆ req₁.acked) (hchain : Chain c₁ req₁.publishers)
    (hacknowledged : ∀ p ∈ req₁.publishers, p.Acknowledged req₁.acked)
    (hfailed : .fallbackFailed ∈ outs ++ os → Failed c₁ req₁.publishers) :
    Live (outs ++ os) req₁ c₁ := by
  refine ⟨?_, ?_, ?_, hmarks, hchain, hacknowledged, hfailed⟩
  · rw [htotal]
    exact h.slots.of_results hresults
  · rw [deliveries_append, deliveries_of_silent hos, h.undelivered, append_nil]
  · rw [hhandlers, ResultCollector.allDone, hresults]
    exact h.finishing

/-- A task is replaced by one of the same phase, or the first publish is over. -/
theorem Live.goOn {q : Publisher} (hp : req.publishers = [p])
    {acked : Finset ℕ} (hacked : req.acked ⊆ acked) (hq : q.Acknowledged acked)
    (hphase : q.phase = p.phase ∨ (p.phase = .first ∧ q.phase = .caching) := by exact .inl rfl)
    (hne : p ≠ .abort := by simp) :
    Live (outs ++ []) { req with publishers := [q], acked } c := by
  have hchain := h.inPhase hp
  refine h.publishes (by simp) rfl rfl rfl (h.marks.trans hacked) ?_ ?_ ?_
  · rcases hphase with heq | ⟨hfirst, hcaching⟩
    · change InPhase c q.phase
      rwa [heq]
    change InPhase c q.phase
    rw [hcaching]
    rw [hfirst] at hchain
    exact ⟨.inr hchain.1, hchain.2⟩
  · simpa using hq
  · intro hmem
    exact absurd (by simpa using hmem) (h.notFailed hp hne)

/-- A publish to the pool fails and no item is marked. -/
theorem Live.fallbackFails (hp : req.publishers = [p]) (hphase : p.phase = route.phase) :
    Live (outs ++ (fallbackFails { req with publishers := [] } budget route).outputs)
      (fallbackFails { req with publishers := [] } budget route).request c := by
  have hchain : InPhase c route.phase := hphase ▸ h.inPhase hp
  cases route with
  | initial =>
    refine h.publishes (by simp [fallbackFails, Output.Silent]) rfl rfl rfl h.marks hchain
      (by simp [fallbackFails, Publisher.Acknowledged]) fun _ => ?_
    exact ⟨hchain.1, .inr rfl⟩
  | republish =>
    refine h.publishes (by simp [fallbackFails, Output.Silent]) rfl rfl rfl h.marks
      (.inl hchain.1) (by simp [fallbackFails]) fun _ => ?_
    exact ⟨hchain.2, .inl ⟨rfl, hchain.1⟩⟩

end

/-- A step of the publishing side that leaves the collector alone. -/
theorem Answers.publishes (h : Answers outs req)
    (honly : OnlyPublishes { req with publishers := req.publishers.eraseIdx n } budget t)
    (hlive : ∀ c, req.hold.live = some c → Live (outs ++ t.outputs) t.request c) :
    Answers (outs ++ t.outputs) t.request := by
  refine h.keep (fun o ho => .inr (honly.outputs o ho)) honly.totalItems honly.acked ?_
  intro c hc
  rw [honly.hold] at hc
  exact hlive c hc

theorem Answers.newsTurn (h : Answers outs req) {news : News} (hn : req.publishers[n]? = some p)
    (hstep : Request.newsTurn { req with publishers := req.publishers.eraseIdx n } budget p news =
      some t) : Answers (outs ++ t.outputs) t.request := by
  refine h.publishes (onlyPublishes_newsTurn hstep) fun c hc => ?_
  have hlive := h.live c hc
  obtain ⟨hp, hrest⟩ := hlive.chain.eq_singleton hn
  rw [hrest] at hstep
  unfold Request.newsTurn at hstep
  split at hstep
  · cases hstep
    exact hlive.goOn hp subset_rfl trivial (.inr ⟨rfl, by rfl⟩)
  · cases hstep
    exact hlive.goOn hp subset_rfl (by trivial)
  · cases hstep
    exact hlive.goOn hp subset_rfl (by trivial)
  · cases hstep
    exact hlive.goOn hp subset_rfl (by exact fun i hi => .inl hi)
  · cases hstep
    exact hlive.fallbackFails hp rfl
  next route items outstanding failed index =>
    split_ifs at hstep with hmem
    cases hstep
    refine hlive.goOn hp (Finset.subset_insert _ _) ?_
    intro i hi
    have hbefore : i ∈ outstanding ∨ i ∈ req.acked ∨ failed = true :=
      hlive.acknowledged (.awaitAcks route items outstanding failed) (by simp [hp]) i hi
    by_cases heq : i = index
    · exact .inr (.inl (by simp [heq]))
    rcases hbefore with hout | hacked | hfailed
    · exact .inl ((mem_erase_of_ne heq).mpr hout)
    · exact .inr (.inl (Finset.mem_insert_of_mem hacked))
    · exact .inr (.inr hfailed)
  · split_ifs at hstep with hmem
    cases hstep
    exact hlive.goOn hp subset_rfl (by exact fun i hi => .inr (.inr rfl))
  · cases hstep
    exact hlive.fallbackFails hp rfl
  · simp at hstep

/-- The pool has all items of a task: they are marked. -/
theorem Live.confirm (h : Live outs req c) (hp : req.publishers = [.confirm route items]) :
    Live (outs ++ []) { req with
        hold := .pending (markDirectFallbackConfirmed c (items.map Prod.fst))
        publishers := afterConfirm items route }
      (markDirectFallbackConfirmed c (items.map Prod.fst)) := by
  have hchain : InPhase c route.phase := h.inPhase hp
  have hitems : ∀ i ∈ items.map Prod.fst, i ∈ req.acked :=
    h.acknowledged (.confirm route items) (by simp [hp])
  refine h.publishes (by simp) rfl rfl rfl ?_ ?_ ?_ ?_
  · refine Finset.union_subset h.marks fun i hi => hitems i (mem_toFinset.mp hi)
  · cases route with
    | initial => exact ⟨.inl rfl, hchain.2⟩
    | republish => exact .inl rfl
  · cases route <;> simp [afterConfirm, Publisher.Acknowledged]
  · intro hmem
    exact absurd (by simpa using hmem) (h.notFailed hp (by simp))

/-- The payloads are kept, and the first publish is over. -/
theorem Live.cache (h : Live outs req c) (hp : req.publishers = [.cache items]) :
    Live (outs ++ [])
      { req with hold := .pending (cacheDirectFallbackPayloads c items), publishers := [] }
      (cacheDirectFallbackPayloads c items) := by
  have hchain : InPhase c .caching := h.inPhase hp
  have hsame : (cacheDirectFallbackPayloads c items).results = c.results ∧
      (cacheDirectFallbackPayloads c items).directFallbackRepublishedIndices =
        c.directFallbackRepublishedIndices ∧
      (cacheDirectFallbackPayloads c items).directFallbackRepublished =
        c.directFallbackRepublished := by
    unfold cacheDirectFallbackPayloads
    split_ifs <;> exact ⟨rfl, rfl, rfl⟩
  refine h.publishes (by simp) hsame.1 rfl rfl (hsame.2.1 ▸ h.marks) ?_ (by simp) ?_
  · unfold Chain Unmarked
    rw [hsame.2.1, hsame.2.2]
    exact hchain.1
  · intro hmem
    exact absurd (by simpa using hmem) (h.notFailed hp (by simp))

theorem Answers.publisherTurn (h : Answers outs req) (hn : req.publishers[n]? = some p)
    (hstep : Request.publisherTurn { req with publishers := req.publishers.eraseIdx n } budget p =
      some t) : Answers (outs ++ t.outputs) t.request := by
  unfold Request.publisherTurn at hstep
  split at hstep
  next route items failed =>
    cases hstep
    have honly : OnlyPublishes { req with publishers := req.publishers.eraseIdx n } budget
        (if failed then fallbackFails { req with publishers := req.publishers.eraseIdx n }
            budget route
          else goOn { req with publishers := req.publishers.eraseIdx n } budget
            [.confirm route items]) := by
      split_ifs
      · exact onlyPublishes_fallbackFails _
      · exact onlyPublishes_goOn _
    refine h.publishes honly fun c hc => ?_
    have hlive := h.live c hc
    obtain ⟨hp, hrest⟩ := hlive.chain.eq_singleton hn
    rw [hrest]
    by_cases hfailed : failed = true
    · rw [if_pos hfailed]
      exact hlive.fallbackFails hp rfl
    rw [if_neg hfailed]
    refine hlive.goOn hp subset_rfl ?_
    intro i hi
    have hbefore : i ∈ [] ∨ i ∈ req.acked ∨ failed = true :=
      hlive.acknowledged (.awaitAcks route items [] failed) (by simp [hp]) i hi
    simpa [hfailed] using hbefore
  · refine h.locked hstep fun c hc => ?_
    have hlive := h.live c (by rw [hc]; rfl)
    obtain ⟨hp, hrest⟩ := hlive.chain.eq_singleton hn
    rw [hrest]
    refine h.keep (by simp [goOn]) rfl subset_rfl fun c₁ hc₁ => ?_
    cases hc₁
    exact hlive.confirm hp
  · refine h.locked hstep fun c hc => ?_
    have hlive := h.live c (by rw [hc]; rfl)
    obtain ⟨hp, hrest⟩ := hlive.chain.eq_singleton hn
    rw [hrest]
    refine h.keep (by simp [goOn]) rfl subset_rfl fun c₁ hc₁ => ?_
    cases hc₁
    exact hlive.cache hp
  · exact h.locked hstep fun c _ =>
      h.gone (by simp [removeTurn]) rfl subset_rfl rfl
  · simp at hstep

/-- A fallback starts only when no other task publishes, and no item is marked then. -/
theorem Live.unmarked_of_take (h : Live outs req c) {subject : String} {worker : Option String}
    (htake : takeDirectFallbackPayloads c = some (c₁, subject, worker, items)) :
    req.publishers = [] ∧ Unmarked c ∧ .fallbackFailed ∉ outs := by
  have hchain := h.chain
  obtain ⟨hflag, -⟩ := takeDirectFallbackPayloads_eq_some htake
  have hcached : ¬Uncached c := fun hnone => by
    rw [takeDirectFallbackPayloads_eq_none hnone] at htake
    simp at htake
  have hnil : req.publishers = [] := by
    match hpublishers : req.publishers, hchain with
    | [], _ => rfl
    | [p], hphase =>
      exfalso
      change InPhase c p.phase at hphase
      cases hp : p.phase <;> rw [hp] at hphase
      case first => exact hcached hphase.2
      case caching => exact hcached hphase.2
      case fallback => cases hphase.1.symm.trans hflag
  refine ⟨hnil, ?_, fun hmem => ?_⟩
  · rw [hnil] at hchain
    exact hchain.resolve_left (by simp [hflag])
  · rcases (h.failed hmem).2 with ⟨-, hset⟩ | habort
    · cases hset.symm.trans hflag
    · cases habort.symm.trans hnil

theorem Answers.republishTurn (h : Answers outs req) (hhold : req.hold = .pending c) :
    Answers (outs ++ (req.republishTurn budget c).outputs)
      (req.republishTurn budget c).request := by
  have hlive := h.live c (by rw [hhold]; rfl)
  unfold Request.republishTurn
  split
  · rwa [append_nil]
  rename_i c₁ _ _ _ htake
  obtain ⟨hnil, hunmarked, hnotFailed⟩ := hlive.unmarked_of_take htake
  obtain ⟨-, rfl⟩ := takeDirectFallbackPayloads_eq_some htake
  refine h.keep (by simp [goOn]) rfl subset_rfl fun c₂ hc₂ => ?_
  cases hc₂
  refine hlive.publishes (by simp [goOn]) rfl rfl rfl hlive.marks ?_ ?_ ?_
  · simp only [goOn, hnil, nil_append]
    exact ⟨rfl, hunmarked⟩
  · simp [goOn, hnil, Publisher.Acknowledged]
  · intro hmem
    exact absurd (by simpa [goOn] using hmem) hnotFailed

end Publishing

/-! ## All steps -/

section Run

variable {sha256 : Bytes → Digest} {decode : Bytes → Option WorkResult} {req : Request}
  {outs : List Output} {budget : ResultChunkBudget} {g : PendingResults}
  {os : List (String × Output)}

theorem Answers.step (h : Answers outs req) {e : RequestEvent} {t : Turn}
    (hstep : req.step sha256 decode budget e = some t) : Answers (outs ++ t.outputs) t.request := by
  cases e with
  | chunk chunk =>
    exact h.locked hstep fun c hhold => h.chunkTurn hhold chunk
  | resume =>
    simp only [Request.step] at hstep
    split at hstep
    next c chunk r hhold =>
      cases hstep
      exact h.resumeTurn hhold
    · simp at hstep
  | result result =>
    exact h.locked hstep fun c hhold => h.storeTurn hhold result 0
  | handler n =>
    obtain ⟨handler, hn, hturn⟩ := bind_eq_some_iff.mp hstep
    have herased : Answers outs { req with handlers := req.handlers.eraseIdx n } :=
      h.tasks rfl rfl rfl rfl fun hmem => mem_of_mem_eraseIdx hmem
    refine herased.handlerTurn (fun heq c hc => ?_) hturn
    subst heq
    exact (h.live c hc).finishing (mem_of_getElem? hn)
  | republish =>
    exact h.locked hstep fun c hhold => h.republishTurn hhold
  | publisher =>
    obtain ⟨p, hn, hturn⟩ := bind_eq_some_iff.mp hstep
    exact h.publisherTurn hn hturn
  | news =>
    obtain ⟨p, hn, hturn⟩ := bind_eq_some_iff.mp hstep
    exact h.newsTurn hn hturn
  | remove =>
    exact h.locked hstep fun c _ =>
      h.gone (by simp [removeTurn]) rfl subset_rfl rfl
  | drop =>
    simp only [Request.step] at hstep
    split at hstep
    · cases hstep
      exact h.gone (by simp [dropTurn, Output.Silent, Output.Quiet]) rfl subset_rfl rfl
    · simp at hstep

theorem outputsOf_map (id requestId : String) (os : List Output) :
    outputsOf id (os.map fun o => (requestId, o)) = if requestId = id then os else [] := by
  unfold outputsOf
  split_ifs with h
  · simp [filterMap_map, h]
  · simp [filterMap_map, h]

/-- The invariant of all requests; nothing is seen of one before it comes in. -/
def AllAnswers (os : List (String × Output)) (g : PendingResults) : Prop :=
  ∀ id, (g.requests.lookup id = none → outputsOf id os = []) ∧
    ∀ req, g.requests.lookup id = some req → Answers (outputsOf id os) req

theorem AllAnswers.moves {g₁ : PendingResults} {os₁ : List (String × Output)} (h : AllAnswers os g)
    (hmoves : Moves sha256 decode g g₁ os₁) : AllAnswers (os ++ os₁) g₁ := by
  intro id
  have happend : outputsOf id (os ++ os₁) = outputsOf id os ++ outputsOf id os₁ := filterMap_append
  rw [happend]
  cases hmoves with
  | added requestId payloads subject worker hnew =>
    rw [show outputsOf id [] = [] from rfl, append_nil]
    by_cases hid : id = requestId
    · subst hid
      simp [(h id).1 hnew]
      exact answers_new id payloads subject worker
    · simp only [AList.lookup_insert_ne hid]
      exact h id
  | unknown =>
    rw [show outputsOf id [] = [] from rfl, append_nil]
    exact h id
  | stepped requestId req _ _ hreq _ hstep =>
    rw [outputsOf_map]
    by_cases hid : id = requestId
    · subst hid
      simp
      exact ((h id).2 req hreq).step hstep
    · simp only [AList.lookup_insert_ne hid, if_neg (Ne.symm hid), append_nil]
      exact h id

theorem answers_run {limit : ℕ} {es : List ResultsEvent}
    (h : runs (PendingResults.step sha256 decode) (.new limit) es = some (g, os)) :
    AllAnswers os g := by
  refine runs_induction (fun _ os g => AllAnswers os g) ?_ ?_ es os g h
  · intro id
    simp [PendingResults.new, outputsOf]
  · intro _ os g e g₁ _ _ hall hstep
    exact hall.moves (moves_of_step hstep)

/-- **Results with a direct-to-pool fallback.**  In every run, for every request:

* the delivered vector has one result for each item, in the order of the items, and is
  delivered at most once;
* a worker's own result is discarded as stale only for an item whose pool copy was
  acknowledged;
* after a publish to the pool that failed, an item without a result takes the next one
  that comes, from the worker or from the pool. -/
theorem batch_fallback (sha256 : Bytes → Digest) (decode : Bytes → Option WorkResult) (limit : ℕ)
    (es : List ResultsEvent) (g : PendingResults) (os : List (String × Output))
    (h : runs (PendingResults.step sha256 decode) (.new limit) es = some (g, os))
    (requestId : String) (req : Request) (hreq : g.requests.lookup requestId = some req) :
    (∀ results, .deliver results ∈ outputsOf requestId os →
        results.map WorkResult.itemIndex = range req.totalItems) ∧
      (deliveries (outputsOf requestId os)).length ≤ 1 ∧ .unwrapNone ∉ outputsOf requestId os ∧
      (∀ i, .staleDirectFallback i ∈ outputsOf requestId os → i ∈ req.acked) ∧
      (.fallbackFailed ∈ outputsOf requestId os → ∀ c, req.hold = .pending c →
        ∀ i < req.totalItems, c.answered i = false → ∀ result : WorkResult, result.itemIndex = i →
          (storeResultIfMissing c result).2 = .stored) := by
  have hanswers := (answers_run h requestId).2 req hreq
  refine ⟨?_, hanswers.once, hanswers.unwrapped, hanswers.stale, ?_⟩
  · intro results hresults
    exact hanswers.delivered results (mem_filterMap.mpr ⟨_, hresults, rfl⟩)
  · intro hfailed c hhold i hi hfree result hindex
    have hlive := hanswers.live c (by rw [hhold]; rfl)
    have hunmarked : c.directFallbackRepublishedIndices = ∅ := (hlive.failed hfailed).1
    have hlength := hlive.slots.length
    subst hindex
    simp [storeResultIfMissing, hlength, not_le.mpr hi, hfree, hunmarked]

end Run

namespace TwoItems

def result (itemIndex : ℕ) (workerDirect : Bool) : WorkResult :=
  ⟨canonicalWorkItemId "r" itemIndex, "r", itemIndex, true, [], none, none, workerDirect⟩

/-- Two items go to a worker and then to the pool, which acknowledges both; the worker's
late answer for the first is discarded, and the pool's answers are delivered. -/
def events : List ResultsEvent :=
  [.publishWork "r" [[1], [2]] (some "pool") (some "worker"),
    .request "r" (.news 0 .sent), .request "r" (.publisher 0), .request "r" .republish,
    .request "r" (.news 0 .sent), .request "r" (.news 0 (.ack 1)),
    .request "r" (.news 0 (.ack 0)), .request "r" (.publisher 0), .request "r" (.publisher 0),
    .request "r" (.result (result 0 true)), .request "r" (.result (result 1 false)),
    .request "r" (.result (result 0 false)), .request "r" (.handler 0)]

theorem goes :
    (runs (PendingResults.step padded fun _ => none) (.new maxResultChunkReservedBytesGlobal)
      events).isSome = true := by
  decide +kernel

def after : PendingResults × List (String × Output) := reached _ _ _ goes

theorem known : (after.1.requests.lookup "r").isSome = true := by
  decide +kernel

def request : Request := (after.1.requests.lookup "r").get known

theorem batch_fallback_twoItems :
    .staleDirectFallback 0 ∈ outputsOf "r" after.2 ∧ 0 ∈ request.acked ∧
      deliveries (outputsOf "r" after.2) = [[result 0 false, result 1 false]] := by
  have hfallback := batch_fallback padded (fun _ => none) _ events after.1 after.2
    (runs_eq_reached goes) "r" request (some_get known).symm
  have hstale : .staleDirectFallback 0 ∈ outputsOf "r" after.2 := by decide +kernel
  exact ⟨hstale, hfallback.2.2.2.1 0 hstale, by decide +kernel⟩

end TwoItems

end Sie.Gateway
