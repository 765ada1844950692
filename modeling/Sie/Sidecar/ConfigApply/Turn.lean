import Sie.Sidecar.ConfigApply

/-!
# The steps of a worker's config

`Worker.Turn` lists what one event does, with what was known when it was done; every fact about
a step is read off it.  `Held` is what the barrier keeps: one holder, no execution beside it, and
an epoch that cannot move under the notification or the export in hand.
-/

namespace Sie.Sidecar

open Sie.Lib Sie.Wire Reconciler

/-- The notification the subscriber applies with the barrier held. -/
def Subscriber.held : Subscriber → Option ConfigNotification
  | .calling n | .backoff n => some n
  | _ => none

/-- The export the reconciler applies with the barrier held. -/
def Reconciler.held : Reconciler → Option (ExportJob × ExportSnapshot)
  | .calling job snapshot | .backoff job snapshot => some (job, snapshot)
  | _ => none

/-- The export the reconciler is at, or fetches. -/
def Reconciler.job : Reconciler → Option ExportJob
  | .fetching job | .waiting job _ | .calling job _ | .backoff job _ => some job
  | _ => none

theorem Subscriber.holdsBarrier_eq (p : Subscriber) : p.holdsBarrier = p.held.isSome := by
  cases p <;> rfl

theorem Reconciler.holdsBarrier_eq (r : Reconciler) : r.holdsBarrier = r.held.isSome := by
  cases r <;> rfl

/-- The result says that nothing was applied. -/
def DeltaResult.Fails : DeltaResult → Prop
  | .applied _ => False
  | _ => True

/-- The result says that nothing was applied. -/
def ExportResult.Fails : ExportResult → Prop
  | .applied | .noRelevantModels => False
  | _ => True

namespace Worker

variable (codec : ConfigCodec) (cfg : WorkerConfig)

/-- What one event does. -/
inductive Turn (s : Worker) : WorkerEvent → Worker → List WorkerOutput → Prop
  | dropped {n : ConfigNotification} {r : DeltaResult} (hr : r.Fails) :
      Turn s (.notify n) s [.delta n.kind r]
  | noticed {n : ConfigNotification} (hdrop : dropReason cfg n s.state.epoch = none) :
      Turn s (.notify n) { s with subscriber := .waiting n } []
  | bumped {n : ConfigNotification} (hsub : s.subscriber = .waiting n)
      (hfree : s.barrierFree = true) (hkind : n.kind = .epochBump)
      (hfresh : notificationIsStale n.epoch s.state.epoch = false) :
      Turn s .subscriberLock { s with subscriber := .idle, state := s.state.setEpochMax n.epoch }
        [.delta .epochBump (.applied n.epoch)]
  | sent {n : ConfigNotification} (hsub : s.subscriber = .waiting n)
      (hfree : s.barrierFree = true) (hkind : n.kind = .modelConfig)
      (hfresh : notificationIsStale n.epoch s.state.epoch = false) :
      Turn s .subscriberLock { s with subscriber := .calling n } [.apply (n.request cfg.pool)]
  | gaveUp {e : WorkerEvent} {n : ConfigNotification} {r : DeltaResult} (hr : r.Fails) :
      Turn s e { s with subscriber := .idle } [.delta n.kind r]
  | failed {e : WorkerEvent} {n : ConfigNotification} (hsub : s.subscriber = .calling n) :
      Turn s e { s with subscriber := .backoff n } []
  | retried {e : WorkerEvent} {n : ConfigNotification} (hsub : s.subscriber = .backoff n) :
      Turn s e { s with subscriber := .calling n } [.apply (n.request cfg.pool)]
  | notified {n : ConfigNotification} {resp : ApplyModelConfigResponse} {hash : String}
      {replies : List (Except IpcError ApplyModelConfigResponse)}
      (hsub : s.subscriber = .calling n)
      (hreply : fanOut mergeApplyModelConfigResponse replies = some (.ok resp))
      (happlied : resp.applied = true)
      (hverified : verifiedAppliedBundleHash (some (n.bundleHashForPool cfg.pool))
        resp.bundleConfigHash = some hash) :
      Turn s (.applyReplies replies)
        { s with
          subscriber := .idle
          state := s.state.markApplied n.epoch hash resp.unsupportedModels }
        [.commit (some (n.bundleHashForPool cfg.pool)) resp, .delta n.kind (.applied n.epoch)]
  | started {reply : Option EpochSnapshot} (hrec : s.reconciler = .starting) :
      Turn s (.startupEpoch reply)
        { s with
          lastBundleConfigHashesHash := (reply.map EpochSnapshot.bundleConfigHashesHash).getD ""
          reconciler := .fetching ⟨false, .startup, ""⟩ } []
  | polled (hrec : s.reconciler = .idle) :
      Turn s .tick { s with reconciler := .polling s.state.epoch } []
  | inSync {localEpoch : ℕ} {remote : EpochSnapshot} (hrec : s.reconciler = .polling localEpoch)
      (hdrift : driftReason localEpoch remote s.lastBundleConfigHashesHash
        (fullExportDue cfg s) = none) :
      Turn s (.epochReply (some remote)) { s with reconciler := .idle } [.inSync localEpoch remote]
  | drifted {localEpoch : ℕ} {remote : EpochSnapshot} {reason : ExportReason} {job : ExportJob}
      (hrec : s.reconciler = .polling localEpoch)
      (hdrift : driftReason localEpoch remote s.lastBundleConfigHashesHash
        (fullExportDue cfg s) = some reason)
      (hjob : job = ⟨remote.epoch < localEpoch, reason, remote.bundleConfigHashesHash⟩) :
      Turn s (.epochReply (some remote)) { s with reconciler := .fetching job } []
  | fetched {job : ExportJob} {snapshot : ExportSnapshot} (hrec : s.reconciler = .fetching job) :
      Turn s (.exportReply (some snapshot)) { s with reconciler := .waiting job snapshot } []
  | unpolled {localEpoch : ℕ} (hrec : s.reconciler = .polling localEpoch) :
      Turn s (.epochReply none) { s with reconciler := .idle } [.reconcile .epochError]
  | exportFailed {e : WorkerEvent} {job : ExportJob} {r : ExportResult}
      (hjob : s.reconciler.job = some job) (hr : r.Fails) :
      Turn s e { s with reconciler := .idle } [.reconcile r]
  | exportStale {job : ExportJob} {snapshot : ExportSnapshot}
      (hrec : s.reconciler = .waiting job snapshot) (hforce : job.forceEpoch = false)
      (hlt : snapshot.epoch < s.state.epoch) :
      Turn s .reconcilerLock (s.exportSucceeded job none) [.reconcile .staleExport]
  | exportUnchanged {job : ExportJob} {snapshot : ExportSnapshot}
      (hrec : s.reconciler = .waiting job snapshot) (hreason : job.reason = .periodicExport)
      (hsome : (snapshot.signature codec cfg).isSome = true)
      (hsame : snapshot.signature codec cfg = s.lastExportSignature) :
      Turn s .reconcilerLock (s.exportSucceeded job (snapshot.signature codec cfg))
        [.reconcile .noChange]
  | exportSent {job : ExportJob} {snapshot : ExportSnapshot}
      (hrec : s.reconciler = .waiting job snapshot) (hfree : s.barrierFree = true)
      (hcurrent : job.forceEpoch = true ∨ s.state.epoch ≤ snapshot.epoch) :
      Turn s .reconcilerLock { s with reconciler := .calling job snapshot }
        [.replace (snapshot.request codec cfg)]
  | exportBackedOff {e : WorkerEvent} {job : ExportJob} {snapshot : ExportSnapshot}
      (hrec : s.reconciler = .calling job snapshot) :
      Turn s e { s with reconciler := .backoff job snapshot } []
  | exportRetried {e : WorkerEvent} {job : ExportJob} {snapshot : ExportSnapshot}
      (hrec : s.reconciler = .backoff job snapshot) :
      Turn s e { s with reconciler := .calling job snapshot }
        [.replace (snapshot.request codec cfg)]
  | exportStopped {e : WorkerEvent} {r : ExportResult} (hr : r.Fails) :
      Turn s e { s with reconciler := .stopped } [.reconcile r]
  | reconciled {job : ExportJob} {snapshot : ExportSnapshot} {resp : ReplaceModelConfigsResponse}
      {hash : String} {st : ConfigApplyState} {r : ExportResult}
      {replies : List (Except IpcError ReplaceModelConfigsResponse)}
      (hrec : s.reconciler = .calling job snapshot)
      (hreply : fanOut mergeReplaceModelConfigsResponse replies = some (.ok resp))
      (happlied : resp.applied = true)
      (hverified : verifiedAppliedBundleHash (snapshot.controlPlaneHash cfg)
        resp.bundleConfigHash = some hash)
      (hmark : s.state.markExportReconciled snapshot.epoch hash resp.unsupportedModels
        job.forceEpoch = some st) (hr : ¬ r.Fails) :
      Turn s (.replaceReplies replies)
        { s.exportSucceeded job (snapshot.signature codec cfg) with state := st }
        [.commit (snapshot.controlPlaneHash cfg) resp.toApplyModelConfigResponse, .reconcile r]
  | overtaken {job : ExportJob} {snapshot : ExportSnapshot} {hash : String}
      {models : List String} {r : ExportResult}
      {replies : List (Except IpcError ReplaceModelConfigsResponse)}
      (hrec : s.reconciler = .calling job snapshot)
      (hmark : s.state.markExportReconciled snapshot.epoch hash models job.forceEpoch = none) :
      Turn s (.replaceReplies replies)
        (s.exportSucceeded job (snapshot.signature codec cfg)) [.reconcile r]
  | pinged {hash : String} :
      Turn s (.ping hash) { s with state := s.state.adoptBackendHashIfUnset hash } []
  | locked (hfree : s.applying = false) :
      Turn s .lockExecution { s with executions := s.executions + 1 } []
  | unlocked : Turn s .unlockExecution { s with executions := s.executions - 1 } []
  | slept {duration : ℕ} : Turn s (.sleep duration) { s with now := s.now + duration } []
  | shutDown : Turn s .shutdown { s with shutdown := true } []
  | aborted : Turn s .abort { s with subscriber := .stopped, reconciler := .stopped } []

variable {codec cfg} {s t : Worker} {e : WorkerEvent} {o : List WorkerOutput}
  {n : ConfigNotification} {replies : List (Except IpcError ReplaceModelConfigsResponse)}

theorem turn_of_notify (h : notifyStep cfg s n = some (t, o)) :
    Turn codec cfg s (.notify n) t o := by
  unfold notifyStep at h
  split_ifs at h
  split at h <;> cases h
  next r hdrop =>
    refine .dropped ?_
    unfold dropReason at hdrop
    split_ifs at hdrop <;> cases hdrop <;> trivial
  next hdrop => exact .noticed hdrop

theorem turn_of_subscriberLock (h : subscriberLockStep cfg s = some (t, o)) :
    Turn codec cfg s .subscriberLock t o := by
  unfold subscriberLockStep at h
  split at h
  next n hsub =>
    split_ifs at h with hfree hstale
    · cases h
      exact .gaveUp trivial
    rw [Bool.not_eq_true] at hstale
    cases hkind : n.kind <;> rw [hkind] at h <;> cases h
    · exact .bumped hsub hfree hkind hstale
    · exact .sent hsub hfree hkind hstale
  next => cases h

theorem turn_of_finishNotification {resp : ApplyModelConfigResponse}
    {replies : List (Except IpcError ApplyModelConfigResponse)} (hsub : s.subscriber = .calling n)
    (hreply : fanOut mergeApplyModelConfigResponse replies = some (.ok resp))
    (h : finishNotification cfg s n resp = (t, o)) :
    Turn codec cfg s (.applyReplies replies) t o := by
  simp only [finishNotification] at h
  split_ifs at h with happlied
  · cases h
    exact .gaveUp trivial
  rw [Bool.not_eq_false] at happlied
  split at h <;> cases h
  next => exact .gaveUp trivial
  next _ hverified => exact .notified hsub hreply happlied hverified

theorem turn_of_applyReplies {replies : List (Except IpcError ApplyModelConfigResponse)}
    (h : applyRepliesStep cfg s replies = some (t, o)) :
    Turn codec cfg s (.applyReplies replies) t o := by
  unfold applyRepliesStep at h
  split at h
  next n hsub =>
    split at h
    next => cases h
    next _ hreply =>
      exact turn_of_finishNotification hsub hreply (Option.some.inj h)
    next _ hreply =>
      split_ifs at h
      · cases h
        exact .failed hsub
      · cases h
        exact .gaveUp trivial
  next => cases h

theorem turn_of_subscriberRetry (h : subscriberRetryStep cfg s = some (t, o)) :
    Turn codec cfg s .subscriberRetry t o := by
  unfold subscriberRetryStep at h
  split at h
  next n hsub =>
    split_ifs at h
    · cases h
      exact .gaveUp trivial
    · cases h
      exact .retried hsub
  next => cases h

theorem turn_of_epochReply {reply : Option EpochSnapshot}
    (h : epochReplyStep cfg s reply = some (t, o)) : Turn codec cfg s (.epochReply reply) t o := by
  unfold epochReplyStep at h
  split at h
  next _ hrec =>
    split at h
    next =>
      cases h
      exact .unpolled hrec
    next =>
      split at h <;> cases h
      next hdrift => exact .inSync hrec hdrift
      next _ hdrift => exact .drifted hrec hdrift rfl
  next => cases h

theorem turn_of_exportReply {reply : Option ExportSnapshot}
    (h : exportReplyStep s reply = some (t, o)) : Turn codec cfg s (.exportReply reply) t o := by
  unfold exportReplyStep at h
  split at h
  next job hrec =>
    split at h <;> cases h
    next => exact .exportFailed (hrec ▸ rfl : s.reconciler.job = some job) trivial
    next => exact .fetched hrec
  next => cases h

theorem turn_of_reconcilerLock (h : reconcilerLockStep codec cfg s = some (t, o)) :
    Turn codec cfg s .reconcilerLock t o := by
  unfold reconcilerLockStep at h
  split at h
  next job _ hrec =>
    split_ifs at h with hfree hstale hsame hfailed
    · cases h
      exact .exportStale hrec hstale.1 hstale.2
    · cases h
      exact .exportUnchanged hrec hsame.1 hsame.2.1 hsame.2.2
    · cases h
      refine .exportSent hrec hfree ?_
      by_cases hforce : job.forceEpoch = true
      · exact .inl hforce
      · exact .inr (not_lt.mp fun hlt => hstale ⟨Bool.eq_false_iff.mpr hforce, hlt⟩)
    · cases h
      exact .exportFailed (hrec ▸ rfl : s.reconciler.job = some job) trivial
  next => cases h

theorem turn_of_finishExport {job : ExportJob} {snapshot : ExportSnapshot}
    {resp : ReplaceModelConfigsResponse} (hrec : s.reconciler = .calling job snapshot)
    (hreply : fanOut mergeReplaceModelConfigsResponse replies = some (.ok resp))
    (h : finishExport codec cfg s job snapshot resp = (t, o)) :
    Turn codec cfg s (.replaceReplies replies) t o := by
  have hjob : s.reconciler.job = some job := hrec ▸ rfl
  simp only [finishExport] at h
  by_cases happlied : resp.applied = false
  · rw [if_pos happlied] at h
    cases h
    exact .exportFailed hjob trivial
  rw [if_neg happlied] at h
  rw [Bool.not_eq_false] at happlied
  split at h
  next =>
    cases h
    exact .exportFailed hjob trivial
  next _ hverified =>
    split at h <;> cases h
    next st hmark =>
      refine .reconciled hrec hreply happlied hverified hmark ?_
      split_ifs <;> exact not_false
    next hmark => exact .overtaken hrec hmark

theorem turn_of_replaceReplies (h : replaceRepliesStep codec cfg s replies = some (t, o)) :
    Turn codec cfg s (.replaceReplies replies) t o := by
  unfold replaceRepliesStep at h
  split at h
  next job _ hrec =>
    split at h
    next => cases h
    next _ hreply => exact turn_of_finishExport hrec hreply (Option.some.inj h)
    next _ hreply =>
      split_ifs at h
      · cases h
        exact .exportBackedOff hrec
      · cases h
        exact .exportFailed (hrec ▸ rfl : s.reconciler.job = some job) trivial
  next => cases h

theorem turn_of_reconcilerRetry (h : reconcilerRetryStep codec cfg s = some (t, o)) :
    Turn codec cfg s .reconcilerRetry t o := by
  unfold reconcilerRetryStep at h
  split at h
  next _ _ hrec =>
    split_ifs at h
    · cases h
      exact .exportStopped trivial
    · cases h
      exact .exportRetried hrec
  next => cases h

/-- Every step is a turn. -/
theorem turn_of_step (h : step codec cfg s e = some (t, o)) : Turn codec cfg s e t o := by
  cases e with
  | notify => exact turn_of_notify h
  | subscriberLock => exact turn_of_subscriberLock h
  | applyReplies => exact turn_of_applyReplies h
  | subscriberRetry => exact turn_of_subscriberRetry h
  | startupEpoch =>
    simp only [step, startupEpochStep] at h
    split_ifs at h with hrec
    cases h
    exact .started hrec
  | tick =>
    simp only [step, tickStep] at h
    split_ifs at h with hrec
    cases h
    exact .polled hrec.1
  | epochReply => exact turn_of_epochReply h
  | exportReply => exact turn_of_exportReply h
  | reconcilerLock => exact turn_of_reconcilerLock h
  | replaceReplies => exact turn_of_replaceReplies h
  | reconcilerRetry => exact turn_of_reconcilerRetry h
  | lockExecution =>
    simp only [step, lockExecutionStep] at h
    split_ifs at h with hfree
    cases h
    exact .locked hfree
  | unlockExecution =>
    simp only [step, unlockExecutionStep] at h
    split_ifs at h
    cases h
    exact .unlocked
  | ping => cases h; exact .pinged
  | sleep => cases h; exact .slept
  | shutdown => cases h; exact .shutDown
  | abort => cases h; exact .aborted

/-! ## The barrier -/

/-- What the barrier keeps, from who holds it, the executions and the epoch. -/
structure Barrier (notified : Option ConfigNotification)
    (exported : Option (ExportJob × ExportSnapshot)) (executions epoch : ℕ) : Prop where
  alone : notified = none ∨ exported = none
  unshared : notified ≠ none ∨ exported ≠ none → executions = 0
  fresh : ∀ n, notified = some n → notificationIsStale n.epoch epoch = false
  current : ∀ job snapshot, exported = some (job, snapshot) →
    job.forceEpoch = true ∨ epoch ≤ snapshot.epoch

abbrev Held (s : Worker) : Prop :=
  Barrier s.subscriber.held s.reconciler.held s.executions s.state.epoch

theorem held_new (hash : String) (reconciles : Bool) : Held (.new hash reconciles) := by
  cases reconciles <;> constructor <;> simp [new, Subscriber.held, held]

theorem barrierFree_iff :
    s.barrierFree = true ↔
      s.executions = 0 ∧ s.subscriber.held = none ∧ s.reconciler.held = none := by
  simp [barrierFree, applying, Subscriber.holdsBarrier_eq, holdsBarrier_eq]

variable {notified : Option ConfigNotification} {executions epoch : ℕ}
  {exported : Option (ExportJob × ExportSnapshot)}

theorem Barrier.dropNotified (h : Barrier notified exported executions epoch) :
    Barrier none exported executions epoch :=
  ⟨.inl rfl, fun hheld => h.unshared (.inr (hheld.resolve_left (· rfl))), by simp, h.current⟩

theorem Barrier.dropExported (h : Barrier notified exported executions epoch) :
    Barrier notified none executions epoch :=
  ⟨.inr rfl, fun hheld => h.unshared (.inl (hheld.resolve_right (· rfl))), h.fresh, by simp⟩

/-- A step of the holder of the barrier that releases it keeps `Held`. -/
theorem Held.released (hsub : t.subscriber.held = none) (hrec : t.reconciler.held = none) :
    Held t where
  alone := .inl hsub
  unshared := by simp [hsub, hrec]
  fresh := by simp [hsub]
  current := by simp [hrec]

theorem adoptBackendHashIfUnset_epoch (st : ConfigApplyState) (hash : String) :
    (st.adoptBackendHashIfUnset hash).epoch = st.epoch := by
  unfold ConfigApplyState.adoptBackendHashIfUnset
  split_ifs <;> rfl

/-- Every turn keeps `Held`. -/
theorem Held.next (h : Held s) (hturn : Turn codec cfg s e t o) : Held t := by
  cases hturn with
  | dropped | slept | shutDown => exact h
  | noticed | gaveUp => exact h.dropNotified
  | bumped _ hfree => exact .released rfl (barrierFree_iff.mp hfree).2.2
  | @sent _ _ hfree _ hfresh =>
    obtain ⟨hexec, -, hrec⟩ := barrierFree_iff.mp hfree
    exact ⟨.inr hrec, fun _ => hexec, by rintro m ⟨⟩; exact hfresh,
      fun job snapshot hheld => by simp [hrec] at hheld⟩
  | failed hsub | retried hsub =>
    rw [Held, hsub] at h
    exact h
  | notified hsub =>
    refine .released rfl (h.alone.resolve_left ?_)
    rw [hsub]
    exact Option.some_ne_none _
  | started | polled | inSync | drifted | fetched | unpolled | exportFailed | exportStale
  | exportUnchanged | exportStopped | overtaken =>
    exact h.dropExported
  | exportSent _ hfree hcurrent =>
    obtain ⟨hexec, hsub, -⟩ := barrierFree_iff.mp hfree
    exact ⟨.inl hsub, fun _ => hexec, fun n hn => by simp [hsub] at hn,
      by rintro job snapshot ⟨⟩; exact hcurrent⟩
  | exportBackedOff hrec | exportRetried hrec =>
    rw [Held, hrec] at h
    exact h
  | reconciled hrec =>
    refine .released (h.alone.resolve_right ?_) rfl
    rw [hrec]
    exact Option.some_ne_none _
  | pinged =>
    rw [Held, adoptBackendHashIfUnset_epoch]
    exact h
  | locked hfree =>
    simp only [applying, Subscriber.holdsBarrier_eq, holdsBarrier_eq] at hfree
    exact .released (by simp_all) (by simp_all)
  | unlocked =>
    exact ⟨h.alone, fun hheld => by simp [h.unshared hheld], h.fresh, h.current⟩
  | aborted => exact .released rfl rfl

theorem held_run {hash : String} {reconciles : Bool} {es : List WorkerEvent}
    {os : List WorkerOutput} (h : runs (step codec cfg) (.new hash reconciles) es = some (s, os)) :
    Held s :=
  runs_invariant (fun _ _ _ _ hheld hstep => hheld.next (turn_of_step hstep))
    (held_new hash reconciles) h

end Worker

end Sie.Sidecar
