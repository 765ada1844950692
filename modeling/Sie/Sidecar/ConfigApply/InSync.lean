import Sie.Sidecar.ConfigApply.Verified

/-!
# A poll that finds no drift

A worker together with the control plane it polls.  Of the control plane only what this worker
can see of it counts: its epoch, the fingerprint of all bundle hashes, and the hash it publishes
for the worker's bundle and pool.  Polls and exports answer with the current state, a
notification may be of any past one, and all of them can fail or never come.

Drift is judged by the epoch and by the remembered fingerprint.  The epoch says what is applied
only while every step that raises it also commits, the fingerprint only once an export has been
applied: the startup poll remembers it before.  A hash that is replaced at its epoch, by a change
without a new epoch or by one that takes the epoch back, is told by the fingerprint alone, so
long as the new one was not seen before.  `Steady` is what a run has to keep to for a poll to be
right.
-/

namespace Sie.Sidecar

open Sie.Lib Sie.Wire List ConfigApplyState Worker

/-- What the worker can see of the control plane. -/
structure PlaneState where
  epoch : ℕ
  fingerprint : String
  hash : String
  deriving DecidableEq

structure Deployment where
  worker : Worker
  plane : PlaneState
  past : List PlaneState
  deriving DecidableEq

inductive DeploymentEvent
  | change (p : PlaneState)
  | worker (e : WorkerEvent)

/-- The control plane does not change in this event. -/
def DeploymentEvent.IsWorker : DeploymentEvent → Prop
  | .change _ => False
  | .worker _ => True

namespace Deployment

variable (codec : ConfigCodec) (cfg : WorkerConfig)

def new (initialBundleConfigHash : String) (plane : PlaneState) : Deployment :=
  ⟨.new initialBundleConfigHash true, plane, []⟩

/-- Every state the control plane has been in, the current one first. -/
def history (d : Deployment) : List PlaneState := d.plane :: d.past

/-- The control plane is in another state. -/
def changed (d : Deployment) (p : PlaneState) : Deployment :=
  { d with plane := p, past := d.plane :: d.past }

/-- The notification was published for a state of the control plane. -/
def Published (d : Deployment) (n : ConfigNotification) : Prop :=
  ∃ p ∈ d.history, n.epoch = p.epoch ∧
    (n.kind = .modelConfig → n.bundleHashForPool cfg.pool = p.hash)

/-- The export is of this state of the control plane. -/
def ExportOf (p : PlaneState) (snapshot : ExportSnapshot) : Prop :=
  snapshot.epoch = p.epoch ∧ snapshot.controlPlaneHash cfg = some p.hash

instance (d : Deployment) (n : ConfigNotification) : Decidable (d.Published cfg n) :=
  inferInstanceAs (Decidable (∃ p ∈ d.history, _ ∧ (_ → _)))

instance (p : PlaneState) (snapshot : ExportSnapshot) : Decidable (ExportOf cfg p snapshot) :=
  inferInstanceAs (Decidable (_ ∧ _))

/-- What the control plane may send: the current state when asked, and a notification of any
state so far.  A notification that the worker drops at once may be anything. -/
def Sends (d : Deployment) : WorkerEvent → Prop
  | .notify n => dropReason cfg n d.worker.state.epoch = none → d.Published cfg n
  | .startupEpoch (some r) | .epochReply (some r) => r = ⟨d.plane.epoch, d.plane.fingerprint⟩
  | .exportReply (some snapshot) => ExportOf cfg d.plane snapshot
  | _ => True

instance (d : Deployment) : DecidablePred (d.Sends cfg) := fun e => by
  unfold Sends
  split <;> infer_instance

def step (d : Deployment) : DeploymentEvent → Option (Deployment × List WorkerOutput)
  | .change p => some (d.changed p, [])
  | .worker e =>
    if d.Sends cfg e then
      (Worker.step codec cfg d.worker e).map fun r => ({ d with worker := r.1 }, r.2)
    else none

/-! ## Steady runs -/

/-- A notification without a config raises the epoch only to one whose hash the worker has, and
no notification is of an epoch past the control plane's or, at epoch 0, of a replaced hash. -/
def NotifiesInOrder (d : Deployment) : WorkerEvent → Prop
  | .subscriberLock =>
    match d.worker.subscriber with
    | .waiting n => n.kind = .epochBump → n.epoch ≤ d.worker.state.epoch ∨
        n.epoch ≤ d.plane.epoch ∧
          ∃ p ∈ d.history, p.epoch = n.epoch ∧ p.hash = d.worker.state.bundleConfigHash
    | _ => True
  | .applyReplies _ =>
    match d.worker.subscriber with
    | .calling n => n.epoch ≤ d.plane.epoch ∧
        (n.epoch = 0 → d.plane.epoch = 0 → n.bundleHashForPool cfg.pool = d.plane.hash)
    | _ => True
  | _ => True

/-- The worker's epoch has not been raised past the answer of the poll.  Before any export has
been applied the answer is not the fingerprint of the startup poll, or is not needed: past epoch
0 because the control plane has had one hash at this epoch, at epoch 0 because of full exports at
intervals. -/
def PollsVisibly (d : Deployment) : WorkerEvent → Prop
  | .epochReply (some _) =>
    match d.worker.reconciler with
    | .polling localEpoch =>
      (d.worker.state.epoch = localEpoch ∨ d.worker.state.epoch ≤ d.plane.epoch) ∧
        (d.worker.lastSuccessfulExport = none →
          d.worker.lastBundleConfigHashesHash ≠ d.plane.fingerprint ∨
            if d.plane.epoch = 0 then cfg.fullExportInterval.isSome = true
            else ∀ p ∈ d.past, p.epoch = d.plane.epoch → p.hash = d.plane.hash)
    | _ => True
  | _ => True

/-- The control plane publishes a hash for the worker, and a fingerprint that it has had before
only at an epoch of which it has published no other hash. -/
def Succeeds (d : Deployment) (q : PlaneState) : Prop :=
  q.hash ≠ "" ∧ q.fingerprint ≠ "" ∧
    (q.fingerprint ∈ d.history.map PlaneState.fingerprint →
      ∀ p ∈ d.history, p.epoch = q.epoch → p.hash = q.hash)

def Steady (d : Deployment) : DeploymentEvent → Prop
  | .change p => d.Succeeds p
  | .worker e => d.NotifiesInOrder cfg e ∧ d.PollsVisibly cfg e

instance (d : Deployment) : DecidablePred (d.Steady cfg) := fun e => by
  unfold Steady Succeeds NotifiesInOrder PollsVisibly
  repeat' split
  all_goals infer_instance

/-! ## The invariant -/

/-- The control plane has this fingerprint, and never had it before. -/
def Fresh (d : Deployment) (fingerprint : String) : Prop :=
  fingerprint = d.plane.fingerprint ∧ fingerprint ∉ d.past.map PlaneState.fingerprint

/-- No fingerprint, or one that the control plane has had. -/
def Seen (d : Deployment) (fingerprint : String) : Prop :=
  fingerprint ∈ "" :: d.history.map PlaneState.fingerprint

/-- The fingerprint that is remembered after the export. -/
def remembers (w : Worker) (job : ExportJob) : String :=
  if job.remoteHash = "" then w.lastBundleConfigHashesHash else job.remoteHash

/-- What the subscriber has in hand was published. -/
def SubscriberOk (d : Deployment) : Subscriber → Prop
  | .waiting n => d.Published cfg n
  | .calling n | .backoff n => n.kind = .modelConfig ∧ d.Published cfg n
  | .idle | .stopped => True

/-- A periodic export leaves the remembered fingerprint as it is. -/
def JobOk (d : Deployment) (job : ExportJob) : Prop :=
  d.Seen (remembers d.worker job) ∧ (job.reason = .periodicExport →
    remembers d.worker job = d.worker.lastBundleConfigHashesHash)

/-- The export is of the control plane, and of its current state if it was asked for because of
a fingerprint that no earlier state had. -/
def HandOk (d : Deployment) (job : ExportJob) (snapshot : ExportSnapshot) : Prop :=
  d.JobOk job ∧ (∃ p ∈ d.history, ExportOf cfg p snapshot) ∧
    (d.Fresh (remembers d.worker job) → ExportOf cfg d.plane snapshot)

def ReconcilerOk (d : Deployment) : Reconciler → Prop
  | .starting => d.worker.lastSuccessfulExport = none
  | .polling localEpoch => localEpoch ≤ d.worker.state.epoch
  | .fetching job => d.JobOk job
  | .waiting job snapshot | .calling job snapshot | .backoff job snapshot =>
    d.HandOk cfg job snapshot
  | .idle | .stopped => True

/-- The hash was published at the worker's epoch, and is the current one if the worker remembers
a fingerprint that no earlier state had. -/
def Synced (d : Deployment) : Prop :=
  (∃ p ∈ d.history,
    d.worker.state.epoch = p.epoch ∧ d.worker.state.bundleConfigHash = p.hash) ∧
  (d.worker.lastSuccessfulExport ≠ none → d.Fresh d.worker.lastBundleConfigHashesHash →
    d.plane.epoch ≤ d.worker.state.epoch ∧
      (d.worker.state.epoch = d.plane.epoch → d.worker.state.bundleConfigHash = d.plane.hash))

/-- Nothing has been applied yet. -/
def Unset (d : Deployment) : Prop :=
  d.worker.state.epoch = 0 ∧ d.worker.lastSuccessfulExport = none

structure Tracks (d : Deployment) : Prop where
  held : d.worker.Held
  published : ∀ p ∈ d.history, p.hash ≠ "" ∧ p.fingerprint ≠ ""
  replaced : d.plane.fingerprint ∈ d.past.map PlaneState.fingerprint →
    ∀ p ∈ d.past, p.epoch = d.plane.epoch → p.hash = d.plane.hash
  seen : d.Seen d.worker.lastBundleConfigHashesHash
  exported : d.worker.lastSuccessfulExport = none → d.worker.lastExportSignature = none
  subscriber : d.SubscriberOk cfg d.worker.subscriber
  reconciler : d.ReconcilerOk cfg d.worker.reconciler
  state : d.Synced ∨ d.Unset

variable {codec cfg} {d : Deployment} {e : WorkerEvent} {w : Worker} {o : List WorkerOutput}
  {p : PlaneState} {job : ExportJob} {snapshot : ExportSnapshot} {localEpoch : ℕ}

theorem tracks_new {initial : String} (hhash : p.hash ≠ "") (hfingerprint : p.fingerprint ≠ "") :
    Tracks cfg (.new initial p) where
  held := held_new _ _
  published := by
    intro q hq
    rw [new, history, mem_singleton] at hq
    subst hq
    exact ⟨hhash, hfingerprint⟩
  replaced := fun _ q hq => absurd hq not_mem_nil
  seen := mem_cons_self
  exported := fun _ => rfl
  subscriber := trivial
  reconciler := rfl
  state := .inr ⟨rfl, rfl⟩

theorem committed_hash {given reply hash : String} (hgiven : given ≠ "")
    (h : verifiedAppliedBundleHash (some given) reply = some hash) : hash = given := by
  obtain ⟨rfl, hreply⟩ := verifiedAppliedBundleHash_eq_some h
  exact hreply given rfl hgiven

/-- A periodic export is asked for only with the fingerprint that is remembered. -/
theorem eq_of_driftReason_periodic {remote : EpochSnapshot} {last : String} {due : Bool}
    (h : driftReason localEpoch remote last due = some .periodicExport)
    (hne : remote.bundleConfigHashesHash ≠ "") : remote.bundleConfigHashesHash = last := by
  by_contra hother
  simp only [driftReason, if_pos (And.intro hne hother)] at h
  split_ifs at h <;> cases h

/-- A committed export takes over the epoch and the hash of the state it is of. -/
theorem reconciled_state {hash reply : String} {models : List String} {st : ConfigApplyState}
    (hexport : ExportOf cfg p snapshot) (hp : p.hash ≠ "")
    (hverified : verifiedAppliedBundleHash (snapshot.controlPlaneHash cfg) reply = some hash)
    (hmark : d.worker.state.markExportReconciled snapshot.epoch hash models job.forceEpoch =
      some st) : st.epoch = p.epoch ∧ st.bundleConfigHash = p.hash := by
  obtain ⟨rfl, -⟩ := markExportReconciled_eq_some hmark
  rw [hexport.2] at hverified
  exact ⟨hexport.1, committed_hash hp hverified⟩

namespace Tracks

variable (h : Tracks cfg d) {n : ConfigNotification} {reply hash : String} {models : List String}
include h

/-- The worker holds no hash that was replaced at the control plane's epoch. -/
theorem hash_eq_plane (hp : p ∈ d.history) (hepoch : p.epoch = d.plane.epoch)
    (hold : d.plane.fingerprint ∈ d.past.map PlaneState.fingerprint) : p.hash = d.plane.hash := by
  rcases mem_cons.mp hp with rfl | hp
  · rfl
  · exact h.replaced hold p hp hepoch

/-- The published state that the notification in hand is of. -/
theorem notified_state (hsub : d.worker.subscriber = .calling n)
    (hverified : verifiedAppliedBundleHash (some (n.bundleHashForPool cfg.pool)) reply = some hash)
    (models : List String) :
    ∃ p ∈ d.history, p.epoch = n.epoch ∧ p.hash = n.bundleHashForPool cfg.pool ∧
      (d.worker.state.markApplied n.epoch hash models).epoch = p.epoch ∧
      (d.worker.state.markApplied n.epoch hash models).bundleConfigHash = p.hash := by
  have hok := h.subscriber
  rw [hsub] at hok
  obtain ⟨hkind, p, hp, hepoch, hgiven⟩ := hok
  have hfresh := h.held.fresh n (by rw [hsub]; rfl)
  have hhash := committed_hash (by rw [hgiven hkind]; exact (h.published p hp).1) hverified
  rw [markApplied_of_fresh hfresh]
  exact ⟨p, hp, hepoch.symm, (hgiven hkind).symm, hepoch, hhash.trans (hgiven hkind)⟩

section

variable (hturn : Worker.Turn codec cfg d.worker e w o)
include hturn

theorem subscriberOk_next (hsends : d.Sends cfg e) : d.SubscriberOk cfg w.subscriber := by
  have hsub := h.subscriber
  cases hturn with
  | noticed hdrop => exact hsends hdrop
  | sent hwaiting _ hkind =>
    rw [hwaiting] at hsub
    exact ⟨hkind, hsub⟩
  | failed hcalling =>
    rwa [hcalling] at hsub
  | retried hbackoff =>
    rwa [hbackoff] at hsub
  | bumped | gaveUp | notified | aborted => trivial
  | _ => exact hsub

/-- Only an export takes the epoch back. -/
theorem epoch_le_of_polling (hpolling : d.worker.reconciler = .polling localEpoch) :
    d.worker.state.epoch ≤ w.state.epoch := by
  by_contra hlt
  obtain ⟨⟨_, _, hrec, -⟩, -⟩ := (change_of_turn h.held hturn).discipline.rewind (not_le.mp hlt)
  rw [hpolling] at hrec
  cases hrec

theorem reconcilerOk_next (hsends : d.Sends cfg e) :
    ReconcilerOk cfg { d with worker := w } w.reconciler := by
  have hrec := h.reconciler
  have hle : ∀ localEpoch, d.worker.reconciler = .polling localEpoch →
      d.worker.state.epoch ≤ w.state.epoch := fun _ => h.epoch_le_of_polling hturn
  cases hturn with
  | @started reply =>
    refine ⟨?_, fun hreason => nomatch hreason⟩
    cases reply with
    | none => exact mem_cons_self
    | some r =>
      have hremote : r = _ := hsends
      subst hremote
      exact mem_cons_of_mem _ mem_cons_self
  | polled => exact le_refl d.worker.state.epoch
  | drifted hpolling hdrift hjob =>
    have hremote : _ = _ := hsends
    have hne := (h.published d.plane mem_cons_self).2
    subst hjob hremote
    refine ⟨?_, fun hreason => ?_⟩
    · rw [remembers, if_neg hne]
      exact mem_cons_of_mem _ mem_cons_self
    · rw [remembers, if_neg hne]
      exact eq_of_driftReason_periodic (hdrift.trans (congrArg some hreason)) hne
  | fetched hfetching =>
    rw [hfetching] at hrec
    exact ⟨hrec, ⟨d.plane, mem_cons_self, hsends⟩, fun _ => hsends⟩
  | exportSent hphase | exportBackedOff hphase | exportRetried hphase =>
    rw [hphase] at hrec
    exact hrec
  | inSync | unpolled | exportFailed | exportStale | exportUnchanged | exportStopped | reconciled
  | overtaken | aborted => trivial
  | bumped | notified | pinged =>
    change ReconcilerOk cfg _ d.worker.reconciler
    cases hphase : d.worker.reconciler with
    | polling =>
      rw [hphase] at hrec
      exact le_trans hrec (hle _ hphase)
    | _ =>
      rw [hphase] at hrec
      exact hrec
  | _ => exact hrec

theorem seen_next (hsends : d.Sends cfg e) : d.Seen w.lastBundleConfigHashesHash := by
  have hok := h.reconciler
  cases hturn with
  | @started reply =>
    cases reply with
    | none => exact mem_cons_self
    | some r =>
      have hremote : r = _ := hsends
      subst hremote
      exact mem_cons_of_mem _ mem_cons_self
  | exportStale hrec | exportUnchanged hrec | reconciled hrec | overtaken hrec =>
    rw [hrec] at hok
    exact hok.1.1
  | _ => exact h.seen

theorem exported_next (hnone : w.lastSuccessfulExport = none) : w.lastExportSignature = none := by
  cases hturn with
  | exportStale | exportUnchanged | reconciled | overtaken => cases hnone
  | _ => exact h.exported hnone

end

theorem state_bumped (hsub : d.worker.subscriber = .waiting n) (hkind : n.kind = .epochBump)
    (horder : d.NotifiesInOrder cfg .subscriberLock)
    (hw : w = { d.worker with subscriber := .idle, state := d.worker.state.setEpochMax n.epoch }) :
    Synced { d with worker := w } ∨ Unset { d with worker := w } := by
  subst hw
  by_cases hle : n.epoch ≤ d.worker.state.epoch
  · have hsame : d.worker.state.setEpochMax n.epoch = d.worker.state := if_neg (not_lt.mpr hle)
    rw [hsame]
    exact h.state
  rw [NotifiesInOrder, hsub] at horder
  obtain ⟨hplane, p, hp, hepoch, hhash⟩ := (horder hkind).resolve_left hle
  have hraised : d.worker.state.setEpochMax n.epoch = { d.worker.state with epoch := n.epoch } :=
    if_pos (not_le.mp hle)
  rw [hraised]
  refine .inl ⟨⟨p, hp, hepoch.symm, hhash.symm⟩, fun hexported hfresh => ?_⟩
  -- with a fresh fingerprint the worker was already at the control plane's epoch
  rcases h.state with hsynced | hunset
  · exact absurd (hsynced.2 hexported hfresh).1 (by omega)
  · exact absurd hunset.2 hexported

theorem state_pinged (hash : String)
    (hw : w = { d.worker with state := d.worker.state.adoptBackendHashIfUnset hash }) :
    Synced { d with worker := w } ∨ Unset { d with worker := w } := by
  subst hw
  rcases h.state with hsynced | hunset
  · obtain ⟨p, hp, -, hhash⟩ := hsynced.1
    have hset : d.worker.state.bundleConfigHash ≠ "" := hhash ▸ (h.published p hp).1
    rw [adoptBackendHashIfUnset, if_pos hset, ite_self]
    exact .inl hsynced
  · exact .inr ⟨(adoptBackendHashIfUnset_epoch _ _).trans hunset.1, hunset.2⟩

/-- A notification that the worker takes while it remembers a fresh fingerprint is of epoch 0. -/
theorem synced_notified {replies : List (Except IpcError ApplyModelConfigResponse)}
    (hsub : d.worker.subscriber = .calling n)
    (hverified : verifiedAppliedBundleHash (some (n.bundleHashForPool cfg.pool)) reply = some hash)
    (horder : d.NotifiesInOrder cfg (.applyReplies replies))
    (hw : w = { d.worker with
      subscriber := .idle, state := d.worker.state.markApplied n.epoch hash models }) :
    Synced { d with worker := w } := by
  obtain ⟨p, hp, hepoch, hgiven, hstate⟩ := h.notified_state hsub hverified models
  rw [NotifiesInOrder, hsub] at horder
  obtain ⟨hle, hzero⟩ := horder
  subst hw
  refine ⟨⟨p, hp, hstate⟩, fun hexported hfresh => ?_⟩
  rcases h.state with hsynced | hunset
  · have hplane := (hsynced.2 hexported hfresh).1
    rcases notStale_iff.mp (h.held.fresh n (by rw [hsub]; rfl)) with hlt | ⟨hn, hworker⟩
    · omega
    · have hplane : d.plane.epoch = 0 := by omega
      exact ⟨hplane.trans_le (Nat.zero_le _), fun _ => by rw [hstate.2, hgiven, hzero hn hplane]⟩
  · exact absurd hunset.2 hexported

theorem synced_reconciled {st : ConfigApplyState}
    (hrec : d.worker.reconciler = .calling job snapshot)
    (hverified : verifiedAppliedBundleHash (snapshot.controlPlaneHash cfg) reply = some hash)
    (hmark : d.worker.state.markExportReconciled snapshot.epoch hash models job.forceEpoch =
      some st)
    (hw : w = { d.worker.exportSucceeded job (snapshot.signature codec cfg) with state := st }) :
    Synced { d with worker := w } := by
  have hok := h.reconciler
  rw [hrec] at hok
  subst hw
  obtain ⟨-, ⟨p, hp, hexport⟩, hcurrent⟩ := hok
  refine ⟨⟨p, hp, reconciled_state hexport (h.published p hp).1 hverified hmark⟩, ?_⟩
  intro _ hfresh
  have hplane := (h.published d.plane mem_cons_self).1
  obtain ⟨hepoch, hhash⟩ := reconciled_state (hcurrent hfresh) hplane hverified hmark
  exact ⟨hepoch.ge, fun _ => hhash⟩

/-- An export that the worker is already past. -/
theorem synced_stale (hrec : d.worker.reconciler = .waiting job snapshot)
    (hlt : snapshot.epoch < d.worker.state.epoch) :
    Synced { d with worker := d.worker.exportSucceeded job none } := by
  have hok := h.reconciler
  rw [hrec] at hok
  rcases h.state with hsynced | hunset
  · refine ⟨hsynced.1, fun _ hfresh => ?_⟩
    have hepoch := (hok.2.2 hfresh).1
    refine ⟨?_, fun heq => ?_⟩ <;>
      simp only [exportSucceeded] at * <;> omega
  · have := hunset.1
    omega

/-- A periodic export that is the last one again. -/
theorem synced_unchanged (hrec : d.worker.reconciler = .waiting job snapshot)
    (hreason : job.reason = .periodicExport) (hexported : d.worker.lastSuccessfulExport ≠ none)
    (signature : Option Digest) :
    Synced { d with worker := d.worker.exportSucceeded job signature } := by
  have hok := h.reconciler
  rw [hrec] at hok
  have hsynced := h.state.resolve_right fun hunset => hexported hunset.2
  refine ⟨hsynced.1, fun _ hfresh => hsynced.2 hexported ?_⟩
  rwa [← hok.1.2 hreason]

theorem state_next (hturn : Worker.Turn codec cfg d.worker e w o)
    (horder : d.NotifiesInOrder cfg e) :
    Synced { d with worker := w } ∨ Unset { d with worker := w } := by
  cases hturn with
  | bumped hsub _ hkind => exact h.state_bumped hsub hkind horder rfl
  | pinged => exact h.state_pinged _ rfl
  | notified hsub _ _ hverified => exact .inl (h.synced_notified hsub hverified horder rfl)
  | reconciled hrec _ _ hverified hmark => exact .inl (h.synced_reconciled hrec hverified hmark rfl)
  | overtaken hrec hmark =>
    have hcurrent := h.held.current _ _ (by rw [hrec]; rfl)
    exact absurd hmark (markExportReconciled_ne_none hcurrent)
  | exportStale hrec _ hlt => exact .inl (h.synced_stale hrec hlt)
  | exportUnchanged hrec hreason hsome hsame =>
    refine .inl (h.synced_unchanged hrec hreason (fun hnone => ?_) _)
    rw [hsame, h.exported hnone] at hsome
    exact absurd hsome Bool.false_ne_true
  | started hrec =>
    have hnone := h.reconciler
    rw [hrec] at hnone
    exact h.state.imp_left fun hsynced => ⟨hsynced.1, fun hexported => absurd hnone hexported⟩
  | _ => exact h.state

theorem worker_next (hturn : Worker.Turn codec cfg d.worker e w o) (hsends : d.Sends cfg e)
    (horder : d.NotifiesInOrder cfg e) : Tracks cfg { d with worker := w } where
  held := h.held.next hturn
  published := h.published
  replaced := h.replaced
  seen := h.seen_next hturn hsends
  exported := h.exported_next hturn
  subscriber := h.subscriberOk_next hturn hsends
  reconciler := h.reconcilerOk_next hturn hsends
  state := h.state_next hturn horder

end Tracks

/-! ### A change of the control plane -/

/-- What was known before the change is no fresh fingerprint after it. -/
theorem not_fresh_change {fingerprint : String} (hseen : d.Seen fingerprint)
    (hp : p.fingerprint ≠ "") :
    ¬ Fresh (d.changed p) fingerprint := by
  rintro ⟨rfl, hnot⟩
  exact (mem_cons.mp hseen).elim hp hnot

theorem Seen.change {fingerprint : String} (hseen : d.Seen fingerprint) :
    Seen (d.changed p) fingerprint :=
  (mem_cons.mp hseen).elim (· ▸ mem_cons_self) fun hmem =>
    mem_cons_of_mem _ (mem_cons_of_mem _ hmem)

theorem ReconcilerOk.change {r : Reconciler} (h : d.ReconcilerOk cfg r)
    (hp : p.fingerprint ≠ "") :
    ReconcilerOk cfg (d.changed p) r := by
  cases r with
  | starting | idle | polling | stopped => exact h
  | fetching => exact ⟨h.1.change, h.2⟩
  | waiting | calling | backoff =>
    obtain ⟨⟨hseen, hperiodic⟩, ⟨q, hq, hexport⟩, -⟩ := h
    exact ⟨⟨hseen.change, hperiodic⟩, ⟨q, mem_cons_of_mem _ hq, hexport⟩,
      fun hfresh => absurd hfresh (not_fresh_change hseen hp)⟩

theorem Tracks.change_next (h : Tracks cfg d) (hp : d.Succeeds p) :
    Tracks cfg (d.changed p) where
  held := h.held
  published := by
    intro q hq
    rcases mem_cons.mp hq with rfl | hq
    · exact ⟨hp.1, hp.2.1⟩
    · exact h.published q hq
  replaced := hp.2.2
  seen := h.seen.change
  exported := h.exported
  subscriber := by
    have hsub := h.subscriber
    have hmono : ∀ n, d.Published cfg n → (d.changed p).Published cfg n :=
      fun n ⟨q, hq, hn⟩ => ⟨q, mem_cons_of_mem _ hq, hn⟩
    change SubscriberOk cfg _ d.worker.subscriber
    cases hphase : d.worker.subscriber with
    | idle | stopped => trivial
    | waiting n => rw [hphase] at hsub; exact hmono n hsub
    | calling n | backoff n => rw [hphase] at hsub; exact ⟨hsub.1, hmono n hsub.2⟩
  reconciler := h.reconciler.change hp.2.1
  state := by
    refine h.state.imp_left fun ⟨⟨q, hq, hstate⟩, _⟩ => ⟨⟨q, mem_cons_of_mem _ hq, hstate⟩, ?_⟩
    exact fun _ hfresh => absurd hfresh (not_fresh_change h.seen hp.2.1)

/-! ## Runs -/

variable {d' : Deployment} {ev : DeploymentEvent} {es : List DeploymentEvent}
  {os : List WorkerOutput}

theorem turn_of_step (hstep : step codec cfg d (.worker e) = some (d', o)) :
    d.Sends cfg e ∧ ∃ w, Worker.step codec cfg d.worker e = some (w, o) ∧
      d' = { d with worker := w } := by
  simp only [step] at hstep
  split_ifs at hstep with hsends
  rw [Option.map_eq_some_iff] at hstep
  obtain ⟨⟨w, o'⟩, hworker, ⟨⟩⟩ := hstep
  exact ⟨hsends, w, hworker, rfl⟩

theorem Tracks.next (h : Tracks cfg d) (hsteady : d.Steady cfg ev)
    (hstep : step codec cfg d ev = some (d', o)) : Tracks cfg d' := by
  cases ev with
  | change =>
    cases hstep
    exact h.change_next hsteady
  | worker =>
    obtain ⟨hsends, w, hworker, rfl⟩ := turn_of_step hstep
    exact h.worker_next (Worker.turn_of_step hworker) hsends hsteady.1

theorem tracks_run {initial : String} (hhash : p.hash ≠ "") (hfingerprint : p.fingerprint ≠ "")
    (hsteady : Along (step codec cfg) (Steady cfg) (.new initial p) es)
    (h : runs (step codec cfg) (.new initial p) es = some (d, os)) : Tracks cfg d :=
  runs_invariant_along (fun _ _ _ _ htracks hsteady hstep => htracks.next hsteady hstep)
    (tracks_new hhash hfingerprint) hsteady h

/-! ## After a poll without drift -/

/-- An export in hand is of the current state. -/
def HandsCurrent (cfg : WorkerConfig) (p : PlaneState) : Reconciler → Prop
  | .waiting _ snapshot | .calling _ snapshot | .backoff _ snapshot => ExportOf cfg p snapshot
  | .starting | .idle | .polling _ | .fetching _ | .stopped => True

/-- The worker has the current hash, and so has an export it has in hand. -/
structure Current (cfg : WorkerConfig) (d : Deployment) : Prop where
  epoch : d.worker.state.epoch = d.plane.epoch
  hash : d.worker.state.bundleConfigHash = d.plane.hash
  hands : HandsCurrent cfg d.plane d.worker.reconciler

/-- A poll without drift finds a worker with the epoch and the fingerprint of the control plane,
and one of the two tells that its hash is the current one. -/
theorem Tracks.current_of_inSync (h : Tracks cfg d) {remote : EpochSnapshot}
    (hvisible : d.PollsVisibly cfg (.epochReply (some remote)))
    (hrec : d.worker.reconciler = .polling localEpoch)
    (hdrift : driftReason localEpoch ⟨d.plane.epoch, d.plane.fingerprint⟩
      d.worker.lastBundleConfigHashesHash (fullExportDue cfg d.worker) = none)
    (hw : w = { d.worker with reconciler := .idle }) : Current cfg { d with worker := w } := by
  have hlocal := h.reconciler
  rw [hrec] at hlocal
  rw [PollsVisibly, hrec] at hvisible
  obtain ⟨hunmoved, hunexported⟩ := hvisible
  have hfingerprint := (h.published d.plane mem_cons_self).2
  unfold driftReason at hdrift
  split_ifs at hdrift with hahead hbehind hother hdue
  -- what the poll compared, without the snapshot around it
  have hplane : d.plane.epoch = localEpoch := le_antisymm (not_lt.mp hahead) (not_lt.mp hbehind)
  have hsame : d.plane.fingerprint = d.worker.lastBundleConfigHashesHash :=
    not_not.mp fun hne => hother ⟨hfingerprint, hne⟩
  have hepoch : d.worker.state.epoch = d.plane.epoch := by
    have hle : localEpoch ≤ d.worker.state.epoch := hlocal
    omega
  subst hw
  refine ⟨hepoch, ?_, trivial⟩
  by_cases hexported : d.worker.lastSuccessfulExport = none
  · have hone := (hunexported hexported).resolve_left fun hne => hne hsame.symm
    split_ifs at hone with hzero
    · obtain ⟨_, hsome⟩ := Option.isSome_iff_exists.mp hone
      exact absurd ⟨hzero, by simp [fullExportDue, hsome, hexported]⟩ hdue
    · have hsynced := h.state.resolve_right fun hunset => hzero (hepoch ▸ hunset.1)
      obtain ⟨p, hp, hp', hhash⟩ := hsynced.1
      rcases mem_cons.mp hp with rfl | hp
      · exact hhash
      · exact hhash.trans (hone p hp (hp'.symm.trans hepoch))
  · have hsynced := h.state.resolve_right fun hunset => hexported hunset.2
    by_cases hold : d.plane.fingerprint ∈ d.past.map PlaneState.fingerprint
    · obtain ⟨p, hp, hp', hhash⟩ := hsynced.1
      exact hhash.trans (h.hash_eq_plane hp (hp'.symm.trans hepoch) hold)
    · exact (hsynced.2 hexported ⟨hsame.symm, hsame ▸ hold⟩).2 hepoch

section

variable (hc : Current cfg d)
include hc

theorem Current.hands_next (hturn : Worker.Turn codec cfg d.worker e w o)
    (hsends : d.Sends cfg e) : HandsCurrent cfg d.plane w.reconciler := by
  have hhands := hc.hands
  cases hturn with
  | fetched => exact hsends
  | exportSent hrec | exportBackedOff hrec | exportRetried hrec =>
    rwa [hrec] at hhands
  | started | polled | inSync | drifted | unpolled | exportFailed | exportStale | exportUnchanged
  | exportStopped | reconciled | overtaken | aborted => trivial
  | _ => exact hhands

theorem Current.of_state (hstate : w.state = d.worker.state)
    (hhands : HandsCurrent cfg d.plane w.reconciler) : Current cfg { d with worker := w } :=
  ⟨(congrArg _ hstate).trans hc.epoch, (congrArg _ hstate).trans hc.hash, hhands⟩

/-- Without a change of the control plane the worker stays in sync. -/
theorem Current.worker_next (h : Tracks cfg d) (hturn : Worker.Turn codec cfg d.worker e w o)
    (hsends : d.Sends cfg e) (horder : d.NotifiesInOrder cfg e) :
    Current cfg { d with worker := w } := by
  have hhands := hc.hands_next hturn hsends
  have hplane := (h.published d.plane mem_cons_self).1
  cases hturn with
  | bumped hsub _ hkind =>
    rw [NotifiesInOrder, hsub] at horder
    have hepoch := hc.epoch
    refine hc.of_state (if_neg (not_lt.mpr ?_)) hhands
    rcases horder hkind with hle | ⟨hle, -⟩ <;> omega
  | pinged =>
    refine hc.of_state ?_ hhands
    simp [adoptBackendHashIfUnset, hc.hash, hplane]
  | notified hsub _ _ hverified =>
    obtain ⟨p, -, hepoch, hgiven, hstate, hhash⟩ := h.notified_state hsub hverified _
    have hfresh := notStale_iff.mp (h.held.fresh _ (by rw [hsub]; rfl))
    rw [hc.epoch] at hfresh
    rw [NotifiesInOrder, hsub] at horder
    obtain ⟨hn, hzero⟩ := hfresh.resolve_left (not_lt.mpr horder.1)
    refine ⟨?_, ?_, hhands⟩
    · exact hstate.trans (hepoch.trans (hn.trans hzero.symm))
    · exact hhash.trans (hgiven.trans (horder.2 hn hzero))
  | reconciled hrec _ _ hverified hmark =>
    have hexport := hc.hands
    rw [hrec] at hexport
    obtain ⟨hepoch, hhash⟩ := reconciled_state hexport hplane hverified hmark
    exact ⟨hepoch, hhash, hhands⟩
  | _ => exact hc.of_state rfl hhands

/-- A run without a change of the control plane keeps the worker in sync. -/
theorem Current.run (h : Tracks cfg d)
    (hrun : runs (step codec cfg) d es = some (d', os)) (hplane : ∀ ev ∈ es, ev.IsWorker)
    (hsteady : Along (step codec cfg) (Steady cfg) d es) : Current cfg d' := by
  induction es generalizing d os with
  | nil =>
    cases hrun
    exact hc
  | cons ev es ih =>
    obtain ⟨d₁, o₁, o₂, hstep, hrest, -⟩ := runs_cons_eq_some.mp hrun
    have hworker := hplane ev mem_cons_self
    cases ev with
    | change => exact hworker.elim
    | worker =>
      have htracks := h.next hsteady.1 hstep
      obtain ⟨hsends, w, hw, rfl⟩ := turn_of_step hstep
      exact ih (hc.worker_next h (Worker.turn_of_step hw) hsends hsteady.1.1) htracks hrest
        (fun x hx => hplane x (mem_cons_of_mem _ hx)) (hsteady.2 _ _ hstep)

end

theorem Tracks.current_of_poll (h : Tracks cfg d) {remote : EpochSnapshot}
    (hvisible : d.PollsVisibly cfg (.epochReply (some remote)))
    (hpoll : step codec cfg d (.worker (.epochReply (some remote))) = some (d', o))
    (hinSync : .inSync localEpoch remote ∈ o) : Current cfg d' := by
  obtain ⟨hsends, w, hw, rfl⟩ := turn_of_step hpoll
  have hremote : remote = ⟨d.plane.epoch, d.plane.fingerprint⟩ := hsends
  cases Worker.turn_of_step hw with
  | inSync hrec hdrift => exact h.current_of_inSync hvisible hrec (hremote ▸ hdrift) rfl
  | drifted | failed | gaveUp | retried | exportFailed | exportBackedOff | exportRetried
  | exportStopped => simp at hinSync

/-- **A poll that finds no drift.**  In a steady run against a control plane that publishes a hash
and a fingerprint, if a poll finds no drift and the control plane does not change from then on,
the worker has the hash the control plane publishes. -/
theorem in_sync_poll {initial : String} {remote : EpochSnapshot} {localEpoch : ℕ}
    {es es' : List DeploymentEvent} {os os' : List WorkerOutput} {d₁ d₂ : Deployment}
    (hhash : p.hash ≠ "") (hfingerprint : p.fingerprint ≠ "")
    (hrun : runs (step codec cfg) (.new initial p) es = some (d, os))
    (hpoll : step codec cfg d (.worker (.epochReply (some remote))) = some (d₁, o))
    (hinSync : .inSync localEpoch remote ∈ o)
    (hrest : runs (step codec cfg) d₁ es' = some (d₂, os')) (hplane : ∀ ev ∈ es', ev.IsWorker)
    (hsteady : Along (step codec cfg) (Steady cfg) (.new initial p)
      (es ++ .worker (.epochReply (some remote)) :: es')) :
    d₂.worker.state.bundleConfigHash = d₂.plane.hash := by
  obtain ⟨hbefore, hafter⟩ := along_append hsteady hrun
  have htracks := tracks_run hhash hfingerprint hbefore hrun
  have hcurrent := htracks.current_of_poll hafter.1.2 hpoll hinSync
  exact (hcurrent.run (htracks.next hafter.1 hpoll) hrest hplane (hafter.2 _ _ hpoll)).hash

/-! ## A delta, a hash replaced at its epoch, and an epoch taken back -/

namespace OneChange

open Worker.OneDelta (plainCodec defaultWorker delta)

def first : PlaneState := ⟨1, "f1", "h1"⟩

def second : PlaneState := ⟨2, "f2", "h2"⟩

def replaced : PlaneState := ⟨2, "f3", "h3"⟩

def rewound : PlaneState := ⟨1, "f4", "h4"⟩

def exportOf (p : PlaneState) : ExportSnapshot where
  epoch := p.epoch
  bundleConfigHashes := [("default", p.hash)]
  bundlePoolConfigHashes := []
  bundleAdapters := []
  models := [⟨"m", some "sie_id: m", none, ["default"], none⟩]

def applied (p : PlaneState) : ReplaceModelConfigsResponse := ⟨⟨true, p.hash, []⟩, ["m"], []⟩

/-- A poll that asks for the export of the state, and the export. -/
def reconciles (p : PlaneState) : List DeploymentEvent :=
  [.worker .tick, .worker (.epochReply (some ⟨p.epoch, p.fingerprint⟩)),
    .worker (.exportReply (some (exportOf p))), .worker .reconcilerLock,
    .worker (.replaceReplies [.ok (applied p)])]

/-- The startup export, a change with its delta, and three exports: for a new fingerprint, for a
hash replaced at its epoch, and for an epoch taken back. -/
def before : List DeploymentEvent :=
  [.worker (.startupEpoch (some ⟨1, "f1"⟩)), .worker (.exportReply (some (exportOf first))),
    .worker .reconcilerLock, .worker (.replaceReplies [.ok (applied first)]),
    .change second, .worker (.notify { delta with epoch := 2, bundleConfigHash := "h2" }),
    .worker .subscriberLock, .worker (.applyReplies [.ok ⟨true, "h2", []⟩])] ++
  reconciles second ++ .change replaced :: reconciles replaced ++
  .change rewound :: reconciles rewound ++ [.worker .tick]

def later : List DeploymentEvent :=
  [.worker (.ping "p"), .worker (.notify { delta with epoch := 1, bundleConfigHash := "h1" })]

theorem before_goes :
    (runs (step plainCodec defaultWorker) (.new "h0" first) before).isSome = true := by
  decide +kernel

def polled : Deployment := (reached (step plainCodec defaultWorker) (.new "h0" first) before
  before_goes).1

theorem later_goes :
    (runs (step plainCodec defaultWorker) polled
      (.worker (.epochReply (some ⟨1, "f4"⟩)) :: later)).isSome = true := by
  decide +kernel

def ended : Deployment := (reached (step plainCodec defaultWorker) polled
  (.worker (.epochReply (some ⟨1, "f4"⟩)) :: later) later_goes).1

theorem in_sync_poll_later : ended.worker.state.bundleConfigHash = ended.plane.hash := by
  obtain ⟨d₁, o, os, hpoll, hrest, -⟩ := runs_cons_eq_some.mp (runs_eq_reached later_goes)
  have hinSync : (step plainCodec defaultWorker polled
      (.worker (.epochReply (some ⟨1, "f4"⟩)))).map Prod.snd = some [.inSync 1 ⟨1, "f4"⟩] := by
    decide +kernel
  rw [hpoll, Option.map_some, Option.some.injEq] at hinSync
  exact in_sync_poll (by decide) (by decide) (runs_eq_reached before_goes) hpoll
    (hinSync ▸ mem_singleton_self _) hrest (by simp [later, DeploymentEvent.IsWorker])
    (by decide +kernel)

end OneChange

/-! ## Runs that are not steady -/

namespace Unsteady

open Worker.OneDelta (plainCodec defaultWorker delta)
open OneChange (first)

/-- The startup export fails, and a notification without a config raises the epoch. -/
def bumpEvents : List WorkerEvent :=
  [.startupEpoch (some ⟨1, "f1"⟩), .exportReply none,
    .notify { delta with epoch := 1, modelConfig := "" }, .subscriberLock, .tick,
    .epochReply (some ⟨1, "f1"⟩)]

/-- The startup export fails, and the control plane is at epoch 0. -/
def startupEvents : List WorkerEvent :=
  [.startupEpoch (some ⟨0, "f0"⟩), .exportReply none, .tick, .epochReply (some ⟨0, "f0"⟩)]

/-- Both runs end with a poll that finds no drift and a worker that has only its initial hash. -/
theorem polls_not_in_sync :
    (runs (step plainCodec { defaultWorker with fullExportInterval := some 300000 })
        (.new "h0" first) (bumpEvents.map .worker)).map
        (fun r => (r.2.getLast?, r.1.worker.state.bundleConfigHash, r.1.plane)) =
      some (some (.inSync 1 ⟨1, "f1"⟩), "h0", first) ∧
    (runs (step plainCodec defaultWorker) (.new "h0" ⟨0, "f0", "h1"⟩)
        (startupEvents.map .worker)).map
        (fun r => (r.2.getLast?, r.1.worker.state.bundleConfigHash, r.1.plane)) =
      some (some (.inSync 0 ⟨0, "f0"⟩), "h0", ⟨0, "f0", "h1"⟩) := by
  decide +kernel

end Unsteady

end Deployment

end Sie.Sidecar
