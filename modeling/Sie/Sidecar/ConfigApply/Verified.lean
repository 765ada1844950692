import Sie.Sidecar.ConfigApply.Turn

/-!
# The worker advertises only verified config

Four things happen to the state a worker advertises: nothing, the adoption of a `Ping` hash where
there is none, a raised epoch, and a commit (`Worker.Change`).  A commit takes hash and models
from one reply of the pool, checked against the hash the control plane gave, with the barrier
held.
-/

namespace Sie.Sidecar

variable {α : Type} {a b : ApplyModelConfigResponse} {merge : α → α → α}
  {replies : List (Except IpcError α)}

open Sie.Lib Sie.Wire List ConfigApplyState

/-! ## Replies of the pool -/

theorem fanOut_eq_ok {r : α} (h : fanOut merge replies = some (.ok r)) :
    ∃ a as, replies = (a :: as).map .ok ∧ r = as.foldl merge a := by
  have hok : ∀ l : List (Except IpcError α), l.filterMap childError = [] →
      l = (l.filterMap childReply).map .ok := by
    intro l hl
    induction l with
    | nil => rfl
    | cons x l ih =>
      cases x with
      | error => simp [childError] at hl
      | ok =>
        have htail : l.filterMap childError = [] := by simpa [childError] using hl
        simpa [childReply] using ih htail
  unfold fanOut at h
  split at h
  next => cases h
  next hnone =>
    have hreplies := hok replies (getLast?_eq_none_iff.mp hnone)
    split at h <;> cases h
    next a as heq => exact ⟨a, as, by rw [hreplies, heq], rfl⟩

/-- The child applied the config, and reported the hash of the whole or none. -/
def Agrees (child whole : ApplyModelConfigResponse) : Prop :=
  child.applied = true ∧
    (child.bundleConfigHash = "" ∨ child.bundleConfigHash = whole.bundleConfigHash)

theorem Agrees.trans {c : ApplyModelConfigResponse} (hab : Agrees a b) (hbc : Agrees b c) :
    Agrees a c := by
  refine ⟨hab.1, ?_⟩
  rcases hab.2 with h | h
  · exact .inl h
  · rw [h]
    exact hbc.2

theorem mergeBundleHash_applied {applied : Bool} {existing next : String}
    (h : (mergeBundleHash applied existing next).1 = true) :
    applied = true ∧ (existing = "" ∨ existing = (mergeBundleHash applied existing next).2) ∧
      (next = "" ∨ next = (mergeBundleHash applied existing next).2) := by
  unfold mergeBundleHash at h ⊢
  split_ifs at h ⊢ with hempty hother
  · exact ⟨h, .inl hempty, .inr rfl⟩
  refine ⟨h, .inr rfl, ?_⟩
  by_cases hnext : next = ""
  · exact .inl hnext
  · exact .inr (not_not.mp fun hne => hother ⟨hnext, Ne.symm hne⟩)

theorem mergeApplyModelConfigResponse_agrees
    (h : (mergeApplyModelConfigResponse a b).applied = true) :
    Agrees a (mergeApplyModelConfigResponse a b) ∧
      Agrees b (mergeApplyModelConfigResponse a b) := by
  obtain ⟨happlied, ha, hb⟩ := mergeBundleHash_applied h
  rw [Bool.and_eq_true] at happlied
  exact ⟨⟨happlied.1, ha⟩, ⟨happlied.2, hb⟩⟩

theorem mergeReplaceModelConfigsResponse_agrees {a b : ReplaceModelConfigsResponse}
    (h : (mergeReplaceModelConfigsResponse a b).applied = true) :
    Agrees a.toApplyModelConfigResponse
        (mergeReplaceModelConfigsResponse a b).toApplyModelConfigResponse ∧
      Agrees b.toApplyModelConfigResponse
        (mergeReplaceModelConfigsResponse a b).toApplyModelConfigResponse := by
  simp only [mergeReplaceModelConfigsResponse, Bool.and_eq_true] at h
  exact mergeApplyModelConfigResponse_agrees h.1.1

section

variable (reply : α → ApplyModelConfigResponse)
  (hmerge : ∀ a b, (reply (merge a b)).applied = true →
    Agrees (reply a) (reply (merge a b)) ∧ Agrees (reply b) (reply (merge a b)))
include hmerge

/-- Where merging keeps agreement, every reply agrees with the merged one. -/
theorem foldl_agrees (as : List α) (a : α) (h : (reply (as.foldl merge a)).applied = true) :
    ∀ x ∈ a :: as, Agrees (reply x) (reply (as.foldl merge a)) := by
  induction as generalizing a with
  | nil =>
    intro x hx
    rw [mem_singleton] at hx
    subst hx
    exact ⟨h, .inr rfl⟩
  | cons b as ih =>
    have hfold := ih (merge a b) h
    have hmerged := hfold (merge a b) mem_cons_self
    obtain ⟨ha, hb⟩ := hmerge a b hmerged.1
    intro x hx
    rcases mem_cons.mp hx with rfl | hx
    · exact ha.trans hmerged
    · rcases mem_cons.mp hx with rfl | hx
      · exact hb.trans hmerged
      · exact hfold x (mem_cons_of_mem _ hx)

/-- A reply of the pool that is applied is one of every child. -/
theorem fanOut_agrees
    {r : α} (h : fanOut merge replies = some (.ok r)) (happlied : (reply r).applied = true) :
    ∀ x ∈ replies, ∃ a, x = .ok a ∧ Agrees (reply a) (reply r) := by
  obtain ⟨a, as, rfl, rfl⟩ := fanOut_eq_ok h
  intro x hx
  obtain ⟨y, hy, rfl⟩ := mem_map.mp hx
  exact ⟨y, rfl, foldl_agrees reply hmerge as a happlied y hy⟩

end

theorem verifiedAppliedBundleHash_eq_some {cp : Option String} {reply hash : String}
    (h : verifiedAppliedBundleHash cp reply = some hash) :
    hash = reply ∧ ∀ given, cp = some given → given ≠ "" → reply = given := by
  unfold verifiedAppliedBundleHash at h
  split at h
  next given hcp =>
    obtain ⟨hgiven, -⟩ := Option.filter_eq_some_iff.mp hcp
    split_ifs at h with heq
    cases h
    refine ⟨heq, ?_⟩
    intro _ hother _
    exact heq.symm.trans (Option.some.inj (hgiven.symm.trans hother))
  next hnone =>
    cases h
    refine ⟨rfl, ?_⟩
    intro given hcp hne
    subst hcp
    simp [hne] at hnone

/-! ## Writing the state -/

namespace ConfigApplyState

variable {st : ConfigApplyState} {epoch : ℕ} {hash : String} {models : List String}

theorem notStale_iff :
    notificationIsStale epoch st.epoch = false ↔ st.epoch < epoch ∨ (epoch = 0 ∧ st.epoch = 0) := by
  simp [notificationIsStale]
  omega

theorem markApplied_of_fresh (hfresh : notificationIsStale epoch st.epoch = false) :
    st.markApplied epoch hash models = ⟨epoch, hash, normalizedModels models⟩ := by
  unfold markApplied
  rcases notStale_iff.mp hfresh with hlt | ⟨rfl, hst⟩
  · rw [if_neg (by omega), if_pos hlt]
    rfl
  · rw [if_pos rfl, ← hst]
    rfl

theorem setEpochMax_epoch (st : ConfigApplyState) (epoch : ℕ) :
    (st.setEpochMax epoch).epoch = max st.epoch epoch := by
  unfold setEpochMax
  split_ifs with h
  · exact (max_eq_right (le_of_lt h)).symm
  · exact (max_eq_left (not_lt.mp h)).symm

theorem markExportReconciled_eq_some {force : Bool} {st' : ConfigApplyState}
    (h : st.markExportReconciled epoch hash models force = some st') :
    st' = ⟨epoch, hash, normalizedModels models⟩ ∧ (force = true ∨ st.epoch ≤ epoch) := by
  unfold markExportReconciled at h
  split_ifs at h with hforce hlt
  · cases h
    exact ⟨rfl, .inl hforce⟩
  cases h
  have hle : st.epoch ≤ epoch := not_lt.mp hlt
  refine ⟨?_, .inr hle⟩
  simp [setAppliedView, setEpochMax_epoch, max_eq_right hle]

theorem markExportReconciled_ne_none {force : Bool} (h : force = true ∨ st.epoch ≤ epoch) :
    st.markExportReconciled epoch hash models force ≠ none := by
  unfold markExportReconciled
  rcases h with rfl | hle
  · simp
  · rw [if_neg (not_lt.mpr hle)]
    split_ifs <;> simp

end ConfigApplyState

/-! ## How a step changes the state -/

def WorkerOutput.IsCommit : WorkerOutput → Prop
  | .commit _ _ => True
  | _ => False

/-- The output says that a notification or an export was not applied. -/
def WorkerOutput.Fails : WorkerOutput → Prop
  | .delta _ r => r.Fails
  | .reconcile r => r.Fails
  | _ => False

/-- The reply of the pool an event brings. -/
def WorkerEvent.poolReply : WorkerEvent → Option ApplyModelConfigResponse
  | .applyReplies replies =>
    match fanOut mergeApplyModelConfigResponse replies with
    | some (.ok resp) => some resp
    | _ => none
  | .replaceReplies replies =>
    match fanOut mergeReplaceModelConfigsResponse replies with
    | some (.ok resp) => some resp.toApplyModelConfigResponse
    | _ => none
  | _ => none

/-- The replies of the children an event brings. -/
def WorkerEvent.childReplies : WorkerEvent → List (Except IpcError ApplyModelConfigResponse)
  | .applyReplies replies => replies
  | .replaceReplies replies => replies.map fun r => r.map (·.toApplyModelConfigResponse)
  | _ => []

namespace Worker

variable {codec : ConfigCodec} {cfg : WorkerConfig} {s t : Worker} {e : WorkerEvent}
  {o : List WorkerOutput} {initial : String} {st : ConfigApplyState} {es : List WorkerEvent}
  {os : List WorkerOutput}

/-- The hash the control plane gave, for this bundle and pool, with what is being applied. -/
def Given (cfg : WorkerConfig) (s : Worker) (cp : Option String) : Prop :=
  (∃ n, s.subscriber = .calling n ∧ cp = some (n.bundleHashForPool cfg.pool)) ∨
    ∃ job snapshot, s.reconciler = .calling job snapshot ∧ cp = snapshot.controlPlaneHash cfg

/-- A successfully applied export that takes the epoch back. -/
def Rewinds (s : Worker) (epoch : ℕ) : Prop :=
  ∃ job snapshot, s.reconciler = .calling job snapshot ∧ job.forceEpoch = true ∧
    epoch = snapshot.epoch

/-- What a reply has to be for its config to be committed. -/
structure Verifies (cfg : WorkerConfig) (s : Worker) (e : WorkerEvent) (cp : Option String)
    (reply : ApplyModelConfigResponse) : Prop where
  pool : e.poolReply = some reply
  applied : reply.applied = true
  children : ∀ r ∈ e.childReplies, ∃ a, r = .ok a ∧ Agrees a reply
  given : s.Given cfg cp
  hash : ∀ h, cp = some h → h ≠ "" → reply.bundleConfigHash = h
  unshared : s.executions = 0

/-- The ways the advertised state changes. -/
inductive Change (cfg : WorkerConfig) (s : Worker) :
    WorkerEvent → ConfigApplyState → List WorkerOutput → Prop
  | kept {e : WorkerEvent} {o : List WorkerOutput} (h : ∀ out ∈ o, ¬ out.IsCommit) :
      Change cfg s e s.state o
  | adopted {hash : String} (hunset : s.state.bundleConfigHash = "") :
      Change cfg s (.ping hash) { s.state with bundleConfigHash := hash } []
  | bumped {e : WorkerEvent} {epoch : ℕ} (hlt : s.state.epoch < epoch) :
      Change cfg s e { s.state with epoch := epoch } [.delta .epochBump (.applied epoch)]
  | committed {e : WorkerEvent} {cp : Option String} {reply : ApplyModelConfigResponse}
      {epoch : ℕ} {result : WorkerOutput} (hverifies : Verifies cfg s e cp reply)
      (hepoch : s.state.epoch ≤ epoch ∨ Rewinds s epoch)
      (hresult : ¬ result.Fails ∧ ¬ result.IsCommit) :
      Change cfg s e ⟨epoch, reply.bundleConfigHash, normalizedModels reply.unsupportedModels⟩
        [.commit cp reply, result]

theorem Change.of_delta (k : NotificationKind) (r : DeltaResult) :
    Change cfg s e s.state [.delta k r] := .kept (by simp [WorkerOutput.IsCommit])

theorem Change.silent : Change cfg s e s.state [] := .kept (by simp)

/-- A raised epoch is a change of the epoch alone. -/
theorem change_of_bumped {n : ConfigNotification}
    (hfresh : notificationIsStale n.epoch s.state.epoch = false) :
    Change cfg s e (s.state.setEpochMax n.epoch) [.delta .epochBump (.applied n.epoch)] := by
  rcases notStale_iff.mp hfresh with hlt | ⟨_, _⟩
  · rw [setEpochMax, if_pos hlt]
    exact .bumped hlt
  · rw [setEpochMax, if_neg (by omega)]
    exact .of_delta _ _

theorem change_of_adopted (hash : String) :
    Change cfg s (.ping hash) (s.state.adoptBackendHashIfUnset hash) [] := by
  unfold adoptBackendHashIfUnset
  split_ifs with hempty hset
  · exact .silent
  · exact .silent
  · exact .adopted (not_not.mp hset)

/-- A turn changes the advertised state in one of the four ways. -/
theorem change_of_turn (hheld : Held s) (hturn : Turn codec cfg s e t o) :
    Change cfg s e t.state o := by
  cases hturn with
  | bumped _ _ _ hfresh => exact change_of_bumped hfresh
  | pinged => exact change_of_adopted _
  | @notified n _ _ _ hsub hreply happlied hverified =>
    have hn : s.subscriber.held = some n := by rw [hsub]; rfl
    have hfresh := hheld.fresh n hn
    obtain ⟨rfl, hhash⟩ := verifiedAppliedBundleHash_eq_some hverified
    rw [markApplied_of_fresh hfresh]
    refine .committed ⟨by simp [WorkerEvent.poolReply, hreply], happlied,
      fanOut_agrees id (fun a b => mergeApplyModelConfigResponse_agrees) hreply happlied,
      .inl ⟨n, hsub, rfl⟩, hhash, hheld.unshared (.inl (by simp [hn]))⟩ (.inl ?_)
      ⟨not_false, not_false⟩
    rcases notStale_iff.mp hfresh with _ | ⟨-, _⟩ <;> omega
  | @reconciled job snapshot _ _ _ _ _ hrec hreply happlied hverified hmark hr =>
    have hjob : s.reconciler.held = some (job, snapshot) := by rw [hrec]; rfl
    obtain ⟨rfl, hhash⟩ := verifiedAppliedBundleHash_eq_some hverified
    obtain ⟨rfl, hepoch⟩ := markExportReconciled_eq_some hmark
    refine .committed ⟨by simp [WorkerEvent.poolReply, hreply], happlied, ?_,
      .inr ⟨job, snapshot, hrec, rfl⟩, hhash, hheld.unshared (.inr (by simp [hjob]))⟩ ?_
      ⟨hr, not_false⟩
    · have hagrees := fanOut_agrees (·.toApplyModelConfigResponse)
        (fun a b => mergeReplaceModelConfigsResponse_agrees) hreply happlied
      intro x hx
      obtain ⟨y, hy, rfl⟩ := mem_map.mp hx
      obtain ⟨a, rfl, ha⟩ := hagrees y hy
      exact ⟨a.toApplyModelConfigResponse, rfl, ha⟩
    · exact hepoch.elim (fun hforce => .inr ⟨job, snapshot, hrec, hforce, rfl⟩) .inl
  | dropped | gaveUp => exact .of_delta _ _
  | sent | retried | exportSent | exportRetried | inSync | unpolled | exportFailed | exportStale
  | exportUnchanged | exportStopped | overtaken => exact .kept (by simp [WorkerOutput.IsCommit])
  | noticed | failed | started | polled | drifted | fetched | exportBackedOff | locked
  | unlocked | slept | shutDown | aborted => exact .silent

/-! ## Runs -/

/-- What the outputs of a run say was committed last. -/
def committedPair (initial : String) (os : List WorkerOutput) : String × List String :=
  os.foldl (fun pair out =>
    match out with
    | .commit _ reply => (reply.bundleConfigHash, normalizedModels reply.unsupportedModels)
    | _ => pair) (initial, [])

theorem committedPair_append_of_kept (os : List WorkerOutput) (h : ∀ out ∈ o, ¬ out.IsCommit) :
    committedPair initial (os ++ o) = committedPair initial os := by
  induction o generalizing os with
  | nil => rw [append_nil]
  | cons out o ih =>
    rw [append_cons, ih _ fun x hx => h x (mem_cons_of_mem _ hx)]
    have hout := h out mem_cons_self
    rw [committedPair, foldl_append]
    cases out <;> first | rfl | exact absurd trivial hout

theorem committedPair_append_commit (initial : String) (os : List WorkerOutput) (cp : Option String)
    (reply : ApplyModelConfigResponse) {result : WorkerOutput} (h : ¬ result.IsCommit) :
    committedPair initial (os ++ [.commit cp reply, result]) =
      (reply.bundleConfigHash, normalizedModels reply.unsupportedModels) := by
  rw [show os ++ [.commit cp reply, result] = (os ++ [.commit cp reply]) ++ [result] by simp,
    committedPair_append_of_kept _ (by simpa using h), committedPair, foldl_append]
  rfl

/-- The advertised state is the committed one, up to a `Ping` hash in place of an empty one. -/
structure Advertises (initial : String) (es : List WorkerEvent) (os : List WorkerOutput)
    (st : ConfigApplyState) : Prop where
  models : st.unsupportedModels = (committedPair initial os).2
  hash : st.bundleConfigHash = (committedPair initial os).1 ∨
    ((committedPair initial os).1 = "" ∧ .ping st.bundleConfigHash ∈ es)

/-- A step without a commit that leaves hash and models keeps what is advertised. -/
theorem Advertises.kept (h : Advertises initial es os s.state) (hkept : ∀ out ∈ o, ¬ out.IsCommit)
    (hhash : st.bundleConfigHash = s.state.bundleConfigHash)
    (hmodels : st.unsupportedModels = s.state.unsupportedModels) :
    Advertises initial (es ++ [e]) (os ++ o) st where
  models := by rw [committedPair_append_of_kept os hkept, hmodels, h.models]
  hash := by
    rw [committedPair_append_of_kept os hkept, hhash]
    exact h.hash.imp_right (.imp_right (mem_append_left _))

theorem Advertises.next (h : Advertises initial es os s.state) (hchange : Change cfg s e st o) :
    Advertises initial (es ++ [e]) (os ++ o) st := by
  cases hchange with
  | kept hkept => exact h.kept hkept rfl rfl
  | bumped => exact h.kept (by simp [WorkerOutput.IsCommit]) rfl rfl
  | adopted hunset =>
    rw [append_nil]
    refine ⟨h.models, .inr ⟨?_, mem_append_right _ (.head _)⟩⟩
    exact h.hash.elim (fun heq => heq.symm.trans hunset) And.left
  | @committed _ cp reply _ _ _ _ hresult =>
    have hpair := committedPair_append_commit initial os cp reply hresult.2
    exact ⟨by rw [hpair], .inl (by rw [hpair])⟩

/-- What a step may do to the advertised state. -/
structure Discipline (cfg : WorkerConfig) (s : Worker) (e : WorkerEvent) (st : ConfigApplyState)
    (o : List WorkerOutput) : Prop where
  /-- A commit is one verified reply, written as a whole. -/
  commit : ∀ cp reply, .commit cp reply ∈ o →
    Verifies cfg s e cp reply ∧ st.bundleConfigHash = reply.bundleConfigHash ∧
      st.unsupportedModels = normalizedModels reply.unsupportedModels
  /-- Without a commit the models stay; the hash stays too, or a `Ping` hash takes the place of an
  empty one; and the epoch stays or a notification without a config raises it. -/
  kept : (∀ out ∈ o, ¬ out.IsCommit) →
    st.unsupportedModels = s.state.unsupportedModels ∧
      (st.bundleConfigHash = s.state.bundleConfigHash ∨
        (s.state.bundleConfigHash = "" ∧ e = .ping st.bundleConfigHash)) ∧
      (st.epoch = s.state.epoch ∨
        (s.state.epoch < st.epoch ∧ .delta .epochBump (.applied st.epoch) ∈ o))
  /-- Where a result says that nothing was applied, nothing changes. -/
  failed : (∃ out ∈ o, out.Fails) → st = s.state
  /-- The epoch goes back only with a committed export that forces it. -/
  rewind : st.epoch < s.state.epoch → s.Rewinds st.epoch ∧ ∃ out ∈ o, out.IsCommit

theorem Change.discipline (h : Change cfg s e st o) : Discipline cfg s e st o := by
  cases h with
  | kept hkept =>
    exact ⟨fun cp reply hmem => absurd trivial (hkept _ hmem), fun _ => ⟨rfl, .inl rfl, .inl rfl⟩,
      fun _ => rfl, fun hlt => absurd hlt (lt_irrefl _)⟩
  | adopted hunset =>
    exact ⟨by simp, fun _ => ⟨rfl, .inr ⟨hunset, rfl⟩, .inl rfl⟩, by simp,
      fun hlt => absurd hlt (lt_irrefl _)⟩
  | bumped hlt =>
    exact ⟨by simp, fun _ => ⟨rfl, .inl rfl, .inr ⟨hlt, mem_singleton_self _⟩⟩,
      by simp [WorkerOutput.Fails, DeltaResult.Fails], fun h => absurd h (not_lt.mpr hlt.le)⟩
  | @committed _ cp reply _ result hverifies hepoch hresult =>
    have hmem : .commit cp reply ∈ [.commit cp reply, result] := mem_cons_self ..
    refine ⟨?_, fun hkept => absurd trivial (hkept _ hmem), ?_, ?_⟩
    · intro _ _ hcommit
      rcases mem_cons.mp hcommit with heq | heq
      · cases heq
        exact ⟨hverifies, rfl, rfl⟩
      · rw [mem_singleton] at heq
        subst heq
        exact absurd trivial hresult.2
    · rintro ⟨_, hout, hfails⟩
      rcases mem_cons.mp hout with rfl | hout
      · exact hfails.elim
      · rw [mem_singleton] at hout
        subst hout
        exact absurd hfails hresult.1
    · intro hlt
      exact ⟨hepoch.resolve_left (not_le.mpr hlt), _, hmem, trivial⟩

/-- **The worker advertises only verified config.**  After any run, hash and models are those of
the last committed reply, or the hash is a `Ping` hash where that reply's is empty; and the next
step keeps the discipline. -/
theorem advertised_config_verified {initial : String} {reconciles : Bool}
    {es : List WorkerEvent} {os : List WorkerOutput}
    (h : runs (step codec cfg) (.new initial reconciles) es = some (s, os)) :
    Advertises initial es os s.state ∧
      ∀ e t o, step codec cfg s e = some (t, o) → Discipline cfg s e t.state o := by
  have hchange : ∀ (s : Worker) (es : List WorkerEvent) (os : List WorkerOutput),
      runs (step codec cfg) (.new initial reconciles) es = some (s, os) →
      ∀ e t o, step codec cfg s e = some (t, o) → Change cfg s e t.state o :=
    fun s es os hrun e t o hstep => change_of_turn (held_run hrun) (turn_of_step hstep)
  refine ⟨?_, fun e t o hstep => (hchange s es os h e t o hstep).discipline⟩
  refine runs_induction (fun es os s => Advertises initial es os s.state) ⟨rfl, .inl rfl⟩ ?_ es os
    s h
  intro es os s e t o hrun hadvertises hstep
  exact hadvertises.next (hchange s es os hrun e t o hstep)

/-! ## A delta, applied by two children -/

namespace OneDelta

/-- The codec is not asked: no export is applied. -/
def plainCodec : ConfigCodec := ⟨fun _ => "", fun _ => ⟨replicate 32 0, rfl⟩⟩

def defaultWorker : WorkerConfig := ⟨"default", "default", ["sie-config"], none⟩

def delta : ConfigNotification where
  producerId := "sie-config-0"
  bundleId := "default"
  epoch := 3
  bundleConfigHash := "h3"
  bundlePoolConfigHashes := []
  modelId := "m"
  profilesAdded := ["big"]
  modelConfig := "sie_id: m"
  pool := none
  bundleAdapters := []

def events : List WorkerEvent :=
  [.lockExecution, .notify delta, .ping "p", .unlockExecution, .subscriberLock,
    .applyReplies [.error .timeout, .ok ⟨true, "h3", []⟩], .subscriberRetry,
    .applyReplies [.ok ⟨true, "h3", ["m:big"]⟩, .ok ⟨true, "", []⟩], .lockExecution]

theorem events_go : (runs (step plainCodec defaultWorker) (.new "" false) events).isSome =
    true := by
  decide +kernel

def after : Worker × List WorkerOutput :=
  reached (step plainCodec defaultWorker) (.new "" false) events events_go

/-- The pair is the reply's after the run; an older delta then changes nothing. -/
theorem advertised_config_verified_events :
    after.1.state = ⟨3, "h3", ["m:big"]⟩ ∧ Advertises "" events after.2 after.1.state ∧
      Discipline defaultWorker after.1 (.notify { delta with epoch := 2 }) after.1.state
        [.delta .modelConfig .stale] := by
  obtain ⟨hadvertises, hstep⟩ := advertised_config_verified (runs_eq_reached events_go)
  have hstale : step plainCodec defaultWorker after.1 (.notify { delta with epoch := 2 }) =
      some (after.1, [.delta .modelConfig .stale]) := by decide +kernel
  exact ⟨by decide +kernel, hadvertises, hstep _ _ _ hstale⟩

end OneDelta

end Worker

end Sie.Sidecar
