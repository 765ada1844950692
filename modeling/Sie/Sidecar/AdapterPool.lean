import Mathlib.Data.List.AList
import Sie.Sidecar.ConfigApply.Verified

/-!
# The pool of adapter processes

The sidecar's `backend/adapter_pool.rs`, as far as config and readiness go.  A config change is
sent to one child after the other; the pool is quarantined from the start of such a fan-out, and
only the latest one may lift the quarantine, by its generation number.  Fan-outs overlap, end in
any order, or are dropped; Pings, probes and work calls answer in between and try to mark their
child ready.  One event is what happens between two awaits.
-/

namespace Sie.Sidecar

open Sie.Lib List Function

/-- A fan-out in progress: the replies of the children asked so far. -/
inductive FanOut
  | apply (replies : List (Except IpcError ApplyModelConfigResponse))
  | replace (replies : List (Except IpcError ReplaceModelConfigsResponse))
  deriving DecidableEq

namespace FanOut

/-- What the replies say about the config. -/
def answers : FanOut → List (Except IpcError ApplyModelConfigResponse)
  | .apply replies => replies
  | .replace replies => replies.map fun r => r.map (·.toApplyModelConfigResponse)

/-- The reply of the pool, once every child has been asked. -/
def result : FanOut → Option (Except IpcError ApplyModelConfigResponse)
  | .apply replies => fanOut mergeApplyModelConfigResponse replies
  | .replace replies =>
    (fanOut mergeReplaceModelConfigsResponse replies).map fun r =>
      r.map (·.toApplyModelConfigResponse)

end FanOut

/-- The calls that check the quarantine. -/
inductive WorkCall
  | batch
  | generation
  | readiness
  deriving DecidableEq

structure AdapterPool (n : ℕ) where
  ready : Fin n → Bool
  configQuarantined : Bool
  /-- An `AtomicU64` in the source, which wraps after `2 ^ 64` fan-outs. -/
  configFanoutGeneration : ℕ
  fanOuts : AList fun _ : ℕ => FanOut
  executionAuthorityV1 : Bool
  numericalAdmissionV1 : Bool

/-- `health` is the reply of a Ping, a capability probe, a pinned set or a work call; `pinged` is
the end of a round of Pings, with what all children support. -/
inductive PoolEvent (n : ℕ)
  | beginApply
  | beginReplace
  | applyReply (generation : ℕ) (reply : Except IpcError ApplyModelConfigResponse)
  | replaceReply (generation : ℕ) (reply : Except IpcError ReplaceModelConfigsResponse)
  | drop (generation : ℕ)
  | health (child : Fin n) (ok : Bool)
  | pinged (authority admission : Bool)
  | call (call : WorkCall)

inductive PoolOutput (n : ℕ)
  | began (generation : ℕ)
  | answered (generation : ℕ) (child : Fin n)
      (answer : Except IpcError ApplyModelConfigResponse)
  | ended (generation : ℕ) (applied : Bool)
  | admitted (call : WorkCall)
  | refused (call : WorkCall)
  deriving DecidableEq

namespace AdapterPool

variable {n : ℕ}

def new (n : ℕ) : AdapterPool n := ⟨fun _ => false, false, 0, ∅, false, false⟩

section

variable (s : AdapterPool n)

def markChildReadyFromHealthSuccess (child : Fin n) : AdapterPool n :=
  { s with ready := update s.ready child (!s.configQuarantined) }

def markChildCallFailed (child : Fin n) : AdapterPool n :=
  { s with ready := update s.ready child false }

def beginConfigFanout (f : FanOut) : AdapterPool n :=
  { s with
    configFanoutGeneration := s.configFanoutGeneration + 1
    configQuarantined := true
    ready := fun _ => false
    fanOuts := s.fanOuts.insert (s.configFanoutGeneration + 1) f }

def quarantineConfigFanout (generation : ℕ) : AdapterPool n :=
  if s.configFanoutGeneration = generation then
    { s with configQuarantined := true, ready := fun _ => false }
  else s

def clearConfigQuarantineAfterSuccess (generation : ℕ) : AdapterPool n :=
  if s.configFanoutGeneration = generation then
    { s with configQuarantined := false, ready := fun _ => true }
  else s

/-- A failed child is not ready. -/
def noteAnswer (child : Fin n) :
    Except IpcError ApplyModelConfigResponse → AdapterPool n
  | .ok _ => s
  | .error _ => s.markChildCallFailed child

section

variable (generation : ℕ)

/-- The end of a fan-out: a failed child or one that did not apply keeps the quarantine. -/
def endFanout :
    Except IpcError ApplyModelConfigResponse → AdapterPool n × List (PoolOutput n)
  | .ok resp =>
    if resp.applied = true then
      (s.clearConfigQuarantineAfterSuccess generation, [.ended generation true])
    else (s.quarantineConfigFanout generation, [.ended generation false])
  | .error _ => (s.quarantineConfigFanout generation, [.ended generation false])

/-- The reply of the next child; `f` is the fan-out with that reply. -/
def replyStep (f : FanOut) (asked : ℕ)
    (answer : Except IpcError ApplyModelConfigResponse) :
    Option (AdapterPool n × List (PoolOutput n)) :=
  if h : asked < n then
    let noted := s.noteAnswer ⟨asked, h⟩ answer
    if asked + 1 < n then
      some ({ noted with fanOuts := s.fanOuts.insert generation f },
        [.answered generation ⟨asked, h⟩ answer])
    else
      match f.result with
      | none => none
      | some result =>
        let r := { noted with fanOuts := s.fanOuts.erase generation }.endFanout generation result
        some (r.1, .answered generation ⟨asked, h⟩ answer :: r.2)
  else none

def applyReplyStep (reply : Except IpcError ApplyModelConfigResponse) :
    Option (AdapterPool n × List (PoolOutput n)) :=
  match s.fanOuts.lookup generation with
  | some (.apply replies) =>
    s.replyStep generation (.apply (replies ++ [reply])) replies.length reply
  | _ => none

def replaceReplyStep (reply : Except IpcError ReplaceModelConfigsResponse) :
    Option (AdapterPool n × List (PoolOutput n)) :=
  match s.fanOuts.lookup generation with
  | some (.replace replies) =>
    s.replyStep generation (.replace (replies ++ [reply])) replies.length
      (reply.map (·.toApplyModelConfigResponse))
  | _ => none

end

def step : PoolEvent n → Option (AdapterPool n × List (PoolOutput n))
  | .beginApply =>
    some (s.beginConfigFanout (.apply []), [.began (s.configFanoutGeneration + 1)])
  | .beginReplace =>
    some (s.beginConfigFanout (.replace []), [.began (s.configFanoutGeneration + 1)])
  | .applyReply generation reply => s.applyReplyStep generation reply
  | .replaceReply generation reply => s.replaceReplyStep generation reply
  | .drop generation => some ({ s with fanOuts := s.fanOuts.erase generation }, [])
  | .health child true => some (s.markChildReadyFromHealthSuccess child, [])
  | .health child false => some (s.markChildCallFailed child, [])
  | .pinged authority admission =>
    some ({ s with
      executionAuthorityV1 := !s.configQuarantined && authority
      numericalAdmissionV1 := !s.configQuarantined && admission }, [])
  | .call call =>
    some (s, [if s.configQuarantined = true then .refused call else .admitted call])

end

/-! ## The invariant -/

/-- Every child answered this fan-out that it has applied the config, and the hashes they
reported are one, up to empty ones. -/
def Agreed (os : List (PoolOutput n)) (generation : ℕ) : Prop :=
  ∃ hash, ∀ child, ∃ a, .answered generation child (.ok a) ∈ os ∧ a.applied = true ∧
    (a.bundleConfigHash = "" ∨ a.bundleConfigHash = hash)

/-- The answers a fan-out holds are the ones its children gave. -/
def Answered (os : List (PoolOutput n)) (generation : ℕ)
    (answers : List (Except IpcError ApplyModelConfigResponse)) : Prop :=
  ∀ (child : Fin n) r, answers[child.val]? = some r → .answered generation child r ∈ os

/-- What every run keeps. -/
structure Guarded (os : List (PoolOutput n)) (s : AdapterPool n) : Prop where
  latest : ∀ g, .began g ∈ os ↔ 0 < g ∧ g ≤ s.configFanoutGeneration
  unready : s.configQuarantined = true → ∀ child, s.ready child = false
  answers : ∀ g f, s.fanOuts.lookup g = some f → Answered os g f.answers
  lifted : s.configQuarantined = false → 0 < s.configFanoutGeneration →
    .ended s.configFanoutGeneration true ∈ os ∧ Agreed os s.configFanoutGeneration

variable {os o : List (PoolOutput n)} {s t : AdapterPool n} {e : PoolEvent n} {g : ℕ} {f : FanOut}
  {resp : ApplyModelConfigResponse} {f' : FanOut}
  {answers : List (Except IpcError ApplyModelConfigResponse)}

theorem guarded_new : Guarded [] (new n) where
  latest := by
    simp only [new, not_mem_nil, false_iff]
    omega
  unready := by simp [new]
  answers := by
    intro g f hf
    simp [new] at hf
  lifted := by simp [new]

theorem Agreed.mono (h : Agreed os g) : Agreed (os ++ o) g := by
  obtain ⟨hash, hall⟩ := h
  refine ⟨hash, fun child => ?_⟩
  obtain ⟨a, ha, hrest⟩ := hall child
  exact ⟨a, mem_append_left _ ha, hrest⟩

theorem Answered.mono (h : Answered os g answers) : Answered (os ++ o) g answers :=
  fun child r hr => mem_append_left _ (h child r hr)

/-- One more answer, given by the next child. -/
theorem Answered.concat (answer : Except IpcError ApplyModelConfigResponse)
    (h : Answered os g answers) (hlt : answers.length < n) :
    Answered (os ++ [.answered g ⟨answers.length, hlt⟩ answer]) g (answers ++ [answer]) := by
  intro child r hr
  by_cases hchild : child.val < answers.length
  · rw [getElem?_append_left hchild] at hr
    exact mem_append_left _ (h child r hr)
  have hlast : child.val = answers.length := by
    have hbound : child.val < (answers ++ [answer]).length := by
      rw [getElem?_eq_some_iff] at hr
      exact hr.1
    simp at hbound
    omega
  rw [hlast, getElem?_concat_length, Option.some.injEq] at hr
  subst hr
  have heq : child = ⟨answers.length, hlt⟩ := Fin.ext hlast
  rw [heq]
  exact mem_append_right _ (.head _)

/-- The pool applied only what every child applied. -/
theorem FanOut.agrees_of_result (h : f.result = some (.ok resp)) (happlied : resp.applied = true) :
    ∀ r ∈ f.answers, ∃ a, r = .ok a ∧ Agrees a resp := by
  cases f with
  | apply =>
    exact fanOut_agrees id (fun _ _ => mergeApplyModelConfigResponse_agrees) h happlied
  | replace =>
    rw [FanOut.result, Option.map_eq_some_iff] at h
    obtain ⟨r, hr, hresp⟩ := h
    cases r with
    | error => cases hresp
    | ok =>
      cases hresp
      intro x hx
      obtain ⟨y, hy, rfl⟩ := mem_map.mp hx
      obtain ⟨a, rfl, ha⟩ := fanOut_agrees (·.toApplyModelConfigResponse)
        (fun _ _ => mergeReplaceModelConfigsResponse_agrees) hr happlied y hy
      exact ⟨a.toApplyModelConfigResponse, rfl, ha⟩

theorem agreed_of_result (hanswered : Answered os g f.answers) (hlength : f.answers.length = n)
    (h : f.result = some (.ok resp)) (happlied : resp.applied = true) : Agreed os g := by
  refine ⟨resp.bundleConfigHash, fun child => ?_⟩
  have hlt : child.val < f.answers.length := hlength ▸ child.isLt
  obtain ⟨a, ha, hagrees⟩ := FanOut.agrees_of_result h happlied _ (getElem_mem hlt)
  refine ⟨a, ?_, hagrees.1, hagrees.2⟩
  rw [← ha]
  exact hanswered child _ (getElem?_eq_getElem hlt)

/-! ## Steps -/

section

variable (h : Guarded os s)
include h

/-- A step that starts no fan-out and ends none keeps the invariant, where it marks no child ready
under quarantine. -/
theorem Guarded.keep (hbegan : ∀ g, .began g ∉ o)
    (hgeneration : t.configFanoutGeneration = s.configFanoutGeneration)
    (hquarantined : t.configQuarantined = s.configQuarantined)
    (hready : s.configQuarantined = true → ∀ child, t.ready child = false)
    (hfanOuts : ∀ g f, t.fanOuts.lookup g = some f → Answered (os ++ o) g f.answers) :
    Guarded (os ++ o) t where
  latest := by
    intro g
    rw [hgeneration, ← h.latest g, mem_append]
    exact or_iff_left (hbegan g)
  unready := by
    rwa [hquarantined]
  answers := hfanOuts
  lifted := by
    rw [hquarantined, hgeneration]
    intro hclear hpos
    obtain ⟨hended, hagreed⟩ := h.lifted hclear hpos
    exact ⟨mem_append_left _ hended, hagreed.mono⟩

theorem Guarded.answers_mono (g : ℕ) (f : FanOut)
    (hf : s.fanOuts.lookup g = some f) : Answered (os ++ o) g f.answers :=
  (h.answers g f hf).mono

theorem Guarded.erase (g' g : ℕ) (f : FanOut)
    (hf : (s.fanOuts.erase g').lookup g = some f) : Answered (os ++ o) g f.answers := by
  by_cases heq : g = g'
  · subst heq
    rw [AList.lookup_erase] at hf
    cases hf
  · rw [AList.lookup_erase_ne heq] at hf
    exact h.answers_mono g f hf

/-- The fan-outs after one of them was started or got an answer. -/
theorem Guarded.insert {g' : ℕ} (hf' : Answered (os ++ o) g' f'.answers) (g : ℕ) (f : FanOut)
    (hf : (s.fanOuts.insert g' f').lookup g = some f) : Answered (os ++ o) g f.answers := by
  by_cases heq : g = g'
  · subst heq
    rw [AList.lookup_insert, Option.some.injEq] at hf
    exact hf ▸ hf'
  · rw [AList.lookup_insert_ne heq] at hf
    exact h.answers_mono g f hf

theorem Guarded.begin (hf : f.answers = []) :
    Guarded (os ++ [.began (s.configFanoutGeneration + 1)]) (s.beginConfigFanout f) where
  latest := by
    intro g
    rw [mem_append, mem_singleton, h.latest g, PoolOutput.began.injEq]
    change _ ↔ 0 < g ∧ g ≤ s.configFanoutGeneration + 1
    omega
  unready := fun _ _ => rfl
  answers := h.insert (by rw [hf]; intro child r hr; simp at hr)
  lifted := by
    intro hclear
    cases hclear

end

theorem noteAnswer_eq (s : AdapterPool n) (child : Fin n)
    (answer : Except IpcError ApplyModelConfigResponse) :
    ∃ ready, s.noteAnswer child answer = { s with ready := ready } ∧
      ∀ c, s.ready c = false → ready c = false := by
  cases answer with
  | ok => exact ⟨s.ready, rfl, fun _ hc => hc⟩
  | error =>
    refine ⟨_, rfl, fun c hc => ?_⟩
    by_cases heq : c = child
    · rw [heq, update_self]
    · rw [update_of_ne heq, hc]

/-- The end of a fan-out: its answers are all there, and if it lifts the quarantine, all agree. -/
theorem Guarded.end (h : Guarded os s) {result : Except IpcError ApplyModelConfigResponse}
    (hagreed : ∀ resp, result = .ok resp → resp.applied = true → Agreed os g) :
    Guarded (os ++ (s.endFanout g result).2) (s.endFanout g result).1 := by
  have hquarantine : Guarded (os ++ [.ended g false]) (s.quarantineConfigFanout g) := by
    unfold quarantineConfigFanout
    split_ifs with hlatest
    · exact ⟨by simpa using h.latest, fun _ _ => rfl, h.answers_mono, by simp⟩
    · exact h.keep (by simp) rfl rfl h.unready h.answers_mono
  cases result with
  | error => exact hquarantine
  | ok resp =>
    by_cases happlied : resp.applied = true
    · simp only [endFanout, if_pos happlied]
      unfold clearConfigQuarantineAfterSuccess
      split_ifs with hlatest
      · refine ⟨by simpa using h.latest, by simp, h.answers_mono, fun _ _ => ?_⟩
        rw [← hlatest] at hagreed ⊢
        exact ⟨mem_append_right _ (.head _), (hagreed resp rfl happlied).mono⟩
      · exact h.keep (by simp) rfl rfl h.unready h.answers_mono
    · simp only [endFanout, if_neg happlied]
      exact hquarantine

/-- The reply of the next child keeps the invariant. -/
theorem Guarded.reply (h : Guarded os s) {asked : ℕ}
    {answer : Except IpcError ApplyModelConfigResponse} (hf : s.fanOuts.lookup g = some f)
    (hasked : f.answers.length = asked) (hf' : f'.answers = f.answers ++ [answer])
    (hstep : s.replyStep g f' asked answer = some (t, o)) : Guarded (os ++ o) t := by
  subst hasked
  unfold replyStep at hstep
  split_ifs at hstep with hlt hmore
  · cases hstep
    obtain ⟨ready, hnoted, hready⟩ := noteAnswer_eq s ⟨_, hlt⟩ answer
    have hanswered := (h.answers g f hf).concat answer hlt
    rw [← hf'] at hanswered
    rw [hnoted]
    exact h.keep (by simp) rfl rfl (fun hq c => hready c (h.unready hq c)) (h.insert hanswered)
  cases hresult : f'.result with
  | none => simp [hresult] at hstep
  | some =>
    simp [hresult] at hstep
    obtain ⟨rfl, rfl⟩ := hstep
    obtain ⟨ready, hnoted, hready⟩ := noteAnswer_eq s ⟨_, hlt⟩ answer
    have hanswered := (h.answers g f hf).concat answer hlt
    rw [← hf'] at hanswered
    have hlength : f'.answers.length = n := by
      rw [hf', length_append, length_singleton]
      omega
    -- first the answer is noted, then the fan-out ends
    rw [hnoted, append_cons]
    refine Guarded.end ?_ fun resp hresp happlied => ?_
    · exact h.keep (by simp) rfl rfl (fun hq c => hready c (h.unready hq c)) (h.erase g)
    · subst hresp
      exact agreed_of_result hanswered hlength hresult happlied

/-- Every step keeps the invariant. -/
theorem Guarded.next (h : Guarded os s) (hstep : s.step e = some (t, o)) : Guarded (os ++ o) t := by
  cases e with
  | beginApply | beginReplace => cases hstep; exact h.begin rfl
  | applyReply =>
    simp only [step, applyReplyStep] at hstep
    split at hstep
    next replies hf => exact h.reply hf rfl rfl hstep
    next => cases hstep
  | replaceReply =>
    simp only [step, replaceReplyStep] at hstep
    split at hstep
    next replies hf =>
      exact h.reply hf (by simp [FanOut.answers]) (by simp [FanOut.answers]) hstep
    next => cases hstep
  | drop g =>
    cases hstep
    exact h.keep (by simp) rfl rfl h.unready (h.erase g)
  | health child ok =>
    have hready : ∀ b, (s.configQuarantined = true → b = false) → s.configQuarantined = true →
        ∀ c, update s.ready child b c = false := by
      intro b hb hq c
      by_cases heq : c = child
      · rw [heq, update_self, hb hq]
      · rw [update_of_ne heq, h.unready hq c]
    cases ok with
    | true =>
      cases hstep
      exact h.keep (by simp) rfl rfl (hready _ (by simp)) h.answers_mono
    | false =>
      cases hstep
      exact h.keep (by simp) rfl rfl (hready _ fun _ => rfl) h.answers_mono
  | pinged =>
    cases hstep
    exact h.keep (by simp) rfl rfl h.unready h.answers_mono
  | call =>
    cases hstep
    refine h.keep ?_ rfl rfl h.unready h.answers_mono
    split_ifs <;> simp

theorem guarded_run {es : List (PoolEvent n)} (h : runs step (new n) es = some (s, os)) :
    Guarded os s :=
  runs_induction (fun _ os s => Guarded os s) guarded_new
    (fun _ _ _ _ _ _ _ hguarded hstep => hguarded.next hstep) es os s h

theorem endFanout_outputs (s : AdapterPool n) (g : ℕ)
    (result : Except IpcError ApplyModelConfigResponse) :
    ∃ applied, (s.endFanout g result).2 = [.ended g applied] := by
  cases result with
  | error => exact ⟨false, rfl⟩
  | ok resp =>
    by_cases happlied : resp.applied = true
    · exact ⟨true, by simp [endFanout, if_pos happlied]⟩
    · exact ⟨false, by simp [endFanout, if_neg happlied]⟩

/-- Only an unquarantined pool admits a call. -/
theorem clear_of_admitted {call : WorkCall} (hstep : s.step e = some (t, o))
    (hadmitted : .admitted call ∈ o) : s.configQuarantined = false := by
  have hno : ∀ g f asked answer, s.replyStep g f asked answer = some (t, o) → False := by
    intro g f asked answer hreply
    unfold replyStep at hreply
    split_ifs at hreply
    · obtain ⟨-, rfl⟩ := Prod.mk.inj (Option.some.inj hreply)
      simp at hadmitted
    cases hresult : f.result with
    | none => simp [hresult] at hreply
    | some result =>
      simp [hresult] at hreply
      obtain ⟨-, rfl⟩ := hreply
      obtain ⟨_, hended⟩ := endFanout_outputs
        { s.noteAnswer ⟨asked, ‹_›⟩ answer with fanOuts := s.fanOuts.erase g } g result
      rw [hended] at hadmitted
      simp at hadmitted
  cases e with
  | beginApply | beginReplace | drop | pinged => cases hstep; simp at hadmitted
  | health _ ok => cases ok <;> cases hstep <;> simp at hadmitted
  | applyReply =>
    simp only [step, applyReplyStep] at hstep
    split at hstep
    next => exact (hno _ _ _ _ hstep).elim
    next => cases hstep
  | replaceReply =>
    simp only [step, replaceReplyStep] at hstep
    split at hstep
    next => exact (hno _ _ _ _ hstep).elim
    next => cases hstep
  | call =>
    cases hstep
    by_cases hq : s.configQuarantined = true
    · simp [hq] at hadmitted
    · exact Bool.eq_false_iff.mpr hq

/-- **A pool with diverged children admits no work.**  After any run: under quarantine no child is
ready; a pool that is not quarantined has had every child apply the latest config, with one hash
up to empty ones; and a call that is admitted comes before the first fan-out or after the latest
one has succeeded. -/
theorem quarantine_holds {es : List (PoolEvent n)} (h : runs step (new n) es = some (s, os)) :
    Guarded os s ∧
      ∀ e t o call, s.step e = some (t, o) → .admitted call ∈ o → (∀ g, .began g ∉ os) ∨
          ∃ g, .began g ∈ os ∧ (∀ g', .began g' ∈ os → g' ≤ g) ∧ .ended g true ∈ os := by
  have hguarded := guarded_run h
  refine ⟨hguarded, ?_⟩
  intro e t o call hstep hadmitted
  have hclear := clear_of_admitted hstep hadmitted
  by_cases hzero : s.configFanoutGeneration = 0
  · left
    intro g hg
    have hbegan := (hguarded.latest g).mp hg
    omega
  right
  have hpos : 0 < s.configFanoutGeneration := Nat.pos_of_ne_zero hzero
  exact ⟨s.configFanoutGeneration, (hguarded.latest _).mpr ⟨hpos, le_rfl⟩,
    fun g' hg' => ((hguarded.latest g').mp hg').2, (hguarded.lifted hclear hpos).1⟩

/-! ## Two children, one without a hash -/

namespace EmptyHash

def events : List (PoolEvent 2) :=
  [.beginReplace, .health 0 true, .replaceReply 1 (.ok ⟨⟨true, "", []⟩, [], []⟩), .beginApply,
    .replaceReply 1 (.ok ⟨⟨true, "h1", []⟩, [], []⟩), .call .batch,
    .applyReply 2 (.ok ⟨true, "", []⟩), .applyReply 2 (.ok ⟨true, "h2", []⟩)]

theorem events_go : (runs step (new 2) events).isSome = true := by decide +kernel

def after : AdapterPool 2 × List (PoolOutput 2) := reached step (new 2) events events_go

theorem quarantine_holds_events : after.1.configQuarantined = false ∧ Guarded after.2 after.1 :=
  ⟨by decide +kernel, (quarantine_holds (runs_eq_reached events_go)).1⟩

/-- A batch is admitted although the children answered the latest fan-out with two hashes. -/
theorem admits_with_two_hashes :
    after.1.configFanoutGeneration = 2 ∧ .answered 2 0 (.ok ⟨true, "", []⟩) ∈ after.2 ∧
      .answered 2 1 (.ok ⟨true, "h2", []⟩) ∈ after.2 ∧
      (after.1.step (.call .batch)).map Prod.snd = some [.admitted .batch] := by
  decide +kernel

end EmptyHash

end AdapterPool

end Sie.Sidecar
