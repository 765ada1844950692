import Sie.Lib.Json
import Sie.Lib.Run
import Sie.Lib.Text
import Sie.Wire.ResultChunk

/-!
# Config of a worker

The sidecar's `config_subscriber.rs` and `config_reconciler.rs`: the state a worker advertises
(`ConfigApplyState`), the task that applies config notifications, and the task that polls the
control plane and applies full exports.  Both tasks send what they apply to the backend with
the write side of the execution barrier held; an execution holds the read side.  The heartbeat
adopts the hash of a `Ping` without the barrier.

One event is what happens between two awaits of a task.  The backend is the pool of adapter
processes of `backend/adapter_pool.rs`: one call asks every child and merges the replies.
-/

namespace Sie.Sidecar

open Sie.Lib Sie.Wire

/-! ## What the worker advertises -/

structure ConfigApplyState where
  epoch : ℕ
  bundleConfigHash : String
  unsupportedModels : List String
  deriving DecidableEq

/-- The models of a committed pair: trimmed, without empty names, sorted and without repetitions. -/
def normalizedModels (models : List String) : List String :=
  sortDedup ((models.map trim).filter (· ≠ ""))

namespace ConfigApplyState

def new (initialBundleConfigHash : String) : ConfigApplyState := ⟨0, initialBundleConfigHash, []⟩

section

variable (st : ConfigApplyState)

def setEpochMax (epoch : ℕ) : ConfigApplyState :=
  if epoch > st.epoch then { st with epoch := epoch } else st

def adoptBackendHashIfUnset (hash : String) : ConfigApplyState :=
  if hash = "" then st
  else if st.bundleConfigHash ≠ "" then st
  else { st with bundleConfigHash := hash }

def setAppliedView (hash : String) (unsupportedModels : List String) : ConfigApplyState :=
  { st with bundleConfigHash := hash, unsupportedModels := normalizedModels unsupportedModels }

/-- The exchange of the epoch cannot fail: every writer of the epoch holds the barrier. -/
def markApplied (epoch : ℕ) (hash : String)
    (unsupportedModels : List String) : ConfigApplyState :=
  if epoch = 0 then st.setAppliedView hash unsupportedModels
  else if epoch > st.epoch then { st with epoch := epoch }.setAppliedView hash unsupportedModels
  else st

/-- The new state, or `none` where the source returns `false` and changes nothing. -/
def markExportReconciled (epoch : ℕ) (hash : String)
    (unsupportedModels : List String) (forceEpoch : Bool) : Option ConfigApplyState :=
  if forceEpoch = true then some ({ st with epoch := epoch }.setAppliedView hash unsupportedModels)
  else if epoch < st.epoch then none
  else some ((st.setEpochMax epoch).setAppliedView hash unsupportedModels)

end

end ConfigApplyState

/-! ## The messages -/

def maxModelConfigBytes : ℕ := 1048576

def defaultModelPool : String := "default"

def normalizePoolName (raw : String) : String :=
  let pool := toAsciiLowercase (trim raw)
  if pool = "" then defaultModelPool else pool

/-- What the worker is told at start; `fullExportInterval` is the reconciler's. -/
structure WorkerConfig where
  bundle : String
  pool : String
  trustedProducers : List String
  fullExportInterval : Option ℕ
  deriving DecidableEq

/-- What the sidecar calls: `serde_json::to_string` and `blake3`. -/
structure ConfigCodec where
  toString : Json → String
  blake3 : Bytes → Digest

structure ConfigNotification where
  producerId : String
  bundleId : String
  epoch : ℕ
  bundleConfigHash : String
  bundlePoolConfigHashes : List (String × List (String × String))
  modelId : String
  profilesAdded : List String
  modelConfig : String
  pool : Option String
  bundleAdapters : List (String × List String)
  deriving DecidableEq

inductive NotificationKind
  | epochBump
  | modelConfig
  deriving DecidableEq

def isTrustedProducer (producerId : String) (trustedProducers : List String) : Bool :=
  trustedProducers.isEmpty || trustedProducers.any fun trusted =>
    trusted == producerId || (trusted.toList ++ ['-']).isPrefixOf producerId.toList

def notificationIsStale (epoch currentEpoch : ℕ) : Bool :=
  epoch < currentEpoch || (epoch == currentEpoch && epoch != 0)

/-- The hash has to be the control plane's, where the control plane gave one. -/
def verifiedAppliedBundleHash (controlPlaneHash : Option String) (workerAppliedHash : String) :
    Option String :=
  match controlPlaneHash.filter (· ≠ "") with
  | some hash => if hash = workerAppliedHash then some hash else none
  | none => some workerAppliedHash

namespace ConfigNotification

section

variable (n : ConfigNotification)

def kind : NotificationKind :=
  if isBlank n.modelConfig then .epochBump else .modelConfig

def targetsBundle (bundle : String) : Bool := n.bundleId == bundle

def targetsPool (pool : String) : Bool :=
  match n.pool with
  | none => true
  | some p => normalizePoolName p == normalizePoolName pool

def bundleHashForPool (pool : String) : String :=
  match n.bundlePoolConfigHashes.lookup n.bundleId with
  | some poolHashes => (poolHashes.lookup (normalizePoolName pool)).getD ""
  | none => n.bundleConfigHash

end

end ConfigNotification

structure ApplyModelConfigRequest where
  bundleId : String
  modelId : String
  epoch : ℕ
  bundleConfigHash : String
  profilesAdded : List String
  modelConfig : String
  bundleAdapters : Option (List String)
  deriving DecidableEq

def ConfigNotification.request (n : ConfigNotification) (pool : String) :
    ApplyModelConfigRequest where
  bundleId := n.bundleId
  modelId := n.modelId
  epoch := n.epoch
  bundleConfigHash := n.bundleHashForPool pool
  profilesAdded := n.profilesAdded
  modelConfig := n.modelConfig
  bundleAdapters := n.bundleAdapters.lookup n.bundleId

structure ApplyModelConfigResponse where
  applied : Bool
  bundleConfigHash : String
  unsupportedModels : List String
  deriving DecidableEq

structure EpochSnapshot where
  epoch : ℕ
  bundleConfigHashesHash : String
  deriving DecidableEq

structure ExportedModel where
  modelId : String
  rawYaml : Option String
  modelConfig : Option Json
  affectedBundles : List String
  pool : Option String
  deriving DecidableEq

structure ExportSnapshot where
  epoch : ℕ
  bundleConfigHashes : List (String × String)
  bundlePoolConfigHashes : List (String × List (String × String))
  bundleAdapters : List (String × List String)
  models : List ExportedModel
  deriving DecidableEq

structure ReplaceModelConfigEntry where
  modelId : String
  modelConfig : String
  deriving DecidableEq

structure ReplaceModelConfigsRequest where
  bundleId : String
  epoch : ℕ
  bundleConfigHash : String
  models : List ReplaceModelConfigEntry
  bundleAdapters : Option (List String)
  deriving DecidableEq

structure ReplaceModelConfigsResponse extends ApplyModelConfigResponse where
  appliedModels : List String
  appliedProfiles : List String
  deriving DecidableEq

/-! ## The pool of adapter processes -/

inductive IoErrorKind
  | brokenPipe
  | connectionRefused
  | connectionReset
  | connectionAborted
  | unexpectedEof
  | notFound
  | notConnected
  | wouldBlock
  | other
  deriving DecidableEq

inductive IpcError
  | io (kind : IoErrorKind)
  | encode
  | decode
  | timeout
  | frameTooLarge (len : ℕ)
  | responseChunk (message : String)
  | server (message : String)
  | versionMismatch (got : ℕ)
  deriving DecidableEq

def retryableIpcError : IpcError → Bool
  | .io .other => false
  | .io _ => true
  | .timeout => true
  | _ => false

/-- The first nonempty hash stays; another nonempty one takes `applied` away. -/
def mergeBundleHash (applied : Bool) (existingHash nextHash : String) : Bool × String :=
  if existingHash = "" then (applied, nextHash)
  else if nextHash ≠ "" ∧ existingHash ≠ nextHash then (false, existingHash)
  else (applied, existingHash)

def mergeApplyModelConfigResponse (existing resp : ApplyModelConfigResponse) :
    ApplyModelConfigResponse :=
  let merged := mergeBundleHash (existing.applied && resp.applied) existing.bundleConfigHash
    resp.bundleConfigHash
  { applied := merged.1, bundleConfigHash := merged.2,
    unsupportedModels := sortDedup (existing.unsupportedModels ++ resp.unsupportedModels) }

def mergeReplaceModelConfigsResponse (existing resp : ReplaceModelConfigsResponse) :
    ReplaceModelConfigsResponse :=
  let merged := mergeApplyModelConfigResponse existing.toApplyModelConfigResponse
    resp.toApplyModelConfigResponse
  let sameModels := existing.appliedModels.insertionSort (· ≤ ·) =
    resp.appliedModels.insertionSort (· ≤ ·)
  let sameProfiles := existing.appliedProfiles.insertionSort (· ≤ ·) =
    resp.appliedProfiles.insertionSort (· ≤ ·)
  { merged with
    applied := merged.applied && decide sameModels && decide sameProfiles
    appliedModels := if sameModels then existing.appliedModels
      else sortDedup (existing.appliedModels ++ resp.appliedModels)
    appliedProfiles := if sameProfiles then existing.appliedProfiles
      else sortDedup (existing.appliedProfiles ++ resp.appliedProfiles) }

/-- The reply of one child. -/
def childReply {α : Type} : Except IpcError α → Option α
  | .ok a => some a
  | .error _ => none

def childError {α : Type} : Except IpcError α → Option IpcError
  | .ok _ => none
  | .error e => some e

/-- One call of the pool: the last error of a child, else the merged replies.  A pool has at
least one child. -/
def fanOut {α : Type} (merge : α → α → α) (replies : List (Except IpcError α)) :
    Option (Except IpcError α) :=
  match (replies.filterMap childError).getLast? with
  | some e => some (.error e)
  | none =>
    match replies.filterMap childReply with
    | [] => none
    | r :: rs => some (.ok (rs.foldl merge r))

/-! ## Exports -/

inductive ExportReason
  | startup
  | epochAhead
  | epochRewind
  | bundleConfigHashesHash
  | periodicExport
  deriving DecidableEq

def driftReason (localEpoch : ℕ) (remote : EpochSnapshot)
    (localBundleConfigHashesHash : String) (fullExportDue : Bool) : Option ExportReason :=
  if remote.epoch > localEpoch then some .epochAhead
  else if remote.epoch < localEpoch then some .epochRewind
  else if remote.bundleConfigHashesHash ≠ "" ∧
      remote.bundleConfigHashesHash ≠ localBundleConfigHashesHash then
    some .bundleConfigHashesHash
  else if remote.epoch = 0 ∧ fullExportDue = true then some .periodicExport
  else none

namespace ExportedModel

def targetsBundle (m : ExportedModel) (bundle : String) : Bool := m.affectedBundles.contains bundle

def poolName (m : ExportedModel) : String :=
  match m.pool with
  | some pool => normalizePoolName pool
  | none =>
    match m.modelConfig.bind fun value => value.getStr "pool" with
    | some pool => normalizePoolName pool
    | none => defaultModelPool

def targetsPool (m : ExportedModel) (pool : String) : Bool := m.poolName == normalizePoolName pool

/-- Rendering a `Value` does not fail. -/
def configBody (codec : ConfigCodec) (m : ExportedModel) : Option String :=
  let raw := trim (m.rawYaml.getD "")
  if raw ≠ "" then some raw
  else
    match m.modelConfig with
    | none | some .null => none
    | some value => some (codec.toString value)

/-- What an export does with a model. -/
inductive Fate
  | skipped
  | failed
  | exported (entry : ReplaceModelConfigEntry)
  deriving DecidableEq

def fate (codec : ConfigCodec) (cfg : WorkerConfig) (m : ExportedModel) : Fate :=
  if m.targetsBundle cfg.bundle = false ∨ m.targetsPool (normalizePoolName cfg.pool) = false then
    .skipped
  else
    match m.configBody codec with
    | none => .skipped
    | some body =>
      if body.utf8ByteSize > maxModelConfigBytes then .failed else .exported ⟨m.modelId, body⟩

end ExportedModel

def u64LeBytes (n : ℕ) : Bytes := (List.range 8).map fun i => UInt8.ofNat (n / 256 ^ i)

def lenPrefixed (value : String) : Bytes :=
  u64LeBytes value.utf8ByteSize ++ value.toUTF8.data.toList

/-- What `compute_export_signature` feeds to the hasher. -/
def exportSignatureBytes (bundle : String) (bundleConfigHash : Option String)
    (bundleAdapters : Option (List String)) (models : List ReplaceModelConfigEntry) : Bytes :=
  let adapters := match bundleAdapters with
    | some adapters => 1 :: u64LeBytes adapters.length ++ adapters.flatMap lenPrefixed
    | none => [0]
  let entries := models.insertionSort fun a b =>
    a.modelId < b.modelId ∨ (a.modelId = b.modelId ∧ a.modelConfig ≤ b.modelConfig)
  lenPrefixed bundle ++ lenPrefixed (bundleConfigHash.getD "") ++ adapters ++
    u64LeBytes entries.length ++
    entries.flatMap fun m => lenPrefixed m.modelId ++ lenPrefixed m.modelConfig

namespace ExportSnapshot

def controlPlaneHash (cfg : WorkerConfig) (snapshot : ExportSnapshot) : Option String :=
  match snapshot.bundlePoolConfigHashes.lookup cfg.bundle with
  | some poolHashes => some ((poolHashes.lookup (normalizePoolName cfg.pool)).getD "")
  | none => snapshot.bundleConfigHashes.lookup cfg.bundle

def adapters (cfg : WorkerConfig) (snapshot : ExportSnapshot) : Option (List String) :=
  snapshot.bundleAdapters.lookup cfg.bundle

section

variable (codec : ConfigCodec) (cfg : WorkerConfig) (snapshot : ExportSnapshot)

def entries : List ReplaceModelConfigEntry :=
  snapshot.models.filterMap fun m =>
    match m.fate codec cfg with
    | .exported entry => some entry
    | _ => none

def failed : ℕ :=
  snapshot.models.countP fun m => m.fate codec cfg = .failed

def signature : Option Digest :=
  if snapshot.failed codec cfg = 0 then
    some (codec.blake3 (exportSignatureBytes cfg.bundle (snapshot.controlPlaneHash cfg)
      (snapshot.adapters cfg) (snapshot.entries codec cfg)))
  else none

def request : ReplaceModelConfigsRequest where
  bundleId := cfg.bundle
  epoch := snapshot.epoch
  bundleConfigHash := (snapshot.controlPlaneHash cfg).getD ""
  models := snapshot.entries codec cfg
  bundleAdapters := snapshot.adapters cfg

end

end ExportSnapshot

/-! ## The worker -/

/-- Why an export is fetched; `remoteHash` is the polled fingerprint, `""` at startup. -/
structure ExportJob where
  forceEpoch : Bool
  reason : ExportReason
  remoteHash : String
  deriving DecidableEq

/-- The subscriber.  It holds the barrier from `calling` on. -/
inductive Subscriber
  | idle
  | waiting (n : ConfigNotification)
  | calling (n : ConfigNotification)
  | backoff (n : ConfigNotification)
  | stopped
  deriving DecidableEq

/-- The reconciler.  It holds the barrier from `calling` on. -/
inductive Reconciler
  | starting
  | idle
  | polling (localEpoch : ℕ)
  | fetching (job : ExportJob)
  | waiting (job : ExportJob) (snapshot : ExportSnapshot)
  | calling (job : ExportJob) (snapshot : ExportSnapshot)
  | backoff (job : ExportJob) (snapshot : ExportSnapshot)
  | stopped
  deriving DecidableEq

def Subscriber.holdsBarrier : Subscriber → Bool
  | .calling _ | .backoff _ => true
  | _ => false

def Reconciler.holdsBarrier : Reconciler → Bool
  | .calling _ _ | .backoff _ _ => true
  | _ => false

/-- `executions` counts the read guards of the barrier; the three fields that start with `last`
are the reconciler's own. -/
structure Worker where
  state : ConfigApplyState
  executions : ℕ
  subscriber : Subscriber
  reconciler : Reconciler
  lastSuccessfulExport : Option ℕ
  lastExportSignature : Option Digest
  lastBundleConfigHashesHash : String
  now : ℕ
  shutdown : Bool
  deriving DecidableEq

inductive WorkerEvent
  | notify (n : ConfigNotification)
  | subscriberLock
  | applyReplies (replies : List (Except IpcError ApplyModelConfigResponse))
  | subscriberRetry
  | startupEpoch (reply : Option EpochSnapshot)
  | tick
  | epochReply (reply : Option EpochSnapshot)
  | exportReply (reply : Option ExportSnapshot)
  | reconcilerLock
  | replaceReplies (replies : List (Except IpcError ReplaceModelConfigsResponse))
  | reconcilerRetry
  | ping (hash : String)
  | lockExecution
  | unlockExecution
  | sleep (duration : ℕ)
  | shutdown
  | abort

/-- The `result` of `record_delta`. -/
inductive DeltaResult
  | rejectedUntrusted
  | rejectedBundle
  | stale
  | skippedPool
  | rejectedOversized
  | shutdown
  | applyError
  | applyRejected
  | hashMismatch
  | applied (epoch : ℕ)
  deriving DecidableEq

/-- The `result` of `record_reconcile`. -/
inductive ExportResult
  | fetchError
  | epochError
  | staleExport
  | noChange
  | shutdown
  | incomplete
  | hashMismatch
  | noRelevantModels
  | applied
  deriving DecidableEq

/-- A commit is the reply of the pool it was made from, with the hash the control plane gave. -/
inductive WorkerOutput
  | apply (request : ApplyModelConfigRequest)
  | replace (request : ReplaceModelConfigsRequest)
  | delta (kind : NotificationKind) (result : DeltaResult)
  | reconcile (result : ExportResult)
  | inSync (localEpoch : ℕ) (remote : EpochSnapshot)
  | commit (controlPlaneHash : Option String) (reply : ApplyModelConfigResponse)
  deriving DecidableEq

namespace Worker

variable (codec : ConfigCodec) (cfg : WorkerConfig)

/-- `reconciles` is whether the control plane's address is set. -/
def new (initialBundleConfigHash : String) (reconciles : Bool) : Worker where
  state := .new initialBundleConfigHash
  executions := 0
  subscriber := .idle
  reconciler := if reconciles then .starting else .stopped
  lastSuccessfulExport := none
  lastExportSignature := none
  lastBundleConfigHashesHash := ""
  now := 0
  shutdown := false

/-- The write side of the barrier is held. -/
def applying (s : Worker) : Bool := s.subscriber.holdsBarrier || s.reconciler.holdsBarrier

/-- The write side of the barrier can be taken. -/
def barrierFree (s : Worker) : Bool := s.executions == 0 && !s.applying

/-! ### The subscriber: `apply_notification` -/

/-- Why a notification is dropped before the barrier. -/
def dropReason (n : ConfigNotification) (currentEpoch : ℕ) : Option DeltaResult :=
  if isTrustedProducer n.producerId cfg.trustedProducers = false then some .rejectedUntrusted
  else if n.targetsBundle cfg.bundle = false then some .rejectedBundle
  else if notificationIsStale n.epoch currentEpoch = true then some .stale
  else if n.kind = .epochBump then none
  else if n.targetsPool cfg.pool = false then some .skippedPool
  else if n.modelConfig.utf8ByteSize > maxModelConfigBytes then some .rejectedOversized
  else none

section

variable (s : Worker)

def notifyStep (n : ConfigNotification) : Option (Worker × List WorkerOutput) :=
  if s.subscriber = .idle ∧ s.shutdown = false then
    match dropReason cfg n s.state.epoch with
    | some result => some (s, [.delta n.kind result])
    | none => some ({ s with subscriber := .waiting n }, [])
  else none

def subscriberLockStep : Option (Worker × List WorkerOutput) :=
  match s.subscriber with
  | .waiting n =>
    if s.barrierFree = true then
      -- the epoch may have moved while the task waited for the barrier
      if notificationIsStale n.epoch s.state.epoch = true then
        some ({ s with subscriber := .idle }, [.delta n.kind .stale])
      else
        match n.kind with
        | .epochBump =>
          some ({ s with subscriber := .idle, state := s.state.setEpochMax n.epoch },
            [.delta .epochBump (.applied n.epoch)])
        | .modelConfig =>
          some ({ s with subscriber := .calling n }, [.apply (n.request cfg.pool)])
    else none
  | _ => none

/-- What is done with the reply of the pool. -/
def finishNotification (n : ConfigNotification) (resp : ApplyModelConfigResponse) :
    Worker × List WorkerOutput :=
  let idle := { s with subscriber := .idle }
  if resp.applied = false then (idle, [.delta n.kind .applyRejected])
  else
    let controlPlaneHash := some (n.bundleHashForPool cfg.pool)
    match verifiedAppliedBundleHash controlPlaneHash resp.bundleConfigHash with
    | none => (idle, [.delta n.kind .hashMismatch])
    | some hash =>
      ({ idle with state := s.state.markApplied n.epoch hash resp.unsupportedModels },
        [.commit controlPlaneHash resp, .delta n.kind (.applied n.epoch)])

def applyRepliesStep (replies : List (Except IpcError ApplyModelConfigResponse)) :
    Option (Worker × List WorkerOutput) :=
  match s.subscriber with
  | .calling n =>
    match fanOut mergeApplyModelConfigResponse replies with
    | none => none
    | some (.ok resp) => some (finishNotification cfg s n resp)
    | some (.error e) =>
      if retryableIpcError e = true ∧ s.shutdown = false then
        some ({ s with subscriber := .backoff n }, [])
      else some ({ s with subscriber := .idle }, [.delta n.kind .applyError])
  | _ => none

def subscriberRetryStep : Option (Worker × List WorkerOutput) :=
  match s.subscriber with
  | .backoff n =>
    if s.shutdown = true then some ({ s with subscriber := .idle }, [.delta n.kind .shutdown])
    else some ({ s with subscriber := .calling n }, [.apply (n.request cfg.pool)])
  | _ => none

end

/-! ### The reconciler: its loop, and `reconcile_export_snapshot` -/

section

variable (s : Worker)

def startupEpochStep (reply : Option EpochSnapshot) : Option (Worker × List WorkerOutput) :=
  if s.reconciler = .starting then
    some ({ s with
      lastBundleConfigHashesHash := (reply.map EpochSnapshot.bundleConfigHashesHash).getD ""
      reconciler := .fetching ⟨false, .startup, ""⟩ }, [])
  else none

def tickStep : Option (Worker × List WorkerOutput) :=
  if s.reconciler = .idle ∧ s.shutdown = false then
    some ({ s with reconciler := .polling s.state.epoch }, [])
  else none

def fullExportDue : Bool :=
  match cfg.fullExportInterval with
  | none => false
  | some interval =>
    match s.lastSuccessfulExport with
    | none => true
    | some last => interval ≤ s.now - last

def epochReplyStep (reply : Option EpochSnapshot) : Option (Worker × List WorkerOutput) :=
  match s.reconciler with
  | .polling localEpoch =>
    match reply with
    | none => some ({ s with reconciler := .idle }, [.reconcile .epochError])
    | some remote =>
      match driftReason localEpoch remote s.lastBundleConfigHashesHash (fullExportDue cfg s) with
      | none => some ({ s with reconciler := .idle }, [.inSync localEpoch remote])
      | some reason =>
        let job : ExportJob :=
          ⟨remote.epoch < localEpoch, reason, remote.bundleConfigHashesHash⟩
        some ({ s with reconciler := .fetching job }, [])
  | _ => none

def exportReplyStep (reply : Option ExportSnapshot) : Option (Worker × List WorkerOutput) :=
  match s.reconciler with
  | .fetching job =>
    match reply with
    | none => some ({ s with reconciler := .idle }, [.reconcile .fetchError])
    | some snapshot => some ({ s with reconciler := .waiting job snapshot }, [])
  | _ => none

/-- What the loop does after an export with nothing failed. -/
def exportSucceeded (job : ExportJob) (signature : Option Digest) : Worker :=
  { s with
    reconciler := .idle
    lastSuccessfulExport := some s.now
    lastExportSignature := signature <|> s.lastExportSignature
    lastBundleConfigHashesHash :=
      if job.remoteHash = "" then s.lastBundleConfigHashesHash else job.remoteHash }

def reconcilerLockStep : Option (Worker × List WorkerOutput) :=
  match s.reconciler with
  | .waiting job snapshot =>
    if s.barrierFree = true then
      if job.forceEpoch = false ∧ snapshot.epoch < s.state.epoch then
        some (s.exportSucceeded job none, [.reconcile .staleExport])
      else if job.reason = .periodicExport ∧ (snapshot.signature codec cfg).isSome = true ∧
          snapshot.signature codec cfg = s.lastExportSignature then
        some (s.exportSucceeded job (snapshot.signature codec cfg), [.reconcile .noChange])
      else if snapshot.failed codec cfg = 0 then
        some ({ s with reconciler := .calling job snapshot },
          [.replace (snapshot.request codec cfg)])
      else some ({ s with reconciler := .idle }, [.reconcile .incomplete])
    else none
  | _ => none

/-- What is done with the reply of the pool. -/
def finishExport (job : ExportJob) (snapshot : ExportSnapshot)
    (resp : ReplaceModelConfigsResponse) : Worker × List WorkerOutput :=
  let idle := { s with reconciler := .idle }
  if resp.applied = false then (idle, [.reconcile .incomplete])
  else
    match verifiedAppliedBundleHash (snapshot.controlPlaneHash cfg) resp.bundleConfigHash with
    | none => (idle, [.reconcile .hashMismatch])
    | some hash =>
      match s.state.markExportReconciled snapshot.epoch hash resp.unsupportedModels
          job.forceEpoch with
      | some state =>
        ({ s.exportSucceeded job (snapshot.signature codec cfg) with state := state },
          [.commit (snapshot.controlPlaneHash cfg) resp.toApplyModelConfigResponse,
            .reconcile (if resp.appliedModels = [] then .noRelevantModels else .applied)])
      | none =>
        (s.exportSucceeded job (snapshot.signature codec cfg),
          [.reconcile (if resp.appliedModels = [] then .noRelevantModels else .staleExport)])

def replaceRepliesStep (replies : List (Except IpcError ReplaceModelConfigsResponse)) :
    Option (Worker × List WorkerOutput) :=
  match s.reconciler with
  | .calling job snapshot =>
    match fanOut mergeReplaceModelConfigsResponse replies with
    | none => none
    | some (.ok resp) => some (finishExport codec cfg s job snapshot resp)
    | some (.error e) =>
      if retryableIpcError e = true ∧ s.shutdown = false then
        some ({ s with reconciler := .backoff job snapshot }, [])
      else some ({ s with reconciler := .idle }, [.reconcile .incomplete])
  | _ => none

def reconcilerRetryStep : Option (Worker × List WorkerOutput) :=
  match s.reconciler with
  | .backoff job snapshot =>
    if s.shutdown = true then
      some ({ s with reconciler := .stopped }, [.reconcile .shutdown])
    else
      some ({ s with reconciler := .calling job snapshot },
        [.replace (snapshot.request codec cfg)])
  | _ => none

end

/-! ### Executions, the heartbeat, the end -/

def lockExecutionStep (s : Worker) : Option (Worker × List WorkerOutput) :=
  if s.applying = false then some ({ s with executions := s.executions + 1 }, []) else none

def unlockExecutionStep (s : Worker) : Option (Worker × List WorkerOutput) :=
  if s.executions = 0 then none else some ({ s with executions := s.executions - 1 }, [])

def step (s : Worker) : WorkerEvent → Option (Worker × List WorkerOutput)
  | .notify n => notifyStep cfg s n
  | .subscriberLock => subscriberLockStep cfg s
  | .applyReplies replies => applyRepliesStep cfg s replies
  | .subscriberRetry => subscriberRetryStep cfg s
  | .startupEpoch reply => startupEpochStep s reply
  | .tick => tickStep s
  | .epochReply reply => epochReplyStep cfg s reply
  | .exportReply reply => exportReplyStep s reply
  | .reconcilerLock => reconcilerLockStep codec cfg s
  | .replaceReplies replies => replaceRepliesStep codec cfg s replies
  | .reconcilerRetry => reconcilerRetryStep codec cfg s
  | .ping hash => some ({ s with state := s.state.adoptBackendHashIfUnset hash }, [])
  | .lockExecution => lockExecutionStep s
  | .unlockExecution => unlockExecutionStep s
  | .sleep duration => some ({ s with now := s.now + duration }, [])
  | .shutdown => some ({ s with shutdown := true }, [])
  -- both tasks are aborted at an await; a guard they hold is dropped
  | .abort => some ({ s with subscriber := .stopped, reconciler := .stopped }, [])

end Worker

end Sie.Sidecar
