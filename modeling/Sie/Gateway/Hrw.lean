import Mathlib.Data.List.MinMax
import Mathlib.Data.Prod.Lex
import Mathlib.Data.String.Basic

/-!
# Picking a worker by rendezvous hashing

Model of `pick_worker` in `sie_gateway/src/routing/hrw.rs`: of the workers on the ring of a lane
it takes one with the least pressure, among those one with the highest weight for the request's
key, and among those the one with the last id.  The comparison is that of a linear order on the
entries (`rank`), so the pick is the least entry wherever it stands.

`xxh3_64` is a parameter: nothing depends on what it answers, and two workers may have one hash.
-/

namespace Sie.Gateway

open List

/-- A worker on the ring, with the pressure it last reported. -/
structure RingEntry where
  workerId : String
  workerIdHash : BitVec 64
  readyGpuSlots : ℤ
  queueDepth : ℤ
  pendingCost : ℤ
  inflightBatches : ℤ

structure RingSnapshot where
  entries : List RingEntry

/-- The key of a request; without a hash there is nothing to pick by. -/
structure RoutingKeyResolved where
  hash : Option (BitVec 64)

def ceilDivI64 (value divisor : ℤ) : ℤ :=
  if value ≤ 0 then 0
  else
    let divisor := max divisor 1
    value / divisor + if value % divisor ≠ 0 then 1 else 0

/-- The six numbers that are compared in turn. -/
def RingEntry.pressureKey (e : RingEntry) : List ℤ :=
  let slots := max e.readyGpuSlots 1
  [ceilDivI64 (max e.pendingCost 0) slots, ceilDivI64 (max e.queueDepth 0) slots,
    ceilDivI64 (max e.inflightBatches 0) slots, max e.pendingCost 0, max e.queueDepth 0,
    max e.inflightBatches 0]

def toLeBytes (n : BitVec 64) : List UInt8 :=
  (range 8).map fun i => ⟨n.extractLsb' (8 * i) 8⟩

/-- The weight of a worker for a request. -/
def combine (xxh3 : List UInt8 → BitVec 64) (requestHash workerIdHash : BitVec 64) : ℕ :=
  (xxh3 (toLeBytes (workerIdHash.rotateLeft 32 ^^^ requestHash))).toNat

/-- `Ord::cmp`. -/
def ordCmp {α : Type} [LinearOrder α] (a b : α) : Ordering := cmp a b

/-- The comparison of `pick_worker`. -/
def RingEntry.compare (xxh3 : List UInt8 → BitVec 64) (requestHash : BitVec 64)
    (a b : RingEntry) : Ordering :=
  ((ordCmp a.pressureKey b.pressureKey).then
    (ordCmp (combine xxh3 requestHash b.workerIdHash)
      (combine xxh3 requestHash a.workerIdHash))).then (ordCmp b.workerId a.workerId)

/-- `Iterator::min_by`: of equal elements the first. -/
def minBy {α : Type} (compare : α → α → Ordering) : List α → Option α
  | [] => none
  | x :: xs => some (xs.foldl (fun least y => if compare least y = .gt then y else least) x)

def pickWorker (xxh3 : List UInt8 → BitVec 64) (snapshot : RingSnapshot)
    (key : RoutingKeyResolved) : Option String :=
  if snapshot.entries.isEmpty then none
  else
    key.hash.bind fun requestHash =>
      (minBy (RingEntry.compare xxh3 requestHash) snapshot.entries).map RingEntry.workerId

/-! ## The order of the entries -/

/-- What an entry is ordered by: the pressure upwards, the weight and the id downwards. -/
def RingEntry.rank (xxh3 : List UInt8 → BitVec 64) (requestHash : BitVec 64) (e : RingEntry) :
    List ℤ ×ₗ ℕᵒᵈ ×ₗ Stringᵒᵈ :=
  toLex (e.pressureKey,
    toLex (.toDual (combine xxh3 requestHash e.workerIdHash), .toDual e.workerId))

variable {xxh3 : List UInt8 → BitVec 64} {hash : BitVec 64} {key : RoutingKeyResolved}
  {a b e : RingEntry} {ring : List RingEntry}

theorem ordCmp_eq_gt {α : Type} [LinearOrder α] {a b : α} : ordCmp a b = .gt ↔ b < a :=
  cmp_eq_gt_iff a b

theorem ordCmp_eq_eq {α : Type} [LinearOrder α] {a b : α} : ordCmp a b = .eq ↔ a = b :=
  cmp_eq_eq_iff a b

theorem RingEntry.compare_eq_gt_iff :
    RingEntry.compare xxh3 hash a b = .gt ↔ b.rank xxh3 hash < a.rank xxh3 hash := by
  simp only [RingEntry.compare, rank, ordCmp_eq_gt, ordCmp_eq_eq, Ordering.then_eq_gt,
    Ordering.then_eq_eq, Prod.Lex.toLex_lt_toLex, OrderDual.toDual_lt_toDual, OrderDual.toDual_inj]
  grind

theorem minBy_eq_argmin {α β : Type} [LinearOrder β] {f : α → β} {compare : α → α → Ordering}
    (h : ∀ a b, compare a b = .gt ↔ f b < f a) (l : List α) : minBy compare l = l.argmin f := by
  cases l with
  | nil => rfl
  | cons x xs =>
    change some _ = xs.foldl (argAux fun b c => f b < f c) (some x)
    induction xs generalizing x with
    | nil => rfl
    | cons y xs ih =>
      rw [foldl_cons, foldl_cons, argAux]
      by_cases hlt : f y < f x
      · simpa only [(h x y).mpr hlt, if_true, hlt] using ih y
      · simpa only [(h x y).not.mpr hlt, if_false, hlt] using ih x

/-- A least entry is picked, if there is a key and an entry. -/
theorem exists_least (xxh3 : List UInt8 → BitVec 64) (hkey : key.hash = some hash)
    (hring : ring ≠ []) :
    ∃ e ∈ ring, pickWorker xxh3 ⟨ring⟩ key = some e.workerId ∧
      ∀ e' ∈ ring, e.rank xxh3 hash ≤ e'.rank xxh3 hash := by
  obtain ⟨e, he⟩ : ∃ e, ring.argmin (RingEntry.rank xxh3 hash) = some e :=
    Option.ne_none_iff_exists'.mp (mt argmin_eq_none.mp hring)
  refine ⟨e, argmin_mem he, ?_, fun e' he' => le_of_mem_argmin he' he⟩
  have hmin := minBy_eq_argmin (f := RingEntry.rank xxh3 hash)
    (fun a b => RingEntry.compare_eq_gt_iff (a := a) (b := b)) ring
  rw [he] at hmin
  simp [pickWorker, hring, hkey, hmin]

/-- The last part of the rank is the id, so two least entries are one worker. -/
theorem pickWorker_of_least (hkey : key.hash = some hash) (he : e ∈ ring)
    (hleast : ∀ e' ∈ ring, e.rank xxh3 hash ≤ e'.rank xxh3 hash) :
    pickWorker xxh3 ⟨ring⟩ key = some e.workerId := by
  obtain ⟨e₁, he₁, hpick, hleast₁⟩ := exists_least xxh3 hkey (ne_nil_of_mem he)
  have hrank := le_antisymm (hleast₁ e he) (hleast e₁ he₁)
  rw [hpick, show e₁.workerId = e.workerId from congrArg (fun r => (ofLex (ofLex r).2).2) hrank]

/-- **The pick is stable.**  It does not depend on the order of the ring; it has the least
pressure, and among the workers with that pressure the highest weight; to remove a worker that
was not picked does not change it; and to add a worker either keeps it or moves it to that
worker. -/
theorem pick_stable (xxh3 : List UInt8 → BitVec 64) (key : RoutingKeyResolved)
    (ring : List RingEntry) :
    (∀ ring', ring'.Perm ring → pickWorker xxh3 ⟨ring'⟩ key = pickWorker xxh3 ⟨ring⟩ key) ∧
    (∀ hash, key.hash = some hash → ring ≠ [] →
      ∃ e ∈ ring, pickWorker xxh3 ⟨ring⟩ key = some e.workerId ∧
        ∀ e' ∈ ring, e.pressureKey ≤ e'.pressureKey ∧ (e'.pressureKey = e.pressureKey →
          combine xxh3 hash e'.workerIdHash ≤ combine xxh3 hash e.workerIdHash)) ∧
    (∀ id, pickWorker xxh3 ⟨ring⟩ key ≠ some id →
      pickWorker xxh3 ⟨ring.filter (·.workerId ≠ id)⟩ key = pickWorker xxh3 ⟨ring⟩ key) ∧
    ∀ e, pickWorker xxh3 ⟨e :: ring⟩ key = pickWorker xxh3 ⟨ring⟩ key ∨
      pickWorker xxh3 ⟨e :: ring⟩ key = some e.workerId := by
  obtain hkey | ⟨hash, hkey⟩ := Option.eq_none_or_eq_some key.hash
  · simp [pickWorker, hkey]
  refine ⟨fun ring' hperm => ?_, fun hash' hkey' hring => ?_, fun id hid => ?_, fun e => ?_⟩
  · by_cases hring : ring = []
    · subst hring
      rw [hperm.eq_nil]
    · obtain ⟨e, he, hpick, hleast⟩ := exists_least xxh3 hkey hring
      rw [hpick]
      exact pickWorker_of_least hkey (hperm.mem_iff.mpr he) fun e' he' =>
        hleast e' (hperm.mem_iff.mp he')
  · obtain ⟨e, he, hpick, hleast⟩ := exists_least xxh3 hkey' hring
    refine ⟨e, he, hpick, fun e' he' => ?_⟩
    have hrank := Prod.Lex.toLex_le_toLex.mp (hleast e' he')
    refine ⟨hrank.elim le_of_lt fun h => h.1.le, fun hsame => ?_⟩
    obtain ⟨-, hrest⟩ := hrank.resolve_left (by simp [hsame])
    exact (Prod.Lex.toLex_le_toLex.mp hrest).elim (fun h => le_of_lt h) fun h => le_of_eq h.1.symm
  · by_cases hring : ring = []
    · simp [hring]
    · obtain ⟨e, he, hpick, hleast⟩ := exists_least xxh3 hkey hring
      rw [hpick] at hid ⊢
      have hne : e.workerId ≠ id := fun h => hid (congrArg some h)
      exact pickWorker_of_least hkey (mem_filter.mpr ⟨he, by simpa using hne⟩) fun e' he' =>
        hleast e' (mem_of_mem_filter he')
  · obtain ⟨e₁, he₁, hpick, hleast⟩ := exists_least xxh3 hkey (cons_ne_nil e ring)
    rw [hpick]
    rcases mem_cons.mp he₁ with rfl | hold
    · exact .inr rfl
    · exact .inl (pickWorker_of_least hkey hold fun e' he' =>
        hleast e' (mem_cons_of_mem e he')).symm

/-- A hash that tells the two workers apart. -/
def byteSum (bytes : List UInt8) : BitVec 64 :=
  bytes.foldr (fun byte sum => 2 * sum + byte.toBitVec.setWidth 64) 0

/-- Of two workers with one pressure the one with the higher weight is picked, and of two others
the less loaded one, wherever they stand. -/
theorem pick_stable_two :
    combine byteSum 7 1 < combine byteSum 7 2 ∧
    pickWorker byteSum ⟨[⟨"a", 2, 4, 0, 8, 0⟩, ⟨"b", 1, 4, 0, 8, 0⟩]⟩ ⟨some 7⟩ = some "a" ∧
    pickWorker byteSum ⟨[⟨"a", 2, 1, 0, 8, 0⟩, ⟨"b", 1, 4, 0, 8, 0⟩]⟩ ⟨some 7⟩ = some "b" := by
  refine ⟨by decide +kernel, ?_, ?_⟩
  · rw [(pick_stable _ _ [⟨"b", 1, 4, 0, 8, 0⟩, ⟨"a", 2, 4, 0, 8, 0⟩]).1 _ (.swap ..)]
    decide +kernel
  · rw [(pick_stable _ _ [⟨"b", 1, 4, 0, 8, 0⟩, ⟨"a", 2, 1, 0, 8, 0⟩]).1 _ (.swap ..)]
    decide +kernel

end Sie.Gateway
