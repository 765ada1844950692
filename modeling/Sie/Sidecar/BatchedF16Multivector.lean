import Mathlib.Algebra.Order.Ring.Nat
import Mathlib.Data.List.Nodup

/-!
# Multivectors that arrive as one buffer for the batch

A backend may answer a batch with one buffer of f16 values and, for each work item, a record that
says where its values lie.  `apply_outcomes` of the sidecar's `dispatcher.rs` binds the outcomes to
the deliveries of the batch, first in first out for each work item id, and hands the values of a
record to the first outcome of its id.

Left out: the framing of a payload, which is the parameter `build`; the fields of an outcome that
these functions only pass on; logging; what `apply_outcome` sends.  A `usize` has 64 bits, so the
two conversions from `u64` do not fail.
-/

namespace Sie.Sidecar.BatchedF16Multivector

open List Function

inductive Disposition
  | publishAndAck
  | publishErrorAndAck
  | nakRetry
  deriving DecidableEq

structure ItemOutcome (R : Type) where
  workItemId : String
  disposition : Disposition
  resultMsgpack : List UInt8
  error : Option String
  errorCode : Option String
  rawOutput : Option R
  deriving DecidableEq

structure Item where
  workItemId : String
  byteOffset : ℕ
  byteLen : ℕ
  numTokens : ℕ
  tokenDims : ℕ

structure Output where
  valuesF16 : List UInt16
  items : List Item

structure Slice where
  valuesF16 : List UInt16
  numTokens : ℕ
  tokenDims : ℕ

/-- A delivery of the batch, as far as its outcome reads it. -/
structure ResolvedWorkItem where
  workItemId : String
  callerItemId : Option String

/-- What becomes of the delivery at an index of the batch. -/
inductive Settled (R : Type)
  | applied (idx : ℕ) (outcome : ItemOutcome R)
  | nak (idx : ℕ)
  deriving DecidableEq

def slice (batch : Output) (item : Item) : Except String Slice :=
  if item.byteOffset % 2 ≠ 0 ∨ item.byteLen % 2 ≠ 0 then
    .error "batched f16 multivector range is not f16-aligned"
  else if 2 ^ 64 ≤ item.byteOffset + item.byteLen then
    .error "batched f16 multivector byte range overflow"
  else
    let valueOffset := item.byteOffset / 2
    let valueEnd := (item.byteOffset + item.byteLen) / 2
    if valueEnd ≤ batch.valuesF16.length then
      .ok ⟨(batch.valuesF16.take valueEnd).drop valueOffset, item.numTokens, item.tokenDims⟩
    else .error "batched f16 multivector byte range exceeds buffer"

/-- The map from a work item id to the values of its record. -/
abbrev Index := String → Option (Except String Slice)

def duplicate : Except String Slice := .error "duplicate batched f16 multivector work_item_id"

def insertRecord (batch : Output) (indexed : Index) (item : Item) : Index :=
  if (indexed item.workItemId).isSome then update indexed item.workItemId (some duplicate)
  else update indexed item.workItemId (some (slice batch item))

def index (batches : List Output) : Index :=
  batches.foldl (fun indexed batch => batch.items.foldl (insertRecord batch) indexed) fun _ => none

/-- The indices of the deliveries of an id, the earliest first. -/
def byWiid (wiids : List String) (wiid : String) : List ℕ :=
  (wiids.zipIdx.filter (·.1 = wiid)).map Prod.snd

/-- The loop of `resolve_outcome_indices` over the outcomes. -/
def bindOutcomes : (String → List ℕ) → List String → List (Option ℕ)
  | _, [] => []
  | queues, wiid :: wiids =>
    (queues wiid).head? :: bindOutcomes (update queues wiid (queues wiid).tail) wiids

def resolveOutcomeIndices (resolved outcomes : List String) : List (Option ℕ) :=
  bindOutcomes (byWiid resolved) outcomes

variable {R : Type}

def errorOutcome (outcome : ItemOutcome R) (message : String) : ItemOutcome R :=
  { outcome with
    disposition := .publishErrorAndAck
    resultMsgpack := []
    error := some ("batched f16 multivector" ++ message)
    errorCode := some "raw_output_shape_error"
    rawOutput := none }

variable (build : List UInt16 → ℕ → ℕ → Option String → Except String (List UInt8)) {wiid : String}
  {wiids : List String}

def shapeOutcome (outcome : ItemOutcome R) (slice : Slice) (callerItemId : Option String) :
    ItemOutcome R :=
  if outcome.resultMsgpack ≠ [] ∨ outcome.disposition ≠ .publishAndAck then outcome
  else match build slice.valuesF16 slice.numTokens slice.tokenDims callerItemId with
    | .ok resultMsgpack => { outcome with resultMsgpack, rawOutput := none }
    | .error error => errorOutcome outcome (" shape: " ++ error)

/-- The outcome that is applied, from what the index holds under its id. -/
def effectiveOutcome (outcome : ItemOutcome R) (callerItemId : Option String) :
    Option (Except String Slice) → ItemOutcome R
  | some (.ok multivector) => shapeOutcome build outcome multivector callerItemId
  | some (.error message) => errorOutcome outcome (": " ++ message)
  | none => outcome

/-- The loop of `apply_outcomes`, and the NAKs of the deliveries that it leaves. -/
def applyBound (indexed : Index) (resolved : List (Option ResolvedWorkItem)) :
    List (ItemOutcome R × Option ℕ) → List (Settled R)
  | [] => resolved.zipIdx.filterMap fun (slot, idx) => slot.map fun _ => .nak idx
  | (_, none) :: rest => applyBound indexed resolved rest
  | (outcome, some idx) :: rest =>
    match resolved[idx]?.join with
    | none => applyBound indexed resolved rest
    | some item =>
      .applied idx
          (effectiveOutcome build outcome item.callerItemId (indexed outcome.workItemId)) ::
        applyBound (update indexed outcome.workItemId none) (resolved.set idx none) rest

def applyOutcomes (outcomes : List (ItemOutcome R)) (batches : List Output)
    (resolved : List ResolvedWorkItem) : List (Settled R) :=
  applyBound build (index batches) (resolved.map some)
    (outcomes.zip (resolveOutcomeIndices (resolved.map (·.workItemId))
      (outcomes.map (·.workItemId))))

/-! ### The index holds the record of each id -/

/-- The record lies inside its buffer. -/
def Item.Fits (item : Item) (batch : Output) : Prop :=
  2 ∣ item.byteOffset ∧ 2 ∣ item.byteLen ∧ item.byteOffset + item.byteLen < 2 ^ 64 ∧
    item.byteOffset + item.byteLen ≤ 2 * batch.valuesF16.length

/-- The values from the offset of the record on, as many as its length says. -/
def Item.recorded (item : Item) (batch : Output) : Slice :=
  ⟨(batch.valuesF16.drop (item.byteOffset / 2)).take (item.byteLen / 2), item.numTokens,
    item.tokenDims⟩

theorem slice_of_fits {batch : Output} {item : Item} (h : item.Fits batch) :
    slice batch item = .ok (item.recorded batch) := by
  obtain ⟨ho, hl, _, _⟩ := h
  have hsum : (item.byteOffset + item.byteLen) / 2 = item.byteOffset / 2 + item.byteLen / 2 := by
    omega
  rw [slice, if_neg (by omega), if_neg (by omega), if_pos (by omega), hsum, drop_take,
    Nat.add_sub_cancel_left, Item.recorded]

theorem slice_of_not_fits {batch : Output} {item : Item} (h : ¬ item.Fits batch) :
    ∃ message, slice batch item = .error message := by
  unfold slice
  split_ifs with ha hover
  · exact ⟨_, rfl⟩
  · exact ⟨_, rfl⟩
  · rw [if_neg fun hend => h ⟨by omega, by omega, by omega, by omega⟩]
    exact ⟨_, rfl⟩

/-- The records of all buffers, each with its own. -/
def records (batches : List Output) : List (Output × Item) :=
  batches.flatMap fun batch => batch.items.map (batch, ·)

/-- The index after further records. -/
def insertRecords : Index → List (Output × Item) → Index :=
  foldl fun indexed r => insertRecord r.1 indexed r.2

theorem index_eq (batches : List Output) :
    index batches = insertRecords (fun _ => none) (records batches) := by
  rw [index, insertRecords, records, foldl_flatMap]
  simp [foldl_map]

/-- The records of an id. -/
def recordsOf (rs : List (Output × Item)) (wiid : String) : List (Output × Item) :=
  rs.filter (·.2.workItemId = wiid)

/-- One more record of an id, by what the index holds for it. -/
def addRecord (held : Option (Except String Slice)) (r : Output × Item) :
    Option (Except String Slice) :=
  some (if held.isSome then duplicate else slice r.1 r.2)

theorem insertRecords_eq (indexed : Index) (rs : List (Output × Item)) :
    insertRecords indexed rs wiid = (recordsOf rs wiid).foldl addRecord (indexed wiid) := by
  induction rs generalizing indexed with
  | nil => rfl
  | cons r rs ih =>
    refine (ih _).trans ?_
    by_cases hr : r.2.workItemId = wiid
    · have hcons : recordsOf (r :: rs) wiid = r :: recordsOf rs wiid :=
        filter_cons_of_pos (by simpa)
      rw [hcons, foldl_cons]
      unfold insertRecord addRecord
      split <;> simp [*]
    · have hcons : recordsOf (r :: rs) wiid = recordsOf rs wiid := filter_cons_of_neg (by simpa)
      rw [hcons]
      dsimp only [insertRecord]
      split <;> rw [update_of_ne (Ne.symm hr)]

theorem foldl_addRecord_some (slice : Except String Slice) {rs : List (Output × Item)}
    (h : rs ≠ []) : rs.foldl addRecord (some slice) = some duplicate := by
  induction rs generalizing slice with
  | nil => exact absurd rfl h
  | cons r rs ih =>
    cases rs with
    | nil => rfl
    | cons => exact ih duplicate (by simp)

/-! ### The deliveries of an id take its outcomes in turn -/

theorem mem_byWiid {i : ℕ} :
    i ∈ byWiid wiids wiid ↔ wiids[i]? = some wiid := by
  simp [byWiid, mem_zipIdx_iff_getElem?]

theorem nodup_byWiid (wiids : List String) (wiid : String) : (byWiid wiids wiid).Nodup := by
  have hsub : byWiid wiids wiid <+ wiids.zipIdx.map Prod.snd := filter_sublist.map _
  refine hsub.nodup ?_
  rw [zipIdx_map_snd]
  exact nodup_range'

theorem length_byWiid (wiids : List String) (wiid : String) :
    (byWiid wiids wiid).length = wiids.count wiid := by
  have hfst := congrArg length
    (filter_map (p := fun w => decide (w = wiid)) (f := Prod.fst) (l := wiids.zipIdx))
  rw [zipIdx_map_fst, length_map] at hfst
  rw [byWiid, length_map, count_eq_length_filter]
  exact hfst.symm

variable {build} {indexed : Index} {resolved : List (Option ResolvedWorkItem)} {i : ℕ}

theorem applied_notMem_of_taken (hslot : resolved[i]? = some none)
    (bound : List (ItemOutcome R × Option ℕ)) (eff : ItemOutcome R) :
    .applied i eff ∉ applyBound build indexed resolved bound := by
  induction bound generalizing indexed resolved with
  | nil => simp [applyBound]
  | cons b bound ih =>
    obtain ⟨_, _ | j⟩ := b
    · exact ih hslot
    · rw [applyBound]
      split
      · exact ih hslot
      next hitem =>
        have hji : j ≠ i := by
          rintro rfl
          simp [hslot] at hitem
        rw [mem_cons, Settled.applied.injEq]
        rintro (⟨rfl, -⟩ | hmem)
        · exact hji rfl
        · exact ih (by rw [getElem?_set_ne hji, hslot]) hmem

/-- The deliveries of an id that are waiting are there, each once, and wait for no other id. -/
structure Waiting (queues : String → List ℕ) (resolved : List (Option ResolvedWorkItem))
    (wiid : String) : Prop where
  nodup : (queues wiid).Nodup
  slots : ∀ j ∈ queues wiid, ∃ item, resolved[j]? = some (some item)
  apart : ∀ other ≠ wiid, ∀ j ∈ queues other, j ∉ queues wiid

/-- The queue of `other` moves on, and the slots of those that wait stay. -/
theorem Waiting.next {queues : String → List ℕ} (h : Waiting queues resolved wiid)
    (other : String) (resolved' : List (Option ResolvedWorkItem))
    (hsame : ∀ k ∈ update queues other (queues other).tail wiid, resolved'[k]? = resolved[k]?) :
    Waiting (update queues other (queues other).tail) resolved' wiid := by
  have hsub : ∀ w, update queues other (queues other).tail w <+ queues w := by
    intro w
    by_cases hw : w = other
    · subst hw
      rw [update_self]
      exact tail_sublist _
    · rw [update_of_ne hw]
  refine ⟨(hsub wiid).nodup h.nodup, fun k hk => ?_, fun w hw k hk hk' => ?_⟩
  · rw [hsame k hk]
    exact h.slots k ((hsub wiid).subset hk)
  · exact h.apart w hw k ((hsub w).subset hk) ((hsub wiid).subset hk')

/-- The induction is on the outcomes: one of another id takes neither the delivery nor what the
index holds for it, and only the first of the id finds what the index holds. -/
theorem applied_mem_iff {queues : String → List ℕ} (hwaiting : Waiting queues resolved wiid)
    {n : ℕ} (hi : (queues wiid)[n]? = some i) {item : ResolvedWorkItem}
    (hslot : resolved[i]? = some (some item)) {outcomes : List (ItemOutcome R)}
    {outcome : ItemOutcome R}
    (houtcome : (outcomes.filter (·.workItemId = wiid))[n]? = some outcome)
    (eff : ItemOutcome R) :
    .applied i eff ∈ applyBound build indexed resolved
        (outcomes.zip (bindOutcomes queues (outcomes.map (·.workItemId)))) ↔
      eff = effectiveOutcome build outcome item.callerItemId
        (if n = 0 then indexed wiid else none) := by
  induction outcomes generalizing indexed resolved queues n with
  | nil => simp at houtcome
  | cons o outcomes ih =>
    rw [map_cons, bindOutcomes, zip_cons_cons]
    by_cases ho : o.workItemId = wiid
    · subst ho
      rw [filter_cons_of_pos (by simp)] at houtcome
      obtain ⟨j, js, hq⟩ : ∃ j js, queues o.workItemId = j :: js :=
        exists_cons_of_ne_nil fun hnil => by simp [hnil] at hi
      have hnodup := hwaiting.nodup
      rw [hq, nodup_cons] at hnodup
      rw [hq] at hi
      rw [hq, head?_cons, applyBound]
      cases n with
      | zero =>
        cases hi
        cases houtcome
        have htaken : (resolved.set i none)[i]? = some none := by
          rw [getElem?_set_self (List.getElem?_eq_some_iff.1 hslot).1]
        rw [hslot]
        simp [applied_notMem_of_taken htaken]
      | succ n =>
        have hnot : ∀ k ∈ js, j ≠ k := fun k hk heq => hnodup.1 (heq ▸ hk)
        have hji : j ≠ i := hnot i (mem_of_getElem? hi)
        obtain ⟨item', hitem'⟩ := hwaiting.slots j (by simp [hq])
        have hwaiting' := hwaiting.next o.workItemId (resolved.set j none)
          fun k hk => getElem?_set_ne (hnot k (by simpa [hq] using hk))
        simp only [hitem', Option.join_some, mem_cons]
        rw [← hq, ih hwaiting' (by simpa [hq] using hi) (by rw [getElem?_set_ne hji, hslot])
          houtcome]
        simp [Ne.symm hji]
    · rw [filter_cons_of_neg (by simpa using ho)] at houtcome
      have hqueue : update queues o.workItemId (queues o.workItemId).tail wiid = queues wiid :=
        update_of_ne (Ne.symm ho) _ _
      have hpass := @ih indexed _ _ (hwaiting.next o.workItemId resolved fun _ _ => rfl) _
        (by rwa [hqueue]) hslot houtcome
      cases hq : (queues o.workItemId).head? with
      | none => exact hpass
      | some j =>
        have hnot : ∀ k ∈ queues wiid, j ≠ k := fun k hk heq =>
          hwaiting.apart _ ho j (mem_of_mem_head? hq) (heq ▸ hk)
        have hji : j ≠ i := hnot i (mem_of_getElem? hi)
        rw [applyBound]
        split
        · exact hpass
        · have hwaiting' := hwaiting.next o.workItemId (resolved.set j none)
            fun k hk => getElem?_set_ne (hnot k (by rwa [hqueue] at hk))
          rw [mem_cons, ih hwaiting' (by rwa [hqueue]) (by rw [getElem?_set_ne hji, hslot])
            houtcome, update_of_ne (Ne.symm ho)]
          simp [Ne.symm hji]

theorem waiting_byWiid (resolved : List ResolvedWorkItem) (wiid : String) :
    Waiting (byWiid (resolved.map (·.workItemId))) (resolved.map some) wiid where
  nodup := nodup_byWiid _ _
  slots := by
    intro j hj
    rw [mem_byWiid, getElem?_map, Option.map_eq_some_iff] at hj
    obtain ⟨item, hitem, -⟩ := hj
    exact ⟨item, by simp [hitem]⟩
  apart := by
    intro other hother j hj hj'
    rw [mem_byWiid] at hj hj'
    exact hother (Option.some.inj (hj.symm.trans hj'))

/-! ### What a delivery publishes -/

variable (build) {batches : List Output} {outcome : ItemOutcome R} {callerItemId : Option String}

/-- A delivery publishes the values, token count and width that the record of its id names, or the
error of a record that does not fit. -/
structure Publishes (outcome : ItemOutcome R) (callerItemId : Option String)
    (eff : ItemOutcome R) (r : Output × Item) : Prop where
  fits : r.2.Fits r.1 → eff = shapeOutcome build outcome (r.2.recorded r.1) callerItemId
  unfit : ¬ r.2.Fits r.1 → ∃ message, slice r.1 r.2 = .error message ∧
    eff = errorOutcome outcome (": " ++ message)

/-- Each delivery of the id that has an outcome, the first one the first outcome of the id and so
on, applies one outcome: that of the record of the id, or the backend's own without a record. -/
def Owned (outcomes : List (ItemOutcome R)) (batches : List Output)
    (resolved : List ResolvedWorkItem) (wiid : String) : Prop :=
  ∀ (n i : ℕ) (item : ResolvedWorkItem) (outcome : ItemOutcome R),
    (byWiid (resolved.map (·.workItemId)) wiid)[n]? = some i → resolved[i]? = some item →
    (outcomes.filter (·.workItemId = wiid))[n]? = some outcome →
    ∃ eff, (∀ eff', .applied i eff' ∈ applyOutcomes build outcomes batches resolved ↔ eff' = eff) ∧
      (∀ r ∈ recordsOf (records batches) wiid, Publishes build outcome item.callerItemId eff r) ∧
      (recordsOf (records batches) wiid = [] → eff = outcome)

theorem index_apply (batches : List Output) (wiid : String) :
    index batches wiid = (recordsOf (records batches) wiid).foldl addRecord none := by
  rw [index_eq, insertRecords_eq]

theorem publishes_slice (r : Output × Item) :
    Publishes build outcome callerItemId
      (effectiveOutcome build outcome callerItemId (some (slice r.1 r.2))) r where
  fits := fun h => by rw [slice_of_fits h, effectiveOutcome]
  unfit := fun h => by
    obtain ⟨message, hslice⟩ := slice_of_not_fits h
    exact ⟨message, hslice, by rw [hslice, effectiveOutcome]⟩

def success (workItemId : String) : ItemOutcome R :=
  ⟨workItemId, .publishAndAck, [], none, none, none⟩

variable {build}

/-- A success without a payload is not what any record makes of it. -/
theorem not_publishes_success
    (hbuild : ∀ values tokens dims id, build values tokens dims id ≠ .ok []) {r : Output × Item} :
    ¬ Publishes (R := R) build (success wiid) callerItemId (success wiid) r := by
  intro h
  by_cases hfits : r.2.Fits r.1
  · have heq := h.fits hfits
    rw [shapeOutcome, if_neg (by simp [success])] at heq
    split at heq
    next bytes hok =>
      have hnil : [] = bytes := congrArg ItemOutcome.resultMsgpack heq
      exact hbuild _ _ _ _ (hnil ▸ hok)
    · cases congrArg ItemOutcome.disposition heq
  · obtain ⟨message, -, heq⟩ := h.unfit hfits
    cases congrArg ItemOutcome.disposition heq

theorem slice_ne_duplicate (r : Output × Item) : slice r.1 r.2 ≠ duplicate := by
  unfold slice duplicate
  split_ifs
  · simp
  · simp
  · dsimp only
    split <;> simp

/-- Neither is the error of a duplicate record. -/
theorem not_publishes_duplicate {r : Output × Item} :
    ¬ Publishes (R := R) build (success wiid) callerItemId
      (effectiveOutcome build (success wiid) callerItemId (some duplicate)) r := by
  intro h
  by_cases hfits : r.2.Fits r.1
  · have heq := h.fits hfits
    rw [shapeOutcome, if_neg (by simp [success])] at heq
    split at heq
    · cases congrArg ItemOutcome.disposition heq
    · have htext := congrArg (fun o => o.error.map String.toList) heq
      simp [effectiveOutcome, duplicate, errorOutcome] at htext
  · obtain ⟨message, hslice, heq⟩ := h.unfit hfits
    have htext := (String.append_right_inj _).mp
      ((String.append_right_inj _).mp (Option.some.inj (congrArg ItemOutcome.error heq)))
    exact slice_ne_duplicate r (by rw [hslice, duplicate, htext])

variable (build)

/-- **Multivectors reach their own items.**  For an id of the batch: whatever the outcomes, its
deliveries publish what the record of the id names (the error of a record that does not fit, the
backend's own outcome without a record), exactly when an id with a record is in the batch once and
has one record.  The records and deliveries of other ids do not matter. -/
theorem multivector_of_own_record
    (hbuild : ∀ values tokens dims id, build values tokens dims id ≠ .ok [])
    (batches : List Output) (resolved : List ResolvedWorkItem) (wiid : String)
    (hwiid : wiid ∈ resolved.map (·.workItemId)) :
    (∀ outcomes : List (ItemOutcome R), Owned build outcomes batches resolved wiid) ↔
      ∀ r ∈ records batches, r.2.workItemId = wiid →
        (resolved.map (·.workItemId)).count wiid = 1 ∧
          ((records batches).map (·.2.workItemId)).count wiid = 1 := by
  have hrecords : ((records batches).map (·.2.workItemId)).count wiid =
      (recordsOf (records batches) wiid).length := by
    rw [count_eq_length_filter, filter_map, length_map]
    rfl
  rw [← length_byWiid, hrecords]
  constructor
  · intro howned r hr hid
    have hr : r ∈ recordsOf (records batches) wiid := mem_filter.mpr ⟨hr, by simpa using hid⟩
    -- two outcomes for the id, which leave the payload to the record
    have hpublishes : ∀ n i, (byWiid (resolved.map (·.workItemId)) wiid)[n]? = some i → n < 2 →
        ∃ callerItemId, Publishes (R := R) build (success wiid) callerItemId
          (effectiveOutcome build (success wiid) callerItemId
            (if n = 0 then index batches wiid else none)) r := by
      intro n i hi hn
      obtain ⟨item, hitem⟩ := (waiting_byWiid resolved wiid).slots i (mem_of_getElem? hi)
      have houtcome : ([success wiid, success wiid].filter
          fun o : ItemOutcome R => o.workItemId = wiid)[n]? = some (success wiid) := by
        have hn : n = 0 ∨ n = 1 := by omega
        rcases hn with rfl | rfl <;> simp [success]
      obtain ⟨eff, heff, hown, -⟩ := howned [success wiid, success wiid] n i item (success wiid) hi
        (by simpa using hitem) houtcome
      have heq := (applied_mem_iff (waiting_byWiid resolved wiid) hi hitem houtcome eff).mp
        ((heff eff).mpr rfl)
      exact ⟨item.callerItemId, heq ▸ hown r hr⟩
    have hpos : 0 < (byWiid (resolved.map (·.workItemId)) wiid).length := by
      rw [length_byWiid]
      exact count_pos_iff.mpr hwiid
    by_cases htwice : 1 < (byWiid (resolved.map (·.workItemId)) wiid).length
    · obtain ⟨_, hsecond⟩ := hpublishes 1 _ (List.getElem?_eq_getElem htwice) (by decide)
      exact absurd hsecond (not_publishes_success hbuild)
    · refine ⟨by omega, ?_⟩
      obtain ⟨_, hfirst⟩ := hpublishes 0 _ (List.getElem?_eq_getElem hpos) (by decide)
      rw [if_pos rfl, index_apply] at hfirst
      cases hof : recordsOf (records batches) wiid with
      | nil => simp [hof] at hr
      | cons r' rest =>
        by_cases hrest : rest = []
        · rw [hrest, length_singleton]
        · rw [hof, foldl_cons, addRecord, foldl_addRecord_some _ hrest] at hfirst
          exact absurd hfirst not_publishes_duplicate
  · intro hcond outcomes n i item outcome hi hitem houtcome
    have hslot : (resolved.map some)[i]? = some (some item) := by simp [hitem]
    refine ⟨_, applied_mem_iff (waiting_byWiid resolved wiid) hi hslot houtcome,
      fun r hr => ?_, fun hnone => ?_⟩
    · obtain ⟨hmem, hid⟩ := mem_filter.mp hr
      obtain ⟨honce, hone⟩ := hcond r hmem (by simpa using hid)
      obtain ⟨r', heq⟩ := length_eq_one_iff.mp hone
      obtain rfl : r = r' := by simpa [heq] using hr
      have hn : n = 0 := by
        have hlt := (List.getElem?_eq_some_iff.mp hi).1
        omega
      rw [if_pos hn, index_apply, heq]
      exact publishes_slice build r
    · rw [index_apply, hnone, foldl_nil, ite_self, effectiveOutcome]

/-- A framing that keeps the low bytes of the values after their number. -/
def lowBytes (values : List UInt16) (_ _ : ℕ) (_ : Option String) : Except String (List UInt8) :=
  .ok (UInt8.ofNat values.length :: values.map (·.toUInt8))

theorem multivector_of_own_record_beside_misaligned :
    .applied 0 { success (R := Unit) "a" with resultMsgpack := [2, 2, 3] } ∈
      applyOutcomes lowBytes [success "a", success "b", success "b"]
        [⟨[1, 2, 3], [⟨"a", 2, 4, 2, 1⟩, ⟨"c", 1, 2, 1, 1⟩]⟩]
        [⟨"a", none⟩, ⟨"b", none⟩, ⟨"b", none⟩] := by
  have howned := (multivector_of_own_record (R := Unit) lowBytes (by simp [lowBytes])
    [⟨[1, 2, 3], [⟨"a", 2, 4, 2, 1⟩, ⟨"c", 1, 2, 1, 1⟩]⟩]
    [⟨"a", none⟩, ⟨"b", none⟩, ⟨"b", none⟩] "a" (by decide)).mpr fun _ _ _ =>
      ⟨by decide, by decide⟩
  obtain ⟨_, hmem, hown, -⟩ := howned [success "a", success "b", success "b"] 0 0 _ (success "a")
    (by decide) rfl (by decide)
  rw [hmem, (hown _ mem_cons_self).fits ⟨by decide, by decide, by decide, by decide⟩]
  rfl

/-- One work item delivered twice: the second delivery publishes a success without values. -/
theorem second_delivery_without_values :
    .applied 1 (success (R := Unit) "a") ∈ applyOutcomes lowBytes [success "a", success "a"]
      [⟨[1, 2], [⟨"a", 0, 4, 2, 1⟩]⟩] [⟨"a", none⟩, ⟨"a", none⟩] := by
  decide

end Sie.Sidecar.BatchedF16Multivector
