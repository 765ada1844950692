import Sie.Sidecar.Item

/-!
# The lane

`scheduler/lane.rs`: when a model's pending work is handed to its engine, which
runs one batch at a time.  The lane is shared by all `(op, lora)` queues of a
scheduler.  It keeps one flag about the last batch sent, `continues`, and a watch
for the arrivals expected after a return.

Durations are nanoseconds.  The echo score is a rational; half a round trip is
taken in whole nanoseconds.
-/

namespace Sie.Sidecar

/-- What the lane says about the pending work right now. -/
inductive Verdict
  | send (reason : FlushReason)
  | waitUntil (deadline : Instant)
  | hold
  deriving DecidableEq

/-- Arrivals expected after a returned batch, and the time they have. -/
structure EchoWatch where
  /-- No waiting past this instant, whatever arrives. -/
  latest : Instant
  /-- Waiting also ends when nothing has arrived for this long. -/
  quiet : ℕ
  /-- The return, or the last arrival since. -/
  lastEvent : Instant
  needed : ℕ
  seen : ℕ
  deriving DecidableEq

/-- When the gather ends unless another request arrives first. -/
def EchoWatch.deadline (w : EchoWatch) : Instant := min w.latest (w.lastEvent + w.quiet)

/-- Dispatch state of one model's lane. -/
structure Lane where
  /-- Batches handed to the engine and not yet returned. -/
  inFlight : ℕ
  /-- Open after a return until its arrivals came back or its window closed. -/
  watch : Option EchoWatch
  /-- Running share of returns whose callers came straight back. -/
  echoScore : ℚ
  /-- The pending work has waited in a gather since the last send. -/
  gathered : Bool
  /-- The last batch sent left part of one of its requests in the queue. -/
  continues : Bool
  deriving DecidableEq

namespace Lane

/-- A gather window shorter than this (200 microseconds) is not worth a timer. -/
def minGather : ℕ := 200000

/-- Weight of the newest observation in the echo score. -/
def echoScoreWeight : ℚ := 1 / 4

/-- The lane gathers while the echo score is at or above this. -/
def echoScoreGatherAt : ℚ := 1 / 2

/-- A new lane starts by gathering. -/
def default : Lane where
  inFlight := 0
  watch := none
  echoScore := 1
  gathered := false
  continues := false

section

variable (l : Lane)

def recordEcho (cameBack : Bool) : Lane :=
  { l with
    echoScore := l.echoScore + echoScoreWeight * ((if cameBack then 1 else 0) - l.echoScore) }

/-- Close the open watch, if any, scoring what it saw. -/
def closeWatch : Lane :=
  match l.watch with
  | none => l
  | some w => { l with watch := none }.recordEcho (decide (w.needed ≤ w.seen))

/-- Close a watch whose window has passed, as a miss. -/
def settleWatch (now : Instant) : Lane :=
  if l.watch.any fun w => decide (w.deadline ≤ now) then l.closeWatch else l

/-- So many `requests` arrived. -/
def onArrival (now : Instant) (requests : ℕ) : Lane :=
  match l.watch with
  | none => l
  | some w =>
    if w.deadline ≤ now then l.settleWatch now
    else
      let w' := { w with seen := w.seen + requests, lastEvent := now }
      if w'.needed ≤ w'.seen then { l with watch := none }.recordEcho true
      else { l with watch := some w' }

/-- A batch was handed to the engine. -/
def onDispatch (leavesRemainder : Bool) : Lane :=
  { l with inFlight := l.inFlight + 1, gathered := false, continues := leavesRemainder }

/-- A batch that answered `answered` requests came back after `roundTrip`. -/
def onReturn (now : Instant) (answered roundTrip quiet longest : ℕ) : Lane :=
  let l := { l with inFlight := l.inFlight - 1 }
  if 0 < l.inFlight then l
  else
    let l := l.closeWatch
    let total := min longest (roundTrip / 2)
    if answered = 0 ∨ min quiet total < minGather then l
    else
      { l with
        watch := some
          { latest := now + total, quiet, lastEvent := now, needed := answered, seen := 0 } }

/-- Whether a return is currently followed by a gather. -/
def gathers : Bool := decide (echoScoreGatherAt ≤ l.echoScore)

/-- What to do with the pending work; `full` is the cap it has already reached, if
any. -/
def verdict (now : Instant) (full : Option FlushReason) : Verdict × Lane :=
  match full with
  | some reason => (.send reason, l)
  | none =>
    if 0 < l.inFlight then (if l.continues then .send .drain else .hold, l)
    else
      let l := l.settleWatch now
      match l.watch with
      | some w =>
        if l.gathers then (.waitUntil w.deadline, { l with gathered := true })
        else (.send .drain, l)
      | none => (.send (if l.gathered then .coalesce else .idleBypass), l)

/-- Nothing is with the engine and no return is being watched. -/
def isIdle (now : Instant) : Bool × Lane :=
  let l := l.settleWatch now
  (l.inFlight == 0 && l.watch.isNone, l)

end

/-! ## What the events do to the two counters of the busy rule -/

@[simp] theorem closeWatch_counts (l : Lane) :
    l.closeWatch.inFlight = l.inFlight ∧ l.closeWatch.continues = l.continues := by
  simp only [closeWatch]
  split <;> exact ⟨rfl, rfl⟩

section

variable (l : Lane) (now : Instant)

@[simp] theorem settleWatch_counts :
    (l.settleWatch now).inFlight = l.inFlight ∧ (l.settleWatch now).continues = l.continues := by
  simp only [settleWatch]
  split_ifs <;> simp

@[simp] theorem onArrival_counts (requests : ℕ) :
    (l.onArrival now requests).inFlight = l.inFlight ∧
      (l.onArrival now requests).continues = l.continues := by
  simp only [onArrival]
  split
  · exact ⟨rfl, rfl⟩
  · split_ifs <;> simp [recordEcho]

@[simp] theorem onReturn_counts (answered roundTrip quiet longest : ℕ) :
    (l.onReturn now answered roundTrip quiet longest).inFlight = l.inFlight - 1 ∧
      (l.onReturn now answered roundTrip quiet longest).continues = l.continues := by
  simp only [onReturn]
  split_ifs <;> simp

@[simp] theorem verdict_counts (full : Option FlushReason) :
    (l.verdict now full).2.inFlight = l.inFlight ∧
      (l.verdict now full).2.continues = l.continues := by
  cases full with
  | some => exact ⟨rfl, rfl⟩
  | none =>
    by_cases hbusy : 0 < l.inFlight
    · simp [verdict, if_pos hbusy, and_self]
    simp only [verdict, if_neg hbusy]
    cases (l.settleWatch now).watch with
    | none => simp
    | some w =>
      simp only
      split_ifs <;> simp

end

end Lane

end Sie.Sidecar
