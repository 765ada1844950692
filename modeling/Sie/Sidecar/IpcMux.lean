import Mathlib.Data.Finset.Basic
import Mathlib.Data.List.AList
import Sie.Sidecar.ResponseAssembler

/-!
# The multiplexed IPC client

Model of the sidecar's `ipc_mux.rs`: callers put commands in a bounded queue, the writer of a
connection registers each responder in the in-flight map and writes the request, the reader hands
response frames to the entry of their request, and the actor drains the map when the connection
is lost, then connects again.

A step is what one task does between two points where another one can come in: the sections under
the map's lock or an entry's lock, the load or store of a cancellation flag, and the sends.  The
entries of the map are shared cells: a cell lives as long as the map or a task refers to it, and
its drop gives the assembler's reservation back.  Request ids are distinct, so a cell is named by
its request id.  Locks are not poisoned: no task panics while it holds one.
-/

namespace Sie.Sidecar

open Sie.Wire

namespace IpcMux

def maxFrameBytes : ℕ := 32 * 1024 * 1024

def maxInflight : ℕ := 1024

inductive MuxError
  | io
  | frameTooLarge (len : ℕ)
  | responseChunk (e : ResponseChunkError)
  | connectionLost
  deriving DecidableEq

abbrev CallResult := Except MuxError AssembledResponse

/-- What the response of a result holds of the budget. -/
def CallResult.reserved : CallResult → ℕ
  | .ok r => r.reserved
  | .error _ => 0

/-- `PendingResponse`: whether the responder is still there, and the assembler. -/
structure PendingResponse where
  respond : Bool
  assembler : ResponseAssembler
  deriving DecidableEq

/-- A command; its responder and its flag belong to the call of the request id. -/
structure Command where
  requestId : String
  len : ℕ
  deriving DecidableEq

/-- A call: its future waits for room in the queue, then for an answer.  When it is dropped, its
guard first stores the flag and then removes the entry. -/
inductive CallPhase
  | fresh
  | sending (len : ℕ)
  | waiting
  | answered
  | received
  | cancelling
  | cancelled
  deriving DecidableEq

/-- The flag `cancelled` of a call. -/
def CallPhase.flag : CallPhase → Bool
  | .cancelling | .cancelled => true
  | _ => false

/-- The future of the call is there no more. -/
def CallPhase.over : CallPhase → Bool
  | .received | .cancelled => true
  | _ => false

/-- The writer of a connection: waits for a command, has one in hand, has registered it and
writes it, or has taken the entry of a frame that is too large; or it has returned. -/
inductive Writer
  | idle
  | took (c : Command)
  | writing (c : Command)
  | refusing (c : Command)
  | failed
  | closed
  deriving DecidableEq

/-- The reader of a connection: waits for a frame, has the entry of a frame, or has something to
deliver, first with the entry still in the map.  Without a responder nothing is delivered. -/
inductive Reader
  | gone
  | reading
  | holding (requestId : String) (frame : Bytes) (requiresChunkParser : Bool)
  | delivering (requestId : String) (delivery : Option CallResult)
  | sending (requestId : String) (delivery : Option CallResult)
  deriving DecidableEq

/-- The actor: the writer runs with the connection, the reader until it is stopped, and what was
drained is answered before the next connection. -/
inductive Actor
  | connecting
  | running (writer : Writer) (reader : Reader)
  | stopping (channelClosed : Bool) (reader : Reader)
  | draining (channelClosed : Bool) (left : Finset String)
  | exited
  deriving DecidableEq

namespace Actor

def reader : Actor → Reader
  | .running _ r | .stopping _ r => r
  | _ => .gone

def setReader (r : Reader) : Actor → Actor
  | .running w _ => .running w r
  | .stopping closed _ => .stopping closed r
  | a => a

def writer : Actor → Option Writer
  | .running w _ => some w
  | _ => none

def left : Actor → Finset String
  | .draining _ left => left
  | _ => ∅

/-- A connection is there, it is being drained, or there is none. -/
inductive Link
  | up
  | draining
  | down
  deriving DecidableEq

def link : Actor → Link
  | .running _ _ | .stopping _ _ => .up
  | .draining _ _ => .draining
  | .connecting | .exited => .down

end Actor

/-- The entry the reader refers to. -/
def Reader.hand : Reader → Option String
  | .holding id _ _ | .delivering id _ | .sending id _ => some id
  | _ => none

/-- The entry the writer refers to. -/
@[simp]
def Writer.hand : Writer → Option String
  | .refusing c => some c.requestId
  | _ => none

end IpcMux

open IpcMux

structure Mux where
  budget : ResponseChunkBudget
  calls : AList fun _ : String => CallPhase
  queue : List Command
  /-- The keys of the in-flight map. -/
  inflight : Finset String
  cells : AList fun _ : String => PendingResponse
  /-- The responses in the hands of callers. -/
  held : AList fun _ : String => AssembledResponse
  actor : Actor
  connection : ℕ
  closed : Bool

inductive MuxEvent
  | call (requestId : String) (len : ℕ)
  | enqueue (requestId : String)
  | cancel (requestId : String)
  | remove (requestId : String)
  | receive (requestId : String)
  | dropResponse (requestId : String)
  | close
  | connect
  | recv
  | register
  | refuse
  | answerRefused
  | written
  | writeError
  | read (frame : Bytes)
  | readerExit
  | push (allocates : Bool)
  | unregister
  | deliver
  | lost
  | abort
  | drain
  | drainOne (requestId : String)
  | reconnect
  deriving DecidableEq

inductive MuxOutput
  | registered (requestId : String) (connection : ℕ)
  | read (connection : ℕ) (frame : Bytes)
  | answer (requestId : String) (result : CallResult)
  | drained (connection : ℕ)
  deriving DecidableEq

namespace Mux

def start (limit : ℕ) : Mux := ⟨⟨0, limit⟩, ∅, [], ∅, ∅, ∅, .connecting, 0, false⟩

section

variable (s : Mux) (id : String)

def phase : CallPhase := (s.calls.lookup id).getD .fresh

def setPhase (p : CallPhase) : Mux :=
  { s with calls := s.calls.insert id p }

/-- The map or a task refers to the cell. -/
def refers : Bool :=
  id ∈ s.inflight ∨ s.actor.writer.bind Writer.hand = some id ∨ s.actor.reader.hand = some id ∨
    id ∈ s.actor.left

/-- A reference to the cell was dropped: without another one the cell is dropped, and the
assembler gives its reservation back. -/
def sweep : Mux :=
  if s.refers id then s
  else
    match s.cells.lookup id with
    | none => s
    | some cell =>
      { s with
        budget := s.budget.release cell.assembler.reserved
        cells := s.cells.erase id }

/-- The caller drops the response of the call, if it has one. -/
def dropHeld : Mux :=
  match s.held.lookup id with
  | none => s
  | some r =>
    { s with
      budget := s.budget.release r.reserved
      held := s.held.erase id }

/-- `respond.send`: without a receiver the result is dropped. -/
def send (result : CallResult) : Mux × List MuxOutput :=
  if s.phase id = .waiting then
    ({ s.setPhase id .answered with
      held := match result with
        | .ok r => s.held.insert id r
        | .error _ => s.held }, [.answer id result])
  else ({ s with budget := s.budget.release result.reserved }, [.answer id result])

/-- The responder is taken out of the cell, and gets the error. -/
def answerError (e : MuxError) : Mux × List MuxOutput :=
  match s.cells.lookup id with
  | none => (s, [])
  | some cell =>
    if cell.respond then
      { s with cells := s.cells.insert id { cell with respond := false } }.send id (.error e)
    else (s, [])

end

def setReader (s : Mux) (r : Reader) : Mux := { s with actor := s.actor.setReader r }

/-- The step of `recv`: a command whose call is cancelled is skipped. -/
def recvStep (s : Mux) (r : Reader) : Option (Mux × List MuxOutput) :=
  match s.queue with
  | [] => if s.closed then some ({ s with actor := .running .closed r }, []) else none
  | c :: queue =>
    if (s.phase c.requestId).flag then some ({ s with queue := queue }, [])
    else some ({ s with queue := queue, actor := .running (.took c) r }, [])

section

variable (s : Mux) (c : Command) (r : Reader)

/-- The flag is loaded again under the map's lock, and the responder is registered. -/
def registerStep : Mux × List MuxOutput :=
  if (s.phase c.requestId).flag then ({ s with actor := .running .idle r }, [])
  else
    ({ s with
      inflight := insert c.requestId s.inflight
      cells := s.cells.insert c.requestId ⟨true, ⟨c.requestId, none⟩⟩
      actor := .running (.writing c) r }, [.registered c.requestId s.connection])

/-- A frame that is too large: the entry is taken out of the map. -/
def refuseStep : Mux :=
  if c.requestId ∈ s.inflight then
    { s with
      inflight := s.inflight.erase c.requestId
      actor := .running (.refusing c) r }
  else { s with actor := .running .idle r }

/-- A write failed: under the map's lock the entry is removed and its caller told. -/
def writeErrorStep : Mux × List MuxOutput :=
  if c.requestId ∈ s.inflight then
    let (s, os) := s.answerError c.requestId .io
    ({ s with
      inflight := s.inflight.erase c.requestId
      actor := .running .failed r }.sweep c.requestId, os)
  else ({ s with actor := .running .failed r }, [])

end

section
variable (limits : ResponseChunkLimits) (sha256 : Bytes → Digest)

/-- A frame was read: its route, and the entry of its request. -/
def readStep (s : Mux) (frame : Bytes) : Mux :=
  if frame.length > maxFrameBytes then s.setReader .gone
  else
    match responseFrameRoute limits frame with
    | .error _ => s.setReader .gone
    | .ok route =>
      if route.requestId ∈ s.inflight then
        s.setReader (.holding route.requestId frame route.requiresChunkParser)
      else s

/-- The frame goes to the assembler. -/
def pushed (b : ResponseChunkBudget) (a : ResponseAssembler) (frame : Bytes)
    (requiresChunkParser allocates : Bool) : Pushed :=
  if requiresChunkParser then a.push limits sha256 allocates b frame
  else ⟨b, a, a.pushLegacy frame⟩

/-- What the assembler returned, as the result of the call. -/
def delivery : FrameResult → Option CallResult
  | .ok .pending => none
  | .ok (.complete r) => some (.ok r)
  | .error e => some (.error (.responseChunk e))

/-- Under the cell's lock: the frame is assembled, and with a result the responder is taken. -/
def pushStep (s : Mux) (id : String) (cell : PendingResponse) (p : Pushed) : Mux :=
  match delivery p.result with
  | none =>
    { s with
      budget := p.budget
      cells := s.cells.insert id { cell with assembler := p.assembler }
      actor := s.actor.setReader .reading }.sweep id
  | some result =>
    { s with
      -- Without a responder the result is dropped.
      budget := if cell.respond then p.budget else p.budget.release result.reserved
      cells := s.cells.insert id ⟨false, p.assembler⟩
      actor := s.actor.setReader
        (.delivering id (if cell.respond then some result else none)) }

/-- What is to be delivered is sent, and the reader lets go of the entry. -/
def deliverStep (s : Mux) (id : String) (delivery : Option CallResult) : Mux × List MuxOutput :=
  match delivery with
  | none => ((s.setReader .reading).sweep id, [])
  | some result =>
    let (s, os) := s.send id result
    ((s.setReader .reading).sweep id, os)

/-- The connection is over: the writer returned, or the reader did while the writer waits. -/
def lostStep (s : Mux) (w : Writer) (r : Reader) : Option Mux :=
  match w, r with
  | .failed, r => some { s with actor := .stopping false r }
  | .closed, r => some { s with actor := .stopping true r }
  | .idle, .gone | .writing _, .gone => some { s with actor := .stopping false .gone }
  | _, _ => none

def step (s : Mux) : MuxEvent → Option (Mux × List MuxOutput)
  | .call id len =>
    if s.closed = false ∧ s.phase id = .fresh then some (s.setPhase id (.sending len), [])
    else none
  | .enqueue id =>
    match s.phase id with
    | .sending len =>
      if s.queue.length < maxInflight then
        some ({ s.setPhase id .waiting with queue := s.queue ++ [⟨id, len⟩] }, [])
      else none
    | _ => none
  | .cancel id =>
    match s.phase id with
    | .sending _ | .waiting | .answered => some ((s.dropHeld id).setPhase id .cancelling, [])
    | _ => none
  | .remove id =>
    if s.phase id = .cancelling then
      some ({ s.setPhase id .cancelled with inflight := s.inflight.erase id }.sweep id, [])
    else none
  | .receive id =>
    if s.phase id = .answered then some (s.setPhase id .received, []) else none
  | .dropResponse id =>
    if s.phase id = .received then some (s.dropHeld id, []) else none
  | .close =>
    -- Every call borrows the client.
    if s.calls.entries.all fun call => call.2.over then some ({ s with closed := true }, [])
    else none
  | .connect =>
    match s.actor with
    | .connecting =>
      some ({ s with
        connection := s.connection + 1
        actor := .running .idle .reading }, [])
    | _ => none
  | .recv =>
    match s.actor with
    | .running .idle r => s.recvStep r
    | _ => none
  | .register =>
    match s.actor with
    | .running (.took c) r => some (s.registerStep c r)
    | _ => none
  | .refuse =>
    match s.actor with
    | .running (.writing c) r =>
      if c.len > maxFrameBytes then some (s.refuseStep c r, []) else none
    | _ => none
  | .answerRefused =>
    match s.actor with
    | .running (.refusing c) r =>
      let (s, os) := s.answerError c.requestId (.frameTooLarge (c.len % 2 ^ 32))
      some ({ s with actor := .running .idle r }.sweep c.requestId, os)
    | _ => none
  | .written =>
    match s.actor with
    | .running (.writing c) r =>
      if c.len ≤ maxFrameBytes then some ({ s with actor := .running .idle r }, []) else none
    | _ => none
  | .writeError =>
    match s.actor with
    | .running (.writing c) r =>
      if c.len ≤ maxFrameBytes then some (s.writeErrorStep c r) else none
    | _ => none
  | .read frame =>
    if s.actor.reader = .reading then
      some (s.readStep limits frame, [.read s.connection frame])
    else none
  | .readerExit =>
    if s.actor.reader = .reading then some (s.setReader .gone, []) else none
  | .push allocates =>
    match s.actor.reader with
    | .holding id frame requiresChunkParser =>
      match s.cells.lookup id with
      | none => none
      | some cell =>
        some (s.pushStep id cell
          (pushed limits sha256 s.budget cell.assembler frame requiresChunkParser allocates), [])
    | _ => none
  | .unregister =>
    match s.actor.reader with
    | .delivering id delivery =>
      -- A cell is named by its request id, so an entry of the id is the same one.
      some ({ s with
        inflight := s.inflight.erase id
        actor := s.actor.setReader (.sending id delivery) }, [])
    | _ => none
  | .deliver =>
    match s.actor.reader with
    | .sending id delivery => some (s.deliverStep id delivery)
    | _ => none
  | .lost =>
    match s.actor with
    | .running w r => (s.lostStep w r).map fun s => (s, [])
    | _ => none
  | .abort =>
    match s.actor with
    | .stopping closed .reading => some ({ s with actor := .stopping closed .gone }, [])
    | _ => none
  | .drain =>
    match s.actor with
    | .stopping closed .gone =>
      some ({ s with inflight := ∅, actor := .draining closed s.inflight }, [])
    | _ => none
  | .drainOne id =>
    match s.actor with
    | .draining closed left =>
      if id ∈ left then
        let (s, os) := s.answerError id .connectionLost
        some ({ s with actor := .draining closed (left.erase id) }.sweep id, os)
      else none
    | _ => none
  | .reconnect =>
    match s.actor with
    | .draining closed left =>
      if left = ∅ then
        some ({ s with actor := if closed then .exited else .connecting },
          [.drained s.connection])
      else none
    | _ => none

end

end Mux

end Sie.Sidecar
