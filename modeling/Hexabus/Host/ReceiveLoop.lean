import Hexabus.Host.Deserialization
import Hexabus.Host.FilterExpressions

/-!
# The receive loop of a socket

`socket.cpp`: a socket receives with one operation at a time, and the handler of its completion
starts the next one. Whoever registers for packets starts one too and cancels the one before, but
an operation that has completed cannot be cancelled: its handler is queued, and by the time it runs
the new operation may have written another datagram into the buffer and the endpoint that all
operations share.
-/

namespace Hexabus.Host.ReceiveLoop

open Filtering (Sender)

/-! ## Model -/

structure Datagram where
  bytes : List UInt8
  sender : Sender
  deriving DecidableEq

/-- `data.size()`. -/
def dataSize : Nat := 1024

/-- What is longer than the buffer is cut. -/
def Datagram.received (d : Datagram) : List UInt8 := d.bytes.take dataSize

/-- How an operation completes; `aborted` is `operation_canceled`. -/
inductive Completion where
  | aborted
  | failed
  | received (d : Datagram)

def Completion.isAborted : Completion → Bool
  | .aborted => true
  | .failed | .received _ => false

def Completion.datagram? : Completion → Option Datagram
  | .received d => some d
  | .aborted | .failed => none

/-- A slot of `packetReceived`: a callback behind its filter. The slot of `receive` disconnects
itself when the filter has let a packet through. -/
structure Connection where
  id : Nat
  filter : Packet → Sender → Bool
  once : Bool

/-- A callback is called. -/
structure Call where
  id : Nat
  packet : Packet
  remote : Sender
  deriving DecidableEq

/-- A call of `packetReceivedHandler` for a datagram: the slots connected at its start, those it
has still to look at, those it has found connected, and the callbacks it has called. -/
structure Handling where
  datagram : Datagram
  packet : Except Thrown Packet
  connected : List Connection
  remaining : List Connection
  reached : List Connection
  calls : List Call

/-- `SocketBase`, with the receive operation, the completions that are queued, and the calls of
`packetReceivedHandler` that are running. There may be several of these, since a handler may call
`receive`, which runs others. `ended` and `arrived` keep what has happened. -/
structure SocketBase where
  packetReceived : List Connection
  nextId : Nat
  data : List UInt8
  remoteEndpoint : Sender
  outstanding : Bool
  queue : List Completion
  running : List Handling
  ended : List Handling
  arrived : List Datagram

namespace SocketBase

/-- `beginReceive`. -/
def beginReceive (s : SocketBase) : SocketBase :=
  if s.packetReceived.isEmpty then s
  else
    { s with
      queue := if s.outstanding then s.queue ++ [.aborted] else s.queue
      outstanding := true }

def connect (filter : Packet → Sender → Bool) (once : Bool) (s : SocketBase) : SocketBase :=
  beginReceive { s with
    packetReceived := s.packetReceived ++ [⟨s.nextId, filter, once⟩]
    nextId := s.nextId + 1 }

/-- A connection is closed: by its owner, at the end of `receive`, or by its time-out. -/
def disconnect (id : Nat) (s : SocketBase) : SocketBase :=
  { s with packetReceived := s.packetReceived.filter fun c => c.id ≠ id }

/-- The operation receives a datagram. Without one, the datagram waits in the system. -/
def arrive (d : Datagram) (s : SocketBase) : SocketBase :=
  if s.outstanding then
    { s with
      data := d.received ++ s.data.drop d.received.length
      remoteEndpoint := d.sender
      outstanding := false
      queue := s.queue ++ [.received d]
      arrived := s.arrived ++ [d] }
  else s

def fail (s : SocketBase) : SocketBase :=
  if s.outstanding then { s with outstanding := false, queue := s.queue ++ [.failed] } else s

/-- `packetReceivedHandler`, up to the call of `packetReceived`. An error only goes to the slots of
`asyncError`, which may throw it. -/
def packetReceivedHandler (s : SocketBase) : Completion → SocketBase
  | .aborted | .failed => s
  | .received d =>
    let packet := deserialize (s.data.take d.received.length)
    { s with
      running := s.running ++ [{
        datagram := d
        packet := packet
        connected := s.packetReceived
        remaining := if packet.isOk then s.packetReceived else []
        reached := []
        calls := [] }] }

/-- A queued completion is handled. -/
def complete (i : Nat) (s : SocketBase) : SocketBase :=
  match s.queue[i]? with
  | none => s
  | some c => packetReceivedHandler { s with queue := s.queue.eraseIdx i } c

/-- `predicated_receive` or `receive_handler`: the callback is given the endpoint by reference. -/
def callSlot (k : Nat) (r : Handling) (c : Connection) (packet : Packet) (s : SocketBase) :
    SocketBase :=
  if c.filter packet s.remoteEndpoint then
    let r := { r with calls := r.calls ++ [⟨c.id, packet, s.remoteEndpoint⟩] }
    let s := { s with running := s.running.set k r }
    if c.once then s.disconnect c.id else s
  else { s with running := s.running.set k r }

/-- A running handler is left, and its scope exit begins the next receive operation. -/
def leave (k : Nat) (s : SocketBase) : SocketBase :=
  match s.running[k]? with
  | none => s
  | some r => beginReceive { s with running := s.running.eraseIdx k, ended := s.ended ++ [r] }

/-- A running handler goes on, to the next slot or to its end. What a callback does in its turn are
further events. -/
def resume (k : Nat) (s : SocketBase) : SocketBase :=
  match s.running[k]? with
  | none => s
  | some r =>
    match r.remaining, r.packet with
    | c :: rest, .ok packet =>
      if s.packetReceived.any (·.id = c.id) then
        callSlot k { r with remaining := rest, reached := r.reached ++ [c] } c packet s
      else { s with running := s.running.set k { r with remaining := rest } }
    | _, _ => s.leave k

end SocketBase

/-- What can happen next. A callback throws what `receive` in it throws at an error, or an error of
its own. -/
inductive Event where
  | onPacketReceived (filter : Packet → Sender → Bool)
  | receive (filter : Packet → Sender → Bool)
  | disconnect (id : Nat)
  | arrive (d : Datagram)
  | fail
  | complete (i : Nat)
  | resume (k : Nat)
  | throws (k : Nat)

def step : Event → SocketBase → SocketBase
  | .onPacketReceived filter, s => s.connect filter false
  | .receive filter, s => s.connect filter true
  | .disconnect id, s => s.disconnect id
  | .arrive d, s => s.arrive d
  | .fail, s => s.fail
  | .complete i, s => s.complete i
  | .resume k, s => s.resume k
  | .throws k, s => s.leave k

/-- A new socket. -/
def init (remote : Sender) : SocketBase where
  packetReceived := []
  nextId := 0
  data := List.replicate dataSize 0
  remoteEndpoint := remote
  outstanding := false
  queue := []
  running := []
  ended := []
  arrived := []

/-! ## What a receive loop is for -/

/-- While a handler is connected, an operation is outstanding, or its completion is queued or being
handled. -/
def Armed (s : SocketBase) : Prop :=
  s.packetReceived ≠ [] →
    s.outstanding = true ∨ s.running ≠ [] ∨ ∃ c ∈ s.queue, c.isAborted = false

/-- The calls that a datagram is to lead to, for the slots that have been reached. -/
def Handling.expected (r : Handling) : List Call :=
  match deserialize r.datagram.received with
  | .ok packet =>
    (r.reached.filter fun c => c.filter packet r.datagram.sender).map fun c =>
      ⟨c.id, packet, r.datagram.sender⟩
  | .error _ => []

/-- A datagram is delivered as what it is, and to none of the connected handlers twice. -/
structure Handling.Right (r : Handling) : Prop where
  calls : r.calls = r.expected
  reached : r.reached.Sublist r.connected
  distinct : (r.connected.map Connection.id).Nodup

/-- No handler that is still connected has been left out. -/
def Handling.Whole (r : Handling) (now : List Connection) : Prop :=
  (deserialize r.datagram.received).isOk = true → ∀ c ∈ r.connected, c ∈ now → c ∈ r.reached

/-- The datagrams whose completion is queued. -/
def queued (s : SocketBase) : List Datagram := s.queue.filterMap Completion.datagram?

/-- The datagrams that have been received and not been handled to the end. -/
def inFlight (s : SocketBase) : List Datagram := queued s ++ s.running.map Handling.datagram

/-- Each datagram received is in flight or has been handled, once, and was delivered as it should
be. -/
structure Delivers (s : SocketBase) : Prop where
  armed : Armed s
  each : s.arrived.Perm (inFlight s ++ s.ended.map Handling.datagram)
  running : ∀ r ∈ s.running, r.Right
  ended : ∀ r ∈ s.ended, r.Right ∧ r.Whole s.packetReceived

/-- Of one sender, and the bytes of one are the first of the other. -/
def Datagram.Agrees (d e : Datagram) : Prop :=
  d.sender = e.sender ∧ (d.received <+: e.received ∨ e.received <+: d.received)

/-- No datagram is received while an earlier one is queued that it does not agree with, nor one of
another sender while a handler has slots to call. The error of an operation is not handled if this
is the last operation and a slot is connected. No callback throws past a slot that is connected. -/
def Undisturbed (s : SocketBase) : Event → Prop
  | .arrive d => s.outstanding = true →
      (∀ e ∈ queued s, d.Agrees e) ∧ ∀ r ∈ s.running, r.remaining ≠ [] → d.sender = r.datagram.sender
  | .complete i => s.queue[i]? = some .failed →
      s.packetReceived = [] ∨ s.outstanding = true ∨ s.running ≠ [] ∨
        ∃ c ∈ s.queue.eraseIdx i, c.isAborted = false
  | .throws k => ∀ r, s.running[k]? = some r → ∀ c ∈ r.remaining, c ∉ s.packetReceived
  | _ => True

end Hexabus.Host.ReceiveLoop
