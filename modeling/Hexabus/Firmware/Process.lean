import Hexabus.Firmware.StateMachine

/-!
# The state machine as a process

The thread `state_machine_process` under the kernel of `process.c`. Everything
runs on one stack: a transition writes an endpoint, the endpoint's handler may
broadcast a value, the broadcast hands the value back to the state machine, and
`call_process` decides by the state of the process whether the thread is entered
again. `post` below is that way back.
-/

namespace Hexabus.Firmware

open Lib.Bytes

/-! ## What an endpoint handler calls -/

/-- Calls of an endpoint's write handler that reach the state machine. -/
inductive SelfCall
  /-- `broadcast_value(eid)`. -/
  | broadcast (eid : UInt32)
  | smStop
  | smStart
  | smRestart
  deriving DecidableEq

/-- What the handlers of the registered endpoints work on: the device, the EEPROM,
and the calls they make after they have changed both. -/
structure Dev (δ : Type) where
  dev : δ
  eeprom : Mem
  calls : List SelfCall

/-- Local variables that are read without having been set completely. -/
structure Locals where
  eidEnv : HxbEnvelope
  dtenvelope : HxbEnvelope
  value : HxbValue

/-- The `data` argument of an event. -/
inductive EventData
  | none
  | input (envelope : HxbEnvelope)
  | udpState (up : Bool)

/-- `PROCESS_EVENT_EXIT` and `PROCESS_EVENT_TIMER`. -/
def processEventExit : UInt8 := 0x83
def processEventTimer : UInt8 := 0x88

/-- `EP_SM_RESET_ID`. -/
def epSmResetId : UInt32 := 12

/-- `::1`. -/
def localhost : Block 16 := ⟨List.replicate 15 0 ++ [1], length_localhost⟩

/-- `*(udp_handler_event_t*) data == UDP_HANDLER_UP`, which is 0. An envelope begins
with its sender's address. -/
def EventData.isUp : EventData → Bool
  | .none => false
  | .input envelope => envelope.src_ip.val.getD 0 0 = 0
  | .udpState up => up

variable {δ : Type} (chain : EndpointChain (Dev δ)) (loc : Locals)

/-! ## Starting and stopping -/

/-- `sm_is_running`. -/
def smIsRunning (s : Fw δ) : Bool := s.pstate ≠ .none

/-- `sm_stop`. The exit event finds the thread waiting and ends it. -/
def smStop (s : Fw δ) : Fw δ := { s with pstate := .none }

/-- `sm_start`. The init event runs the thread up to its first wait. -/
def smStart (s : Fw δ) : Fw δ :=
  if smIsRunning s then s
  else { s with
    curState := 0
    smHandleInputEvent := s.lastevent
    lastevent := s.lastevent + 1
    transLength := smGetNumberOfTransitions s.eeprom false
    dtTransLength := smGetNumberOfTransitions s.eeprom true
    pstate := .running }

/-- `sm_restart`. -/
def smRestart (s : Fw δ) : Fw δ := smStart (smStop s)

/-! ## Handing a value to the state machine -/

section Post

variable (post : UInt8 → EventData → Fw δ → Fw δ)

def note (entry : Entry) (s : Fw δ) : Fw δ := { s with log := s.log ++ [entry] }

/-- `sm_handle_input`. -/
def smHandleInput (envelope : HxbEnvelope) (s : Fw δ) : Fw δ :=
  post s.smHandleInputEvent (.input envelope) (note (.handed envelope) s)

/-- `broadcast_to_self`. -/
def broadcastToSelf (value : HxbValue) (eid : UInt32) (s : Fw δ) : Fw δ :=
  smHandleInput post ⟨localhost, 0, eid, value⟩ s

/-- `broadcast_value`, as far as this device notices it. -/
def broadcastValue (eid : UInt32) (s : Fw δ) : Fw δ :=
  let (err, value) := chain.endpointRead eid { loc.value with blob := [] } ⟨s.dev, s.eeprom, []⟩
  if err ≠ .success then s else broadcastToSelf post value eid s

def runCall (s : Fw δ) : SelfCall → Fw δ
  | .broadcast eid => broadcastValue chain loc post eid s
  | .smStop => smStop s
  | .smStart => smStart s
  | .smRestart => smRestart s

/-- `endpoint_write` in the firmware: the handler, and what it calls. -/
def writeEndpoint (eid : UInt32) (envelope : HxbEnvelope) (s : Fw δ) : ErrorCode × Fw δ :=
  let (err, d) := chain.endpointWrite eid envelope ⟨s.dev, s.eeprom, []⟩
  (err, d.calls.foldl (runCall chain loc post) { s with dev := d.dev, eeprom := d.eeprom })

/-! ## The thread -/

/-- The Reset-ID of this machine's own id, sent by another device. -/
def isOwnReset (s : Fw δ) (envelope : HxbEnvelope) : Bool :=
  !smIdIsZero s.eeprom && envelope.eid == epSmResetId &&
    envelope.value.datatype == DataType.bytes16.code && envelope.src_ip != localhost &&
    envelope.value.blob.take 16 == (smGetId s.eeprom).val

/-- The branch of the thread for an input. -/
def threadInput (envelope : HxbEnvelope) (s : Fw δ) : Fw δ :=
  let s := if isOwnReset s envelope then note (.moved 0) (smRestart s) else s
  let s := note (.evaluated envelope s.curState) s
  let s := (checkValueTransitions (writeEndpoint chain loc post) loc.eidEnv (some envelope) s).1
  note (.finished envelope s.curState) s

/-- The branch for the periodic timer. -/
def threadTimer (s : Fw δ) : Fw δ :=
  let s := (checkDatetimeTransitions (writeEndpoint chain loc post) loc.eidEnv loc.dtenvelope s).1
  note (.moved s.curState) s

/-- The branch for a network that has come up. -/
def threadUdpUp (s : Fw δ) : Fw δ :=
  if smIdIsZero s.eeprom then s
  else
    let s := broadcastValue chain loc post epSmResetId s
    let s := { s with curState := 0 }
    let s := (checkValueTransitions (writeEndpoint chain loc post) loc.eidEnv none s).1
    note (.moved s.curState) s

/-- `state_machine_process`, from one wait to the next. -/
def thread (ev : UInt8) (data : EventData) (s : Fw δ) : Fw δ :=
  if ev = s.udpHandlerEvent ∧ data.isUp then threadUdpUp chain loc post s
  else if ev = processEventTimer then threadTimer chain loc post s
  else if ev = s.smHandleInputEvent then
    match data with
    | .input envelope => threadInput chain loc post envelope s
    | _ => s
  else s

end Post

/-- `call_process` on the state machine, with stack for `n` calls inside each other.
The thread has ended when the process is no longer running. -/
def callProcess : Nat → UInt8 → EventData → Fw δ → Fw δ
  | 0, _, _, s => { s with stackOverflow := true }
  | n + 1, ev, data, s =>
    if s.pstate = .running then
      let s := thread chain loc (callProcess n) ev data { s with pstate := .called }
      if s.pstate = .none ∨ ev = processEventExit then { s with pstate := .none }
      else { s with pstate := .running }
    else s

/-! ## The steps of the firmware -/

/-- What the rest of the firmware does, one call at a time. A write request and a
button are a change of the device followed by the handler's calls. -/
inductive Step (δ : Type)
  /-- `handle_info` hands over the value of an info packet. -/
  | info (envelope : HxbEnvelope)
  /-- Any other process calls `broadcast_value`. -/
  | broadcast (eid : UInt32)
  /-- The state machine is stopped, started or restarted from outside. -/
  | smStop
  | smStart
  | smRestart
  /-- The device or its EEPROM changes. -/
  | device (dev : δ) (eeprom : Mem)
  /-- The clock changes. -/
  | clock (timestamp : UInt32) (currentDt : HxbDatetime) (timeValid : Bool)
  /-- The timer of the state machine expires. -/
  | tick
  /-- The network goes up or down. -/
  | udp (up : Bool)

/-- One step, with stack for `n` nested calls. -/
def step (n : Nat) : Step δ → Fw δ → Fw δ
  | .info envelope, s => smHandleInput (callProcess chain loc n) envelope s
  | .broadcast eid, s => broadcastValue chain loc (callProcess chain loc n) eid s
  | .smStop, s => note (.moved s.curState) (smStop s)
  | .smStart, s => note (.moved (smStart s).curState) (smStart s)
  | .smRestart, s => note (.moved 0) (smRestart s)
  | .device dev eeprom, s => { s with dev := dev, eeprom := eeprom }
  | .clock timestamp currentDt timeValid, s =>
    { s with timestamp := timestamp, currentDt := currentDt, timeValid := timeValid }
  | .tick, s => callProcess chain loc n processEventTimer .none s
  | .udp up, s => callProcess chain loc n s.udpHandlerEvent (.udpState up) s

end Hexabus.Firmware
