import Hexabus.Firmware.Registry

/-!
# The state machine

`state_machine.c`: the static variables of the state machine, the evaluation of
a condition and the two loops over the transition tables. Both loops are one
loop over one table; they differ in the table and in the envelope a condition is
evaluated on. What writing an endpoint does is a parameter here, because a write
can come back to the state machine (`Process.lean`).
-/

namespace Hexabus.Firmware

open Lib.Bytes

/-- `p->state` of a process, with its three constants. -/
inductive ProcessState
  | none | running | called
  deriving DecidableEq, Repr

/-- What happens to the inputs of the state machine, recorded for the theorems. -/
inductive Entry
  /-- `sm_handle_input` is called. -/
  | handed (envelope : HxbEnvelope)
  /-- The transitions of state `state` are evaluated on an input. -/
  | evaluated (envelope : HxbEnvelope) (state : UInt8)
  /-- The input is done with; the machine is in `state`. -/
  | finished (envelope : HxbEnvelope) (state : UInt8)
  /-- The machine came into `state` without an input. -/
  | moved (state : UInt8)
  deriving DecidableEq

/-- The firmware around the state machine: its static variables, the kernel's
entry for its process, EEPROM and clock, and the rest of the device. -/
structure Fw (δ : Type) where
  eeprom : Mem
  transLength : UInt8
  dtTransLength : UInt8
  curState : UInt8
  inStateSince : UInt32
  dtValid : Bool
  smHandleInputEvent : UInt8
  udpHandlerEvent : UInt8
  lastevent : UInt8
  pstate : ProcessState
  timestamp : UInt32
  currentDt : HxbDatetime
  timeValid : Bool
  dev : δ
  stackOverflow : Bool
  log : List Entry

variable {δ : Type}

/-! ## Conditions -/

/-- The comparisons of `enum hxb_stm_op`, given how the two sides compare. -/
def stmOp (op : UInt8) (eq lt gt : Bool) : Bool :=
  if op = 0 then eq
  else if op = 1 then lt || eq
  else if op = 2 then gt || eq
  else if op = 3 then lt
  else if op = 4 then gt
  else if op = 5 then !eq
  else false

/-- A bit pattern is a NaN. -/
def floatIsNan (bits : UInt32) : Bool := 0x7f800000 < (bits &&& 0x7fffffff)

/-- The place of a bit pattern in the order of the floats; the zeros share one. -/
def floatKey (bits : UInt32) : Int :=
  if bits &&& 0x80000000 = 0 then (bits &&& 0x7fffffff).toNat
  else -((bits &&& 0x7fffffff).toNat : Int)

/-- The comparison of two floats: nothing holds of a NaN but `!=`. -/
def stmOpFloat (op : UInt8) (a b : UInt32) : Bool :=
  let ordered := !floatIsNan a && !floatIsNan b
  stmOp op (ordered && floatKey a == floatKey b) (ordered && decide (floatKey a < floatKey b))
    (ordered && decide (floatKey b < floatKey a))

/-- The field a date-time condition looks at: that of the lowest bit set. -/
def datetimeField (op : UInt8) (dt : HxbDatetime) : Option Nat :=
  if op &&& 0x01 ≠ 0 then some dt.hour.toNat
  else if op &&& 0x02 ≠ 0 then some dt.minute.toNat
  else if op &&& 0x04 ≠ 0 then some dt.second.toNat
  else if op &&& 0x08 ≠ 0 then some dt.day.toNat
  else if op &&& 0x10 ≠ 0 then some dt.month.toNat
  else if op &&& 0x20 ≠ 0 then some dt.year.toNat
  else if op &&& 0x40 ≠ 0 then some dt.weekday.toNat
  else none

/-- The switch of `eval`, on a condition that applies to the envelope. -/
def evalValue (s : Fw δ) (cond : Condition) (envelope : HxbEnvelope) : Bool :=
  let v := envelope.value
  let c := cond.value
  match DataType.ofCode cond.datatype with
  | some .bool | some .uint8 =>
    stmOp cond.op (v.v_u8 == c.v_u8) (v.v_u8 < c.v_u8) (c.v_u8 < v.v_u8)
  | some .uint32 => stmOp cond.op (v.v_u32 == c.v_u32) (v.v_u32 < c.v_u32) (c.v_u32 < v.v_u32)
  | some .float => stmOpFloat cond.op v.v_float c.v_float
  | some .datetime =>
    if s.dtValid then
      match datetimeField cond.op v.v_datetime with
      | some field =>
        if cond.op &&& 0x80 ≠ 0 then decide (field ≥ c.v_u32.toNat)
        else decide (field < c.v_u32.toNat)
      | none => false
    else false
  | some .timestamp =>
    if cond.op = hxbSmTimestampOp then decide (s.timestamp - s.inStateSince ≥ c.v_u32) else false
  | some .string128 | some .bytes16 | some .bytes65 | some .undefined | none => false

/-- `eval`. Date-time and time stamp conditions ignore the sender and the endpoint. -/
def eval (s : Fw δ) (condIndex : UInt8) (envelope : Option HxbEnvelope) : Bool :=
  if condIndex = trueCondIndex then true
  else match envelope with
    | none => false
    | some envelope =>
      let cond := smGetCondition s.eeprom condIndex
      let timed := cond.datatype = DataType.datetime.code ∨ cond.datatype = DataType.timestamp.code
      let anyhost := cond.sourceIP = Block.zero 16
      if ¬ timed ∧ ¬ anyhost ∧ cond.sourceIP ≠ envelope.src_ip then false
      else if cond.sourceEID ≠ envelope.eid ∧ ¬ timed then false
      else if envelope.value.datatype ≠ cond.datatype ∧ cond.datatype ≠ DataType.timestamp.code then
        false
      else evalValue s cond envelope

/-! ## Transitions -/

/-- `eid_env`, the envelope a transition writes. `uip_ipaddr` is the macro for the
four bytes of an IPv4 address; the others stay what the local variable held. -/
def actionEnvelope (eidEnv : HxbEnvelope) (t : Transition) : HxbEnvelope where
  src_ip := ⟨[0, 0, 0, 1] ++ eidEnv.src_ip.val.drop 4, by
    rw [List.length_append, List.length_drop, eidEnv.src_ip.property]
    rfl⟩
  src_port := 0
  eid := t.eid
  value := t.value

/-- `t.eid != 0 || t.value.datatype != 0`. -/
def hasAction (t : Transition) : Bool := t.eid != 0 || t.datatype != 0

/-- `inStateSince = getTimestamp(); curState = state;` -/
def enterState (s : Fw δ) (state : UInt8) : Fw δ :=
  { s with inStateSince := s.timestamp, curState := state }

/-- The body of `if ((t.fromState == curState) && eval(t.cond, env))`, when the
transition has an action: the endpoint is written, then the state is left. -/
def fireAction (write : UInt32 → HxbEnvelope → Fw δ → ErrorCode × Fw δ) (eidEnv : HxbEnvelope)
    (t : Transition) (s : Fw δ) : Fw δ :=
  let (err, s) := write t.eid (actionEnvelope eidEnv t) s
  if err = .success then enterState s t.goodState else enterState s t.badState

/-- The transition matches the state and the event. -/
def matchesTransition (s : Fw δ) (env : Option HxbEnvelope) (t : Transition) : Bool :=
  t.fromState == s.curState && eval s t.cond env

/-- The loop of `check_value_transitions` and `check_datetime_transitions` over the
`n` entries from index `i` on, with the indices of the transitions that fire. Only
a transition with an action leaves the loop. -/
def checkTransitions (write : UInt32 → HxbEnvelope → Fw δ → ErrorCode × Fw δ)
    (eidEnv : HxbEnvelope) (datetime : Bool) (env : Option HxbEnvelope) :
    Nat → Nat → Fw δ → Fw δ × List Nat
  | 0, _, s => (s, [])
  | n + 1, i, s =>
    let t := smGetTransition s.eeprom datetime (UInt8.ofNat i)
    if matchesTransition s env t then
      if hasAction t then (fireAction write eidEnv t s, [i])
      else
        let (s, fired) :=
          checkTransitions write eidEnv datetime env n (i + 1) (enterState s t.goodState)
        (s, i :: fired)
    else checkTransitions write eidEnv datetime env n (i + 1) s

/-- `check_value_transitions`. -/
def checkValueTransitions (write : UInt32 → HxbEnvelope → Fw δ → ErrorCode × Fw δ)
    (eidEnv : HxbEnvelope) (env : Option HxbEnvelope) (s : Fw δ) : Fw δ × List Nat :=
  checkTransitions write eidEnv false env s.transLength.toNat 0 s

/-- `dtenvelope`, the local envelope the date-time conditions are evaluated on: only
its value is ever set. -/
def datetimeEnvelope (dtenvelope : HxbEnvelope) (s : Fw δ) : HxbEnvelope :=
  let value := { dtenvelope.value with datatype := DataType.datetime.code }
  { dtenvelope with value := value.setDatetime s.currentDt }

/-- `dt_valid = 1 + getDatetime(...)`. -/
def refreshDtValid (s : Fw δ) : Fw δ := { s with dtValid := s.timeValid }

/-- `check_datetime_transitions`. -/
def checkDatetimeTransitions (write : UInt32 → HxbEnvelope → Fw δ → ErrorCode × Fw δ)
    (eidEnv dtenvelope : HxbEnvelope) (s : Fw δ) : Fw δ × List Nat :=
  let s := refreshDtValid s
  checkTransitions write eidEnv true (some (datetimeEnvelope dtenvelope s))
    s.dtTransLength.toNat 0 s

end Hexabus.Firmware
