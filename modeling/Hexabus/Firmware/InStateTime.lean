import Hexabus.Firmware.Process
import Hexabus.Firmware.SingleFiring
import Hexabus.Lib.Runs

/-!
# The time in the current state

The functions of `Process.lean` with a record of when `curState` was last assigned, by a
count of seconds that does not wrap. Nothing reads the record: without it, these are the
functions of `Process.lean` (`step_fw`).
-/

namespace Hexabus.Firmware

variable {δ : Type}

/-- The seconds in its state that the condition of a transition asks for. -/
def timeout (eeprom : Mem) (t : Transition) : Nat :=
  let cond := smGetCondition eeprom t.cond
  if t.cond ≠ trueCondIndex ∧ cond.datatype = DataType.timestamp.code ∧
      cond.op = hxbSmTimestampOp then
    cond.value.v_u32.toNat
  else 0

/-- The firmware, the seconds counted since the service was started, the second in which
the current state was entered, and for every transition taken the seconds its condition
asked for beside those the machine had been in its state. -/
structure Timed (δ : Type) where
  fw : Fw δ
  now : Nat
  entered : Nat
  held : List (Nat × Nat)

namespace Timed

/-- `f` assigns `curState`. -/
def enter (f : Fw δ → Fw δ) (t : Timed δ) : Timed δ :=
  { t with fw := f t.fw, entered := t.now }

/-- `f` leaves `curState` alone. -/
def keep (f : Fw δ → Fw δ) (t : Timed δ) : Timed δ := { t with fw := f t.fw }

/-- A transition is taken. -/
def take (transition : Transition) (t : Timed δ) : Timed δ :=
  { t with held := t.held ++ [(timeout t.fw.eeprom transition, t.now - t.entered)] }

/-! ## Transitions -/

section Transitions

variable (write : UInt32 → HxbEnvelope → Timed δ → ErrorCode × Timed δ) (eidEnv : HxbEnvelope)

def fireAction (transition : Transition) (t : Timed δ) : Timed δ :=
  let (err, t) := write transition.eid (actionEnvelope eidEnv transition) t
  if err = .success then t.enter (enterState · transition.goodState)
  else t.enter (enterState · transition.badState)

def checkTransitions (datetime : Bool) (env : Option HxbEnvelope) :
    Nat → Nat → Timed δ → Timed δ
  | 0, _, t => t
  | n + 1, i, t =>
    let transition := smGetTransition t.fw.eeprom datetime (UInt8.ofNat i)
    if matchesTransition t.fw env transition then
      if hasAction transition then fireAction write eidEnv transition (t.take transition)
      else
        checkTransitions datetime env n (i + 1)
          ((t.take transition).enter (enterState · transition.goodState))
    else checkTransitions datetime env n (i + 1) t

def checkValueTransitions (env : Option HxbEnvelope) (t : Timed δ) : Timed δ :=
  checkTransitions write eidEnv false env t.fw.transLength.toNat 0 t

def checkDatetimeTransitions (dtenvelope : HxbEnvelope) (t : Timed δ) : Timed δ :=
  let t := t.keep refreshDtValid
  checkTransitions write eidEnv true (some (datetimeEnvelope dtenvelope t.fw))
    t.fw.dtTransLength.toNat 0 t

end Transitions

/-! ## The process -/

def smStart (t : Timed δ) : Timed δ :=
  if smIsRunning t.fw then t else t.enter Firmware.smStart

def smRestart (t : Timed δ) : Timed δ := smStart (t.keep smStop)

section Post

variable (chain : EndpointChain (Dev δ)) (loc : Locals)
  (post : UInt8 → EventData → Timed δ → Timed δ)

def smHandleInput (envelope : HxbEnvelope) (t : Timed δ) : Timed δ :=
  post t.fw.smHandleInputEvent (.input envelope) (t.keep (note (.handed envelope)))

def broadcastValue (eid : UInt32) (t : Timed δ) : Timed δ :=
  let (err, value) :=
    chain.endpointRead eid { loc.value with blob := [] } ⟨t.fw.dev, t.fw.eeprom, []⟩
  if err ≠ .success then t else smHandleInput post ⟨localhost, 0, eid, value⟩ t

def runCall (t : Timed δ) : SelfCall → Timed δ
  | .broadcast eid => broadcastValue chain loc post eid t
  | .smStop => t.keep smStop
  | .smStart => smStart t
  | .smRestart => smRestart t

def writeEndpoint (eid : UInt32) (envelope : HxbEnvelope) (t : Timed δ) :
    ErrorCode × Timed δ :=
  let (err, d) := chain.endpointWrite eid envelope ⟨t.fw.dev, t.fw.eeprom, []⟩
  (err, d.calls.foldl (runCall chain loc post)
    (t.keep fun s => { s with dev := d.dev, eeprom := d.eeprom }))

def threadInput (envelope : HxbEnvelope) (t : Timed δ) : Timed δ :=
  let t := if isOwnReset t.fw envelope then (smRestart t).keep (note (.moved 0)) else t
  let t := t.keep fun s => note (.evaluated envelope s.curState) s
  let t := checkValueTransitions (writeEndpoint chain loc post) loc.eidEnv (some envelope) t
  t.keep fun s => note (.finished envelope s.curState) s

def threadTimer (t : Timed δ) : Timed δ :=
  let t := checkDatetimeTransitions (writeEndpoint chain loc post) loc.eidEnv loc.dtenvelope t
  t.keep fun s => note (.moved s.curState) s

def threadUdpUp (t : Timed δ) : Timed δ :=
  if smIdIsZero t.fw.eeprom then t
  else
    let t := broadcastValue chain loc post epSmResetId t
    let t := t.enter fun s => { s with curState := 0 }
    let t := checkValueTransitions (writeEndpoint chain loc post) loc.eidEnv none t
    t.keep fun s => note (.moved s.curState) s

def thread (ev : UInt8) (data : EventData) (t : Timed δ) : Timed δ :=
  if ev = t.fw.udpHandlerEvent ∧ data.isUp then threadUdpUp chain loc post t
  else if ev = processEventTimer then threadTimer chain loc post t
  else if ev = t.fw.smHandleInputEvent then
    match data with
    | .input envelope => threadInput chain loc post envelope t
    | _ => t
  else t

end Post

def callProcess (chain : EndpointChain (Dev δ)) (loc : Locals) :
    Nat → UInt8 → EventData → Timed δ → Timed δ
  | 0, _, _, t => t.keep fun s => { s with stackOverflow := true }
  | n + 1, ev, data, t =>
    if t.fw.pstate = .running then
      let t := thread chain loc (callProcess chain loc n) ev data
        (t.keep fun s => { s with pstate := .called })
      if t.fw.pstate = .none ∨ ev = processEventExit then
        t.keep fun s => { s with pstate := .none }
      else t.keep fun s => { s with pstate := .running }
    else t

/-- One step. The service only counts up, so the clock has advanced by the seconds between
its two readings. -/
def step (chain : EndpointChain (Dev δ)) (loc : Locals) (n : Nat) :
    Step δ → Timed δ → Timed δ
  | .info envelope, t => smHandleInput (callProcess chain loc n) envelope t
  | .broadcast eid, t => broadcastValue chain loc (callProcess chain loc n) eid t
  | .smStop, t => (t.keep smStop).keep fun s => note (.moved s.curState) s
  | .smStart, t => (smStart t).keep fun s => note (.moved s.curState) s
  | .smRestart, t => (smRestart t).keep (note (.moved 0))
  | .device dev eeprom, t => t.keep fun s => { s with dev := dev, eeprom := eeprom }
  | .clock timestamp currentDt timeValid, t =>
    { t with
      fw := { t.fw with timestamp := timestamp, currentDt := currentDt, timeValid := timeValid }
      now := t.now + (timestamp - t.fw.timestamp).toNat }
  | .tick, t => callProcess chain loc n processEventTimer .none t
  | .udp up, t => callProcess chain loc n t.fw.udpHandlerEvent (.udpState up) t

/-! ## Without the record -/

section Erasure

variable {chain : EndpointChain (Dev δ)} {loc : Locals}

theorem smStart_fw (t : Timed δ) : (smStart t).fw = Firmware.smStart t.fw := by
  unfold smStart
  by_cases hrun : smIsRunning t.fw = true
  · rw [if_pos hrun]
    exact (if_pos hrun).symm
  · rw [if_neg hrun]
    rfl

theorem smRestart_fw (t : Timed δ) : (smRestart t).fw = Firmware.smRestart t.fw :=
  smStart_fw _

section Transitions

variable {write : UInt32 → HxbEnvelope → Timed δ → ErrorCode × Timed δ}
  {write' : UInt32 → HxbEnvelope → Fw δ → ErrorCode × Fw δ} {eidEnv : HxbEnvelope}

theorem fireAction_fw
    (hwrite : ∀ eid env t, (write eid env t).1 = (write' eid env t.fw).1 ∧
      (write eid env t).2.fw = (write' eid env t.fw).2)
    (transition : Transition) (t : Timed δ) :
    (fireAction write eidEnv transition t).fw
      = Firmware.fireAction write' eidEnv transition t.fw := by
  obtain ⟨herr, hfw⟩ := hwrite transition.eid (actionEnvelope eidEnv transition) t
  unfold fireAction Firmware.fireAction
  simp only [herr, ← hfw]
  split <;> rfl

theorem checkTransitions_fw
    (hwrite : ∀ eid env t, (write eid env t).1 = (write' eid env t.fw).1 ∧
      (write eid env t).2.fw = (write' eid env t.fw).2)
    (datetime : Bool) (env : Option HxbEnvelope) (n i : Nat) (t : Timed δ) :
    (checkTransitions write eidEnv datetime env n i t).fw
      = (Firmware.checkTransitions write' eidEnv datetime env n i t.fw).1 := by
  induction n generalizing i t with
  | zero => rfl
  | succ n ih =>
    unfold checkTransitions Firmware.checkTransitions
    simp only []
    by_cases hm : matchesTransition t.fw env
        (smGetTransition t.fw.eeprom datetime (UInt8.ofNat i)) = true
    · rw [if_pos hm, if_pos hm]
      by_cases ha : hasAction (smGetTransition t.fw.eeprom datetime (UInt8.ofNat i)) = true
      · rw [if_pos ha, if_pos ha]
        exact fireAction_fw hwrite _ _
      · rw [if_neg ha, if_neg ha]
        exact ih _ _
    · rw [if_neg hm, if_neg hm]
      exact ih _ _

end Transitions

section Post

variable {post : UInt8 → EventData → Timed δ → Timed δ}
  {post' : UInt8 → EventData → Fw δ → Fw δ}
  (hpost : ∀ ev data t, (post ev data t).fw = post' ev data t.fw)
include hpost

theorem smHandleInput_fw (envelope : HxbEnvelope) (t : Timed δ) :
    (smHandleInput post envelope t).fw = Firmware.smHandleInput post' envelope t.fw :=
  hpost _ _ _

theorem broadcastValue_fw (eid : UInt32) (t : Timed δ) :
    (broadcastValue chain loc post eid t).fw
      = Firmware.broadcastValue chain loc post' eid t.fw := by
  unfold broadcastValue Firmware.broadcastValue
  simp only []
  split
  · rfl
  · exact smHandleInput_fw hpost _ _

theorem runCall_fw (call : SelfCall) (t : Timed δ) :
    (runCall chain loc post t call).fw = Firmware.runCall chain loc post' t.fw call := by
  cases call with
  | broadcast eid => exact broadcastValue_fw hpost eid t
  | smStop => rfl
  | smStart => exact smStart_fw t
  | smRestart => exact smRestart_fw t

theorem foldl_runCall_fw (calls : List SelfCall) (t : Timed δ) :
    (calls.foldl (runCall chain loc post) t).fw
      = calls.foldl (Firmware.runCall chain loc post') t.fw := by
  induction calls generalizing t with
  | nil => rfl
  | cons call calls ih => rw [List.foldl_cons, List.foldl_cons, ih, runCall_fw hpost]

theorem writeEndpoint_fw (eid : UInt32) (env : HxbEnvelope) (t : Timed δ) :
    (writeEndpoint chain loc post eid env t).1
        = (Firmware.writeEndpoint chain loc post' eid env t.fw).1 ∧
      (writeEndpoint chain loc post eid env t).2.fw
        = (Firmware.writeEndpoint chain loc post' eid env t.fw).2 :=
  ⟨rfl, foldl_runCall_fw hpost _ _⟩

theorem checkValueTransitions_fw (env : Option HxbEnvelope) (t : Timed δ) :
    (checkValueTransitions (writeEndpoint chain loc post) loc.eidEnv env t).fw
      = (Firmware.checkValueTransitions (Firmware.writeEndpoint chain loc post') loc.eidEnv env
          t.fw).1 :=
  checkTransitions_fw (writeEndpoint_fw hpost) _ _ _ _ _

theorem threadInput_fw (envelope : HxbEnvelope) (t : Timed δ) :
    (threadInput chain loc post envelope t).fw
      = Firmware.threadInput chain loc post' envelope t.fw := by
  have hreset : (if isOwnReset t.fw envelope then (smRestart t).keep (note (.moved 0))
      else t).fw = if isOwnReset t.fw envelope then note (.moved 0) (Firmware.smRestart t.fw)
        else t.fw := by
    split
    · exact congrArg (note (.moved 0)) (smRestart_fw t)
    · rfl
  unfold threadInput Firmware.threadInput
  simp only [keep, checkValueTransitions_fw hpost, ← hreset]

theorem threadTimer_fw (t : Timed δ) :
    (threadTimer chain loc post t).fw = Firmware.threadTimer chain loc post' t.fw := by
  have hloop := @checkTransitions_fw δ _ _ loc.eidEnv (@writeEndpoint_fw δ chain loc _ _ hpost)
    true (some (datetimeEnvelope loc.dtenvelope (refreshDtValid t.fw))) t.fw.dtTransLength.toNat 0
    (t.keep refreshDtValid)
  exact congrArg (fun s => note (.moved s.curState) s) hloop

theorem threadUdpUp_fw (t : Timed δ) :
    (threadUdpUp chain loc post t).fw = Firmware.threadUdpUp chain loc post' t.fw := by
  unfold threadUdpUp Firmware.threadUdpUp
  split
  · rfl
  · simp only [keep, enter, checkValueTransitions_fw hpost, broadcastValue_fw hpost]

theorem thread_fw (ev : UInt8) (data : EventData) (t : Timed δ) :
    (thread chain loc post ev data t).fw = Firmware.thread chain loc post' ev data t.fw := by
  unfold thread Firmware.thread
  split
  · exact threadUdpUp_fw hpost t
  · split
    · exact threadTimer_fw hpost t
    · split
      · cases data with
        | none => rfl
        | input envelope => exact threadInput_fw hpost envelope t
        | udpState up => rfl
      · rfl

end Post

theorem callProcess_fw (n : Nat) (ev : UInt8) (data : EventData) (t : Timed δ) :
    (callProcess chain loc n ev data t).fw = Firmware.callProcess chain loc n ev data t.fw := by
  induction n generalizing ev data t with
  | zero => rfl
  | succ n ih =>
    by_cases hrun : t.fw.pstate = .running
    · let r := thread chain loc (callProcess chain loc n) ev data
        (t.keep fun s => { s with pstate := .called })
      have hr : r.fw = Firmware.thread chain loc (Firmware.callProcess chain loc n) ev data
          { t.fw with pstate := .called } := thread_fw ih ev data _
      have henter : callProcess chain loc (n + 1) ev data t =
          if r.fw.pstate = .none ∨ ev = processEventExit then
            r.keep fun s => { s with pstate := .none }
          else r.keep fun s => { s with pstate := .running } := if_pos hrun
      have henter' : Firmware.callProcess chain loc (n + 1) ev data t.fw =
          if r.fw.pstate = .none ∨ ev = processEventExit then { r.fw with pstate := .none }
          else { r.fw with pstate := .running } := by
        rw [hr]
        exact if_pos hrun
      rw [henter, henter']
      split <;> rfl
    · exact (congrArg fw (if_neg hrun)).trans (if_neg hrun).symm

/-- Without its record a step is the step of the firmware. -/
theorem step_fw (n : Nat) (a : Step δ) (t : Timed δ) :
    (step chain loc n a t).fw = Firmware.step chain loc n a t.fw := by
  cases a with
  | info envelope => exact smHandleInput_fw (callProcess_fw n) envelope t
  | broadcast eid => exact broadcastValue_fw (callProcess_fw n) eid t
  | smStop => rfl
  | smStart => exact congrArg (fun s => note (.moved s.curState) s) (smStart_fw t)
  | smRestart => exact congrArg (note (.moved 0)) (smRestart_fw t)
  | device dev eeprom => rfl
  | clock timestamp currentDt timeValid => rfl
  | tick => exact callProcess_fw n _ _ t
  | udp up => exact callProcess_fw n _ _ t

/-- **Without its record a run is the run of the firmware.** -/
theorem run_fw (n : Nat) (t : Timed δ) (steps : List (Step δ)) :
    (Lib.Runs.run (step chain loc n) t steps).fw
      = Lib.Runs.run (Firmware.step chain loc n) t.fw steps := by
  induction steps generalizing t with
  | nil => rfl
  | cons a steps ih => rw [Lib.Runs.run_cons, Lib.Runs.run_cons, ih, step_fw]

end Erasure

end Timed

end Hexabus.Firmware
