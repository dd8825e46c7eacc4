import Hexabus.Firmware.InputOrder
import Hexabus.Lib.Runs

/-!
# Event numbers

The counter of `process_alloc_event` from the boot of a device on. `health_event` takes its
number before `process_init` sets the counter, the network stack, the UDP handler and the
shutter take one number each, and the state machine takes a number on every start.
-/

namespace Hexabus.Firmware

open Lib.Runs

/-! ## The counter -/

/-- The options of the build that add an event: `EPAPER_ENABLE`, `SHUTTER_ENABLE`. -/
structure EventConfig where
  epaper : Bool
  shutter : Bool
  deriving DecidableEq

/-- `lastevent`, the variables that hold an event number, and whether the state machine
process is running. -/
structure EventVars where
  lastevent : UInt8
  healthEvent : UInt8
  tcpipEvent : UInt8
  tcpipIcmp6Event : UInt8
  udpHandlerEvent : UInt8
  smHandleInputEvent : UInt8
  shutterPoke : UInt8
  smRunning : Bool
  deriving DecidableEq

/-- `PROCESS_EVENT_MAX`. -/
def processEventMax : UInt8 := 0x8a

/-- `PROCESS_EVENT_NONE` to `PROCESS_EVENT_COM`. -/
def processEvents : List UInt8 :=
  [0x80, 0x81, 0x82, 0x83, 0x84, 0x85, 0x86, 0x87, 0x88, 0x89]

namespace EventVars

/-- `process_alloc_event`. -/
def processAllocEvent (v : EventVars) : UInt8 × EventVars :=
  (v.lastevent, { v with lastevent := v.lastevent + 1 })

/-- `sm_start`: the process takes its number when it begins. -/
def smStart (v : EventVars) : EventVars :=
  if v.smRunning then v
  else
    let (event, v) := v.processAllocEvent
    { v with smHandleInputEvent := event, smRunning := true }

/-- `sm_stop`. -/
def smStop (v : EventVars) : EventVars := { v with smRunning := false }

/-- `sm_restart`. -/
def smRestart (v : EventVars) : EventVars := v.smStop.smStart

/-- The variables before `main`. -/
def zero : EventVars := ⟨0, 0, 0, 0, 0, 0, 0, false⟩

/-- `health_event = process_alloc_event()`, in `initialize`. -/
def initHealth (v : EventVars) : EventVars :=
  let (event, v) := v.processAllocEvent
  { v with healthEvent := event }

/-- `process_init`. -/
def processInit (v : EventVars) : EventVars := { v with lastevent := processEventMax }

/-- `tcpip_process`. -/
def initTcpip (v : EventVars) : EventVars :=
  let (event, v) := v.processAllocEvent
  let (icmp6, v) := v.processAllocEvent
  { v with tcpipEvent := event, tcpipIcmp6Event := icmp6 }

/-- `udp_handler_process`. -/
def initUdpHandler (v : EventVars) : EventVars :=
  let (event, v) := v.processAllocEvent
  { v with udpHandlerEvent := event }

/-- `shutter_init`. -/
def shutterInit (v : EventVars) : EventVars :=
  let (event, v) := v.processAllocEvent
  { v with shutterPoke := event }

/-- `initialize`, in its order. -/
def boot (config : EventConfig) : EventVars :=
  let v := zero.initHealth.processInit.initTcpip.initUdpHandler.smStart
  if config.shutter then v.shutterInit else v

/-- The event numbers in use: those of the kernel, and those that some process compares an
event with. Nothing compares an event with `tcpip_icmp6_event`. -/
def inUse (config : EventConfig) (v : EventVars) : List UInt8 :=
  processEvents ++ [v.tcpipEvent, v.udpHandlerEvent]
    ++ (if config.epaper then [v.healthEvent] else [])
    ++ (if config.shutter then [v.shutterPoke] else [])
    ++ (if v.smRunning then [v.smHandleInputEvent] else [])

end EventVars

/-! ## Starts and stops -/

/-- The calls that start and stop the state machine, from the main program, from an upload
or from a Reset-ID. -/
inductive SmCall
  | smStart
  | smStop
  | smRestart
  deriving DecidableEq

/-- One call. -/
def SmCall.step : SmCall → EventVars → EventVars
  | .smStart, v => v.smStart
  | .smStop, v => v.smStop
  | .smRestart, v => v.smRestart

/-- Whether the machine runs after the calls. -/
def runsAfter : Bool → List SmCall → Bool
  | running, [] => running
  | _, .smStop :: calls => runsAfter false calls
  | _, _ :: calls => runsAfter true calls

/-- How often the calls start the process. -/
def startsOf : Bool → List SmCall → Nat
  | _, [] => 0
  | true, .smStart :: calls => startsOf true calls
  | false, .smStart :: calls => startsOf true calls + 1
  | _, .smStop :: calls => startsOf false calls
  | _, .smRestart :: calls => startsOf true calls + 1

/-- The number that the state machine has after that many starts since the boot. -/
def eventAfter (config : EventConfig) (starts : Nat) : Nat :=
  if starts = 0 then 0x8d else (0x8d + (if config.shutter then 1 else 0) + starts) % 256

/-- The numbers that are taken: up to the one of the UDP handler, the shutter's, and the one
of the health event. -/
def Taken (config : EventConfig) (event : Nat) : Prop :=
  0x80 ≤ event ∧ event ≤ 0x8c ∧ event ≠ 0x8b ∨ config.shutter = true ∧ event = 0x8e ∨
    config.epaper = true ∧ event = 0

instance (config : EventConfig) (event : Nat) : Decidable (Taken config event) := by
  unfold Taken
  infer_instance

namespace EventVars

/-- What the calls change. -/
structure After (config : EventConfig) (v : EventVars) (running : Bool) (starts : Nat) : Prop where
  smRunning : v.smRunning = running
  health : v.healthEvent = 0
  tcpip : v.tcpipEvent = 0x8a
  udp : v.udpHandlerEvent = 0x8c
  shutter : config.shutter = true → v.shutterPoke = 0x8e
  last : v.lastevent = UInt8.ofNat (0x8e + (if config.shutter then 1 else 0) + starts)
  event : v.smHandleInputEvent.toNat = eventAfter config starts

theorem boot_after (config : EventConfig) : After config (boot config) true 0 := by
  rcases config with ⟨epaper, shutter⟩
  cases shutter
  · exact ⟨rfl, rfl, rfl, rfl, nofun, rfl, rfl⟩
  · exact ⟨rfl, rfl, rfl, rfl, fun _ => rfl, rfl, rfl⟩

variable {config : EventConfig} {v : EventVars} {running : Bool} {starts : Nat}

theorem After.stop (h : After config v running starts) : After config v.smStop false starts :=
  ⟨rfl, h.health, h.tcpip, h.udp, h.shutter, h.last, h.event⟩

/-- A start takes the next number. -/
theorem After.start (h : After config v false starts) :
    After config v.smStart true (starts + 1) := by
  have hstart : v.smStart =
      { v with lastevent := v.lastevent + 1, smHandleInputEvent := v.lastevent,
               smRunning := true } := by
    unfold smStart
    rw [h.smRunning]
    rfl
  rw [hstart]
  refine ⟨rfl, h.health, h.tcpip, h.udp, h.shutter, ?_, ?_⟩
  · show v.lastevent + UInt8.ofNat 1 = _
    rw [h.last, ← UInt8.ofNat_add]
    rfl
  · show v.lastevent.toNat = _
    rw [h.last, UInt8.toNat_ofNat', eventAfter, if_neg (Nat.succ_ne_zero _)]
    congr 1
    omega

/-- What one call changes. -/
theorem After.step (h : After config v running starts) (call : SmCall) :
    After config (call.step v) (runsAfter running [call]) (starts + startsOf running [call]) := by
  cases call with
  | smStop => exact h.stop
  | smRestart => exact h.stop.start
  | smStart =>
    cases running with
    | false => exact h.start
    | true =>
      have hstart : v.smStart = v := by
        unfold smStart
        rw [h.smRunning]
        rfl
      show After config v.smStart true starts
      rw [hstart]
      exact h

theorem runsAfter_cons (running : Bool) (call : SmCall) (calls : List SmCall) :
    runsAfter running (call :: calls) = runsAfter (runsAfter running [call]) calls := by
  cases call <;> rfl

theorem startsOf_cons (running : Bool) (call : SmCall) (calls : List SmCall) :
    startsOf running (call :: calls) =
      startsOf running [call] + startsOf (runsAfter running [call]) calls := by
  cases call <;> cases running <;> simp [startsOf, runsAfter, Nat.add_comm]

/-- What a run of calls changes. -/
theorem After.run (h : After config v running starts) (calls : List SmCall) :
    After config (run SmCall.step v calls) (runsAfter running calls)
      (starts + startsOf running calls) := by
  induction calls generalizing v running starts with
  | nil => exact h
  | cons call calls ih =>
    rw [run_cons, runsAfter_cons, startsOf_cons, ← Nat.add_assoc]
    exact ih (h.step call)

/-- The numbers in use beside that of the state machine. -/
def others (config : EventConfig) : List UInt8 :=
  processEvents ++ [0x8a, 0x8c] ++ (if config.epaper then [0] else [])
    ++ (if config.shutter then [0x8e] else [])

theorem After.inUse_eq (h : After config v running starts) : inUse config v =
    others config ++ if running then [v.smHandleInputEvent] else [] := by
  unfold inUse others
  rw [h.smRunning, h.health, h.tcpip, h.udp]
  cases hshutter : config.shutter with
  | false => rfl
  | true => rw [h.shutter hshutter]

theorem others_nodup (config : EventConfig) : (others config).Nodup := by
  rcases config with ⟨epaper, shutter⟩
  cases epaper <;> cases shutter <;> decide

theorem mem_others (config : EventConfig) (event : UInt8) :
    event ∈ others config ↔ Taken config event.toNat := by
  rcases config with ⟨epaper, shutter⟩
  unfold Taken
  cases epaper <;> cases shutter <;>
    simp [others, processEvents, ← UInt8.toNat_inj] <;> omega

/-- The numbers in use are distinct unless the state machine has one that is taken. -/
theorem After.nodup_iff (h : After config v running starts) :
    (inUse config v).Nodup ↔ (running = true → ¬ Taken config (eventAfter config starts)) := by
  rw [h.inUse_eq]
  cases running with
  | false =>
    simp only [Bool.false_eq_true, if_false, List.append_nil, false_imp_iff, iff_true]
    exact others_nodup config
  | true =>
    simp only [if_true, true_imp_iff]
    rw [← h.event, ← mem_others, List.nodup_append]
    constructor
    · rintro ⟨-, -, hne⟩ hmem
      exact hne _ hmem _ (List.mem_singleton_self _) rfl
    · intro hmem
      refine ⟨others_nodup config, List.nodup_singleton _, ?_⟩
      rintro a ha b hb rfl
      rw [List.mem_singleton.mp hb] at ha
      exact hmem ha

/-- **Event numbers**. After any calls that start and stop the state machine, the event numbers
in use are distinct unless the running machine has been given one that was taken. -/
theorem inUse_nodup_iff (config : EventConfig) (calls : List SmCall) :
    (inUse config (run SmCall.step (boot config) calls)).Nodup ↔
      (runsAfter true calls = true →
        ¬ Taken config (eventAfter config (startsOf true calls))) := by
  have h := (boot_after config).run calls
  rw [Nat.zero_add] at h
  exact h.nodup_iff

/-- A device without options: after 243 restarts the state machine takes the number of
`PROCESS_EVENT_NONE`. -/
theorem restarted_not_nodup : ¬ (inUse ⟨false, false⟩
    (run SmCall.step (boot ⟨false, false⟩) (List.replicate 243 .smRestart))).Nodup := by
  decide +kernel

end EventVars

/-! ## The firmware makes no other calls -/

variable {δ : Type}

/-- The variables of a device, with those that the state machine does not see. -/
def Fw.vars (s : Fw δ) (v : EventVars) : EventVars :=
  { v with lastevent := s.lastevent, udpHandlerEvent := s.udpHandlerEvent,
           smHandleInputEvent := s.smHandleInputEvent, smRunning := smIsRunning s }

/-- From `s` to `s'` the state machine is started and stopped some number of times, and no
event number changes otherwise. -/
def Performs (s s' : Fw δ) : Prop :=
  ∃ calls, ∀ v, s'.vars v = run SmCall.step (s.vars v) calls

namespace Performs

theorem of_eq {s s' : Fw δ} (h : ∀ v, s'.vars v = s.vars v) : Performs s s' := ⟨[], h⟩

theorem refl (s : Fw δ) : Performs s s := of_eq fun _ => rfl

theorem trans {s s' s'' : Fw δ} (h : Performs s s') (h' : Performs s' s'') : Performs s s'' := by
  obtain ⟨calls, hcalls⟩ := h
  obtain ⟨more, hmore⟩ := h'
  refine ⟨calls ++ more, fun v => ?_⟩
  rw [hmore, hcalls, run_append]

theorem smStop (s : Fw δ) : Performs s (smStop s) := ⟨[.smStop], fun _ => rfl⟩

theorem smStart (s : Fw δ) : Performs s (smStart s) := by
  refine ⟨[.smStart], fun v => ?_⟩
  show (Firmware.smStart s).vars v = (s.vars v).smStart
  unfold Firmware.smStart EventVars.smStart
  cases hrunning : smIsRunning s <;> simp [Fw.vars, hrunning, EventVars.processAllocEvent]
  rfl

theorem smRestart (s : Fw δ) : Performs s (smRestart s) := (smStop s).trans (smStart _)

variable {chain : EndpointChain (Dev δ)} {loc : Locals} {post : UInt8 → EventData → Fw δ → Fw δ}

section Calls

variable (hpost : ∀ ev data s, Performs s (post ev data s))

include hpost

theorem broadcastValue (eid : UInt32) (s : Fw δ) :
    Performs s (broadcastValue chain loc post eid s) := by
  unfold Firmware.broadcastValue
  simp only
  split
  · exact refl s
  · exact (of_eq fun _ => rfl).trans (hpost _ _ _)

theorem runCall (call : SelfCall) (s : Fw δ) : Performs s (runCall chain loc post s call) := by
  cases call with
  | broadcast eid => exact broadcastValue hpost eid s
  | smStop => exact smStop s
  | smStart => exact smStart s
  | smRestart => exact smRestart s

theorem foldl_runCall (calls : List SelfCall) (s : Fw δ) :
    Performs s (calls.foldl (Firmware.runCall chain loc post) s) := by
  induction calls generalizing s with
  | nil => exact refl s
  | cons call calls ih => exact (runCall hpost call s).trans (ih _)

theorem fireAction (eidEnv : HxbEnvelope) (t : Transition) (s : Fw δ) :
    Performs s (fireAction (writeEndpoint chain loc post) eidEnv t s) := by
  have hwrite : Performs s
      (writeEndpoint chain loc post t.eid (actionEnvelope eidEnv t) s).2 :=
    (of_eq fun _ => rfl).trans (foldl_runCall hpost _ _)
  unfold Firmware.fireAction
  simp only
  split <;> exact hwrite.trans (of_eq fun _ => rfl)

theorem checkTransitions (eidEnv : HxbEnvelope) (datetime : Bool) (env : Option HxbEnvelope)
    (n i : Nat) (s : Fw δ) : Performs s
      (checkTransitions (writeEndpoint chain loc post) eidEnv datetime env n i s).1 := by
  induction n generalizing i s with
  | zero => exact refl s
  | succ n ih =>
    unfold Firmware.checkTransitions
    simp only
    split
    · split
      · exact fireAction hpost eidEnv _ s
      · exact (of_eq fun _ => rfl).trans (ih _ _)
    · exact ih _ _

theorem threadInput (envelope : HxbEnvelope) (s : Fw δ) :
    Performs s (threadInput chain loc post envelope s) := by
  have hrest : ∀ s' : Fw δ, Performs s' (evaluateInput chain loc post envelope s') := fun s' =>
    (of_eq fun _ => rfl).trans ((checkTransitions hpost _ _ _ _ _
      (note (.evaluated envelope s'.curState) s')).trans (of_eq fun _ => rfl))
  by_cases hreset : isOwnReset s envelope = true
  · have hthread : Firmware.threadInput chain loc post envelope s
        = evaluateInput chain loc post envelope (note (.moved 0) (Firmware.smRestart s)) :=
      congrArg (evaluateInput chain loc post envelope) (if_pos hreset)
    rw [hthread]
    exact ((smRestart s).trans (of_eq fun _ => rfl)).trans (hrest _)
  · have hthread : Firmware.threadInput chain loc post envelope s
        = evaluateInput chain loc post envelope s :=
      congrArg (evaluateInput chain loc post envelope) (if_neg hreset)
    rw [hthread]
    exact hrest s

theorem threadUdpUp (s : Fw δ) : Performs s (threadUdpUp chain loc post s) := by
  unfold Firmware.threadUdpUp
  split
  · exact refl s
  · let r := Firmware.broadcastValue chain loc post epSmResetId s
    have hbroadcast : Performs s r := broadcastValue hpost _ s
    have hzero : Performs r { r with curState := 0 } := of_eq fun _ => rfl
    exact (hbroadcast.trans hzero).trans
      ((checkTransitions hpost _ _ _ _ _ { r with curState := 0 }).trans (of_eq fun _ => rfl))

theorem thread (ev : UInt8) (data : EventData) (s : Fw δ) :
    Performs s (thread chain loc post ev data s) := by
  unfold Firmware.thread
  split
  · exact threadUdpUp hpost s
  split
  · exact (of_eq fun _ => rfl).trans
      ((checkTransitions hpost _ _ _ _ _ (refreshDtValid s)).trans (of_eq fun _ => rfl))
  split
  · cases data with
    | input envelope => exact threadInput hpost envelope s
    | none => exact refl s
    | udpState up => exact refl s
  · exact refl s

end Calls

theorem callProcess (n : Nat) (ev : UInt8) (data : EventData) (s : Fw δ) :
    Performs s (callProcess chain loc n ev data s) := by
  induction n generalizing ev data s with
  | zero => exact of_eq fun _ => rfl
  | succ n ih =>
    unfold Firmware.callProcess
    split
    · rename_i hrunning
      have hcalled : Performs s { s with pstate := .called } := by
        refine of_eq fun v => ?_
        simp [Fw.vars, smIsRunning, hrunning]
      let r := Firmware.thread chain loc (Firmware.callProcess chain loc n) ev data
        { s with pstate := .called }
      have hthread : Performs s r := hcalled.trans (thread ih ev data _)
      show Performs s (if r.pstate = .none ∨ ev = processEventExit then { r with pstate := .none }
        else { r with pstate := .running })
      split
      · -- the thread has ended
        exact hthread.trans (smStop r)
      · rename_i hend
        refine hthread.trans (of_eq fun v => ?_)
        have hne : r.pstate ≠ .none := fun h => hend (.inl h)
        simp [Fw.vars, smIsRunning, hne]
    · exact refl s

end Performs

/-- One step of the firmware. -/
theorem step_performs (chain : EndpointChain (Dev δ)) (loc : Locals) (n : Nat) (a : Step δ)
    (s : Fw δ) : Performs s (step chain loc n a s) := by
  cases a with
  | info envelope => exact (Performs.of_eq fun _ => rfl).trans (Performs.callProcess n _ _ _)
  | broadcast eid => exact Performs.broadcastValue (Performs.callProcess n) eid s
  | smStop => exact (Performs.smStop s).trans (Performs.of_eq fun _ => rfl)
  | smStart => exact (Performs.smStart s).trans (Performs.of_eq fun _ => rfl)
  | smRestart => exact (Performs.smRestart s).trans (Performs.of_eq fun _ => rfl)
  | device dev eeprom => exact Performs.of_eq fun _ => rfl
  | clock timestamp currentDt timeValid => exact Performs.of_eq fun _ => rfl
  | tick => exact Performs.callProcess n _ _ _
  | udp up => exact Performs.callProcess n _ _ _

/-- **A run of the firmware** makes no other calls than those that start and stop the state
machine. -/
theorem run_performs (chain : EndpointChain (Dev δ)) (loc : Locals) (n : Nat)
    (steps : List (Step δ)) (s : Fw δ) : Performs s (run (step chain loc n) s steps) := by
  induction steps generalizing s with
  | nil => exact Performs.refl s
  | cons a steps ih => exact (step_performs chain loc n a s).trans (ih _)

end Hexabus.Firmware
