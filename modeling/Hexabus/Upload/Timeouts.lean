import Hexabus.Asm.Completeness
import Hexabus.Firmware.Process
import Hexabus.Firmware.SingleFiring
import Hexabus.Upload.Layout

/-!
# Timeouts on a tick

A timeout (in-state-since condition) needs no input, so its transition has to be taken
by the periodic tick. The tick walks the date-time table only. The assembler sorts a
clause by the data type of its condition, and a timeout is no date-time condition.
-/

namespace Hexabus.Upload

open Lib.Bytes Lib.Store Asm Firmware

variable {δ : Type} (chain : EndpointChain (Dev δ)) (loc : Locals)

/-! ## What a tick does -/

/-- The entries of the date-time table that the next tick fires, with stack for `n`
calls inside each other. -/
def tickFired (n : Nat) (s : Fw δ) : List Nat :=
  (checkDatetimeTransitions (writeEndpoint chain loc (callProcess chain loc n)) loc.eidEnv
    loc.dtenvelope { s with pstate := .called }).2

/-- The transitions that the next tick takes, each with its table. -/
def tickTakes (n : Nat) (s : Fw δ) : List (Bool × Nat) :=
  (tickFired chain loc n s).map fun i => (true, i)

/-! ## Timeouts -/

/-- The transition leaves the current state on a timeout, and the machine has been in the
state for the seconds it asks for. A restart leaves `inStateSince` alone, so the time it
gives is never too short. -/
structure TimeoutOver (s : Fw δ) (t : Transition) : Prop where
  source : t.fromState = s.curState
  indexed : t.cond ≠ trueCondIndex
  datatype : (smGetCondition s.eeprom t.cond).datatype = DataType.timestamp.code
  op : (smGetCondition s.eeprom t.cond).op = hxbSmTimestampOp
  seconds : (smGetCondition s.eeprom t.cond).value.v_u32 ≤ s.timestamp - s.inStateSince

/-- The envelope a tick evaluates the conditions on. -/
def tickEnvelope (s : Fw δ) : Option HxbEnvelope :=
  some (datetimeEnvelope loc.dtenvelope (refreshDtValid s))

/-- How many entries of a table the machine knows of. -/
def tableLength (s : Fw δ) (datetime : Bool) : Nat :=
  if datetime then s.dtTransLength.toNat else s.transLength.toNat

/-- Entry `i` of a table waits for a timeout that is over, and no entry before it
matches. -/
structure Due (s : Fw δ) (datetime : Bool) (i : Nat) : Prop where
  stored : i < tableLength s datetime
  elapsed : TimeoutOver s (entry s datetime i)
  first : ∀ j, j < i → ¬ matchesAt (refreshDtValid s) datetime (tickEnvelope loc s) j

/-- The next tick of the waiting machine takes every transition that is due. -/
def TimeoutsFire (n : Nat) (s : Fw δ) : Prop :=
  s.pstate = .running → ∀ datetime i, Due loc s datetime i →
    (datetime, i) ∈ tickTakes chain loc n s

variable {chain} {loc}

/-- A timeout that is over holds on every event with a value. -/
theorem TimeoutOver.eval {s : Fw δ} {t : Transition} (h : TimeoutOver s t)
    (envelope : HxbEnvelope) : eval s t.cond (some envelope) = true := by
  have hne : DataType.timestamp.code ≠ DataType.datetime.code := by decide
  unfold Firmware.eval
  rw [if_neg h.indexed]
  simp only [h.datatype]
  -- sender, endpoint and data type of the envelope do not matter
  rw [if_neg (by simp), if_neg (by simp), if_neg (by simp)]
  unfold evalValue
  rw [h.datatype]
  have hcode : DataType.ofCode DataType.timestamp.code = some .timestamp := by decide
  simp only [hcode]
  rw [if_pos h.op]
  exact decide_eq_true h.seconds

theorem Due.matchesAt {s : Fw δ} {datetime : Bool} {i : Nat} (h : Due loc s datetime i) :
    matchesAt (refreshDtValid s) datetime (tickEnvelope loc s) i := by
  have hover : TimeoutOver (refreshDtValid s) (entry s datetime i) :=
    ⟨h.elapsed.source, h.elapsed.indexed, h.elapsed.datatype, h.elapsed.op, h.elapsed.seconds⟩
  have heval := hover.eval (datetimeEnvelope loc.dtenvelope (refreshDtValid s))
  show ((entry s datetime i).fromState == s.curState && _) = true
  rw [Bool.and_eq_true, beq_iff_eq]
  exact ⟨h.elapsed.source, heval⟩

/-- A timeout that is due in the date-time table fires first. -/
theorem Due.mem_tickFired {s : Fw δ} {i : Nat} (h : Due loc s true i) (n : Nat) :
    i ∈ tickFired chain loc n s := by
  have hstored : i < s.dtTransLength.toNat := h.stored
  have hcount : 0 + s.dtTransLength.toNat - i = (s.dtTransLength.toNat - (i + 1)) + 1 := by omega
  have hmatch : Firmware.matchesAt (refreshDtValid { s with pstate := .called }) true
      (tickEnvelope loc s) i := h.matchesAt
  have hfirst := @checkTransitions_first δ (writeEndpoint chain loc (callProcess chain loc n))
    loc.eidEnv true (tickEnvelope loc s) (refreshDtValid { s with pstate := .called })
    s.dtTransLength.toNat 0 i (Nat.zero_le i) (by omega) fun j _ hj => h.first j hj
  show i ∈ (checkTransitions (writeEndpoint chain loc (callProcess chain loc n)) loc.eidEnv true
    (tickEnvelope loc s) s.dtTransLength.toNat 0 (refreshDtValid { s with pstate := .called })).2
  rw [hfirst, hcount]
  cases ha : hasAction (entry (refreshDtValid { s with pstate := .called }) true i) with
  | true =>
    rw [checkTransitions_action hmatch ha]
    exact List.mem_singleton_self i
  | false =>
    rw [checkTransitions_noAction hmatch ha]
    exact List.mem_cons_self

/-- A tick takes what is due exactly when nothing is due in the plain table. -/
theorem timeoutsFire_iff (n : Nat) (s : Fw δ) :
    TimeoutsFire chain loc n s ↔ (s.pstate = .running → ∀ i, ¬ Due loc s false i) := by
  constructor
  · intro h hrun i hdue
    obtain ⟨j, -, hj⟩ := List.mem_map.mp (h hrun false i hdue)
    exact Bool.noConfusion (congrArg Prod.fst hj)
  · intro h hrun datetime i hdue
    cases datetime with
    | false => exact absurd hdue (h hrun i)
    | true => exact List.mem_map.mpr ⟨i, hdue.mem_tickFired n, rfl⟩

/-! ## Machines that were assembled -/

/-- The machine runs on the tables of a program. -/
structure RunsOn (s : Fw δ) (ast : HbaDoc) (maps : Maps) : Prop where
  agrees : Agrees s.eeprom ast maps
  dtTransLength : s.dtTransLength = smGetNumberOfTransitions s.eeprom true

/-- The records of the date-time table have date-time conditions. -/
theorem datetime_of_placed {env : Environment} {ast : HbaDoc} {t : Transition}
    (h : t ∈ placedIn env ast.blocks true (events ast.blocks)) :
    ∃ k doc, t.cond = UInt8.ofNat k ∧ (conditionDocs ast.blocks)[k]? = some doc ∧
      (conditionOf env k doc).datatype = DataType.datetime.code := by
  obtain ⟨event, hevent, rfl⟩ := List.mem_map.mp h
  have htable := of_decide_eq_true (List.mem_filter.mp hevent).2
  unfold tableOf at htable
  by_cases hname : event.clause.name ≠ "true"
  · rw [if_pos hname] at htable
    by_cases hseen : conditionNumber ast.blocks event.clause < event.seen
    · rw [if_pos hseen] at htable
      have hdt := Option.some.inj htable
      unfold isDatetime at hdt
      cases hdoc : (conditionDocs ast.blocks)[conditionNumber ast.blocks event.clause]? with
      | none =>
        rw [hdoc] at hdt
        cases hdt
      | some doc =>
        rw [hdoc] at hdt
        exact ⟨_, doc, rfl, hdoc, of_decide_eq_true hdt⟩
    · rw [if_neg hseen] at htable
      cases htable
  · rw [if_neg hname] at htable
    exact absurd (Option.some.inj htable) (by decide)

/-- No timeout stands in the date-time table of an assembled program. -/
theorem RunsOn.not_due {env : Environment} {ast : HbaDoc} {maps : Maps} {s : Fw δ}
    (h : RunsOn s ast maps) (hmaps : emitted env ast = .ok maps) (i : Nat) : ¬ Due loc s true i := by
  intro hdue
  obtain ⟨hconditions, hbin⟩ := emitted_records hmaps
  have hi : i < (maps.bin true).length := by
    rw [← h.agrees.transitionCount true, ← h.dtTransLength]
    exact hdue.stored
  have hentry : entry s true i = (maps.bin true)[i].2 := h.agrees.transition true i hi
  have hmem : entry s true i ∈ placedIn env ast.blocks true (events ast.blocks) := by
    rw [hentry, ← hbin true]
    exact List.mem_map.mpr ⟨_, List.getElem_mem hi, rfl⟩
  obtain ⟨k, doc, hcond, hdoc, hdt⟩ := datetime_of_placed hmem
  have hget : maps.conditionsBin[k]? = some (k, conditionOf env k doc) := by
    rw [hconditions, getElem?_conditionEntries, hdoc]
    simp
  obtain ⟨hk, hrecord⟩ := List.getElem?_eq_some_iff.mp hget
  have hread : smGetCondition s.eeprom (entry s true i).cond = conditionOf env k doc := by
    rw [hcond, h.agrees.condition k hk, hrecord]
  have htimestamp := hdue.elapsed.datatype
  rw [hread, hdt] at htimestamp
  exact absurd htimestamp (by decide)

/-- **When timeouts fire on a tick.** For every stored machine: exactly when no timeout
that is due stands in the plain table, which a tick does not walk. For a machine that
was assembled: only when no timeout is due at all. -/
theorem timeouts_fire_iff (chain : EndpointChain (Dev δ)) (loc : Locals) (n : Nat) (s : Fw δ) :
    (TimeoutsFire chain loc n s ↔ (s.pstate = .running → ∀ i, ¬ Due loc s false i)) ∧
    ∀ (env : Environment) (ast : HbaDoc) (maps : Maps), emitted env ast = .ok maps →
      RunsOn s ast maps →
      (TimeoutsFire chain loc n s ↔
        (s.pstate = .running → ∀ datetime i, ¬ Due loc s datetime i)) := by
  refine ⟨timeoutsFire_iff n s, ?_⟩
  intro env ast maps hmaps hruns
  rw [timeoutsFire_iff]
  constructor
  · intro h hrun datetime i
    cases datetime with
    | false => exact h hrun i
    | true => exact hruns.not_due hmaps i
  · intro h hrun i
    exact h hrun false i

/-- Wait five seconds, then switch the socket on. -/
def waitingProgram : HbaDoc := { sampleProgram with
  blocks := [
    .condition ⟨1, "late", .timeout 5, 0⟩,
    .state ⟨2, "idle", [⟨3, "late", 1, 0x3f800000, "idle", "idle"⟩], 0⟩] }

def waitingMaps : Maps where
  statesBin := [(0, ⟨0, 0, 1, 0, 0, DataType.bool.code, unionOf 1 (Block.zero 4)⟩)]
  transDtBin := []
  conditionsBin := [(0, ⟨localhostIp, 0, hxbSmTimestampOp, DataType.timestamp.code,
    unionOf 5 (Block.zero 4)⟩)]
  stateIndex := 1

/-- Seven seconds after its start, with no input. -/
def waitingMachine : Fw Unit where
  eeprom := writeBlock (fun _ => 0xff) EE.statemachineId (areaOf waitingProgram waitingMaps)
  transLength := 1
  dtTransLength := 0
  curState := 0
  inStateSince := 0
  dtValid := false
  smHandleInputEvent := 0x8a
  udpHandlerEvent := 0x8b
  lastevent := 0x8c
  pstate := .running
  timestamp := 7
  currentDt := ⟨0, 0, 0, 0, 0, 0, 0⟩
  timeValid := false
  dev := ()
  stackOverflow := false
  log := []

theorem waitingMachine_agrees : Agrees waitingMachine.eeprom waitingProgram waitingMaps :=
  agrees_of_holds (holds_write _ _ _) ⟨by decide, by decide, by decide⟩

/-- Local variables that happen to be zero. -/
def zeroLocals : Locals where
  eidEnv := ⟨Block.zero 16, 0, 0, ⟨0, Block.zero 8, []⟩⟩
  dtenvelope := ⟨Block.zero 16, 0, 0, ⟨0, Block.zero 8, []⟩⟩
  value := ⟨0, Block.zero 8, []⟩

/-- The waiting machine as an assembled one. -/
theorem waitingMachine_fires_iff :
    TimeoutsFire [] zeroLocals 1 waitingMachine ↔
      (waitingMachine.pstate = .running →
        ∀ datetime i, ¬ Due zeroLocals waitingMachine datetime i) :=
  (timeouts_fire_iff [] zeroLocals 1 waitingMachine).2 sampleEnvironment waitingProgram
    waitingMaps rfl ⟨waitingMachine_agrees,
      UInt8.toNat_inj.mp (waitingMachine_agrees.transitionCount true).symm⟩

/-- The timeout is over, but it stands in the plain table: the tick does not take it. -/
theorem waitingMachine_waits :
    emitted sampleEnvironment waitingProgram = .ok waitingMaps ∧
      ∀ (loc : Locals) (n : Nat), ¬ TimeoutsFire [] loc n waitingMachine := by
  refine ⟨rfl, fun loc n hfire => ?_⟩
  have hentry : entry waitingMachine false 0
      = ⟨0, 0, 1, 0, 0, DataType.bool.code, unionOf 1 (Block.zero 4)⟩ :=
    waitingMachine_agrees.transition false 0 (by decide)
  have hcondition : smGetCondition waitingMachine.eeprom 0
      = ⟨localhostIp, 0, hxbSmTimestampOp, DataType.timestamp.code, unionOf 5 (Block.zero 4)⟩ :=
    waitingMachine_agrees.condition 0 (by decide)
  have hover : TimeoutOver waitingMachine (entry waitingMachine false 0) := by
    rw [hentry]
    exact ⟨rfl, by decide, congrArg Condition.datatype hcondition, congrArg Condition.op hcondition,
      hcondition ▸ by decide⟩
  refine (timeoutsFire_iff n waitingMachine).mp hfire rfl 0 ⟨Nat.one_pos, hover, ?_⟩
  intro j hj
  exact absurd hj (Nat.not_lt_zero j)

end Hexabus.Upload
