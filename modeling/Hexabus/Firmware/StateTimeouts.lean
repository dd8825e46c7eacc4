import Hexabus.Firmware.InStateTime
import Hexabus.Firmware.ResetIds

/-!
# Timeouts of a state

`sm_start` and a network that has come up put the machine into state 0 and leave
`inStateSince` as it was. The time in the state is right in every run in which that
happens only while the stamp is of the current second, or the evaluation that follows
leaves the state at once.
-/

namespace Hexabus.Firmware

open Lib.Runs

variable {δ : Type}

/-! ## The time in the state, and when it is right -/

/-- `inStateSince` is when the current state was entered, and every transition taken so
far had its machine in its state for as long as its condition asks. -/
structure InStateTime (t : Timed δ) : Prop where
  stamped : t.fw.inStateSince = UInt32.ofNat t.entered
  timeouts : ∀ h ∈ t.held, h.1 ≤ h.2

/-- The static variables at boot; the service has just been started. -/
def boot (s : Fw δ) : Timed δ where
  fw := { s with curState := 0, inStateSince := 0, timestamp := 0 }
  now := 0
  entered := 0
  held := []

section Conditions

variable (chain : EndpointChain (Dev δ)) (loc : Locals)

/-- One of a handler's calls enters the thread: a value that can be read is broadcast while
the process waits, so after a start that the handler itself has made. -/
def Reenters (d : Dev δ) : ProcessState → List SelfCall → Prop
  | _, [] => False
  | p, .broadcast eid :: calls =>
    (p = .running ∧ (chain.endpointRead eid { loc.value with blob := [] }
        ⟨d.dev, d.eeprom, []⟩).1 = .success) ∨ Reenters d p calls
  | _, .smStop :: calls => Reenters d .none calls
  | p, .smStart :: calls => Reenters d (if p = .none then .running else p) calls
  | _, .smRestart :: calls => Reenters d .running calls

/-- The action of a transition does not enter the thread. -/
def Alone (s : Fw δ) (t : Transition) : Prop :=
  let d := (chain.endpointWrite t.eid (actionEnvelope loc.eidEnv t) ⟨s.dev, s.eeprom, []⟩).2
  hasAction t = true → ¬ Reenters chain loc d s.pstate d.calls

/-- The transition that an event takes first, if it takes one, acts alone. -/
def TakenAlone (s : Fw δ) (datetime : Bool) (env : Option HxbEnvelope) (n : Nat) : Prop :=
  ∀ i, firstMatch s datetime env n = some i → Alone chain loc s (entry s datetime i)

/-- An event takes a transition, which acts alone and asks for no time in the state. -/
def LeavesAtOnce (s : Fw δ) (datetime : Bool) (env : Option HxbEnvelope) (n : Nat) : Prop :=
  ∃ i, firstMatch s datetime env n = some i ∧ timeout s.eeprom (entry s datetime i) = 0 ∧
    Alone chain loc s (entry s datetime i)

/-- The condition on an event that enters the thread. -/
def TimelyEvent (s : Fw δ) (ev : UInt8) (data : EventData) : Prop :=
  if ev = s.udpHandlerEvent ∧ data.isUp then
    smIdIsZero s.eeprom = true ∨
      LeavesAtOnce chain loc { s with curState := 0 } false none s.transLength.toNat
  else if ev = processEventTimer then
    TakenAlone chain loc (refreshDtValid s) true
      (some (datetimeEnvelope loc.dtenvelope (refreshDtValid s))) s.dtTransLength.toNat
  else if ev = s.smHandleInputEvent then
    match data with
    | .input envelope =>
      if isOwnReset s envelope then
        LeavesAtOnce chain loc (smRestart s) false (some envelope) (smRestart s).transLength.toNat
      else TakenAlone chain loc s false (some envelope) s.transLength.toNat
    | _ => True
  else True

/-- The event finds the process waiting and meets the condition on it. -/
def TimelyCall (s : Fw δ) (ev : UInt8) (data : EventData) : Prop :=
  s.pstate = .running → TimelyEvent chain loc { s with pstate := .called } ev data

/-- The condition on a step whose state was not entered in the current second. -/
def TimelyStep (s : Fw δ) : Step δ → Prop
  | .info envelope => TimelyCall chain loc s s.smHandleInputEvent (.input envelope)
  | .broadcast eid =>
    let r := chain.endpointRead eid { loc.value with blob := [] } ⟨s.dev, s.eeprom, []⟩
    r.1 = .success →
      TimelyCall chain loc s s.smHandleInputEvent (.input ⟨localhost, 0, eid, r.2⟩)
  | .smStart => smIsRunning s = true
  | .smRestart => False
  | .tick => TimelyCall chain loc s processEventTimer .none
  | .udp up => TimelyCall chain loc s s.udpHandlerEvent (.udpState up)
  | _ => True

/-- The condition on a step. -/
def Timely (s : Fw δ) (a : Step δ) : Prop :=
  s.inStateSince = s.timestamp ∨ TimelyStep chain loc s a

end Conditions

/-! ## Invariants of the record -/

/-- The seconds are counted right, and the transitions taken so far were due. -/
structure Counted (t : Timed δ) : Prop where
  clock : t.fw.timestamp = UInt32.ofNat t.now
  entered_le : t.entered ≤ t.now
  timeouts : ∀ h ∈ t.held, h.1 ≤ h.2

/-- And the state has its stamp. -/
structure Stamped (t : Timed δ) : Prop extends Counted t where
  stamped : t.fw.inStateSince = UInt32.ofNat t.entered

/-- And the stamp is of the current second, so that another entry of a state needs none. -/
structure Fresh (t : Timed δ) : Prop extends Stamped t where
  current : t.fw.inStateSince = t.fw.timestamp

variable {t : Timed δ} {f : Fw δ → Fw δ}

theorem Counted.keep (h : Counted t) (hclock : (f t.fw).timestamp = t.fw.timestamp) :
    Counted (t.keep f) :=
  ⟨hclock.trans h.clock, h.entered_le, h.timeouts⟩

theorem Stamped.keep (h : Stamped t) (hclock : (f t.fw).timestamp = t.fw.timestamp)
    (hsince : (f t.fw).inStateSince = t.fw.inStateSince) : Stamped (t.keep f) :=
  ⟨h.toCounted.keep hclock, hsince.trans h.stamped⟩

theorem Fresh.keep (h : Fresh t) (hclock : (f t.fw).timestamp = t.fw.timestamp)
    (hsince : (f t.fw).inStateSince = t.fw.inStateSince) : Fresh (t.keep f) :=
  ⟨h.toStamped.keep hclock hsince, (hsince.trans h.current).trans hclock.symm⟩

/-- A state entered without a stamp is counted from now on. -/
theorem Counted.enter (h : Counted t) (hclock : (f t.fw).timestamp = t.fw.timestamp) :
    Counted (t.enter f) :=
  ⟨hclock.trans h.clock, Nat.le_refl _, h.timeouts⟩

/-- A state entered with the stamp of the current second is fresh. -/
theorem Counted.enter_fresh (h : Counted t) (hclock : (f t.fw).timestamp = t.fw.timestamp)
    (hsince : (f t.fw).inStateSince = t.fw.timestamp) : Fresh (t.enter f) :=
  ⟨⟨h.enter hclock, hsince.trans h.clock⟩, hsince.trans hclock.symm⟩

theorem Counted.take (h : Counted t) {transition : Transition}
    (hdue : timeout t.fw.eeprom transition ≤ t.now - t.entered) : Counted (t.take transition) := by
  refine ⟨h.clock, h.entered_le, ?_⟩
  intro pair hpair
  rcases List.mem_append.mp hpair with hold | hnew
  · exact h.timeouts pair hold
  · rw [List.mem_singleton.mp hnew]
    exact hdue

theorem elapsed_le {now entered : Nat} (h : entered ≤ now) :
    (UInt32.ofNat now - UInt32.ofNat entered).toNat ≤ now - entered := by
  rw [← UInt32.ofNat_sub h, UInt32.toNat_ofNat']
  exact Nat.mod_le _ _

/-- A time stamp condition compares the clock with the stamp of the state. -/
theorem eval_timestamp {s : Fw δ} {condIndex : UInt8} {env : Option HxbEnvelope}
    (hindex : condIndex ≠ trueCondIndex)
    (htype : (smGetCondition s.eeprom condIndex).datatype = DataType.timestamp.code)
    (hop : (smGetCondition s.eeprom condIndex).op = hxbSmTimestampOp)
    (h : eval s condIndex env = true) :
    (smGetCondition s.eeprom condIndex).value.v_u32 ≤ s.timestamp - s.inStateSince := by
  unfold eval at h
  rw [if_neg hindex] at h
  cases env with
  | none => cases h
  | some envelope =>
    have hcode : DataType.ofCode DataType.timestamp.code = some .timestamp := by decide
    simp only [htype, or_true, not_true_eq_false, false_and, and_false, if_false, ne_eq,
      evalValue, hcode, hop, if_true] at h
    exact of_decide_eq_true h

/-- **A timeout holds only when it is due**: with the stamp right, a condition on the time
in the state is met only after that time. -/
theorem Stamped.timeout_le (h : Stamped t) {env : Option HxbEnvelope} {transition : Transition}
    (hm : matchesTransition t.fw env transition = true) :
    timeout t.fw.eeprom transition ≤ t.now - t.entered := by
  unfold timeout
  simp only []
  split
  · rename_i hcond
    obtain ⟨hindex, htype, hop⟩ := hcond
    have heval : eval t.fw transition.cond env = true := (Bool.and_eq_true_iff.mp hm).2
    have hle := UInt32.le_iff_toNat_le.mp (eval_timestamp hindex htype hop heval)
    rw [h.clock, h.stamped] at hle
    exact hle.trans (elapsed_le h.entered_le)
  · exact Nat.zero_le _

/-! ## A stamp of the current second stays one -/

theorem Fresh.take (h : Fresh t) {env : Option HxbEnvelope} {transition : Transition}
    (hm : matchesTransition t.fw env transition = true) : Fresh (t.take transition) :=
  ⟨⟨h.toCounted.take (h.toStamped.timeout_le hm), h.stamped⟩, h.current⟩

theorem Fresh.smStart (h : Fresh t) : Fresh t.smStart := by
  unfold Timed.smStart
  by_cases hrun : smIsRunning t.fw = true
  · rw [if_pos hrun]
    exact h
  · rw [if_neg hrun]
    have hstart : (Firmware.smStart t.fw).timestamp = t.fw.timestamp ∧
        (Firmware.smStart t.fw).inStateSince = t.fw.inStateSince := by
      unfold Firmware.smStart
      rw [if_neg hrun]
      exact ⟨rfl, rfl⟩
    exact h.toCounted.enter_fresh hstart.1 (hstart.2.trans h.current)

theorem Fresh.smRestart (h : Fresh t) : Fresh t.smRestart :=
  Fresh.smStart (h.keep rfl rfl)

theorem Fresh.enterState (h : Counted t) (state : UInt8) :
    Fresh (t.enter (enterState · state)) :=
  h.enter_fresh rfl rfl

section Loop

variable {write : UInt32 → HxbEnvelope → Timed δ → ErrorCode × Timed δ} {eidEnv : HxbEnvelope}

/-- An action is over when its transition has entered a state. -/
theorem Fresh.fireAction {transition : Transition}
    (h : Counted (write transition.eid (actionEnvelope eidEnv transition) t).2) :
    Fresh (Timed.fireAction write eidEnv transition t) := by
  unfold Timed.fireAction
  simp only []
  split
  · exact Fresh.enterState h _
  · exact Fresh.enterState h _

theorem Fresh.checkTransitions (hwrite : ∀ eid env t, Fresh t → Fresh (write eid env t).2)
    (datetime : Bool) (env : Option HxbEnvelope) (n i : Nat) (h : Fresh t) :
    Fresh (Timed.checkTransitions write eidEnv datetime env n i t) := by
  induction n generalizing i t with
  | zero => exact h
  | succ n ih =>
    unfold Timed.checkTransitions
    simp only []
    by_cases hm : matchesTransition t.fw env
        (smGetTransition t.fw.eeprom datetime (UInt8.ofNat i)) = true
    · rw [if_pos hm]
      by_cases ha : hasAction (smGetTransition t.fw.eeprom datetime (UInt8.ofNat i)) = true
      · rw [if_pos ha]
        exact Fresh.fireAction (hwrite _ _ _ (h.take hm)).toCounted
      · rw [if_neg ha]
        exact ih _ (Fresh.enterState (h.take hm).toCounted _)
    · rw [if_neg hm]
      exact ih _ h

end Loop

section Post

variable {chain : EndpointChain (Dev δ)} {loc : Locals}
  {post : UInt8 → EventData → Timed δ → Timed δ}
  (hpost : ∀ ev data t, Fresh t → Fresh (post ev data t))
include hpost

theorem Fresh.smHandleInput (envelope : HxbEnvelope) (h : Fresh t) :
    Fresh (Timed.smHandleInput post envelope t) :=
  hpost _ _ _ (h.keep rfl rfl)

theorem Fresh.broadcastValue (eid : UInt32) (h : Fresh t) :
    Fresh (Timed.broadcastValue chain loc post eid t) := by
  unfold Timed.broadcastValue
  simp only []
  split
  · exact h
  · exact Fresh.smHandleInput hpost _ h

theorem Fresh.runCall (call : SelfCall) (h : Fresh t) :
    Fresh (Timed.runCall chain loc post t call) := by
  cases call with
  | broadcast eid => exact Fresh.broadcastValue hpost eid h
  | smStop => exact h.keep rfl rfl
  | smStart => exact h.smStart
  | smRestart => exact h.smRestart

theorem Fresh.foldl_runCall (calls : List SelfCall) (h : Fresh t) :
    Fresh (calls.foldl (Timed.runCall chain loc post) t) := by
  induction calls generalizing t with
  | nil => exact h
  | cons call calls ih => exact ih (Fresh.runCall hpost call h)

theorem Fresh.writeEndpoint (eid : UInt32) (env : HxbEnvelope) (t : Timed δ) (h : Fresh t) :
    Fresh (Timed.writeEndpoint chain loc post eid env t).2 :=
  Fresh.foldl_runCall hpost _ (h.keep rfl rfl)

theorem Fresh.checkTable (datetime : Bool) (env : Option HxbEnvelope) (n i : Nat)
    (h : Fresh t) :
    Fresh (Timed.checkTransitions (Timed.writeEndpoint chain loc post) loc.eidEnv datetime env
      n i t) :=
  Fresh.checkTransitions (Fresh.writeEndpoint hpost) datetime env n i h

theorem Fresh.threadInput (envelope : HxbEnvelope) (h : Fresh t) :
    Fresh (Timed.threadInput chain loc post envelope t) := by
  have hreset : Fresh (if isOwnReset t.fw envelope then t.smRestart.keep (note (.moved 0))
      else t) := by
    split
    · exact h.smRestart.keep rfl rfl
    · exact h
  exact (Fresh.checkTable hpost _ _ _ _ (hreset.keep rfl rfl)).keep rfl rfl

theorem Fresh.threadTimer (h : Fresh t) : Fresh (Timed.threadTimer chain loc post t) := by
  have hvalid : Fresh (t.keep refreshDtValid) := h.keep rfl rfl
  exact (Fresh.checkTable hpost _ _ _ _ hvalid).keep rfl rfl

theorem Fresh.threadUdpUp (h : Fresh t) : Fresh (Timed.threadUdpUp chain loc post t) := by
  unfold Timed.threadUdpUp
  split
  · exact h
  · have hsent : Fresh (Timed.broadcastValue chain loc post epSmResetId t) :=
      Fresh.broadcastValue hpost epSmResetId h
    have hzero := hsent.toCounted.enter_fresh (f := fun s => { s with curState := 0 }) rfl
      hsent.current
    exact (Fresh.checkTable hpost _ _ _ _ hzero).keep rfl rfl

theorem Fresh.thread (ev : UInt8) (data : EventData) (h : Fresh t) :
    Fresh (Timed.thread chain loc post ev data t) := by
  unfold Timed.thread
  split
  · exact Fresh.threadUdpUp hpost h
  · split
    · exact Fresh.threadTimer hpost h
    · split
      · cases data with
        | none => exact h
        | input envelope => exact Fresh.threadInput hpost envelope h
        | udpState up => exact h
      · exact h

end Post

/-- **In the second in which the state was entered nothing makes the stamp wrong.** -/
theorem Fresh.callProcess {chain : EndpointChain (Dev δ)} {loc : Locals} (n : Nat) (ev : UInt8)
    (data : EventData) (t : Timed δ) (h : Fresh t) :
    Fresh (Timed.callProcess chain loc n ev data t) := by
  induction n generalizing ev data t with
  | zero => exact h.keep rfl rfl
  | succ n ih =>
    unfold Timed.callProcess
    split
    · have hthread : Fresh (Timed.thread chain loc (Timed.callProcess chain loc n) ev data
          (t.keep fun s => { s with pstate := .called })) :=
        Fresh.thread ih ev data (h.keep rfl rfl)
      simp only []
      split
      · exact hthread.keep rfl rfl
      · exact hthread.keep rfl rfl
    · exact h

/-! ## Actions that do not enter the thread -/

/-- The machine with another log and another mark for the stack. -/
def Fw.noted (s : Fw δ) (log : List Entry) (overflow : Bool) : Fw δ :=
  { s with log := log, stackOverflow := overflow }

section Refused

variable {chain : EndpointChain (Dev δ)} {loc : Locals}

theorem Alone.noted {s : Fw δ} {transition : Transition} {log : List Entry} {overflow : Bool}
    (h : Alone chain loc s transition) : Alone chain loc (s.noted log overflow) transition := h

theorem TakenAlone.noted {s : Fw δ} {datetime : Bool} {env : Option HxbEnvelope} {n : Nat}
    {log : List Entry} {overflow : Bool} (h : TakenAlone chain loc s datetime env n) :
    TakenAlone chain loc (s.noted log overflow) datetime env n := h

theorem LeavesAtOnce.noted {s : Fw δ} {datetime : Bool} {env : Option HxbEnvelope} {n : Nat}
    {log : List Entry} {overflow : Bool} (h : LeavesAtOnce chain loc s datetime env n) :
    LeavesAtOnce chain loc (s.noted log overflow) datetime env n := h

/-- An event for a process that does not wait is not delivered. -/
def Refuses (post : UInt8 → EventData → Timed δ → Timed δ) : Prop :=
  ∀ ev data t, t.fw.pstate ≠ .running →
    ∃ overflow, post ev data t = t.keep (·.noted t.fw.log overflow)

theorem callProcess_refuses (n : Nat) :
    Refuses (Timed.callProcess chain loc n) := by
  intro ev data t hwait
  cases n with
  | zero => exact ⟨true, rfl⟩
  | succ n => exact ⟨t.fw.stackOverflow, if_neg hwait⟩

variable {post : UInt8 → EventData → Timed δ → Timed δ} (hpost : Refuses post)
include hpost

theorem broadcastValue_refused {eid : UInt32} (hwait : t.fw.pstate ≠ .running) :
    ∃ log overflow, Timed.broadcastValue chain loc post eid t
      = t.keep (·.noted log overflow) := by
  unfold Timed.broadcastValue
  simp only []
  split
  · exact ⟨t.fw.log, t.fw.stackOverflow, rfl⟩
  · obtain ⟨overflow, hrefused⟩ := hpost t.fw.smHandleInputEvent
      (.input ⟨localhost, 0, eid, (chain.endpointRead eid { loc.value with blob := [] }
        ⟨t.fw.dev, t.fw.eeprom, []⟩).2⟩)
      (t.keep (note (.handed ⟨localhost, 0, eid, (chain.endpointRead eid
        { loc.value with blob := [] } ⟨t.fw.dev, t.fw.eeprom, []⟩).2⟩))) hwait
    exact ⟨_, overflow, hrefused⟩

/-- Calls that do not enter the thread start and stop the machine, and no more. -/
theorem foldl_runCall_counted {d : Dev δ} {calls : List SelfCall} (hdev : t.fw.dev = d.dev)
    (heeprom : t.fw.eeprom = d.eeprom) (hno : ¬ Reenters chain loc d t.fw.pstate calls)
    (h : Counted t) : Counted (calls.foldl (Timed.runCall chain loc post) t) := by
  induction calls generalizing t with
  | nil => exact h
  | cons call calls ih =>
    rw [List.foldl_cons]
    cases call with
    | broadcast eid =>
      obtain ⟨hfirst, hrest⟩ := not_or.mp hno
      by_cases hread : (chain.endpointRead eid { loc.value with blob := [] }
          ⟨d.dev, d.eeprom, []⟩).1 = .success
      · obtain ⟨log, overflow, hrefused⟩ := @broadcastValue_refused δ t chain loc post hpost eid
          fun hwait => hfirst ⟨hwait, hread⟩
        have hcall : Timed.runCall chain loc post t (.broadcast eid)
            = t.keep (·.noted log overflow) := hrefused
        rw [hcall]
        exact ih hdev heeprom hrest (h.keep rfl)
      · have hsilent : Timed.runCall chain loc post t (.broadcast eid) = t := by
          rw [← hdev, ← heeprom] at hread
          exact if_pos hread
        rw [hsilent]
        exact ih hdev heeprom hrest h
    | smStop => exact ih hdev heeprom hno (h.keep rfl)
    | smStart =>
      show Counted (calls.foldl (Timed.runCall chain loc post) t.smStart)
      unfold Timed.smStart
      by_cases hnone : t.fw.pstate = .none
      · have hstopped : ¬ smIsRunning t.fw = true := by simp [smIsRunning, hnone]
        have hstart : Firmware.smStart t.fw = { t.fw with
            curState := 0
            smHandleInputEvent := t.fw.lastevent
            lastevent := t.fw.lastevent + 1
            transLength := smGetNumberOfTransitions t.fw.eeprom false
            dtTransLength := smGetNumberOfTransitions t.fw.eeprom true
            pstate := .running } := if_neg hstopped
        have hno' : ¬ Reenters chain loc d (if t.fw.pstate = .none then .running
            else t.fw.pstate) calls := hno
        rw [if_pos hnone] at hno'
        rw [if_neg hstopped]
        apply ih
        · rw [← hdev, Timed.enter, hstart]
        · rw [← heeprom, Timed.enter, hstart]
        · rw [Timed.enter, hstart]
          exact hno'
        · exact h.enter (by rw [hstart])
      · have hrunning : smIsRunning t.fw = true := by simp [smIsRunning, hnone]
        have hno' : ¬ Reenters chain loc d (if t.fw.pstate = .none then .running
            else t.fw.pstate) calls := hno
        rw [if_neg hnone] at hno'
        rw [if_pos hrunning]
        exact ih hdev heeprom hno' h
    | smRestart =>
      have hrestart : Timed.runCall chain loc post t .smRestart
          = (t.keep smStop).enter Firmware.smStart := rfl
      rw [hrestart]
      exact ih hdev heeprom hno ((h.keep rfl).enter rfl)

/-- An action that acts alone leaves its transition's state with the right stamp. -/
theorem fireAction_fresh {transition : Transition} (ha : hasAction transition = true)
    (halone : Alone chain loc t.fw transition) (h : Counted t) :
    Fresh (Timed.fireAction (Timed.writeEndpoint chain loc post) loc.eidEnv transition t) := by
  apply Fresh.fireAction
  exact foldl_runCall_counted hpost rfl rfl (halone ha) (h.keep rfl)

end Refused

/-! ## The loop up to its first transition -/

section Loop

variable {chain : EndpointChain (Dev δ)} {loc : Locals}
  {post : UInt8 → EventData → Timed δ → Timed δ} (hrefuses : Refuses post)
  (hpost : ∀ ev data t, Fresh t → Fresh (post ev data t)) {datetime : Bool}
  {env : Option HxbEnvelope}

theorem checkTable_skip {n i : Nat} (h : ¬ matchesAt t.fw datetime env i) :
    Timed.checkTransitions (Timed.writeEndpoint chain loc post) loc.eidEnv datetime env (n + 1) i t
      = Timed.checkTransitions (Timed.writeEndpoint chain loc post) loc.eidEnv datetime env n
          (i + 1) t :=
  if_neg h

theorem checkTable_none {n i : Nat} (h : ∀ j, i ≤ j → j < i + n → ¬ matchesAt t.fw datetime env j) :
    Timed.checkTransitions (Timed.writeEndpoint chain loc post) loc.eidEnv datetime env n i t
      = t := by
  induction n generalizing i with
  | zero => rfl
  | succ n ih =>
    rw [checkTable_skip (h i (Nat.le_refl i) (by omega))]
    exact ih fun j h1 h2 => h j (by omega) (by omega)

include hrefuses hpost

/-- From the first transition on the stamp is right: that transition sets it, and all that
follows happens in the same second. -/
theorem checkTable_fresh {n i k : Nat} (hik : i ≤ k) (hk : k < i + n)
    (hfirst : ∀ j, i ≤ j → j < k → ¬ matchesAt t.fw datetime env j)
    (hm : matchesAt t.fw datetime env k)
    (hdue : timeout t.fw.eeprom (entry t.fw datetime k) ≤ t.now - t.entered)
    (halone : Alone chain loc t.fw (entry t.fw datetime k)) (h : Counted t) :
    Fresh (Timed.checkTransitions (Timed.writeEndpoint chain loc post) loc.eidEnv datetime env
      n i t) := by
  induction n generalizing i with
  | zero => omega
  | succ n ih =>
    by_cases heq : i = k
    · subst heq
      have htaken : Counted (t.take (entry t.fw datetime i)) := h.take hdue
      by_cases ha : hasAction (entry t.fw datetime i) = true
      · have hloop : Timed.checkTransitions (Timed.writeEndpoint chain loc post) loc.eidEnv
            datetime env (n + 1) i t = Timed.fireAction (Timed.writeEndpoint chain loc post)
              loc.eidEnv (entry t.fw datetime i) (t.take (entry t.fw datetime i)) :=
          (if_pos hm).trans (if_pos ha)
        rw [hloop]
        exact fireAction_fresh hrefuses ha halone htaken
      · have hloop : Timed.checkTransitions (Timed.writeEndpoint chain loc post) loc.eidEnv
            datetime env (n + 1) i t = Timed.checkTransitions
              (Timed.writeEndpoint chain loc post) loc.eidEnv datetime env n (i + 1)
              ((t.take (entry t.fw datetime i)).enter
                (enterState · (entry t.fw datetime i).goodState)) :=
          (if_pos hm).trans (if_neg ha)
        rw [hloop]
        exact Fresh.checkTable hpost _ _ _ _ (Fresh.enterState htaken _)
    · rw [checkTable_skip (hfirst i (Nat.le_refl i) (by omega))]
      exact ih (by omega) (by omega) fun j h1 h2 => hfirst j (by omega) h2

/-- An evaluation with the right stamp. -/
theorem checkTable_stamped {n : Nat} (halone : TakenAlone chain loc t.fw datetime env n)
    (h : Stamped t) :
    Stamped (Timed.checkTransitions (Timed.writeEndpoint chain loc post) loc.eidEnv datetime env
      n 0 t) := by
  cases hmatch : firstMatch t.fw datetime env n with
  | none =>
    have hnone := firstMatch_eq_none.mp hmatch
    rw [checkTable_none fun j _ hj => hnone j (by omega)]
    exact h
  | some k =>
    obtain ⟨hk, hm, hfirst⟩ := firstMatch_eq_some hmatch
    exact (checkTable_fresh hrefuses hpost (Nat.zero_le k) (by omega) (fun j _ hj => hfirst j hj)
      hm (h.timeout_le hm) (halone k hmatch) h.toCounted).toStamped

/-- An evaluation that leaves the state at once needs no stamp. -/
theorem checkTable_leaves {n : Nat} (hleaves : LeavesAtOnce chain loc t.fw datetime env n)
    (h : Counted t) :
    Fresh (Timed.checkTransitions (Timed.writeEndpoint chain loc post) loc.eidEnv datetime env
      n 0 t) := by
  obtain ⟨k, hmatch, hzero, halone⟩ := hleaves
  obtain ⟨hk, hm, hfirst⟩ := firstMatch_eq_some hmatch
  have hdue : timeout t.fw.eeprom (entry t.fw datetime k) ≤ t.now - t.entered := by
    rw [hzero]
    exact Nat.zero_le _
  exact checkTable_fresh hrefuses hpost (Nat.zero_le k) (by omega) (fun j _ hj => hfirst j hj)
    hm hdue halone h

/-! ## One entry of the thread -/

theorem threadInput_stamped {envelope : HxbEnvelope} (h : Stamped t)
    (hevent : if isOwnReset t.fw envelope then
        LeavesAtOnce chain loc (smRestart t.fw) false (some envelope)
          (smRestart t.fw).transLength.toNat
      else TakenAlone chain loc t.fw false (some envelope) t.fw.transLength.toNat) :
    Stamped (Timed.threadInput chain loc post envelope t) := by
  unfold Timed.threadInput
  by_cases hreset : isOwnReset t.fw envelope = true
  · rw [if_pos hreset] at hevent
    rw [if_pos hreset]
    have hrestart : t.smRestart = (t.keep smStop).enter Firmware.smStart := rfl
    have hcounted : Counted t.smRestart := by
      rw [hrestart]
      exact (h.toCounted.keep rfl).enter rfl
    let t' := (t.smRestart.keep (note (.moved 0))).keep
      fun s => note (.evaluated envelope s.curState) s
    have hleaves : LeavesAtOnce chain loc t'.fw false (some envelope) t'.fw.transLength.toNat :=
      hevent.noted
    have hmoved : Counted (t.smRestart.keep (note (.moved 0))) := hcounted.keep rfl
    have hevaluated : Counted t' := hmoved.keep rfl
    exact (checkTable_leaves hrefuses hpost hleaves hevaluated).toStamped.keep rfl rfl
  · rw [if_neg hreset] at hevent
    rw [if_neg hreset]
    let t' := t.keep fun s => note (.evaluated envelope s.curState) s
    have halone : TakenAlone chain loc t'.fw false (some envelope) t'.fw.transLength.toNat :=
      hevent.noted
    exact (checkTable_stamped hrefuses hpost halone (h.keep rfl rfl)).keep rfl rfl

theorem threadTimer_stamped (h : Stamped t)
    (hevent : TakenAlone chain loc (refreshDtValid t.fw) true
      (some (datetimeEnvelope loc.dtenvelope (refreshDtValid t.fw))) t.fw.dtTransLength.toNat) :
    Stamped (Timed.threadTimer chain loc post t) := by
  have hvalid : Stamped (t.keep refreshDtValid) := h.keep rfl rfl
  exact (checkTable_stamped hrefuses hpost hevent hvalid).keep rfl rfl

theorem threadUdpUp_stamped (h : Stamped t) (hcalled : t.fw.pstate = .called)
    (hevent : smIdIsZero t.fw.eeprom = true ∨
      LeavesAtOnce chain loc { t.fw with curState := 0 } false none t.fw.transLength.toNat) :
    Stamped (Timed.threadUdpUp chain loc post t) := by
  unfold Timed.threadUdpUp
  by_cases hid : smIdIsZero t.fw.eeprom = true
  · rw [if_pos hid]
    exact h
  · rw [if_neg hid]
    have hleaves := hevent.resolve_left hid
    have hwait : t.fw.pstate ≠ .running := by
      rw [hcalled]
      exact ProcessState.noConfusion
    obtain ⟨log, overflow, hsent⟩ :=
      @broadcastValue_refused δ t chain loc post hrefuses epSmResetId hwait
    rw [hsent]
    let t' := (t.keep (·.noted log overflow)).enter fun s => { s with curState := 0 }
    have hleaves' : LeavesAtOnce chain loc t'.fw false none t'.fw.transLength.toNat :=
      hleaves.noted
    have hcounted : Counted t' := (h.toCounted.keep rfl).enter rfl
    exact (checkTable_leaves hrefuses hpost hleaves' hcounted).toStamped.keep rfl rfl

theorem thread_stamped {ev : UInt8} {data : EventData} (h : Stamped t)
    (hcalled : t.fw.pstate = .called) (hevent : TimelyEvent chain loc t.fw ev data) :
    Stamped (Timed.thread chain loc post ev data t) := by
  unfold TimelyEvent at hevent
  unfold Timed.thread
  split
  · rename_i hup
    rw [if_pos hup] at hevent
    exact threadUdpUp_stamped hrefuses hpost h hcalled hevent
  · rename_i hup
    rw [if_neg hup] at hevent
    split
    · rename_i htimer
      rw [if_pos htimer] at hevent
      exact threadTimer_stamped hrefuses hpost h hevent
    · rename_i htimer
      rw [if_neg htimer] at hevent
      split
      · rename_i hinput
        rw [if_pos hinput] at hevent
        cases data with
        | none => exact h
        | input envelope => exact threadInput_stamped hrefuses hpost h hevent
        | udpState up => exact h
      · exact h

end Loop

/-! ## The steps -/

section Steps

variable {chain : EndpointChain (Dev δ)} {loc : Locals}

theorem callProcess_stamped {n : Nat} {ev : UInt8} {data : EventData} (h : Stamped t)
    (hcall : TimelyCall chain loc t.fw ev data) :
    Stamped (Timed.callProcess chain loc n ev data t) := by
  cases n with
  | zero => exact h.keep rfl rfl
  | succ n =>
    unfold Timed.callProcess
    split
    · rename_i hrun
      have hthread : Stamped (Timed.thread chain loc (Timed.callProcess chain loc n) ev data
          (t.keep fun s => { s with pstate := .called })) :=
        thread_stamped (callProcess_refuses n) (Fresh.callProcess n) (h.keep rfl rfl) rfl
          (hcall hrun)
      simp only []
      split
      · exact hthread.keep rfl rfl
      · exact hthread.keep rfl rfl
    · exact h

theorem smHandleInput_stamped {n : Nat} {envelope : HxbEnvelope} (h : Stamped t)
    (hcall : TimelyCall chain loc t.fw t.fw.smHandleInputEvent (.input envelope)) :
    Stamped (Timed.smHandleInput (Timed.callProcess chain loc n) envelope t) :=
  callProcess_stamped (h.keep rfl rfl) hcall

theorem clock_eq (now : Nat) (timestamp : UInt32) :
    timestamp = UInt32.ofNat (now + (timestamp - UInt32.ofNat now).toNat) := by
  rw [UInt32.ofNat_add, UInt32.ofNat_toNat, UInt32.add_comm, UInt32.sub_add_cancel]

/-- **The step lemma**: a timely step keeps the stamp of the state right. -/
theorem step_stamped {n : Nat} (t : Timed δ) (a : Step δ) (h : Stamped t)
    (ha : Timely chain loc t.fw a) : Stamped (Timed.step chain loc n a t) := by
  cases a with
  | info envelope =>
    rcases ha with hcurrent | hcall
    · exact (Fresh.smHandleInput (Fresh.callProcess n) envelope ⟨h, hcurrent⟩).toStamped
    · exact smHandleInput_stamped h hcall
  | broadcast eid =>
    rcases ha with hcurrent | hcall
    · exact (Fresh.broadcastValue (Fresh.callProcess n) eid ⟨h, hcurrent⟩).toStamped
    · show Stamped (Timed.broadcastValue chain loc (Timed.callProcess chain loc n) eid t)
      unfold Timed.broadcastValue
      simp only []
      split
      · exact h
      · rename_i hread
        exact smHandleInput_stamped h (hcall (not_not.mp hread))
  | smStop =>
    have hstopped : Stamped (t.keep smStop) := h.keep rfl rfl
    exact hstopped.keep (f := fun s => note (.moved s.curState) s) rfl rfl
  | smStart =>
    have hstarted : Stamped t.smStart := by
      rcases ha with hcurrent | hrunning
      · exact (Fresh.smStart ⟨h, hcurrent⟩).toStamped
      · have hsame : t.smStart = t := if_pos hrunning
        rw [hsame]
        exact h
    exact hstarted.keep (f := fun s => note (.moved s.curState) s) rfl rfl
  | smRestart =>
    rcases ha with hcurrent | hfalse
    · exact (Fresh.smRestart ⟨h, hcurrent⟩).toStamped.keep (f := note (.moved 0)) rfl rfl
    · exact hfalse.elim
  | device dev eeprom =>
    exact h.keep (f := fun s => { s with dev := dev, eeprom := eeprom }) rfl rfl
  | clock timestamp currentDt timeValid =>
    refine ⟨⟨?_, Nat.le_add_right_of_le h.entered_le, h.timeouts⟩, h.stamped⟩
    show timestamp = UInt32.ofNat (t.now + (timestamp - t.fw.timestamp).toNat)
    rw [h.clock]
    exact clock_eq _ _
  | tick =>
    rcases ha with hcurrent | hcall
    · exact (Fresh.callProcess n _ _ t ⟨h, hcurrent⟩).toStamped
    · exact callProcess_stamped h hcall
  | udp up =>
    rcases ha with hcurrent | hcall
    · exact (Fresh.callProcess n _ _ t ⟨h, hcurrent⟩).toStamped
    · exact callProcess_stamped h hcall

end Steps

theorem boot_stamped (s : Fw δ) : Stamped (boot s) :=
  ⟨⟨rfl, Nat.le_refl 0, fun _ h => by cases h⟩, rfl⟩

theorem Stamped.inStateTime (h : Stamped t) : InStateTime t := ⟨h.stamped, h.timeouts⟩

/-- **The time in the state is right**, for every device, from boot on, in every run whose
steps are all timely. -/
theorem run_inStateTime (chain : EndpointChain (Dev δ)) (loc : Locals) (n : Nat) (s : Fw δ)
    (steps : List (Step δ))
    (h : Meets (Timed.step chain loc n) (fun t a => Timely chain loc t.fw a) (boot s) steps) :
    InStateTime (run (Timed.step chain loc n) (boot s) steps) :=
  (run_invariant step_stamped (boot_stamped s) h).inStateTime

/-! ## A machine with a timeout -/

/-- A machine with an id, whose state 0 is left for state 1 after 60 seconds. -/
def timeoutMachine : Fw Unit where
  eeprom :=
    Lib.Store.writeBlock
      (Lib.Store.writeBlock
        (Lib.Store.writeBlock
          (Lib.Store.writeBlock (fun _ => 0) EE.statemachineId [1])
          EE.statemachineConditions
          (Condition.mk (Lib.Bytes.Block.zero 16) 0 hxbSmTimestampOp DataType.timestamp.code
            ((HxbValue.mk 0 (Lib.Bytes.Block.zero 8) []).setU32 60).raw).toBytes)
        EE.statemachineNDtTransitions [1])
      EE.statemachineDatetimeTransitions
      (Transition.mk 0 0 0 1 1 0 (Lib.Bytes.Block.zero 8)).toBytes
  transLength := 0
  dtTransLength := 1
  curState := 0
  inStateSince := 0
  dtValid := false
  smHandleInputEvent := 0x8d
  udpHandlerEvent := 0x8c
  lastevent := 0x8e
  pstate := .running
  timestamp := 0
  currentDt := ⟨0, 0, 0, 0, 0, 0, 0⟩
  timeValid := false
  dev := ()
  stackOverflow := false
  log := []

def timeoutLocals : Locals where
  eidEnv := ⟨Lib.Bytes.Block.zero 16, 0, 0, ⟨0, Lib.Bytes.Block.zero 8, []⟩⟩
  dtenvelope := ⟨Lib.Bytes.Block.zero 16, 0, 0, ⟨0, Lib.Bytes.Block.zero 8, []⟩⟩
  value := ⟨0, Lib.Bytes.Block.zero 8, []⟩

/-- The network comes up at boot, and the timer expires after a minute. -/
def upAtBoot : List (Step Unit) :=
  [.udp true, .clock 60 ⟨0, 0, 0, 0, 0, 0, 0⟩ false, .tick]

/-- The network comes up after 100 seconds, and then the timer expires. -/
def upLate : List (Step Unit) :=
  [.clock 100 ⟨0, 0, 0, 0, 0, 0, 0⟩ false, .udp true, .tick]

/-- The timeout holds after a minute. -/
theorem upAtBoot_inStateTime :
    InStateTime (run (Timed.step [endpointSmReset] timeoutLocals 1) (boot timeoutMachine)
      upAtBoot) := by
  apply run_inStateTime
  refine ⟨.inl rfl, .inr trivial, .inr fun _ => ?_, trivial⟩
  unfold TimelyEvent
  rw [if_neg (by simp [EventData.isUp]), if_pos rfl]
  intro i hmatch haction
  have hfirst : i = 0 := by
    have hlt := (firstMatch_eq_some hmatch).1
    exact Nat.lt_one_iff.mp hlt
  subst hfirst
  exact absurd haction (by decide +kernel)

/-- The timeout of 60 seconds holds in the second in which the state is entered. -/
theorem upLate_not_inStateTime :
    ¬ InStateTime (run (Timed.step [endpointSmReset] timeoutLocals 1) (boot timeoutMachine)
      upLate) := by
  intro h
  have hheld : (60, 0) ∈ (run (Timed.step [endpointSmReset] timeoutLocals 1)
      (boot timeoutMachine) upLate).held := by decide +kernel
  exact absurd (h.timeouts _ hheld) (by decide)

end Hexabus.Firmware
