import Hexabus.Firmware.Process
import Hexabus.Firmware.SingleFiring
import Hexabus.Lib.Runs

/-!
# The order of inputs

What has become of the values handed to the state machine, read off the log of a
run. `Sequential` is the good order: every value is evaluated, once, against the
state the machine is in when all earlier values are done with. The kernel refuses
to enter a thread that is on the stack, so the order is kept exactly as long as no
value is handed over from inside the thread.
-/

namespace Hexabus.Firmware

open Lib.Bytes Lib.Runs

/-- The log of a machine that went from one state to another, taking its inputs one
after the other. -/
inductive Sequential : UInt8 → List Entry → UInt8 → Prop
  | nil {st : UInt8} : Sequential st [] st
  /-- An input is evaluated against the state the machine is in. -/
  | input {st st' last : UInt8} {envelope : HxbEnvelope} {log : List Entry} :
      Sequential st' log last →
      Sequential st (.handed envelope :: .evaluated envelope st :: .finished envelope st' :: log)
        last
  /-- An input that resets the machine first. -/
  | reset {st st' last : UInt8} {envelope : HxbEnvelope} {log : List Entry} :
      Sequential st' log last →
      Sequential st (.handed envelope :: .moved 0 :: .evaluated envelope 0 ::
        .finished envelope st' :: log) last
  /-- The machine changes its state between two inputs. -/
  | moved {st st' last : UInt8} {log : List Entry} :
      Sequential st' log last → Sequential st (.moved st' :: log) last

theorem Sequential.append {a b c : UInt8} {xs ys : List Entry} (hx : Sequential a xs b)
    (hy : Sequential b ys c) : Sequential a (xs ++ ys) c := by
  induction hx with
  | nil => exact hy
  | input _ ih => exact .input (ih hy)
  | reset _ ih => exact .reset (ih hy)
  | moved _ ih => exact .moved (ih hy)

variable {δ : Type} (chain : EndpointChain (Dev δ)) (loc : Locals)

/-! ## When a step hands nothing over from inside the thread -/

/-- The transition with an action that a search of the table gets to, if it gets to
one. -/
def reachedAction (datetime : Bool) (env : Option HxbEnvelope) :
    Nat → Nat → Fw δ → Option Transition
  | 0, _, _ => none
  | n + 1, i, s =>
    let t := smGetTransition s.eeprom datetime (UInt8.ofNat i)
    if matchesTransition s env t then
      if hasAction t then some t
      else reachedAction datetime env n (i + 1) (enterState s t.goodState)
    else reachedAction datetime env n (i + 1) s

/-- Writing the endpoint of a transition hands no value to the state machine: the
handler broadcasts nothing, or nothing that can be read. -/
def QuietWrite (s : Fw δ) (t : Transition) : Prop :=
  let d := (chain.endpointWrite t.eid (actionEnvelope loc.eidEnv t) ⟨s.dev, s.eeprom, []⟩).2
  ∀ eid, SelfCall.broadcast eid ∈ d.calls →
    (chain.endpointRead eid { loc.value with blob := [] } ⟨d.dev, d.eeprom, []⟩).1 ≠ .success

/-- An event is quiet: the action it leads to is. -/
def QuietEvent (s : Fw δ) (datetime : Bool) (env : Option HxbEnvelope) (n i : Nat) : Prop :=
  ∀ t, reachedAction datetime env n i s = some t → QuietWrite chain loc s t

/-- The state in which an input is evaluated. -/
def afterReset (s : Fw δ) (envelope : HxbEnvelope) : Fw δ :=
  if isOwnReset s envelope then smRestart s else s

/-- The periodic timer leads to a quiet action. -/
def QuietTick (s : Fw δ) : Prop :=
  QuietEvent chain loc (refreshDtValid s) true
    (some (datetimeEnvelope loc.dtenvelope (refreshDtValid s))) s.dtTransLength.toNat 0

/-- What the thread does when the network has come up is quiet: nothing, or neither
the broadcast of the Reset-ID nor the action that follows hands a value over. -/
def QuietUp (s : Fw δ) : Prop :=
  smIdIsZero s.eeprom = true ∨
    ((chain.endpointRead epSmResetId { loc.value with blob := [] } ⟨s.dev, s.eeprom, []⟩).1
        ≠ .success ∧
      QuietEvent chain loc { s with curState := 0 } false none s.transLength.toNat 0)

/-- An input finds the machine running, under an event number of its own, and leads
to a quiet action. -/
structure Admitted (s : Fw δ) (envelope : HxbEnvelope) : Prop where
  running : s.pstate = .running
  not_timer : s.smHandleInputEvent ≠ processEventTimer
  not_udp : ¬ (s.smHandleInputEvent = s.udpHandlerEvent ∧ (EventData.input envelope).isUp = true)
  quiet : QuietEvent chain loc (afterReset s envelope) false (some envelope)
    (afterReset s envelope).transLength.toNat 0

/-- The condition on a step. -/
def Undisturbed (s : Fw δ) : Step δ → Prop
  | .info envelope => Admitted chain loc s envelope
  | .broadcast eid =>
    let r := chain.endpointRead eid { loc.value with blob := [] } ⟨s.dev, s.eeprom, []⟩
    r.1 = .success → Admitted chain loc s ⟨localhost, 0, eid, r.2⟩
  | .tick => s.pstate = .running → QuietTick chain loc s
  | .udp up => s.pstate = .running →
      if up then QuietUp chain loc s
      else s.udpHandlerEvent = processEventTimer → QuietTick chain loc s
  | _ => True

/-! ## Quiet actions leave the log alone -/

variable {chain} {loc}

/-- A call that hands nothing over changes neither the device nor the log. -/
theorem runCall_quiet (post : UInt8 → EventData → Fw δ → Fw δ) {s : Fw δ} {call : SelfCall}
    (h : ∀ eid, call = .broadcast eid →
      (chain.endpointRead eid { loc.value with blob := [] } ⟨s.dev, s.eeprom, []⟩).1 ≠ .success) :
    (runCall chain loc post s call).log = s.log ∧ (runCall chain loc post s call).dev = s.dev ∧
      (runCall chain loc post s call).eeprom = s.eeprom := by
  cases call with
  | broadcast eid =>
    have hfail := h eid rfl
    have hnone : runCall chain loc post s (.broadcast eid) = s := if_pos hfail
    rw [hnone]
    exact ⟨rfl, rfl, rfl⟩
  | smStop => exact ⟨rfl, rfl, rfl⟩
  | smStart =>
    show (smStart s).log = s.log ∧ (smStart s).dev = s.dev ∧ (smStart s).eeprom = s.eeprom
    unfold smStart
    split <;> exact ⟨rfl, rfl, rfl⟩
  | smRestart => exact ⟨rfl, rfl, rfl⟩

theorem foldl_runCall_quiet {post : UInt8 → EventData → Fw δ → Fw δ} {calls : List SelfCall}
    {s : Fw δ} (h : ∀ eid, SelfCall.broadcast eid ∈ calls →
      (chain.endpointRead eid { loc.value with blob := [] } ⟨s.dev, s.eeprom, []⟩).1 ≠ .success) :
    (calls.foldl (runCall chain loc post) s).log = s.log := by
  induction calls generalizing s with
  | nil => rfl
  | cons call calls ih =>
    obtain ⟨hlog, hdev, heeprom⟩ := @runCall_quiet δ chain loc post s call
      fun eid heq => h eid (heq ▸ List.mem_cons_self)
    rw [List.foldl_cons, ih, hlog]
    intro eid hmem
    rw [hdev, heeprom]
    exact h eid (List.mem_cons_of_mem _ hmem)

/-- A quiet write is not logged. -/
theorem writeEndpoint_quiet (post : UInt8 → EventData → Fw δ → Fw δ) {s : Fw δ} {t : Transition}
    (h : QuietWrite chain loc s t) :
    (writeEndpoint chain loc post t.eid (actionEnvelope loc.eidEnv t) s).2.log = s.log := by
  exact foldl_runCall_quiet h

theorem reachedAction_skip {datetime : Bool} {env : Option HxbEnvelope} {n i : Nat} {s : Fw δ}
    (h : ¬ matchesAt s datetime env i) :
    reachedAction datetime env (n + 1) i s = reachedAction datetime env n (i + 1) s :=
  if_neg h

theorem reachedAction_action {datetime : Bool} {env : Option HxbEnvelope} {n i : Nat} {s : Fw δ}
    (h : matchesAt s datetime env i) (ha : hasAction (entry s datetime i) = true) :
    reachedAction datetime env (n + 1) i s = some (entry s datetime i) :=
  (if_pos h).trans (if_pos ha)

theorem reachedAction_noAction {datetime : Bool} {env : Option HxbEnvelope} {n i : Nat}
    {s : Fw δ} (h : matchesAt s datetime env i) (ha : ¬ hasAction (entry s datetime i) = true) :
    reachedAction datetime env (n + 1) i s
      = reachedAction datetime env n (i + 1) (enterState s (entry s datetime i).goodState) :=
  (if_pos h).trans (if_neg ha)

theorem fireAction_log {write : UInt32 → HxbEnvelope → Fw δ → ErrorCode × Fw δ}
    {eidEnv : HxbEnvelope} {t : Transition} {s : Fw δ}
    (h : (write t.eid (actionEnvelope eidEnv t) s).2.log = s.log) :
    (fireAction write eidEnv t s).log = s.log := by
  unfold fireAction
  by_cases herr : (write t.eid (actionEnvelope eidEnv t) s).1 = .success
  · exact (congrArg Fw.log (if_pos herr)).trans h
  · exact (congrArg Fw.log (if_neg herr)).trans h

/-- A quiet event is not logged by the loop over the table. -/
theorem checkTransitions_quiet (post : UInt8 → EventData → Fw δ → Fw δ) {datetime : Bool}
    {env : Option HxbEnvelope} {n i : Nat} {s : Fw δ}
    (h : QuietEvent chain loc s datetime env n i) :
    (checkTransitions (writeEndpoint chain loc post) loc.eidEnv datetime env n i s).1.log
      = s.log := by
  induction n generalizing i s with
  | zero => rfl
  | succ n ih =>
    by_cases hm : matchesAt s datetime env i
    · by_cases ha : hasAction (entry s datetime i) = true
      · have hquiet : QuietWrite chain loc s (entry s datetime i) :=
          h _ (reachedAction_action hm ha)
        have hlog := fireAction_log (writeEndpoint_quiet post hquiet)
        rw [checkTransitions_action hm ha]
        exact hlog
      · have hquiet : QuietEvent chain loc (enterState s (entry s datetime i).goodState) datetime
            env n (i + 1) := by
          intro t ht
          exact h t ((reachedAction_noAction hm ha).trans ht)
        have hlog := ih hquiet
        rw [checkTransitions_noAction hm (by simpa using ha)]
        exact hlog
    · have hquiet : QuietEvent chain loc s datetime env n (i + 1) := by
        intro t ht
        exact h t ((reachedAction_skip hm).trans ht)
      rw [checkTransitions_skip hm]
      exact ih hquiet

/-! ## The thread runs with the process marked and the input logged -/

/-- The machine with another entry in the kernel's table and another log. -/
def Fw.marked (s : Fw δ) (p : ProcessState) (log : List Entry) : Fw δ :=
  { s with pstate := p, log := log }

theorem reachedAction_marked {p : ProcessState} {log : List Entry} {datetime : Bool}
    {env : Option HxbEnvelope} {n i : Nat} {s : Fw δ} :
    reachedAction datetime env n i (s.marked p log) = reachedAction datetime env n i s := by
  induction n generalizing i s with
  | zero => rfl
  | succ n ih =>
    by_cases hm : matchesAt s datetime env i
    · have hm' : matchesAt (s.marked p log) datetime env i := hm
      by_cases ha : hasAction (entry s datetime i) = true
      · rw [reachedAction_action hm ha, reachedAction_action hm' ha]
        rfl
      · rw [reachedAction_noAction hm ha, reachedAction_noAction hm' ha]
        exact ih (i := i + 1) (s := enterState s (entry s datetime i).goodState)
    · have hm' : ¬ matchesAt (s.marked p log) datetime env i := hm
      rw [reachedAction_skip hm, reachedAction_skip hm']
      exact ih

theorem QuietEvent.marked {p : ProcessState} {log : List Entry} {datetime : Bool}
    {env : Option HxbEnvelope} {n i : Nat} {s : Fw δ}
    (h : QuietEvent chain loc s datetime env n i) :
    QuietEvent chain loc (s.marked p log) datetime env n i := by
  intro t ht
  rw [reachedAction_marked] at ht
  exact h t ht

/-! ## One step -/

/-- The part of `threadInput` after the reset. -/
def evaluateInput (chain : EndpointChain (Dev δ)) (loc : Locals)
    (post : UInt8 → EventData → Fw δ → Fw δ) (envelope : HxbEnvelope) (s : Fw δ) : Fw δ :=
  let s := note (.evaluated envelope s.curState) s
  let s := (checkValueTransitions (writeEndpoint chain loc post) loc.eidEnv (some envelope) s).1
  note (.finished envelope s.curState) s

/-- A quiet evaluation puts nothing between its own two entries. -/
theorem evaluateInput_log (post : UInt8 → EventData → Fw δ → Fw δ) {s : Fw δ}
    {envelope : HxbEnvelope}
    (h : QuietEvent chain loc s false (some envelope) s.transLength.toNat 0) :
    (evaluateInput chain loc post envelope s).log
      = s.log ++ [.evaluated envelope s.curState,
          .finished envelope (evaluateInput chain loc post envelope s).curState] := by
  have hmarked := @QuietEvent.marked δ chain loc s.pstate
    (s.log ++ [.evaluated envelope s.curState]) false (some envelope) s.transLength.toNat 0 s h
  have hloop := checkTransitions_quiet post hmarked
  have hlog : (evaluateInput chain loc post envelope s).log
      = s.log ++ [.evaluated envelope s.curState]
        ++ [.finished envelope (evaluateInput chain loc post envelope s).curState] :=
    congrArg (· ++ _) hloop
  rw [hlog, List.append_assoc]
  rfl

/-- An input that finds the thread waiting is evaluated in the state the machine is in
or is reset to, and is done with when the thread waits again. -/
theorem threadInput_sequential {post : UInt8 → EventData → Fw δ → Fw δ} {s : Fw δ}
    {envelope : HxbEnvelope} {start : UInt8} {earlier : List Entry}
    (hseq : Sequential start earlier s.curState) (hlog : s.log = earlier ++ [.handed envelope])
    (hquiet : QuietEvent chain loc (afterReset s envelope) false (some envelope)
      (afterReset s envelope).transLength.toNat 0) :
    Sequential start (threadInput chain loc post envelope s).log
      (threadInput chain loc post envelope s).curState := by
  by_cases hreset : isOwnReset s envelope = true
  · have hafter : afterReset s envelope = smRestart s := if_pos hreset
    have hthread : threadInput chain loc post envelope s
        = evaluateInput chain loc post envelope (note (.moved 0) (smRestart s)) :=
      congrArg (evaluateInput chain loc post envelope) (if_pos hreset)
    rw [hafter] at hquiet
    have hstart : (note (.moved 0) (smRestart s)).curState = 0 := rfl
    have hlog' : (note (.moved 0) (smRestart s)).log = s.log ++ [.moved 0] := rfl
    have hrun := evaluateInput_log post
      (@QuietEvent.marked δ chain loc .running (s.log ++ [.moved 0]) _ _ _ _ _ hquiet)
    have hmarked : (smRestart s).marked .running (s.log ++ [.moved 0])
        = note (.moved 0) (smRestart s) := rfl
    rw [hmarked, hstart, hlog', hlog, List.append_assoc, List.append_assoc] at hrun
    rw [hthread, hrun]
    exact hseq.append (.reset .nil)
  · have hafter : afterReset s envelope = s := if_neg hreset
    have hthread : threadInput chain loc post envelope s
        = evaluateInput chain loc post envelope s :=
      congrArg (evaluateInput chain loc post envelope) (if_neg hreset)
    rw [hafter] at hquiet
    rw [hthread, evaluateInput_log post hquiet, hlog, List.append_assoc]
    exact hseq.append (.input .nil)

/-- What holds between two steps: the thread waits, and so far every input has been
taken in its turn. -/
structure InOrder (start : UInt8) (s : Fw δ) : Prop where
  waiting : s.pstate ≠ .called
  sequential : Sequential start s.log s.curState

theorem InOrder.moved {start : UInt8} {s s' : Fw δ} (h : InOrder start s)
    (hwait : s'.pstate ≠ .called) (hlog : s'.log = s.log ++ [.moved s'.curState]) :
    InOrder start s' := by
  refine ⟨hwait, ?_⟩
  rw [hlog]
  exact h.sequential.append (.moved .nil)

/-- The kernel marks the process while its thread runs; afterwards the thread waits
again or has ended. -/
theorem callProcess_inOrder {n : Nat} {ev : UInt8} {data : EventData} {start : UInt8} {s : Fw δ}
    (hrun : s.pstate = .running)
    (h : let r := thread chain loc (callProcess chain loc n) ev data (s.marked .called s.log)
      Sequential start r.log r.curState) :
    InOrder start (callProcess chain loc (n + 1) ev data s) := by
  let r := thread chain loc (callProcess chain loc n) ev data (s.marked .called s.log)
  have henter : callProcess chain loc (n + 1) ev data s =
      if r.pstate = .none ∨ ev = processEventExit then { r with pstate := .none }
      else { r with pstate := .running } := if_pos hrun
  rw [henter]
  by_cases hend : r.pstate = .none ∨ ev = processEventExit
  · rw [if_pos hend]
    exact ⟨ProcessState.noConfusion, h⟩
  · rw [if_neg hend]
    exact ⟨ProcessState.noConfusion, h⟩

/-- The kernel refuses a thread that is not running. -/
theorem callProcess_refused {n : Nat} {ev : UInt8} {data : EventData} {s : Fw δ}
    (h : s.pstate ≠ .running) : callProcess chain loc (n + 1) ev data s = s := if_neg h

/-- An admitted input is taken in its turn. -/
theorem smHandleInput_inOrder {n : Nat} {start : UInt8} {s : Fw δ} {envelope : HxbEnvelope}
    (hs : InOrder start s) (h : Admitted chain loc s envelope) :
    InOrder start (smHandleInput (callProcess chain loc (n + 1)) envelope s) := by
  have hrunning : (note (.handed envelope) s).pstate = .running := h.running
  apply callProcess_inOrder hrunning
  have hthread : ∀ s' : Fw δ, s'.udpHandlerEvent = s.udpHandlerEvent →
      s'.smHandleInputEvent = s.smHandleInputEvent →
      thread chain loc (callProcess chain loc n) s.smHandleInputEvent (.input envelope) s'
        = threadInput chain loc (callProcess chain loc n) envelope s' := by
    intro s' hudp hinput
    unfold thread
    rw [hudp, hinput, if_neg h.not_udp, if_neg h.not_timer, if_pos rfl]
  intro r
  have hr : r = threadInput chain loc (callProcess chain loc n) envelope
      (s.marked .called (s.log ++ [.handed envelope])) := hthread _ rfl rfl
  rw [hr]
  refine threadInput_sequential hs.sequential rfl ?_
  have hafter : afterReset (s.marked .called (s.log ++ [.handed envelope])) envelope
      = (afterReset s envelope).marked
          (if isOwnReset s envelope then .running else .called) (s.log ++ [.handed envelope]) := by
    unfold afterReset
    by_cases hreset : isOwnReset s envelope = true
    · have hreset' : isOwnReset (s.marked .called (s.log ++ [.handed envelope])) envelope = true :=
        hreset
      rw [if_pos hreset, if_pos hreset, if_pos hreset']
      rfl
    · have hreset' : ¬ isOwnReset (s.marked .called (s.log ++ [.handed envelope])) envelope = true :=
        hreset
      rw [if_neg hreset, if_neg hreset, if_neg hreset']
  rw [hafter]
  exact h.quiet.marked

/-- A quiet tick moves the machine. -/
theorem threadTimer_log {post : UInt8 → EventData → Fw δ → Fw δ} {s : Fw δ}
    (h : QuietTick chain loc s) :
    (threadTimer chain loc post s).log
      = s.log ++ [.moved (threadTimer chain loc post s).curState] := by
  have hloop := checkTransitions_quiet post h
  exact congrArg (· ++ _) hloop

theorem QuietTick.marked {p : ProcessState} {log : List Entry} {s : Fw δ}
    (h : QuietTick chain loc s) : QuietTick chain loc (s.marked p log) :=
  QuietEvent.marked h

/-- A network that has come up moves the machine, or is not noticed. -/
theorem threadUdpUp_log (post : UInt8 → EventData → Fw δ → Fw δ) {s : Fw δ}
    (h : QuietUp chain loc s) :
    threadUdpUp chain loc post s = s ∨
      (threadUdpUp chain loc post s).log
        = s.log ++ [.moved (threadUdpUp chain loc post s).curState] := by
  rcases h with hid | ⟨hread, hquiet⟩
  · exact .inl (if_pos hid)
  · by_cases hid : smIdIsZero s.eeprom = true
    · exact .inl (if_pos hid)
    · right
      have hsilent : broadcastValue chain loc post epSmResetId s = s := if_pos hread
      have hloop := checkTransitions_quiet post hquiet
      unfold threadUdpUp
      rw [if_neg hid, hsilent]
      exact congrArg (· ++ _) hloop

/-- A tick that finds the thread waiting. -/
theorem callProcess_timer_inOrder {n : Nat} {start : UInt8} {s : Fw δ} {data : EventData}
    (hs : InOrder start s) (hrun : s.pstate = .running) (hdata : data.isUp = false)
    (h : QuietTick chain loc s) :
    InOrder start (callProcess chain loc (n + 1) processEventTimer data s) := by
  apply callProcess_inOrder hrun
  have hthread : thread chain loc (callProcess chain loc n) processEventTimer data
      (s.marked .called s.log) = threadTimer chain loc (callProcess chain loc n)
        (s.marked .called s.log) := by
    unfold thread
    rw [if_neg (by simp [hdata]), if_pos rfl]
  simp only [hthread]
  rw [threadTimer_log h.marked]
  exact hs.sequential.append (.moved .nil)

/-- A change of the network that finds the thread waiting. -/
theorem callProcess_udp_inOrder {n : Nat} {start : UInt8} {s : Fw δ} {up : Bool}
    (hs : InOrder start s) (hrun : s.pstate = .running)
    (h : if up then QuietUp chain loc s
      else s.udpHandlerEvent = processEventTimer → QuietTick chain loc s) :
    InOrder start (callProcess chain loc (n + 1) s.udpHandlerEvent (.udpState up) s) := by
  cases up with
  | true =>
    rw [if_pos rfl] at h
    apply callProcess_inOrder hrun
    have hthread : thread chain loc (callProcess chain loc n) s.udpHandlerEvent (.udpState true)
        (s.marked .called s.log) = threadUdpUp chain loc (callProcess chain loc n)
          (s.marked .called s.log) := if_pos ⟨rfl, rfl⟩
    have hquiet : QuietUp chain loc (s.marked .called s.log) :=
      h.imp id fun h' => ⟨h'.1, h'.2.marked⟩
    simp only [hthread]
    rcases threadUdpUp_log (callProcess chain loc n) hquiet with hsame | hlog
    · rw [hsame]
      exact hs.sequential
    · rw [hlog]
      exact hs.sequential.append (.moved .nil)
  | false =>
    rw [if_neg Bool.false_ne_true] at h
    by_cases htimer : s.udpHandlerEvent = processEventTimer
    · rw [htimer]
      exact callProcess_timer_inOrder hs hrun rfl (h htimer)
    · apply callProcess_inOrder hrun
      have hthread : thread chain loc (callProcess chain loc n) s.udpHandlerEvent
          (.udpState false) (s.marked .called s.log) = s.marked .called s.log := by
        unfold thread
        rw [if_neg (by simp [EventData.isUp]), if_neg htimer]
        split <;> rfl
      simp only [hthread]
      exact hs.sequential

theorem smStart_log (s : Fw δ) : (smStart s).log = s.log := by
  unfold smStart
  split <;> rfl

/-- **The step lemma**: an undisturbed step takes its input in its turn. -/
theorem step_inOrder {n : Nat} {start : UInt8} (s : Fw δ) (a : Step δ) (hs : InOrder start s)
    (h : Undisturbed chain loc s a) : InOrder start (step chain loc (n + 1) a s) := by
  cases a with
  | info envelope => exact smHandleInput_inOrder hs h
  | broadcast eid =>
    by_cases hread : (chain.endpointRead eid { loc.value with blob := [] }
        ⟨s.dev, s.eeprom, []⟩).1 = .success
    · have hbroadcast : step chain loc (n + 1) (.broadcast eid) s
          = broadcastToSelf (callProcess chain loc (n + 1)) (chain.endpointRead eid
            { loc.value with blob := [] } ⟨s.dev, s.eeprom, []⟩).2 eid s :=
        if_neg (not_not.mpr hread)
      rw [hbroadcast]
      exact smHandleInput_inOrder hs (h hread)
    · have hsilent : step chain loc (n + 1) (.broadcast eid) s = s := if_pos hread
      rw [hsilent]
      exact hs
  | smStop => exact hs.moved ProcessState.noConfusion rfl
  | smStart =>
    apply hs.moved
    · show (smStart s).pstate ≠ .called
      unfold smStart
      by_cases hrun : smIsRunning s = true
      · rw [if_pos hrun]
        exact hs.waiting
      · rw [if_neg hrun]
        exact ProcessState.noConfusion
    · exact congrArg (· ++ _) (smStart_log s)
  | smRestart => exact hs.moved ProcessState.noConfusion rfl
  | device dev eeprom => exact ⟨hs.waiting, hs.sequential⟩
  | clock timestamp currentDt timeValid => exact ⟨hs.waiting, hs.sequential⟩
  | tick =>
    by_cases hrun : s.pstate = .running
    · exact callProcess_timer_inOrder hs hrun rfl (h hrun)
    · have hrefused : step chain loc (n + 1) .tick s = s := callProcess_refused hrun
      rw [hrefused]
      exact hs
  | udp up =>
    by_cases hrun : s.pstate = .running
    · exact callProcess_udp_inOrder hs hrun (h hrun)
    · have hrefused : step chain loc (n + 1) (.udp up) s = s := callProcess_refused hrun
      rw [hrefused]
      exact hs

/-- **Inputs are taken in order**, for every device, in every run whose steps are all
undisturbed, with stack for at least one entry of the thread: every value handed over
so far has been evaluated in the state that the earlier ones have left. -/
theorem run_inOrder (chain : EndpointChain (Dev δ)) (loc : Locals) (n : Nat) (s : Fw δ)
    (steps : List (Step δ)) (hwait : s.pstate ≠ .called) (hlog : s.log = [])
    (h : Meets (step chain loc (n + 1)) (Undisturbed chain loc) s steps) :
    Sequential s.curState (run (step chain loc (n + 1)) s steps).log
      (run (step chain loc (n + 1)) s steps).curState := by
  have hstart : InOrder s.curState s := ⟨hwait, hlog ▸ .nil⟩
  exact (run_invariant (fun s a => step_inOrder s a) hstart h).sequential

end Hexabus.Firmware
