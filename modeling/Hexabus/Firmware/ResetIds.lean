import Hexabus.Firmware.EventNumbers

/-!
# Reset-IDs at one device

What a step of the firmware broadcasts, and whether a Reset-ID restarts the machine in it, read
off the log. A broadcast is handed to the device's own machine, so what the log has handed over
without a packet has been broadcast. Inside the thread values are handed over again and again;
none of them is a Reset-ID, and none restarts the machine.
-/

namespace Hexabus.Firmware

open Lib.Bytes

variable {δ : Type}

/-! ## The Reset-ID endpoint -/

/-- `endpoint_sm_reset`. -/
def endpointSmReset : EndpointDescriptor (Dev δ) where
  datatype := DataType.bytes16.code
  eid := epSmResetId
  name := "Statemachine emergency-reset endpoint.".toUTF8.toList
  read value d := (.success, { value with blob := (smGetId d.eeprom).val })
  write := none

/-- A device's endpoints: the Reset-ID endpoint is one of them, and no write handler broadcasts
it. -/
structure SocketEndpoints (δ : Type) where
  chain : EndpointChain (Dev δ)
  resetId : chain.findDescriptor epSmResetId = some endpointSmReset
  silent : ∀ eid envelope dev eeprom, SelfCall.broadcast epSmResetId ∉
    (chain.endpointWrite eid envelope ⟨dev, eeprom, []⟩).2.calls

/-! ## Distinct event numbers -/

/-- The kernel's event numbers, that of the UDP handler and that of the state machine are
distinct. -/
def EventsDistinct (s : Fw δ) : Prop :=
  (processEvents ++ [s.udpHandlerEvent, s.smHandleInputEvent]).Nodup

instance (s : Fw δ) : Decidable (EventsDistinct s) :=
  inferInstanceAs (Decidable (List.Nodup _))

section Kernel

variable (chain : EndpointChain (Dev δ)) (loc : Locals)

/-- `call_process` on a kernel that does not enter the thread while two event numbers are the
same. -/
def callDistinct : Nat → UInt8 → EventData → Fw δ → Fw δ
  | 0, _, _, s => { s with stackOverflow := true }
  | n + 1, ev, data, s =>
    if s.pstate = .running ∧ EventsDistinct s then
      let s := thread chain loc (callDistinct n) ev data { s with pstate := .called }
      if s.pstate = .none ∨ ev = processEventExit then { s with pstate := .none }
      else { s with pstate := .running }
    else s

/-- One step on that kernel. -/
def stepDistinct (n : Nat) : Step δ → Fw δ → Fw δ
  | .info envelope, s => smHandleInput (callDistinct chain loc n) envelope s
  | .broadcast eid, s => broadcastValue chain loc (callDistinct chain loc n) eid s
  | .tick, s => callDistinct chain loc n processEventTimer .none s
  | .udp up, s => callDistinct chain loc n s.udpHandlerEvent (.udpState up) s
  | a, s => step chain loc n a s

/-- The event numbers are distinct when the step begins and whenever the thread is entered in
it, so that the step is the same on both kernels. -/
structure DistinctAlong (n : Nat) (a : Step δ) (s : Fw δ) : Prop where
  now : EventsDistinct s
  along : step chain loc n a s = stepDistinct chain loc n a s

end Kernel

/-! ## What the log tells -/

/-- What a step has added to the log. -/
def added (s s' : Fw δ) : List Entry := s'.log.drop s.log.length

def Entry.handed? : Entry → Option HxbEnvelope
  | .handed envelope => some envelope
  | _ => none

/-- The values that are broadcast in a step: those handed over, but for the value of a packet
that is received. -/
def broadcasts (a : Step δ) (s s' : Fw δ) : List HxbEnvelope :=
  let handed := (added s s').filterMap Entry.handed?
  match a with
  | .info _ => handed.tail
  | _ => handed

/-- The value of the Reset-ID endpoint. -/
def isResetId (envelope : HxbEnvelope) : Bool := envelope.eid == epSmResetId

/-- The Reset-ID of a device, as it is handed to its own machine. -/
def resetIdEnvelope (loc : Locals) (s : Fw δ) : HxbEnvelope :=
  ⟨localhost, 0, epSmResetId, { loc.value with
    datatype := DataType.bytes16.code, blob := (smGetId s.eeprom).val }⟩

/-- How often an input restarts the machine: it comes into its first state right before the
input is evaluated. -/
def restarts : List Entry → Nat
  | .moved _ :: .evaluated _ _ :: log => restarts log + 1
  | _ :: log => restarts log
  | [] => 0

/-- The step is a network that has come up, and the running machine has an id. -/
def announces (s : Fw δ) : Step δ → Bool
  | .udp up => up && smIsRunning s && !smIdIsZero s.eeprom
  | _ => false

/-- The step is the Reset-ID of the running machine's own id, from another device. -/
def obeys (s : Fw δ) : Step δ → Bool
  | .info envelope => smIsRunning s && isOwnReset s envelope
  | _ => false

/-! ## What happens inside the thread -/

/-- No Reset-ID is handed over, and the machine is not restarted by an input. -/
def Entry.Quiet : Entry → Prop
  | .handed envelope => envelope.eid ≠ epSmResetId
  | .moved _ => False
  | .evaluated _ _ | .finished _ _ => True

/-- From `s` to `s'` the log grows by quiet entries only. -/
def Quietly (s s' : Fw δ) : Prop :=
  ∃ more, s'.log = s.log ++ more ∧ ∀ entry ∈ more, entry.Quiet

namespace Quietly

theorem of_eq {s s' : Fw δ} (h : s'.log = s.log) : Quietly s s' :=
  ⟨[], by rw [h, List.append_nil], fun _ h => absurd h List.not_mem_nil⟩

theorem refl (s : Fw δ) : Quietly s s := of_eq rfl

theorem trans {s s' s'' : Fw δ} (h : Quietly s s') (h' : Quietly s' s'') : Quietly s s'' := by
  obtain ⟨more, hmore, hquiet⟩ := h
  obtain ⟨more', hmore', hquiet'⟩ := h'
  refine ⟨more ++ more', by rw [hmore', hmore, List.append_assoc], fun entry hentry => ?_⟩
  exact (List.mem_append.mp hentry).elim (hquiet entry) (hquiet' entry)

theorem note (entry : Entry) (h : entry.Quiet) (s : Fw δ) : Quietly s (note entry s) :=
  ⟨[entry], rfl, fun _ hmem => List.mem_singleton.mp hmem ▸ h⟩

theorem smStart (s : Fw δ) : Quietly s (smStart s) := of_eq (smStart_log s)

variable {socket : SocketEndpoints δ} {loc : Locals} {post : UInt8 → EventData → Fw δ → Fw δ}

section Calls

-- a value of the device's own that is no Reset-ID is taken quietly
variable (hpost : ∀ (envelope : HxbEnvelope) (s : Fw δ), envelope.src_ip = localhost →
  envelope.eid ≠ epSmResetId → Quietly s (post s.smHandleInputEvent (.input envelope) s))

include hpost

theorem broadcastValue {eid : UInt32} (heid : eid ≠ epSmResetId) (s : Fw δ) :
    Quietly s (broadcastValue socket.chain loc post eid s) := by
  unfold Firmware.broadcastValue
  simp only
  split
  · exact refl s
  · exact (note (.handed ⟨localhost, 0, eid, _⟩) heid s).trans (hpost _ _ rfl heid)

theorem runCall {call : SelfCall} (hcall : call ≠ .broadcast epSmResetId) (s : Fw δ) :
    Quietly s (runCall socket.chain loc post s call) := by
  cases call with
  | broadcast eid => exact broadcastValue hpost (fun heid => hcall (heid ▸ rfl)) s
  | smStop => exact of_eq rfl
  | smStart => exact smStart s
  | smRestart => exact of_eq (smStart_log (smStop s))

theorem foldl_runCall {calls : List SelfCall} (h : SelfCall.broadcast epSmResetId ∉ calls)
    (s : Fw δ) : Quietly s (calls.foldl (Firmware.runCall socket.chain loc post) s) := by
  induction calls generalizing s with
  | nil => exact refl s
  | cons call calls ih =>
    rw [List.mem_cons, not_or] at h
    exact (runCall hpost (fun heq => h.1 heq.symm) s).trans (ih h.2 _)

theorem fireAction (eidEnv : HxbEnvelope) (t : Transition) (s : Fw δ) :
    Quietly s (fireAction (writeEndpoint socket.chain loc post) eidEnv t s) := by
  have hwrite : Quietly s
      (writeEndpoint socket.chain loc post t.eid (actionEnvelope eidEnv t) s).2 :=
    (of_eq rfl).trans (foldl_runCall hpost (socket.silent _ _ s.dev s.eeprom) _)
  unfold Firmware.fireAction
  simp only
  split <;> exact hwrite.trans (of_eq rfl)

theorem checkTransitions (eidEnv : HxbEnvelope) (datetime : Bool) (env : Option HxbEnvelope)
    (n i : Nat) (s : Fw δ) : Quietly s
      (checkTransitions (writeEndpoint socket.chain loc post) eidEnv datetime env n i s).1 := by
  induction n generalizing i s with
  | zero => exact refl s
  | succ n ih =>
    unfold Firmware.checkTransitions
    simp only
    split
    · split
      · exact fireAction hpost eidEnv _ s
      · exact (of_eq rfl).trans (ih _ _)
    · exact ih _ _

theorem evaluateInput (envelope : HxbEnvelope) (s : Fw δ) :
    Quietly s (evaluateInput socket.chain loc post envelope s) :=
  (note (.evaluated envelope s.curState) trivial s).trans
    ((checkTransitions hpost _ _ _ _ _ _).trans (note (.finished envelope _) trivial _))

theorem threadInput {envelope : HxbEnvelope} {s : Fw δ} (h : isOwnReset s envelope = false) :
    Quietly s (threadInput socket.chain loc post envelope s) := by
  have hthread : Firmware.threadInput socket.chain loc post envelope s
      = Firmware.evaluateInput socket.chain loc post envelope s :=
    congrArg (Firmware.evaluateInput socket.chain loc post envelope) (if_neg (by simp [h]))
  rw [hthread]
  exact evaluateInput hpost envelope s

end Calls

/-- A value of the device's own is never its Reset-ID. -/
theorem isOwnReset_of_localhost {envelope : HxbEnvelope} (h : envelope.src_ip = localhost)
    (s : Fw δ) : isOwnReset s envelope = false := by
  simp [isOwnReset, h]

end Quietly

/-! ## Entering the thread -/

theorem EventsDistinct.ne {s : Fw δ} (h : EventsDistinct s) :
    s.smHandleInputEvent ≠ s.udpHandlerEvent ∧ s.smHandleInputEvent ≠ processEventTimer ∧
      s.udpHandlerEvent ≠ processEventTimer := by
  obtain ⟨-, hpair, hdisjoint⟩ := List.nodup_append.mp h
  have htimer : processEventTimer ∈ processEvents := by decide
  refine ⟨fun heq => ?_, fun heq => ?_, fun heq => ?_⟩
  · rw [heq] at hpair
    simp at hpair
  · exact hdisjoint _ htimer _ (by simp) heq.symm
  · exact hdisjoint _ htimer _ (by simp) heq.symm

theorem EventsDistinct.ne_exit {s : Fw δ} (h : EventsDistinct s) :
    s.smHandleInputEvent ≠ processEventExit ∧ s.udpHandlerEvent ≠ processEventExit := by
  obtain ⟨-, -, hdisjoint⟩ := List.nodup_append.mp h
  have hexit : processEventExit ∈ processEvents := by decide
  constructor
  · exact fun heq => hdisjoint _ hexit _ (by simp) heq.symm
  · exact fun heq => hdisjoint _ hexit _ (by simp) heq.symm

variable {socket : SocketEndpoints δ} {loc : Locals} {post : UInt8 → EventData → Fw δ → Fw δ}

theorem thread_input {s : Fw δ} (h : EventsDistinct s) (envelope : HxbEnvelope) (s' : Fw δ)
    (hs : s'.udpHandlerEvent = s.udpHandlerEvent)
    (hs' : s'.smHandleInputEvent = s.smHandleInputEvent) :
    thread socket.chain loc post s.smHandleInputEvent (.input envelope) s'
      = threadInput socket.chain loc post envelope s' := by
  obtain ⟨hudp, htimer, -⟩ := h.ne
  unfold thread
  rw [hs, hs', if_neg (fun hcond => hudp hcond.1), if_neg htimer, if_pos rfl]

/-- The thread waits again, unless the machine has been stopped in it. -/
def settle (s : Fw δ) : Fw δ := { s with pstate := if s.pstate = .none then .none else .running }

/-- `call_process` with an event that does not end the thread. -/
theorem callProcess_settle {n : Nat} {ev : UInt8} {data : EventData} {s : Fw δ}
    (hrun : s.pstate = .running) (hev : ev ≠ processEventExit) :
    callProcess socket.chain loc (n + 1) ev data s =
      settle (thread socket.chain loc (callProcess socket.chain loc n) ev data
        { s with pstate := .called }) := by
  rw [callProcess, if_pos hrun]
  simp only [settle, hev, or_false]
  split <;> rfl

/-- A machine that is running takes a packet, and is restarted before by its own Reset-ID. -/
theorem step_info {n : Nat} {s : Fw δ} (hrun : s.pstate = .running) (h : EventsDistinct s)
    (envelope : HxbEnvelope) : step socket.chain loc (n + 1) (.info envelope) s =
      settle (threadInput socket.chain loc (callProcess socket.chain loc n) envelope
        { note (.handed envelope) s with pstate := .called }) := by
  rw [← @thread_input _ socket loc (callProcess socket.chain loc n) s h envelope
    { note (.handed envelope) s with pstate := .called } rfl rfl]
  exact @callProcess_settle _ socket loc n s.smHandleInputEvent (.input envelope)
    (note (.handed envelope) s) hrun h.ne_exit.1

/-- The same for a network that has come up. -/
theorem step_udpUp {n : Nat} {s : Fw δ} (hrun : s.pstate = .running) (h : EventsDistinct s) :
    step socket.chain loc (n + 1) (.udp true) s =
      settle (threadUdpUp socket.chain loc (callProcess socket.chain loc n)
        { s with pstate := .called }) := by
  have hthread : thread socket.chain loc (callProcess socket.chain loc n) s.udpHandlerEvent
      (.udpState true) { s with pstate := .called } =
        threadUdpUp socket.chain loc (callProcess socket.chain loc n)
          { s with pstate := .called } := if_pos ⟨rfl, rfl⟩
  rw [← hthread]
  exact @callProcess_settle _ socket loc n s.udpHandlerEvent (.udpState true) s hrun
    h.ne_exit.2

/-- A packet whose evaluation calls no process is a step along distinct event numbers. -/
theorem distinctAlong_info {n : Nat} {s : Fw δ} {envelope : HxbEnvelope}
    (hrun : s.pstate = .running) (h : EventsDistinct s)
    (hpost : ∀ post post', threadInput socket.chain loc post envelope
        { note (.handed envelope) s with pstate := .called } =
      threadInput socket.chain loc post' envelope
        { note (.handed envelope) s with pstate := .called }) :
    DistinctAlong socket.chain loc (n + 1) (.info envelope) s := by
  have hthread := @thread_input _ socket loc (callDistinct socket.chain loc n) s h envelope
    { note (.handed envelope) s with pstate := .called } rfl rfl
  have hcall : stepDistinct socket.chain loc (n + 1) (.info envelope) s =
      settle (threadInput socket.chain loc (callDistinct socket.chain loc n) envelope
        { note (.handed envelope) s with pstate := .called }) := by
    show callDistinct socket.chain loc (n + 1) s.smHandleInputEvent (.input envelope)
      (note (.handed envelope) s) = _
    rw [callDistinct, if_pos ⟨hrun, h⟩, ← hthread]
    simp only [settle, h.ne_exit.1, or_false]
    split <;> rfl
  exact ⟨h, by rw [step_info hrun h, hcall, hpost]⟩

/-- The thread is entered: what it adds to the log stays, and it waits afterwards. -/
theorem callDistinct_entered {n : Nat} {ev : UInt8} {data : EventData} {s : Fw δ}
    (hrun : s.pstate = .running) (h : EventsDistinct s) :
    (callDistinct socket.chain loc (n + 1) ev data s).log =
        (thread socket.chain loc (callDistinct socket.chain loc n) ev data
          { s with pstate := .called }).log ∧
      (callDistinct socket.chain loc (n + 1) ev data s).pstate ≠ .called := by
  unfold callDistinct
  rw [if_pos ⟨hrun, h⟩]
  simp only
  split
  · exact ⟨rfl, ProcessState.noConfusion⟩
  · exact ⟨rfl, ProcessState.noConfusion⟩

theorem callDistinct_refused {n : Nat} {ev : UInt8} {data : EventData} {s : Fw δ}
    (h : s.pstate ≠ .running) :
    (callDistinct socket.chain loc n ev data s).log = s.log ∧
      (callDistinct socket.chain loc n ev data s).pstate = s.pstate := by
  cases n with
  | zero => exact ⟨rfl, rfl⟩
  | succ n =>
    unfold callDistinct
    rw [if_neg (fun hcond => h hcond.1)]
    exact ⟨rfl, rfl⟩

/-- **Values of the device's own** are taken quietly, however deep the calls are nested. -/
theorem callDistinct_quietly (n : Nat) {envelope : HxbEnvelope} {s : Fw δ}
    (hsrc : envelope.src_ip = localhost) (heid : envelope.eid ≠ epSmResetId) :
    Quietly s (callDistinct socket.chain loc n s.smHandleInputEvent (.input envelope) s) := by
  induction n generalizing envelope s with
  | zero => exact Quietly.of_eq rfl
  | succ n ih =>
    by_cases hrun : s.pstate = .running
    · by_cases hdistinct : EventsDistinct s
      · have hthread : Quietly s (threadInput socket.chain loc (callDistinct socket.chain loc n)
            envelope { s with pstate := .called }) :=
          (Quietly.of_eq rfl).trans (Quietly.threadInput (fun _ _ hsrc heid => ih hsrc heid)
            (Quietly.isOwnReset_of_localhost hsrc _))
        obtain ⟨more, hmore, hquiet⟩ := hthread
        have hentered := @thread_input _ socket loc (callDistinct socket.chain loc n) s
          hdistinct envelope { s with pstate := .called } rfl rfl
        refine ⟨more, ?_, hquiet⟩
        rw [(callDistinct_entered hrun hdistinct).1, hentered, hmore]
      · -- the kernel refuses
        refine Quietly.of_eq ?_
        unfold callDistinct
        rw [if_neg (fun hcond => hdistinct hcond.2)]
    · exact Quietly.of_eq (callDistinct_refused hrun).1

theorem callDistinct_waiting {n : Nat} {ev : UInt8} {data : EventData} {s : Fw δ}
    (h : s.pstate ≠ .called) : (callDistinct socket.chain loc n ev data s).pstate ≠ .called := by
  cases n with
  | zero => exact h
  | succ n =>
    by_cases hrun : s.pstate = .running
    · by_cases hdistinct : EventsDistinct s
      · exact (callDistinct_entered hrun hdistinct).2
      · unfold callDistinct
        rw [if_neg (fun hcond => hdistinct hcond.2)]
        exact h
    · rw [(callDistinct_refused hrun).2]
      exact h

/-! ## What a step adds to the log -/

theorem added_eq {s s' : Fw δ} {more : List Entry} (h : s'.log = s.log ++ more) :
    added s s' = more := by
  rw [added, h, List.drop_left]

section Counting

variable {more : List Entry} (h : ∀ entry ∈ more, entry.Quiet)

include h

theorem restarts_quiet : restarts more = 0 := by
  induction more with
  | nil => rfl
  | cons entry more ih =>
    have hrest := ih fun entry hentry => h entry (List.mem_cons_of_mem _ hentry)
    have hquiet := h entry List.mem_cons_self
    cases entry with
    | moved state => exact False.elim hquiet
    | handed envelope => exact hrest
    | evaluated envelope state => exact hrest
    | finished envelope state => exact hrest

/-- The machine coming into a state at last is no restart. -/
theorem restarts_quiet_moved (state : UInt8) : restarts (more ++ [.moved state]) = 0 := by
  induction more with
  | nil => rfl
  | cons entry more ih =>
    have hrest := ih fun entry hentry => h entry (List.mem_cons_of_mem _ hentry)
    have hquiet := h entry List.mem_cons_self
    cases entry with
    | moved state => exact False.elim hquiet
    | handed envelope => exact hrest
    | evaluated envelope state => exact hrest
    | finished envelope state => exact hrest

theorem filter_quiet : (more.filterMap Entry.handed?).filter isResetId = [] := by
  rw [List.filter_eq_nil_iff]
  intro envelope henvelope
  obtain ⟨entry, hentry, hhanded⟩ := List.mem_filterMap.mp henvelope
  have hquiet := h entry hentry
  cases entry with
  | handed envelope' =>
    cases hhanded
    have hne : envelope.eid ≠ epSmResetId := hquiet
    simpa [isResetId] using hne
  | evaluated envelope' state => cases hhanded
  | finished envelope' state => cases hhanded
  | moved state => cases hhanded

end Counting

/-- The evaluation of an input is logged first, and before it a restart. -/
theorem threadInput_log
    (hpost : ∀ (envelope : HxbEnvelope) (s : Fw δ), envelope.src_ip = localhost →
      envelope.eid ≠ epSmResetId → Quietly s (post s.smHandleInputEvent (.input envelope) s))
    (envelope : HxbEnvelope) (s : Fw δ) :
    ∃ state more, (threadInput socket.chain loc post envelope s).log =
      s.log ++ ((if isOwnReset s envelope then [.moved 0] else []) ++
        .evaluated envelope state :: more) ∧ ∀ entry ∈ more, entry.Quiet := by
  have hrest : ∀ s' : Fw δ, ∃ more, (evaluateInput socket.chain loc post envelope s').log =
      s'.log ++ .evaluated envelope s'.curState :: more ∧ ∀ entry ∈ more, entry.Quiet := by
    intro s'
    let s₁ := note (.evaluated envelope s'.curState) s'
    let s₂ := (checkValueTransitions (writeEndpoint socket.chain loc post) loc.eidEnv
      (some envelope) s₁).1
    have hquietly : Quietly s₁ (note (.finished envelope s₂.curState) s₂) :=
      (Quietly.checkTransitions hpost _ _ _ _ _ _).trans
        (Quietly.note (.finished envelope s₂.curState) trivial _)
    obtain ⟨more, hmore, hquiet⟩ := hquietly
    refine ⟨more, hmore.trans ?_, hquiet⟩
    show s'.log ++ [_] ++ more = _
    rw [List.append_assoc]
    rfl
  cases hreset : isOwnReset s envelope with
  | true =>
    have hthread : threadInput socket.chain loc post envelope s
        = evaluateInput socket.chain loc post envelope (note (.moved 0) (smRestart s)) :=
      congrArg (evaluateInput socket.chain loc post envelope) (if_pos hreset)
    obtain ⟨more, hmore, hquiet⟩ := hrest (note (.moved 0) (smRestart s))
    refine ⟨(note (.moved 0) (smRestart s)).curState, more, ?_, hquiet⟩
    rw [hthread, hmore, if_pos rfl]
    show s.log ++ [.moved 0] ++ _ = _
    rw [List.append_assoc]
  | false =>
    have hthread : threadInput socket.chain loc post envelope s
        = evaluateInput socket.chain loc post envelope s :=
      congrArg (evaluateInput socket.chain loc post envelope) (if_neg (by simp [hreset]))
    obtain ⟨more, hmore, hquiet⟩ := hrest s
    exact ⟨s.curState, more, by rw [hthread, hmore]; rfl, hquiet⟩

/-- What a step does to the log, and to the entry in the kernel's table. -/
structure Accounted (loc : Locals) (a : Step δ) (s s' : Fw δ) : Prop where
  waiting : s'.pstate ≠ .called
  resetIds : (broadcasts a s s').filter isResetId =
    if announces s a then [resetIdEnvelope loc s] else []
  restarts : restarts (added s s') = if obeys s a then 1 else 0

theorem smIsRunning_eq {s : Fw δ} (hwait : s.pstate ≠ .called) :
    smIsRunning s = decide (s.pstate = .running) := by
  unfold smIsRunning
  cases h : s.pstate with
  | none => rfl
  | running => rfl
  | called => exact absurd h hwait

/-- What a packet has added when the machine is running. -/
theorem accounted_info_of_added {s s' : Fw δ} {envelope : HxbEnvelope} {state : UInt8}
    {more : List Entry} (hwait : s'.pstate ≠ .called) (hquiet : ∀ entry ∈ more, entry.Quiet)
    (hadded : added s s' = .handed envelope ::
      ((if obeys s (.info envelope) then [.moved 0] else []) ++
        .evaluated envelope state :: more)) : Accounted loc (.info envelope) s s' := by
  have hannounces : announces s (.info envelope) = false := rfl
  have hbroadcasts : broadcasts (.info envelope) s s' = more.filterMap Entry.handed? := by
    unfold broadcasts
    rw [hadded]
    cases obeys s (.info envelope) <;> rfl
  refine ⟨hwait, ?_, ?_⟩
  · rw [hbroadcasts, hannounces, if_neg Bool.false_ne_true, filter_quiet hquiet]
  · rw [hadded]
    cases obeys s (.info envelope) with
    | true =>
      show restarts more + 1 = 1
      rw [restarts_quiet hquiet]
    | false =>
      show restarts more = 0
      rw [restarts_quiet hquiet]

/-- A packet. -/
theorem accounted_info {n : Nat} {s : Fw δ} (envelope : HxbEnvelope) (hwait : s.pstate ≠ .called)
    (hdistinct : EventsDistinct s) : Accounted loc (.info envelope) s
      (smHandleInput (callDistinct socket.chain loc (n + 1)) envelope s) := by
  let s₁ := note (.handed envelope) s
  have hwait₁ : (smHandleInput (callDistinct socket.chain loc (n + 1)) envelope s).pstate
      ≠ .called := @callDistinct_waiting _ socket loc _ _ _ s₁ hwait
  have hrunning := smIsRunning_eq hwait
  by_cases hrun : s.pstate = .running
  · obtain ⟨state, more, hmore, hquiet⟩ := threadInput_log
      (fun _ _ hsrc heid => @callDistinct_quietly _ socket loc n _ _ hsrc heid) envelope
        { s₁ with pstate := .called }
    have hadded : added s (smHandleInput (callDistinct socket.chain loc (n + 1)) envelope s) =
        .handed envelope :: ((if isOwnReset s envelope then [.moved 0] else []) ++
          .evaluated envelope state :: more) := by
      have hentered := @callDistinct_entered _ socket loc n s₁.smHandleInputEvent
        (.input envelope) s₁ hrun hdistinct
      rw [@thread_input _ socket loc (callDistinct socket.chain loc n) s₁ hdistinct envelope
        { s₁ with pstate := .called } rfl rfl, hmore] at hentered
      refine added_eq (hentered.1.trans ?_)
      show s.log ++ [.handed envelope] ++ _ = _
      rw [List.append_assoc, List.singleton_append]
      rfl
    have hobeys : obeys s (.info envelope) = isOwnReset s envelope := by
      simp [obeys, hrunning, hrun]
    rw [← hobeys] at hadded
    exact accounted_info_of_added hwait₁ hquiet hadded
  · -- the machine is not running
    have hadded : added s (smHandleInput (callDistinct socket.chain loc (n + 1)) envelope s) =
        [.handed envelope] :=
      added_eq (@callDistinct_refused _ socket loc (n + 1) s.smHandleInputEvent (.input envelope)
        s₁ hrun).1
    have hobeys : obeys s (.info envelope) = false := by simp [obeys, hrunning, hrun]
    refine ⟨hwait₁, ?_, ?_⟩
    · unfold broadcasts
      rw [hadded]
      rfl
    · rw [hadded, hobeys]
      rfl

/-- Nothing but quiet entries, and at last perhaps a state. -/
theorem accounted_of_quiet {a : Step δ} {s s' : Fw δ} {more : List Entry}
    (hwait : s'.pstate ≠ .called) (hinfo : ∀ envelope, a ≠ .info envelope)
    (hannounces : announces s a = false) (hquiet : ∀ entry ∈ more, entry.Quiet)
    (hlog : s'.log = s.log ++ more ∨ ∃ state, s'.log = s.log ++ (more ++ [.moved state])) :
    Accounted loc a s s' := by
  have hbroadcasts : broadcasts a s s' = (added s s').filterMap Entry.handed? := by
    cases a with
    | info envelope => exact absurd rfl (hinfo envelope)
    | _ => rfl
  have hobeys : obeys s a = false := by
    cases a with
    | info envelope => exact absurd rfl (hinfo envelope)
    | _ => rfl
  rcases hlog with hlog | ⟨state, hlog⟩
  · refine ⟨hwait, ?_, ?_⟩
    · rw [hbroadcasts, added_eq hlog, hannounces]
      exact filter_quiet hquiet
    · rw [added_eq hlog, hobeys]
      exact restarts_quiet hquiet
  · refine ⟨hwait, ?_, ?_⟩
    · rw [hbroadcasts, added_eq hlog, hannounces, List.filterMap_append]
      show (_ ++ []).filter isResetId = []
      rw [List.append_nil, filter_quiet hquiet]
    · rw [added_eq hlog, hobeys]
      exact restarts_quiet_moved hquiet state

section Thread

variable (hpost : ∀ (envelope : HxbEnvelope) (s : Fw δ), envelope.src_ip = localhost →
  envelope.eid ≠ epSmResetId → Quietly s (post s.smHandleInputEvent (.input envelope) s))

include hpost

theorem threadTimer_quietly (s : Fw δ) :
    ∃ more state, (threadTimer socket.chain loc post s).log =
      s.log ++ (more ++ [.moved state]) ∧ ∀ entry ∈ more, entry.Quiet := by
  have hquietly : Quietly s (checkDatetimeTransitions (writeEndpoint socket.chain loc post)
      loc.eidEnv loc.dtenvelope s).1 :=
    (Quietly.of_eq rfl).trans (Quietly.checkTransitions hpost _ _ _ _ _ (refreshDtValid s))
  obtain ⟨more, hmore, hquiet⟩ := hquietly
  refine ⟨more, (threadTimer socket.chain loc post s).curState, ?_, hquiet⟩
  rw [← List.append_assoc, ← hmore]
  rfl

end Thread

/-- The periodic timer. -/
theorem accounted_tick {n : Nat} {s : Fw δ} (hwait : s.pstate ≠ .called)
    (hdistinct : EventsDistinct s) : Accounted loc .tick s
      (callDistinct socket.chain loc (n + 1) processEventTimer .none s) := by
  have hwait' := @callDistinct_waiting _ socket loc (n + 1) processEventTimer .none s hwait
  by_cases hrun : s.pstate = .running
  · have hthread : thread socket.chain loc (callDistinct socket.chain loc n) processEventTimer
        .none { s with pstate := .called } = threadTimer socket.chain loc
          (callDistinct socket.chain loc n) { s with pstate := .called } := by
      unfold thread
      rw [if_neg (fun hcond => hdistinct.ne.2.2 hcond.1.symm), if_pos rfl]
    obtain ⟨more, state, hmore, hquiet⟩ := threadTimer_quietly
      (fun _ _ hsrc heid => @callDistinct_quietly _ socket loc n _ _ hsrc heid)
      { s with pstate := .called }
    refine accounted_of_quiet hwait' (fun _ h => by cases h) rfl hquiet (.inr ⟨state, ?_⟩)
    rw [(callDistinct_entered hrun hdistinct).1, hthread, hmore]
  · refine accounted_of_quiet hwait' (fun _ h => by cases h) rfl
      (fun _ h => absurd h List.not_mem_nil) (.inl ?_)
    rw [List.append_nil]
    exact (callDistinct_refused hrun).1

/-- A device's own broadcast of another value. -/
theorem accounted_broadcast {n : Nat} {s : Fw δ} {eid : UInt32} (heid : eid ≠ epSmResetId)
    (hwait : s.pstate ≠ .called) : Accounted loc (.broadcast eid) s
      (broadcastValue socket.chain loc (callDistinct socket.chain loc n) eid s) := by
  obtain ⟨more, hmore, hquiet⟩ := Quietly.broadcastValue
    (fun _ _ hsrc heid => @callDistinct_quietly _ socket loc n _ _ hsrc heid) heid s
  refine accounted_of_quiet ?_ (fun _ h => by cases h) rfl hquiet (.inl hmore)
  unfold broadcastValue
  simp only
  split
  · exact hwait
  · exact @callDistinct_waiting _ socket loc n _ _ (note (.handed _) s) hwait

/-! ## A network that has come up -/

/-- What the Reset-ID endpoint reads. -/
theorem endpointRead_resetId (socket : SocketEndpoints δ) (value : HxbValue) (d : Dev δ) :
    socket.chain.endpointRead epSmResetId value d =
      (.success, { value with
        datatype := DataType.bytes16.code, blob := (smGetId d.eeprom).val }) := by
  unfold EndpointChain.endpointRead
  rw [if_neg (by decide), socket.resetId]
  rfl

/-- The broadcast of the Reset-ID reaches the thread while it is running. -/
theorem broadcastValue_resetId {n : Nat} {s : Fw δ} (h : s.pstate ≠ .running) :
    (broadcastValue socket.chain loc (callDistinct socket.chain loc n) epSmResetId s).log =
      s.log ++ [.handed (resetIdEnvelope loc s)] := by
  have hvalue : broadcastValue socket.chain loc (callDistinct socket.chain loc n) epSmResetId s =
      smHandleInput (callDistinct socket.chain loc n) (resetIdEnvelope loc s) s := by
    unfold broadcastValue
    rw [endpointRead_resetId]
    rfl
  rw [hvalue]
  exact (@callDistinct_refused _ socket loc n s.smHandleInputEvent
    (.input (resetIdEnvelope loc s)) (note (.handed (resetIdEnvelope loc s)) s) h).1

/-- A machine does not take its own Reset-ID: the thread that broadcasts it is still running. -/
theorem broadcastValue_ownResetId {n : Nat} {s : Fw δ} (h : s.pstate ≠ .running) :
    ∃ overflow,
      broadcastValue socket.chain loc (callProcess socket.chain loc n) epSmResetId s =
        { s with
          stackOverflow := overflow
          log := s.log ++ [.handed (resetIdEnvelope loc s)] } := by
  have hvalue : broadcastValue socket.chain loc (callProcess socket.chain loc n) epSmResetId s =
      smHandleInput (callProcess socket.chain loc n) (resetIdEnvelope loc s) s := by
    unfold broadcastValue
    rw [endpointRead_resetId]
    rfl
  rw [hvalue]
  cases n with
  | zero => exact ⟨true, rfl⟩
  | succ n =>
    refine ⟨s.stackOverflow, ?_⟩
    exact @callProcess_refused _ socket.chain loc n s.smHandleInputEvent
      (.input (resetIdEnvelope loc s)) (note (.handed (resetIdEnvelope loc s)) s) h

/-- One Reset-ID, quiet entries and a state. -/
theorem accounted_announce {s s' : Fw δ} {more : List Entry}
    {state : UInt8} {up : Bool} (hwait : s'.pstate ≠ .called)
    (hannounces : announces s (.udp up) = true) (hquiet : ∀ entry ∈ more, entry.Quiet)
    (hlog : s'.log = s.log ++ .handed (resetIdEnvelope loc s) :: (more ++ [.moved state])) :
    Accounted loc (.udp up) s s' := by
  have hadded := added_eq hlog
  have hbroadcasts : broadcasts (.udp up) s s' =
      resetIdEnvelope loc s :: more.filterMap Entry.handed? := by
    unfold broadcasts
    rw [hadded]
    show resetIdEnvelope loc s :: (more ++ [Entry.moved state]).filterMap Entry.handed? = _
    rw [List.filterMap_append]
    exact congrArg _ (List.append_nil _)
  refine ⟨hwait, ?_, ?_⟩
  · have hreset : isResetId (resetIdEnvelope loc s) = true := beq_self_eq_true epSmResetId
    rw [hbroadcasts, hannounces, if_pos rfl, List.filter_cons_of_pos hreset, filter_quiet hquiet]
  · rw [hadded]
    exact restarts_quiet_moved hquiet state

theorem accounted_udp {n : Nat} {s : Fw δ} (up : Bool) (hwait : s.pstate ≠ .called)
    (hdistinct : EventsDistinct s) : Accounted loc (.udp up) s
      (callDistinct socket.chain loc (n + 1) s.udpHandlerEvent (.udpState up) s) := by
  have hwait' := @callDistinct_waiting _ socket loc (n + 1) s.udpHandlerEvent (.udpState up) s hwait
  have hrunning := smIsRunning_eq hwait
  have hunnoticed : announces s (.udp up) = false →
      (callDistinct socket.chain loc (n + 1) s.udpHandlerEvent (.udpState up) s).log = s.log →
        Accounted loc (.udp up) s
          (callDistinct socket.chain loc (n + 1) s.udpHandlerEvent (.udpState up) s) :=
    fun hannounces hlog => accounted_of_quiet hwait' (fun _ h => by cases h) hannounces
      (fun _ h => absurd h List.not_mem_nil) (.inl (hlog.trans (List.append_nil _).symm))
  by_cases hrun : s.pstate = .running
  · let s₁ : Fw δ := { s with pstate := .called }
    have hentered := (@callDistinct_entered _ socket loc n s.udpHandlerEvent (.udpState up) s
      hrun hdistinct).1
    cases up with
    | false =>
      refine hunnoticed rfl (hentered.trans ?_)
      have hthread : thread socket.chain loc (callDistinct socket.chain loc n) s.udpHandlerEvent
          (.udpState false) s₁ = s₁ := by
        unfold thread
        rw [if_neg (fun hcond => Bool.noConfusion hcond.2), if_neg hdistinct.ne.2.2,
          if_neg (fun heq => hdistinct.ne.1 heq.symm)]
      rw [hthread]
    | true =>
      have hthread : thread socket.chain loc (callDistinct socket.chain loc n) s.udpHandlerEvent
          (.udpState true) s₁ = threadUdpUp socket.chain loc (callDistinct socket.chain loc n)
            s₁ := if_pos ⟨rfl, rfl⟩
      rw [hthread] at hentered
      cases hzero : smIdIsZero s.eeprom with
      | true =>
        refine hunnoticed (by simp [announces, hzero]) (hentered.trans ?_)
        have hsame : threadUdpUp socket.chain loc (callDistinct socket.chain loc n) s₁ = s₁ :=
          if_pos hzero
        rw [hsame]
      | false =>
        have hannounces : announces s (.udp true) = true := by
          simp [announces, hrunning, hrun, hzero]
        have hlog := @broadcastValue_resetId _ socket loc n s₁ ProcessState.noConfusion
        let s₂ := broadcastValue socket.chain loc (callDistinct socket.chain loc n) epSmResetId s₁
        obtain ⟨more, hmore, hquiet⟩ := Quietly.checkTransitions
          (fun _ _ hsrc heid => @callDistinct_quietly _ socket loc n _ _ hsrc heid) loc.eidEnv
          false none s₂.transLength.toNat 0 { s₂ with curState := 0 }
        let s₃ := (checkValueTransitions (writeEndpoint socket.chain loc
          (callDistinct socket.chain loc n)) loc.eidEnv none { s₂ with curState := 0 }).1
        have hup : threadUdpUp socket.chain loc (callDistinct socket.chain loc n) s₁ =
            note (.moved s₃.curState) s₃ := if_neg (fun h => by cases hzero.symm.trans h)
        have hthreadLog : (note (.moved s₃.curState) s₃).log =
            s.log ++ .handed (resetIdEnvelope loc s) :: (more ++ [.moved s₃.curState]) := by
          show s₃.log ++ [_] = _
          rw [show s₃.log = s₂.log ++ more from hmore,
            show s₂.log = s.log ++ [.handed (resetIdEnvelope loc s)] from hlog]
          simp only [List.append_assoc, List.cons_append, List.nil_append]
        rw [hup, hthreadLog] at hentered
        exact accounted_announce hwait' hannounces hquiet hentered
  · refine hunnoticed ?_ (callDistinct_refused hrun).1
    simp [announces, hrunning, hrun]

/-! ## One step -/

/-- **The step lemma**: along distinct event numbers a step broadcasts one Reset-ID if the
network has come up for a running machine with an id, and none otherwise; an input restarts the
machine, once, if it is the Reset-ID of its own id from another device. -/
theorem step_accounted {n : Nat} {s : Fw δ} (a : Step δ) (hwait : s.pstate ≠ .called)
    (ha : a ≠ .broadcast epSmResetId) (h : DistinctAlong socket.chain loc (n + 1) a s) :
    Accounted loc a s (step socket.chain loc (n + 1) a s) := by
  rw [h.along]
  have hmoved : ∀ (a : Step δ) (s' : Fw δ), s'.pstate ≠ .called →
      (∀ envelope, a ≠ .info envelope) → announces s a = false →
      (s'.log = s.log ∨ ∃ state, s'.log = s.log ++ [.moved state]) → Accounted loc a s s' := by
    intro a s' hwait hinfo hannounces hlog
    refine accounted_of_quiet hwait hinfo hannounces (fun _ h => absurd h List.not_mem_nil) ?_
    exact hlog.imp (fun h => h.trans (List.append_nil _).symm) id
  cases a with
  | info envelope => exact accounted_info envelope hwait h.now
  | broadcast eid => exact accounted_broadcast (fun heid => ha (heid ▸ rfl)) hwait
  | tick => exact accounted_tick hwait h.now
  | udp up => exact accounted_udp up hwait h.now
  | smStop =>
    exact hmoved _ _ ProcessState.noConfusion (fun _ h => by cases h) rfl (.inr ⟨_, rfl⟩)
  | smStart =>
    refine hmoved _ _ ?_ (fun _ h => by cases h) rfl
      (.inr ⟨_, congrArg (· ++ _) (smStart_log s)⟩)
    show (smStart s).pstate ≠ .called
    unfold smStart
    split
    · exact hwait
    · exact ProcessState.noConfusion
  | smRestart =>
    exact hmoved _ _ ProcessState.noConfusion (fun _ h => by cases h) rfl (.inr ⟨_, rfl⟩)
  | device dev eeprom => exact hmoved _ _ hwait (fun _ h => by cases h) rfl (.inl rfl)
  | clock timestamp currentDt timeValid =>
    exact hmoved _ _ hwait (fun _ h => by cases h) rfl (.inl rfl)

end Hexabus.Firmware
