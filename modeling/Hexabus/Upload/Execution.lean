import Hexabus.Upload.Evaluation

/-!
# What the device does

A device whose EEPROM holds the image of a program does what the program says: at every moment
of every run, the firmware's state machine stands where the program stands, and the endpoints
have been written as the program writes them.
-/

namespace Hexabus.Upload

open Lib.Bytes Lib.Store Lib.Runs Asm Firmware

section

variable {δ : Type} {env : Environment} {ast : HbaDoc} {maps : Maps} {image : Mem}
  {chain : EndpointChain (Dev δ)} {loc : Locals} {m : Machine δ} {s : Fw δ}

/-! ## Threads -/

/-- What the results share: a program that the device can run, its image, and endpoints that
leave the machine alone. -/
structure Loaded (env : Environment) (ast : HbaDoc) (image : Mem) (chain : EndpointChain (Dev δ)) :
    Prop where
  runnable : Runnable env ast
  agrees : ∃ maps, emitted env ast = .ok maps ∧
    ∀ eeprom, SameArea eeprom image → Agrees eeprom ast maps
  leaves : ∀ event ∈ events ast.blocks, LeavesMachine chain event.clause.eid

/-- The whole table. -/
theorem Loaded.checkTransitions_mirrors {n : Nat} (h : Loaded env ast image chain)
    {occasion : Occasion} {envelope : Option HxbEnvelope} {datetime : Bool} {count : UInt8}
    (hdatetime : isTick occasion = datetime)
    (hcount : count = smGetNumberOfTransitions image datetime) (hmirrors : Mirrors ast image s m)
    (hcalled : s.pstate = .called) (hshows : Shows m envelope occasion)
    (hvalid : isTick occasion = true → s.dtValid = m.timeValid) :
    Mirrors ast image
        (checkTransitions (writeEndpoint chain loc (callProcess chain loc n)) loc.eidEnv datetime
          envelope count.toNat 0 s).1
        (m.tryAll env ast chain loc occasion (clausesOf ast.blocks)) ∧
      KeepsKernel s
        (checkTransitions (writeEndpoint chain loc (callProcess chain loc n)) loc.eidEnv datetime
          envelope count.toNat 0 s).1 := by
  obtain ⟨maps, hmaps, hagrees⟩ := h.agrees
  have hbin := h.runnable.bin_eq hmaps datetime
  have hlength : count.toNat = ((maps.bin datetime).map Prod.snd).length := by
    rw [hcount, (hagrees image fun _ _ => rfl).transitionCount datetime, List.length_map]
  rw [hlength, checkTransitions_eq_search, hbin, ← hdatetime]
  · exact searchRecords_mirrors h.runnable hmaps hagrees h.leaves (reads_events ast)
      (fun _ => id) hmirrors hcalled hshows hvalid
  · intro j t hj
    rw [Nat.zero_add]
    obtain ⟨hlt, hget⟩ := List.getElem?_eq_some_iff.mp hj
    rw [List.getElem_map] at hget
    rw [List.length_map] at hlt
    rw [(hagrees _ hmirrors.area).transition datetime j hlt, hget]

/-- The thread takes a value. -/
theorem Loaded.threadInput_mirrors {n : Nat} (h : Loaded env ast image chain)
    {envelope : HxbEnvelope} (hmirrors : Mirrors ast image s m) (hcalled : s.pstate = .called)
    (hcount : s.transLength = smGetNumberOfTransitions image false)
    (hreset : isOwnReset s envelope = false) :
    Mirrors ast image (threadInput chain loc (callProcess chain loc n) envelope s)
        (m.tryAll env ast chain loc (.input envelope) (clausesOf ast.blocks)) ∧
      KeepsKernel s (threadInput chain loc (callProcess chain loc n) envelope s) := by
  obtain ⟨hmirrors', hkernel⟩ := @Loaded.checkTransitions_mirrors δ env ast image chain loc m
    (note (.evaluated envelope s.curState) s) n h (.input envelope) (some envelope) false
    s.transLength rfl hcount (hmirrors.note _) hcalled rfl (fun htick => by cases htick)
  have hkernel' := ((KeepsKernel.refl s).note (.evaluated envelope s.curState)).trans hkernel
  unfold threadInput
  simp only [hreset]
  exact ⟨hmirrors'.note _, hkernel'.note _⟩

/-- The thread looks at the clock. -/
theorem Loaded.threadTimer_mirrors {n : Nat} (h : Loaded env ast image chain)
    (hmirrors : Mirrors ast image s m) (hcalled : s.pstate = .called)
    (hcount : s.dtTransLength = smGetNumberOfTransitions image true) :
    Mirrors ast image (threadTimer chain loc (callProcess chain loc n) s)
        (m.tryAll env ast chain loc .tick (clausesOf ast.blocks)) ∧
      KeepsKernel s (threadTimer chain loc (callProcess chain loc n) s) := by
  have hrefreshed : Mirrors ast image (refreshDtValid s) m :=
    ⟨⟨hmirrors.dev, hmirrors.eeprom, hmirrors.timestamp, hmirrors.currentDt, hmirrors.timeValid,
      hmirrors.since, hmirrors.area⟩, hmirrors.state⟩
  have hshows : Shows m (some (datetimeEnvelope loc.dtenvelope (refreshDtValid s))) .tick := by
    refine ⟨_, rfl, rfl, ?_⟩
    rw [← hmirrors.currentDt]
    exact HxbValue.setDatetime_v_datetime _ _
  obtain ⟨hmirrors', hkernel⟩ := @Loaded.checkTransitions_mirrors δ env ast image chain loc m
    (refreshDtValid s) n h .tick _ true s.dtTransLength rfl hcount hrefreshed hcalled hshows
    (fun _ => hmirrors.timeValid)
  have hkernel' : KeepsKernel s (refreshDtValid s) := ⟨rfl, rfl, rfl, rfl, rfl, rfl⟩
  exact ⟨hmirrors'.note _, (hkernel'.trans hkernel).note _⟩

theorem foldl_or_eq_zero_iff {bytes : List UInt8} {b : UInt8} :
    bytes.foldl (· ||| ·) b = 0 ↔ b = 0 ∧ ∀ c ∈ bytes, c = 0 := by
  induction bytes generalizing b with
  | nil => simp
  | cons c bytes ih =>
    rw [List.foldl_cons, ih, List.forall_mem_cons, ← and_assoc]
    refine and_congr_left fun _ => ?_
    exact UInt8.or_eq_zero_iff

/-- The program has no machine id. -/
theorem smIdIsZero_iff {eeprom : Mem} (hagrees : Agrees eeprom ast maps) :
    smIdIsZero eeprom = true ↔ machineIdBytes ast.machineId = Block.zero 16 := by
  unfold smIdIsZero
  rw [beq_iff_eq, foldl_or_eq_zero_iff, hagrees.id, and_iff_right rfl, ← Subtype.coe_inj]
  show _ ↔ (machineIdBytes ast.machineId).val = List.replicate 16 0
  rw [List.eq_replicate_iff, and_iff_right (machineIdBytes ast.machineId).property]

/-- The thread hears that the network has come up. -/
theorem Loaded.threadUdpUp_mirrors {n : Nat} (h : Loaded env ast image chain)
    (hmirrors : Mirrors ast image s m) (hcalled : s.pstate = .called)
    (hcount : s.transLength = smGetNumberOfTransitions image false)
    (hid : machineIdBytes ast.machineId ≠ Block.zero 16)
    (hfirst : StateNamed ast 0 (firstState ast.blocks)) :
    Mirrors ast image (threadUdpUp chain loc (callProcess chain loc n) s)
        ({ m with state := firstState ast.blocks }.tryAll env ast chain loc .up
          (clausesOf ast.blocks)) ∧
      KeepsKernel s (threadUdpUp chain loc (callProcess chain loc n) s) := by
  obtain ⟨maps, hmaps, hagrees⟩ := h.agrees
  have hzero : ¬ smIdIsZero s.eeprom = true := fun hzero =>
    hid ((smIdIsZero_iff (hagrees _ hmirrors.area)).mp hzero)
  obtain ⟨log, overflow, hbroadcast⟩ :=
    @broadcastValue_called δ chain loc s n epSmResetId hcalled
  have hfirstState : Mirrors ast image
      { s with log := log, stackOverflow := overflow, curState := 0 }
      { m with state := firstState ast.blocks } :=
    ⟨⟨hmirrors.dev, hmirrors.eeprom, hmirrors.timestamp, hmirrors.currentDt, hmirrors.timeValid,
      hmirrors.since, hmirrors.area⟩, hfirst⟩
  obtain ⟨hmirrors', hkernel⟩ := @Loaded.checkTransitions_mirrors δ env ast image chain loc _ _ n
    h .up none false s.transLength rfl hcount hfirstState hcalled rfl (fun htick => by cases htick)
  have hkernel' : KeepsKernel s { s with log := log, stackOverflow := overflow, curState := 0 } :=
    ⟨rfl, rfl, rfl, rfl, rfl, rfl⟩
  unfold threadUdpUp
  rw [if_neg hzero]
  simp only [hbroadcast]
  exact ⟨hmirrors'.note _, (hkernel'.trans hkernel).note _⟩

/-! ## Steps -/

/-- Between two steps: the firmware stands where the program stands, the event numbers are those
of different events, and no number above `k` is taken. -/
structure Follows (ast : HbaDoc) (image : Mem) (k : Nat) (s : Fw δ) (m : Machine δ) : Prop
    extends SameDevice image s m where
  pstate : s.pstate = if m.running then .running else .none
  state : m.running = true → StateNamed ast s.curState.toNat m.state
  counts : m.running = true → s.transLength = smGetNumberOfTransitions image false ∧
    s.dtTransLength = smGetNumberOfTransitions image true
  input : m.running = true → s.udpHandlerEvent < s.smHandleInputEvent
  udp : processEventTimer < s.udpHandlerEvent
  free : s.udpHandlerEvent < s.lastevent
  taken : s.lastevent.toNat ≤ k

variable {k : Nat}

theorem running_tryAll (occasion : Occasion) (clauses : List (String × IfClauseDoc))
    (m : Machine δ) : (m.tryAll env ast chain loc occasion clauses).running = m.running := by
  induction clauses generalizing m with
  | nil => rfl
  | cons entry clauses ih =>
    obtain ⟨state, clause⟩ := entry
    rw [Machine.tryAll]
    split
    · split
      · exact ih _
      · rfl
    · exact ih m

/-- The machine that runs is the program's, marked as called. -/
theorem Follows.mirrors (h : Follows ast image k s m) (hrunning : m.running = true) :
    Mirrors ast image { s with pstate := .called } m :=
  ⟨⟨h.dev, h.eeprom, h.timestamp, h.currentDt, h.timeValid, h.since, h.area⟩, h.state hrunning⟩

/-- The kernel calls the thread. -/
theorem Follows.call {n : Nat} (h : Follows ast image k s m) (hrunning : m.running = true)
    {ev : UInt8} {data : EventData} (hev : processEventTimer ≤ ev) {m' : Machine δ}
    (hrunning' : m'.running = true)
    (hthread : Mirrors ast image
        (thread chain loc (callProcess chain loc n) ev data { s with pstate := .called }) m' ∧
      KeepsKernel { s with pstate := .called }
        (thread chain loc (callProcess chain loc n) ev data { s with pstate := .called })) :
    Follows ast image k (callProcess chain loc (n + 1) ev data s) m' := by
  obtain ⟨hmirrors, hkernel⟩ := hthread
  have hpstate : s.pstate = .running := by rw [h.pstate, if_pos hrunning]
  have hexit : ev ≠ processEventExit := by
    rintro rfl
    exact absurd hev (by decide)
  have hstays : ¬ ((thread chain loc (callProcess chain loc n) ev data
      { s with pstate := .called }).pstate = .none ∨ ev = processEventExit) := by
    rw [hkernel.pstate]
    exact not_or.mpr ⟨ProcessState.noConfusion, hexit⟩
  have hcall : callProcess chain loc (n + 1) ev data s =
      { thread chain loc (callProcess chain loc n) ev data { s with pstate := .called } with
        pstate := .running } := by
    rw [callProcess, if_pos hpstate]
    exact if_neg hstays
  rw [hcall]
  refine ⟨⟨hmirrors.dev, hmirrors.eeprom, hmirrors.timestamp, hmirrors.currentDt,
    hmirrors.timeValid, hmirrors.since, hmirrors.area⟩, ?_, fun _ => hmirrors.state, fun _ => ?_,
    fun _ => ?_, ?_, ?_, ?_⟩
  · rw [hrunning', if_pos rfl]
  · show (thread chain loc _ ev data _).transLength = _ ∧ (thread chain loc _ ev data _).dtTransLength = _
    rw [hkernel.transLength, hkernel.dtTransLength]
    exact h.counts hrunning
  · show (thread chain loc _ ev data _).udpHandlerEvent < (thread chain loc _ ev data _).smHandleInputEvent
    rw [hkernel.udpHandlerEvent, hkernel.smHandleInputEvent]
    exact h.input hrunning
  · show processEventTimer < (thread chain loc _ ev data _).udpHandlerEvent
    rw [hkernel.udpHandlerEvent]
    exact h.udp
  · show (thread chain loc _ ev data _).udpHandlerEvent < (thread chain loc _ ev data _).lastevent
    rw [hkernel.udpHandlerEvent, hkernel.lastevent]
    exact h.free
  · show (thread chain loc _ ev data _).lastevent.toNat ≤ k
    rw [hkernel.lastevent]
    exact h.taken

/-- The kernel does not call a thread that has ended. -/
theorem Follows.refused {n : Nat} (h : Follows ast image k s m) (hstopped : m.running = false)
    {ev : UInt8} {data : EventData} :
    Follows ast image k (callProcess chain loc (n + 1) ev data s) m := by
  have hpstate : s.pstate ≠ .running := by
    rw [h.pstate, hstopped]
    decide
  rwa [callProcess_refused hpstate]

theorem Follows.note (h : Follows ast image k s m) (entry : Entry) :
    Follows ast image k (note entry s) m :=
  ⟨⟨h.dev, h.eeprom, h.timestamp, h.currentDt, h.timeValid, h.since, h.area⟩, h.pstate, h.state,
    h.counts, h.input, h.udp, h.free, h.taken⟩

/-- **A value comes in.** -/
theorem Loaded.input {n : Nat} (hloaded : Loaded env ast image chain)
    (h : Follows ast image k s m) {envelope : HxbEnvelope} (hreset : isOwnReset s envelope = false) :
    Follows ast image k (smHandleInput (callProcess chain loc (n + 1)) envelope s)
      (m.on env ast chain loc (.input envelope)) := by
  have hnoted := h.note (.handed envelope)
  unfold smHandleInput Machine.on
  cases hrunning : m.running with
  | false => exact hnoted.refused hrunning
  | true =>
    have hinput := h.input hrunning
    have hudp := h.udp
    refine hnoted.call hrunning (UInt8.le_of_lt (UInt8.lt_trans hudp hinput))
      ((running_tryAll _ _ m).trans hrunning) ?_
    have hthread : thread chain loc (callProcess chain loc n) s.smHandleInputEvent
        (.input envelope) { Firmware.note (.handed envelope) s with pstate := .called } =
        threadInput chain loc (callProcess chain loc n) envelope
          { Firmware.note (.handed envelope) s with pstate := .called } := by
      have hno : ¬ (s.smHandleInputEvent = s.udpHandlerEvent ∧
          (EventData.input envelope).isUp = true) := fun heq => (UInt8.ne_of_lt hinput) heq.1.symm
      have htimer : s.smHandleInputEvent ≠ processEventTimer :=
        (UInt8.ne_of_lt (UInt8.lt_trans hudp hinput)).symm
      exact (if_neg hno).trans ((if_neg htimer).trans (if_pos rfl))
    rw [hthread]
    exact hloaded.threadInput_mirrors (hnoted.mirrors hrunning) rfl (h.counts hrunning).1 hreset

/-- **The timer expires.** -/
theorem Loaded.tick {n : Nat} (hloaded : Loaded env ast image chain)
    (h : Follows ast image k s m) :
    Follows ast image k (callProcess chain loc (n + 1) processEventTimer .none s)
      (m.on env ast chain loc .tick) := by
  unfold Machine.on
  cases hrunning : m.running with
  | false => exact h.refused hrunning
  | true =>
    refine h.call hrunning (UInt8.le_refl _) ((running_tryAll _ _ m).trans hrunning) ?_
    have hthread : thread chain loc (callProcess chain loc n) processEventTimer .none
        { s with pstate := .called } =
        threadTimer chain loc (callProcess chain loc n) { s with pstate := .called } := by
      have hno : ¬ (processEventTimer = s.udpHandlerEvent ∧ EventData.none.isUp = true) :=
        fun heq => (UInt8.ne_of_lt h.udp) heq.1
      exact (if_neg hno).trans (if_pos rfl)
    rw [hthread]
    exact hloaded.threadTimer_mirrors (h.mirrors hrunning) rfl (h.counts hrunning).2

theorem stateNamed_first (h : stateDocs ast.blocks ≠ []) :
    StateNamed ast 0 (firstState ast.blocks) := by
  unfold StateNamed firstState
  cases hdocs : stateDocs ast.blocks with
  | nil => exact absurd hdocs h
  | cons doc docs => rfl

/-- **The network comes up, or goes down.** -/
theorem Loaded.udp {n : Nat} (hloaded : Loaded env ast image chain)
    (h : Follows ast image k s m) (up : Bool) :
    Follows ast image k (callProcess chain loc (n + 1) s.udpHandlerEvent (.udpState up) s)
      (m.step env ast chain loc (.udp up)) := by
  obtain ⟨maps, -, hagrees⟩ := hloaded.agrees
  have hstep : m.step env ast chain loc (.udp up) =
      if m.running && up && machineIdBytes ast.machineId ≠ Block.zero 16 then
        { m with state := firstState ast.blocks }.on env ast chain loc .up
      else m := rfl
  rw [hstep]
  by_cases hrunning : m.running = true
  swap
  · rw [if_neg (by simp [hrunning])]
    exact h.refused (Bool.eq_false_iff.mpr hrunning)
  have htimer : s.udpHandlerEvent ≠ processEventTimer := (UInt8.ne_of_lt h.udp).symm
  have hinput : s.udpHandlerEvent ≠ s.smHandleInputEvent := UInt8.ne_of_lt (h.input hrunning)
  have hcall := @Follows.call δ ast image chain loc m s k n h hrunning s.udpHandlerEvent
    (.udpState up) (UInt8.le_of_lt h.udp)
  have hmirrors := h.mirrors hrunning
  cases up with
  | false =>
    have hthread : thread chain loc (callProcess chain loc n) s.udpHandlerEvent (.udpState false)
        { s with pstate := .called } = { s with pstate := .called } := by
      have hno : ¬ (s.udpHandlerEvent = s.udpHandlerEvent ∧
          (EventData.udpState false).isUp = true) := fun heq => by cases heq.2
      exact (if_neg hno).trans ((if_neg htimer).trans (if_neg hinput))
    rw [if_neg (by simp)]
    refine hcall hrunning ?_
    rw [hthread]
    exact ⟨hmirrors, KeepsKernel.refl _⟩
  | true =>
    have hthread : thread chain loc (callProcess chain loc n) s.udpHandlerEvent (.udpState true)
        { s with pstate := .called } =
        threadUdpUp chain loc (callProcess chain loc n) { s with pstate := .called } :=
      if_pos ⟨rfl, rfl⟩
    by_cases hid : machineIdBytes ast.machineId = Block.zero 16
    · have hzero := (smIdIsZero_iff (hagrees _ h.area)).mpr hid
      rw [if_neg (by simp [hid])]
      refine hcall hrunning ?_
      rw [hthread, threadUdpUp, if_pos hzero]
      exact ⟨hmirrors, KeepsKernel.refl _⟩
    · rw [if_pos (by simp [hrunning, hid]), Machine.on, if_pos hrunning]
      refine hcall ((running_tryAll _ _ _).trans hrunning) ?_
      rw [hthread]
      exact hloaded.threadUdpUp_mirrors hmirrors rfl (h.counts hrunning).1 hid
        (stateNamed_first hloaded.runnable.state)

/-- The machine is stopped. -/
theorem Follows.stop (h : Follows ast image k s m) : Follows ast image k (smStop s) m.stop :=
  ⟨⟨h.dev, h.eeprom, h.timestamp, h.currentDt, h.timeValid, h.since, h.area⟩, rfl,
    fun hrunning => (by cases hrunning), fun hrunning => (by cases hrunning),
    fun hrunning => (by cases hrunning), h.udp, h.free, h.taken⟩

/-- The machine is started, with the next event number. -/
theorem Follows.start (h : Follows ast image k s m) (hstate : stateDocs ast.blocks ≠ [])
    (hnumber : k < 255) : Follows ast image (k + 1) (smStart s) (m.start ast) := by
  have htaken := h.taken
  unfold smStart smIsRunning Machine.start
  cases hrunning : m.running with
  | true =>
    have hpstate : s.pstate = .running := by rw [h.pstate, if_pos hrunning]
    simp only [hpstate]
    exact { h with taken := Nat.le_succ_of_le htaken }
  | false =>
    have hpstate : s.pstate = .none := by
      rw [h.pstate, hrunning]
      rfl
    have hadd : (s.lastevent + 1).toNat = s.lastevent.toNat + 1 := by
      rw [UInt8.toNat_add]
      show (s.lastevent.toNat + 1) % 256 = _
      omega
    have hnext : s.lastevent < s.lastevent + 1 := by
      rw [UInt8.lt_iff_toNat_lt, hadd]
      exact Nat.lt_succ_self _
    have htaken' : (s.lastevent + 1).toNat ≤ k + 1 := by
      rw [hadd]
      exact Nat.succ_le_succ htaken
    have hcount : ∀ datetime, smGetNumberOfTransitions s.eeprom datetime =
        smGetNumberOfTransitions image datetime := by
      intro datetime
      cases datetime with
      | false => exact h.area _ ⟨by decide, by decide⟩
      | true => exact h.area _ ⟨by decide, by decide⟩
    simp only [hpstate]
    exact ⟨⟨h.dev, h.eeprom, h.timestamp, h.currentDt, h.timeValid, h.since, h.area⟩, rfl,
      fun _ => stateNamed_first hstate, fun _ => ⟨hcount false, hcount true⟩, fun _ => h.free,
      h.udp, UInt8.lt_trans h.free hnext, htaken'⟩

/-- The step starts the machine, or would if it were stopped. -/
def starts : Step δ → Bool
  | .smStart => true
  | .smRestart => true
  | _ => false

theorem not_isOwnReset {envelope : HxbEnvelope} (hid : smGetId s.eeprom = machineIdBytes ast.machineId)
    (h : Ordinary ast image (.info envelope : Step δ)) : isOwnReset s envelope = false := by
  rw [Bool.eq_false_iff]
  intro hreset
  simp only [isOwnReset, Bool.and_eq_true, beq_iff_eq, bne_iff_ne] at hreset
  obtain ⟨⟨⟨⟨-, heid⟩, hdatatype⟩, hsender⟩, hblob⟩ := hreset
  exact h ⟨heid, hdatatype, hsender, hid ▸ hblob⟩

/-- **The step lemma**: what the firmware does in a step is what the program says. -/
theorem Loaded.step {n : Nat} (hloaded : Loaded env ast image chain) (h : Follows ast image k s m)
    {a : Step δ} (hordinary : Ordinary ast image a)
    (hnumber : k + (if starts a then 1 else 0) ≤ 255) :
    Follows ast image (k + if starts a then 1 else 0) (step chain loc (n + 1) a s)
      (m.step env ast chain loc a) := by
  obtain ⟨maps, -, hagrees⟩ := hloaded.agrees
  have hid := (hagrees _ h.area).id
  have hstate := hloaded.runnable.state
  cases a with
  | info envelope => exact hloaded.input h (not_isOwnReset hid hordinary)
  | broadcast eid =>
    have hreset : ∀ value, isOwnReset s ⟨localhost, 0, eid, value⟩ = false := by
      intro value
      rw [isOwnReset, bne_self_eq_false, Bool.and_false, Bool.false_and]
    have hstep : m.step env ast chain loc (.broadcast eid) =
        if (chain.endpointRead eid { loc.value with blob := [] } ⟨m.dev, m.eeprom, []⟩).1 ≠ .success
        then m
        else m.on env ast chain loc (.input ⟨localhost, 0, eid,
          (chain.endpointRead eid { loc.value with blob := [] } ⟨m.dev, m.eeprom, []⟩).2⟩) := rfl
    rw [hstep, ← h.dev, ← h.eeprom]
    show Follows ast image k (broadcastValue chain loc _ eid s) _
    unfold broadcastValue
    simp only
    split
    · exact h
    · exact hloaded.input h (hreset _)
  | smStop => exact h.stop.note _
  | smStart => exact (h.start hstate hnumber).note _
  | smRestart => exact (h.stop.start hstate hnumber).note _
  | device dev eeprom =>
    exact ⟨⟨rfl, rfl, h.timestamp, h.currentDt, h.timeValid, h.since, hordinary⟩, h.pstate, h.state,
      h.counts, h.input, h.udp, h.free, h.taken⟩
  | clock timestamp currentDt timeValid =>
    exact ⟨⟨h.dev, h.eeprom, rfl, rfl, rfl, h.since, h.area⟩, h.pstate, h.state, h.counts, h.input,
      h.udp, h.free, h.taken⟩
  | tick => exact hloaded.tick h
  | udp up => exact hloaded.udp h up

/-! ## Runs -/

/-- **The run lemma.** -/
theorem follows_run {n : Nat} (hloaded : Loaded env ast image chain) (h : Follows ast image k s m)
    {steps : List (Step δ)} (hordinary : ∀ a ∈ steps, Ordinary ast image a)
    (hnumber : k + steps.countP starts ≤ 255) :
    Follows ast image (k + steps.countP starts) (Lib.Runs.run (step chain loc (n + 1)) s steps)
      (Lib.Runs.run (Machine.step env ast chain loc) m steps) := by
  induction steps generalizing k s m with
  | nil => exact h
  | cons a steps ih =>
    rw [List.countP_cons] at hnumber ⊢
    have hcount : k + (List.countP starts steps + if starts a then 1 else 0) =
        k + (if starts a then 1 else 0) + steps.countP starts := by omega
    rw [hcount] at hnumber ⊢
    exact ih (hloaded.step h (hordinary a List.mem_cons_self) (by omega))
      (fun b hb => hordinary b (List.mem_cons_of_mem _ hb)) hnumber

theorem Runnable.fits (h : Runnable env ast) (hmaps : emitted env ast = .ok maps) : Fits maps := by
  obtain ⟨hconditions, -⟩ := emitted_records hmaps
  have hlength : ∀ id docs, (conditionEntries env id docs).length = docs.length := by
    intro id docs
    induction docs generalizing id with
    | nil => rfl
    | cons doc docs ih => exact congrArg (· + 1) (ih (id + 1))
  have htable : ∀ datetime, (maps.bin datetime).length ≤ tableCapacity datetime := by
    intro datetime
    have hbin := congrArg List.length (h.bin_eq hmaps datetime)
    rw [List.length_map, List.length_map] at hbin
    rw [hbin]
    exact h.assemblable.room datetime
  refine ⟨?_, htable true, htable false⟩
  rw [hconditions, hlength]
  exact h.conditions

theorem loaded_storeChunks {file : List UInt8} {eeprom : Mem} {order : List Nat}
    (hfile : hbasm env ast = .ok file) (hrunnable : Runnable env ast)
    (horder : ∀ k ∈ order, k < (chunks file).length) (hall : ∀ k < (chunks file).length, k ∈ order)
    (hleaves : ∀ event ∈ events ast.blocks, LeavesMachine chain event.clause.eid) :
    Loaded env ast (storeChunks file eeprom order) chain := by
  have hblocks : ast.blocks ≠ [] := by
    intro hnil
    exact hrunnable.state (by rw [hnil]; rfl)
  obtain ⟨maps, hmaps, hholds⟩ := storeChunks_area hfile hblocks horder hall
  refine ⟨hrunnable, ⟨maps, hmaps, ?_⟩, hleaves⟩
  intro eeprom' harea
  refine agrees_of_holds ?_ (hrunnable.fits hmaps)
  have hread : readBlock eeprom' EE.statemachineId (areaOf ast maps).length =
      readBlock (storeChunks file eeprom order) EE.statemachineId (areaOf ast maps).length := by
    refine readBlock_congr fun i hlow hhigh => harea i ⟨hlow, ?_⟩
    rw [length_areaOf] at hhigh
    exact hhigh
  exact hread.trans hholds

/-- The program on a device whose machine is stopped. -/
def atRest (s : Fw δ) : Machine δ :=
  ⟨s.dev, s.eeprom, s.timestamp, s.currentDt, s.timeValid, false, "", s.inStateSince⟩

/-- A run on a device whose machine is stopped. -/
theorem follows_atRest (loc : Locals) {n : Nat} (hloaded : Loaded env ast s.eeprom chain)
    (hstopped : s.pstate = .none) (hudp : processEventTimer < s.udpHandlerEvent)
    (hfree : s.udpHandlerEvent < s.lastevent) {steps : List (Step δ)}
    (hordinary : ∀ a ∈ steps, Ordinary ast s.eeprom a)
    (hnumber : s.lastevent.toNat + steps.countP starts ≤ 255) :
    Follows ast s.eeprom (s.lastevent.toNat + steps.countP starts)
      (Lib.Runs.run (step chain loc (n + 1)) s steps)
      (Lib.Runs.run (Machine.step env ast chain loc) (atRest s) steps) := by
  have hrest : Follows ast s.eeprom s.lastevent.toNat s (atRest s) :=
    ⟨⟨rfl, rfl, rfl, rfl, rfl, rfl, fun _ _ => rfl⟩, hstopped, fun h => (by cases h),
      fun h => (by cases h), fun h => (by cases h), hudp, hfree, Nat.le_refl _⟩
  exact follows_run hloaded hrest hordinary hnumber

theorem Follows.smIsRunning_eq {image : Mem} (h : Follows ast image k s m) :
    smIsRunning s = m.running := by
  unfold smIsRunning
  rw [h.pstate]
  cases m.running <;> rfl

end

/-! ## A switch and a meter -/

def sampleLocals : Locals :=
  ⟨⟨Block.zero 16, 0, 0, ⟨0, Block.zero 8, []⟩⟩, ⟨Block.zero 16, 0, 0, ⟨0, Block.zero 8, []⟩⟩,
    ⟨0, Block.zero 8, []⟩⟩

/-- The switch is off and the machine is stopped. -/
def sampleDevice : Fw Bool where
  eeprom := storeChunks sampleFile (fun _ => 0xff) (List.range 25)
  transLength := 0
  dtTransLength := 0
  curState := 0
  inStateSince := 0
  dtValid := false
  smHandleInputEvent := 0
  udpHandlerEvent := 0x8b
  lastevent := 0x8c
  pstate := .none
  timestamp := 7
  currentDt := ⟨0, 0, 0, 0, 0, 0, 0⟩
  timeValid := false
  dev := false
  stackOverflow := false
  log := []

end Hexabus.Upload
