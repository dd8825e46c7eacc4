import Hexabus.Firmware.ResetIds
import Hexabus.Lib.Network

/-!
# Reset-IDs in a network of devices

Devices that run the state machine and hear each other's broadcasts. Every broadcast of a step
is one message to the group; any device but its sender may receive it, at any time, more than
once or never. A Reset-ID is sent when the network has come up for a running machine with an id
and at no other time, so the restarts it causes cause no further one.
-/

namespace Hexabus.Firmware

open Lib.Bytes Lib.Runs Lib.Network

variable {δ : Type}

/-! ## The network -/

/-- A device: its address and its endpoints. -/
structure Peer (δ : Type) where
  ip : Block 16
  endpoints : SocketEndpoints δ
  ip_ne : ip ≠ localhost

/-- The broadcasts of a step, as the other devices receive them. -/
def Peer.multicasts (peer : Peer δ) (a : Step δ) (s s' : Fw δ) : List HxbEnvelope :=
  (broadcasts a s s').map fun envelope =>
    { envelope with src_ip := peer.ip, src_port := hxbPort }

/-- A device takes a step, with stack for `n + 1` nested calls. -/
def Peer.step (peer : Peer δ) (n : Nat) (loc : Locals) (a : Step δ) (s : Fw δ) :
    Fw δ × List HxbEnvelope :=
  let s' := Firmware.step peer.endpoints.chain loc (n + 1) a s
  (s', peer.multicasts a s s')

/-- The network of the devices. A device does not hear itself. -/
def peers {ν : Type} (peer : ν → Peer δ) (n : Nat) :
    Protocol ν (Fw δ) HxbEnvelope Locals (Locals × Step δ) where
  receive node loc envelope s :=
    if envelope.src_ip = (peer node).ip then (s, [])
    else (peer node).step n loc (.info envelope) s
  act node action s := (peer node).step n action.1 action.2 s

/-- The step that a node takes in an event, and the values of its uninitialised variables. -/
def stepOf {ν : Type} [DecidableEq ν] (peer : ν → Peer δ) (net : Net ν (Fw δ) HxbEnvelope) :
    Event ν Locals (Locals × Step δ) → Option (ν × Locals × Step δ)
  | .deliver node place loc =>
    match net.flight[place]? with
    | none => none
    | some envelope =>
      if envelope.src_ip = (peer node).ip then none else some (node, loc, .info envelope)
  | .lose _ => none
  | .act node action => some (node, action.1, action.2)

/-- The condition on an event. The event numbers are distinct along the step that is taken, and
what a device does by itself is no packet and no broadcast of the Reset-ID. -/
def Admissible {ν : Type} [DecidableEq ν] (peer : ν → Peer δ) (n : Nat)
    (net : Net ν (Fw δ) HxbEnvelope) (event : Event ν Locals (Locals × Step δ)) : Prop :=
  (∀ node loc a, stepOf peer net event = some (node, loc, a) →
    DistinctAlong (peer node).endpoints.chain loc (n + 1) a (net.nodes node)) ∧
  ∀ node loc a, event = .act node (loc, a) →
    a ≠ .broadcast epSmResetId ∧ ∀ envelope, a ≠ .info envelope

/-! ## What an event does -/

variable {ν : Type} [DecidableEq ν]

/-- The network comes up for a running machine with an id. -/
def comesUp (net : Net ν (Fw δ) HxbEnvelope) : Event ν Locals (Locals × Step δ) → Bool
  | .act node (_, a) => announces (net.nodes node) a
  | _ => false

/-- The Reset-ID that is sent in an event. -/
def resetIdOf (peer : ν → Peer δ) (net : Net ν (Fw δ) HxbEnvelope) :
    Event ν Locals (Locals × Step δ) → List HxbEnvelope
  | .act node (loc, a) =>
    if announces (net.nodes node) a then
      [{ resetIdEnvelope loc (net.nodes node) with src_ip := (peer node).ip, src_port := hxbPort }]
    else []
  | _ => []

/-- The node receives a copy of the Reset-ID of another device with the id of its own running
machine, and that id is not zero. -/
def Resets (peer : ν → Peer δ) (net : Net ν (Fw δ) HxbEnvelope) (node : ν) :
    Event ν Locals (Locals × Step δ) → Prop
  | .deliver receiver place _ => receiver = node ∧ ∃ envelope, net.flight[place]? = some envelope ∧
    envelope.src_ip ≠ (peer node).ip ∧ envelope.src_ip ≠ localhost ∧
    envelope.eid = epSmResetId ∧ envelope.value.datatype = DataType.bytes16.code ∧
    smIsRunning (net.nodes node) = true ∧
    smGetId (net.nodes node).eeprom ≠ Block.zero 16 ∧
    envelope.value.blob.take 16 = (smGetId (net.nodes node).eeprom).val
  | _ => False

/-- The thread of a machine is entered with a packet. -/
def entered (envelope : HxbEnvelope) (s : Fw δ) : Fw δ :=
  { s with
    pstate := .called
    log := s.log ++ [.handed envelope] }

/-- The same, and the machine has been restarted: it is in its first state, has read the lengths
of its tables again and has a new event number. -/
def restarted (envelope : HxbEnvelope) (s : Fw δ) : Fw δ :=
  { s with
    curState := 0
    transLength := smGetNumberOfTransitions s.eeprom false
    dtTransLength := smGetNumberOfTransitions s.eeprom true
    smHandleInputEvent := s.lastevent
    lastevent := s.lastevent + 1
    pstate := .running
    log := s.log ++ [.handed envelope, .moved 0] }

/-- The transitions are evaluated on a packet, from `s` on. -/
def Peer.evaluated (peer : Peer δ) (n : Nat) (loc : Locals) (envelope : HxbEnvelope) (s : Fw δ) :
    Fw δ :=
  settle (evaluateInput peer.endpoints.chain loc (callProcess peer.endpoints.chain loc n)
    envelope s)

/-- A machine in its first state that has sent its own Reset-ID and has not been restarted. -/
def announced (loc : Locals) (overflow : Bool) (s : Fw δ) : Fw δ :=
  { s with
    curState := 0
    pstate := .called
    stackOverflow := overflow
    log := s.log ++ [.handed (resetIdEnvelope loc s)] }

/-- The transitions are evaluated without a value, from `s` on. -/
def Peer.initialized (peer : Peer δ) (n : Nat) (loc : Locals) (s : Fw δ) : Fw δ :=
  let post := callProcess peer.endpoints.chain loc n
  let s := (checkValueTransitions (writeEndpoint peer.endpoints.chain loc post) loc.eidEnv
    none s).1
  settle (note (.moved s.curState) s)

/-- What an event sends of Reset-IDs, and which machines it restarts: those that a copy resets
evaluate it after a restart, and the others without one. A machine that is not running only
takes note of a packet. -/
structure EventWell (peer : ν → Peer δ) (n : Nat) (net : Net ν (Fw δ) HxbEnvelope)
    (event : Event ν Locals (Locals × Step δ)) : Prop where
  sends : ((peers peer n).sent net event).filter isResetId = resetIdOf peer net event
  reset : ∀ node, Resets peer net node event →
    ∃ loc envelope, stepOf peer net event = some (node, loc, .info envelope) ∧
      ((peers peer n).step event net).nodes node =
        (peer node).evaluated n loc envelope (restarted envelope (net.nodes node))
  kept : ∀ node loc envelope, ¬ Resets peer net node event →
    stepOf peer net event = some (node, loc, .info envelope) →
      ((peers peer n).step event net).nodes node =
        if smIsRunning (net.nodes node) then
          (peer node).evaluated n loc envelope (entered envelope (net.nodes node))
        else note (.handed envelope) (net.nodes node)
  announces : ∀ node loc a, event = .act node (loc, a) → announces (net.nodes node) a = true →
    ∃ overflow, ((peers peer n).step event net).nodes node =
      (peer node).initialized n loc (announced loc overflow (net.nodes node))
  elsewhere : ∀ node, (∀ loc a, stepOf peer net event ≠ some (node, loc, a)) →
    ((peers peer n).step event net).nodes node = net.nodes node
  restarts : ∀ node, (Resets peer net node event →
      restarts (added (net.nodes node) (((peers peer n).step event net).nodes node)) = 1) ∧
    (¬ Resets peer net node event →
      restarts (added (net.nodes node) (((peers peer n).step event net).nodes node)) = 0)

/-- Between two steps no thread is entered. -/
def Waiting (net : Net ν (Fw δ) HxbEnvelope) : Prop := ∀ node, (net.nodes node).pstate ≠ .called

/-! ## One event -/

theorem foldl_or_eq_zero (bs : List UInt8) (b : UInt8) :
    bs.foldl (· ||| ·) b = 0 ↔ b = 0 ∧ ∀ c ∈ bs, c = 0 := by
  induction bs generalizing b with
  | nil => simp
  | cons c bs ih =>
    rw [List.foldl_cons, ih, UInt8.or_eq_zero_iff, List.forall_mem_cons, and_assoc]

/-- `sm_id_is_zero`: no byte of the id is set. -/
theorem smIdIsZero_iff (eeprom : Mem) :
    smIdIsZero eeprom = true ↔ smGetId eeprom = Block.zero 16 := by
  unfold smIdIsZero
  rw [beq_iff_eq, foldl_or_eq_zero]
  constructor
  · rintro ⟨-, hzero⟩
    exact Subtype.ext (List.eq_replicate_iff.mpr ⟨(smGetId eeprom).property, hzero⟩)
  · intro h
    rw [h]
    exact ⟨rfl, fun c hc => List.eq_of_mem_replicate hc⟩

/-- What `memcmp` and the tests around it decide. -/
theorem isOwnReset_iff (s : Fw δ) (envelope : HxbEnvelope) : isOwnReset s envelope = true ↔
    envelope.src_ip ≠ localhost ∧ envelope.eid = epSmResetId ∧
      envelope.value.datatype = DataType.bytes16.code ∧ smGetId s.eeprom ≠ Block.zero 16 ∧
      envelope.value.blob.take 16 = (smGetId s.eeprom).val := by
  have hzero : (!smIdIsZero s.eeprom) = true ↔ smGetId s.eeprom ≠ Block.zero 16 := by
    rw [Bool.not_eq_true', ← Bool.not_eq_true, smIdIsZero_iff]
  unfold isOwnReset
  simp only [Bool.and_eq_true, hzero, beq_iff_eq, bne_iff_ne]
  tauto

variable {peer : ν → Peer δ} {n : Nat} {net : Net ν (Fw δ) HxbEnvelope}
  {event : Event ν Locals (Locals × Step δ)}

/-- An event in which no node takes a step. -/
theorem idle_event (h : stepOf peer net event = none) :
    ((peers peer n).step event net).nodes = net.nodes ∧ (peers peer n).sent net event = [] := by
  cases event with
  | lose place => exact ⟨rfl, rfl⟩
  | act node action => cases h
  | deliver node place loc =>
    cases hplace : net.flight[place]? with
    | none => simp only [Protocol.step, Protocol.sent, hplace, and_self]
    | some envelope =>
      simp only [stepOf, hplace] at h
      split at h
      · rename_i hself
        have hsame : (peers peer n).receive node loc envelope (net.nodes node) =
            (net.nodes node, []) := if_pos hself
        simp only [Protocol.step, Protocol.sent, hplace, hsame]
        exact ⟨Function.update_eq_self node net.nodes, trivial⟩
      · cases h

/-- An event in which a node takes a step. -/
theorem busy_event {node : ν} {loc : Locals} {a : Step δ}
    (h : stepOf peer net event = some (node, loc, a)) :
    ((peers peer n).step event net).nodes = Function.update net.nodes node
        (Firmware.step (peer node).endpoints.chain loc (n + 1) a (net.nodes node)) ∧
      (peers peer n).sent net event = (peer node).multicasts a (net.nodes node)
        (Firmware.step (peer node).endpoints.chain loc (n + 1) a (net.nodes node)) := by
  cases event with
  | lose place => cases h
  | act node' action =>
    cases h
    exact ⟨rfl, rfl⟩
  | deliver node' place loc' =>
    cases hplace : net.flight[place]? with
    | none => simp only [stepOf, hplace, reduceCtorEq] at h
    | some envelope =>
      simp only [stepOf, hplace] at h
      split at h
      · cases h
      · rename_i hother
        cases h
        have hreceive : (peers peer n).receive node loc envelope (net.nodes node) =
            (peer node).step n loc (.info envelope) (net.nodes node) := if_neg hother
        simp only [Protocol.step, Protocol.sent, hplace, hreceive]
        exact ⟨rfl, rfl⟩

theorem added_self (s : Fw δ) : added s s = [] := by
  rw [added, List.drop_length]

/-- The Reset-IDs among what a step sends to the group. -/
theorem filter_multicasts (peer : Peer δ) (loc : Locals) (a : Step δ) {s s' : Fw δ}
    (h : Accounted loc a s s') : (peer.multicasts a s s').filter isResetId =
      if announces s a then
        [{ resetIdEnvelope loc s with src_ip := peer.ip, src_port := hxbPort }] else [] := by
  have hkind : isResetId ∘ (fun envelope : HxbEnvelope =>
      { envelope with src_ip := peer.ip, src_port := hxbPort }) = isResetId := rfl
  rw [Peer.multicasts, List.filter_map, hkind, h.resetIds]
  split <;> rfl

/-- What an admissible event does at the node that takes a step. -/
theorem accounted_of_admissible (hwait : Waiting net) (h : Admissible peer n net event)
    {node : ν} {loc : Locals} {a : Step δ} (hstep : stepOf peer net event = some (node, loc, a)) :
    Accounted loc a (net.nodes node)
      (Firmware.step (peer node).endpoints.chain loc (n + 1) a (net.nodes node)) := by
  refine step_accounted a (hwait node) ?_ (h.1 node loc a hstep)
  rintro rfl
  cases event with
  | lose place => cases hstep
  | act node' action =>
    obtain ⟨loc', a'⟩ := action
    cases hstep
    exact (h.2 _ _ _ rfl).1 rfl
  | deliver node' place loc' =>
    simp only [stepOf] at hstep
    split at hstep
    · cases hstep
    · split at hstep <;> cases hstep

theorem Waiting.step (hwait : Waiting net) (h : Admissible peer n net event) :
    Waiting ((peers peer n).step event net) := by
  cases hstep : stepOf peer net event with
  | none =>
    intro node
    rw [(idle_event (n := n) hstep).1]
    exact hwait node
  | some next =>
    obtain ⟨node', loc, a⟩ := next
    intro node
    rw [(busy_event (n := n) hstep).1]
    by_cases hnode : node = node'
    · subst hnode
      rw [Function.update_self]
      exact (accounted_of_admissible hwait h hstep).waiting
    · rw [Function.update_of_ne hnode]
      exact hwait node

/-- A node that does not take the step of an event stays as it is. -/
theorem nodes_of_other {node : ν}
    (h : ∀ loc a, stepOf peer net event ≠ some (node, loc, a)) :
    ((peers peer n).step event net).nodes node = net.nodes node := by
  cases hstep : stepOf peer net event with
  | none => rw [(idle_event hstep).1]
  | some next =>
    obtain ⟨node', loc, a⟩ := next
    rw [(busy_event hstep).1, Function.update_of_ne]
    rintro rfl
    exact h loc a hstep

/-- A machine is restarted by the packet it obeys. -/
theorem resets_iff {node : ν} {loc : Locals} {a : Step δ} (h : Admissible peer n net event)
    (hstep : stepOf peer net event = some (node, loc, a)) :
    Resets peer net node event ↔ obeys (net.nodes node) a = true := by
  cases event with
  | lose place => cases hstep
  | act node' action =>
    obtain ⟨loc', a'⟩ := action
    cases hstep
    have hnone : obeys (net.nodes node) a' = false := by
      cases a' with
      | info envelope => exact absurd rfl ((h.2 _ _ _ rfl).2 envelope)
      | _ => rfl
    rw [hnone]
    exact iff_of_false id Bool.false_ne_true
  | deliver node' place loc' =>
    cases hplace : net.flight[place]? with
    | none => simp only [stepOf, hplace, reduceCtorEq] at hstep
    | some envelope =>
      simp only [stepOf, hplace] at hstep
      split at hstep
      · cases hstep
      · rename_i hother
        cases hstep
        simp only [Resets, hplace, Option.some.injEq, exists_eq_left', true_and, obeys,
          Bool.and_eq_true, isOwnReset_iff]
        tauto

/-- A packet that resets a machine is taken by it. -/
theorem stepOf_of_resets {node : ν} (h : Resets peer net node event) :
    ∃ loc envelope, stepOf peer net event = some (node, loc, .info envelope) := by
  cases event with
  | lose place => cases h
  | act node' action => cases h
  | deliver receiver place loc =>
    obtain ⟨rfl, envelope, hplace, hself, -⟩ := h
    refine ⟨loc, envelope, ?_⟩
    simp only [stepOf, hplace, if_neg hself]

/-- The thread evaluates a packet behind the restart that it may cause. -/
theorem threadInput_entered (chain : EndpointChain (Dev δ)) (loc : Locals)
    (post : UInt8 → EventData → Fw δ → Fw δ) (envelope : HxbEnvelope) (s : Fw δ) :
    threadInput chain loc post envelope { note (.handed envelope) s with pstate := .called } =
      evaluateInput chain loc post envelope
        (if isOwnReset s envelope then restarted envelope s else entered envelope s) := by
  -- the kernel's entry of the process does not matter to the packet
  have hsame : isOwnReset { note (.handed envelope) s with pstate := .called } envelope =
      isOwnReset s envelope := rfl
  have hrestart : note (.moved 0) (smRestart
      { note (.handed envelope) s with pstate := .called }) = restarted envelope s := by
    unfold restarted note smRestart smStart smStop smIsRunning
    simp
  unfold threadInput evaluateInput
  rw [hsame, hrestart]
  rfl

/-- The machine of a node that waits takes a packet. -/
theorem taken {node : ν} {loc : Locals} {envelope : HxbEnvelope} (hwait : Waiting net)
    (h : Admissible peer n net event)
    (hstep : stepOf peer net event = some (node, loc, .info envelope)) :
    ((peers peer n).step event net).nodes node =
      if smIsRunning (net.nodes node) then
        (peer node).evaluated n loc envelope
          (if isOwnReset (net.nodes node) envelope then restarted envelope (net.nodes node)
          else entered envelope (net.nodes node))
      else note (.handed envelope) (net.nodes node) := by
  have hdistinct := (h.1 node loc _ hstep).now
  rw [(busy_event hstep).1, Function.update_self, smIsRunning_eq (hwait node)]
  by_cases hrun : (net.nodes node).pstate = .running
  · rw [step_info hrun hdistinct, threadInput_entered, if_pos (decide_eq_true hrun)]
    rfl
  · rw [if_neg (by simpa using hrun)]
    exact @callProcess_refused _ (peer node).endpoints.chain loc n
      (net.nodes node).smHandleInputEvent (.input envelope)
      (note (.handed envelope) (net.nodes node)) hrun

/-- The machine of a node that waits sends its Reset-ID. -/
theorem initialized {node : ν} {loc : Locals} {a : Step δ} (hwait : Waiting net)
    (h : Admissible peer n net event) (hstep : stepOf peer net event = some (node, loc, a))
    (hannounces : announces (net.nodes node) a = true) :
    ∃ overflow, ((peers peer n).step event net).nodes node =
      (peer node).initialized n loc (announced loc overflow (net.nodes node)) := by
  have hdistinct := (h.1 node loc _ hstep).now
  rw [(busy_event hstep).1, Function.update_self]
  cases a with
  | udp up =>
    simp only [announces, Bool.and_eq_true, smIsRunning_eq (hwait node), decide_eq_true_iff,
      Bool.not_eq_true'] at hannounces
    obtain ⟨⟨rfl, hrun⟩, hzero⟩ := hannounces
    obtain ⟨overflow, hbroadcast⟩ := @broadcastValue_ownResetId _ (peer node).endpoints loc n
      { net.nodes node with pstate := .called } ProcessState.noConfusion
    refine ⟨overflow, ?_⟩
    rw [step_udpUp hrun hdistinct]
    unfold threadUdpUp
    rw [if_neg (by simp [hzero]), hbroadcast]
    rfl
  | _ => cases hannounces

/-- **The event lemma**. -/
theorem eventWell (hwait : Waiting net) (h : Admissible peer n net event) :
    EventWell peer n net event := by
  constructor
  case sends =>
    cases hstep : stepOf peer net event with
    | none =>
      rw [(idle_event hstep).2]
      cases event with
      | act node action => cases hstep
      | _ => rfl
    | some next =>
      obtain ⟨node, loc, a⟩ := next
      rw [(busy_event hstep).2,
        filter_multicasts _ loc a (accounted_of_admissible hwait h hstep)]
      cases event with
      | lose place => cases hstep
      | act node' action =>
        obtain ⟨loc', a'⟩ := action
        cases hstep
        rfl
      | deliver node' place loc' =>
        -- a packet sends no Reset-ID
        have hnone : announces (net.nodes node) a = false := by
          simp only [stepOf] at hstep
          split at hstep
          · cases hstep
          · split at hstep
            · cases hstep
            · cases hstep
              rfl
        rw [hnone]
        rfl
  case reset =>
    intro node hresets
    obtain ⟨loc, envelope, hstep⟩ := stepOf_of_resets hresets
    have hobeys : smIsRunning (net.nodes node) = true ∧
        isOwnReset (net.nodes node) envelope = true := by
      have hobeys := (resets_iff h hstep).mp hresets
      rwa [obeys, Bool.and_eq_true] at hobeys
    refine ⟨loc, envelope, hstep, ?_⟩
    rw [taken hwait h hstep, if_pos hobeys.1, if_pos hobeys.2]
  case kept =>
    intro node loc envelope hresets hstep
    have hobeys : ¬ (smIsRunning (net.nodes node) = true ∧
        isOwnReset (net.nodes node) envelope = true) := by
      rwa [resets_iff h hstep, obeys, Bool.and_eq_true] at hresets
    rw [taken hwait h hstep]
    by_cases hrun : smIsRunning (net.nodes node) = true
    · rw [if_pos hrun, if_pos hrun, if_neg fun hreset => hobeys ⟨hrun, hreset⟩]
    · rw [if_neg hrun, if_neg hrun]
  case announces =>
    rintro node loc a rfl hannounces
    exact initialized hwait h rfl hannounces
  case elsewhere => exact fun node hother => nodes_of_other hother
  case restarts =>
    intro node
    by_cases hbusy : ∃ loc a, stepOf peer net event = some (node, loc, a)
    · obtain ⟨loc, a, hstep⟩ := hbusy
      have hrestarts := (accounted_of_admissible hwait h hstep).restarts
      rw [(busy_event hstep).1, Function.update_self, resets_iff h hstep, hrestarts]
      exact ⟨fun hobeys => if_pos hobeys, fun hobeys => if_neg hobeys⟩
    · have hother : ∀ loc a, stepOf peer net event ≠ some (node, loc, a) :=
        fun loc a hstep => hbusy ⟨loc, a, hstep⟩
      refine ⟨fun hresets => ?_, fun _ => ?_⟩
      · obtain ⟨loc, envelope, hstep⟩ := stepOf_of_resets hresets
        exact absurd hstep (hother loc _)
      · rw [nodes_of_other hother, added_self]
        rfl

/-! ## Every run -/

/-- **No reset storm**. In every run along distinct event numbers, as many Reset-IDs are sent as
the network has come up for a running machine with an id; and every event sends the Reset-ID of
such a machine or none, and restarts the machines whose id it brings. -/
theorem no_reset_storm (peer : ν → Peer δ) (n : Nat) (nodes : ν → Fw δ)
    (flight : List HxbEnvelope) (events : List (Event ν Locals (Locals × Step δ)))
    (hwait : ∀ node, (nodes node).pstate ≠ .called)
    (h : Meets (peers peer n).step (Admissible peer n) (Net.start nodes flight) events) :
    (((peers peer n).sentAlong (Net.start nodes flight) events).filter isResetId).length =
        (peers peer n).eventsAlong comesUp (Net.start nodes flight) events ∧
      ∀ earlier event later, events = earlier ++ event :: later →
        EventWell peer n (run (peers peer n).step (Net.start nodes flight) earlier) event := by
  have hstart : Waiting (Net.start nodes flight) := hwait
  have hstep : ∀ net event, Waiting net → Admissible peer n net event →
      Waiting ((peers peer n).step event net) := fun _ _ hnet hevent => hnet.step hevent
  constructor
  · refine Protocol.length_filter_sentAlong hstep (fun net event hnet hevent => ?_) hstart h
    rw [(eventWell hnet hevent).sends]
    cases event with
    | act node action =>
      obtain ⟨loc, a⟩ := action
      show List.length (if announces (net.nodes node) a then _ else []) =
        if announces (net.nodes node) a then 1 else 0
      split <;> rfl
    | _ => rfl
  · rintro earlier event later rfl
    obtain ⟨hnet, hevent⟩ := Meets.at hstep hstart h
    exact eventWell hnet hevent

/-! ## Two devices -/

/-- A device with no other endpoint. -/
def bareEndpoints : SocketEndpoints Unit where
  chain := [endpointSmReset]
  resetId := rfl
  silent := by
    intro eid envelope dev eeprom hmem
    unfold EndpointChain.endpointWrite at hmem
    split at hmem
    · cases hmem
    · by_cases heid : epSmResetId = eid
      · subst heid
        cases hmem
      · have hnone : EndpointChain.findDescriptor [endpointSmReset (δ := Unit)] eid = none :=
          List.find?_eq_none.mpr fun ep hep => by
            rw [List.mem_singleton.mp hep]
            simpa [endpointSmReset] using heid
        rw [hnone] at hmem
        cases hmem

theorem zeroIp_ne : Block.zero 16 ≠ localhost := by decide

theorem hxbGroup_ne : hxbGroup ≠ localhost := by decide

/-- Two devices; the addresses only have to differ. -/
def twoPeers : Bool → Peer Unit
  | true => ⟨hxbGroup, bareEndpoints, hxbGroup_ne⟩
  | false => ⟨Block.zero 16, bareEndpoints, zeroIp_ne⟩

/-- A machine with an id; no transition leaves its first state. -/
def machine (pstate : ProcessState) : Fw Unit where
  eeprom _ := 1
  transLength := 0
  dtTransLength := 0
  curState := 0
  inStateSince := 0
  dtValid := false
  smHandleInputEvent := 0x8d
  udpHandlerEvent := 0x8c
  lastevent := 0x8e
  pstate := pstate
  timestamp := 0
  currentDt := ⟨0, 0, 0, 0, 0, 0, 0⟩
  timeValid := false
  dev := ()
  stackOverflow := false
  log := []

def unsetLocals : Locals where
  eidEnv := ⟨Block.zero 16, 0, 0, ⟨0, Block.zero 8, []⟩⟩
  dtenvelope := ⟨Block.zero 16, 0, 0, ⟨0, Block.zero 8, []⟩⟩
  value := ⟨0, Block.zero 8, []⟩

/-- The network comes up for one device, and the other one hears of it. -/
def upAndHeard : List (Event Bool Locals (Locals × Step Unit)) :=
  [.act false (unsetLocals, .udp true), .deliver true 0 unsetLocals]

/-- What the other device hears. -/
def heardResetId : HxbEnvelope where
  src_ip := Block.zero 16
  src_port := hxbPort
  eid := epSmResetId
  value := ⟨DataType.bytes16.code, Block.zero 8, List.replicate 16 1⟩

/-- No transition leaves the first state of the machine that is restarted. -/
theorem heard_post (post post' : UInt8 → EventData → Fw Unit → Fw Unit) :
    threadInput bareEndpoints.chain unsetLocals post heardResetId
      { note (.handed heardResetId) (machine .running) with pstate := .called } =
    threadInput bareEndpoints.chain unsetLocals post' heardResetId
      { note (.handed heardResetId) (machine .running) with pstate := .called } := by
  have hquiet : ∀ post, evaluateInput bareEndpoints.chain unsetLocals post heardResetId
      (restarted heardResetId (machine .running)) = note (.finished heardResetId 0)
        (note (.evaluated heardResetId 0) (restarted heardResetId (machine .running))) := by
    intro post
    have hnone := @checkTransitions_none _ (writeEndpoint bareEndpoints.chain unsetLocals post)
      unsetLocals.eidEnv false (some heardResetId)
      (note (.evaluated heardResetId 0) (restarted heardResetId (machine .running))) 1 0 (by
        intro j _ hj
        obtain rfl : j = 0 := by omega
        decide)
    exact congrArg (fun r : Fw Unit × List Nat => note (.finished heardResetId r.1.curState) r.1)
      hnone
  rw [threadInput_entered, threadInput_entered]
  rw [if_pos (by decide), hquiet, hquiet]

theorem heard_distinct : DistinctAlong bareEndpoints.chain unsetLocals 2 (.info heardResetId)
    (machine .running) :=
  @distinctAlong_info _ bareEndpoints _ _ _ _ rfl (by decide) heard_post

theorem upAndHeard_admissible :
    Meets (peers twoPeers 1).step (Admissible twoPeers 1)
      (Net.start (fun _ => machine .running) []) upAndHeard := by
  refine ⟨⟨?_, ?_⟩, ⟨?_, ?_⟩, trivial⟩
  · intro node loc a hstep
    cases hstep
    exact ⟨by decide, rfl⟩
  · intro node loc a heq
    cases heq
    exact ⟨(fun h => by cases h), (fun _ h => by cases h)⟩
  · intro node loc a hstep
    cases hstep
    exact heard_distinct
  · intro node loc a heq
    cases heq

/-- A running machine sends its Reset-ID, which restarts the other one. -/
theorem upAndHeard_well :
    (((peers twoPeers 1).sentAlong (Net.start (fun _ => machine .running) [])
        upAndHeard).filter isResetId).length =
        (peers twoPeers 1).eventsAlong comesUp (Net.start (fun _ => machine .running) [])
          upAndHeard ∧
      ∀ earlier event later, upAndHeard = earlier ++ event :: later →
        EventWell twoPeers 1 (run (peers twoPeers 1).step
          (Net.start (fun _ => machine .running) []) earlier) event :=
  no_reset_storm twoPeers 1 (fun _ => machine .running) [] upAndHeard
    (fun _ => ProcessState.noConfusion) upAndHeard_admissible

/-- The network comes up for a device with an id. -/
def comesUpWithId (net : Net Bool (Fw Unit) HxbEnvelope) :
    Event Bool Locals (Locals × Step Unit) → Bool
  | .act node (_, .udp true) => !smIdIsZero (net.nodes node).eeprom
  | _ => false

/-- The network comes up for one device. -/
def firstUp : List (Event Bool Locals (Locals × Step Unit)) :=
  [.act false (unsetLocals, .udp true)]

theorem firstUp_admissible : Meets (peers twoPeers 1).step (Admissible twoPeers 1)
    (Net.start (fun _ => machine .none) []) firstUp := by
  refine ⟨⟨?_, ?_⟩, trivial⟩
  · intro node loc a hstep
    cases hstep
    exact ⟨by decide, rfl⟩
  · intro node loc a heq
    cases heq
    exact ⟨(fun h => by cases h), (fun _ h => by cases h)⟩

/-- A stopped machine sends none, though its network comes up and it has an id. -/
theorem firstUp_stopped :
    Meets (peers twoPeers 1).step (Admissible twoPeers 1)
        (Net.start (fun _ => machine .none) []) firstUp ∧
      (((peers twoPeers 1).sentAlong (Net.start (fun _ => machine .none) []) firstUp).filter
          isResetId).length ≠
        (peers twoPeers 1).eventsAlong comesUpWithId (Net.start (fun _ => machine .none) [])
          firstUp :=
  ⟨firstUp_admissible, by decide⟩

end Hexabus.Firmware
