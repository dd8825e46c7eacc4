import Hexabus.Host.Hexinfo

/-!
# Whose replies

What `hexinfo` stores of a device is what it hears while it queries the device. The filter of
the callback does not look at the sender, so what others say in that time is stored as well.
-/

namespace Hexabus.Host.Hexinfo

open Lib.Bitmap Lib.Bytes Filtering

/-! ## What a packet tells -/

/-- The packet is the value of a descriptor, and tells of the endpoint `x`. -/
def Tells (p : Packet) (x : UInt32) : Prop :=
  ∃ eid value flags i, p = .info eid (.uint32 value) flags ∧ eid % 32 = 0 ∧ 0 < i ∧ i < 32 ∧
    bit value i = true ∧ x = eid + UInt32.ofNat i

/-- The name of a device in a packet. -/
def toldName? : Packet → Option (List UInt8)
  | .endpointInfo eid _ value _ => if eid = epDeviceDescriptor then some value.bytes else none
  | _ => none

/-- The last name in some packets, or the one before. -/
def lastName (packets : List (Address × Packet)) (before : List UInt8) : List UInt8 :=
  (packets.filterMap fun packet => toldName? packet.2).getLast?.getD before

theorem tells_info (eid value : UInt32) (flags : UInt8) (x : UInt32) :
    Tells (.info eid (.uint32 value) flags) x ↔
      eid % 32 = 0 ∧ ∃ i, 0 < i ∧ i < 32 ∧ bit value i = true ∧ x = eid + UInt32.ofNat i := by
  constructor
  · rintro ⟨_, _, _, i, heq, heid, hpos, hi, hbit, hx⟩
    cases heq
    exact ⟨heid, i, hpos, hi, hbit, hx⟩
  · rintro ⟨heid, i, hpos, hi, hbit, hx⟩
    exact ⟨eid, value, flags, i, rfl, heid, hpos, hi, hbit, hx⟩

/-- The callback passes the other packets over. -/
theorem onInfo_other {s : Query} {packet : Address × Packet}
    (h : infoCallback packet.2 s = s) : onInfo s packet = s := by
  unfold onInfo
  rw [h, ite_self]

/-- What a packet from anyone changes. -/
structure Learns (p : Packet) (d d' : DeviceDescriptor) : Prop where
  address : d'.ipv6Address = d.ipv6Address
  ids : ∀ x, x ∈ d'.endpointIds ↔ x ∈ d.endpointIds ∨ Tells p x
  name : d'.name = (toldName? p).getD d.name

theorem learns_nothing {p : Packet} (hids : ∀ x, ¬ Tells p x) (hname : toldName? p = none)
    (d : DeviceDescriptor) : Learns p d d := by
  refine ⟨rfl, fun x => ⟨.inl, fun h => h.elim id fun h => absurd h (hids x)⟩, ?_⟩
  rw [hname]
  rfl

theorem onInfo_learns (s : Query) (packet : Address × Packet) :
    Learns packet.2 s.device (onInfo s packet).device := by
  obtain ⟨address, p⟩ := packet
  cases p with
  | info eid value flags =>
    cases value with
    | uint32 value =>
      by_cases heid : eid % 32 = 0
      · have hpasses : passes infoFilter (.info eid (.uint32 value) flags) = true := by
          rw [passes_infoFilter_info]
          exact decide_eq_true heid
        unfold onInfo
        rw [if_pos hpasses]
        unfold infoCallback
        simp only [if_pos heid]
        refine ⟨rfl, fun x => ?_, rfl⟩
        rw [mem_insertBits_value, tells_info]
        exact or_congr_right ⟨fun h => ⟨heid, h⟩, fun h => h.2⟩
      · have hpasses : ¬ passes infoFilter (.info eid (.uint32 value) flags) = true := by
          rw [passes_infoFilter_info]
          exact fun h => heid (of_decide_eq_true h)
        unfold onInfo
        rw [if_neg hpasses]
        exact learns_nothing (fun x h => heid ((tells_info ..).mp h).1) rfl _
    | _ =>
      rw [onInfo_other rfl]
      refine learns_nothing ?_ rfl _
      rintro x ⟨_, _, _, _, heq, -⟩
      cases heq
  | endpointInfo eid datatype value flags =>
    have hnone : ∀ x, ¬ Tells (.endpointInfo eid datatype value flags) x := by
      rintro x ⟨_, _, _, _, heq, -⟩
      cases heq
    unfold onInfo
    rw [if_pos (passes_infoFilter_endpointInfo ..)]
    unfold infoCallback
    by_cases heid : eid = epDeviceDescriptor
    · simp only [if_pos heid]
      refine ⟨rfl, fun x => ⟨.inl, fun h => h.elim id fun h => absurd h (hnone x)⟩, ?_⟩
      have hname : toldName? (.endpointInfo eid datatype value flags) = some value.bytes :=
        if_pos heid
      rw [hname]
      rfl
    · simp only [if_neg heid]
      exact learns_nothing hnone (if_neg heid) _
  | _ =>
    rw [onInfo_other rfl]
    refine learns_nothing ?_ rfl _
    rintro x ⟨_, _, _, _, heq, -⟩
    cases heq

theorem waits_onInfo (s : Query) (packet : Address × Packet) :
    (onInfo s packet).waits = s.waits := by
  unfold onInfo
  split
  · unfold infoCallback
    split
    · simp only
      split <;> rfl
    · simp only
      split <;> rfl
    · rfl
  · rfl

/-! ## What is heard -/

/-- From `d` to `d'` the device has learnt what the packets tell. -/
structure Hears (packets : List (Address × Packet)) (d d' : DeviceDescriptor) : Prop where
  address : d'.ipv6Address = d.ipv6Address
  ids : ∀ x, x ∈ d'.endpointIds ↔ x ∈ d.endpointIds ∨ ∃ packet ∈ packets, Tells packet.2 x
  name : d'.name = lastName packets d.name

theorem hears_nil (d : DeviceDescriptor) : Hears [] d d :=
  ⟨rfl, fun x => by simp, rfl⟩

theorem Hears.trans {packets more : List (Address × Packet)} {d d' d'' : DeviceDescriptor}
    (h : Hears packets d d') (h' : Hears more d' d'') : Hears (packets ++ more) d d'' := by
  refine ⟨h'.address.trans h.address, fun x => ?_, ?_⟩
  · rw [h'.ids, h.ids, or_assoc]
    simp only [List.mem_append, or_and_right, exists_or]
  · rw [h'.name, h.name]
    unfold lastName
    rw [List.filterMap_append, List.getLast?_append]
    cases (more.filterMap fun packet => toldName? packet.2).getLast? <;> rfl

theorem Learns.hears {packet : Address × Packet} {d d' : DeviceDescriptor}
    (h : Learns packet.2 d d') : Hears [packet] d d' := by
  refine ⟨h.address, fun x => ?_, ?_⟩
  · rw [h.ids]
    simp
  · rw [h.name]
    unfold lastName
    cases hname : toldName? packet.2 with
    | none => simp [hname]
    | some name => simp [hname]

theorem foldl_onInfo_hears (packets : List (Address × Packet)) (s : Query) :
    Hears packets s.device (packets.foldl onInfo s).device ∧
      (packets.foldl onInfo s).waits = s.waits := by
  induction packets generalizing s with
  | nil => exact ⟨hears_nil _, rfl⟩
  | cons packet packets ih =>
    obtain ⟨hhears, hwaits⟩ := ih (onInfo s packet)
    exact ⟨(onInfo_learns s packet).hears.trans hhears, hwaits.trans (waits_onInfo s packet)⟩

/-! ## The waits for one device -/

variable (schedule : Schedule)

/-- What arrives from wait `first` on, up to wait `last`. -/
def window (first last : Nat) : List (Address × Packet) :=
  (List.range' first (last - first)).flatMap schedule

/-- From `s` to `s'` the program has waited, and heard what arrived. -/
structure Waits (s s' : Query) : Prop where
  le : s.waits ≤ s'.waits
  hears : Hears (window schedule s.waits s'.waits) s.device s'.device

variable {schedule} {s s' s'' : Query}

theorem window_append {first middle last : Nat} (h : first ≤ middle) (h' : middle ≤ last) :
    window schedule first last = window schedule first middle ++ window schedule middle last := by
  obtain ⟨m, rfl⟩ := Nat.exists_eq_add_of_le h
  obtain ⟨n, rfl⟩ := Nat.exists_eq_add_of_le h'
  unfold window
  have hsum : first + m + n - first = m + n := by omega
  rw [hsum, Nat.add_sub_cancel_left, Nat.add_sub_cancel_left, ← List.flatMap_append,
    List.range'_append_1]

/-- Nothing is heard without a wait. -/
theorem Waits.still (hwaits : s'.waits = s.waits) (hdevice : s'.device = s.device) :
    Waits schedule s s' := by
  refine ⟨Nat.le_of_eq hwaits.symm, ?_⟩
  have hnil : window schedule s.waits s'.waits = [] := by
    unfold window
    rw [hwaits, Nat.sub_self]
    rfl
  rw [hnil, hdevice]
  exact hears_nil _

theorem Waits.trans (h : Waits schedule s s') (h' : Waits schedule s' s'') :
    Waits schedule s s'' := by
  refine ⟨h.le.trans h'.le, ?_⟩
  rw [window_append h.le h'.le]
  exact h.hears.trans h'.hears

theorem waits_sendAndWait (p : Packet) (s : Query) :
    Waits schedule s (sendAndWait schedule p s) := by
  obtain ⟨hhears, hwaits⟩ := foldl_onInfo_hears (schedule s.waits)
    { s with sent := s.sent ++ [(s.device.ipv6Address, p)] }
  have hafter : (sendAndWait schedule p s).waits = s.waits + 1 := congrArg (· + 1) hwaits
  refine ⟨by omega, ?_⟩
  have hwindow : window schedule s.waits (sendAndWait schedule p s).waits = schedule s.waits := by
    unfold window
    rw [hafter, Nat.add_sub_cancel_left]
    simp
  rw [hwindow]
  exact hhears

theorem waits_retry (p : Packet) (n : Nat) (s : Query) :
    Waits schedule s (retry schedule p n s) := by
  induction n generalizing s with
  | zero => exact .still rfl rfl
  | succ n ih =>
    unfold retry
    split
    · exact .still rfl rfl
    · exact (waits_sendAndWait p s).trans (ih _)

theorem waits_foldl_queryBlock (blocks : List UInt32) (s : Query) :
    Waits schedule s (blocks.foldl (queryBlock schedule) s) := by
  induction blocks generalizing s with
  | nil => exact .still rfl rfl
  | cons epDesc blocks ih =>
    have hreset : Waits schedule s { s with received := false } := .still rfl rfl
    exact (hreset.trans (waits_retry _ _ _)).trans (ih _)

theorem waits_queryEndpoints (n : Nat) (epsToQuery : List UInt32) (s : Query) :
    Waits schedule s (queryEndpoints schedule n epsToQuery s) := by
  induction n generalizing epsToQuery s with
  | zero => exact .still rfl rfl
  | succ n ih =>
    cases epsToQuery with
    | nil => exact .still rfl rfl
    | cons eid epsToQuery =>
      have hreset : Waits schedule s { s with received := false } := .still rfl rfl
      exact (hreset.trans (waits_sendAndWait _ _)).trans (ih _ _)

/-- What is known of a device is what has been heard since the program turned to it. -/
theorem queryDevice_hears (address : Address) (endpoints : List EndpointDescriptor) (waits : Nat)
    (sent : List (Address × Packet)) :
    waits ≤ (queryDevice schedule address endpoints waits sent).waits ∧
      Hears (window schedule waits (queryDevice schedule address endpoints waits sent).waits)
        ⟨address, [], []⟩ (queryDevice schedule address endpoints waits sent).device := by
  let s : Query := ⟨⟨address, [], []⟩, endpoints, false, waits, sent⟩
  have h : Waits schedule s (queryDevice schedule address endpoints waits sent) :=
    ((waits_retry _ _ s).trans (waits_foldl_queryBlock _ _)).trans (waits_queryEndpoints _ _ _)
  exact ⟨h.le, h.hears⟩

/-! ## Attribution -/

variable (schedule)

/-- What arrives while a device is queried. -/
def Turn.window (turn : Turn) : List (Address × Packet) :=
  Hexinfo.window schedule turn.first turn.last

/-- What the device itself says in that time. -/
def Turn.replies (turn : Turn) : List (Address × Packet) :=
  (turn.window schedule).filter fun packet => packet.1 = turn.device.ipv6Address

/-- What is stored is what the device has said. -/
structure Attributed (turn : Turn) : Prop where
  ids : ∀ x, x ∈ turn.device.endpointIds ↔ ∃ packet ∈ turn.replies schedule, Tells packet.2 x
  name : turn.device.name = lastName (turn.replies schedule) []

/-- Nobody else tells of an endpoint that the device does not tell of itself, or says the last
name that is not the device's. -/
structure Undisturbed (turn : Turn) : Prop where
  ids : ∀ packet ∈ turn.window schedule, packet.1 ≠ turn.device.ipv6Address →
    ∀ x, Tells packet.2 x → ∃ reply ∈ turn.replies schedule, Tells reply.2 x
  name : lastName (turn.window schedule) [] = lastName (turn.replies schedule) []

variable {schedule}

theorem queryDevices_hears {endpoints : List EndpointDescriptor} {waits : Nat}
    {sent : List (Address × Packet)} {addresses : List Address} {turn : Turn}
    (h : turn ∈ queryDevices schedule endpoints waits sent addresses) :
    ∃ address, Hears (turn.window schedule) ⟨address, [], []⟩ turn.device := by
  induction addresses generalizing endpoints waits sent with
  | nil => exact absurd h List.not_mem_nil
  | cons address addresses ih =>
    rcases List.mem_cons.mp h with rfl | h
    · exact ⟨address, (queryDevice_hears address endpoints waits sent).2⟩
    · exact ih h

/-- **Attribution**. What is stored of a device is what it has said itself just when nobody
else has said more in that time. -/
theorem attributed_iff (schedule : Schedule) (group : Address) (turn : Turn)
    (h : turn ∈ discover schedule group) : Attributed schedule turn ↔ Undisturbed schedule turn := by
  obtain ⟨address, hears⟩ := queryDevices_hears h
  have hids : ∀ x, x ∈ turn.device.endpointIds ↔
      ∃ packet ∈ turn.window schedule, Tells packet.2 x := by
    intro x
    rw [hears.ids]
    exact or_iff_right List.not_mem_nil
  have hreplies : ∀ packet, packet ∈ turn.replies schedule ↔
      packet ∈ turn.window schedule ∧ packet.1 = turn.device.ipv6Address := by
    intro packet
    unfold Turn.replies
    rw [List.mem_filter, decide_eq_true_iff]
  constructor
  · rintro ⟨hown, hname⟩
    refine ⟨fun packet hpacket _ x htells => ?_, hears.name.symm.trans hname⟩
    exact (hown x).mp ((hids x).mpr ⟨packet, hpacket, htells⟩)
  · rintro ⟨hothers, hname⟩
    refine ⟨fun x => ?_, hears.name.trans hname⟩
    rw [hids]
    constructor
    · rintro ⟨packet, hpacket, htells⟩
      by_cases hsender : packet.1 = turn.device.ipv6Address
      · exact ⟨packet, (hreplies packet).mpr ⟨hpacket, hsender⟩, htells⟩
      · exact hothers packet hpacket hsender x htells
    · rintro ⟨packet, hpacket, htells⟩
      exact ⟨packet, ((hreplies packet).mp hpacket).1, htells⟩

theorem quietBytes_length : (List.replicate 16 (1 : UInt8)).length = 16 := List.length_replicate

theorem otherBytes_length : (List.replicate 16 (2 : UInt8)).length = 16 := List.length_replicate

/-- A device that is discovered and says nothing more, beside one that tells of endpoint 7. -/
def quietDevice : Address := ⟨List.replicate 16 1, quietBytes_length⟩
def otherDevice : Address := ⟨List.replicate 16 2, otherBytes_length⟩

def otherSchedule : Schedule
  | 0 => [(quietDevice, .info 0 (.uint32 1) 0)]
  | 1 => [(otherDevice, .info 0 (.uint32 0x81) 0)]
  | _ => []

def quietQuery : Query :=
  queryDevice otherSchedule quietDevice [] 1 (List.replicate 3 (quietDevice, .query 0 0))

def quietTurn : Turn := ⟨quietQuery.device, 1, quietQuery.waits⟩

theorem quietTurn_mem : quietTurn ∈ discover otherSchedule quietDevice := List.mem_cons_self

theorem quietTurn_iff : Attributed otherSchedule quietTurn ↔ Undisturbed otherSchedule quietTurn :=
  attributed_iff otherSchedule quietDevice quietTurn quietTurn_mem

/-- Endpoint 7 is stored for the device that has said nothing. -/
theorem quietTurn_not_attributed : quietTurn ∈ discover otherSchedule quietDevice ∧
    ¬ Attributed otherSchedule quietTurn := by
  refine ⟨quietTurn_mem, fun h => ?_⟩
  have hstored : 7 ∈ quietTurn.device.endpointIds := by decide +kernel
  have hnothing : quietTurn.replies otherSchedule = [] := by decide +kernel
  obtain ⟨packet, hpacket, -⟩ := (h.ids 7).mp hstored
  rw [hnothing] at hpacket
  exact List.not_mem_nil hpacket

theorem mem_foldl_insert {turns : List Turn} {device : DeviceDescriptor}
    {found : List DeviceDescriptor} (h : device ∈ turns.foldl (fun devices turn =>
      insertBy (fun device => addressOrder device.ipv6Address) turn.device devices) found) :
    device ∈ found ∨ ∃ turn ∈ turns, turn.device = device := by
  induction turns generalizing found with
  | nil => exact .inl h
  | cons turn turns ih =>
    rcases ih h with h | ⟨turn', hturn, rfl⟩
    · rcases of_mem_insertBy h with rfl | h
      · exact .inr ⟨turn, List.mem_cons_self, rfl⟩
      · exact .inl h
    · exact .inr ⟨turn', List.mem_cons_of_mem turn hturn, rfl⟩

/-- Every device in the output is that of a turn. -/
theorem mem_devices {turns : List Turn} {device : DeviceDescriptor}
    (h : device ∈ devices turns) : ∃ turn ∈ turns, turn.device = device :=
  (mem_foldl_insert h).resolve_left List.not_mem_nil

end Hexabus.Host.Hexinfo
