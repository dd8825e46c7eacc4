import Hexabus.Host.Filtering
import Hexabus.Lib.Bitmap
import Hexabus.Lib.Bytes

/-!
# Finding devices

`hexinfo.cpp`: the discovery of devices, and the queries that it sends to each of them. What
the socket hands over while the program waits for the n-th time is given by a schedule. An
error on the socket ends the program and is left out; so is the text that it prints.
-/

namespace Hexabus.Host.Hexinfo

open Lib.Bitmap Lib.Bytes Filtering

/-! ## Data -/

/-- `std::set::insert`: the elements are in the order of their keys, and an element whose key
is taken is not inserted. -/
def insertBy {α : Type} (key : α → Nat) (x : α) : List α → List α
  | [] => [x]
  | y :: ys =>
    if key x < key y then x :: y :: ys
    else if key y < key x then y :: insertBy key x ys
    else y :: ys

/-- `endpoint_descriptor`. -/
structure EndpointDescriptor where
  eid : UInt32
  datatype : UInt8
  name : List UInt8

/-- An address, without its scope. -/
abbrev Address := Block 16

/-- The order of addresses, byte by byte. -/
def addressOrder (address : Address) : Nat :=
  address.val.foldl (fun n byte => n * 256 + byte.toNat) 0

/-- `device_descriptor`. -/
structure DeviceDescriptor where
  ipv6Address : Address
  name : List UInt8
  endpointIds : List UInt32

/-- `EP_DEVICE_DESCRIPTOR`. -/
def epDeviceDescriptor : UInt32 := 0

/-! ## The callback -/

/-- The loop over `n` bits from number `i` on. -/
def insertBits (eid : UInt32) : Nat → Nat → UInt32 → List UInt32 → List UInt32
  | 0, _, _, ids => ids
  | n + 1, i, val, ids =>
    let ids := if val &&& 1 ≠ 0 then insertBy UInt32.toNat (eid + UInt32.ofNat i) ids else ids
    insertBits eid n (i + 1) (val >>> 1) ids

/-- What the program holds while it queries a device: `device`, `endpoints`, `received`, how
often it has waited, and what it has sent. -/
structure Query where
  device : DeviceDescriptor
  endpoints : List EndpointDescriptor
  received : Bool
  waits : Nat
  sent : List (Address × Packet)

/-- `InfoCallback`. -/
def infoCallback (p : Packet) (s : Query) : Query :=
  match p with
  | .endpointInfo eid datatype value _ =>
    let s :=
      if eid = epDeviceDescriptor then { s with device := { s.device with name := value.bytes } }
      else { s with
        endpoints := insertBy (fun ep => ep.eid.toNat) ⟨eid, datatype, value.bytes⟩ s.endpoints }
    { s with received := true }
  | .info eid (.uint32 value) _ =>
    let s :=
      if eid % 32 = 0 then { s with device := { s.device with
        endpointIds := insertBits eid 31 1 (value >>> 1) s.device.endpointIds } }
      else s
    { s with received := true }
  | _ => s

/-- `isInfo<uint32_t>()`. -/
def isInfoUint32 : PacketFilter Bool
  | .info _ (.uint32 _) _ => some true
  | _ => some false

/-- `isEndpointInfo()`. -/
def isEndpointInfo : PacketFilter Bool
  | .endpointInfo .. => some true
  | _ => some false

/-- `eid() % 32 == 0`. -/
def eidOfGroup : PacketFilter Bool :=
  binary (fun a b => decide (a = b)) (binary (· % ·) eid (constant 32)) (constant (0 : UInt32))

/-- The filter of the callback: it does not look at the sender. -/
def infoFilter : PacketFilter Bool :=
  Filtering.or (Filtering.and isInfoUint32 eidOfGroup) isEndpointInfo

/-- A packet is received while a device is queried. -/
def onInfo (s : Query) (packet : Address × Packet) : Query :=
  if passes infoFilter packet.2 then infoCallback packet.2 s else s

/-! ## The queries -/

/-- What arrives in each wait, with the senders. -/
abbrev Schedule := Nat → List (Address × Packet)

variable (schedule : Schedule)

/-- A packet is sent, and the program waits for 350 ms. -/
def sendAndWait (p : Packet) (s : Query) : Query :=
  let s := { s with sent := s.sent ++ [(s.device.ipv6Address, p)] }
  let s := (schedule s.waits).foldl onInfo s
  { s with waits := s.waits + 1 }

/-- `NUM_RETRIES`. -/
def numRetries : Nat := 5

/-- `while (!received && retries < NUM_RETRIES)`. -/
def retry (p : Packet) : Nat → Query → Query
  | 0, s => s
  | n + 1, s => if s.received then s else retry p n (sendAndWait schedule p s)

/-- The block of 32 endpoints from `epDesc` on. -/
def queryBlock (s : Query) (epDesc : UInt32) : Query :=
  retry schedule (.query epDesc 0) numRetries { s with received := false }

/-- The loop over `eps_to_query`. -/
def queryEndpoints : Nat → List UInt32 → Query → Query
  | 0, _, s => s
  | _, [], s => s
  | n + 1, eid :: epsToQuery, s =>
    let s := sendAndWait schedule (.endpointQuery eid 0) { s with received := false }
    queryEndpoints n (if s.received then epsToQuery.filter (· ≠ eid) else epsToQuery) s

/-- The blocks that are asked for. -/
def blocks : List UInt32 := [0, 32, 64, 96, 128, 160, 192, 224]

/-- The body of the loop over the addresses. -/
def queryDevice (address : Address) (endpoints : List EndpointDescriptor) (waits : Nat)
    (sent : List (Address × Packet)) : Query :=
  let s : Query := ⟨⟨address, [], []⟩, endpoints, false, waits, sent⟩
  let s := retry schedule (.endpointQuery epDeviceDescriptor 0) numRetries s
  let s := blocks.foldl (queryBlock schedule) s
  let epsToQuery := s.device.endpointIds.flatMap (List.replicate numRetries)
  queryEndpoints schedule epsToQuery.length epsToQuery s

/-! ## The discovery -/

/-- The filter of the discovery. -/
def descriptorFilter : PacketFilter Bool :=
  Filtering.and isInfoUint32
    (binary (fun a b => decide (a = b)) eid (constant epDeviceDescriptor))

/-- One device has been queried: from wait `first` on, up to wait `last`. -/
structure Turn where
  device : DeviceDescriptor
  first : Nat
  last : Nat

/-- The loop over the addresses, with what has been found before. -/
def queryDevices (endpoints : List EndpointDescriptor) (waits : Nat) (sent : List (Address × Packet)) :
    List Address → List Turn
  | [] => []
  | address :: addresses =>
    let s := queryDevice schedule address endpoints waits sent
    ⟨s.device, waits, s.waits⟩ :: queryDevices s.endpoints s.waits s.sent addresses

/-- `hexinfo --discover`: the first wait is that for the answers of the devices. -/
def discover (group : Address) : List Turn :=
  let addresses := (schedule 0).foldl
    (fun addresses packet =>
      if passes descriptorFilter packet.2 then insertBy addressOrder packet.1 addresses else addresses) []
  queryDevices schedule [] 1 (List.replicate 3 (group, .query epDeviceDescriptor 0)) addresses

/-- `devices`. -/
def devices (turns : List Turn) : List DeviceDescriptor :=
  turns.foldl (fun devices turn =>
    insertBy (fun device => addressOrder device.ipv6Address) turn.device devices) []

/-! ## What the callback learns -/

/-- The values of descriptors pass. -/
theorem passes_infoFilter_info (eid value : UInt32) (flags : UInt8) :
    passes infoFilter (.info eid (.uint32 value) flags) = decide (eid % 32 = 0) := by
  unfold infoFilter eidOfGroup
  rw [passes_or, passes_and, passes_comparison, binary_constant]
  exact Bool.or_false _

/-- Endpoint informations pass. -/
theorem passes_infoFilter_endpointInfo (eid : UInt32) (datatype : UInt8) (value : ValueString)
    (flags : UInt8) : passes infoFilter (.endpointInfo eid datatype value flags) = true := by
  unfold infoFilter
  rw [passes_or]
  exact Bool.or_true _

theorem of_mem_insertBy {α : Type} {key : α → Nat} {x y : α} {l : List α}
    (h : y ∈ insertBy key x l) : y = x ∨ y ∈ l := by
  induction l with
  | nil => exact .inl (List.mem_singleton.mp h)
  | cons z l ih =>
    unfold insertBy at h
    split at h
    · exact List.mem_cons.mp h
    split at h
    · rcases List.mem_cons.mp h with rfl | h
      · exact .inr List.mem_cons_self
      · exact (ih h).imp_right (List.mem_cons_of_mem z)
    · exact .inr h

theorem mem_insertBy {α : Type} {key : α → Nat} (hkey : ∀ x y, key x = key y → x = y) (x y : α)
    (l : List α) : y ∈ insertBy key x l ↔ y = x ∨ y ∈ l := by
  refine ⟨of_mem_insertBy, fun h => ?_⟩
  induction l with
  | nil => exact List.mem_singleton.mpr (h.resolve_right List.not_mem_nil)
  | cons z l ih =>
    unfold insertBy
    split
    · exact List.mem_cons.mpr h
    split
    · rcases h with rfl | h
      · exact List.mem_cons_of_mem z (ih (.inl rfl))
      · rcases List.mem_cons.mp h with rfl | h
        · exact List.mem_cons_self
        · exact List.mem_cons_of_mem z (ih (.inr h))
    · have heq : x = z := hkey x z (by omega)
      exact h.elim (fun h => h ▸ heq ▸ List.mem_cons_self) id

theorem mem_insertBits (eid : UInt32) (n i : Nat) (val : UInt32) (ids : List UInt32) (x : UInt32) :
    x ∈ insertBits eid n i val ids ↔
      x ∈ ids ∨ ∃ j, j < n ∧ bit val j = true ∧ x = eid + UInt32.ofNat (i + j) := by
  induction n generalizing i val ids with
  | zero => simp [insertBits]
  | succ n ih =>
    have hhead : x ∈ (if val &&& 1 ≠ 0 then insertBy UInt32.toNat (eid + UInt32.ofNat i) ids
        else ids) ↔ x ∈ ids ∨ bit val 0 = true ∧ x = eid + UInt32.ofNat i := by
      rw [bit_zero, decide_eq_true_iff]
      split
      · rename_i hbit
        rw [mem_insertBy fun _ _ h => UInt32.toNat_inj.mp h]
        exact ⟨fun h => h.elim (fun h => .inr ⟨hbit, h⟩) .inl,
          fun h => h.elim .inr fun h => .inl h.2⟩
      · rename_i hbit
        exact ⟨.inl, fun h => h.elim id fun h => absurd h.1 hbit⟩
    show x ∈ insertBits eid n (i + 1) (val >>> 1) _ ↔ _
    rw [ih, hhead, or_assoc]
    refine or_congr_right ⟨?_, ?_⟩
    · rintro (⟨hbit, rfl⟩ | ⟨j, hj, hbit, rfl⟩)
      · exact ⟨0, Nat.succ_pos n, hbit, rfl⟩
      · rw [bit_shiftRight] at hbit
        exact ⟨j + 1, Nat.succ_lt_succ hj, hbit, by rw [Nat.add_right_comm, Nat.add_assoc]⟩
    · rintro ⟨j, hj, hbit, rfl⟩
      cases j with
      | zero => exact .inl ⟨hbit, rfl⟩
      | succ j =>
        refine .inr ⟨j, Nat.lt_of_succ_lt_succ hj, ?_, by rw [Nat.add_right_comm, Nat.add_assoc]⟩
        rw [bit_shiftRight]
        exact hbit

/-- The ids that a value of a descriptor tells. -/
theorem mem_insertBits_value (eid value : UInt32) (ids : List UInt32) (x : UInt32) :
    x ∈ insertBits eid 31 1 (value >>> 1) ids ↔
      x ∈ ids ∨ ∃ i, 0 < i ∧ i < 32 ∧ bit value i = true ∧ x = eid + UInt32.ofNat i := by
  rw [mem_insertBits]
  refine or_congr_right ⟨?_, ?_⟩
  · rintro ⟨j, hj, hbit, rfl⟩
    rw [bit_shiftRight] at hbit
    exact ⟨j + 1, Nat.succ_pos j, by omega, hbit, by rw [Nat.add_comm]⟩
  · rintro ⟨i, hpos, hi, hbit, rfl⟩
    obtain ⟨j, rfl⟩ := Nat.exists_eq_succ_of_ne_zero (Nat.pos_iff_ne_zero.mp hpos)
    refine ⟨j, by omega, ?_, by rw [Nat.add_comm]⟩
    rw [bit_shiftRight]
    exact hbit

end Hexabus.Host.Hexinfo
