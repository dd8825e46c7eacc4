import Hexabus.Host.Hexinfo

/-!
# What a discovery finds

The devices and the endpoints that `hexinfo.cpp` holds when it has queried all devices: sets, in
the order of their keys, whatever arrives while it waits.
-/

namespace Hexabus.Host.Hexinfo

open Filtering

/-! ## Sets -/

/-- In the order of the keys, each of them once. -/
def Ordered {α : Type} (key : α → Nat) (l : List α) : Prop := l.Pairwise fun x y => key x < key y

instance {α : Type} (key : α → Nat) (l : List α) : Decidable (Ordered key l) :=
  inferInstanceAs (Decidable (l.Pairwise fun x y => key x < key y))

theorem Ordered.insertBy {α : Type} {key : α → Nat} {l : List α} (h : Ordered key l) (x : α) :
    Ordered key (insertBy key x l) := by
  induction l with
  | nil => exact List.pairwise_singleton _ x
  | cons y l ih =>
    obtain ⟨hy, hl⟩ := List.pairwise_cons.mp h
    unfold Hexinfo.insertBy
    split
    next hlt =>
      refine List.pairwise_cons.mpr ⟨fun z hz => ?_, h⟩
      rcases List.mem_cons.mp hz with rfl | hz
      · exact hlt
      · exact Nat.lt_trans hlt (hy z hz)
    split
    next hlt =>
      refine List.pairwise_cons.mpr ⟨fun z hz => ?_, ih hl⟩
      rcases of_mem_insertBy hz with rfl | hz
      · exact hlt
      · exact hy z hz
    · exact h

theorem Ordered.nodup {α : Type} {key : α → Nat} {l : List α} (h : Ordered key l) : l.Nodup := by
  refine h.imp fun hlt => ?_
  rintro rfl
  exact Nat.lt_irrefl _ hlt

/-- `devices` and `endpoints`. -/
structure Found where
  devices : List DeviceDescriptor
  endpoints : List EndpointDescriptor
  devicesOrdered : Ordered (fun dev => addressOrder dev.ipv6Address) devices
  endpointsOrdered : Ordered (fun ep => ep.eid.toNat) endpoints
  idsOrdered : ∀ dev ∈ devices, Ordered UInt32.toNat dev.endpointIds

/-! ## While a device is queried -/

/-- The ids of the device and the endpoints are sets. -/
structure Query.InOrder (s : Query) : Prop where
  ids : Ordered UInt32.toNat s.device.endpointIds
  endpoints : Ordered (fun ep => ep.eid.toNat) s.endpoints

theorem Ordered.insertBits {ids : List UInt32} (h : Ordered UInt32.toNat ids) (eid : UInt32)
    (n i : Nat) (val : UInt32) : Ordered UInt32.toNat (insertBits eid n i val ids) := by
  induction n generalizing i val ids with
  | zero => exact h
  | succ n ih =>
    unfold Hexinfo.insertBits
    dsimp only
    split
    · exact ih (h.insertBy _) (i + 1) (val >>> 1)
    · exact ih h (i + 1) (val >>> 1)

theorem Query.InOrder.infoCallback {s : Query} (h : s.InOrder) (p : Packet) :
    (infoCallback p s).InOrder := by
  unfold Hexinfo.infoCallback
  split
  · dsimp only
    split
    · exact ⟨h.ids, h.endpoints⟩
    · exact ⟨h.ids, h.endpoints.insertBy _⟩
  · dsimp only
    split
    · exact ⟨h.ids.insertBits _ 31 1 _, h.endpoints⟩
    · exact ⟨h.ids, h.endpoints⟩
  · exact h

theorem Query.InOrder.sendAndWait {s : Query} (h : s.InOrder) (schedule : Schedule)
    (p : Packet) : (sendAndWait schedule p s).InOrder := by
  have hrun : ∀ (packets : List (Address × Packet)) (s : Query), s.InOrder →
      (packets.foldl onInfo s).InOrder := by
    intro packets
    induction packets with
    | nil => exact fun s h => h
    | cons packet packets ih =>
      refine fun s h => ih (onInfo s packet) ?_
      unfold onInfo
      split
      · exact h.infoCallback packet.2
      · exact h
  have hend := hrun (schedule s.waits) { s with sent := s.sent ++ [(s.device.ipv6Address, p)] }
    ⟨h.ids, h.endpoints⟩
  exact ⟨hend.ids, hend.endpoints⟩

theorem Query.InOrder.retry {s : Query} (h : s.InOrder) (schedule : Schedule)
    (p : Packet) (n : Nat) : (retry schedule p n s).InOrder := by
  induction n generalizing s with
  | zero => exact h
  | succ n ih =>
    unfold Hexinfo.retry
    split
    · exact h
    · exact ih (h.sendAndWait schedule p)

theorem Query.InOrder.queryEndpoints {s : Query} (h : s.InOrder) (schedule : Schedule) (n : Nat)
    (epsToQuery : List UInt32) : (queryEndpoints schedule n epsToQuery s).InOrder := by
  induction n generalizing s epsToQuery with
  | zero => exact h
  | succ n ih =>
    cases epsToQuery with
    | nil => exact h
    | cons eid epsToQuery =>
      exact ih (Query.InOrder.sendAndWait (s := { s with received := false })
        ⟨h.ids, h.endpoints⟩ schedule _) _

theorem inOrder_queryDevice (schedule : Schedule) (address : Address)
    {endpoints : List EndpointDescriptor} (h : Ordered (fun ep => ep.eid.toNat) endpoints)
    (waits : Nat) (sent : List (Address × Packet)) :
    (queryDevice schedule address endpoints waits sent).InOrder := by
  have hblocks : ∀ (blocks : List UInt32) (s : Query), s.InOrder →
      (blocks.foldl (queryBlock schedule) s).InOrder := by
    intro blocks
    induction blocks with
    | nil => exact fun s h => h
    | cons epDesc blocks ih =>
      exact fun s h => ih _ (Query.InOrder.retry (s := { s with received := false })
        ⟨h.ids, h.endpoints⟩ schedule _ numRetries)
  have hstart : (⟨⟨address, [], []⟩, endpoints, false, waits, sent⟩ : Query).InOrder :=
    ⟨List.Pairwise.nil, h⟩
  exact (hblocks blocks _ (hstart.retry schedule _ numRetries)).queryEndpoints schedule _ _

/-! ## The whole discovery -/

/-- The addresses that answer the discovery. -/
def addressesOf (schedule : Schedule) : List Address :=
  (schedule 0).foldl
    (fun addresses packet =>
      if passes descriptorFilter packet.2 then insertBy addressOrder packet.1 addresses
      else addresses) []

/-- `endpoints`, behind the loop over the addresses. -/
def endpointsOf (schedule : Schedule) (endpoints : List EndpointDescriptor) (waits : Nat)
    (sent : List (Address × Packet)) : List Address → List EndpointDescriptor
  | [] => endpoints
  | address :: addresses =>
    let s := queryDevice schedule address endpoints waits sent
    endpointsOf schedule s.endpoints s.waits s.sent addresses

section
variable (schedule : Schedule) {endpoints : List EndpointDescriptor}

theorem ordered_endpointsOf (h : Ordered (fun ep => ep.eid.toNat) endpoints) (waits : Nat)
    (sent : List (Address × Packet)) (addresses : List Address) :
    Ordered (fun ep => ep.eid.toNat) (endpointsOf schedule endpoints waits sent addresses) := by
  induction addresses generalizing endpoints waits sent with
  | nil => exact h
  | cons address addresses ih =>
    exact ih (inOrder_queryDevice schedule address h waits sent).endpoints _ _

theorem ordered_queryDevices (h : Ordered (fun ep => ep.eid.toNat) endpoints) (waits : Nat)
    (sent : List (Address × Packet)) (addresses : List Address) :
    ∀ turn ∈ queryDevices schedule endpoints waits sent addresses,
      Ordered UInt32.toNat turn.device.endpointIds := by
  induction addresses generalizing endpoints waits sent with
  | nil => exact fun _ h => absurd h List.not_mem_nil
  | cons address addresses ih =>
    have hquery := inOrder_queryDevice schedule address h waits sent
    exact List.forall_mem_cons.mpr ⟨hquery.ids, ih hquery.endpoints _ _⟩

theorem ordered_devices {turns : List Turn}
    (h : ∀ turn ∈ turns, Ordered UInt32.toNat turn.device.endpointIds) :
    Ordered (fun dev => addressOrder dev.ipv6Address) (devices turns) ∧
      ∀ dev ∈ devices turns, Ordered UInt32.toNat dev.endpointIds := by
  have hrun : ∀ (turns : List Turn) (found : List DeviceDescriptor),
      (∀ turn ∈ turns, Ordered UInt32.toNat turn.device.endpointIds) →
      Ordered (fun dev => addressOrder dev.ipv6Address) found →
      (∀ dev ∈ found, Ordered UInt32.toNat dev.endpointIds) →
      Ordered (fun dev => addressOrder dev.ipv6Address)
        (turns.foldl (fun devices turn =>
          insertBy (fun device => addressOrder device.ipv6Address) turn.device devices) found) ∧
      ∀ dev ∈ turns.foldl (fun devices turn =>
          insertBy (fun device => addressOrder device.ipv6Address) turn.device devices) found,
        Ordered UInt32.toNat dev.endpointIds := by
    intro turns
    induction turns with
    | nil => exact fun found _ hfound hids => ⟨hfound, hids⟩
    | cons turn turns ih =>
      intro found h hfound hids
      rw [List.forall_mem_cons] at h
      refine ih _ h.2 (hfound.insertBy _) fun dev hdev => ?_
      rcases of_mem_insertBy hdev with rfl | hdev
      · exact h.1
      · exact hids dev hdev
  exact hrun turns [] h List.Pairwise.nil fun _ h => absurd h List.not_mem_nil

/-- **What a discovery finds**, whatever arrives in it. -/
def Found.discovered (group : Address) : Found where
  devices := Hexinfo.devices (discover schedule group)
  endpoints := endpointsOf schedule [] 1 (List.replicate 3 (group, .query epDeviceDescriptor 0))
    (addressesOf schedule)
  devicesOrdered :=
    (ordered_devices (ordered_queryDevices schedule List.Pairwise.nil _ _ _)).1
  endpointsOrdered := ordered_endpointsOf schedule List.Pairwise.nil _ _ _
  idsOrdered := (ordered_devices (ordered_queryDevices schedule List.Pairwise.nil _ _ _)).2

end

end Hexabus.Host.Hexinfo
