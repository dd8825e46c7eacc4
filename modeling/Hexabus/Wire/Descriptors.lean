import Hexabus.Firmware.Registry
import Hexabus.Host.Dispatch
import Hexabus.Host.Hexinfo

/-!
# Descriptors

An endpoint whose id is a multiple of 32 tells which of the 31 endpoints behind it there are.
The firmware and the host library build its value, `hexinfo` takes it apart.
-/

namespace Hexabus.Wire

open Lib.Bytes Lib.Bitmap

/-! ## The firmware -/

open Firmware in
/-- `synthesize_read_m32` collects the block. -/
theorem synthesizeReadM32_eq {σ : Type} (chain : EndpointChain σ) (e : UInt32) (value : HxbValue) :
    (chain.synthesizeReadM32 e value).datatype = DataType.uint32.code ∧
      (chain.synthesizeReadM32 e value).v_u32
        = blockMask e (chain.map EndpointDescriptor.eid) := by
  have hfold : ∀ mask : UInt32, chain.foldl
      (fun mask ep => if e ≤ ep.eid ∧ ep.eid < e + 32 then mask ||| (1 <<< (ep.eid - e))
        else mask) mask
      = collect mask (((chain.map EndpointDescriptor.eid).filter (inRange e)).map (· - e)) := by
    induction chain with
    | nil => exact fun _ => rfl
    | cons ep chain ih =>
      intro mask
      have hrange : inRange e ep.eid = true ↔ e ≤ ep.eid ∧ ep.eid < e + 32 := by
        unfold inRange
        rw [Bool.and_eq_true, decide_eq_true_iff, decide_eq_true_iff]
      rw [List.foldl_cons, ih, List.map_cons]
      by_cases hin : e ≤ ep.eid ∧ ep.eid < e + 32
      · rw [if_pos hin, List.filter_cons_of_pos (hrange.mpr hin)]
        rfl
      · rw [if_neg hin, List.filter_cons_of_neg fun h => hin (hrange.mp h)]
  refine ⟨rfl, ?_⟩
  unfold EndpointChain.synthesizeReadM32
  simp only [HxbValue.setU32_v_u32]
  exact hfold 1

/-! ## The client -/

open Host in
/-- Whatever `hexinfo` knows of a device, the descriptor adds the registered ids of its block
and no others. -/
def Recovered (registered : UInt32 → Prop) (e mask : UInt32) : Prop :=
  ∀ (s : Hexinfo.Query) (flags : UInt8) (x : UInt32),
    x ∈ (Hexinfo.onInfo s (s.device.ipv6Address, .info e (.uint32 mask) flags)).device.endpointIds
      ↔ x ∈ s.device.endpointIds ∨ InBlock e x ∧ registered x

open Host in
/-- The client walks the bits of a description. -/
theorem Described.recovered {registered : UInt32 → Prop} {e mask : UInt32} (he : e % 32 = 0)
    (h : Described registered e mask) : Recovered registered e mask := by
  intro s flags x
  have hpasses : Filtering.passes Hexinfo.infoFilter (.info e (.uint32 mask) flags) = true := by
    rw [Hexinfo.passes_infoFilter_info]
    exact decide_eq_true he
  unfold Hexinfo.onInfo
  rw [if_pos hpasses]
  unfold Hexinfo.infoCallback
  simp only [if_pos he, Hexinfo.mem_insertBits_value]
  refine or_congr_right ⟨?_, ?_⟩
  · rintro ⟨i, hpos, hi, hbit, rfl⟩
    exact ⟨⟨i, hpos, hi, rfl⟩, (h.others i hpos hi).mp hbit⟩
  · rintro ⟨⟨i, hpos, hi, rfl⟩, hregistered⟩
    exact ⟨i, hpos, hi, (h.others i hpos hi).mpr hregistered, rfl⟩

/-! ## The three together -/

/-- The value describes the block, and the client finds in it what is registered. -/
structure Answers (registered : UInt32 → Prop) (e mask : UInt32) : Prop where
  described : Described registered e mask
  recovered : Recovered registered e mask

theorem answers_iff {registered : UInt32 → Prop} {e mask : UInt32} (he : e % 32 = 0) :
    Answers registered e mask ↔ Described registered e mask :=
  ⟨Answers.described, fun h => ⟨h, h.recovered he⟩⟩

open Firmware in
/-- The endpoint is registered in the firmware. -/
def RegisteredIn {σ : Type} (chain : EndpointChain σ) (eid : UInt32) : Prop :=
  ∃ ep ∈ chain, ep.eid = eid

open Firmware in
/-- The firmware answers a read of `e`. -/
def FirmwareAnswers {σ : Type} (chain : EndpointChain σ) (e : UInt32) (value : HxbValue) (s : σ) :
    Prop :=
  ∃ v, chain.endpointRead e value s = (.success, v) ∧ v.datatype = DataType.uint32.code ∧
    Answers (RegisteredIn chain) e v.v_u32

open Host in
/-- A device of the host library answers a query of `e`. -/
def HostAnswers {α : Type} (dev : Device α) (e : UInt32) (flags : UInt8) (s : DeviceState α) :
    Prop :=
  ∃ mask, (dev.receive (.query e flags) s).sent = [.info e (.uint32 mask) 0] ∧
    Answers (RegisteredAt dev) e mask

open Firmware Host in
/-- With the same endpoints both answer with the same bits. -/
def SameAnswer {σ α : Type} (chain : EndpointChain σ) (dev : Device α) (e : UInt32)
    (value : HxbValue) (s : σ) (flags : UInt8) (s' : DeviceState α) : Prop :=
  (∀ eid, RegisteredIn chain eid ↔ RegisteredAt dev eid) →
    (dev.receive (.query e flags) s').sent =
      [.info e (.uint32 (chain.endpointRead e value s).2.v_u32) 0]

open Firmware in
theorem mem_eids {σ : Type} (chain : EndpointChain σ) (eid : UInt32) :
    RegisteredIn chain eid ↔ eid ∈ chain.map EndpointDescriptor.eid :=
  List.mem_map.symm

open Firmware in
theorem endpointRead_descriptor {σ : Type} (chain : EndpointChain σ) {e : UInt32}
    (he : e % 32 = 0) (value : HxbValue) (s : σ) :
    chain.endpointRead e value s = (.success, chain.synthesizeReadM32 e value) := by
  unfold EndpointChain.endpointRead
  rw [if_pos he]

open Host in
theorem receive_descriptor {α : Type} (dev : Device α) {e : UInt32} (he : e % 32 = 0)
    (flags : UInt8) (s : DeviceState α) :
    (dev.receive (.query e flags) s).sent = [.info e (.uint32 (dev.descGroup e)) 0] := by
  rw [dev.receive_eq]
  simp only [if_pos he]
  rfl

open Firmware in
theorem firmwareAnswers_iff {σ : Type} (chain : EndpointChain σ) {e : UInt32} (he : e % 32 = 0)
    (value : HxbValue) (s : σ) : FirmwareAnswers chain e value s ↔
      (e = lastBlock → ∀ eid, RegisteredIn chain eid → ¬ InBlock e eid) := by
  obtain ⟨htype, hmask⟩ := synthesizeReadM32_eq chain e value
  have hanswers : Answers (RegisteredIn chain) e (chain.synthesizeReadM32 e value).v_u32 ↔
      (e = lastBlock → ∀ eid, RegisteredIn chain eid → ¬ InBlock e eid) := by
    rw [answers_iff he, hmask, described_congr (mem_eids chain), described_blockMask_iff he]
    simp only [mem_eids]
  unfold FirmwareAnswers
  rw [endpointRead_descriptor chain he]
  constructor
  · rintro ⟨v, hv, -, h⟩
    cases hv
    exact hanswers.mp h
  · exact fun h => ⟨_, rfl, htype, hanswers.mpr h⟩

open Host in
theorem hostAnswers_iff {α : Type} (dev : Device α) {e : UInt32} (he : e % 32 = 0)
    (flags : UInt8) (s : DeviceState α) : HostAnswers dev e flags s ↔
      (e = lastBlock → ∀ eid, RegisteredAt dev eid → ¬ InBlock e eid) := by
  have hanswers : Answers (RegisteredAt dev) e (dev.descGroup e) ↔
      (e = lastBlock → ∀ eid, RegisteredAt dev eid → ¬ InBlock e eid) := by
    rw [answers_iff he, described_descGroup_iff dev he]
  unfold HostAnswers
  rw [receive_descriptor dev he]
  constructor
  · rintro ⟨mask, hmask, h⟩
    cases hmask
    exact hanswers.mp h
  · exact fun h => ⟨_, rfl, hanswers.mpr h⟩

open Firmware Host in
theorem sameAnswer {σ α : Type} (chain : EndpointChain σ) (dev : Device α) {e : UInt32}
    (he : e % 32 = 0) (value : HxbValue) (s : σ) (flags : UInt8) (s' : DeviceState α) :
    SameAnswer chain dev e value s flags s' := by
  intro hsame
  have hkeys : ∀ eid, eid ∈ chain.map EndpointDescriptor.eid ↔ eid ∈ dev.keys := by
    intro eid
    rw [← mem_eids, ← mem_keys]
    exact hsame eid
  rw [receive_descriptor dev he, endpointRead_descriptor chain he,
    (synthesizeReadM32_eq chain e value).2, descGroup_eq, blockMask_congr he hkeys]

open Firmware Host in
/-- **Descriptors**. The firmware, a device of the host library and `hexinfo` agree on every
block but the last, and on the last one when there is nothing in it. -/
theorem descriptors_iff {σ α : Type} (chain : EndpointChain σ) (dev : Device α) (e : UInt32)
    (he : e % 32 = 0) (value : HxbValue) (s : σ) (flags : UInt8) (s' : DeviceState α) :
    (FirmwareAnswers chain e value s ∧ HostAnswers dev e flags s' ∧
        SameAnswer chain dev e value s flags s') ↔
      (e = lastBlock → ∀ eid, RegisteredIn chain eid ∨ RegisteredAt dev eid → ¬ InBlock e eid) := by
  rw [firmwareAnswers_iff chain he, hostAnswers_iff dev he]
  constructor
  · rintro ⟨hfirmware, hhost, -⟩ hlast eid (hin | hat)
    · exact hfirmware hlast eid hin
    · exact hhost hlast eid hat
  · intro h
    exact ⟨fun hlast eid hin => h hlast eid (.inl hin), fun hlast eid hat => h hlast eid (.inr hat),
      sameAnswer chain dev he value s flags s'⟩

/-- An endpoint in the last block. -/
def lastEndpoint : Firmware.EndpointDescriptor Unit where
  datatype := DataType.bool.code
  eid := 0xffffffe1
  name := []
  read value _ := (.success, value)
  write := none

def zeroValue : HxbValue := ⟨0, Block.zero 8, []⟩

/-- The endpoints that a device of the host library always has. -/
def smEndpoints : Firmware.EndpointChain Unit :=
  [{ lastEndpoint with eid := Host.epSmUpReceiver }, { lastEndpoint with eid := Host.epSmControl }]

/-- The descriptor of the first block, which tells of the two. -/
theorem descriptors_first : FirmwareAnswers smEndpoints 0 zeroValue () ∧
    HostAnswers Host.Device.bare 0 0 ⟨(), 0⟩ ∧
    SameAnswer smEndpoints Host.Device.bare 0 zeroValue () 0 ⟨(), 0⟩ :=
  (descriptors_iff smEndpoints Host.Device.bare 0 rfl zeroValue () 0 ⟨(), 0⟩).mpr
    fun hlast => absurd hlast (by decide)

/-- The last descriptor does not tell of it. -/
theorem last_not_answered : ¬ FirmwareAnswers [lastEndpoint] lastBlock zeroValue () := by
  rw [firmwareAnswers_iff _ rfl]
  intro h
  exact h rfl 0xffffffe1 ⟨lastEndpoint, List.mem_singleton_self _, rfl⟩ ⟨1, by decide, by decide, rfl⟩

end Hexabus.Wire
