import Hexabus.Host.Device
import Hexabus.Lib.Bitmap
import Hexabus.Lib.Folds

/-!
# Blocks of endpoint ids

A block is the 32 ids from a multiple of 32 on. Its descriptor is a mask of the endpoints that there
are, which is built from their ids. The builders look for the ids below `eid + 32`, which is 0 in the
last block.
-/

namespace Hexabus.Wire

open Lib.Bytes Lib.Bitmap

/-! ## Blocks -/

/-- The ids that the descriptor `e` tells of. -/
def InBlock (e x : UInt32) : Prop := ∃ i, 0 < i ∧ i < 32 ∧ x = e + UInt32.ofNat i

/-- The bits are those of the registered endpoints. -/
structure Described (registered : UInt32 → Prop) (e mask : UInt32) : Prop where
  self : bit mask 0 = true
  others : ∀ i, 0 < i → i < 32 → (bit mask i = true ↔ registered (e + UInt32.ofNat i))

/-- The descriptor of the last block. -/
def lastBlock : UInt32 := 0xffffffe0

/-- The comparison of the builders: `eid <= key && key < eid + 32`. -/
def inRange (e key : UInt32) : Bool := decide (e ≤ key) && decide (key < e + 32)

/-- What the builders collect of the registered ids. -/
def blockMask (e : UInt32) (keys : List UInt32) : UInt32 :=
  collect 1 ((keys.filter (inRange e)).map (· - e))

theorem toNat_add_ofNat {e : UInt32} (he : e % 32 = 0) {i : Nat} (hi : i < 32) :
    (e + UInt32.ofNat i).toNat = e.toNat + i := by
  have hmod : e.toNat % 32 = 0 := congrArg UInt32.toNat he
  have hlt := e.toNat_lt
  rw [UInt32.toNat_add, UInt32.toNat_ofNat_of_lt' (by show i < 4294967296; omega)]
  exact Nat.mod_eq_of_lt (by omega)

theorem inRange_iff {e : UInt32} (he : e % 32 = 0) (key : UInt32) : inRange e key = true ↔
    e ≠ lastBlock ∧ e.toNat ≤ key.toNat ∧ key.toNat < e.toNat + 32 := by
  have hmod : e.toNat % 32 = 0 := congrArg UInt32.toNat he
  have hlt := e.toNat_lt
  have hsum : (e + 32).toNat = (e.toNat + 32) % 4294967296 := UInt32.toNat_add e 32
  unfold inRange
  rw [Bool.and_eq_true, decide_eq_true_iff, decide_eq_true_iff, UInt32.le_iff_toNat_le,
    UInt32.lt_iff_toNat_lt, hsum]
  by_cases hlast : e = lastBlock
  · subst hlast
    simp [lastBlock]
  · have hne : e.toNat ≠ 4294967264 := fun h => hlast (UInt32.toNat_inj.mp h)
    rw [Nat.mod_eq_of_lt (by omega)]
    exact ⟨fun h => ⟨hlast, h⟩, fun h => h.2⟩

/-- The bits of what is collected. -/
theorem bit_blockMask {e : UInt32} (he : e % 32 = 0) (keys : List UInt32) {i : Nat} (hi : i < 32) :
    bit (blockMask e keys) i = true ↔
      i = 0 ∨ e ≠ lastBlock ∧ e + UInt32.ofNat i ∈ keys := by
  have hsub : ∀ key, inRange e key = true → (key - e).toNat = key.toNat - e.toNat := by
    intro key hkey
    exact UInt32.toNat_sub_of_le _ _
      (UInt32.le_iff_toNat_le.mpr ((inRange_iff he key).mp hkey).2.1)
  have hks : ∀ k ∈ (keys.filter (inRange e)).map (· - e), k.toNat < 32 := by
    intro k hk
    obtain ⟨key, hkey, rfl⟩ := List.mem_map.mp hk
    have hrange := (List.mem_filter.mp hkey).2
    rw [hsub key hrange]
    have h := (inRange_iff he key).mp hrange
    omega
  have hone : bit 1 i = true ↔ i = 0 := by
    unfold bit
    show Nat.testBit 1 i = true ↔ _
    rw [Nat.testBit_one_eq_true_iff_self_eq_zero]
  unfold blockMask
  rw [bit_collect hks, hone]
  refine or_congr_right ⟨?_, ?_⟩
  · rintro ⟨k, hk, rfl⟩
    obtain ⟨key, hkey, rfl⟩ := List.mem_map.mp hk
    obtain ⟨hmem, hrange⟩ := List.mem_filter.mp hkey
    have hback : e + UInt32.ofNat (key - e).toNat = key := by
      rw [UInt32.ofNat_toNat, UInt32.add_comm, UInt32.sub_add_cancel]
    rw [hback]
    exact ⟨((inRange_iff he key).mp hrange).1, hmem⟩
  · rintro ⟨hlast, hmem⟩
    have hplace := toNat_add_ofNat he hi
    have hrange : inRange e (e + UInt32.ofNat i) = true :=
      (inRange_iff he _).mpr ⟨hlast, by omega, by omega⟩
    refine ⟨_, List.mem_map.mpr ⟨_, List.mem_filter.mpr ⟨hmem, hrange⟩, rfl⟩, ?_⟩
    rw [hsub _ hrange, hplace]
    omega

/-- **What is collected** describes the block unless it is the last one and not empty. -/
theorem described_blockMask_iff {e : UInt32} (he : e % 32 = 0) (keys : List UInt32) :
    Described (· ∈ keys) e (blockMask e keys) ↔
      (e = lastBlock → ∀ key ∈ keys, ¬ InBlock e key) := by
  constructor
  · rintro ⟨-, hothers⟩ hlast key hkey ⟨i, hpos, hi, rfl⟩
    have hbit := (hothers i hpos hi).mpr hkey
    rcases (bit_blockMask he keys hi).mp hbit with rfl | ⟨hne, -⟩
    · exact absurd hpos (Nat.lt_irrefl 0)
    · exact hne hlast
  · intro h
    refine ⟨(bit_blockMask he keys (by decide)).mpr (.inl rfl), ?_⟩
    intro i hpos hi
    rw [bit_blockMask he keys hi]
    constructor
    · rintro (rfl | ⟨-, hmem⟩)
      · exact absurd hpos (Nat.lt_irrefl 0)
      · exact hmem
    · intro hmem
      exact .inr ⟨fun hlast => h hlast _ hmem ⟨i, hpos, hi, rfl⟩, hmem⟩

/-- The same ids make the same mask. -/
theorem blockMask_congr {e : UInt32} (he : e % 32 = 0) {keys keys' : List UInt32}
    (h : ∀ key, key ∈ keys ↔ key ∈ keys') : blockMask e keys = blockMask e keys' := by
  refine eq_of_bit fun i hi => Bool.eq_iff_iff.mpr ?_
  rw [bit_blockMask he keys hi, bit_blockMask he keys' hi, h]

theorem described_congr {p q : UInt32 → Prop} (h : ∀ eid, p eid ↔ q eid) {e mask : UInt32} :
    Described p e mask ↔ Described q e mask := by
  have heq : p = q := funext fun eid => propext (h eid)
  rw [heq]

/-! ## The host library -/

open Host in
/-- `_handle_descquery` collects the block. -/
theorem descGroup_eq {α : Type} (dev : Device α) (e : UInt32) :
    dev.descGroup e = blockMask e dev.keys := by
  have hsorted : dev.keys.Pairwise (· ≤ ·) := by
    have h := @List.pairwise_mergeSort _ (fun a b : UInt32 => decide (a ≤ b))
      (fun a b c hab hbc => by
        simp only [decide_eq_true_iff] at hab hbc ⊢
        exact UInt32.le_trans hab hbc)
      (fun a b => by
        simp only [Bool.or_eq_true, decide_eq_true_iff]
        exact UInt32.le_total a b)
      ((Device.smControl :: Device.smUpReceiver :: dev.endpoints).map EndpointFunctions.eid)
    exact h.imp fun hle => of_decide_eq_true hle
  have hkeys : (dev.keys.dropWhile (· < e)).takeWhile (· < e + 32)
      = dev.keys.filter (inRange e) := by
    have hdrop : dev.keys.dropWhile (· < e) = dev.keys.filter fun key => decide (e ≤ key) := by
      refine Lib.Folds.dropWhile_eq_filter (fun key => ?_) (hsorted.imp fun {a b} hle ha => ?_)
      · rw [← decide_not]
        exact decide_eq_decide.mpr UInt32.not_le.symm
      · exact decide_eq_true (UInt32.le_trans (of_decide_eq_true ha) hle)
    have htake : ∀ l : List UInt32, l.Pairwise (· ≤ ·) →
        l.takeWhile (· < e + 32) = l.filter fun key => decide (key < e + 32) := by
      intro l hl
      refine Lib.Folds.takeWhile_eq_filter (hl.imp fun {a b} hle hb => ?_)
      exact decide_eq_true (UInt32.lt_of_le_of_lt hle (of_decide_eq_true hb))
    rw [hdrop, htake _ (hsorted.filter _), List.filter_filter]
    refine List.filter_congr fun key _ => ?_
    unfold inRange
    exact Bool.and_comm _ _
  unfold Device.descGroup blockMask collect
  rw [hkeys, List.foldl_map]

open Host in
/-- The endpoint is registered in a device of the host library. -/
def RegisteredAt {α : Type} (dev : Device α) (eid : UInt32) : Prop :=
  ∃ ep ∈ Device.smControl :: Device.smUpReceiver :: dev.endpoints, ep.eid = eid

open Host in
theorem mem_keys {α : Type} (dev : Device α) (eid : UInt32) :
    RegisteredAt dev eid ↔ eid ∈ dev.keys := by
  unfold Device.keys
  rw [List.mem_mergeSort]
  exact List.mem_map.symm

open Host in
/-- `_handle_descquery` describes the block, unless it is the last one and not empty. -/
theorem described_descGroup_iff {α : Type} (dev : Device α) {e : UInt32} (he : e % 32 = 0) :
    Described (RegisteredAt dev) e (dev.descGroup e) ↔
      (e = lastBlock → ∀ eid, RegisteredAt dev eid → ¬ InBlock e eid) := by
  rw [descGroup_eq, described_congr (mem_keys dev), described_blockMask_iff he]
  simp only [mem_keys]

end Hexabus.Wire
