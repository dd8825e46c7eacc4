import Mathlib.Tactic

/-!
# Masks of 32 bits

A mask of 32 bits as a set of numbers below 32: its bits under the operations that build it
and take it apart, and the mask that collects the numbers of a list.
-/

namespace Hexabus.Lib.Bitmap

/-- Bit number `i` of a mask. -/
def bit (mask : UInt32) (i : Nat) : Bool := mask.toNat.testBit i

@[simp] theorem bit_or (a b : UInt32) (i : Nat) : bit (a ||| b) i = (bit a i || bit b i) := by
  unfold bit
  rw [UInt32.toNat_or, Nat.testBit_or]

/-- The lowest bit, as C tests it. -/
theorem bit_zero (mask : UInt32) : bit mask 0 = decide (mask &&& 1 ≠ 0) := by
  have hand : (mask &&& 1).toNat = mask.toNat % 2 := by
    rw [UInt32.toNat_and]
    exact Nat.and_one_is_mod _
  unfold bit
  rw [Nat.testBit_zero, ← hand]
  have hlt : (mask &&& 1).toNat < 2 := by omega
  have hzero : mask &&& 1 ≠ 0 ↔ (mask &&& 1).toNat = 1 := by
    rw [← UInt32.toNat_inj.ne]
    show (mask &&& 1).toNat ≠ 0 ↔ _
    omega
  exact decide_eq_decide.mpr hzero.symm

@[simp] theorem bit_shiftRight (mask : UInt32) (i : Nat) : bit (mask >>> 1) i = bit mask (i + 1) := by
  unfold bit
  rw [UInt32.toNat_shiftRight, Nat.testBit_shiftRight, Nat.add_comm]
  rfl

/-- One bit, put in its place. -/
theorem bit_shiftLeft {k : UInt32} (hk : k.toNat < 32) (i : Nat) :
    bit ((1 : UInt32) <<< k) i = decide (k.toNat = i) := by
  have hpow : 2 ^ k.toNat < 2 ^ 32 := Nat.pow_lt_pow_right (by decide) hk
  have hshift : ((1 : UInt32) <<< k).toNat = 2 ^ k.toNat := by
    rw [UInt32.toNat_shiftLeft, Nat.mod_eq_of_lt hk, Nat.shiftLeft_eq]
    show 1 * 2 ^ k.toNat % 2 ^ 32 = _
    rw [Nat.one_mul, Nat.mod_eq_of_lt hpow]
  unfold bit
  rw [hshift, Nat.testBit_two_pow]

/-- A mask whose bits are all those of another is the other. -/
theorem eq_of_bit {a b : UInt32} (h : ∀ i, i < 32 → bit a i = bit b i) : a = b := by
  refine UInt32.toNat_inj.mp (Nat.eq_of_testBit_eq fun i => ?_)
  by_cases hi : i < 32
  · exact h i hi
  · have hout : ∀ m : UInt32, m.toNat.testBit i = false := fun m =>
      Nat.testBit_lt_two_pow (Nat.lt_of_lt_of_le m.toNat_lt
        (Nat.pow_le_pow_right (by decide) (Nat.le_of_not_lt hi)))
    rw [hout, hout]

/-- The mask of the numbers of a list. -/
def collect (mask : UInt32) (ks : List UInt32) : UInt32 :=
  ks.foldl (fun mask k => mask ||| (1 : UInt32) <<< k) mask

/-- Its bits are those of the mask it starts with and the numbers of the list. -/
theorem bit_collect {ks : List UInt32} (hks : ∀ k ∈ ks, k.toNat < 32) (mask : UInt32) (i : Nat) :
    bit (collect mask ks) i = true ↔ bit mask i = true ∨ ∃ k ∈ ks, k.toNat = i := by
  induction ks generalizing mask with
  | nil => simp [collect]
  | cons k ks ih =>
    have htail := ih (fun x hx => hks x (List.mem_cons_of_mem _ hx)) (mask ||| (1 : UInt32) <<< k)
    show bit (collect (mask ||| (1 : UInt32) <<< k) ks) i = true ↔ _
    rw [htail, bit_or, bit_shiftLeft (hks k List.mem_cons_self), Bool.or_eq_true,
      decide_eq_true_iff, List.exists_mem_cons_iff, or_assoc]

end Hexabus.Lib.Bitmap
