import Hexabus.Host.Serialization

/-!
# The firmware's CRC

`crc16.c` computes the checksum a byte at a time with shifts and xors and no
table. It is the checksum of the host library: both byte steps are additive
over xor, so comparing them on the sixteen one-hot words is enough.
-/

namespace Hexabus.Firmware

open Lib.Crc

/-- `crc16_add`. -/
def crc16Add (b : UInt8) (acc : UInt16) : UInt16 :=
  let acc := acc ^^^ b.toUInt16
  let acc := (acc >>> 8) ||| (acc <<< 8)
  let acc := acc ^^^ ((acc &&& 0xff00) <<< 4)
  let acc := acc ^^^ ((acc >>> 8) >>> 4)
  acc ^^^ ((acc &&& 0xff00) >>> 5)

/-- `crc16_data`. -/
def crc16Data (data : List UInt8) (acc : UInt16) : UInt16 :=
  data.foldl (fun acc b => crc16Add b acc) acc

/-! ## The byte step as a linear map -/

/-- `crc16_add` behind its first xor, one line of the source per function. -/
def swapBytes (x : BitVec 16) : BitVec 16 := (x >>> 8) ||| (x <<< 8)

def foldHigh (x : BitVec 16) : BitVec 16 := x ^^^ ((x &&& 0xff00#16) <<< 4)

def foldNibble (x : BitVec 16) : BitVec 16 := x ^^^ ((x >>> 8) >>> 4)

def foldLow (x : BitVec 16) : BitVec 16 := x ^^^ ((x &&& 0xff00#16) >>> 5)

theorem swapBytes_additive : Additive swapBytes := by
  intro x y
  apply BitVec.eq_of_getLsbD_eq
  intro i hi
  simp only [swapBytes, BitVec.getLsbD_or, BitVec.getLsbD_xor, BitVec.getLsbD_ushiftRight,
    BitVec.getLsbD_shiftLeft]
  by_cases h8 : i < 8
  · simp [h8]
  · -- above the low byte nothing comes from the right shift
    have hx : x.getLsbD (8 + i) = false := BitVec.getLsbD_of_ge x _ (by omega)
    have hy : y.getLsbD (8 + i) = false := BitVec.getLsbD_of_ge y _ (by omega)
    simp [h8, hx, hy, hi]

/-- A word with a shifted and masked copy of itself folded in. -/
theorem fold_additive {f : BitVec 16 → BitVec 16} (hf : Additive f) :
    Additive fun x => x ^^^ f x := by
  intro x y
  show (x ^^^ y) ^^^ f (x ^^^ y) = (x ^^^ f x) ^^^ (y ^^^ f y)
  rw [hf x y]
  calc (x ^^^ y) ^^^ (f x ^^^ f y)
      = x ^^^ ((y ^^^ f x) ^^^ f y) := by rw [BitVec.xor_assoc, BitVec.xor_assoc]
    _ = x ^^^ ((f x ^^^ y) ^^^ f y) := by rw [BitVec.xor_comm y (f x)]
    _ = (x ^^^ f x) ^^^ (y ^^^ f y) := by rw [BitVec.xor_assoc, BitVec.xor_assoc]

theorem xor_and_mask (m x y : BitVec 16) : (x ^^^ y) &&& m = (x &&& m) ^^^ (y &&& m) := by
  apply BitVec.eq_of_getLsbD_eq
  intro i _
  simp only [BitVec.getLsbD_and, BitVec.getLsbD_xor]
  exact Bool.and_xor_distrib_right _ _ _

theorem foldHigh_additive : Additive foldHigh := by
  apply fold_additive
  intro x y
  show ((x ^^^ y) &&& 0xff00#16) <<< 4 = _
  rw [xor_and_mask, BitVec.shiftLeft_xor_distrib]

theorem foldNibble_additive : Additive foldNibble := by
  apply fold_additive
  intro x y
  show ((x ^^^ y) >>> 8) >>> 4 = _
  rw [BitVec.ushiftRight_xor_distrib, BitVec.ushiftRight_xor_distrib]

theorem foldLow_additive : Additive foldLow := by
  apply fold_additive
  intro x y
  show ((x ^^^ y) &&& 0xff00#16) >>> 5 = _
  rw [xor_and_mask, BitVec.ushiftRight_xor_distrib]

/-- The byte step behind its first xor. -/
def mix (x : BitVec 16) : BitVec 16 := foldLow (foldNibble (foldHigh (swapBytes x)))

theorem mix_additive : Additive mix := by
  intro x y
  unfold mix
  rw [swapBytes_additive, foldHigh_additive, foldNibble_additive, foldLow_additive]

/-- Eight bit steps of the reflected register are one step of the firmware. -/
theorem bitSteps_eq_mix (x : BitVec 16) : bitSteps 0x8408#16 8 x = mix x := by
  refine eq_of_additive (bitSteps_additive _ 8) mix_additive ?_ x
  decide

theorem crc16Add_eq (b : UInt8) (acc : UInt16) :
    crc16Add b acc = UInt16.ofBitVec (byteStep 0x8408#16 acc.toBitVec b) := by
  have hmix : crc16Add b acc = UInt16.ofBitVec (mix (acc.toBitVec ^^^ b.toBitVec.setWidth 16)) := by
    rfl
  rw [hmix, byteStep, bitSteps_eq_mix]

/-- **The firmware's checksum is the host's**, for every byte string. -/
theorem crc16Data_eq_crc (data : List UInt8) : crc16Data data 0 = Host.crc data := by
  have hrun : ∀ (data : List UInt8) (acc : UInt16), crc16Data data acc
      = UInt16.ofBitVec (checksum 0x8408#16 acc.toBitVec data) := by
    intro data
    induction data with
    | nil => intro acc; rfl
    | cons b data ih =>
      intro acc
      show crc16Data data (crc16Add b acc) = _
      rw [ih, crc16Add_eq]
      rfl
  exact hrun data 0

end Hexabus.Firmware
