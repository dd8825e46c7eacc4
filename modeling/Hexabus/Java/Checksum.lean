import Hexabus.Firmware.Crc16

/-!
# The checksum of the Java library

`HexabusPacket.crc`. A `byte` is given by its bits and is sign-extended to an `int` in every
expression, a `char` has 16 bits without a sign, `>>` keeps the sign, and a compound assignment
to a `char` cuts its value off.
-/

namespace Hexabus.Java

open Lib.Bytes

/-! ## Integers -/

/-- `int`. -/
abbrev JInt := BitVec 32

/-- A `byte` in an expression. -/
def byteToInt (b : UInt8) : JInt := b.toBitVec.signExtend 32

/-- A `char` in an expression. -/
def charToInt (c : UInt16) : JInt := c.toBitVec.setWidth 32

/-- The cast to `char`. -/
def toChar (i : JInt) : UInt16 := UInt16.ofBitVec (i.setWidth 16)

/-- The cast to `byte`. -/
def toByte (i : JInt) : UInt8 := UInt8.ofBitVec (i.setWidth 8)

/-! ## The checksum -/

/-- The body of the loop over the bytes. -/
def crcStep (crc : UInt16) (b : UInt8) : UInt16 :=
  let crc := toChar (charToInt crc ^^^ (byteToInt b &&& 0xff))
  let crc := toChar ((charToInt crc).sshiftRight 8 ||| (charToInt crc <<< 8))
  let crc := toChar (charToInt crc ^^^ ((charToInt crc &&& 0xff00) <<< 4))
  let crc := toChar (charToInt crc ^^^ ((charToInt crc).sshiftRight 8).sshiftRight 4)
  toChar (charToInt crc ^^^ (charToInt crc &&& 0xff00).sshiftRight 5)

/-- `HexabusPacket.crc`. -/
def crc (bytes : List UInt8) : List UInt8 :=
  let crc := bytes.foldl crcStep 0
  [toByte ((charToInt crc &&& 0xff00).sshiftRight 8), toByte (charToInt crc &&& 0x00ff)]

/-! ## The step is that of the firmware -/

theorem toChar_eq {i : JInt} {c : UInt16}
    (h : ∀ k < 16, i.getLsbD k = c.toBitVec.getLsbD k) : toChar i = c := by
  apply UInt16.toBitVec_inj.mp
  apply BitVec.eq_of_getLsbD_eq
  intro k hk
  show (i.setWidth 16).getLsbD k = _
  rw [BitVec.getLsbD_setWidth, decide_eq_true hk, Bool.true_and, h k hk]

theorem getLsbD_charToInt (c : UInt16) {k : Nat} (hk : k < 32) :
    (charToInt c).getLsbD k = c.toBitVec.getLsbD k := by
  show (c.toBitVec.setWidth 32).getLsbD k = _
  rw [BitVec.getLsbD_setWidth, decide_eq_true hk, Bool.true_and]

/-- A shift to the right keeps the sign, but a `char` has none. -/
theorem getLsbD_sshiftRight {x : JInt} {n k : Nat} (h : n + k < 32) :
    (x.sshiftRight n).getLsbD k = x.getLsbD (n + k) := by
  rw [BitVec.getLsbD_sshiftRight, if_pos h, decide_eq_false (by omega), Bool.not_false,
    Bool.true_and]

/-- The high byte of a `char`. -/
theorem getLsbD_high (c : UInt16) {k : Nat} (hk : k < 32) :
    (charToInt c &&& 0xff00).getLsbD k = (c.toBitVec &&& 0xff00#16).getLsbD k := by
  have hmask : (0xff00#32).getLsbD k = (decide (k < 32) && (0xff00 : Nat).testBit k) :=
    BitVec.getLsbD_ofNat ..
  have hmask' : (0xff00#16).getLsbD k = (decide (k < 16) && (0xff00 : Nat).testBit k) :=
    BitVec.getLsbD_ofNat ..
  rw [BitVec.getLsbD_and, BitVec.getLsbD_and, getLsbD_charToInt c hk]
  show (_ && (0xff00#32).getLsbD k) = _
  rw [hmask, hmask', decide_eq_true hk, Bool.true_and]
  by_cases h : k < 16
  · rw [decide_eq_true h, Bool.true_and]
  · rw [BitVec.getLsbD_of_ge c.toBitVec k (by omega), Bool.false_and, Bool.false_and]

theorem xor_byte (crc : UInt16) (b : UInt8) :
    toChar (charToInt crc ^^^ (byteToInt b &&& 0xff)) = crc ^^^ b.toUInt16 := by
  refine toChar_eq fun k hk => ?_
  have hmask : (0xff#32).getLsbD k = (decide (k < 32) && (0xff : Nat).testBit k) :=
    BitVec.getLsbD_ofNat ..
  have hlow : (0xff : Nat).testBit k = decide (k < 8) := Nat.testBit_two_pow_sub_one 8 k
  show _ = (crc.toBitVec ^^^ b.toBitVec.setWidth 16).getLsbD k
  rw [BitVec.getLsbD_xor, BitVec.getLsbD_xor, getLsbD_charToInt crc (by omega), BitVec.getLsbD_and,
    BitVec.getLsbD_setWidth, decide_eq_true hk, Bool.true_and]
  congr 1
  show ((b.toBitVec.signExtend 32).getLsbD k && (0xff#32).getLsbD k) = _
  -- the mask takes the copies of the sign away
  rw [hmask, hlow, BitVec.getLsbD_signExtend, decide_eq_true (by omega : k < 32), Bool.true_and,
    Bool.true_and]
  by_cases h : k < 8
  · rw [if_pos h, decide_eq_true h, Bool.and_true]
  · rw [decide_eq_false h, Bool.and_false, BitVec.getLsbD_of_ge b.toBitVec k (by omega)]

theorem swap_bytes (crc : UInt16) :
    toChar ((charToInt crc).sshiftRight 8 ||| (charToInt crc <<< 8)) =
      (crc >>> 8) ||| (crc <<< 8) := by
  refine toChar_eq fun k hk => ?_
  show _ = ((crc.toBitVec >>> 8) ||| (crc.toBitVec <<< 8)).getLsbD k
  rw [BitVec.getLsbD_or, BitVec.getLsbD_or, getLsbD_sshiftRight (by omega),
    getLsbD_charToInt crc (by omega), BitVec.getLsbD_ushiftRight, BitVec.getLsbD_shiftLeft,
    BitVec.getLsbD_shiftLeft, getLsbD_charToInt crc (by omega), decide_eq_true hk,
    decide_eq_true (by omega : k < 32)]

theorem fold_high (crc : UInt16) :
    toChar (charToInt crc ^^^ ((charToInt crc &&& 0xff00) <<< 4)) =
      crc ^^^ ((crc &&& 0xff00) <<< 4) := by
  refine toChar_eq fun k hk => ?_
  show _ = (crc.toBitVec ^^^ ((crc.toBitVec &&& 0xff00#16) <<< 4)).getLsbD k
  rw [BitVec.getLsbD_xor, BitVec.getLsbD_xor, getLsbD_charToInt crc (by omega),
    BitVec.getLsbD_shiftLeft, BitVec.getLsbD_shiftLeft, getLsbD_high crc (by omega),
    decide_eq_true hk, decide_eq_true (by omega : k < 32)]

theorem fold_nibble (crc : UInt16) :
    toChar (charToInt crc ^^^ ((charToInt crc).sshiftRight 8).sshiftRight 4) =
      crc ^^^ ((crc >>> 8) >>> 4) := by
  refine toChar_eq fun k hk => ?_
  show _ = (crc.toBitVec ^^^ ((crc.toBitVec >>> 8) >>> 4)).getLsbD k
  rw [BitVec.getLsbD_xor, BitVec.getLsbD_xor, getLsbD_charToInt crc (by omega),
    getLsbD_sshiftRight (by omega), getLsbD_sshiftRight (by omega),
    getLsbD_charToInt crc (by omega), BitVec.getLsbD_ushiftRight, BitVec.getLsbD_ushiftRight]

theorem fold_low (crc : UInt16) :
    toChar (charToInt crc ^^^ (charToInt crc &&& 0xff00).sshiftRight 5) =
      crc ^^^ ((crc &&& 0xff00) >>> 5) := by
  refine toChar_eq fun k hk => ?_
  show _ = (crc.toBitVec ^^^ ((crc.toBitVec &&& 0xff00#16) >>> 5)).getLsbD k
  rw [BitVec.getLsbD_xor, BitVec.getLsbD_xor, getLsbD_charToInt crc (by omega),
    getLsbD_sshiftRight (by omega), getLsbD_high crc (by omega), BitVec.getLsbD_ushiftRight]

theorem crcStep_eq (crc : UInt16) (b : UInt8) : crcStep crc b = Firmware.crc16Add b crc := by
  unfold crcStep Firmware.crc16Add
  simp only [xor_byte, swap_bytes, fold_high, fold_nibble, fold_low]

/-- The loop computes the firmware's checksum. -/
theorem foldl_crcStep (bytes : List UInt8) (crc : UInt16) :
    bytes.foldl crcStep crc = Firmware.crc16Data bytes crc := by
  unfold Firmware.crc16Data
  congr 1
  funext crc b
  exact crcStep_eq crc b

/-! ## Three checksums -/

/-- The reflected checksum with the polynomial 0x1021, the initial value 0 and no final xor. -/
def reflectedCrc (bytes : List UInt8) : UInt16 :=
  UInt16.ofBitVec (Lib.Crc.reflectedChecksum 0x1021#16 0#16 bytes)

theorem hostCrc_eq (bytes : List UInt8) : Host.crc bytes = reflectedCrc bytes := by
  have hpoly : (0x1021#16).reverse = 0x8408#16 := by decide
  have hinit : (0#16).reverse = 0#16 := by decide
  unfold reflectedCrc
  rw [Lib.Crc.reflectedChecksum_eq (by decide), hpoly, hinit]
  rfl

theorem toByte_eq {i : JInt} {n : Nat} (h : ∀ k < 8, i.getLsbD k = n.testBit k) :
    toByte i = UInt8.ofNat (n % 256) := by
  apply UInt8.toBitVec_inj.mp
  apply BitVec.eq_of_getLsbD_eq
  intro k hk
  show (i.setWidth 8).getLsbD k = (BitVec.ofNat 8 (n % 256)).getLsbD k
  rw [BitVec.getLsbD_setWidth, BitVec.getLsbD_ofNat, h k hk,
    show n % 256 = n % 2 ^ 8 from rfl, Nat.testBit_mod_two_pow, decide_eq_true hk,
    Bool.true_and, Bool.true_and]

/-- The two bytes are those of the `char`, high byte first. -/
theorem crc_eq_beBytes (bytes : List UInt8) :
    crc bytes = beBytes 2 (bytes.foldl crcStep 0).toNat := by
  generalize hc : bytes.foldl crcStep 0 = c
  have hhigh : toByte ((charToInt c &&& 0xff00).sshiftRight 8) =
      UInt8.ofNat (c.toNat / 256 % 256) := by
    refine toByte_eq fun k hk => ?_
    have hmask : (0xff00#16).getLsbD (8 + k) = true := by
      have hbits : ∀ k < 8, (0xff00#16).getLsbD (8 + k) = true := by decide
      exact hbits k hk
    have hbit : (c.toNat / 256).testBit k = c.toBitVec.getLsbD (8 + k) := by
      have hshift : c.toNat / 256 = c.toNat >>> 8 := (Nat.shiftRight_eq_div_pow c.toNat 8).symm
      rw [hshift, Nat.testBit_shiftRight]
      rfl
    rw [getLsbD_sshiftRight (by omega), getLsbD_high c (by omega), BitVec.getLsbD_and, hmask,
      Bool.and_true, hbit]
  have hlow : toByte (charToInt c &&& 0x00ff) = UInt8.ofNat (c.toNat % 256) := by
    refine toByte_eq fun k hk => ?_
    have hmask : (0x00ff#32).getLsbD k = true := by
      have hbits : ∀ k < 8, (0x00ff#32).getLsbD k = true := by decide
      exact hbits k hk
    rw [BitVec.getLsbD_and, getLsbD_charToInt c (by omega)]
    show (_ && (0x00ff#32).getLsbD k) = _
    rw [hmask, Bool.and_true]
    rfl
  unfold crc
  simp only [hc, hhigh, hlow]
  rfl

/-- **Checksums**. Firmware, host library and Java library compute the reflected checksum of
every byte string. -/
theorem crcs_agree (bytes : List UInt8) :
    Firmware.crc16Data bytes 0 = reflectedCrc bytes ∧ Host.crc bytes = reflectedCrc bytes ∧
      crc bytes = beBytes 2 (reflectedCrc bytes).toNat := by
  have hfirmware : Firmware.crc16Data bytes 0 = reflectedCrc bytes :=
    (Firmware.crc16Data_eq_crc bytes).trans (hostCrc_eq bytes)
  refine ⟨hfirmware, hostCrc_eq bytes, ?_⟩
  rw [crc_eq_beBytes, foldl_crcStep, hfirmware]

end Hexabus.Java
