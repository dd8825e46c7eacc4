import Hexabus.Lib.Crc

/-!
# The check at the start

The socket's `Bootloader.c`: when an image has been programmed, the checksum of the flash goes to
the EEPROM, and `main` compares it before it starts the program. The bits of the flash are counted
as the checksum takes them, from the highest one of each byte on.
-/

namespace Hexabus.Firmware.BootCheck

open Lib.Crc

/-! ## The checksum -/

/-- `BOOTLOADER_START`. -/
def bootloaderStart : Nat := 0xF000

/-- `BOOT_START` of the makefile, where the bootloader is linked. -/
def bootStart : Nat := 0x1E000

/-- `calc_crc`: the inner loop. -/
def crcBits : Nat → UInt16 → UInt8 → UInt16
  | 0, crc, _ => crc
  | n + 1, crc, byte =>
    let crcbit := crc &&& 0x8000 != 0
    let databit := byte &&& 0x80 != 0
    crcBits n (if crcbit != databit then (crc <<< 1) ^^^ 0x1021 else crc <<< 1) (byte <<< 1)

/-- `calc_crc`. -/
def calcCrc (flash : Nat → UInt8) : UInt16 :=
  (List.range bootloaderStart).foldl (fun crc c => crcBits 8 crc (flash c)) 0xFFFF

/-! ## Programming and starting -/

/-- The flash and the EEPROM's `EE_BOOTLOADER_FLAG` and `EE_BOOTLOADER_CRC`. -/
structure Memory where
  flash : Nat → UInt8
  bootloaderFlag : UInt8
  bootloaderCrc : UInt16

/-- `ProgramFlash`, when the last page has been written. -/
def programmed (m : Memory) : Memory :=
  { m with bootloaderCrc := calcCrc m.flash, bootloaderFlag := 0xFF }

/-- `main`, up to `Start_Program`: whether it is called. -/
def starts (buttonPressed : Bool) (m : Memory) : Bool :=
  let flag := if buttonPressed then 0x00 else m.bootloaderFlag
  flag != 0 && m.bootloaderCrc == calcCrc m.flash

/-- The memory when the flash has changed since it was programmed. -/
def Memory.changed (m : Memory) (flash : Nat → UInt8) : Memory :=
  { programmed m with flash := flash }

/-! ## Changes -/

/-- An image, below the bootloader. -/
structure Image where
  start : Nat
  length : Nat
  fits : start + length ≤ bootStart

/-- A bit of the flash. -/
def bitAt (flash : Nat → UInt8) (n : Nat) : Bool := (flash (n / 8)).toBitVec.getMsbD (n % 8)

/-- A change that is confined to at most 16 consecutive bits of an image. -/
def Burst (image : Image) (flash flash' : Nat → UInt8) : Prop :=
  ∃ j, ∃ k ≤ 16, 8 * image.start ≤ j ∧ j + k ≤ 8 * (image.start + image.length) ∧
    ∀ n, ¬ (j ≤ n ∧ n < j + k) → bitAt flash' n = bitAt flash n

/-- A program that has not changed is started when the button is not pressed, and one that has
changed is not started. -/
def Checked (m : Memory) (flash : Nat → UInt8) : Prop :=
  (flash = m.flash → starts false (m.changed flash) = true) ∧
    (flash ≠ m.flash → ∀ buttonPressed, starts buttonPressed (m.changed flash) = false)

/-! ## The checksum as a register -/

theorem crcbit_eq (crc : UInt16) : (crc &&& 0x8000 != 0) = crc.toBitVec.msb := by
  have h : (crc &&& 0x8000).toBitVec =
      if crc.toBitVec.getLsbD 15 then BitVec.twoPow 16 15 else 0#16 :=
    BitVec.and_twoPow crc.toBitVec 15
  rw [BitVec.msb_eq_getLsbD_last]
  cases hbit : crc.toBitVec.getLsbD 15 <;> rw [hbit] at h
  · have hzero : crc &&& 0x8000 = 0 := UInt16.toBitVec_inj.mp h
    rw [hzero]
    rfl
  · have hhigh : crc &&& 0x8000 = 0x8000 := UInt16.toBitVec_inj.mp h
    rw [hhigh]
    rfl

theorem databit_eq (byte : UInt8) : (byte &&& 0x80 != 0) = byte.toBitVec.getMsbD 0 := by
  have h : (byte &&& 0x80).toBitVec =
      if byte.toBitVec.getLsbD 7 then BitVec.twoPow 8 7 else 0#8 :=
    BitVec.and_twoPow byte.toBitVec 7
  have hmsb : byte.toBitVec.getMsbD 0 = byte.toBitVec.getLsbD 7 := by
    rw [BitVec.getMsbD_eq_getLsbD]
    rfl
  rw [hmsb]
  cases hbit : byte.toBitVec.getLsbD 7 <;> rw [hbit] at h
  · have hzero : byte &&& 0x80 = 0 := UInt8.toBitVec_inj.mp h
    rw [hzero]
    rfl
  · have hhigh : byte &&& 0x80 = 0x80 := UInt8.toBitVec_inj.mp h
    rw [hhigh]
    rfl

theorem crcBits_toBitVec (n : Nat) (crc : UInt16) (byte : UInt8) :
    (crcBits n crc byte).toBitVec =
      feed 0x1021#16 crc.toBitVec ((List.range n).map fun i => byte.toBitVec.getMsbD i) := by
  induction n generalizing crc byte with
  | zero => rfl
  | succ n ih =>
    rw [crcBits, ih, crcbit_eq, databit_eq, List.range_succ_eq_map, List.map_cons, List.map_map]
    have hstep : (if (crc.toBitVec.msb != byte.toBitVec.getMsbD 0) then crc <<< 1 ^^^ 0x1021
        else crc <<< 1).toBitVec = feedBit 0x1021#16 crc.toBitVec (byte.toBitVec.getMsbD 0) := by
      unfold feedBit
      split <;> rfl
    have hbits : (List.range n).map (fun i => (byte <<< 1).toBitVec.getMsbD i) =
        (List.range n).map ((fun i => byte.toBitVec.getMsbD i) ∘ Nat.succ) := by
      refine List.map_congr_left fun i _ => ?_
      show (byte.toBitVec <<< 1).getMsbD i = byte.toBitVec.getMsbD (i + 1)
      rw [BitVec.getMsbD_shiftLeft]
    rw [hstep, hbits]
    rfl

/-- The bits of the flash below a byte. -/
def bitsBelow (flash : Nat → UInt8) (n : Nat) : List Bool := (List.range (8 * n)).map (bitAt flash)

theorem bitsBelow_succ (flash : Nat → UInt8) (n : Nat) :
    bitsBelow flash (n + 1) =
      bitsBelow flash n ++ (List.range 8).map fun i => (flash n).toBitVec.getMsbD i := by
  rw [bitsBelow, Nat.mul_succ, List.range_add, List.map_append, List.map_map, bitsBelow]
  congr 1
  refine List.map_congr_left fun i hi => ?_
  have hlt := List.mem_range.mp hi
  have hdiv : (8 * n + i) / 8 = n := by omega
  have hmod : (8 * n + i) % 8 = i := by omega
  rw [Function.comp_apply, bitAt, hdiv, hmod]

theorem foldl_crcBits (flash : Nat → UInt8) (n : Nat) (crc : UInt16) :
    ((List.range n).foldl (fun crc c => crcBits 8 crc (flash c)) crc).toBitVec =
      feed 0x1021#16 crc.toBitVec (bitsBelow flash n) := by
  induction n with
  | zero => rfl
  | succ n ih =>
    rw [List.range_succ, List.foldl_append, List.foldl_cons, List.foldl_nil, crcBits_toBitVec, ih,
      bitsBelow_succ, feed_append]

theorem calcCrc_toBitVec (flash : Nat → UInt8) :
    (calcCrc flash).toBitVec = feed 0x1021#16 0xFFFF#16 (bitsBelow flash bootloaderStart) :=
  foldl_crcBits flash bootloaderStart 0xFFFF

/-! ## What a change does -/

theorem bitsBelow_eq_iff {flash flash' : Nat → UInt8} {n : Nat} :
    bitsBelow flash' n = bitsBelow flash n ↔ ∀ a < n, flash' a = flash a := by
  unfold bitsBelow
  rw [List.map_inj_left]
  constructor
  · intro h a ha
    refine UInt8.toBitVec_inj.mp (BitVec.eq_of_getMsbD_eq fun i hi => ?_)
    have hbit := h (8 * a + i) (List.mem_range.mpr (by omega))
    have hdiv : (8 * a + i) / 8 = a := by omega
    have hmod : (8 * a + i) % 8 = i := by omega
    rwa [bitAt, bitAt, hdiv, hmod] at hbit
  · intro h m hm
    rw [bitAt, bitAt, h (m / 8) (by have := List.mem_range.mp hm; omega)]

/-- Two lists that differ in a window only. -/
theorem exists_window {α : Type} {xs ys : List α} (hlen : xs.length = ys.length) (j k : Nat)
    (h : ∀ n, ¬ (j ≤ n ∧ n < j + k) → xs[n]? = ys[n]?) :
    ∃ pre us vs post, xs = pre ++ us ++ post ∧ ys = pre ++ vs ++ post ∧ us.length = vs.length ∧
      us.length ≤ k := by
  refine ⟨xs.take j, (xs.drop j).take k, (ys.drop j).take k, xs.drop (j + k), ?_, ?_, ?_, ?_⟩
  · rw [List.append_assoc, ← List.drop_drop, List.take_append_drop, List.take_append_drop]
  · have hpre : xs.take j = ys.take j := by
      refine List.ext_getElem? fun n => ?_
      rw [List.getElem?_take, List.getElem?_take]
      split
      · exact h n (by omega)
      · rfl
    have hpost : xs.drop (j + k) = ys.drop (j + k) := by
      refine List.ext_getElem? fun n => ?_
      rw [List.getElem?_drop, List.getElem?_drop]
      exact h (j + k + n) (by omega)
    rw [hpre, hpost, List.append_assoc, ← List.drop_drop, List.take_append_drop,
      List.take_append_drop]
  · rw [List.length_take, List.length_take, List.length_drop, List.length_drop, hlen]
  · rw [List.length_take]
    exact Nat.min_le_left _ _

/-- Lists that differ in a window that is no longer than the register, and that have one checksum,
are equal. -/
theorem eq_of_window {w : Nat} {poly : BitVec w} (hpoly : poly.getLsbD 0 = true) {crc : BitVec w}
    {xs ys : List Bool} (hlen : xs.length = ys.length) {j k : Nat} (hk : k ≤ w)
    (hsame : ∀ n, ¬ (j ≤ n ∧ n < j + k) → xs[n]? = ys[n]?)
    (h : feed poly crc xs = feed poly crc ys) : xs = ys := by
  obtain ⟨pre, us, vs, post, rfl, rfl, hlen', hus⟩ := exists_window hlen j k hsame
  by_contra hne
  have hwindow : us ≠ vs := fun heq => hne (by rw [heq])
  exact feed_ne_of_burst hpoly crc pre post hlen' (hus.trans hk) hwindow h

theorem getElem?_bitsBelow {flash flash' : Nat → UInt8} {n m : Nat}
    (h : bitAt flash' m = bitAt flash m) : (bitsBelow flash' n)[m]? = (bitsBelow flash n)[m]? := by
  rw [bitsBelow, bitsBelow, List.getElem?_map, List.getElem?_map]
  rcases Nat.lt_or_ge m (8 * n) with hlt | hge
  · rw [List.getElem?_range hlt, Option.map_some, Option.map_some, h]
  · rw [List.getElem?_eq_none (by rw [List.length_range]; exact hge)]
    rfl

theorem length_bitsBelow (flash : Nat → UInt8) (n : Nat) : (bitsBelow flash n).length = 8 * n := by
  rw [bitsBelow, List.length_map, List.length_range]

/-- **A burst is seen where the checksum looks**: below `BOOTLOADER_START`. -/
theorem calcCrc_eq_iff {image : Image} {flash flash' : Nat → UInt8} (h : Burst image flash flash') :
    calcCrc flash' = calcCrc flash ↔ ∀ a < bootloaderStart, flash' a = flash a := by
  rw [← UInt16.toBitVec_inj, calcCrc_toBitVec, calcCrc_toBitVec, ← bitsBelow_eq_iff]
  refine ⟨fun hcrc => ?_, fun hbits => by rw [hbits]⟩
  obtain ⟨j, k, hk, -, -, hsame⟩ := h
  have hlen := (length_bitsBelow flash' bootloaderStart).trans
    (length_bitsBelow flash bootloaderStart).symm
  exact eq_of_window (by decide) hlen hk (fun n hn => getElem?_bitsBelow (hsame n hn)) hcrc

theorem starts_changed (m : Memory) (flash : Nat → UInt8) :
    starts false (m.changed flash) = true ↔ calcCrc flash = calcCrc m.flash := by
  have hflag : (0xFF : UInt8) != 0 := by decide
  simp only [starts, Memory.changed, programmed, Bool.false_eq_true, if_false, hflag, Bool.true_and,
    beq_iff_eq]
  exact eq_comm

theorem starts_pressed (m : Memory) : starts true m = false := rfl

/-- **When the check at the start is right**: when the change shows below `BOOTLOADER_START`, or
there is none. -/
theorem checked_iff {image : Image} {m : Memory} {flash : Nat → UInt8}
    (h : Burst image m.flash flash) :
    Checked m flash ↔ flash = m.flash ∨ ∃ a < bootloaderStart, flash a ≠ m.flash a := by
  have hcrc := calcCrc_eq_iff h
  have hstarts := starts_changed m flash
  constructor
  · intro hchecked
    by_cases heq : flash = m.flash
    · exact .inl heq
    · right
      have hfalse := hchecked.2 heq false
      by_contra hall
      push Not at hall
      rw [hstarts.mpr (hcrc.mpr hall)] at hfalse
      cases hfalse
  · intro hwhere
    refine ⟨fun heq => hstarts.mpr (by rw [heq]), fun hne pressed => ?_⟩
    obtain ⟨a, ha, hchange⟩ := hwhere.resolve_left hne
    cases pressed with
    | true => exact starts_pressed _
    | false => exact Bool.eq_false_iff.mpr fun ht => hchange (hcrc.mp (hstarts.mp ht) a ha)

/-! ## A long image -/

/-- An image of the whole application section. -/
def longImage : Image := ⟨0, bootStart, by decide⟩

/-- A flash with one byte changed. -/
def withByte (flash : Nat → UInt8) (a : Nat) (byte : UInt8) : Nat → UInt8 :=
  fun n => if n = a then byte else flash n

theorem burst_withByte {flash : Nat → UInt8} {a : Nat} (ha : a < bootStart) (byte : UInt8) :
    Burst longImage flash (withByte flash a byte) := by
  refine ⟨8 * a, 8, by decide, Nat.zero_le _, ?_, fun n hn => ?_⟩
  · show 8 * a + 8 ≤ 8 * (0 + bootStart)
    omega
  · have hne : n / 8 ≠ a := by omega
    rw [bitAt, bitAt, withByte, if_neg hne]

/-- A byte that changes within the checksum's range is seen. -/
theorem checked_low :
    Checked ⟨fun _ => 0, 0, 0⟩ (withByte (fun _ => 0) 0x100 1) :=
  (checked_iff (burst_withByte (by decide) 1)).mpr
    (.inr ⟨0x100, by decide, by decide⟩)

/-- A byte that changes at the address 0xF000 of the image is not seen: the program is started. -/
theorem started_high :
    Burst longImage (fun _ => 0) (withByte (fun _ => 0) 0xF000 1) ∧
      withByte (fun _ => 0) 0xF000 1 ≠ (fun _ => 0) ∧
      starts false (Memory.changed ⟨fun _ => 0, 0, 0⟩ (withByte (fun _ => 0) 0xF000 1)) = true := by
  refine ⟨burst_withByte (by decide) 1, fun h => ?_, ?_⟩
  · exact absurd (congrFun h 0xF000) (by decide)
  · refine (starts_changed _ _).mpr ((calcCrc_eq_iff (burst_withByte (by decide) 1)).mpr ?_)
    intro a ha
    exact if_neg (Nat.ne_of_lt ha)

end Hexabus.Firmware.BootCheck
