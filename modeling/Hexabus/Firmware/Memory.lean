import Hexabus.Lib.Store
import Hexabus.Shared.Types

/-!
# Memory and byte order of the microcontroller

The firmware overlays packed structs on buffers and on the EEPROM. Both are
memories here: a field is a read or a write at an offset, a multi-byte field has
its low byte first. `uip_htons` and `uip_htonl` swap the byte order, which is
how the fields get into network order and back.
-/

namespace Hexabus.Firmware

open Lib.Bytes Lib.Store

/-- A memory: RAM from the start of a buffer on, or the EEPROM. -/
abbrev Mem := Nat → UInt8

def getU16 (m : Mem) (off : Nat) : UInt16 := UInt16.ofNat (ofLe (readBlock m off 2))

def getU32 (m : Mem) (off : Nat) : UInt32 := UInt32.ofNat (ofLe (readBlock m off 4))

def setU8 (m : Mem) (off : Nat) (v : UInt8) : Mem := writeBlock m off [v]

def setU16 (m : Mem) (off : Nat) (v : UInt16) : Mem := writeBlock m off (leBytes 2 v.toNat)

def setU32 (m : Mem) (off : Nat) (v : UInt32) : Mem := writeBlock m off (leBytes 4 v.toNat)

/-- `UIP_HTONS`; `uip_ntohs` is the same function. -/
def uipHtons (n : UInt16) : UInt16 := (n <<< 8) ||| (n >>> 8)

/-- `UIP_HTONL`; `uip_ntohl` is the same function. -/
def uipHtonl (n : UInt32) : UInt32 :=
  ((uipHtons n.toUInt16).toUInt32 <<< 16) ||| (uipHtons (n >>> 16).toUInt16).toUInt32

/-! ## What the swaps compute -/

/-- Two parts of a word that do not overlap: their `or` is their sum. -/
theorem shift_or_eq_add {a b k : Nat} (hb : b < 2 ^ k) : a * 2 ^ k ||| b = a * 2 ^ k + b := by
  rw [← Nat.shiftLeft_eq, Nat.shiftLeft_add_eq_or_of_lt hb]

/-- `uip_htons` exchanges the two bytes of a word. -/
theorem uipHtons_toNat {n : UInt16} {a b : Nat} (ha : a < 256) (hb : b < 256)
    (hn : n.toNat = a + 256 * b) : (uipHtons n).toNat = b + 256 * a := by
  have hleft : n.toNat <<< 8 % 65536 = a * 2 ^ 8 := by
    rw [Nat.shiftLeft_eq, hn]
    omega
  have hright : n.toNat >>> 8 = b := by
    rw [Nat.shiftRight_eq_div_pow, hn]
    omega
  rw [uipHtons, UInt16.toNat_or, UInt16.toNat_shiftLeft, UInt16.toNat_shiftRight]
  show (n.toNat <<< 8 % 65536) ||| (n.toNat >>> 8) = _
  rw [hleft, hright, shift_or_eq_add hb]
  omega

/-- `uip_htonl` reverses the four bytes of a word. -/
theorem uipHtonl_toNat {n : UInt32} {a b c d : Nat} (ha : a < 256) (hb : b < 256) (hc : c < 256)
    (hd : d < 256) (hn : n.toNat = a + 256 * (b + 256 * (c + 256 * d))) :
    (uipHtonl n).toNat = d + 256 * (c + 256 * (b + 256 * a)) := by
  have hlow : (uipHtons n.toUInt16).toNat = b + 256 * a := by
    apply uipHtons_toNat ha hb
    rw [UInt32.toNat_toUInt16, hn]
    omega
  have hhigh : (uipHtons (n >>> 16).toUInt16).toNat = d + 256 * c := by
    apply uipHtons_toNat hc hd
    rw [UInt32.toNat_toUInt16, UInt32.toNat_shiftRight]
    show n.toNat >>> 16 % 65536 = _
    rw [Nat.shiftRight_eq_div_pow, hn]
    omega
  have hlt : d + 256 * c < 2 ^ 16 := by omega
  have hleft : (b + 256 * a) <<< 16 % 2 ^ 32 = (b + 256 * a) * 2 ^ 16 := by
    rw [Nat.shiftLeft_eq]
    omega
  rw [uipHtonl, UInt32.toNat_or, UInt32.toNat_shiftLeft, UInt16.toNat_toUInt32,
    UInt16.toNat_toUInt32, hlow, hhigh, show (16 : UInt32).toNat % 32 = 16 from rfl, hleft,
    shift_or_eq_add hlt]
  omega

/-- A field in network order, loaded by the machine and swapped. -/
theorem uipHtons_ofLe {bs : List UInt8} (h : bs.length = 2) :
    uipHtons (UInt16.ofNat (ofLe bs)) = UInt16.ofNat (ofBe bs) := by
  obtain ⟨a, b, rfl⟩ := List.length_eq_two.mp h
  have hlt : ofBe [a, b] < 256 ^ 2 := ofBe_lt [a, b]
  have hle : ofLe [a, b] < 256 ^ 2 := ofLe_lt [a, b]
  have hswap : (uipHtons (UInt16.ofNat (ofLe [a, b]))).toNat = b.toNat + 256 * a.toNat := by
    apply uipHtons_toNat a.toNat_lt b.toNat_lt
    rw [UInt16.toNat_ofNat_of_lt' hle]
    simp [ofLe]
  apply UInt16.toNat_inj.mp
  rw [hswap, UInt16.toNat_ofNat_of_lt' hlt]
  simp [ofBe, ofLe]

theorem uipHtonl_ofLe {bs : List UInt8} (h : bs.length = 4) :
    uipHtonl (UInt32.ofNat (ofLe bs)) = UInt32.ofNat (ofBe bs) := by
  obtain ⟨a, b, c, d, rfl⟩ : ∃ a b c d, bs = [a, b, c, d] := by
    match bs, h with
    | [a, b, c, d], _ => exact ⟨a, b, c, d, rfl⟩
  have hlt : ofBe [a, b, c, d] < 256 ^ 4 := ofBe_lt [a, b, c, d]
  have hle : ofLe [a, b, c, d] < 256 ^ 4 := ofLe_lt [a, b, c, d]
  have hswap : (uipHtonl (UInt32.ofNat (ofLe [a, b, c, d]))).toNat
      = d.toNat + 256 * (c.toNat + 256 * (b.toNat + 256 * a.toNat)) := by
    apply uipHtonl_toNat a.toNat_lt b.toNat_lt c.toNat_lt d.toNat_lt
    rw [UInt32.toNat_ofNat_of_lt' hle]
    simp [ofLe]
  apply UInt32.toNat_inj.mp
  rw [hswap, UInt32.toNat_ofNat_of_lt' hlt]
  simp [ofBe, ofLe]

/-- Swapped and laid out by the machine, a word stands in network order. -/
theorem leBytes_uipHtons (n : UInt16) : leBytes 2 (uipHtons n).toNat = beBytes 2 n.toNat := by
  have hlen : (leBytes 2 n.toNat).length = 2 := length_leBytes 2 _
  have hmod : n.toNat % 256 ^ 2 = n.toNat := Nat.mod_eq_of_lt n.toNat_lt
  have hswap := uipHtons_ofLe hlen
  rw [ofLe_leBytes, hmod, UInt16.ofNat_toNat] at hswap
  have hlt : ofBe (leBytes 2 n.toNat) < 256 ^ 2 := by
    simpa [hlen] using ofBe_lt (leBytes 2 n.toNat)
  rw [hswap, UInt16.toNat_ofNat_of_lt' hlt]
  have hrev := leBytes_ofBe (leBytes 2 n.toNat)
  rw [hlen] at hrev
  exact hrev

theorem leBytes_uipHtonl (n : UInt32) : leBytes 4 (uipHtonl n).toNat = beBytes 4 n.toNat := by
  have hlen : (leBytes 4 n.toNat).length = 4 := length_leBytes 4 _
  have hmod : n.toNat % 256 ^ 4 = n.toNat := Nat.mod_eq_of_lt n.toNat_lt
  have hswap := uipHtonl_ofLe hlen
  rw [ofLe_leBytes, hmod, UInt32.ofNat_toNat] at hswap
  have hlt : ofBe (leBytes 4 n.toNat) < 256 ^ 4 := by
    simpa [hlen] using ofBe_lt (leBytes 4 n.toNat)
  rw [hswap, UInt32.toNat_ofNat_of_lt' hlt]
  have hrev := leBytes_ofBe (leBytes 4 n.toNat)
  rw [hlen] at hrev
  exact hrev

end Hexabus.Firmware
