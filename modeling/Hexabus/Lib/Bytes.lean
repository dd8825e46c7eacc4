import Mathlib.Data.List.TakeWhile
import Mathlib.Tactic

/-!
# Bytes, byte order and C strings

A number laid out as a fixed count of bytes, in either order, and read back;
the prefix of a byte list that a C string denotes. Nothing here knows about a
packet: widths are parameters, and the round trips are the two halves of a
bijection between `n` bytes and the numbers below `256 ^ n`.
-/

namespace Hexabus.Lib.Bytes

/-- The `n` low-order bytes of `x`, least significant first. -/
def leBytes : Nat → Nat → List UInt8
  | 0, _ => []
  | n + 1, x => UInt8.ofNat (x % 256) :: leBytes n (x / 256)

/-- The number a little-endian byte list denotes. -/
def ofLe : List UInt8 → Nat
  | [] => 0
  | b :: bs => b.toNat + 256 * ofLe bs

/-- The `n` low-order bytes of `x`, most significant first. -/
def beBytes (n x : Nat) : List UInt8 := (leBytes n x).reverse

/-- The number a big-endian byte list denotes. -/
def ofBe (bs : List UInt8) : Nat := ofLe bs.reverse

@[simp] theorem length_leBytes (n x : Nat) : (leBytes n x).length = n := by
  induction n generalizing x with
  | zero => rfl
  | succ n ih => simp [leBytes, ih]

@[simp] theorem length_beBytes (n x : Nat) : (beBytes n x).length = n := by
  simp [beBytes]

theorem toNat_ofNat_mod (x : Nat) : (UInt8.ofNat (x % 256)).toNat = x % 256 := by
  rw [UInt8.toNat_ofNat']
  omega

/-- Reading back `n` little-endian bytes keeps exactly the low `n` bytes. -/
@[simp] theorem ofLe_leBytes (n x : Nat) : ofLe (leBytes n x) = x % 256 ^ n := by
  induction n generalizing x with
  | zero => simp [leBytes, ofLe, Nat.mod_one]
  | succ n ih =>
    have hmod : x % 256 ^ (n + 1) = x % 256 + 256 * (x / 256 % 256 ^ n) := by
      rw [pow_succ, Nat.mul_comm, Nat.mod_mul]
    simp only [leBytes, ofLe, ih, toNat_ofNat_mod, hmod]

@[simp] theorem ofBe_beBytes (n x : Nat) : ofBe (beBytes n x) = x % 256 ^ n := by
  simp [ofBe, beBytes]

theorem ofLe_lt (bs : List UInt8) : ofLe bs < 256 ^ bs.length := by
  induction bs with
  | nil => simp [ofLe]
  | cons b bs ih =>
    have hb : b.toNat < 256 := b.toNat_lt
    simp only [ofLe, List.length_cons, pow_succ]
    omega

theorem ofBe_lt (bs : List UInt8) : ofBe bs < 256 ^ bs.length := by
  simpa [ofBe] using ofLe_lt bs.reverse

theorem uint32_ofLe_leBytes (v : UInt32) : UInt32.ofNat (ofLe (leBytes 4 v.toNat)) = v := by
  have hmod : v.toNat % 256 ^ 4 = v.toNat := Nat.mod_eq_of_lt v.toNat_lt
  rw [ofLe_leBytes, hmod, UInt32.ofNat_toNat]

theorem uint16_ofLe_leBytes (v : UInt16) : UInt16.ofNat (ofLe (leBytes 2 v.toNat)) = v := by
  have hmod : v.toNat % 256 ^ 2 = v.toNat := Nat.mod_eq_of_lt v.toNat_lt
  rw [ofLe_leBytes, hmod, UInt16.ofNat_toNat]

/-- Laying the number of a byte list out again gives the list back. -/
@[simp] theorem leBytes_ofLe (bs : List UInt8) : leBytes bs.length (ofLe bs) = bs := by
  induction bs with
  | nil => rfl
  | cons b bs ih =>
    have hb : b.toNat < 256 := b.toNat_lt
    have hlow : (b.toNat + 256 * ofLe bs) % 256 = b.toNat := by omega
    have hhigh : (b.toNat + 256 * ofLe bs) / 256 = ofLe bs := by omega
    simp only [ofLe, List.length_cons, leBytes, hlow, hhigh, ih, UInt8.ofNat_toNat]

@[simp] theorem beBytes_ofBe (bs : List UInt8) : beBytes bs.length (ofBe bs) = bs := by
  have h := leBytes_ofLe bs.reverse
  rw [List.length_reverse] at h
  simp [beBytes, ofBe, h]

/-- Swapping the byte order of a laid-out number reverses its bytes: the
`htons`/`htonl` family on a little-endian machine. -/
theorem leBytes_ofBe (bs : List UInt8) : leBytes bs.length (ofBe bs) = bs.reverse := by
  have h := leBytes_ofLe bs.reverse
  rwa [List.length_reverse] at h

/-! ## Blocks of a fixed size -/

/-- Exactly `n` bytes: a `char[n]`. -/
abbrev Block (n : Nat) := { bs : List UInt8 // bs.length = n }

/-- The `k` bytes of a block from `off` on. -/
def Block.slice {n : Nat} (b : Block n) (off k : Nat) (h : off + k ≤ n) : Block k :=
  ⟨(b.val.drop off).take k, by
    have hlen := b.property
    rw [List.length_take, List.length_drop]
    omega⟩

/-- A block whose bytes are all zero. -/
def Block.zero (n : Nat) : Block n := ⟨List.replicate n 0, List.length_replicate⟩

/-! ## Fields of a concatenation -/

theorem take_drop_field {α : Type} {all xs : List α} {a n : Nat} (pre post : List α)
    (hall : all = pre ++ (xs ++ post)) (ha : pre.length = a) (hn : xs.length = n) :
    (all.drop a).take n = xs := by
  rw [hall, ← ha, List.drop_left, ← hn, List.take_left]

theorem getD_field {α : Type} {all : List α} {b d : α} {a : Nat} (pre post : List α)
    (hall : all = pre ++ b :: post) (ha : pre.length = a) : all.getD a d = b := by
  rw [hall, ← ha]
  simp

theorem Block.slice_field {n k off : Nat} {b : Block n} {x : Block k} (pre post : List UInt8)
    (h : off + k ≤ n) (hall : b.val = pre ++ (x.val ++ post)) (ha : pre.length = off) :
    b.slice off k h = x :=
  Subtype.ext (take_drop_field pre post hall ha x.property)

/-! ## C strings -/

/-- The bytes in front of the first NUL: what a `char*` to these bytes denotes. -/
def cString (bs : List UInt8) : List UInt8 := bs.takeWhile (· ≠ 0)

/-- Nothing behind a NUL is denoted. -/
theorem cString_append (s rest : List UInt8) : cString (s ++ 0 :: rest) = cString s := by
  induction s with
  | nil => rfl
  | cons b s ih =>
    by_cases hb : b = 0
    · simp [cString, hb]
    · unfold cString at ih ⊢
      rw [List.cons_append, List.takeWhile_cons_of_pos (by simpa using hb),
        List.takeWhile_cons_of_pos (by simpa using hb), ih]

/-- The texts denoted whole are the ones without a NUL. -/
theorem cString_eq_self {s : List UInt8} : cString s = s ↔ ∀ b ∈ s, b ≠ 0 := by
  simp [cString, List.takeWhile_eq_self_iff]

/-- A C string denotes no NUL. -/
theorem ne_zero_of_mem_cString {bs : List UInt8} {b : UInt8} (h : b ∈ cString bs) : b ≠ 0 := by
  simpa using List.mem_takeWhile_imp h

theorem cString_length_le (bs : List UInt8) : (cString bs).length ≤ bs.length :=
  (List.takeWhile_prefix _).length_le

/-- A byte list that holds a NUL is its C string, that NUL, and a rest. -/
theorem cString_split {bs : List UInt8} (h : (0 : UInt8) ∈ bs) :
    ∃ rest, bs = cString bs ++ 0 :: rest := by
  induction bs with
  | nil => simp at h
  | cons b bs ih =>
    by_cases hb : b = 0
    · subst hb
      exact ⟨bs, by simp [cString]⟩
    · have hmem : (0 : UInt8) ∈ bs := by
        rcases List.mem_cons.mp h with h0 | h0
        · exact absurd h0.symm hb
        · exact h0
      obtain ⟨rest, hrest⟩ := ih hmem
      refine ⟨rest, ?_⟩
      have hcons : cString (b :: bs) = b :: cString bs := by simp [cString, hb]
      rw [hcons, List.cons_append, ← hrest]

/-- What stands behind a block with a NUL is not denoted. -/
theorem cString_append_of_mem {bs : List UInt8} (h : (0 : UInt8) ∈ bs) (rest : List UInt8) :
    cString (bs ++ rest) = cString bs := by
  obtain ⟨tail, htail⟩ := cString_split h
  nth_rewrite 1 [htail]
  rw [List.append_assoc, List.cons_append, cString_append]
  exact cString_eq_self.mpr fun b hb => ne_zero_of_mem_cString hb

end Hexabus.Lib.Bytes
