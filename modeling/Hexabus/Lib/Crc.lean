import Mathlib.Tactic

/-!
# Reflected cyclic redundancy checks

The bit-serial register of a reflected CRC of any width and any polynomial, fed
byte by byte, and the two facts that let a table-free or byte-parallel
implementation be compared with it: the register update is additive over xor,
and additive maps that agree on the one-hot words agree everywhere
(`eq_of_additive`).
-/

namespace Hexabus.Lib.Crc

variable {w : Nat}

/-- One bit of the reflected register: shift out the low bit, fold the
polynomial in if it was set. -/
def bitStep (poly crc : BitVec w) : BitVec w :=
  if crc.getLsbD 0 then (crc >>> 1) ^^^ poly else crc >>> 1

def bitSteps (poly : BitVec w) : Nat → BitVec w → BitVec w
  | 0, crc => crc
  | n + 1, crc => bitSteps poly n (bitStep poly crc)

/-- One input byte, low bit first. -/
def byteStep (poly crc : BitVec w) (b : UInt8) : BitVec w :=
  bitSteps poly 8 (crc ^^^ b.toBitVec.setWidth w)

/-- The register after a whole message. -/
def checksum (poly init : BitVec w) (bytes : List UInt8) : BitVec w :=
  bytes.foldl (byteStep poly) init

/-- A map of words that is additive over xor. -/
def Additive {v : Nat} (f : BitVec w → BitVec v) : Prop :=
  ∀ x y, f (x ^^^ y) = f x ^^^ f y

theorem bitStep_additive (poly : BitVec w) : Additive (bitStep poly) := by
  intro x y
  unfold bitStep
  rw [BitVec.getLsbD_xor, BitVec.ushiftRight_xor_distrib]
  cases hx : x.getLsbD 0 <;> cases hy : y.getLsbD 0
  · simp
  · simp [BitVec.xor_assoc]
  · simp only [Bool.bne_false, if_true, Bool.false_eq_true, if_false]
    rw [BitVec.xor_assoc, BitVec.xor_assoc, BitVec.xor_comm poly]
  · simp only [bne_self_eq_false, Bool.false_eq_true, if_false, if_true]
    calc x >>> 1 ^^^ y >>> 1
        = x >>> 1 ^^^ (y >>> 1 ^^^ (poly ^^^ poly)) := by simp
      _ = x >>> 1 ^^^ (poly ^^^ (y >>> 1 ^^^ poly)) := by
          rw [BitVec.xor_comm poly (y >>> 1 ^^^ poly), BitVec.xor_assoc]
      _ = x >>> 1 ^^^ poly ^^^ (y >>> 1 ^^^ poly) := by rw [BitVec.xor_assoc]

theorem bitSteps_additive (poly : BitVec w) (n : Nat) : Additive (bitSteps poly n) := by
  induction n with
  | zero => intro x y; rfl
  | succ n ih =>
    intro x y
    simp only [bitSteps]
    rw [bitStep_additive poly x y]
    exact ih _ _

theorem Additive.zero {v : Nat} {f : BitVec w → BitVec v} (hf : Additive f) : f 0#w = 0#v := by
  have h := hf 0#w 0#w
  rw [BitVec.xor_self, BitVec.xor_self] at h
  exact h

/-- The low `k` bits of a word. -/
def lowBits (k : Nat) (x : BitVec w) : BitVec w :=
  BitVec.ofNat w (x.toNat % 2 ^ k)

theorem getLsbD_lowBits (k : Nat) (x : BitVec w) (i : Nat) :
    (lowBits k x).getLsbD i = (decide (i < k) && x.getLsbD i) := by
  unfold lowBits
  rw [BitVec.getLsbD_ofNat, Nat.testBit_mod_two_pow, ← BitVec.testBit_toNat]
  by_cases hi : i < w
  · simp [hi]
  · simp [hi, BitVec.testBit_toNat, BitVec.getLsbD_of_ge x i (by omega)]

/-- Adding bit `k` to the low `k` bits gives the low `k + 1` bits. -/
theorem lowBits_succ (k : Nat) (x : BitVec w) :
    lowBits (k + 1) x = lowBits k x ^^^ (if x.getLsbD k then BitVec.twoPow w k else 0#w) := by
  apply BitVec.eq_of_getLsbD_eq
  intro i hi
  rw [BitVec.getLsbD_xor, getLsbD_lowBits, getLsbD_lowBits]
  by_cases hik : i = k
  · subst hik
    cases hx : x.getLsbD i <;> simp [hi]
  · have hlt : decide (i < k + 1) = decide (i < k) := by
      apply decide_eq_decide.mpr
      omega
    rw [hlt]
    have hne : ¬ k = i := fun h => hik h.symm
    cases x.getLsbD k <;> simp [BitVec.getLsbD_twoPow, hne]

theorem lowBits_width (x : BitVec w) : lowBits w x = x := by
  apply BitVec.eq_of_getLsbD_eq
  intro i hi
  rw [getLsbD_lowBits, decide_eq_true hi, Bool.true_and]

/-- Additive maps that agree on every one-hot word agree on every word. -/
theorem eq_of_additive {v : Nat} {f g : BitVec w → BitVec v} (hf : Additive f) (hg : Additive g)
    (hbasis : ∀ k < w, f (BitVec.twoPow w k) = g (BitVec.twoPow w k)) (x : BitVec w) :
    f x = g x := by
  have hlow : ∀ k ≤ w, f (lowBits k x) = g (lowBits k x) := by
    intro k
    induction k with
    | zero =>
      intro _
      have h0 : lowBits 0 x = 0#w := by
        apply BitVec.eq_of_getLsbD_eq
        intro i _
        simp [getLsbD_lowBits]
      rw [h0, hf.zero, hg.zero]
    | succ k ih =>
      intro hk
      rw [lowBits_succ, hf, hg, ih (by omega)]
      cases x.getLsbD k
      · simp [hf.zero, hg.zero]
      · simp [hbasis k (by omega)]
  simpa [lowBits_width] using hlow w (Nat.le_refl w)

/-! ## The register that is not reflected -/

/-- One bit of the plain register: shift out the high bit, fold the polynomial in if it was
set. -/
def forwardStep (poly crc : BitVec w) : BitVec w :=
  if crc.msb then (crc <<< 1) ^^^ poly else crc <<< 1

def forwardSteps (poly : BitVec w) : Nat → BitVec w → BitVec w
  | 0, crc => crc
  | n + 1, crc => forwardSteps poly n (forwardStep poly crc)

/-- One input byte, high bit first. -/
def forwardByteStep (poly crc : BitVec w) (b : BitVec 8) : BitVec w :=
  forwardSteps poly 8 (crc ^^^ (b.setWidth w <<< (w - 8)))

/-- The plain register on the bytes with their bits turned around, turned around at the end. -/
def reflectedChecksum (poly init : BitVec w) (bytes : List UInt8) : BitVec w :=
  (bytes.foldl (fun crc b => forwardByteStep poly crc b.toBitVec.reverse) init).reverse

theorem reverse_xor (x y : BitVec w) : (x ^^^ y).reverse = x.reverse ^^^ y.reverse := by
  apply BitVec.eq_of_getLsbD_eq
  intro i hi
  simp only [BitVec.getLsbD_reverse, BitVec.getLsbD_xor, BitVec.getMsbD_xor]

theorem reverse_shiftLeft_one (x : BitVec w) : (x <<< 1).reverse = x.reverse >>> 1 := by
  apply BitVec.eq_of_getLsbD_eq
  intro i hi
  rw [BitVec.getLsbD_reverse, BitVec.getLsbD_ushiftRight, BitVec.getLsbD_reverse,
    BitVec.getMsbD_eq_getLsbD, BitVec.getMsbD_eq_getLsbD, BitVec.getLsbD_shiftLeft,
    decide_eq_true hi, Bool.true_and]
  by_cases h : 1 + i < w
  · rw [decide_eq_true h, decide_eq_true (by omega : w - 1 - i < w),
      decide_eq_false (by omega : ¬ w - 1 - i < 1), Nat.sub_sub]
    simp [Nat.sub_sub, Nat.add_comm]
  · rw [decide_eq_false h, decide_eq_true (by omega : w - 1 - i < 1)]
    simp

theorem bitStep_reverse (poly crc : BitVec w) :
    bitStep poly.reverse crc.reverse = (forwardStep poly crc).reverse := by
  have hbit : crc.reverse.getLsbD 0 = crc.msb := BitVec.getLsbD_reverse
  unfold bitStep forwardStep
  rw [hbit]
  split
  · rw [reverse_xor, reverse_shiftLeft_one]
  · rw [reverse_shiftLeft_one]

theorem bitSteps_reverse (poly : BitVec w) (n : Nat) (crc : BitVec w) :
    bitSteps poly.reverse n crc.reverse = (forwardSteps poly n crc).reverse := by
  induction n generalizing crc with
  | zero => rfl
  | succ n ih =>
    show bitSteps poly.reverse n (bitStep poly.reverse crc.reverse) = _
    rw [bitStep_reverse, ih]
    rfl

theorem reverse_byte (hw : 8 ≤ w) (b : BitVec 8) :
    (b.reverse.setWidth w <<< (w - 8)).reverse = b.setWidth w := by
  apply BitVec.eq_of_getLsbD_eq
  intro i hi
  rw [BitVec.getLsbD_reverse, BitVec.getMsbD_eq_getLsbD, BitVec.getLsbD_shiftLeft,
    BitVec.getLsbD_setWidth, BitVec.getLsbD_setWidth, BitVec.getLsbD_reverse,
    BitVec.getMsbD_eq_getLsbD]
  by_cases h : i < 8
  · have hindex : 8 - 1 - (w - 1 - i - (w - 8)) = i := by omega
    rw [decide_eq_true hi, decide_eq_true (by omega : w - 1 - i < w),
      decide_eq_false (by omega : ¬ w - 1 - i < w - 8),
      decide_eq_true (by omega : w - 1 - i - (w - 8) < w),
      decide_eq_true (by omega : w - 1 - i - (w - 8) < 8), hindex]
    rfl
  · rw [decide_eq_true (by omega : w - 1 - i < w - 8), BitVec.getLsbD_of_ge b i (by omega)]
    simp

/-- **Reflection**. The register that shifts to the right computes the reflected checksum. -/
theorem reflectedChecksum_eq (hw : 8 ≤ w) (poly init : BitVec w) (bytes : List UInt8) :
    reflectedChecksum poly init bytes = checksum poly.reverse init.reverse bytes := by
  unfold reflectedChecksum checksum
  induction bytes generalizing init with
  | nil => rfl
  | cons b bytes ih =>
    have hstep : byteStep poly.reverse init.reverse b =
        (forwardByteStep poly init b.toBitVec.reverse).reverse := by
      unfold byteStep forwardByteStep
      rw [← bitSteps_reverse, reverse_xor, reverse_byte hw]
    rw [List.foldl_cons, List.foldl_cons, ih, hstep]

end Hexabus.Lib.Crc

/-!
## Bursts in a checksum

The plain register of a cyclic redundancy check, fed bit by bit. Two registers that agree on the
low bits behind a step agreed on one bit less before it, whatever bits they were fed: so a burst
that is no longer than the register is always seen, by the first bit in which it differs.
-/

namespace Hexabus.Lib.Crc

variable {w : Nat} (poly : BitVec w)

/-- One bit of the plain register: the polynomial is folded in when the bit is not the one shifted
out. -/
def feedBit (crc : BitVec w) (bit : Bool) : BitVec w :=
  if crc.msb != bit then (crc <<< 1) ^^^ poly else crc <<< 1

/-- The register behind some bits. -/
def feed (crc : BitVec w) (bits : List Bool) : BitVec w := bits.foldl (feedBit poly) crc

theorem feed_append (crc : BitVec w) (xs ys : List Bool) :
    feed poly crc (xs ++ ys) = feed poly (feed poly crc xs) ys := List.foldl_append

/-- Two words agree on their low bits. -/
def Agree (k : Nat) (a b : BitVec w) : Prop := ∀ i < k, a.getLsbD i = b.getLsbD i

theorem Agree.mono {j k : Nat} {a b : BitVec w} (h : Agree k a b) (hjk : j ≤ k) : Agree j a b :=
  fun i hi => h i (Nat.lt_of_lt_of_le hi hjk)

variable {poly}

/-- The lowest bit shows whether the polynomial was folded in. -/
theorem getLsbD_zero_feedBit (hpoly : poly.getLsbD 0 = true) (crc : BitVec w) (bit : Bool) :
    (feedBit poly crc bit).getLsbD 0 = (crc.msb != bit) := by
  unfold feedBit
  cases hfold : crc.msb != bit
  · simp
  · simp [hpoly]

theorem getLsbD_succ_feedBit (crc : BitVec w) (bit : Bool) {i : Nat} (hi : i + 1 < w) :
    (feedBit poly crc bit).getLsbD (i + 1) =
      (crc.getLsbD i ^^ ((crc.msb != bit) && poly.getLsbD (i + 1))) := by
  have hshift : (crc <<< 1).getLsbD (i + 1) = crc.getLsbD i := by
    rw [BitVec.getLsbD_shiftLeft, decide_eq_true hi, decide_eq_false (by omega : ¬ i + 1 < 1)]
    simp
  unfold feedBit
  cases hfold : crc.msb != bit
  · simp [hshift]
  · simp only [if_true, BitVec.getLsbD_xor, hshift, Bool.true_and]

/-- **Back over a step**: agreement on some low bits behind it comes from agreement on one bit
less before it, and the registers folded the polynomial in alike. -/
theorem agree_of_feedBit (hpoly : poly.getLsbD 0 = true) {a b : BitVec w} {d e : Bool} {k : Nat}
    (hk : k + 1 ≤ w) (h : Agree (k + 1) (feedBit poly a d) (feedBit poly b e)) :
    (a.msb != d) = (b.msb != e) ∧ Agree k a b := by
  have hfold : (a.msb != d) = (b.msb != e) := by
    rw [← getLsbD_zero_feedBit hpoly, ← getLsbD_zero_feedBit hpoly]
    exact h 0 (Nat.succ_pos k)
  refine ⟨hfold, fun i hi => ?_⟩
  have hbit := h (i + 1) (Nat.succ_lt_succ hi)
  rw [getLsbD_succ_feedBit a d (by omega), getLsbD_succ_feedBit b e (by omega), hfold] at hbit
  exact Bool.xor_left_inj.mp hbit

/-- Back over as many bits as two streams have. -/
theorem agree_of_feed (hpoly : poly.getLsbD 0 = true) {a b : BitVec w} {xs ys : List Bool}
    (hlen : xs.length = ys.length) {k : Nat} (hk : k + xs.length ≤ w)
    (h : feed poly a xs = feed poly b ys) : Agree k a b := by
  suffices hagree : ∀ (xs ys : List Bool), xs.length = ys.length → ∀ a b k, k + xs.length ≤ w →
      Agree (k + xs.length) (feed poly a xs) (feed poly b ys) → Agree k a b from
    hagree xs ys hlen a b k hk fun i _ => by rw [h]
  intro xs
  induction xs with
  | nil =>
    intro ys hlen a b k _ h
    rw [List.length_eq_zero_iff.mp hlen.symm] at h
    exact h
  | cons x xs ih =>
    intro ys hlen a b k hk h
    obtain ⟨y, ys, rfl⟩ := List.exists_cons_of_length_eq_add_one hlen.symm
    rw [List.length_cons, ← Nat.add_assoc, Nat.add_right_comm] at hk h
    have hstep := ih ys (Nat.succ.inj hlen) _ _ (k + 1) hk h
    exact (agree_of_feedBit hpoly (by omega) hstep).2

theorem eq_of_agree {a b : BitVec w} (h : Agree w a b) : a = b :=
  BitVec.eq_of_getLsbD_eq h

/-- A bit can be taken back when it is known. -/
theorem feedBit_injective (hpoly : poly.getLsbD 0 = true) (bit : Bool) {a b : BitVec w}
    (h : feedBit poly a bit = feedBit poly b bit) : a = b := by
  cases w with
  | zero => exact Subsingleton.elim a b
  | succ n =>
    obtain ⟨hfold, hlow⟩ := agree_of_feedBit (a := a) (b := b) (k := n) hpoly le_rfl
      fun i _ => by rw [h]
    have hmsb : a.msb = b.msb := Bool.xor_left_inj.mp hfold
    refine eq_of_agree fun i hi => ?_
    rcases Nat.lt_succ_iff_lt_or_eq.mp hi with hlt | rfl
    · exact hlow i hlt
    · rw [BitVec.msb_eq_getLsbD_last, BitVec.msb_eq_getLsbD_last] at hmsb
      exact hmsb

theorem feed_injective (hpoly : poly.getLsbD 0 = true) (bits : List Bool) {a b : BitVec w}
    (h : feed poly a bits = feed poly b bits) : a = b := by
  induction bits generalizing a b with
  | nil => exact h
  | cons bit bits ih => exact feedBit_injective hpoly bit (ih h)

/-- Streams that are no longer than the register give different registers. -/
theorem eq_of_feed (hpoly : poly.getLsbD 0 = true) {crc : BitVec w} {xs ys : List Bool}
    (hlen : xs.length = ys.length) (hw : xs.length ≤ w) (h : feed poly crc xs = feed poly crc ys) :
    xs = ys := by
  induction xs generalizing crc ys with
  | nil => exact (List.length_eq_zero_iff.mp hlen.symm).symm
  | cons x xs ih =>
    obtain ⟨y, ys, rfl⟩ := List.exists_cons_of_length_eq_add_one hlen.symm
    rw [List.length_cons] at hw
    -- behind the first bits the registers agree on one bit at least
    have hone : Agree 1 (feedBit poly crc x) (feedBit poly crc y) :=
      agree_of_feed hpoly (Nat.succ.inj hlen) (by omega) h
    have hfold := (agree_of_feedBit hpoly (by omega) hone).1
    obtain rfl : x = y := Bool.xor_right_inj.mp hfold
    rw [ih (Nat.succ.inj hlen) (by omega) h]

/-- **A burst is seen**: a change that is no longer than the register changes the checksum. -/
theorem feed_ne_of_burst (hpoly : poly.getLsbD 0 = true) (crc : BitVec w)
    (pre post : List Bool) {xs ys : List Bool} (hlen : xs.length = ys.length)
    (hw : xs.length ≤ w) (hne : xs ≠ ys) :
    feed poly crc (pre ++ xs ++ post) ≠ feed poly crc (pre ++ ys ++ post) := by
  intro h
  rw [feed_append, feed_append, feed_append, feed_append] at h
  exact hne (eq_of_feed hpoly hlen hw (feed_injective hpoly post h))

end Hexabus.Lib.Crc
