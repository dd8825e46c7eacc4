import Mathlib.Data.SetLike.Basic
import Mathlib.Data.List.Pairwise
import Mathlib.Data.Set.Lattice
import Mathlib.Tactic

/-!
# Address blocks

The blocks of addresses that share their first bits. Two of them are nested or have no address
in common (`Block.le_of_mem`), so that taking a block out of another one leaves a list of blocks
(`Block.exclude`), and a set of addresses that blocks are taken out of stays the union of its
largest blocks (`IsDecomposition.exclude`).
-/

namespace Hexabus.Lib.Prefixes

/-- The addresses of `width` bits that begin with the first `length` bits of an address. -/
@[ext] structure Block (width : Nat) where
  length : Nat
  first : Nat
  length_le : length ≤ width
  first_lt : first < 2 ^ width
  aligned : 2 ^ (width - length) ∣ first
deriving DecidableEq

namespace Block

variable {width : Nat} {b c d : Block width} {a : Nat}

/-- How many addresses the block has. -/
def size (b : Block width) : Nat := 2 ^ (width - b.length)

/-- The last address of the block. -/
def last (b : Block width) : Nat := b.first + b.size - 1

theorem size_pos (b : Block width) : 0 < b.size := Nat.two_pow_pos _

theorem size_dvd_of_length_le (h : b.length ≤ c.length) : c.size ∣ b.size :=
  Nat.pow_dvd_pow 2 (Nat.sub_le_sub_left h width)

theorem length_eq_of_size_eq (h : b.size = c.size) : b.length = c.length := by
  have hexponent : width - b.length = width - c.length := Nat.pow_right_injective (by decide) h
  have hb := b.length_le
  have hc := c.length_le
  omega

/-! ## The addresses of a block -/

def addresses (b : Block width) : Set Nat := {a | b.first ≤ a ∧ a < b.first + b.size}

theorem addresses_injective : Function.Injective (addresses : Block width → Set Nat) := by
  intro b c h
  have hsub : ∀ a, b.first ≤ a ∧ a < b.first + b.size ↔ c.first ≤ a ∧ a < c.first + c.size :=
    fun a => Set.ext_iff.mp h a
  have hbpos := b.size_pos
  have hcpos := c.size_pos
  have hle := (hsub b.first).mp ⟨Nat.le_refl _, by omega⟩
  have hge := (hsub c.first).mpr ⟨Nat.le_refl _, by omega⟩
  have hlast := (hsub (b.first + b.size - 1)).mp ⟨by omega, by omega⟩
  have hlast' := (hsub (c.first + c.size - 1)).mpr ⟨by omega, by omega⟩
  have hfirst : b.first = c.first := by omega
  exact Block.ext (length_eq_of_size_eq (by omega)) hfirst

instance : SetLike (Block width) Nat where
  coe := addresses
  coe_injective := addresses_injective

instance : PartialOrder (Block width) := .ofSetLike _ _

theorem mem_iff : a ∈ b ↔ b.first ≤ a ∧ a < b.first + b.size := Iff.rfl

instance (a : Nat) (b : Block width) : Decidable (a ∈ b) := decidable_of_iff _ mem_iff.symm

/-- The addresses of a block are those that begin as its first one does. -/
theorem mem_iff_div : a ∈ b ↔ a / b.size = b.first / b.size := by
  obtain ⟨k, hk⟩ : b.size ∣ b.first := b.aligned
  have hpos := b.size_pos
  rw [mem_iff, hk, Nat.mul_div_cancel_left k hpos, Nat.div_eq_iff hpos]
  rw [Nat.mul_comm]
  omega

theorem first_mem (b : Block width) : b.first ∈ b :=
  ⟨Nat.le_refl _, Nat.lt_add_of_pos_right b.size_pos⟩

theorem last_mem (b : Block width) : b.last ∈ b := by
  have hpos := b.size_pos
  exact ⟨by unfold last; omega, by unfold last; omega⟩

/-- A block is part of another one if its first and its last address are. -/
theorem le_iff : b ≤ c ↔ b.first ∈ c ∧ b.last ∈ c := by
  constructor
  · intro h
    exact ⟨h b.first_mem, h b.last_mem⟩
  · rintro ⟨hfirst, hlast⟩ a ha
    have hlow := (mem_iff.mp hfirst).1
    have hhigh := (mem_iff.mp hlast).2
    have hbounds := mem_iff.mp ha
    unfold last at hhigh
    exact mem_iff.mpr ⟨by omega, by omega⟩

instance (b c : Block width) : Decidable (b ≤ c) := decidable_of_iff _ le_iff.symm

/-- Of two blocks with a common address, the one with the longer prefix is part of the other. -/
theorem le_of_mem (h : b.length ≤ c.length) (hb : a ∈ b) (hc : a ∈ c) : c ≤ b := by
  intro x hx
  have hdvd := size_dvd_of_length_le h
  have hquotient : ∀ y, y / b.size = y / c.size / (b.size / c.size) := by
    intro y
    rw [Nat.div_div_eq_div_mul, Nat.mul_div_cancel' hdvd]
  have hsame : x / c.size = a / c.size := (mem_iff_div.mp hx).trans (mem_iff_div.mp hc).symm
  rw [mem_iff_div, ← mem_iff_div.mp hb, hquotient x, hsame, ← hquotient a]

theorem le_or_le_of_mem (hb : a ∈ b) (hc : a ∈ c) : b ≤ c ∨ c ≤ b := by
  rcases Nat.le_total b.length c.length with h | h
  · exact .inr (le_of_mem h hb hc)
  · exact .inl (le_of_mem h hc hb)

theorem length_le_of_le (h : c ≤ b) : b.length ≤ c.length := by
  by_contra hlt
  have hback : b ≤ c := le_of_mem (by omega) c.first_mem (h c.first_mem)
  obtain rfl := le_antisymm h hback
  exact hlt (Nat.le_refl _)

theorem eq_of_le_of_length (h : c ≤ b) (hlength : c.length ≤ b.length) : c = b :=
  le_antisymm h (le_of_mem hlength c.first_mem (h c.first_mem))

theorem length_lt_of_lt (h : c < b) : b.length < c.length := by
  by_contra hle
  exact h.ne (eq_of_le_of_length h.le (by omega))

theorem mem_lt (h : a ∈ b) : a < 2 ^ width := by
  obtain ⟨k, hk⟩ : b.size ∣ b.first := b.aligned
  obtain ⟨m, hm⟩ : b.size ∣ 2 ^ width := Nat.pow_dvd_pow 2 (Nat.sub_le _ _)
  have hfirst := b.first_lt
  have hlt : k < m := by
    rw [hk, hm] at hfirst
    exact Nat.lt_of_mul_lt_mul_left hfirst
  have hend : b.size * (k + 1) ≤ b.size * m := Nat.mul_le_mul_left _ hlt
  have hbounds := mem_iff.mp h
  rw [Nat.mul_succ] at hend
  omega

/-- The block of a length that an address is in. -/
def around (length a : Nat) (hlength : length ≤ width) (ha : a < 2 ^ width) : Block width where
  length := length
  first := 2 ^ (width - length) * (a / 2 ^ (width - length))
  length_le := hlength
  first_lt := Nat.lt_of_le_of_lt (Nat.mul_div_le _ _) ha
  aligned := Nat.dvd_mul_right _ _

theorem mem_around {x length : Nat} (hlength : length ≤ width) (ha : a < 2 ^ width) :
    x ∈ around length a hlength ha ↔ x / 2 ^ (width - length) = a / 2 ^ (width - length) := by
  rw [mem_iff_div]
  show _ ↔ _
  simp only [size, around]
  rw [Nat.mul_div_cancel_left _ (Nat.two_pow_pos _)]

/-- The blocks have no address in common. -/
def Apart (b c : Block width) : Prop := ∀ a ∈ b, a ∉ c

instance : Std.Symm (Apart : Block width → Block width → Prop) := ⟨fun _ _ h a hc hb => h a hb hc⟩

/-! ## Halves -/

/-- The lower half of a block, or the block itself if it is a single address. -/
def lower (b : Block width) : Block width where
  length := min (b.length + 1) width
  first := b.first
  length_le := Nat.min_le_right _ _
  first_lt := b.first_lt
  aligned := Nat.dvd_trans (Nat.pow_dvd_pow 2 (by have := b.length_le; omega)) b.aligned

theorem half_size (h : b.length < width) : b.size = 2 * 2 ^ (width - (b.length + 1)) := by
  unfold size
  rw [← Nat.pow_succ']
  congr 1
  omega

/-- The upper half of a block, or the block itself if it is a single address. -/
def upper (b : Block width) : Block width where
  length := min (b.length + 1) width
  first := b.first + b.size / 2
  length_le := Nat.min_le_right _ _
  first_lt := by
    have hpos := b.size_pos
    exact mem_lt (mem_iff.mpr ⟨by omega, by omega⟩ : b.first + b.size / 2 ∈ b)
  aligned := by
    have haligned : b.size ∣ b.first := b.aligned
    by_cases h : b.length < width
    · rw [Nat.min_eq_left h]
      have hhalf := half_size h
      rw [hhalf] at haligned ⊢
      rw [Nat.mul_div_cancel_left _ (by decide)]
      exact Nat.dvd_add (Nat.dvd_trans (Nat.dvd_mul_left _ _) haligned) (Nat.dvd_refl _)
    · have hle := b.length_le
      rw [Nat.min_eq_right (by omega), Nat.sub_self]
      exact Nat.one_dvd _

theorem length_lower (h : b.length < width) : b.lower.length = b.length + 1 := Nat.min_eq_left h

theorem length_upper (h : b.length < width) : b.upper.length = b.length + 1 := Nat.min_eq_left h

theorem mem_lower (h : b.length < width) :
    a ∈ b.lower ↔ a ∈ b ∧ a < b.first + b.size / 2 := by
  have hsize : b.lower.size = b.size / 2 := by
    rw [half_size h, Nat.mul_div_cancel_left _ (by decide), size, length_lower h]
  rw [mem_iff, mem_iff, hsize]
  show b.first ≤ a ∧ a < b.first + b.size / 2 ↔ _
  omega

theorem mem_upper (h : b.length < width) :
    a ∈ b.upper ↔ a ∈ b ∧ b.first + b.size / 2 ≤ a := by
  have hhalf := half_size h
  have hsize : b.upper.size = b.size / 2 := by
    rw [hhalf, Nat.mul_div_cancel_left _ (by decide), size, length_upper h]
  rw [mem_iff, mem_iff, hsize]
  show b.first + b.size / 2 ≤ a ∧ a < b.first + b.size / 2 + b.size / 2 ↔ _
  omega

theorem lower_le (h : b.length < width) : b.lower ≤ b := fun _ ha => ((mem_lower h).mp ha).1

theorem upper_le (h : b.length < width) : b.upper ≤ b := fun _ ha => ((mem_upper h).mp ha).1

/-- A smaller block inside is inside one of the halves. -/
theorem le_half_of_lt (h : c < b) : c ≤ b.lower ∨ c ≤ b.upper := by
  have hlength := length_lt_of_lt h
  have hlt : b.length < width := Nat.lt_of_lt_of_le hlength c.length_le
  have hfirst : c.first ∈ b := h.le c.first_mem
  by_cases hside : c.first < b.first + b.size / 2
  · left
    exact le_of_mem (by rw [length_lower hlt]; omega) ((mem_lower hlt).mpr ⟨hfirst, hside⟩)
      c.first_mem
  · right
    exact le_of_mem (by rw [length_upper hlt]; omega)
      ((mem_upper hlt).mpr ⟨hfirst, by omega⟩) c.first_mem

theorem not_mem_lower_of_mem_upper (h : b.length < width) (ha : a ∈ b.upper) : a ∉ b.lower := by
  intro hlow
  have hge := ((mem_upper h).mp ha).2
  have hlt := ((mem_lower h).mp hlow).2
  omega

/-! ## One block out of another -/

/-- The halves that are left over on the way from a block down to one inside it. -/
def leftOver : Nat → Block width → Block width → List (Block width)
  | 0, _, _ => []
  | rounds + 1, b, c =>
    if c ≤ b.lower then b.upper :: leftOver rounds b.lower c
    else b.lower :: leftOver rounds b.upper c

/-- A block without one inside it. -/
def exclude (b c : Block width) : List (Block width) := leftOver (c.length - b.length) b c

theorem exclude_self (b : Block width) : b.exclude b = [] := by
  rw [exclude, Nat.sub_self]
  rfl

/-- One half is left over, and the rest comes from the other. -/
theorem exclude_of_lt (h : c < b) :
    (c ≤ b.lower ∧ b.exclude c = b.upper :: b.lower.exclude c) ∨
      (c ≤ b.upper ∧ b.exclude c = b.lower :: b.upper.exclude c) := by
  have hlength := length_lt_of_lt h
  have hlt : b.length < width := Nat.lt_of_lt_of_le hlength c.length_le
  have hrounds : c.length - b.length = c.length - (b.length + 1) + 1 := by omega
  have hunfold : b.exclude c = if c ≤ b.lower then b.upper :: b.lower.exclude c
      else b.lower :: b.upper.exclude c := by
    unfold exclude
    rw [length_lower hlt, length_upper hlt, hrounds]
    rfl
  rw [hunfold]
  by_cases hside : c ≤ b.lower
  · exact .inl ⟨hside, if_pos hside⟩
  · exact .inr ⟨(le_half_of_lt h).resolve_left hside, if_neg hside⟩

/-- The rounds of `exclude`, as an induction over the blocks from `b` down to `c`. -/
theorem exclude_induction {motive : (b : Block width) → c ≤ b → Prop}
    (self : motive c le_rfl)
    (half : ∀ b kept other : Block width, ∀ (hlt : c < b) (hc : c ≤ kept), kept ≤ b → other ≤ b →
      (∀ a ∈ b, a ∈ kept ∨ a ∈ other) → (∀ a ∈ kept, a ∉ other) →
      (∀ d : Block width, d < b → d ≤ kept ∨ d ≤ other) →
      b.exclude c = other :: kept.exclude c → motive kept hc → motive b hlt.le)
    (b : Block width) (h : c ≤ b) : motive b h := by
  by_cases heq : c = b
  · subst heq
    exact self
  · have hlt : c < b := lt_of_le_of_ne h heq
    have hlength := length_lt_of_lt hlt
    have hwidth : b.length < width := Nat.lt_of_lt_of_le hlength c.length_le
    have hlower := length_lower hwidth
    have hupper := length_upper hwidth
    have hsides : ∀ a ∈ b, a ∈ b.lower ∨ a ∈ b.upper := by
      intro a ha
      rcases Nat.lt_or_ge a (b.first + b.size / 2) with hside | hside
      · exact .inl ((mem_lower hwidth).mpr ⟨ha, hside⟩)
      · exact .inr ((mem_upper hwidth).mpr ⟨ha, hside⟩)
    rcases exclude_of_lt hlt with ⟨hside, hexclude⟩ | ⟨hside, hexclude⟩
    · exact half b b.lower b.upper hlt hside (lower_le hwidth) (upper_le hwidth) hsides
        (fun a ha ha' => not_mem_lower_of_mem_upper hwidth ha' ha)
        (fun d hd => le_half_of_lt hd) hexclude (exclude_induction self half b.lower hside)
    · exact half b b.upper b.lower hlt hside (upper_le hwidth) (lower_le hwidth)
        (fun a ha => (hsides a ha).symm) (fun a ha => not_mem_lower_of_mem_upper hwidth ha)
        (fun d hd => (le_half_of_lt hd).symm) hexclude (exclude_induction self half b.upper hside)
termination_by c.length - b.length

/-- What is left are the addresses of the one block that are not in the other. -/
theorem mem_exclude (h : c ≤ b) : (∃ d ∈ b.exclude c, a ∈ d) ↔ a ∈ b ∧ a ∉ c := by
  induction b, h using exclude_induction with
  | self =>
    rw [exclude_self]
    simp
  | half b kept other _ hc hkept hother hcover hdisjoint _ hexclude ih =>
    rw [hexclude, List.exists_mem_cons_iff, ih]
    constructor
    · rintro (ha | ⟨ha, hnot⟩)
      · exact ⟨hother ha, fun hmem => hdisjoint a (hc hmem) ha⟩
      · exact ⟨hkept ha, hnot⟩
    · rintro ⟨ha, hnot⟩
      rcases hcover a ha with hside | hside
      · exact .inr ⟨hside, hnot⟩
      · exact .inl hside

theorem exclude_le (h : c ≤ b) {d : Block width} (hd : d ∈ b.exclude c) : d ≤ b :=
  fun _ ha => ((mem_exclude h).mp ⟨d, hd, ha⟩).1

theorem exclude_pairwise (h : c ≤ b) :
    (b.exclude c).Pairwise Apart := by
  induction b, h using exclude_induction with
  | self =>
    rw [exclude_self]
    exact .nil
  | half b kept other _ hc _ _ _ hdisjoint _ hexclude ih =>
    rw [hexclude]
    exact .cons (fun d hd a ha ha' => hdisjoint a (exclude_le hc hd ha') ha) ih

/-- Every block in what is left is inside one of the blocks that are left. -/
theorem exclude_maximal (h : c ≤ b) (hd : d ≤ b) (hfree : ∀ a ∈ d, a ∉ c) :
    ∃ e ∈ b.exclude c, d ≤ e := by
  induction b, h using exclude_induction with
  | self => exact absurd (hd d.first_mem) (hfree _ d.first_mem)
  | half b kept other hlt _ _ _ _ _ hhalves hexclude ih =>
    rw [hexclude, List.exists_mem_cons_iff]
    have hne : d ≠ b := by
      rintro rfl
      exact hfree _ (hlt.le c.first_mem) c.first_mem
    rcases hhalves d (lt_of_le_of_ne hd hne) with hside | hside
    · exact .inr (ih hside)
    · exact .inl hside

end Block

/-! ## A set of addresses as a list of blocks -/

open Block

variable {width : Nat}

/-- The blocks are disjoint, have the addresses of the set together, and are as large as they
can be. -/
structure IsDecomposition (blocks : List (Block width)) (addresses : Set Nat) : Prop where
  apart : blocks.Pairwise Apart
  mem : ∀ a, (∃ b ∈ blocks, a ∈ b) ↔ a ∈ addresses
  maximal : ∀ c : Block width, (∀ a ∈ c, a ∈ addresses) → ∃ b ∈ blocks, c ≤ b

/-- Taking a block out of the blocks that contain it. -/
def without (blocks : List (Block width)) (c : Block width) : List (Block width) :=
  blocks.flatMap fun b => if c ≤ b then b.exclude c else [b]

namespace IsDecomposition

variable {blocks : List (Block width)} {addresses : Set Nat} {b c : Block width} {a : Nat}

theorem singleton (b : Block width) : IsDecomposition [b] (b : Set Nat) where
  apart := List.pairwise_singleton _ _
  mem a := by simp
  maximal c h := ⟨b, List.mem_singleton_self b, h⟩

theorem eq_of_mem (h : IsDecomposition blocks addresses) (hb : b ∈ blocks) (hc : c ∈ blocks)
    (hab : a ∈ b) (hac : a ∈ c) : b = c := by
  by_contra hne
  exact h.apart.forall hb hc hne a hab hac

/-- **A block taken out of a set**: if the block was in it as a whole or not at all, the list
without the block stands for the set without it. -/
theorem without (h : IsDecomposition blocks addresses)
    (hc : (∀ a ∈ c, a ∈ addresses) ∨ ∀ a ∈ c, a ∉ addresses) :
    IsDecomposition (without blocks c) (addresses \ c) := by
  -- the block taken out is in at most one of the list
  have hmem : ∀ b ∈ blocks, ∀ a, (∃ d ∈ (if c ≤ b then b.exclude c else [b]), a ∈ d) ↔
      a ∈ b ∧ a ∉ c := by
    intro b hb a
    by_cases hle : c ≤ b
    · rw [if_pos hle]
      exact mem_exclude hle
    · rw [if_neg hle]
      have hapart : a ∈ b → a ∉ c := by
        intro hab hac
        rcases hc with hin | hout
        · obtain ⟨d, hd, hcd⟩ := h.maximal c hin
          have heq := h.eq_of_mem hb hd hab (hcd hac)
          exact hle (heq ▸ hcd)
        · exact hout a hac ((h.mem a).mp ⟨b, hb, hab⟩)
      simpa using hapart
  refine ⟨List.pairwise_flatMap.mpr ⟨fun b hb => ?_, ?_⟩, fun a => ?_, fun d hd => ?_⟩
  · by_cases hle : c ≤ b
    · rw [if_pos hle]
      exact exclude_pairwise hle
    · rw [if_neg hle]
      exact List.pairwise_singleton _ _
  · refine h.apart.imp_of_mem fun {b b'} hb hb' hapart d hd d' hd' a ha ha' => ?_
    exact hapart a ((hmem b hb a).mp ⟨d, hd, ha⟩).1 ((hmem b' hb' a).mp ⟨d', hd', ha'⟩).1
  · constructor
    · rintro ⟨d, hd, ha⟩
      obtain ⟨b, hb, hd⟩ := List.mem_flatMap.mp hd
      obtain ⟨hab, hac⟩ := (hmem b hb a).mp ⟨d, hd, ha⟩
      exact ⟨(h.mem a).mp ⟨b, hb, hab⟩, hac⟩
    · rintro ⟨ha, hac⟩
      obtain ⟨b, hb, hab⟩ := (h.mem a).mpr ha
      obtain ⟨d, hd, had⟩ := (hmem b hb a).mpr ⟨hab, hac⟩
      exact ⟨d, List.mem_flatMap.mpr ⟨b, hb, hd⟩, had⟩
  · obtain ⟨b, hb, hdb⟩ := h.maximal d fun a ha => (hd a ha).1
    by_cases hle : c ≤ b
    · obtain ⟨e, he, hde⟩ := exclude_maximal hle hdb fun a ha => (hd a ha).2
      refine ⟨e, List.mem_flatMap.mpr ⟨b, hb, ?_⟩, hde⟩
      rw [if_pos hle]
      exact he
    · refine ⟨b, List.mem_flatMap.mpr ⟨b, hb, ?_⟩, hdb⟩
      rw [if_neg hle]
      exact List.mem_singleton_self b

/-- **The shortest blocks**: no block is smaller than those of a length exactly if the set has
each block of that length as a whole or not at all. -/
theorem length_le_iff (h : IsDecomposition blocks addresses) {length : Nat}
    (hlength : length ≤ width) :
    (∀ b ∈ blocks, b.length ≤ length) ↔
      ∀ c : Block width, c.length = length → ∀ a ∈ c, ∀ a' ∈ c, a ∈ addresses → a' ∈ addresses := by
  constructor
  · rintro hall c rfl a ha a' ha' hin
    obtain ⟨b, hb, hab⟩ := (h.mem a).mpr hin
    have hcb : c ≤ b := le_of_mem (hall b hb) hab ha
    exact (h.mem a').mp ⟨b, hb, hcb ha'⟩
  · intro hwhole b hb
    by_contra hlt
    have hfirst : b.first ∈ around length b.first hlength b.first_lt := (mem_around _ _).mpr rfl
    obtain ⟨d, hd, hle⟩ := h.maximal (around length b.first hlength b.first_lt) fun a ha =>
      hwhole _ rfl b.first hfirst a ha ((h.mem _).mp ⟨b, hb, b.first_mem⟩)
    obtain rfl := h.eq_of_mem hb hd b.first_mem (hle hfirst)
    exact hlt (length_le_of_le hle)

end IsDecomposition

end Hexabus.Lib.Prefixes
