import Mathlib.Tactic

/-!
# Debounced signals

A sampled signal, and its level with single samples filtered out: the level follows the signal
when two samples after each other agree. A pulse is the time over which the level is high, with
the first of the two samples that raise it and the second of the two that end it.
-/

namespace Hexabus.Lib.Debounce

variable (f : Nat → Bool)

def level : Nat → Bool
  | 0 => false
  | n + 1 => if f n = f (n + 1) then f (n + 1) else level n

/-- The first sample of the pulse that is going on, or may be beginning, at sample `n`. -/
def onset : Nat → Nat
  | 0 => 0
  | n + 1 => if level f n = true ∨ f n = true then onset n else n + 1

/-- A pulse from sample `first` to sample `last`. -/
structure Pulse (first last : Nat) : Prop where
  before : level f first = false
  during : ∀ n, first < n → n < last → level f n = true
  after : level f last = false
  long : first + 1 < last

variable {f}

/-- The level rises with two high samples, -/
theorem level_rises {n : Nat} (hlow : level f n = false) (hhigh : level f (n + 1) = true) :
    f n = true ∧ f (n + 1) = true := by
  rw [level] at hhigh
  split at hhigh
  · rename_i hsame
    exact ⟨hsame.trans hhigh, hhigh⟩
  · rw [hlow] at hhigh
    cases hhigh

/-- and falls with two low ones. -/
theorem level_falls {n : Nat} (hhigh : level f n = true) (hlow : level f (n + 1) = false) :
    f n = false ∧ f (n + 1) = false := by
  rw [level] at hlow
  split at hlow
  · rename_i hsame
    exact ⟨hsame.trans hlow, hlow⟩
  · rw [hhigh] at hlow
    cases hlow

/-- Two high samples make the level high. -/
theorem level_of_high {n : Nat} (hn : f n = true) (hnext : f (n + 1) = true) :
    level f (n + 1) = true := by
  rw [level, if_pos (hn.trans hnext.symm), hnext]

/-- Two low samples make it low. -/
theorem level_of_low {n : Nat} (hn : f n = false) (hnext : f (n + 1) = false) :
    level f (n + 1) = false := by
  rw [level, if_pos (hn.trans hnext.symm), hnext]

/-- A single sample changes nothing. -/
theorem level_of_change {n : Nat} (h : f n ≠ f (n + 1)) : level f (n + 1) = level f n := by
  rw [level, if_neg h]

/-- A high sample at a low level may begin a pulse. -/
theorem onset_self {n : Nat} (hlow : level f n = false) (hhigh : f n = true) : onset f n = n := by
  cases n with
  | zero => rfl
  | succ n =>
    have hbefore : f n = false := by
      cases hn : f n with
      | false => rfl
      | true => cases hlow.symm.trans (level_of_high hn hhigh)
    have hlevel : level f n = false := by
      rw [← hlow]
      refine (level_of_change ?_).symm
      rw [hbefore, hhigh]
      exact Bool.false_ne_true
    rw [onset, if_neg]
    rw [hbefore, hlevel]
    exact fun h => h.elim Bool.false_ne_true Bool.false_ne_true

theorem onset_le (n : Nat) : onset f n ≤ n := by
  induction n with
  | zero => exact le_rfl
  | succ n ih =>
    rw [onset]
    split
    · omega
    · exact le_rfl

theorem onset_succ {n : Nat} (h : level f n = true ∨ f n = true) :
    onset f (n + 1) = onset f n := by
  rw [onset, if_pos h]

theorem onset_low {n : Nat} (hlevel : level f n = false) (hn : f n = false) :
    onset f (n + 1) = n + 1 := by
  rw [onset, if_neg]
  rw [hlevel, hn]
  exact fun h => h.elim Bool.false_ne_true Bool.false_ne_true

/-- While the level is high, it has been so since the sample behind the onset. -/
theorem onset_spec {n : Nat} (h : level f n = true) : onset f n < n ∧
    level f (onset f n) = false ∧ ∀ k, onset f n < k → k ≤ n → level f k = true := by
  induction n with
  | zero => cases h
  | succ n ih =>
    cases hn : level f n with
    | true =>
      obtain ⟨hlt, hlow, hhigh⟩ := ih hn
      rw [onset_succ (.inl hn)]
      refine ⟨by omega, hlow, fun k hk hle => ?_⟩
      rcases Nat.le_or_eq_of_le_succ hle with hle | rfl
      · exact hhigh k hk hle
      · exact h
    | false =>
      obtain ⟨hfirst, -⟩ := level_rises hn h
      rw [onset_succ (.inr hfirst), onset_self hn hfirst]
      refine ⟨by omega, hn, fun k hk hle => ?_⟩
      rw [show k = n + 1 by omega]
      exact h

/-- A level that falls ends a pulse. -/
theorem pulse_of_fall {n : Nat} (hhigh : level f n = true) (hlow : level f (n + 1) = false) :
    Pulse f (onset f n) (n + 1) := by
  obtain ⟨hlt, hbefore, hduring⟩ := onset_spec hhigh
  exact ⟨hbefore, fun k hk hle => hduring k hk (by omega), hlow, by omega⟩

namespace Pulse

variable {first last : Nat}

theorem begins (h : Pulse f first last) : f first = true ∧ f (first + 1) = true :=
  level_rises h.before (h.during _ (Nat.lt_succ_self _) h.long)

theorem ends (h : Pulse f first last) : ∃ n, last = n + 1 ∧ first < n ∧ level f n = true ∧
    f n = false ∧ f (n + 1) = false := by
  have hlong := h.long
  obtain ⟨n, rfl⟩ := Nat.exists_eq_succ_of_ne_zero (by omega : last ≠ 0)
  have hlevel : level f n = true := h.during n (by omega) (Nat.lt_succ_self n)
  obtain ⟨hn, hlast⟩ := level_falls hlevel h.after
  exact ⟨n, rfl, by omega, hlevel, hn, hlast⟩

/-- The onset of its samples is its first one. -/
theorem onset_eq (h : Pulse f first last) {n : Nat} (hn : first ≤ n) (hlt : n < last) :
    onset f n = first := by
  induction n, hn using Nat.le_induction with
  | base => exact onset_self h.before h.begins.1
  | succ n hn ih =>
    rw [onset_succ, ih (by omega)]
    rcases Nat.lt_or_eq_of_le hn with hgt | rfl
    · exact .inl (h.during n hgt (by omega))
    · exact .inr h.begins.1

end Pulse

end Hexabus.Lib.Debounce
