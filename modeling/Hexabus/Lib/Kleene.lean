import Mathlib.Data.Option.Basic

/-!
# Strong Kleene logic

Truth values that may be unknown. A conjunction is false as soon as one side is, whatever the
other one is, and a disjunction true as soon as one side is. When a connective is true and when
it is false settles its value, so each law is one about `∧` and `∨`.
-/

namespace Hexabus.Lib.Kleene

/-- A truth value: `none` is unknown. -/
abbrev Truth := Option Bool

/-! ## Connectives -/

def neg (a : Truth) : Truth := a.map Bool.not

def conj (a b : Truth) : Truth :=
  if a = some false ∨ b = some false then some false
  else if a = some true ∧ b = some true then some true
  else none

def disj (a b : Truth) : Truth :=
  if a = some true ∨ b = some true then some true
  else if a = some false ∧ b = some false then some false
  else none

variable {a b c : Truth}

/-- A value is known by when it is true and when it is false. -/
theorem eq_of_iff (htrue : a = some true ↔ b = some true)
    (hfalse : a = some false ↔ b = some false) : a = b := by
  cases a with
  | none =>
    cases b with
    | none => rfl
    | some v => cases v <;> simp at htrue hfalse
  | some v =>
    cases v with
    | false => exact (hfalse.mp rfl).symm
    | true => exact (htrue.mp rfl).symm

/-! ## When a connective is true, and when it is false -/

@[simp] theorem neg_eq_true_iff : neg a = some true ↔ a = some false := by
  cases a with
  | none => simp [neg]
  | some v => cases v <;> simp [neg]

@[simp] theorem neg_eq_false_iff : neg a = some false ↔ a = some true := by
  cases a with
  | none => simp [neg]
  | some v => cases v <;> simp [neg]

/-- Negation keeps what is unknown. -/
@[simp] theorem neg_eq_none_iff : neg a = none ↔ a = none := Option.map_eq_none_iff

@[simp] theorem conj_eq_false_iff : conj a b = some false ↔ a = some false ∨ b = some false := by
  unfold conj
  by_cases hfalse : a = some false ∨ b = some false
  · simp [hfalse]
  · rw [if_neg hfalse]
    split <;> simp [hfalse]

@[simp] theorem conj_eq_true_iff : conj a b = some true ↔ a = some true ∧ b = some true := by
  unfold conj
  by_cases hfalse : a = some false ∨ b = some false
  · rw [if_pos hfalse]
    rcases hfalse with rfl | rfl <;> simp
  · rw [if_neg hfalse]
    by_cases htrue : a = some true ∧ b = some true
    · simp [htrue]
    · simp [htrue]

@[simp] theorem disj_eq_true_iff : disj a b = some true ↔ a = some true ∨ b = some true := by
  unfold disj
  by_cases htrue : a = some true ∨ b = some true
  · simp [htrue]
  · rw [if_neg htrue]
    split <;> simp [htrue]

@[simp] theorem disj_eq_false_iff : disj a b = some false ↔ a = some false ∧ b = some false := by
  unfold disj
  by_cases htrue : a = some true ∨ b = some true
  · rw [if_pos htrue]
    rcases htrue with rfl | rfl <;> simp
  · rw [if_neg htrue]
    by_cases hfalse : a = some false ∧ b = some false
    · simp [hfalse]
    · simp [hfalse]

/-! ## Laws -/

theorem conj_comm (a b : Truth) : conj a b = conj b a := by
  apply eq_of_iff
  · simp [and_comm]
  · simp [or_comm]

theorem disj_comm (a b : Truth) : disj a b = disj b a := by
  apply eq_of_iff
  · simp [or_comm]
  · simp [and_comm]

theorem conj_assoc (a b c : Truth) : conj (conj a b) c = conj a (conj b c) := by
  apply eq_of_iff
  · simp [and_assoc]
  · simp [or_assoc]

theorem disj_assoc (a b c : Truth) : disj (disj a b) c = disj a (disj b c) := by
  apply eq_of_iff
  · simp [or_assoc]
  · simp [and_assoc]

/-- De Morgan. -/
theorem neg_conj (a b : Truth) : neg (conj a b) = disj (neg a) (neg b) := by
  apply eq_of_iff <;> simp

theorem neg_disj (a b : Truth) : neg (disj a b) = conj (neg a) (neg b) := by
  apply eq_of_iff <;> simp

end Hexabus.Lib.Kleene
