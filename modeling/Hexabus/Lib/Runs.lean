import Mathlib.Order.Basic
import Mathlib.Tactic

/-!
# Runs of a step function

A system that takes one labelled step after the other: its runs, the runs whose
steps all meet a condition, and the rule that carries an invariant along them.
-/

namespace Hexabus.Lib.Runs

variable {σ α : Type} (step : α → σ → σ)

/-- The state after a list of steps. -/
def run (s : σ) (steps : List α) : σ := steps.foldl (fun s a => step a s) s

/-- Every step is taken in a state that meets the condition `ok`. -/
def Meets (ok : σ → α → Prop) : σ → List α → Prop
  | _, [] => True
  | s, a :: steps => ok s a ∧ Meets ok (step a s) steps

variable {step} {ok : σ → α → Prop}

@[simp] theorem run_nil (s : σ) : run step s [] = s := rfl

@[simp] theorem run_cons (s : σ) (a : α) (steps : List α) :
    run step s (a :: steps) = run step (step a s) steps := rfl

theorem run_append (s : σ) (steps more : List α) :
    run step s (steps ++ more) = run step (run step s steps) more := List.foldl_append

/-- **The run rule**: what every admissible step preserves, every admissible run
preserves. -/
theorem run_invariant {Inv : σ → Prop} (hstep : ∀ s a, Inv s → ok s a → Inv (step a s))
    {s : σ} {steps : List α} (hs : Inv s) (h : Meets step ok s steps) :
    Inv (run step s steps) := by
  induction steps generalizing s with
  | nil => exact hs
  | cons a steps ih => exact ih (hstep s a hs h.1) h.2

/-- A run that meets a condition meets every weaker one. -/
theorem Meets.mono {ok' : σ → α → Prop} (hok : ∀ s a, ok s a → ok' s a) {s : σ}
    {steps : List α} (h : Meets step ok s steps) : Meets step ok' s steps := by
  induction steps generalizing s with
  | nil => trivial
  | cons a steps ih => exact ⟨hok s a h.1, ih h.2⟩

/-- What holds where an admissible step is taken. -/
theorem Meets.at {Inv : σ → Prop} (hstep : ∀ s a, Inv s → ok s a → Inv (step a s))
    {s : σ} {earlier later : List α} {a : α} (hs : Inv s)
    (h : Meets step ok s (earlier ++ a :: later)) :
    Inv (run step s earlier) ∧ ok (run step s earlier) a := by
  induction earlier generalizing s with
  | nil => exact ⟨hs, h.1⟩
  | cons b earlier ih => exact ih (hstep s b hs h.1) h.2

/-- **The exact condition**: where the steps that meet it keep the invariant, and a step that does
not ends in a state without the property, the property holds all along exactly in the runs whose
steps meet it. -/
theorem meets_iff {Inv P : σ → Prop} (hstep : ∀ s a, Inv s → ok s a → Inv (step a s))
    (hholds : ∀ s, Inv s → P s) (hfails : ∀ s a, Inv s → ¬ ok s a → ¬ P (step a s)) {s : σ}
    {steps : List α} (hs : Inv s) :
    (∀ earlier, earlier <+: steps → P (run step s earlier)) ↔ Meets step ok s steps := by
  constructor
  · intro h
    induction steps generalizing s with
    | nil => trivial
    | cons a steps ih =>
      have hok : ok s a := by
        by_contra hnot
        exact hfails s a hs hnot (h [a] (List.prefix_append [a] steps))
      refine ⟨hok, ih (hstep s a hs hok) fun earlier hearlier => ?_⟩
      exact h (a :: earlier) (List.cons_prefix_cons.mpr ⟨rfl, hearlier⟩)
  · rintro h earlier ⟨later, rfl⟩
    refine hholds _ ?_
    induction earlier generalizing s with
    | nil => exact hs
    | cons a earlier ih => exact ih (hstep s a hs h.1) h.2

theorem meets_true (s : σ) (steps : List α) : Meets step (fun _ _ => True) s steps := by
  induction steps generalizing s with
  | nil => trivial
  | cons a steps ih => exact ⟨trivial, ih _⟩

end Hexabus.Lib.Runs

/-!
## Progress along an infinite run

Statements about the instants of a run. `leadsTo_of_helpful` is the rule that carries all
arguments of progress: as long as a stage lasts a measure does not grow, and the helpful
steps, which come again and again, make it smaller.
-/

namespace Hexabus.Lib.Fairness

/-- There is an instant with `p` after every instant. -/
def InfinitelyOften (p : Nat → Prop) : Prop := ∀ n, ∃ m, n ≤ m ∧ p m

/-- From every instant with `p` on, there is an instant with `q`. -/
def LeadsTo (p q : Nat → Prop) : Prop := ∀ n, p n → ∃ m, n ≤ m ∧ q m

variable {p q r : Nat → Prop}

theorem LeadsTo.of_imp (h : ∀ n, p n → q n) : LeadsTo p q :=
  fun n hn => ⟨n, Nat.le_refl n, h n hn⟩

theorem LeadsTo.trans (h₁ : LeadsTo p q) (h₂ : LeadsTo q r) : LeadsTo p r := fun n hn =>
  have ⟨m, hnm, hm⟩ := h₁ n hn
  have ⟨k, hmk, hk⟩ := h₂ m hm
  ⟨k, Nat.le_trans hnm hmk, hk⟩

theorem LeadsTo.or (h₁ : LeadsTo p r) (h₂ : LeadsTo q r) : LeadsTo (fun n => p n ∨ q n) r :=
  fun n hn => hn.elim (h₁ n) (h₂ n)

/-- **The rule of the helpful steps.** -/
theorem leadsTo_of_helpful {helpful : Nat → Prop} (μ : Nat → Nat)
    (hfair : InfinitelyOften helpful)
    (hstep : ∀ n, p n → q (n + 1) ∨
      (p (n + 1) ∧ μ (n + 1) ≤ μ n ∧ (helpful n → μ (n + 1) < μ n))) : LeadsTo p q := by
  -- until the next helpful step the stage lasts and the measure does not grow
  have hwait : ∀ k n, p n → (∃ m, n ≤ m ∧ q m) ∨ (p (n + k) ∧ μ (n + k) ≤ μ n) := by
    intro k n hn
    induction k with
    | zero => exact .inr ⟨hn, Nat.le_refl _⟩
    | succ k ih =>
      rcases ih with ih | ⟨hk, hμ⟩
      · exact .inl ih
      · rcases hstep (n + k) hk with hq | ⟨hp, hle, -⟩
        · exact .inl ⟨n + k + 1, by omega, hq⟩
        · exact .inr ⟨hp, Nat.le_trans hle hμ⟩
  intro n hn
  induction hμ : μ n using Nat.strongRecOn generalizing n with
  | ind bound ih =>
    obtain ⟨m, hnm, hm⟩ := hfair n
    obtain ⟨k, rfl⟩ := Nat.exists_eq_add_of_le hnm
    rcases hwait k n hn with hdone | ⟨hp, hle⟩
    · exact hdone
    · rcases hstep (n + k) hp with hq | ⟨hnext, -, hless⟩
      · exact ⟨n + k + 1, by omega, hq⟩
      · have hlt := hless hm
        obtain ⟨j, hj, hqj⟩ := ih (μ (n + k + 1)) (by omega) (n + k + 1) hnext rfl
        exact ⟨j, by omega, hqj⟩

end Hexabus.Lib.Fairness
