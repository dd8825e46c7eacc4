import Mathlib.Logic.Function.Basic
import Mathlib.Data.List.Nodup
import Mathlib.Tactic.TypeStar

/-!
# Chains in memory

Links that each name the next one, as a function from links to links. A chain is a head
from which the links lead to an end; the links on it are then determined and all
different (`IsChain.unique`, `IsChain.nodup`). Putting a link in front of a chain gives a
chain exactly when the link is not on it yet (`isChain_push_iff`), and a loop over the
links comes to its end exactly on a chain (`isSome_foldChain_iff`).
-/

namespace Hexabus.Lib.Chain

variable {α : Type*} {next : α → Option α}

/-- From the head on, the links are `links`, and the last one names no other. -/
inductive IsChain (next : α → Option α) : Option α → List α → Prop
  | nil : IsChain next none []
  | cons {a : α} {links : List α} : IsChain next (next a) links →
      IsChain next (some a) (a :: links)

theorem IsChain.unique {head : Option α} {l₁ l₂ : List α} (h₁ : IsChain next head l₁)
    (h₂ : IsChain next head l₂) : l₁ = l₂ := by
  induction h₁ generalizing l₂ with
  | nil =>
    cases h₂ with
    | nil => rfl
  | cons _ ih =>
    cases h₂ with
    | cons h₂ => rw [ih h₂]

/-- From every link of a chain on it is a chain again, the rest of it. -/
theorem IsChain.from_mem {head : Option α} {links : List α} (h : IsChain next head links) {a : α}
    (ha : a ∈ links) : ∃ front rest, links = front ++ a :: rest ∧ IsChain next (next a) rest := by
  induction h with
  | nil => exact absurd ha List.not_mem_nil
  | @cons b links hb ih =>
    rcases List.mem_cons.mp ha with rfl | ha
    · exact ⟨[], links, rfl, hb⟩
    · obtain ⟨front, rest, rfl, hrest⟩ := ih ha
      exact ⟨b :: front, rest, rfl, hrest⟩

/-- No link of a chain comes twice: from both places the same links would follow. -/
theorem IsChain.nodup {head : Option α} {links : List α} (h : IsChain next head links) :
    links.Nodup := by
  induction h with
  | nil => exact List.nodup_nil
  | @cons a links ha ih =>
    refine List.nodup_cons.mpr ⟨fun hmem => ?_, ih⟩
    obtain ⟨front, rest, rfl, hrest⟩ := ha.from_mem hmem
    have hlength := congrArg List.length (ha.unique hrest)
    rw [List.length_append, List.length_cons] at hlength
    omega

/-- A chain is a matter of its own links. -/
theorem IsChain.congr {next' : α → Option α} {head : Option α} {links : List α}
    (h : IsChain next head links) (hagree : ∀ a ∈ links, next a = next' a) :
    IsChain next' head links := by
  induction h with
  | nil => exact .nil
  | @cons a links _ ih =>
    have hrest := ih fun b hb => hagree b (List.mem_cons_of_mem _ hb)
    rw [hagree a List.mem_cons_self] at hrest
    exact .cons hrest

/-- **A link put in front**: a chain comes out exactly when a chain was there and the
link was not on it. -/
theorem isChain_push_iff [DecidableEq α] {head : Option α} {a : α} {links : List α} :
    IsChain (Function.update next a head) (some a) links ↔
      ∃ rest, links = a :: rest ∧ a ∉ rest ∧ IsChain next head rest := by
  constructor
  · intro h
    have hnodup := h.nodup
    cases h with
    | @cons _ rest h =>
      rw [Function.update_self] at h
      have hnot := (List.nodup_cons.mp hnodup).1
      refine ⟨rest, rfl, hnot, h.congr ?_⟩
      intro b hb
      have hne : b ≠ a := fun hba => hnot (hba ▸ hb)
      exact Function.update_of_ne hne _ _
  · rintro ⟨rest, rfl, hnot, h⟩
    refine .cons ?_
    rw [Function.update_self]
    refine h.congr ?_
    intro b hb
    have hne : b ≠ a := fun hba => hnot (hba ▸ hb)
    exact (Function.update_of_ne hne _ _).symm

/-! ## Loops over the links -/

/-- The first link from the head on that `p` holds of, after at most `fuel` links; `none`
is a search that is still going on. -/
def searchChain (next : α → Option α) (p : α → Bool) : Nat → Option α → Option (Option α)
  | _, none => some none
  | 0, some _ => none
  | fuel + 1, some a => if p a then some (some a) else searchChain next p fuel (next a)

/-- The loop that visits every link. -/
def foldChain {β : Type*} (next : α → Option α) (f : β → α → β) : Nat → β → Option α → Option β
  | _, b, none => some b
  | 0, _, some _ => none
  | fuel + 1, b, some a => foldChain next f fuel (f b a) (next a)

theorem IsChain.search_eq {head : Option α} {links : List α} (h : IsChain next head links)
    (p : α → Bool) {fuel : Nat} (hfuel : links.length ≤ fuel) :
    searchChain next p fuel head = some (links.find? p) := by
  induction h generalizing fuel with
  | nil => cases fuel <;> rfl
  | @cons a links _ ih =>
    cases fuel with
    | zero => exact absurd hfuel (Nat.not_succ_le_zero _)
    | succ fuel =>
      rw [searchChain, List.find?_cons]
      cases hp : p a with
      | true => rfl
      | false => exact ih (Nat.le_of_succ_le_succ hfuel)

theorem IsChain.fold_eq {β : Type*} {head : Option α} {links : List α}
    (h : IsChain next head links) (f : β → α → β) (b : β) {fuel : Nat}
    (hfuel : links.length ≤ fuel) : foldChain next f fuel b head = some (links.foldl f b) := by
  induction h generalizing fuel b with
  | nil => cases fuel <;> rfl
  | @cons a links _ ih =>
    cases fuel with
    | zero => exact absurd hfuel (Nat.not_succ_le_zero _)
    | succ fuel => exact ih (f b a) (Nat.le_of_succ_le_succ hfuel)

/-- **A loop over all links ends exactly on a chain.** -/
theorem isSome_foldChain_iff {β : Type*} (f : β → α → β) (b : β) (head : Option α) :
    (∃ fuel, (foldChain next f fuel b head).isSome) ↔ ∃ links, IsChain next head links := by
  constructor
  · rintro ⟨fuel, h⟩
    induction fuel generalizing b head with
    | zero =>
      cases head with
      | none => exact ⟨[], .nil⟩
      | some a => cases h
    | succ fuel ih =>
      cases head with
      | none => exact ⟨[], .nil⟩
      | some a =>
        obtain ⟨links, hlinks⟩ := ih (f b a) (next a) h
        exact ⟨a :: links, .cons hlinks⟩
  · rintro ⟨links, hlinks⟩
    refine ⟨links.length, ?_⟩
    rw [hlinks.fold_eq f b (Nat.le_refl _)]
    rfl

end Hexabus.Lib.Chain
