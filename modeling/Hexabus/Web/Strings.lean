import Mathlib.Data.List.Basic
import Mathlib.Tactic

/-!
# Strings of the web interface

A string of JavaScript is a list of 16-bit code units. Where it leaves the process, as an argument
of a program or as the text of a file, it is encoded in UTF-8.
-/

namespace Hexabus.Web

/-- A string, by its code units. -/
abbrev Text := List UInt16

/-- A string literal of ASCII characters. -/
def literal (s : String) : Text := s.toList.map fun c => UInt16.ofNat c.toNat

/-! ## Surrogates -/

def isHighSurrogate (c : UInt16) : Bool := decide (0xD800 ≤ c ∧ c ≤ 0xDBFF)

def isLowSurrogate (c : UInt16) : Bool := decide (0xDC00 ≤ c ∧ c ≤ 0xDFFF)

def isSurrogate (c : UInt16) : Bool := decide (0xD800 ≤ c ∧ c ≤ 0xDFFF)

/-- What a string is once it has been encoded in UTF-8 and decoded: a surrogate that is not one of
a pair is replaced. The first argument is a high surrogate whose low one may follow. -/
def throughUtf8From : Option UInt16 → Text → Text
  | none, [] => []
  | some _, [] => [0xFFFD]
  | none, c :: s =>
    if isHighSurrogate c then throughUtf8From (some c) s
    else if isLowSurrogate c then 0xFFFD :: throughUtf8From none s
    else c :: throughUtf8From none s
  | some h, c :: s =>
    if isLowSurrogate c then h :: c :: throughUtf8From none s
    else if isHighSurrogate c then 0xFFFD :: throughUtf8From (some c) s
    else 0xFFFD :: c :: throughUtf8From none s

def throughUtf8 (s : Text) : Text := throughUtf8From none s

/-- Every surrogate of the string is one of a pair. -/
def WellFormed (s : Text) : Prop := throughUtf8 s = s

instance (s : Text) : Decidable (WellFormed s) := inferInstanceAs (Decidable (_ = _))

theorem length_throughUtf8From (h : Option UInt16) (s : Text) :
    (throughUtf8From h s).length = h.toList.length + s.length := by
  induction s generalizing h with
  | nil => cases h <;> rfl
  | cons c s ih =>
    cases h with
    | none =>
      rw [throughUtf8From]
      split
      · simp [ih, Nat.add_comm]
      · split <;> simp [ih]
    | some h =>
      rw [throughUtf8From]
      split
      · simp [ih]
        omega
      · split
        · simp [ih]
          omega
        · simp [ih]
          omega

@[simp] theorem length_throughUtf8 (s : Text) : (throughUtf8 s).length = s.length := by
  simp [throughUtf8, length_throughUtf8From]

theorem not_high_of_not_surrogate {c : UInt16} (h : isSurrogate c = false) :
    isHighSurrogate c = false ∧ isLowSurrogate c = false := by
  simp only [isSurrogate, isHighSurrogate, isLowSurrogate, decide_eq_false_iff_not,
    UInt16.le_iff_toNat_le] at *
  have h₁ : (0xD800 : UInt16).toNat = 0xD800 := rfl
  have h₂ : (0xDBFF : UInt16).toNat = 0xDBFF := rfl
  have h₃ : (0xDC00 : UInt16).toNat = 0xDC00 := rfl
  have h₄ : (0xDFFF : UInt16).toNat = 0xDFFF := rfl
  omega

/-- A character that is no surrogate separates what comes before it from what follows. -/
theorem throughUtf8From_append {c : UInt16} (hc : isSurrogate c = false) (h : Option UInt16)
    (s t : Text) :
    throughUtf8From h (s ++ c :: t) = throughUtf8From h s ++ c :: throughUtf8 t := by
  obtain ⟨hhigh, hlow⟩ := not_high_of_not_surrogate hc
  induction s generalizing h with
  | nil => cases h <;> simp [throughUtf8From, throughUtf8, hhigh, hlow]
  | cons d s ih =>
    cases h with
    | none =>
      rw [List.cons_append, throughUtf8From, throughUtf8From]
      split
      · rw [ih]
      · split <;> rw [ih, List.cons_append]
    | some h =>
      rw [List.cons_append, throughUtf8From, throughUtf8From]
      split
      · rw [ih, List.cons_append, List.cons_append]
      · split
        · rw [ih, List.cons_append]
        · rw [ih, List.cons_append, List.cons_append]

theorem throughUtf8_append {c : UInt16} (hc : isSurrogate c = false) (s t : Text) :
    throughUtf8 (s ++ c :: t) = throughUtf8 s ++ c :: throughUtf8 t :=
  throughUtf8From_append hc none s t

theorem throughUtf8_cons {c : UInt16} (hc : isSurrogate c = false) (t : Text) :
    throughUtf8 (c :: t) = c :: throughUtf8 t :=
  throughUtf8_append hc [] t

/-- Without surrogates a string is left as it is. -/
theorem throughUtf8_append_left {s : Text} (hs : ∀ c ∈ s, isSurrogate c = false) (t : Text) :
    throughUtf8 (s ++ t) = s ++ throughUtf8 t := by
  induction s with
  | nil => rfl
  | cons c s ih =>
    rw [List.cons_append, throughUtf8_cons (hs c List.mem_cons_self),
      ih fun d hd => hs d (List.mem_cons_of_mem _ hd), List.cons_append]

/-- Decoding brings in no character of ASCII. -/
theorem mem_of_mem_throughUtf8From {c : UInt16} (hc : c ≠ 0xFFFD) (h : Option UInt16) (s : Text)
    (hm : c ∈ throughUtf8From h s) : c ∈ h.toList ++ s := by
  induction s generalizing h with
  | nil =>
    cases h with
    | none => simp [throughUtf8From] at hm
    | some h => simp [throughUtf8From, hc] at hm
  | cons d s ih =>
    cases h with
    | none =>
      rw [throughUtf8From] at hm
      split at hm
      · simpa using ih _ hm
      · split at hm
        · have := ih _ ((List.mem_cons.mp hm).resolve_left hc)
          simp at this ⊢
          exact .inr this
        · rcases List.mem_cons.mp hm with rfl | hm
          · simp
          · have := ih _ hm
            simp at this ⊢
            exact .inr this
    | some h =>
      rw [throughUtf8From] at hm
      split at hm
      · simp only [List.mem_cons] at hm
        rcases hm with rfl | rfl | hm
        · simp
        · simp
        · have := ih _ hm
          simp at this ⊢
          exact .inr (.inr this)
      · split at hm
        · have := ih _ ((List.mem_cons.mp hm).resolve_left hc)
          simp at this ⊢
          exact .inr this
        · rcases List.mem_cons.mp ((List.mem_cons.mp hm).resolve_left hc) with rfl | hm
          · simp
          · have := ih _ hm
            simp at this ⊢
            exact .inr (.inr this)

theorem mem_of_mem_throughUtf8 {c : UInt16} (hc : c ≠ 0xFFFD) {s : Text}
    (hm : c ∈ throughUtf8 s) : c ∈ s := by
  simpa using mem_of_mem_throughUtf8From hc none s hm

end Hexabus.Web
