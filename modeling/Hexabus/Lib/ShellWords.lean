import Mathlib.Data.List.Basic
import Mathlib.Algebra.BigOperators.Group.List.Basic
import Mathlib.Tactic

/-!
# The words of a command line

A shell cuts a command line into words. Outside of quotes blanks end a word; single quotes keep
everything up to the next one, double quotes all but expansions and backslashes. The alphabet
is arbitrary: what a character does is its kind.
-/

namespace Hexabus.Lib.Shell

/-- What a character does where it is not quoted. -/
inductive Kind where
  /-- Stands for itself. -/
  | ordinary
  /-- A space or a tab. -/
  | blank
  | newline
  | singleQuote
  | doubleQuote
  | backslash
  /-- Begins a comment where it begins a word. -/
  | hash
  /-- Begins a home directory where it begins a word. -/
  | tilde
  /-- Begins an expansion, also within double quotes. -/
  | expansion
  /-- Matches the names of files. -/
  | pattern
  /-- Separates commands, or redirects. -/
  | operator
  deriving DecidableEq

/-- Where the shell is: the word that has begun comes along. -/
inductive Mode (α : Type) where
  | plain (word : Option (List α))
  | single (word : List α)
  | double (word : List α)
  /-- After a backslash. -/
  | escape (word : Option (List α))
  /-- After a backslash within double quotes; it stays in most cases. -/
  | doubleEscape (word : List α) (backslash : α)
  | comment

/-- What has been read of the word. -/
def begun {α : Type} (word : Option (List α)) : List α := word.getD []

@[simp] theorem begun_none {α : Type} : begun (none : Option (List α)) = [] := rfl

@[simp] theorem begun_some {α : Type} (w : List α) : begun (some w) = w := rfl

variable {α : Type} (kind : α → Kind)

/-- The words of the rest of a line that is one simple command and whose words are given by the
line alone. There are none where a quote stays open, where an operator or a newline ends the
command, or where a word stands for something else: an expansion, a home directory, the names
of files. -/
def wordsFrom : Mode α → List α → Option (List (List α))
  | .plain none, [] => some []
  | .plain (some w), [] => some [w]
  | .comment, [] => some []
  | .single _, [] => none
  | .double _, [] => none
  | .escape _, [] => none
  | .doubleEscape _ _, [] => none
  | .plain w, c :: s =>
    match kind c with
    | .ordinary => wordsFrom (.plain (some (begun w ++ [c]))) s
    | .blank => (wordsFrom (.plain none) s).map (w.toList ++ ·)
    | .singleQuote => wordsFrom (.single (begun w)) s
    | .doubleQuote => wordsFrom (.double (begun w)) s
    | .backslash => wordsFrom (.escape w) s
    | .hash =>
      if w.isNone then wordsFrom .comment s else wordsFrom (.plain (some (begun w ++ [c]))) s
    | .tilde => if w.isNone then none else wordsFrom (.plain (some (begun w ++ [c]))) s
    | .newline | .expansion | .pattern | .operator => none
  | .single w, c :: s =>
    if kind c = .singleQuote then wordsFrom (.plain (some w)) s
    else wordsFrom (.single (w ++ [c])) s
  | .double w, c :: s =>
    match kind c with
    | .doubleQuote => wordsFrom (.plain (some w)) s
    | .backslash => wordsFrom (.doubleEscape w c) s
    | .expansion => none
    | _ => wordsFrom (.double (w ++ [c])) s
  | .escape w, c :: s =>
    -- a backslash before a newline continues the line
    if kind c = .newline then wordsFrom (.plain w) s
    else wordsFrom (.plain (some (begun w ++ [c]))) s
  | .doubleEscape w b, c :: s =>
    match kind c with
    | .newline => wordsFrom (.double w) s
    | .expansion | .doubleQuote | .backslash => wordsFrom (.double (w ++ [c])) s
    | _ => wordsFrom (.double (w ++ [b, c])) s
  | .comment, c :: s => if kind c = .newline then none else wordsFrom .comment s

/-- The words of a command line. -/
def words (line : List α) : Option (List (List α)) := wordsFrom kind (.plain none) line

/-! ## How long a line must be -/

/-- The length of the words, with one separator for each. -/
def cost (ws : List (List α)) : Nat := (ws.map fun w => w.length + 1).sum

@[simp] theorem cost_nil : cost ([] : List (List α)) = 0 := rfl

@[simp] theorem cost_cons (w : List α) (ws : List (List α)) :
    cost (w :: ws) = w.length + 1 + cost ws := by
  simp [cost]

/-- What has been read counts, and the end of the line ends a word unless a quote is open. -/
def room : Mode α → Nat
  | .plain w => (begun w).length + 1
  | .single w => w.length
  | .double w => w.length
  | .escape w => (begun w).length + 1
  | .doubleEscape w _ => w.length + 1
  | .comment => 1

/-- **Every character of a word, and the end of each word, takes a character of the line.** -/
theorem cost_le {mode : Mode α} {s : List α} {ws : List (List α)}
    (h : wordsFrom kind mode s = some ws) : cost ws ≤ room mode + s.length := by
  induction s generalizing mode ws with
  | nil =>
    rcases mode with (_ | w) | w | w | w | ⟨w, b⟩ | _ <;> simp [wordsFrom] at h <;> subst h <;>
      simp [room]
  | cons c s ih =>
    rcases mode with w | w | w | w | ⟨w, b⟩ | _
    · rw [wordsFrom] at h
      cases hk : kind c <;> simp only [hk] at h
      case blank =>
        obtain ⟨vs, hvs, rfl⟩ := Option.map_eq_some_iff.mp h
        have := ih hvs
        cases w <;> simp [room] at this ⊢ <;> omega
      case hash =>
        split at h
        · have := ih h
          simp [room] at this ⊢
          omega
        · have := ih h
          simp [room] at this ⊢
          omega
      case tilde =>
        split at h
        · simp at h
        · have := ih h
          simp [room] at this ⊢
          omega
      all_goals first
        | (have hle := ih h; simp [room] at hle ⊢; omega)
        | simp at h
    · rw [wordsFrom] at h
      split at h <;> (have hle := ih h; simp [room] at hle ⊢; omega)
    · rw [wordsFrom] at h
      cases hk : kind c <;> simp only [hk] at h <;> first
        | (have hle := ih h; simp [room] at hle ⊢; omega)
        | simp at h
    · rw [wordsFrom] at h
      split at h <;> (have hle := ih h; simp [room] at hle ⊢; omega)
    · rw [wordsFrom] at h
      cases hk : kind c <;> simp only [hk] at h <;>
        (have hle := ih h; simp [room] at hle ⊢; omega)
    · rw [wordsFrom] at h
      split at h
      · simp at h
      · have := ih h
        simp [room] at this ⊢
        omega

/-! ## Words that stand for themselves -/

/-- Characters that stand for themselves within a word. -/
def Inner (c : α) : Prop := kind c = .ordinary ∨ kind c = .hash ∨ kind c = .tilde

/-- A word that stands for itself without quotes. -/
def Plain : List α → Prop
  | [] => False
  | c :: w => kind c = .ordinary ∧ ∀ d ∈ w, Inner kind d

instance (c : α) : Decidable (Inner kind c) := inferInstanceAs (Decidable (_ ∨ _))

instance : (w : List α) → Decidable (Plain kind w)
  | [] => isFalse id
  | _ :: _ => inferInstanceAs (Decidable (_ ∧ _))

theorem Plain.inner {w : List α} (h : Plain kind w) : ∀ c ∈ w, Inner kind c := by
  cases w with
  | nil => exact absurd h id
  | cons c w =>
    intro d hd
    rcases List.mem_cons.mp hd with rfl | hd
    · exact .inl h.1
    · exact h.2 d hd

theorem Inner.not_blank {c : α} (h : Inner kind c) : kind c ≠ .blank := by
  rcases h with h | h | h <;> simp [h]

/-- Within a word the characters of a word go on. -/
theorem wordsFrom_inner {v : List α} (hv : ∀ c ∈ v, Inner kind c) (w s : List α) :
    wordsFrom kind (.plain (some w)) (v ++ s) = wordsFrom kind (.plain (some (w ++ v))) s := by
  induction v generalizing w with
  | nil => simp
  | cons c v ih =>
    have hc : wordsFrom kind (.plain (some w)) (c :: (v ++ s)) =
        wordsFrom kind (.plain (some (w ++ [c]))) (v ++ s) := by
      rcases hv c List.mem_cons_self with h | h | h <;> simp [wordsFrom, h]
    rw [List.cons_append, hc, ih fun d hd => hv d (List.mem_cons_of_mem _ hd)]
    simp

theorem wordsFrom_plain {w : List α} (hw : Plain kind w) (s : List α) :
    wordsFrom kind (.plain none) (w ++ s) = wordsFrom kind (.plain (some w)) s := by
  cases w with
  | nil => exact absurd hw id
  | cons c w =>
    have hc : wordsFrom kind (.plain none) (c :: (w ++ s)) =
        wordsFrom kind (.plain (some [c])) (w ++ s) := by
      simp [wordsFrom, hw.1]
    rw [List.cons_append, hc, wordsFrom_inner kind hw.2]
    rfl

/-- A plain word and a blank: the rest is read by itself. -/
theorem wordsFrom_plain_blank {w : List α} (hw : Plain kind w) {b : α} (hb : kind b = .blank)
    (s : List α) :
    wordsFrom kind (.plain none) (w ++ b :: s) =
      (wordsFrom kind (.plain none) s).map (w :: ·) := by
  rw [wordsFrom_plain kind hw]
  simp [wordsFrom, hb]

/-- Within single quotes everything but the quote stands for itself. -/
theorem wordsFrom_single {v : List α} (hv : ∀ c ∈ v, kind c ≠ .singleQuote) (w s : List α) :
    wordsFrom kind (.single w) (v ++ s) = wordsFrom kind (.single (w ++ v)) s := by
  induction v generalizing w with
  | nil => simp
  | cons c v ih =>
    have hc : wordsFrom kind (.single w) (c :: (v ++ s)) =
        wordsFrom kind (.single (w ++ [c])) (v ++ s) := by
      simp [wordsFrom, hv c List.mem_cons_self]
    rw [List.cons_append, hc, ih fun d hd => hv d (List.mem_cons_of_mem _ hd)]
    simp

/-! ## Lines without a character to spare -/

/-- **A line that is no longer than its words is the words themselves**, with a blank after
each but the last, and all of them stand for themselves. -/
theorem verbatim {s : List α} :
    (∀ ws, wordsFrom kind (.plain none) s = some ws → cost ws = 1 + s.length →
      (∀ w ∈ ws, Plain kind w) ∧ s.filter (fun c => kind c ≠ .blank) = ws.flatten) ∧
    ∀ w ws, wordsFrom kind (.plain (some w)) s = some ws → cost ws = w.length + 1 + s.length →
      ∃ v rest, ws = (w ++ v) :: rest ∧ (∀ c ∈ v, Inner kind c) ∧
        (∀ w ∈ rest, Plain kind w) ∧
        s.filter (fun c => kind c ≠ .blank) = v ++ rest.flatten := by
  induction s with
  | nil =>
    constructor
    · intro ws h hc
      simp [wordsFrom] at h
      subst h
      simp at hc
    · intro w ws h _
      simp [wordsFrom] at h
      subst h
      exact ⟨[], [], by simp⟩
  | cons c s ih =>
    obtain ⟨ihn, ihs⟩ := ih
    constructor
    · intro ws h hc
      rw [wordsFrom] at h
      cases hk : kind c <;> simp only [hk] at h
      case ordinary =>
        obtain ⟨v, rest, rfl, hv, hrest, hs⟩ :=
          ihs _ _ h (by simp at hc ⊢; omega)
        constructor
        · intro w hw
          rcases List.mem_cons.mp hw with rfl | hw
          · exact ⟨hk, hv⟩
          · exact hrest w hw
        · simp [hk] at hs ⊢
          exact hs
      -- whatever else begins the line leaves it too short
      case blank =>
        obtain ⟨vs, hvs, rfl⟩ := Option.map_eq_some_iff.mp h
        have := cost_le kind hvs
        simp [room] at this hc
        omega
      case hash =>
        have := cost_le kind h
        simp [room] at this hc
        omega
      case tilde => simp at h
      all_goals first
        | (have hle := cost_le kind h; simp [room] at hle hc; omega)
        | simp at h
    · intro w ws h hc
      rw [wordsFrom] at h
      have hinner : Inner kind c →
          wordsFrom kind (.plain (some (w ++ [c]))) s = some ws →
          ∃ v rest, ws = (w ++ v) :: rest ∧ (∀ c ∈ v, Inner kind c) ∧
            (∀ w ∈ rest, Plain kind w) ∧
            (c :: s).filter (fun c => kind c ≠ .blank) = v ++ rest.flatten := by
        intro hi h
        obtain ⟨v, rest, rfl, hv, hrest, hs⟩ := ihs _ _ h (by simp at hc ⊢; omega)
        refine ⟨c :: v, rest, by simp, ?_, hrest, ?_⟩
        · intro d hd
          rcases List.mem_cons.mp hd with rfl | hd
          · exact hi
          · exact hv d hd
        · rw [List.filter_cons_of_pos (by simpa using hi.not_blank), hs]
          rfl
      cases hk : kind c <;> simp only [hk] at h
      case ordinary => exact hinner (.inl hk) h
      case hash => exact hinner (.inr (.inl hk)) (by simpa using h)
      case tilde => exact hinner (.inr (.inr hk)) (by simpa using h)
      case blank =>
        obtain ⟨vs, hvs, rfl⟩ := Option.map_eq_some_iff.mp h
        obtain ⟨hplain, hs⟩ := ihn vs hvs (by simp at hc ⊢; omega)
        refine ⟨[], vs, by simp, by simp, hplain, ?_⟩
        rw [List.filter_cons_of_neg (by simp [hk]), hs]
        rfl
      all_goals first
        | (have hle := cost_le kind h; simp [room] at hle hc; omega)
        | simp at h

/-! ## Words side by side -/

/-- The words with a blank between any two. -/
def spaced (b : α) : List (List α) → List α
  | [] => []
  | [w] => w
  | w :: v :: ws => w ++ b :: spaced b (v :: ws)

theorem length_spaced (b : α) {ws : List (List α)} (h : ws ≠ []) :
    cost ws = 1 + (spaced b ws).length := by
  induction ws with
  | nil => exact absurd rfl h
  | cons w ws ih =>
    cases ws with
    | nil => simp [spaced, Nat.add_comm]
    | cons v ws =>
      have := ih (by simp)
      simp [spaced] at this ⊢
      omega

theorem words_spaced {b : α} (hb : kind b = .blank) {ws : List (List α)}
    (h : ∀ w ∈ ws, Plain kind w) : words kind (spaced b ws) = some ws := by
  unfold words
  induction ws with
  | nil => rfl
  | cons w ws ih =>
    have hw := h w List.mem_cons_self
    have hws : ∀ v ∈ ws, Plain kind v := fun v hv => h v (List.mem_cons_of_mem _ hv)
    cases ws with
    | nil =>
      have := wordsFrom_plain kind hw []
      rw [List.append_nil] at this
      rw [spaced, this, wordsFrom]
    | cons v ws =>
      rw [spaced, wordsFrom_plain_blank kind hw hb, ih hws]
      rfl

end Hexabus.Lib.Shell
