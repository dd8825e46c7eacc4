import Mathlib.Data.List.TakeWhile
import Mathlib.Tactic

/-!
# Parsers with expectation points

Recursive descent with ordered choice. A parser that does not match lets the next alternative
try; behind an expectation point it ends the whole parse instead. In front of a token, blanks
and comments from `#` to the end of a line are skipped. The texts that a parser is written for
are given as languages over pieces, and what a parser reads of them is put together rule by
rule.
-/

namespace Hexabus.Lib.Expectation

/-! ## Skipping -/

/-- `space`. -/
def isBlank (c : Char) : Bool :=
  c = ' ' || c = '\t' || c = '\n' || c = '\x0b' || c = '\x0c' || c = '\r'

def isLineEnd (c : Char) : Bool := c = '\n' || c = '\r'

/-- Behind the line that a comment is on; a comment that nothing ends is none. -/
def afterComment : List Char → Option (List Char)
  | [] => none
  | '\r' :: '\n' :: s => some s
  | c :: s => if isLineEnd c then some s else afterComment s

/-- Blanks and comments, as many as there are. -/
def skipFrom : Nat → List Char → List Char
  | 0, s => s
  | _, [] => []
  | n + 1, c :: s =>
    if isBlank c then skipFrom n s
    else if c = '#' then ((afterComment s).map (skipFrom n)).getD (c :: s)
    else c :: s

def skip (s : List Char) : List Char := skipFrom s.length s

/-- A text that is skipped. -/
inductive Gap : List Char → Prop
  | nil : Gap []
  | blank {c : Char} {g : List Char} (h : isBlank c = true) (hg : Gap g) : Gap (c :: g)
  | comment {body : List Char} {c : Char} {g : List Char} (hb : body.all (!isLineEnd ·) = true)
      (hc : isLineEnd c = true) (hg : Gap g) : Gap ('#' :: (body ++ c :: g))

/-- Nothing is skipped in front of it. -/
def solid : List Char → Bool
  | [] => false
  | c :: _ => !isBlank c && c ≠ '#'

theorem afterComment_cons {c : Char} {s : List Char} (h : isLineEnd c = false) :
    afterComment (c :: s) = afterComment s := by
  have hc : c ≠ '\r' := by
    rintro rfl
    exact absurd h (by decide)
  cases s with
  | nil => simp [afterComment, h]
  | cons d s => rw [afterComment.eq_3 c (d :: s) (fun t hc' => absurd hc' hc), if_neg (by simp [h])]

/-- A comment ends with its line, and with the line feed behind a carriage return. -/
theorem afterComment_body {body : List Char} {c : Char} (s : List Char)
    (hb : body.all (!isLineEnd ·) = true) (hc : isLineEnd c = true) :
    afterComment (body ++ c :: s) = some s ∨
      ∃ t, s = '\n' :: t ∧ afterComment (body ++ c :: s) = some t := by
  induction body with
  | nil =>
    rw [List.nil_append]
    by_cases h : c = '\r' ∧ ∃ t, s = '\n' :: t
    · obtain ⟨rfl, t, rfl⟩ := h
      exact .inr ⟨t, rfl, rfl⟩
    · refine .inl ?_
      rw [afterComment.eq_3 c s (fun t hc' hs => h ⟨hc', t, hs⟩), if_pos hc]
  | cons d body ih =>
    simp only [List.all_cons, Bool.and_eq_true, Bool.not_eq_true'] at hb
    rw [List.cons_append, afterComment_cons hb.1]
    exact ih (by simpa using hb.2)

theorem skipFrom_of_solid {s : List Char} (h : s = [] ∨ solid s = true) (n : Nat) :
    skipFrom n s = s := by
  cases s with
  | nil => cases n <;> rfl
  | cons c s =>
    have h := h.resolve_left (List.cons_ne_nil c s)
    simp only [solid, Bool.and_eq_true, Bool.not_eq_true', decide_eq_true_eq] at h
    cases n with
    | zero => rfl
    | succ n => rw [skipFrom, if_neg (by simp [h.1]), if_neg h.2]

theorem Gap.of_blank {c : Char} {g : List Char} (h : Gap (c :: g)) (hc : isBlank c = true) :
    Gap g := by
  cases h with
  | blank _ hg => exact hg
  | comment => exact absurd hc (by decide)

/-- A gap is skipped up to what is behind it. -/
theorem skipFrom_gap {s : List Char} (hs : s = [] ∨ solid s = true) (k : Nat) :
    ∀ (g : List Char) (n : Nat), g.length ≤ k → k ≤ n → Gap g → skipFrom n (g ++ s) = s := by
  -- on the length of the gap: a line feed may belong to the carriage return in front of it
  induction k with
  | zero =>
    intro g n hg _ _
    rw [List.length_eq_zero_iff.mp (Nat.le_zero.mp hg)]
    exact skipFrom_of_solid hs n
  | succ k ih =>
    intro g n hk hn hg
    obtain ⟨n, rfl⟩ := Nat.exists_eq_succ_of_ne_zero (by omega : n ≠ 0)
    cases hg with
    | nil => exact skipFrom_of_solid hs _
    | blank h hg =>
      rw [List.cons_append, skipFrom, if_pos h]
      exact ih _ n (by simpa using hk) (by omega) hg
    | @comment body c g hb hc hg =>
      rw [List.length_cons, List.length_append, List.length_cons] at hk
      rw [List.cons_append, List.append_assoc, List.cons_append, skipFrom, if_neg (by decide),
        if_pos rfl]
      rcases afterComment_body (g ++ s) hb hc with h | ⟨t, ht, h⟩
      · rw [h]
        exact ih g n (by omega) (by omega) hg
      · rw [h]
        cases g with
        | nil =>
          rw [List.nil_append] at ht
          rw [ht] at hs
          exact absurd (hs.resolve_left (List.cons_ne_nil _ t)) Bool.false_ne_true
        | cons d g =>
          obtain ⟨rfl, rfl⟩ := List.cons_eq_cons.mp (ht.trans rfl)
          exact ih g n (by rw [List.length_cons] at hk; omega) (by omega) (hg.of_blank rfl)

theorem skip_gap {g s : List Char} (hg : Gap g) (hs : solid s = true) : skip (g ++ s) = s :=
  skipFrom_gap (.inr hs) g.length g _ (Nat.le_refl _) (by simp) hg

theorem skip_gap_end {g : List Char} (hg : Gap g) : skip g = [] := by
  have h := skipFrom_gap (.inl rfl) g.length g g.length (Nat.le_refl _) (Nat.le_refl _) hg
  rwa [List.append_nil] at h

/-- A gap begins with a blank or a comment. -/
theorem Gap.head {g : List Char} (h : Gap g) : g = [] ∨ ∃ c t, g = c :: t ∧ (isBlank c ∨ c = '#') := by
  cases h with
  | nil => exact .inl rfl
  | @blank c g h _ => exact .inr ⟨c, g, rfl, .inl h⟩
  | comment => exact .inr ⟨_, _, rfl, .inr rfl⟩

/-- The characters that a gap can begin with. -/
def gapChars : List Char := [' ', '\t', '\n', '\x0b', '\x0c', '\r', '#']

theorem mem_gapChars {c : Char} : c ∈ gapChars ↔ isBlank c = true ∨ c = '#' := by
  simp only [gapChars, isBlank, List.mem_cons, List.not_mem_nil, or_false, Bool.or_eq_true,
    decide_eq_true_eq]
  tauto

/-- A character of a set that has none of them. -/
theorem notMem_gapChars {p : Char → Bool} {c : Char} (h : gapChars.all (!p ·) = true)
    (hc : p c = true) : c ∉ gapChars := by
  intro hmem
  have hno := List.all_eq_true.mp h c hmem
  rw [hc] at hno
  exact absurd hno (by decide)

theorem solid_cons {c : Char} (h : c ∉ gapChars) (s : List Char) : solid (c :: s) = true := by
  rw [mem_gapChars, not_or] at h
  show (!isBlank c && decide (c ≠ '#')) = true
  rw [Bool.eq_false_iff.mpr h.1, decide_eq_true h.2]
  rfl

/-! ## Parsers -/

/-- Where a parser stands: the line, and the text ahead. -/
structure Position where
  line : Nat
  rest : List Char

/-- The line feeds of a text. -/
def feeds (s : List Char) : Nat := s.count '\n'

theorem feeds_cons {c : Char} (h : c ∉ gapChars) (s : List Char) : feeds (c :: s) = feeds s := by
  have hc : c ≠ '\n' := by
    rintro rfl
    exact h (by decide)
  exact List.count_cons_of_ne hc

theorem feeds_of_all {test : Char → Bool} {w : List Char} (h : gapChars.all (!test ·) = true)
    (hw : w.all test = true) : feeds w = 0 :=
  List.count_eq_zero.mpr fun hmem =>
    notMem_gapChars h (List.all_eq_true.mp hw _ hmem) (by decide)

/-- The position in front of a suffix of what is ahead. -/
def Position.advance (p : Position) (s : List Char) : Position :=
  ⟨p.line + (feeds p.rest - feeds s), s⟩

theorem Position.advance_append (n : Nat) (u s : List Char) :
    Position.advance ⟨n, u ++ s⟩ s = ⟨n + feeds u, s⟩ := by
  simp only [Position.advance, feeds, List.count_append, Nat.add_sub_cancel]

/-- What comes of a parser: it matches, it does not, or an expectation is not met. -/
inductive Outcome (α : Type)
  | ok (value : α) (after : Position)
  | fail
  | error

def Parser (α : Type) : Type := Position → Outcome α

namespace Parser

variable {α β : Type}

/-- What is done with a match. -/
def andThen (o : Outcome α) (k : α → Parser β) : Outcome β :=
  match o with
  | .ok a p => k a p
  | .fail => .fail
  | .error => .error

@[simp] theorem andThen_ok (a : α) (p : Position) (k : α → Parser β) :
    andThen (.ok a p) k = k a p := rfl

@[simp] theorem andThen_fail (k : α → Parser β) : andThen .fail k = .fail := rfl

@[simp] theorem andThen_error (k : α → Parser β) : andThen .error k = .error := rfl

instance : Monad Parser where
  pure a := fun p => .ok a p
  bind p k := fun s => andThen (p s) k

@[simp] theorem pure_apply (a : α) (s : Position) : (pure a : Parser α) s = .ok a s := rfl

@[simp] theorem bind_apply (p : Parser α) (k : α → Parser β) (s : Position) :
    (p >>= k) s = andThen (p s) k := rfl

/-- `a | b`. -/
def orElse (p q : Parser α) : Parser α := fun s =>
  match p s with
  | .fail => q s
  | o => o

instance : OrElse (Parser α) := ⟨fun p q => orElse p (q ())⟩

/-- What stands behind `>`. -/
def expect (p : Parser α) : Parser α := fun s =>
  match p s with
  | .fail => .error
  | o => o

def starFrom (p : Parser α) : Nat → Parser (List α)
  | 0, s => .ok [] s
  | n + 1, s =>
    match p s with
    | .ok a s' => andThen (starFrom p n s') fun as s'' => .ok (a :: as) s''
    | .fail => .ok [] s
    | .error => .error

/-- `*a`. -/
def star (p : Parser α) : Parser (List α) := fun s => starFrom p (s.rest.length + 1) s

/-- `+a`. -/
def plus (p : Parser α) : Parser (List α) := do
  let a ← p
  let as ← star p
  return a :: as

/-- `-a`. -/
def opt (p : Parser α) : Parser (Option α) := fun s =>
  match p s with
  | .ok a s' => .ok (some a) s'
  | .fail => .ok none s
  | .error => .error

/-- What is skipped in front of a token. -/
def skipped : Parser Unit := fun s => .ok () (s.advance (skip s.rest))

/-- A word, with nothing skipped. -/
def bare (w : List Char) : Parser Unit := fun s =>
  if w.isPrefixOf s.rest then .ok () (s.advance (s.rest.drop w.length)) else .fail

/-- `lit`. -/
def lit (w : List Char) : Parser Unit := do
  skipped
  bare w

/-- One character of a set, with nothing skipped. -/
def oneOf (test : Char → Bool) : Parser Char := fun s =>
  match s.rest with
  | c :: t => if test c then .ok c (s.advance t) else .fail
  | [] => .fail

/-- As many characters of a set as there are, with nothing skipped. -/
def run (test : Char → Bool) : Parser (List Char) := fun s =>
  .ok (s.rest.takeWhile test) (s.advance (s.rest.dropWhile test))

/-- `eoi`. -/
def eoi : Parser Unit := fun s => if skip s.rest = [] then .ok () (s.advance []) else .fail

/-- The line that is reached, with nothing skipped. -/
def here : Parser Nat := fun s => .ok s.line s

/-- A condition on what was read. -/
def holds (b : Bool) : Parser Unit := fun s => if b then .ok () s else .fail

/-- The line of the next token. -/
def linePos : Parser Nat := fun s =>
  let s := s.advance (skip s.rest)
  .ok s.line s

end Parser

/-! ## Languages -/

/-- A piece of a text: what is skipped, a word, or a name, which is spelled in a way that is left
open here. -/
inductive Piece (ν : Type)
  | gap (g : List Char) (h : Gap g)
  | word (w : List Char)
  | name (x : ν)

variable {ν α β γ δ : Type}

def Piece.text (spell : ν → List Char) : Piece ν → List Char
  | .gap g _ => g
  | .word w => w
  | .name x => spell x

/-- The line feeds of a piece; a name has none. -/
def Piece.feeds : Piece ν → Nat
  | .gap g _ => Expectation.feeds g
  | .word w => Expectation.feeds w
  | .name _ => 0

def textOf (spell : ν → List Char) (ps : List (Piece ν)) : List Char := ps.flatMap (·.text spell)

def lines (ps : List (Piece ν)) : Nat := (ps.map Piece.feeds).sum

/-- Which pieces, from which line on, stand for which value. -/
def Language (ν α : Type) : Type := Nat → List (Piece ν) → α → Prop

namespace Language

instance : Monad (Language ν) where
  pure a := fun _ ps b => ps = [] ∧ b = a
  bind L M := fun n ps b =>
    ∃ qs rs a, ps = qs ++ rs ∧ L n qs a ∧ M a (n + lines qs) rs b

/-- `a | b`. -/
def or (L M : Language ν α) : Language ν α := fun n ps a => L n ps a ∨ M n ps a

/-- `*a`. -/
inductive Star (L : Language ν α) : Language ν (List α)
  | nil {n : Nat} : Star L n [] []
  | cons {n : Nat} {ps qs : List (Piece ν)} {a : α} {as : List α} (ha : L n ps a)
      (has : Star L (n + lines ps) qs as) : Star L n (ps ++ qs) (a :: as)

/-- `-a`. -/
def opt (L : Language ν α) : Language ν (Option α) := fun n ps a =>
  (ps = [] ∧ a = none) ∨ ∃ b, a = some b ∧ L n ps b

/-- What is skipped. -/
def gap : Language ν Unit := fun _ ps _ => ∃ g h, ps = [.gap g h]

/-- A word alone. -/
def bare (w : List Char) : Language ν Unit := fun _ ps _ => ps = [.word w]

/-- A word behind a gap. -/
def word (w : List Char) : Language ν Unit := do
  gap
  bare w

/-- The line that is reached behind a gap. -/
def linePos : Language ν Nat := fun n ps l => ∃ g h, ps = [.gap g h] ∧ l = n + Expectation.feeds g

end Language

section
variable (spell : ν → List Char)

theorem textOf_append (ps qs : List (Piece ν)) :
    textOf spell (ps ++ qs) = textOf spell ps ++ textOf spell qs := List.flatMap_append

theorem lines_append (ps qs : List (Piece ν)) : lines (ps ++ qs) = lines ps + lines qs := by
  simp [lines]

theorem textOf_singleton (p : Piece ν) : textOf spell [p] = p.text spell := by
  simp [textOf]

theorem lines_singleton (p : Piece ν) : lines [p] = p.feeds := by
  simp [lines]

/-! ## What is ahead -/

/-- In front of a text of the language with `G` behind it, `F` holds. -/
def Precedes (L : Language ν α) (G F : List Char → Prop) : Prop :=
  ∀ n ps a s, L n ps a → G s → F (textOf spell ps ++ s)

/-- The word is ahead, behind a gap. -/
def Led (w s : List Char) : Prop := ∃ g t, Gap g ∧ s = g ++ (w ++ t)

/-- Two words differ where both have a character. -/
def clash : List Char → List Char → Bool
  | c :: s, d :: t => c ≠ d || clash s t
  | _, _ => false

variable {spell} {L : Language ν α} {F G H : List Char → Prop}

theorem not_isPrefixOf_of_clash {w v : List Char} (h : clash w v = true) (s : List Char) :
    w.isPrefixOf (v ++ s) = false := by
  induction w generalizing v with
  | nil => exact absurd h (by simp [clash])
  | cons c w ih =>
    cases v with
    | nil => exact absurd h (by simp [clash])
    | cons d v =>
      rw [List.cons_append, List.isPrefixOf]
      simp only [clash, Bool.or_eq_true, decide_eq_true_eq] at h
      rcases h with h | h
      · rw [beq_false_of_ne h, Bool.false_and]
      · rw [ih h, Bool.and_false]

theorem solid_append {w : List Char} (h : solid w = true) (s : List Char) :
    solid (w ++ s) = true := by
  cases w with
  | nil => exact absurd h (by decide)
  | cons c w => exact h

theorem Precedes.mono (h : Precedes spell L G F) {F' : List Char → Prop} (hF : ∀ s, F s → F' s) :
    Precedes spell L G F' := fun n ps a s hL hs => hF _ (h n ps a s hL hs)

theorem precedes_true : Precedes spell L G fun _ => True := fun _ _ _ _ _ _ => trivial

theorem precedes_pure (a : α) (h : ∀ s, G s → F s) :
    Precedes spell (pure a : Language ν α) G F := by
  rintro n ps b s ⟨rfl, -⟩ hs
  exact h s hs

theorem precedes_bind {M : α → Language ν β} (hL : Precedes spell L H F)
    (hM : ∀ a, Precedes spell (M a) G H) : Precedes spell (L >>= M) G F := by
  rintro n ps b s ⟨qs, rs, a, rfl, ha, hb⟩ hs
  rw [textOf_append, List.append_assoc]
  exact hL n qs a _ ha (hM a _ rs b s hb hs)

theorem precedes_gap (h : ∀ g s, Gap g → G s → F (g ++ s)) :
    Precedes spell (Language.gap : Language ν Unit) G F := by
  rintro n ps a s ⟨g, hg, rfl⟩ hs
  rw [textOf_singleton]
  exact h g s hg hs

theorem precedes_bare {w : List Char} (h : ∀ s, F (w ++ s)) :
    Precedes spell (Language.bare w : Language ν Unit) G F := by
  rintro n ps a s rfl _
  rw [textOf_singleton]
  exact h s

theorem precedes_word (w : List Char) :
    Precedes spell (Language.word w : Language ν Unit) G (Led w) := by
  rintro n ps a s ⟨qs, rs, b, rfl, ⟨g, hg, rfl⟩, rfl⟩ _
  rw [textOf_append, textOf_singleton, textOf_singleton, List.append_assoc]
  exact ⟨g, s, hg, rfl⟩

theorem precedes_word_bind (w : List Char) (M : Language ν β) :
    Precedes spell (Language.word w >>= fun _ => M) G (Led w) :=
  precedes_bind (precedes_word w) fun _ => precedes_true

theorem precedes_or {M : Language ν α} (hL : Precedes spell L G F) (hM : Precedes spell M G F) :
    Precedes spell (L.or M) G F := by
  rintro n ps a s (ha | ha) hs
  · exact hL n ps a s ha hs
  · exact hM n ps a s ha hs

/-- In front of repetitions is either what is behind them or one of them. -/
theorem precedes_star (hL : Precedes spell L (fun _ => True) F) (h : ∀ s, G s → F s) :
    Precedes spell (Language.Star L) G F := by
  intro n ps as s has hs
  cases has with
  | nil => exact h s hs
  | @cons _ ps qs a as ha has =>
    rw [textOf_append, List.append_assoc]
    exact hL n ps a _ ha trivial

end

/-! ## What does not match -/

/-- The parser does not match in front of the text. -/
def Fails (p : Parser α) (s : List Char) : Prop := ∀ n, p ⟨n, s⟩ = .fail

section
variable {p q : Parser α} {s : List Char}

theorem fails_bind {k : α → Parser β} (h : Fails p s) : Fails (p >>= k) s := by
  intro n
  rw [Parser.bind_apply, h n, Parser.andThen_fail]

theorem fails_orElse (hp : Fails p s) (hq : Fails q s) : Fails (p <|> q) s := by
  intro n
  show Parser.orElse p q ⟨n, s⟩ = .fail
  rw [Parser.orElse, hp n]
  exact hq n

theorem orElse_of_fails (h : Fails p s) (n : Nat) : (p <|> q) ⟨n, s⟩ = q ⟨n, s⟩ := by
  show Parser.orElse p q ⟨n, s⟩ = _
  rw [Parser.orElse, h n]

theorem orElse_of_ok {here after : Position} {a : α} (h : p here = .ok a after) :
    (p <|> q) here = .ok a after := by
  show Parser.orElse p q here = _
  rw [Parser.orElse, h]

theorem skipped_bind {g : List Char} (hg : Gap g) (hs : solid s = true) (k : Parser β) (n : Nat) :
    (Parser.skipped >>= fun _ => k) ⟨n, g ++ s⟩ = k ⟨n + feeds g, s⟩ := by
  show k (Position.advance ⟨n, g ++ s⟩ (skip (g ++ s))) = _
  rw [skip_gap hg hs, Position.advance_append]

/-- A word that is ahead, and what is done behind it. -/
theorem lit_bind {w g : List Char} (hw : solid w = true) (hg : Gap g) (k : Parser β) (n : Nat) :
    (Parser.lit w >>= fun _ => k) ⟨n, g ++ (w ++ s)⟩ = k ⟨n + feeds g + feeds w, s⟩ := by
  have hword : Parser.lit w ⟨n, g ++ (w ++ s)⟩ = .ok () ⟨n + feeds g + feeds w, s⟩ := by
    rw [Parser.lit, skipped_bind hg (solid_append hw s), Parser.bare,
      if_pos (List.isPrefixOf_iff_prefix.mpr (List.prefix_append w s)), List.drop_left,
      Position.advance_append]
  rw [Parser.bind_apply, hword, Parser.andThen_ok]

theorem fails_skipped {g : List Char} {k : Parser β} (hg : Gap g) (hs : solid s = true)
    (h : Fails k s) : Fails (Parser.skipped >>= fun _ => k) (g ++ s) := by
  intro n
  rw [skipped_bind hg hs]
  exact h _

/-- A word does not match where another one is ahead. -/
theorem fails_lit {w v : List Char} (hv : solid v = true) (h : clash w v = true) (hs : Led v s) :
    Fails (Parser.lit w) s := by
  obtain ⟨g, t, hg, rfl⟩ := hs
  refine fails_skipped hg (solid_append hv t) fun n => ?_
  rw [Parser.bare, not_isPrefixOf_of_clash h]
  rfl

end

/-! ## What is read -/

/-- The parser reads the texts of the language, where `F` holds behind them and less than `m`
characters are ahead. The names are spelled, and the value is the image under `f`. -/
def Reads (spell : ν → List Char) (m : Nat) (p : Parser β) (L : Language ν α)
    (F : List Char → Prop) (f : α → β) : Prop :=
  ∀ n ps a s, L n ps a → F s → (textOf spell ps ++ s).length < m →
    p ⟨n, textOf spell ps ++ s⟩ = .ok (f a) ⟨n + lines ps, s⟩

section
variable {spell : ν → List Char} {m : Nat} {p : Parser β} {L : Language ν α}
  {F G : List Char → Prop} {f : α → β}

theorem Reads.weaken (h : Reads spell m p L F f) (hF : ∀ s, G s → F s) :
    Reads spell m p L G f := fun n ps a s hL hs hm => h n ps a s hL (hF s hs) hm

theorem reads_pure {a : α} {b : β} (h : f a = b) :
    Reads spell m (pure b) (pure a : Language ν α) F f := by
  rintro n ps a' s ⟨rfl, rfl⟩ _ _
  rw [h]
  rfl

/-- What is done behind a text that is read. -/
theorem Reads.followed (hp : ∀ m, Reads spell m p L F f) (k : β → Parser δ) {n : Nat}
    {ps : List (Piece ν)} {a : α} {s : List Char} (ha : L n ps a) (hs : F s) :
    (p >>= k) ⟨n, textOf spell ps ++ s⟩ = k (f a) ⟨n + lines ps, s⟩ := by
  rw [Parser.bind_apply, hp _ n ps a s ha hs (Nat.lt_succ_self _), Parser.andThen_ok]

/-- One after the other, where the first one may end. -/
theorem Reads.bind {k : β → Parser δ} {M : α → Language ν γ} {g : γ → δ}
    (hp : Reads spell m p L F f) (hF : ∀ a, Precedes spell (M a) G F)
    (hk : ∀ a, Reads spell m (k (f a)) (M a) G g) : Reads spell m (p >>= k) (L >>= M) G g := by
  rintro n ps b s ⟨qs, rs, a, rfl, ha, hb⟩ hs hm
  rw [textOf_append, List.append_assoc] at hm ⊢
  show Parser.andThen (p ⟨n, textOf spell qs ++ (textOf spell rs ++ s)⟩) k = _
  rw [hp n qs a _ ha (hF a _ rs b s hb hs) hm]
  show k (f a) _ = _
  rw [hk a _ rs b s hb hs (by rw [List.length_append] at hm; omega), lines_append, Nat.add_assoc]

/-- Where the first of three ends does not matter. -/
theorem Reads.assoc {M : α → Language ν γ} {N : γ → Language ν δ} {g : δ → β}
    (h : Reads spell m p ((L >>= M) >>= N) F g) :
    Reads spell m p (L >>= fun a => M a >>= N) F g := by
  rintro n ps b s ⟨qs, _, a, rfl, ha, rs, us, c, rfl, hc, hb⟩ hs hm
  rw [Nat.add_assoc, ← lines_append] at hb
  rw [← List.append_assoc] at hm ⊢
  exact h n (qs ++ rs ++ us) b s ⟨qs ++ rs, us, c, rfl, ⟨qs, rs, a, rfl, ha, hc⟩, hb⟩ hs hm

theorem Reads.expect (h : Reads spell m p L F f) : Reads spell m (Parser.expect p) L F f := by
  intro n ps a s hL hs hm
  rw [Parser.expect, h n ps a s hL hs hm]

theorem Reads.left {q : Parser β} (h : Reads spell m p L F f) :
    Reads spell m (p <|> q) L F f := by
  intro n ps a s hL hs hm
  show Parser.orElse p q _ = _
  rw [Parser.orElse, h n ps a s hL hs hm]

/-- An alternative is reached past one in front of it that does not match. -/
theorem Reads.right {q : Parser β} (h : Reads spell m p L F f)
    (hq : Precedes spell L F (Fails q)) : Reads spell m (q <|> p) L F f := by
  intro n ps a s hL hs hm
  show Parser.orElse q p _ = _
  rw [Parser.orElse, hq n ps a s hL hs n]
  exact h n ps a s hL hs hm

theorem Reads.or {M : Language ν α} (hL : Reads spell m p L F f) (hM : Reads spell m p M F f) :
    Reads spell m p (L.or M) F f := by
  rintro n ps a s (ha | ha) hs hm
  · exact hL n ps a s ha hs hm
  · exact hM n ps a s ha hs hm

/-- Alternatives on both sides. -/
theorem Reads.alt {q : Parser β} {M : Language ν α} (hp : Reads spell m p L F f)
    (hq : Reads spell m q M F f) (h : Precedes spell M F (Fails p)) :
    Reads spell m (p <|> q) (L.or M) F f := hp.left.or (hq.right h)

/-- Every text of the language has a character. -/
def Proper (spell : ν → List Char) (L : Language ν α) : Prop :=
  ∀ n ps a, L n ps a → 0 < (textOf spell ps).length

theorem Precedes.proper {B : List Char → Prop} (h : Precedes spell L (fun _ => True) B)
    (hB : ¬ B []) : Proper spell L := by
  intro n ps a hL
  by_contra hlen
  have ht : textOf spell ps = [] := List.length_eq_zero_iff.mp (by omega)
  have hb := h n ps a [] hL trivial
  rw [ht, List.append_nil] at hb
  exact hB hb

/-- As many as there are, up to where the parser does not match. -/
theorem reads_star (hp : Reads spell m p L F f) (hne : Proper spell L)
    (hF : Precedes spell L (fun _ => True) F) :
    Reads spell m (Parser.star p) (Language.Star L) (fun s => F s ∧ Fails p s)
      (List.map f) := by
  have key : ∀ (n : Nat) (ps : List (Piece ν)) (as : List α), Language.Star L n ps as →
      ∀ (s : List Char) (k : Nat), (F s ∧ Fails p s) →
      (textOf spell ps ++ s).length < m → (textOf spell ps ++ s).length < k →
      Parser.starFrom p k ⟨n, textOf spell ps ++ s⟩ = .ok (as.map f) ⟨n + lines ps, s⟩ := by
    intro n ps as has
    induction has with
    | nil =>
      intro s k hs _ hk
      obtain ⟨k, rfl⟩ := Nat.exists_eq_succ_of_ne_zero (by omega : k ≠ 0)
      show Parser.starFrom p (k + 1) ⟨_, s⟩ = _
      rw [Parser.starFrom, hs.2]
      rfl
    | @cons n ps qs a as ha has ih =>
      intro s k hs hm hk
      obtain ⟨k, rfl⟩ := Nat.exists_eq_succ_of_ne_zero (by omega : k ≠ 0)
      rw [textOf_append, List.append_assoc] at hm hk ⊢
      have hlen := hne n ps a ha
      have hfollow : F (textOf spell qs ++ s) :=
        precedes_star hF (fun s hs => hs) (n + lines ps) qs as s has hs.1
      rw [Parser.starFrom, hp n ps a _ ha hfollow hm]
      simp only
      rw [ih s k hs (by rw [List.length_append] at hm; omega)
        (by rw [List.length_append] at hk; omega)]
      show Outcome.ok _ _ = _
      rw [lines_append, Nat.add_assoc]
      rfl
  intro n ps as s has hs hm
  exact key n ps as has s _ hs hm (Nat.lt_succ_self _)

theorem reads_opt (hp : Reads spell m p L F f) :
    Reads spell m (Parser.opt p) (Language.opt L) (fun s => F s ∧ Fails p s)
      (Option.map f) := by
  rintro n ps a s (⟨rfl, rfl⟩ | ⟨b, rfl, hb⟩) hs hm
  · show Parser.opt p ⟨n, s⟩ = _
    rw [Parser.opt, hs.2]
    rfl
  · rw [Parser.opt, hp n ps b s hb hs.1 hm]
    rfl

end

/-! ## Tokens -/

section
variable {spell : ν → List Char} {m : Nat}

theorem reads_gap :
    Reads spell m Parser.skipped (Language.gap : Language ν Unit) (fun s => solid s = true)
      id := by
  rintro n ps a s ⟨g, hg, rfl⟩ hs _
  rw [textOf_singleton, lines_singleton]
  show Outcome.ok _ (Position.advance ⟨n, g ++ s⟩ (skip (g ++ s))) = _
  rw [skip_gap hg hs, Position.advance_append]
  rfl

theorem reads_bare (w : List Char) :
    Reads spell m (Parser.bare w) (Language.bare w : Language ν Unit) (fun _ => True) id := by
  rintro n ps a s rfl _ _
  rw [textOf_singleton, lines_singleton]
  show Parser.bare w ⟨n, w ++ s⟩ = _
  rw [Parser.bare, if_pos (by simp), List.drop_left, Position.advance_append]
  rfl

theorem reads_lit {w : List Char} (hw : solid w = true) :
    Reads spell m (Parser.lit w) (Language.word w : Language ν Unit) (fun _ => True) id :=
  reads_gap.bind (fun _ => precedes_bare (solid_append hw)) fun _ => reads_bare w

theorem Reads.lit {w : List Char} {k : Parser β} {M : Language ν α} {G : List Char → Prop}
    {g : α → β} (hw : solid w = true) (hk : Reads spell m k M G g) :
    Reads spell m (Parser.lit w >>= fun _ => k) (Language.word w >>= fun _ => M) G g :=
  (reads_lit hw).bind (fun _ => precedes_true) fun _ => hk

/-- Behind a word that is read, there is less ahead. -/
theorem Reads.litLess {w : List Char} {k : Parser β} {M : Language ν α} {G : List Char → Prop}
    {g : α → β} (hw : solid w = true) (hk : Reads spell m k M G g) :
    Reads spell (m + 1) (Parser.lit w >>= fun _ => k) (Language.word w >>= fun _ => M) G g := by
  rintro n ps b s ⟨qs, rs, a, rfl, ha, hb⟩ hs hm
  have hlonger : 0 < (textOf spell qs).length := by
    obtain ⟨_, _, _, rfl, ⟨g', hg', rfl⟩, rfl⟩ := ha
    have hpos : 0 < w.length := List.length_pos_of_ne_nil (by
      rintro rfl
      exact absurd hw (by decide))
    rw [textOf_append, textOf_singleton spell (.word w), List.length_append]
    exact Nat.lt_of_lt_of_le hpos (Nat.le_add_left _ _)
  rw [textOf_append, List.append_assoc] at hm ⊢
  rw [Parser.bind_apply, reads_lit hw n qs a _ ha trivial hm, Parser.andThen_ok,
    hk _ rs b s hb hs (by rw [List.length_append] at hm; omega), lines_append, Nat.add_assoc]

theorem Reads.expectLit {w : List Char} {k : Parser β} {M : Language ν α} {G : List Char → Prop}
    {g : α → β} (hw : solid w = true) (hk : Reads spell m k M G g) :
    Reads spell m (Parser.expect (Parser.lit w) >>= fun _ => k)
      (Language.word w >>= fun _ => M) G g :=
  (reads_lit hw).expect.bind (fun _ => precedes_true) fun _ => hk

/-- There may be nothing to skip. -/
theorem Reads.unskipped {p : Parser β} {L : Language ν α} {F : List Char → Prop} {f : α → β}
    (h : Reads spell m p (do Language.gap; L) F f) : Reads spell m p L F f := by
  intro n ps a s hL hs hm
  have h := h n (.gap [] .nil :: ps) a s ⟨[.gap [] .nil], ps, (), rfl, ⟨[], .nil, rfl⟩, hL⟩ hs hm
  have hlines : lines (.gap [] .nil :: ps) = lines ps := Nat.zero_add _
  rwa [hlines] at h

theorem reads_linePos :
    Reads spell m Parser.linePos (Language.linePos : Language ν Nat) (fun s => solid s = true)
      id := by
  rintro n ps a s ⟨g, hg, rfl, rfl⟩ hs _
  rw [textOf_singleton, lines_singleton]
  show Outcome.ok (Position.advance ⟨n, g ++ s⟩ (skip (g ++ s))).line
    (Position.advance ⟨n, g ++ s⟩ (skip (g ++ s))) = _
  rw [skip_gap hg hs, Position.advance_append]
  rfl

end

theorem Parser.oneOf_cons {p : Char → Bool} {c : Char} (h : gapChars.all (!p ·) = true)
    (hc : p c = true) (n : Nat) (s : List Char) :
    Parser.oneOf p ⟨n, c :: s⟩ = .ok c ⟨n, s⟩ := by
  have hadvance := Position.advance_append n [c] s
  rw [feeds_cons (notMem_gapChars h hc), feeds, List.count_nil, Nat.add_zero] at hadvance
  show (if p c = true then Outcome.ok c (Position.advance ⟨n, [c] ++ s⟩ s) else .fail) = _
  rw [if_pos hc, hadvance]

/-- A run of characters, up to one that is not of them. -/
theorem Parser.run_append {test : Char → Bool} {w s : List Char} (hw : w.all test = true)
    (hs : (s.head?.all fun c => !test c) = true) (n : Nat) :
    Parser.run test ⟨n, w ++ s⟩ = .ok w ⟨n + feeds w, s⟩ := by
  have hs' : s.takeWhile test = [] ∧ s.dropWhile test = s := by
    cases s with
    | nil => exact ⟨rfl, rfl⟩
    | cons c s =>
      have hc : test c = false := by simpa using hs
      exact ⟨by simp [hc], by simp [hc]⟩
  have hall := List.all_eq_true.mp hw
  show Outcome.ok _ _ = _
  rw [List.takeWhile_append_of_pos hall, List.dropWhile_append_of_pos hall, hs'.1, hs'.2,
    List.append_nil, Position.advance_append]

end Hexabus.Lib.Expectation
