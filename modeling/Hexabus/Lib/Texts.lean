import Hexabus.Lib.Choices

/-!
# Texts of a language

Which texts a language has, put together in the order in which they are written, what is read of
them, and where the parse of a text ends with an error instead.
-/

namespace Hexabus.Lib.Expectation

/-- One gap behind another. -/
theorem Gap.append {g h : List Char} (hg : Gap g) (hh : Gap h) : Gap (g ++ h) := by
  induction hg with
  | nil => exact hh
  | blank hc _ ih => exact .blank hc ih
  | @comment body c g hb hc _ ih =>
    rw [List.cons_append, List.append_assoc, List.cons_append]
    exact .comment hb hc ih

variable {ν α β γ δ : Type}

/-! ## Texts -/

/-- The text is one of the language, from any line on, for a value with the property. -/
def Spells (spell : ν → List Char) (L : Language ν α) (t : List Char) (P : α → Prop) : Prop :=
  ∀ n, ∃ ps a, L n ps a ∧ textOf spell ps = t ∧ P a

section
variable {spell : ν → List Char} {L M : Language ν α} {t u g : List Char} {P : α → Prop}

theorem Spells.mono (h : Spells spell L t P) {Q : α → Prop} (hQ : ∀ a, P a → Q a) :
    Spells spell L t Q := by
  intro n
  obtain ⟨ps, a, ha, ht, hP⟩ := h n
  exact ⟨ps, a, ha, ht, hQ a hP⟩

theorem spells_pure {a : α} (h : P a) : Spells spell (pure a : Language ν α) [] P :=
  fun _ => ⟨[], a, ⟨rfl, rfl⟩, rfl, h⟩

/-- One behind the other. -/
theorem Spells.bind {N : α → Language ν β} {Q : β → Prop} (hL : Spells spell L t P)
    (hN : ∀ a, P a → Spells spell (N a) u Q) : Spells spell (L >>= N) (t ++ u) Q := by
  intro n
  obtain ⟨ps, a, ha, ht, hP⟩ := hL n
  obtain ⟨qs, b, hb, hu, hQ⟩ := hN a hP (n + lines ps)
  exact ⟨ps ++ qs, b, ⟨ps, qs, a, rfl, ha, hb⟩, by rw [textOf_append, ht, hu], hQ⟩

/-- What is made of what is read. -/
theorem Spells.map {f : α → β} {Q : β → Prop} (h : Spells spell L t P)
    (hQ : ∀ a, P a → Q (f a)) : Spells spell (L >>= fun a => pure (f a)) t Q := by
  have hpure (a : α) (ha : P a) : Spells spell (pure (f a)) [] Q := spells_pure (hQ a ha)
  have hbind := h.bind hpure
  rwa [List.append_nil] at hbind

theorem Spells.left (h : Spells spell L t P) : Spells spell (L.or M) t P := by
  intro n
  obtain ⟨ps, a, ha, hrest⟩ := h n
  exact ⟨ps, a, .inl ha, hrest⟩

theorem Spells.right (h : Spells spell M t P) : Spells spell (L.or M) t P := by
  intro n
  obtain ⟨ps, a, ha, hrest⟩ := h n
  exact ⟨ps, a, .inr ha, hrest⟩

theorem spells_gap (hg : Gap g) :
    Spells spell (Language.gap : Language ν Unit) g fun _ => True :=
  fun _ => ⟨[.gap g hg], (), ⟨g, hg, rfl⟩, textOf_singleton spell _, trivial⟩

theorem spells_bare (w : List Char) :
    Spells spell (Language.bare w : Language ν Unit) w fun _ => True :=
  fun _ => ⟨[.word w], (), rfl, textOf_singleton spell _, trivial⟩

theorem spells_linePos (hg : Gap g) :
    Spells spell (Language.linePos : Language ν Nat) g fun _ => True :=
  fun _ => ⟨[.gap g hg], _, ⟨g, hg, rfl, rfl⟩, textOf_singleton spell _, trivial⟩

theorem spells_word (w : List Char) (hg : Gap g) :
    Spells spell (Language.word w : Language ν Unit) (g ++ w) fun _ => True :=
  (spells_gap hg).bind fun _ _ => spells_bare w

/-- A word, and what is behind it. -/
theorem Spells.word {N : Language ν β} {Q : β → Prop} (w : List Char) (hg : Gap g)
    (hN : Spells spell N u Q) :
    Spells spell (Language.word w >>= fun _ => N) (g ++ w ++ u) Q :=
  (spells_word w hg).bind fun _ _ => hN

theorem spells_none {P : Option α → Prop} (h : P none) : Spells spell (Language.opt L) [] P :=
  fun _ => ⟨[], none, .inl ⟨rfl, rfl⟩, rfl, h⟩

theorem Spells.some {Q : Option α → Prop} (h : Spells spell L t P) (hQ : ∀ a, P a → Q (some a)) :
    Spells spell (Language.opt L) t Q := by
  intro n
  obtain ⟨ps, a, ha, ht, hP⟩ := h n
  exact ⟨ps, _, .inr ⟨a, rfl, ha⟩, ht, hQ a hP⟩

theorem spells_star_nil {P : List α → Prop} (h : P []) : Spells spell (Language.Star L) [] P :=
  fun _ => ⟨[], [], .nil, rfl, h⟩

theorem Spells.star_cons {Q R : List α → Prop} (h : Spells spell L t P)
    (hs : Spells spell (Language.Star L) u Q) (hR : ∀ a as, P a → Q as → R (a :: as)) :
    Spells spell (Language.Star L) (t ++ u) R := by
  intro n
  obtain ⟨ps, a, ha, ht, hP⟩ := h n
  obtain ⟨qs, as, has, hu, hQ⟩ := hs (n + lines ps)
  exact ⟨ps ++ qs, a :: as, .cons ha has, by rw [textOf_append, ht, hu], hR a as hP hQ⟩

/-- **Items that are written one behind the other**, each of them with something to skip at its
end: of the last one it is left. -/
theorem spells_items {ι : Type} {write : ι → List Char} {R : ι → α → Prop} {xs : List ι}
    (hwrite : ∀ x ∈ xs, ∃ body tail, write x = body ++ tail ∧ Gap tail ∧
      ∀ g, Gap g → Spells spell L (g ++ body) (R x)) (hg : Gap g) :
    ∃ t g', g ++ xs.flatMap write = t ++ g' ∧ Gap g' ∧
      Spells spell (Language.Star L) t (List.Forall₂ R xs) := by
  induction xs generalizing g with
  | nil => exact ⟨[], g, List.append_nil g, hg, spells_star_nil .nil⟩
  | cons x xs ih =>
    obtain ⟨body, tail, hx, htail, hbody⟩ := hwrite x List.mem_cons_self
    obtain ⟨t, g', ht, hg', hspells⟩ := ih (fun y hy => hwrite y (List.mem_cons_of_mem x hy)) htail
    refine ⟨g ++ body ++ t, g', ?_, hg', (hbody g hg).star_cons hspells fun _ _ => .cons⟩
    rw [List.flatMap_cons, hx, List.append_assoc g body t, List.append_assoc g (body ++ t) g',
      List.append_assoc body t g', ← ht, List.append_assoc body tail]

end

/-! ## Characters as tokens -/

/-- A character of a set. -/
def Parser.token (test : Char → Bool) : Parser Char := do
  skipped
  oneOf test

/-- A character of a set, with nothing in front of it. -/
def Language.oneOf (test : Char → Bool) : Language ν Char := fun _ ps c =>
  test c = true ∧ ps = [.word [c]]

def Language.token (test : Char → Bool) : Language ν Char := do
  gap
  oneOf test

section
variable {spell : ν → List Char} {m : Nat} {test : Char → Bool} {G : List Char → Prop}

/-- No character of the set is ahead, behind a gap. -/
def Without (test : Char → Bool) (s : List Char) : Prop :=
  ∃ g t, Gap g ∧ s = g ++ t ∧ solid t = true ∧ (t.head?.all fun c => !test c) = true

theorem without_of_led {c : Char} {w s : List Char} (hsolid : solid [c] = true)
    (hc : test c = false) (h : Led (c :: w) s) : Without test s := by
  obtain ⟨g, t, hg, rfl⟩ := h
  refine ⟨g, c :: (w ++ t), hg, rfl, hsolid, ?_⟩
  show (!test c) = true
  rw [hc]
  rfl

theorem fails_token {s : List Char} (h : Without test s) : Fails (Parser.token test) s := by
  obtain ⟨g, t, hg, rfl, hsolid, ht⟩ := h
  refine fails_skipped hg hsolid fun n => ?_
  cases t with
  | nil => rfl
  | cons c t =>
    have hc : test c = false := by simpa using ht
    show (if test c = true then _ else _) = _
    rw [if_neg (by rw [hc]; decide)]

theorem precedes_oneOf (h : gapChars.all (!test ·) = true) :
    Precedes spell (Language.oneOf test : Language ν Char) G fun s => solid s = true := by
  intro n ps c s hps _
  obtain ⟨hc, rfl⟩ := hps
  rw [textOf_singleton]
  exact solid_cons (notMem_gapChars h hc) s

theorem reads_oneOf (h : gapChars.all (!test ·) = true) :
    Reads spell m (Parser.oneOf test) (Language.oneOf test : Language ν Char) (fun _ => True)
      id := by
  intro n ps c s hps _ _
  obtain ⟨hc, rfl⟩ := hps
  have hfeeds : feeds [c] = 0 := feeds_cons (notMem_gapChars h hc) []
  rw [textOf_singleton, lines_singleton]
  show Parser.oneOf test ⟨n, c :: s⟩ = .ok c ⟨n + feeds [c], s⟩
  rw [Parser.oneOf_cons h hc, hfeeds]
  rfl

theorem reads_token (h : gapChars.all (!test ·) = true) :
    Reads spell m (Parser.token test) (Language.token test : Language ν Char) (fun _ => True)
      id :=
  reads_gap.bind (fun _ => precedes_oneOf h) fun _ => reads_oneOf h

theorem proper_token : Proper spell (Language.token test : Language ν Char) := by
  intro n ps c h
  obtain ⟨_, _, _, rfl, ⟨g, hg, rfl⟩, -, rfl⟩ := h
  rw [textOf_append, textOf_singleton, textOf_singleton, List.length_append]
  exact Nat.lt_add_left _ (Nat.zero_lt_one)

/-- As many characters of the set as there are. -/
theorem reads_tokens (h : gapChars.all (!test ·) = true) :
    Reads spell m (Parser.star (Parser.token test)) (Language.Star (Language.token test))
      (Without test) (List.map id) :=
  (reads_star (reads_token h) proper_token precedes_true).weaken fun _ hs =>
    ⟨trivial, fails_token hs⟩

theorem spells_oneOf {c : Char} (hc : test c = true) :
    Spells spell (Language.oneOf test : Language ν Char) [c] (· = c) :=
  fun _ => ⟨[.word [c]], c, ⟨hc, rfl⟩, textOf_singleton spell _, rfl⟩

theorem spells_token {c : Char} {g : List Char} (hg : Gap g) (hc : test c = true) :
    Spells spell (Language.token test : Language ν Char) (g ++ [c]) (· = c) :=
  (spells_gap hg).bind fun _ _ => spells_oneOf hc

theorem spells_tokens {cs : List Char} (hcs : cs.all test = true) :
    Spells spell (Language.Star (Language.token test : Language ν Char)) cs (· = cs) := by
  induction cs with
  | nil => exact spells_star_nil rfl
  | cons c cs ih =>
    rw [List.all_cons, Bool.and_eq_true] at hcs
    refine (spells_token .nil hcs.1).star_cons (ih hcs.2) fun a as ha has => ?_
    rw [ha, has]

end

/-- What is skipped at the end of the text. -/
theorem reads_eoi {spell : ν → List Char} {m : Nat} :
    Reads spell m Parser.eoi (Language.gap : Language ν Unit) (· = []) id := by
  intro n ps u s hps hs _
  obtain ⟨g, hg, rfl⟩ := hps
  rw [hs, textOf_singleton, lines_singleton]
  show Parser.eoi ⟨n, g ++ []⟩ = _
  rw [Parser.eoi, Position.advance_append, List.append_nil, if_pos (skip_gap_end hg)]
  rfl

/-! ## What ends the parse -/

/-- In front of the text, an expectation of the parser is not met. -/
def Errors (p : Parser α) (s : List Char) : Prop := ∀ n, p ⟨n, s⟩ = .error

section
variable {p q : Parser α} {s : List Char}

theorem errors_bind {k : α → Parser β} (h : Errors p s) : Errors (p >>= k) s := by
  intro n
  rw [Parser.bind_apply, h n, Parser.andThen_error]

theorem errors_expect (h : Fails p s) : Errors (Parser.expect p) s := by
  intro n
  rw [Parser.expect, h n]

theorem Errors.left (h : Errors p s) : Errors (p <|> q) s := by
  intro n
  show Parser.orElse p q ⟨n, s⟩ = .error
  rw [Parser.orElse, h n]

theorem errors_star (h : Errors p s) : Errors (Parser.star p) s := by
  intro n
  show Parser.starFrom p (s.length + 1) ⟨n, s⟩ = .error
  rw [Parser.starFrom, h n]

/-- An alternative is reached past one in front of it that does not match. -/
theorem Errors.right (h : Errors q s) (hp : Fails p s) : Errors (p <|> q) s := by
  intro n
  show Parser.orElse p q ⟨n, s⟩ = .error
  rw [Parser.orElse, hp n]
  exact h n

end

section
variable {spell : ν → List Char} {p : Parser β} {L : Language ν α} {F : List Char → Prop}
  {f : α → β} {P : α → Prop} {t s : List Char}

/-- What is read of a text of the language. -/
theorem Reads.of_spells (hp : Reads spell ((t ++ s).length + 1) p L F f)
    (ht : Spells spell L t P) (hs : F s) (n : Nat) :
    ∃ a n', P a ∧ p ⟨n, t ++ s⟩ = .ok (f a) ⟨n', s⟩ := by
  obtain ⟨ps, a, ha, rfl, hP⟩ := ht n
  exact ⟨a, _, hP, hp n ps a s ha hs (Nat.lt_succ_self _)⟩

/-- An error behind what is read. -/
theorem Reads.errors {k : β → Parser δ} (hp : Reads spell ((t ++ s).length + 1) p L F f)
    (ht : Spells spell L t P) (hs : F s) (hk : ∀ b, Errors (k b) s) :
    Errors (p >>= k) (t ++ s) := by
  intro n
  obtain ⟨a, n', -, hread⟩ := hp.of_spells ht hs n
  rw [Parser.bind_apply, hread]
  exact hk (f a) n'

/-- Some that are read, and then an error. -/
theorem Reads.star_errors (hp : Reads spell ((t ++ s).length + 1) p L F f)
    (hne : Proper spell L) (hF : Precedes spell L (fun _ => True) F)
    (ht : Spells spell (Language.Star L) t (fun _ => True)) (hs : F s) (herror : Errors p s) :
    Errors (Parser.star p) (t ++ s) := by
  have key : ∀ (n : Nat) (ps : List (Piece ν)) (as : List α), Language.Star L n ps as →
      ∀ k, (textOf spell ps ++ s).length < (t ++ s).length + 1 →
        (textOf spell ps ++ s).length < k →
      Parser.starFrom p k ⟨n, textOf spell ps ++ s⟩ = .error := by
    intro n ps as has
    induction has with
    | nil =>
      intro k _ hk
      obtain ⟨k, rfl⟩ := Nat.exists_eq_succ_of_ne_zero (by omega : k ≠ 0)
      show Parser.starFrom p (k + 1) ⟨_, s⟩ = _
      rw [Parser.starFrom, herror]
    | @cons n ps qs a as ha has ih =>
      intro k hm hk
      obtain ⟨k, rfl⟩ := Nat.exists_eq_succ_of_ne_zero (by omega : k ≠ 0)
      rw [textOf_append, List.append_assoc] at hm hk ⊢
      have hlen := hne n ps a ha
      have hfollow : F (textOf spell qs ++ s) :=
        precedes_star hF (fun s hs => hs) (n + lines ps) qs as s has hs
      rw [Parser.starFrom, hp n ps a _ ha hfollow hm]
      simp only
      rw [ih k (by rw [List.length_append] at hm; omega) (by rw [List.length_append] at hk; omega)]
      rfl
  intro n
  obtain ⟨ps, as, has, rfl, -⟩ := ht n
  exact key n ps as has _ (Nat.lt_succ_self _) (Nat.lt_succ_self _)

theorem errors_lit {w g : List Char} {k : Parser β} (hw : solid w = true) (hg : Gap g)
    (hk : Errors k s) : Errors (Parser.lit w >>= fun _ => k) (g ++ w ++ s) :=
  (@reads_lit Empty (fun x => x.elim) _ _ hw).errors (spells_word w hg) trivial fun _ => hk

/-! ## What is not accepted -/

/-- In front of the text, the parser does not match, or ends the whole parse. -/
def Refuses (p : Parser α) (s : List Char) : Prop := ∀ n a q, p ⟨n, s⟩ ≠ .ok a q

theorem refuses_of_fails {p : Parser α} (h : Fails p s) : Refuses p s := by
  intro n a q hok
  rw [h n] at hok
  cases hok

theorem refuses_of_errors {p : Parser α} (h : Errors p s) : Refuses p s := by
  intro n a q hok
  rw [h n] at hok
  cases hok

theorem refuses_bind {p : Parser α} {k : α → Parser δ} (h : Refuses p s) : Refuses (p >>= k) s := by
  intro n a q hok
  rw [Parser.bind_apply] at hok
  cases hp : p ⟨n, s⟩ with
  | ok b r => exact h n b r hp
  | fail =>
    rw [hp] at hok
    cases hok
  | error =>
    rw [hp] at hok
    cases hok

/-- What is behind something that is read is not accepted. -/
theorem Reads.refuses {k : β → Parser δ} (hp : Reads spell ((t ++ s).length + 1) p L F f)
    (ht : Spells spell L t P) (hs : F s) (hk : ∀ b, Refuses (k b) s) :
    Refuses (p >>= k) (t ++ s) := by
  intro n a q hok
  obtain ⟨b, n', -, hread⟩ := hp.of_spells ht hs n
  rw [Parser.bind_apply, hread] at hok
  exact hk (f b) n' a q hok

/-- None is taken of what there may be many of. -/
theorem refuses_star_bind {p : Parser α} {k : List α → Parser δ} (h : Fails p s)
    (hk : Refuses (k []) s) : Refuses (Parser.star p >>= k) s := by
  intro n a q hok
  have hnone : Parser.star p ⟨n, s⟩ = .ok [] ⟨n, s⟩ := by
    show Parser.starFrom p (s.length + 1) ⟨n, s⟩ = _
    rw [Parser.starFrom, h n]
  rw [Parser.bind_apply, hnone] at hok
  exact hk n a q hok

/-- Something is left of the text. -/
theorem errors_eoi {w : List Char} (hw : solid w = true) (h : Led w s) :
    Errors (Parser.expect Parser.eoi) s := by
  obtain ⟨g, u, hg, rfl⟩ := h
  refine errors_expect fun n => ?_
  have hne : skip (g ++ (w ++ u)) ≠ [] := by
    rw [skip_gap hg (solid_append hw u)]
    intro hnil
    rw [(List.append_eq_nil_iff.mp hnil).1] at hw
    exact absurd hw (by decide)
  rw [Parser.eoi, if_neg hne]

end

end Hexabus.Lib.Expectation
