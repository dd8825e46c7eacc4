import Hexabus.Lib.Expectation

/-!
# Choices by keywords

An ordered choice between rules that begin with words of their own reads every alternative, and
fails in front of any other word.
-/

namespace Hexabus.Lib.Expectation

variable {ν α β γ δ : Type} {spell : ν → List Char} {m : Nat}

/-- One of the words is ahead, behind a gap. -/
def LedBy (ws : List (List Char)) (s : List Char) : Prop := ∃ w ∈ ws, Led w s

/-- The word begins in another way than each of the words. -/
def apartFrom (v : List Char) (ws : List (List Char)) : Bool := ws.all fun w => clash w v

/-- A choice: what it reads, the words that its texts begin with, and that no text with another
word in front, or without any, is one of them. -/
structure Choice (spell : ν → List Char) (m : Nat) (p : Parser β) (L : Language ν α)
    (F : List Char → Prop) (f : α → β) (ws : List (List Char)) : Prop where
  reads : Reads spell m p L F f
  led : Precedes spell L (fun _ => True) (LedBy ws)
  fails : ∀ v s, solid v = true → apartFrom v ws = true → Led v s → Fails p s
  failsEnd : ∀ g, Gap g → Fails p g

section
variable {p : Parser β} {L : Language ν α} {F G : List Char → Prop} {f : α → β}
  {ws : List (List Char)}

theorem fails_lit_end {w : List Char} (hw : solid w = true) {g : List Char} (hg : Gap g) :
    Fails (Parser.lit w) g := by
  intro n
  have hne : w.isPrefixOf [] = false := by
    cases w with
    | nil => exact absurd hw (by decide)
    | cons c w => rfl
  show Parser.bare w (Position.advance ⟨n, g⟩ (skip g)) = .fail
  rw [skip_gap_end hg, Parser.bare]
  simp [Position.advance, hne]

/-- A rule behind a word of its own. -/
theorem Choice.single {w : List Char} {k : Parser β} {M : Language ν α} (hw : solid w = true)
    (hk : Reads spell m k M F f) :
    Choice spell m (Parser.lit w >>= fun _ => k) (Language.word w >>= fun _ => M) F f [w] where
  reads := hk.lit hw
  led := (precedes_word_bind w M).mono fun _ h => ⟨w, List.mem_singleton_self w, h⟩
  fails v s hv ha h := by
    rw [apartFrom, List.all_cons, Bool.and_eq_true] at ha
    exact fails_bind (fails_lit hv ha.1 h)
  failsEnd g hg := fails_bind (fails_lit_end hw hg)

/-- The rule behind the word has less ahead. -/
theorem Choice.singleLess {w : List Char} {k : Parser β} {M : Language ν α} (hw : solid w = true)
    (hk : Reads spell m k M F f) :
    Choice spell (m + 1) (Parser.lit w >>= fun _ => k) (Language.word w >>= fun _ => M) F f [w]
    where
  reads := hk.litLess hw
  led := (precedes_word_bind w M).mono fun _ h => ⟨w, List.mem_singleton_self w, h⟩
  fails v s hv ha h := by
    rw [apartFrom, List.all_cons, Bool.and_eq_true] at ha
    exact fails_bind (fails_lit hv ha.1 h)
  failsEnd g hg := fails_bind (fails_lit_end hw hg)

/-- A word by itself. -/
theorem Choice.token {w : List Char} (hw : solid w = true) (a : α) :
    Choice spell m (Parser.lit w >>= fun _ => pure a) (Language.word w >>= fun _ => pure a) F id
      [w] :=
  .single hw (reads_pure rfl)

/-- A rule in front of a choice, none of whose texts it takes. -/
theorem Choice.consOf {q : Parser β} {M : Language ν α} {v : List Char}
    (hp : Choice spell m p L F f [v]) (hq : Choice spell m q M F f ws)
    (hfails : Precedes spell M F (Fails p)) :
    Choice spell m (p <|> q) (L.or M) F f (v :: ws) where
  reads := hp.reads.alt hq.reads hfails
  led := precedes_or
    (hp.led.mono fun _ ⟨w, hw, h⟩ => ⟨w, List.mem_append_left ws hw, h⟩)
    (hq.led.mono fun _ ⟨w, hw, h⟩ => ⟨w, List.mem_cons_of_mem v hw, h⟩)
  fails u s hu ha h := by
    rw [apartFrom, List.all_cons, Bool.and_eq_true] at ha
    have hv : apartFrom u [v] = true := by
      rw [apartFrom, List.all_cons, ha.1, List.all_nil, Bool.and_true]
    exact fails_orElse (hp.fails u s hu hv h) (hq.fails u s hu ha.2 h)
  failsEnd g hg := fails_orElse (hp.failsEnd g hg) (hq.failsEnd g hg)

/-- The words of two rules clash. -/
def allApart (vs ws : List (List Char)) : Bool :=
  ws.all fun w => solid w && apartFrom w vs

theorem Choice.fails_ledBy (hp : Choice spell m p L F f ws) {vs : List (List Char)}
    (h : allApart ws vs = true) {s : List Char} (hs : LedBy vs s) : Fails p s := by
  obtain ⟨v, hv, hled⟩ := hs
  have hboth := List.all_eq_true.mp h v hv
  rw [Bool.and_eq_true] at hboth
  exact hp.fails v s hboth.1 hboth.2 hled

/-- **A rule in front of a choice with other words.** -/
theorem Choice.cons {q : Parser β} {M : Language ν α} {v : List Char}
    (hp : Choice spell m p L F f [v]) (hq : Choice spell m q M F f ws)
    (h : allApart [v] ws = true) : Choice spell m (p <|> q) (L.or M) F f (v :: ws) :=
  hp.consOf hq fun n ps a s hM _ => hp.fails_ledBy h (hq.led n ps a s hM trivial)

theorem Choice.weaken (hp : Choice spell m p L F f ws) (h : ∀ s, G s → F s) :
    Choice spell m p L G f ws :=
  ⟨hp.reads.weaken h, hp.led, hp.fails, hp.failsEnd⟩

/-- What is behind the rule does not matter for its words. -/
theorem Choice.bind {k : β → Parser δ} {M : α → Language ν γ} {g : γ → δ}
    (hp : Choice spell m p L F f ws) (hM : ∀ a, Precedes spell (M a) G F)
    (hk : ∀ a, Reads spell m (k (f a)) (M a) G g) : Choice spell m (p >>= k) (L >>= M) G g ws where
  reads := hp.reads.bind hM hk
  led := precedes_bind hp.led fun _ => precedes_true
  fails v s hv ha hled := fails_bind (hp.fails v s hv ha hled)
  failsEnd g hg := fails_bind (hp.failsEnd g hg)

theorem Choice.map {c : β → δ} {d : α → γ} {f' : γ → δ} (hp : Choice spell m p L F f ws)
    (h : ∀ a, f' (d a) = c (f a)) :
    Choice spell m (p >>= fun b => pure (c b)) (L >>= fun a => pure (d a)) F f' ws :=
  hp.bind (fun _ => precedes_pure _ fun _ h => h) fun a => reads_pure (h a)

/-- In front of another word, nothing more is taken. -/
theorem Choice.precedes_word (hp : Choice spell m p L F f ws) {w : List Char}
    (hw : solid w = true) (ha : apartFrom w ws = true) (hF : ∀ s, Led w s → F s)
    (M : Language ν γ) :
    Precedes spell (Language.word w >>= fun _ => M) G fun s => F s ∧ Fails p s :=
  (precedes_word_bind w M).mono fun s h => ⟨hF s h, hp.fails w s hw ha h⟩

theorem not_ledBy_nil (h : ws.all solid = true) : ¬ LedBy ws [] := by
  rintro ⟨w, hw, g, t, hg, heq⟩
  have hsolid := List.all_eq_true.mp h w hw
  obtain ⟨-, hempty⟩ := List.append_eq_nil_iff.mp heq.symm
  obtain ⟨hnil, -⟩ := List.append_eq_nil_iff.mp hempty
  rw [hnil] at hsolid
  exact absurd hsolid (by decide)

/-- **As many as there are of a choice**, up to another word. -/
theorem Choice.star (hp : Choice spell m p L F f ws) (hws : ws.all solid = true)
    (hF : ∀ s, LedBy ws s → F s) :
    Reads spell m (Parser.star p) (Language.Star L) (fun s => F s ∧ Fails p s) (List.map f) :=
  reads_star hp.reads (hp.led.proper (not_ledBy_nil hws)) (hp.led.mono hF)

/-- In front of as many as there are is one of the words, or what comes behind. -/
theorem Choice.precedes_star (hp : Choice spell m p L F f ws) :
    Precedes spell (Language.Star L) G fun s => LedBy ws s ∨ G s :=
  Expectation.precedes_star (hp.led.mono fun _ h => .inl h) fun _ h => .inr h

end

end Hexabus.Lib.Expectation
