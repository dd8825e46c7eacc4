import Mathlib.Tactic

/-!
# Folds that can fail

A fold in `Except` over a list whose elements can be bad: it succeeds exactly when no
element is bad, and is then a plain fold. A loop over numbers carries an invariant that
its steps carry on.
-/

namespace Hexabus.Lib.Folds

variable {ε α β : Type}

theorem bind_ok_iff {x : Except ε α} {f : α → Except ε β} {b : β} :
    x >>= f = .ok b ↔ ∃ a, x = .ok a ∧ f a = .ok b := by
  cases x with
  | error e =>
    constructor
    · intro h
      cases h
    · rintro ⟨a, h, -⟩
      cases h
  | ok a =>
    constructor
    · intro h
      exact ⟨a, rfl, h⟩
    · rintro ⟨a', h, hf⟩
      cases h
      exact hf

variable {f : β → α → Except ε β} {g : β → α → β} {Good : α → Prop}

/-- Without a bad element the fold is a plain one. -/
theorem foldlM_eq_foldl {l : List α} {b : β} (hf : ∀ b a, Good a → f b a = .ok (g b a))
    (h : ∀ a ∈ l, Good a) : l.foldlM f b = .ok (l.foldl g b) := by
  induction l generalizing b with
  | nil => rfl
  | cons a l ih =>
    rw [List.foldlM_cons, hf b a (h a List.mem_cons_self)]
    exact ih fun x hx => h x (List.mem_cons_of_mem _ hx)

/-- A fold that succeeds has met no bad element. -/
theorem forall_of_foldlM_ok {l : List α} {b r : β} (hf : ∀ b a b', f b a = .ok b' → Good a)
    (h : l.foldlM f b = .ok r) : ∀ a ∈ l, Good a := by
  induction l generalizing b with
  | nil => exact fun a ha => absurd ha List.not_mem_nil
  | cons a l ih =>
    rw [List.foldlM_cons, bind_ok_iff] at h
    obtain ⟨b', hstep, hrest⟩ := h
    intro x hx
    rcases List.mem_cons.mp hx with rfl | hx
    · exact hf b x b' hstep
    · exact ih hrest x hx

/-- A loop over the numbers below `n`, each step of which succeeds and carries an
invariant on. -/
theorem foldlM_range {σ : Type} {f : σ → Nat → Except ε σ} {Inv : Nat → σ → Prop} {n : Nat}
    (hstep : ∀ k s, k < n → Inv k s → ∃ s', f s k = .ok s' ∧ Inv (k + 1) s') {s : σ}
    (h : Inv 0 s) : ∃ s', (List.range n).foldlM f s = .ok s' ∧ Inv n s' := by
  induction n with
  | zero => exact ⟨s, rfl, h⟩
  | succ n ih =>
    obtain ⟨s₁, hrun, hinv⟩ := ih fun k s hk => hstep k s (by omega)
    obtain ⟨s₂, hlast, hinv'⟩ := hstep n s₁ (by omega) hinv
    refine ⟨s₂, ?_, hinv'⟩
    rw [List.range_succ, List.foldlM_append]
    exact bind_ok_iff.mpr ⟨s₁, hrun, bind_ok_iff.mpr ⟨s₂, hlast, rfl⟩⟩

/-- A fold that succeeds has carried an invariant over the elements it has passed. -/
theorem foldlM_invariant {Inv : List α → β → Prop}
    (hstep : ∀ done a b b', Inv done b → f b a = .ok b' → Inv (done ++ [a]) b')
    {done l : List α} {b r : β} (h : Inv done b) (hrun : l.foldlM f b = .ok r) :
    Inv (done ++ l) r := by
  induction l generalizing done b with
  | nil =>
    cases hrun
    rwa [List.append_nil]
  | cons a l ih =>
    rw [List.foldlM_cons, bind_ok_iff] at hrun
    obtain ⟨b', ha, hrest⟩ := hrun
    have hall := ih (hstep done a b b' h ha) hrest
    rwa [List.append_assoc] at hall

/-- What the steps of a fold note down, up to the first one that fails. -/
def foldTrace {γ : Type} (f : β → α → Except ε β) (note : β → α → List γ) : β → List α → List γ
  | _, [] => []
  | b, a :: l =>
    note b a ++
      match f b a with
      | .ok b' => foldTrace f note b' l
      | .error _ => []

/-- What is noted down on the way, where an invariant holds at every step. -/
theorem forall_foldTrace {γ : Type} {f : β → α → Except ε β} {note : β → α → List γ}
    {Inv : List α → β → Prop} {P : γ → Prop} {whole : List α}
    (hstep : ∀ done a b b', Inv done b → f b a = .ok b' → Inv (done ++ [a]) b')
    (hnote : ∀ done a rest b, whole = done ++ a :: rest → Inv done b → ∀ c ∈ note b a, P c)
    {done l : List α} {b : β} (hwhole : whole = done ++ l) (h : Inv done b) :
    ∀ c ∈ foldTrace f note b l, P c := by
  induction l generalizing done b with
  | nil => exact fun c hc => absurd hc List.not_mem_nil
  | cons a l ih =>
    intro c hc
    rcases List.mem_append.mp hc with hc | hc
    · exact hnote done a l b hwhole h c hc
    · cases ha : f b a with
      | error e =>
        rw [ha] at hc
        exact absurd hc List.not_mem_nil
      | ok b' =>
        rw [ha] at hc
        refine ih ?_ (hstep done a b b' h ha) c hc
        rw [hwhole, List.append_assoc]
        rfl

theorem forall_foldTrace_of_step {γ : Type} {f : β → α → Except ε β} {note : β → α → List γ}
    {Inv : β → Prop} {P : γ → Prop} (hstep : ∀ a b b', Inv b → f b a = .ok b' → Inv b')
    (hnote : ∀ a b, Inv b → ∀ c ∈ note b a, P c) {l : List α} {b : β} (h : Inv b) :
    ∀ c ∈ foldTrace f note b l, P c :=
  @forall_foldTrace _ _ _ _ _ _ (fun _ => Inv) P l (fun _ => hstep) (fun _ a _ b _ => hnote a b)
    [] l b rfl h

/-! ## Maps that can fail -/

theorem mapM_ok {f : α → Except ε β} {l : List α} (hl : ∀ a ∈ l, ∃ b, f a = .ok b) :
    ∃ bs, l.mapM f = .ok bs := by
  induction l with
  | nil => exact ⟨[], rfl⟩
  | cons a l ih =>
    obtain ⟨b, hb⟩ := hl a List.mem_cons_self
    obtain ⟨bs, hbs⟩ := ih fun x hx => hl x (List.mem_cons_of_mem _ hx)
    refine ⟨b :: bs, ?_⟩
    simp only [List.mapM_cons, hb, hbs, bind, Except.bind]
    rfl

/-- A step whose outcome is known goes on with it. -/
theorem bind_ok_of_iff {x : Except ε α} {P : Prop} {a : α} (hx : ∀ b, x = .ok b ↔ P ∧ b = a)
    {f : α → Except ε β} {b : β} : x >>= f = .ok b ↔ P ∧ f a = .ok b := by
  rw [bind_ok_iff]
  constructor
  · rintro ⟨c, hc, hrest⟩
    obtain ⟨hP, rfl⟩ := (hx c).mp hc
    exact ⟨hP, hrest⟩
  · rintro ⟨hP, hrest⟩
    exact ⟨a, (hx a).mpr ⟨hP, rfl⟩, hrest⟩

/-- A map whose outcome is known on every element. -/
theorem mapM_ok_of_iff {f : α → Except ε β} {P : α → Prop} {g : α → β}
    (hf : ∀ a b, f a = .ok b ↔ P a ∧ b = g a) {l : List α} {bs : List β} :
    l.mapM f = .ok bs ↔ (∀ a ∈ l, P a) ∧ bs = l.map g := by
  induction l generalizing bs with
  | nil =>
    constructor
    · rintro ⟨⟩
      exact ⟨fun a ha => absurd ha List.not_mem_nil, rfl⟩
    · rintro ⟨-, rfl⟩
      rfl
  | cons a l ih =>
    rw [List.mapM_cons, bind_ok_of_iff (hf a), bind_ok_of_iff fun bs => @ih bs,
      List.forall_mem_cons, and_assoc]
    refine and_congr_right fun _ => and_congr_right fun _ => ⟨?_, ?_⟩
    · rintro ⟨⟩
      rfl
    · rintro rfl
      rfl

/-- A map that succeeds has succeeded on every element. -/
theorem forall₂_of_mapM_ok {f : α → Except ε β} {l : List α} {bs : List β}
    (hl : l.mapM f = .ok bs) : List.Forall₂ (fun a b => f a = .ok b) l bs := by
  induction l generalizing bs with
  | nil =>
    cases hl
    exact .nil
  | cons a l ih =>
    rw [List.mapM_cons, bind_ok_iff] at hl
    obtain ⟨b, hb, hrest⟩ := hl
    obtain ⟨bs', hbs', hret⟩ := bind_ok_iff.mp hrest
    cases hret
    exact .cons hb (ih hbs')

theorem exists_of_mapM_ok {f : α → Except ε β} {l : List α} {bs : List β} {b : β}
    (hl : l.mapM f = .ok bs) (hb : b ∈ bs) : ∃ a ∈ l, f a = .ok b := by
  have hall := forall₂_of_mapM_ok hl
  clear hl
  induction hall with
  | nil => exact absurd hb List.not_mem_nil
  | @cons a b' l bs ha _ ih =>
    rcases List.mem_cons.mp hb with rfl | hb
    · exact ⟨a, List.mem_cons_self, ha⟩
    · obtain ⟨a', ha', hfa'⟩ := ih hb
      exact ⟨a', List.mem_cons_of_mem _ ha', hfa'⟩

theorem mem_of_mapM_ok {f : α → Except ε β} {l : List α} {bs : List β} {a : α}
    (hl : l.mapM f = .ok bs) (ha : a ∈ l) : ∃ b ∈ bs, f a = .ok b := by
  have hall := forall₂_of_mapM_ok hl
  clear hl
  induction hall with
  | nil => exact absurd ha List.not_mem_nil
  | @cons a' b l bs hb _ ih =>
    rcases List.mem_cons.mp ha with rfl | ha
    · exact ⟨b, List.mem_cons_self, hb⟩
    · obtain ⟨b', hb', hfa⟩ := ih ha
      exact ⟨b', List.mem_cons_of_mem _ hb', hfa⟩

/-- A map in `Option` that succeeds on every element. -/
theorem mapM_some {f : α → Option β} {l : List α} (hl : ∀ a ∈ l, ∃ b, f a = some b) :
    ∃ bs, l.mapM f = some bs ∧ ∀ b, b ∈ bs ↔ ∃ a ∈ l, f a = some b := by
  induction l with
  | nil => exact ⟨[], rfl, by simp⟩
  | cons a l ih =>
    obtain ⟨b, hb⟩ := hl a List.mem_cons_self
    obtain ⟨bs, hbs, hmem⟩ := ih fun x hx => hl x (List.mem_cons_of_mem _ hx)
    refine ⟨b :: bs, ?_, fun c => ?_⟩
    · rw [List.mapM_cons, hb, hbs]
      rfl
    · rw [List.mem_cons, List.exists_mem_cons_iff, hmem, hb, Option.some_inj, eq_comm]

/-! ## Largest values -/

theorem le_foldl_max (f : α → Nat) (l : List α) (n : Nat) :
    n ≤ l.foldl (fun m a => max m (f a)) n ∧
      ∀ a ∈ l, f a ≤ l.foldl (fun m a => max m (f a)) n := by
  induction l generalizing n with
  | nil => exact ⟨Nat.le_refl n, fun a ha => absurd ha List.not_mem_nil⟩
  | cons b l ih =>
    obtain ⟨hle, hall⟩ := ih (max n (f b))
    rw [List.foldl_cons]
    refine ⟨(Nat.le_max_left _ _).trans hle, fun a ha => ?_⟩
    rcases List.mem_cons.mp ha with rfl | ha
    · exact (Nat.le_max_right _ _).trans hle
    · exact hall a ha

/-! ## Lists in order -/

/-- Once an element passes, all behind it do: what is dropped in front is what does not. -/
theorem dropWhile_eq_filter {α : Type} {p q : α → Bool} (hq : ∀ a, q a = !p a) {l : List α}
    (h : l.Pairwise fun a b => p a = true → p b = true) : l.dropWhile q = l.filter p := by
  induction l with
  | nil => rfl
  | cons a l ih =>
    obtain ⟨ha, htail⟩ := List.pairwise_cons.mp h
    cases hp : p a with
    | false =>
      rw [List.dropWhile_cons_of_pos (by rw [hq, hp]; rfl),
        List.filter_cons_of_neg (by rw [hp]; exact Bool.false_ne_true)]
      exact ih htail
    | true =>
      rw [List.dropWhile_cons_of_neg (by rw [hq, hp]; exact Bool.false_ne_true),
        List.filter_cons_of_pos hp, List.filter_eq_self.mpr fun b hb => ha b hb hp]

/-- Once an element does not pass, none behind it does. -/
theorem takeWhile_eq_filter {α : Type} {p : α → Bool} {l : List α}
    (h : l.Pairwise fun a b => p b = true → p a = true) : l.takeWhile p = l.filter p := by
  induction l with
  | nil => rfl
  | cons a l ih =>
    obtain ⟨ha, htail⟩ := List.pairwise_cons.mp h
    cases hp : p a with
    | true => rw [List.takeWhile_cons_of_pos hp, List.filter_cons_of_pos hp, ih htail]
    | false =>
      have hnone : ∀ b ∈ l, ¬ p b = true := by
        intro b hb hpb
        rw [ha b hb hpb] at hp
        cases hp
      have hneg : ¬ p a = true := by
        rw [hp]
        exact Bool.false_ne_true
      rw [List.takeWhile_cons_of_neg hneg, List.filter_cons_of_neg hneg,
        List.filter_eq_nil_iff.mpr hnone]

end Hexabus.Lib.Folds
