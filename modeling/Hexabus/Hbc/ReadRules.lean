import Hexabus.Hbc.ReadPrograms
import Hexabus.Lib.Choices

/-!
# Rules

What the rules of the grammar read: constants, names of endpoints, lists, and the blocks that
describe files, endpoints and devices.
-/

namespace Hexabus.Hbc

open Lib.Expectation

namespace Grammar

open Parser

section
variable {r : Identifier → Identifier} {m : Nat}

/-! ## What is behind a token -/

theorem noDigit_of_ends {s : Text} (h : Written.Ends s) :
    (s.head?.all fun c => !c.isDigit) = true := by
  cases s with
  | nil => rfl
  | cons c s =>
    have h : (!(identifierRest c || c = '.' || c = '(')) = true := h
    show (!c.isDigit) = true
    simp only [Bool.not_eq_true', Bool.or_eq_false_iff, identifierRest, Char.isAlphanum] at h ⊢
    exact h.1.1.1.2

/-- A word that no number goes on with. -/
def endsBefore : Text → Bool
  | [] => false
  | c :: _ => !(identifierRest c || c = '.' || c = '(')

theorem precedes_ends {α : Type} {G : Text → Prop} {w : Text} (hw : endsBefore w = true)
    (M : Language Identifier α) :
    Precedes (spelled r) (Language.word w >>= fun _ => M) G Written.Ends := by
  cases w with
  | nil => exact absurd hw (by decide)
  | cons c w => exact (precedes_word_bind (c :: w) M).mono fun _ h => ends_of_led hw h

theorem precedes_apart {α : Type} {G : Text → Prop} {c : Char} {w : Text}
    (hc : (!identifierRest c) = true) (M : Language Identifier α) :
    Precedes (spelled r) (Language.word (c :: w) >>= fun _ => M) G Apart :=
  (precedes_word_bind (c :: w) M).mono fun _ h => apart_of_led hc h

/-- A language whose texts begin with a token, and the rest of the texts. -/
theorem precedes_bare_bind {α : Type} {G : Text → Prop} {w : Text} (hw : solid w = true)
    (M : Language Identifier α) :
    Precedes (spelled r) (Language.bare w >>= fun _ => M) G fun s => solid s = true :=
  precedes_bind (precedes_bare (F := fun s => solid s = true) (solid_append hw))
    fun _ => precedes_true

theorem precedes_name_bind {α : Type} {G : Text → Prop} (M : Identifier → Language Identifier α) :
    Precedes (spelled r) (Written.name >>= M) G fun s => solid s = true :=
  precedes_bind (precedes_name_solid (G := fun _ => True)) fun _ => precedes_true

/-- A word right behind a line position. -/
theorem reads_expectBare {w : Text} (hw : solid w = true) :
    Reads (spelled r) m (expect (lit w)) (Language.bare w : Language Identifier Unit)
      (fun _ => True) id :=
  Reads.expect (Reads.unskipped (reads_lit hw))

theorem fails_isPrefixOf {w g t : Text} (hg : Gap g) (ht : solid t = true)
    (h : w.isPrefixOf t = false) : Fails (lit w) (g ++ t) := by
  refine fails_skipped hg ht fun n => ?_
  rw [bare, h]
  rfl

/-! ## Constants -/

theorem fails_placeholder {g t : Text} (hg : Gap g) (ht : solid t = true)
    (h : t.head? ≠ some '$') : Fails placeholder (g ++ t) := by
  refine fails_skipped hg ht (fails_bind fun n => ?_)
  have hno : ['$'].isPrefixOf t = false := by
    cases t with
    | nil => rfl
    | cons c t =>
      have hc : '$' ≠ c := fun heq => h (congrArg some heq.symm)
      rw [List.isPrefixOf, beq_false_of_ne hc, Bool.false_and]
  rw [bare, hno]
  rfl

theorem fails_float {α : Type} {k : Text → Parser α} {g t : Text} (hg : Gap g)
    (ht : solid t = true) (h : floatText t = none) :
    Fails (do skipped; let w ← bareFloat; k w) (g ++ t) := by
  refine fails_skipped hg ht (fails_bind fun n => ?_)
  simp only [bareFloat, h]

/-- A text without a number in front. -/
theorem floatText_eq_none {c : Char} {s : Text} (hsign : c ≠ '+' ∧ c ≠ '-' ∧ c ≠ '.')
    (hdigit : c.isDigit = false) (hspecial : specialText (c :: s) = none) :
    floatText (c :: s) = none := by
  have hs : signText (c :: s) = [] := by
    rw [signText.eq_3]
    · rintro t ⟨rfl, -⟩
      exact hsign.1 rfl
    · rintro t ⟨rfl, -⟩
      exact hsign.2.1 rfl
  have hw : (c :: s).takeWhile Char.isDigit = [] := by
    rw [List.takeWhile_cons_of_neg (by simp [hdigit])]
  rw [floatText, hs, List.length_nil, List.drop_zero, unsignedText, hw]
  simp [hspecial, hsign.2.2]

theorem beginsWith_cons {c d : Char} {w s : Text} (h : c ≠ d.toLower) :
    beginsWith (c :: w) (d :: s) = false := by
  simp [beginsWith, Ne.symm h]

theorem specialText_eq_none {c : Char} {s : Text} (hn : 'n' ≠ c.toLower) (hi : 'i' ≠ c.toLower) :
    specialText (c :: s) = none := by
  have h₁ : beginsWith "nan".toList (c :: s) = false := beginsWith_cons hn
  have h₂ : beginsWith "inf".toList (c :: s) = false := beginsWith_cons hi
  rw [specialText, h₁, h₂]
  rfl

/-- A constant does not match where none of its alternatives does. -/
theorem fails_constant {floatValue : Text → UInt32} {g t : Text} (hg : Gap g)
    (ht : solid t = true) (hsign : t.head? ≠ some '$') (hfloat : floatText t = none)
    (hwords : ∀ w ∈ [['i'], "true".toList, "false".toList], w.isPrefixOf t = false) :
    Fails (constant floatValue) (g ++ t) := by
  have hword : ∀ w ∈ [['i'], "true".toList, "false".toList], Fails (lit w) (g ++ t) :=
    fun w hw => fails_isPrefixOf hg ht (hwords w hw)
  refine fails_orElse (fails_bind (fails_placeholder hg ht hsign)) ?_
  refine fails_orElse (fails_float hg ht hfloat) ?_
  refine fails_orElse (fails_bind (hword ['i'] (by simp))) ?_
  exact fails_orElse (fails_bind (hword "true".toList (by simp)))
    (fails_bind (hword "false".toList (by simp)))

/-- The constants that begin with a word. -/
theorem choice_constant : Choice (spelled r) m
    ((do word "i"; let value ← expect uint; return ConstantDoc.uint value)
      <|> (do word "true"; return .placeholder [])
      <|> (do word "false"; return .placeholder []))
    (.or (do Written.word "i"; let value ← Written.uint; return .uint value) <|
      .or (do Written.word "true"; return .placeholder [])
      (do Written.word "false"; return .placeholder []))
    Written.Ends id [['i'], "true".toList, "false".toList] := by
  have huint : Reads (spelled r) m (expect uint >>= fun value => pure (ConstantDoc.uint value))
      (Written.uint >>= fun value => pure (ConstantDoc.uint value)) Written.Ends id :=
    reads_uint.expect.bind (fun value => precedes_pure _ fun _ h => noDigit_of_ends h)
      fun value => reads_pure rfl
  refine .cons (.single (by decide) huint) (.cons ?_ ?_ (by decide)) (by decide)
  · exact .token (by decide) _
  · exact .token (by decide) _

theorem specialText_i {c : Char} {s : Text} (h : 'n' ≠ c.toLower) :
    specialText ('i' :: c :: s) = none := by
  have h₁ : beginsWith "nan".toList ('i' :: c :: s) = false := beginsWith_cons (by decide)
  have h₂ : beginsWith "inf".toList ('i' :: c :: s) = false := by
    simp [beginsWith, Ne.symm h]
  rw [specialText, h₁, h₂]
  rfl

theorem ne_toLower_of_isDigit {c : Char} (h : c.isDigit = true) : 'n' ≠ c.toLower := by
  have hdigit : c.val ≤ '9'.val := by
    rw [Char.isDigit, Bool.and_eq_true, decide_eq_true_eq, decide_eq_true_eq] at h
    exact h.2
  have hupper : ¬ (c.val ≥ 'A'.val ∧ c.val ≤ 'Z'.val) := fun hup =>
    absurd (UInt32.le_trans hup.1 hdigit) (by decide)
  have hlower : c.toLower = c := dif_neg hupper
  rw [hlower]
  rintro rfl
  exact absurd h (by decide)

/-- The character ahead is of a set. -/
def Ahead (p : Char → Bool) (s : Text) : Prop := s.head?.any p = true

theorem ahead_gap {p : Char → Bool} (hp : gapChars.all p = true) {g s : Text} (hg : Gap g)
    (hs : Ahead p s) : Ahead p (g ++ s) := by
  rcases hg.head with rfl | ⟨c, t, rfl, hc⟩
  · exact hs
  · exact List.all_eq_true.mp hp c (mem_gapChars.mpr hc)

theorem ahead_of_led {p : Char → Bool} (hp : gapChars.all p = true) {c : Char} {w s : Text}
    (hc : p c = true) (h : Led (c :: w) s) : Ahead p s := by
  obtain ⟨g, t, hg, rfl⟩ := h
  exact ahead_gap hp hg hc

/-- In front of a number stands a blank, a comment or a digit. -/
theorem precedes_uint {p : Char → Bool} (hp : gapChars.all p = true)
    (hdigit : ∀ c, c.isDigit = true → p c = true) {G : Text → Prop} :
    Precedes (spelled r) Written.uint G (Ahead p) := by
  rintro n ps v s ⟨_, _, _, rfl, ⟨g, hg, rfl⟩, w, hne, hw, -, -, rfl⟩ _
  obtain ⟨d, ds, rfl⟩ := List.exists_cons_of_ne_nil hne
  rw [textOf_append, textOf_singleton, textOf_singleton, List.append_assoc]
  exact ahead_gap hp hg (hdigit d (List.all_eq_true.mp hw d List.mem_cons_self))

theorem precedes_i {α : Type} {F : Text → Prop} (k : Text → Parser α) :
    Precedes (spelled r)
      (do Written.word "i"; let value ← Written.uint; return ConstantDoc.uint value) F
      (Fails do skipped; let w ← bareFloat; k w) := by
  rintro n ps v s ⟨_, ps', _, rfl, ⟨_, _, _, rfl, ⟨g, hg, rfl⟩, rfl⟩, hrest⟩ hs
  have hhead := precedes_bind (M := fun value => pure (ConstantDoc.uint value))
    (precedes_uint (r := r) (p := fun c => 'n' ≠ c.toLower) (G := fun _ => True) (by decide)
      fun c hc => decide_eq_true (ne_toLower_of_isDigit hc)) (fun _ => precedes_true)
    _ ps' v s hrest hs
  rw [textOf_append, textOf_append, textOf_singleton, textOf_singleton, List.append_assoc,
    List.append_assoc]
  show Fails _ (g ++ 'i' :: (textOf (spelled r) ps' ++ s))
  cases ht : textOf (spelled r) ps' ++ s with
  | nil =>
    rw [ht] at hhead
    exact absurd hhead Bool.false_ne_true
  | cons c t =>
    rw [ht] at hhead
    have hc : 'n' ≠ c.toLower := of_decide_eq_true hhead
    exact fails_float hg rfl (floatText_eq_none (by decide) (by decide) (specialText_i hc))


/-- The characters that a number does not begin with. -/
def startsNoFloat (c : Char) : Bool :=
  solid [c] && c ≠ '+' && c ≠ '-' && c ≠ '.' && !c.isDigit && 'n' ≠ c.toLower && 'i' ≠ c.toLower

theorem floatText_startsNoFloat {c : Char} {s : Text} (h : startsNoFloat c = true) :
    solid (c :: s) = true ∧ floatText (c :: s) = none := by
  simp only [startsNoFloat, Bool.and_eq_true, decide_eq_true_eq, Bool.not_eq_true'] at h
  obtain ⟨⟨⟨⟨⟨⟨hsolid, hplus⟩, hminus⟩, hdot⟩, hdigit⟩, hn⟩, hi⟩ := h
  exact ⟨hsolid, floatText_eq_none ⟨hplus, hminus, hdot⟩ hdigit (specialText_eq_none hn hi)⟩

theorem fails_float_of_led {α : Type} {k : Text → Parser α} {c : Char} {w s : Text}
    (hc : startsNoFloat c = true) (h : Led (c :: w) s) :
    Fails (do skipped; let w ← bareFloat; k w) s := by
  obtain ⟨g, t, hg, rfl⟩ := h
  obtain ⟨hsolid, hnone⟩ := floatText_startsNoFloat (s := w ++ t) hc
  exact fails_float hg hsolid hnone

variable {floatValue : Text → UInt32}

theorem precedes_float_fails :
    Precedes (spelled r)
      (do let bits ← Written.float floatValue; return ConstantDoc.float bits) Written.Ends
      (Fails do let name ← placeholder; return ConstantDoc.placeholder name) := by
  rintro n ps v s ⟨_, _, _, rfl, ⟨_, _, _, rfl, ⟨g, hg, rfl⟩, w, hw, rfl, rfl⟩, rfl, rfl⟩ hs
  rw [List.append_nil, textOf_append, textOf_singleton, textOf_singleton, List.append_assoc]
  refine fails_bind (fails_placeholder hg (solid_append hw.1 s) ?_)
  obtain ⟨c, w, rfl⟩ := List.exists_cons_of_ne_nil (l := w) (by
    rintro rfl
    exact absurd hw.1 (by decide))
  exact hw.2.1

/-- **A constant is read**, where nothing that a number could go on with is behind it. -/
theorem reads_constant : Reads (spelled r) m (constant floatValue) (Written.constant floatValue)
    Written.Ends id := by
  have hplaceholder : Reads (spelled r) m
      (placeholder >>= fun name => pure (ConstantDoc.placeholder name))
      (Written.placeholder >>= fun name => pure (ConstantDoc.placeholder name)) Written.Ends id :=
    reads_placeholder.bind (fun _ => precedes_pure _ fun _ h => Apart.of_ends h)
      fun _ => reads_pure rfl
  refine hplaceholder.alt (reads_float.alt choice_constant.reads ?_)
    (precedes_or precedes_float_fails ?_)
  · refine precedes_or (precedes_i _) (precedes_or ?_ ?_)
    · exact (precedes_word_bind _ _).mono fun _ h => fails_float_of_led (by decide) h
    · exact (precedes_word_bind _ _).mono fun _ h => fails_float_of_led (by decide) h
  · intro n ps v s hps _
    obtain ⟨w, hw, g, t, hg, heq⟩ := (choice_constant (m := m)).led n ps v s hps trivial
    have hw : w = ['i'] ∨ w = "true".toList ∨ w = "false".toList := by simpa using hw
    rw [heq]
    rcases hw with rfl | rfl | rfl <;>
      exact fails_bind (fails_placeholder hg rfl fun h => absurd (Option.some.inj h) (by decide))

/-- A comparison is not longer than it is where a constant follows. -/
theorem precedes_constant :
    Precedes (spelled r) (Written.constant floatValue) Written.Ends (Ahead (· ≠ '=')) := by
  have hgap : gapChars.all (fun c => decide (c ≠ '=')) = true := by decide
  refine precedes_or ?_ (precedes_or ?_ (precedes_or ?_ (precedes_or ?_ ?_)))
  · rintro n ps v s ⟨_, _, _, rfl, ⟨_, _, _, rfl, ⟨g, hg, rfl⟩, w, hw, rfl, rfl⟩, rfl, rfl⟩ hs
    rw [List.append_nil, textOf_append, textOf_singleton, textOf_singleton, List.append_assoc]
    exact ahead_gap hgap hg rfl
  · rintro n ps v s ⟨_, _, _, rfl, ⟨_, _, _, rfl, ⟨g, hg, rfl⟩, w, hw, rfl, rfl⟩, rfl, rfl⟩ hs
    rw [List.append_nil, textOf_append, textOf_singleton, textOf_singleton, List.append_assoc]
    refine ahead_gap hgap hg ?_
    cases w with
    | nil => exact absurd hw.1 (by decide)
    | cons c w =>
      refine decide_eq_true ?_
      rintro rfl
      have hsome := hw.2.2 [] rfl
      have hnone := (floatText_startsNoFloat (c := '=') (s := w ++ []) (by decide)).2
      rw [List.cons_append, hnone] at hsome
      exact absurd hsome (by simp)
  all_goals exact (precedes_word_bind _ _).mono fun _ h => ahead_of_led hgap (by decide) h

/-! ## Endpoint names -/

theorem precedes_geidLiteral {G : Text → Prop} :
    Precedes (spelled r) Written.geidLiteral G (Fails geidPlaceholder) := by
  rintro n ps v s ⟨_, _, x, rfl, rfl, rfl, rfl⟩ _ l
  obtain ⟨c, cs, hx, hc, -⟩ := Identifier.parts (r x)
  have hne : c ≠ '$' := by
    rintro rfl
    exact absurd hc (by decide)
  rw [List.append_nil, textOf_singleton]
  show geidPlaceholder ⟨l, (r x).val ++ s⟩ = .fail
  rw [hx]
  refine fails_bind (fails_bind fun l => ?_) l
  rw [bare, List.cons_append, List.isPrefixOf, beq_false_of_ne hne.symm]
  rfl

theorem precedes_geidPlaceholder {G : Text → Prop} :
    Precedes (spelled r) Written.geidPlaceholder G (Fails geidLiteral) := by
  rintro n ps v s ⟨_, _, t, rfl, ⟨w, hw, rfl, rfl⟩, rfl, rfl⟩ _ l
  rw [List.append_nil, textOf_singleton]
  show geidLiteral ⟨l, '$' :: (w ++ s)⟩ = .fail
  exact fails_bind (fun _ => rfl) l

theorem reads_geidPlaceholder :
    Reads (spelled r) m geidPlaceholder Written.geidPlaceholder Apart (GeidElement.rename r) :=
  reads_barePlaceholder.bind (fun _ => precedes_pure _ fun _ h => h) fun _ => reads_pure rfl

theorem reads_geidLiteral :
    Reads (spelled r) m geidLiteral Written.geidLiteral Apart (GeidElement.rename r) :=
  reads_bareIdentifier.bind (fun _ => precedes_pure _ fun _ h => h) fun _ => reads_pure rfl

theorem reads_here {F : Text → Prop} : Reads (spelled r) m here Written.here F id := by
  rintro n ps l s ⟨rfl, rfl⟩ _ _
  rfl

theorem precedes_bareGeid {G : Text → Prop} :
    Precedes (spelled r) Written.bareGlobalEndpointId G fun s => solid s = true := by
  refine precedes_bind (H := fun _ => True) (precedes_or ?_ ?_) fun _ => precedes_true
  · exact precedes_bind (precedes_barePlaceholder_solid (G := fun _ => True))
      fun _ => precedes_true
  · exact precedes_name_bind _

/-- The names in front of and behind the dot are read in both ways in which they are tried. -/
theorem reads_globalEndpointId : Reads (spelled r) m globalEndpointId Written.globalEndpointId
    Apart (GlobalEndpointIdDoc.rename r) := by
  refine reads_gap.bind (fun _ => precedes_bareGeid) fun _ => ?_
  refine (reads_geidPlaceholder.alt reads_geidLiteral precedes_geidLiteral).bind
    (fun _ => precedes_bind (precedes_bare fun _ => rfl) fun _ => precedes_true) fun _ => ?_
  refine (reads_bare ['.']).expect.bind (fun _ => precedes_true) fun _ => ?_
  refine reads_here.bind (fun _ => precedes_true) fun lineno => ?_
  refine (reads_geidLiteral.alt reads_geidPlaceholder precedes_geidPlaceholder).expect.bind
    (fun _ => precedes_pure _ fun _ h => h) fun _ => reads_pure rfl

theorem reads_bareGeid : Reads (spelled r) m globalEndpointId Written.bareGlobalEndpointId Apart
    (GlobalEndpointIdDoc.rename r) := Reads.unskipped reads_globalEndpointId

/-! ## Words that stand for a value -/

theorem reads_datatype {F : Text → Prop} :
    Reads (spelled r) m datatype Written.datatype F id := by
  have hchoice : Choice (spelled r) m datatype Written.datatype F id
      ["BOOL".toList, "UINT8".toList, "UINT32".toList, "FLOAT".toList] := by
    refine .cons ?_ (.cons ?_ (.cons ?_ ?_ (by decide)) (by decide)) (by decide)
    all_goals exact .token (by decide) _
  exact hchoice.reads

theorem reads_accessLv {F : Text → Prop} :
    Reads (spelled r) m accessLv Written.accessLv F id := by
  have hchoice : Choice (spelled r) m accessLv Written.accessLv F id
      ["read".toList, "write".toList, "broadcast".toList] := by
    refine .cons ?_ (.cons ?_ ?_ (by decide)) (by decide)
    all_goals exact .token (by decide) _
  exact hchoice.reads

theorem reads_boolOp {F : Text → Prop} : Reads (spelled r) m boolOp Written.boolOp F id := by
  have hchoice : Choice (spelled r) m boolOp Written.boolOp F id
      ["||".toList, "&&".toList] := by
    refine .cons ?_ ?_ (by decide)
    all_goals exact .token (by decide) _
  exact hchoice.reads

theorem choice_timeF {F : Text → Prop} : Choice (spelled r) m timeF Written.timeF F id
    ["hour".toList, "minute".toList, "second".toList, "day".toList, "month".toList, "year".toList,
      "weekday".toList] := by
  refine .cons ?_ (.cons ?_ (.cons ?_ (.cons ?_ (.cons ?_ (.cons ?_ ?_ (by decide)) (by decide))
    (by decide)) (by decide)) (by decide)) (by decide)
  all_goals exact .token (by decide) _

theorem reads_timeCompOp {F : Text → Prop} :
    Reads (spelled r) m timeCompOp Written.timeCompOp F id := by
  have hchoice : Choice (spelled r) m timeCompOp Written.timeCompOp F id
      [">".toList, "<".toList] := by
    refine .cons ?_ ?_ (by decide)
    all_goals exact .token (by decide) _
  exact hchoice.reads

/-- A comparison with a sign less is not taken for the longer one. -/
theorem precedes_shorter {α : Type} {c : Char} {a : α} {k : Parser α} (hc : solid [c] = true) :
    Precedes (spelled r) (do Language.word [c]; return a) (Ahead (· ≠ '='))
      (Fails do lit [c, '=']; k) := by
  rintro n ps v s ⟨_, _, _, rfl, ⟨_, _, _, rfl, ⟨g, hg, rfl⟩, rfl⟩, rfl, rfl⟩ hs
  rw [List.append_nil, textOf_append, textOf_singleton, textOf_singleton, List.append_assoc]
  refine fails_bind (fails_isPrefixOf hg (solid_append hc s) ?_)
  cases s with
  | nil => exact absurd hs Bool.false_ne_true
  | cons d s =>
    have hd : d ≠ '=' := of_decide_eq_true hs
    show (c == c && ('=' == d && [].isPrefixOf s)) = false
    rw [beq_false_of_ne hd.symm, Bool.false_and, Bool.and_false]

theorem reads_compOp : Reads (spelled r) m compOp Written.compOp (Ahead (· ≠ '=')) id := by
  have hchoice : Choice (spelled r) m compOp Written.compOp (Ahead (· ≠ '=')) id
      ["==".toList, "<=".toList, ">=".toList, "<".toList, ">".toList, "!=".toList] := by
    refine .cons (.token (by decide) _) (.consOf (.token (by decide) _) (.consOf
      (.token (by decide) _) (.cons (.token (by decide) _) (.cons (.token (by decide) _)
      (.token (by decide) _) (by decide)) (by decide)) ?_) ?_) (by decide)
    · refine precedes_or ?_ (precedes_or (precedes_shorter rfl) ?_)
      all_goals exact (precedes_word_bind _ _).mono fun _ h => fails_bind (fails_lit rfl rfl h)
    · refine precedes_or ?_ (precedes_or (precedes_shorter rfl) (precedes_or ?_ ?_))
      all_goals exact (precedes_word_bind _ _).mono fun _ h => fails_bind (fails_lit rfl rfl h)
  exact hchoice.reads

/-! ## Lists -/

/-- Behind the first element of a list. -/
theorem choice_more {α β : Type} {p : Parser β} {L : Language Identifier α} {f : α → β}
    (h : Reads (spelled r) m p L Written.Ends f) :
    Choice (spelled r) m (do word ","; expect p) (do Written.word ","; L) Written.Ends f
      [",".toList] := .single (by decide) h.expect

theorem reads_more {α β : Type} {p : Parser β} {L : Language Identifier α} {f : α → β}
    (h : Reads (spelled r) m p L Written.Ends f) :
    Reads (spelled r) m (more p) (Written.more L)
      (fun s => Written.Ends s ∧ Fails (do word ","; expect p) s) (List.map f) :=
  (choice_more h).star (by decide) fun s ⟨w, hw, hled⟩ =>
    ends_of_led (by decide) (List.mem_singleton.mp hw ▸ hled)

theorem precedes_more {α β : Type} {L : Language Identifier α}
    {M : List α → Language Identifier β} {G : Text → Prop}
    (hM : ∀ as, Precedes (spelled r) (M as) G Written.Ends) :
    Precedes (spelled r) (Written.more L >>= M) G Written.Ends :=
  precedes_bind (precedes_star (precedes_ends rfl L) fun _ h => h) hM

/-- In front of the word that ends a list. -/
theorem precedes_stop {α β : Type} {p : Parser β} {w : Text} {G : Text → Prop}
    (hw : endsBefore w = true) (hsolid : solid w = true) (hclash : clash [','] w = true)
    (M : Language Identifier α) :
    Precedes (spelled r) (Language.word w >>= fun _ => M) G
      fun s => Written.Ends s ∧ Fails (do word ","; expect p) s := by
  refine (precedes_word_bind w M).mono fun s h => ⟨?_, fails_bind (fails_lit hsolid hclash h)⟩
  cases w with
  | nil => exact absurd hw (by decide)
  | cons c w => exact ends_of_led hw h

/-- **A list.** -/
theorem reads_list {α β γ δ : Type} {p q : Parser β} {L : Language Identifier α} {f : α → β}
    {k : β → List β → Parser δ} {M : α → List α → Language Identifier γ} {g : γ → δ}
    {G : Text → Prop} (hp : Reads (spelled r) m p L Written.Ends f)
    (hq : Reads (spelled r) m q L Written.Ends f)
    (hM : ∀ a as, Precedes (spelled r) (M a as) G
      fun s => Written.Ends s ∧ Fails (do word ","; expect q) s)
    (hk : ∀ a as, Reads (spelled r) m (k (f a) (as.map f)) (M a as) G g) :
    Reads (spelled r) m (do let a ← p; let as ← more q; k a as)
      (do let a ← L; let as ← Written.more L; M a as) G g :=
  hp.bind (fun a => precedes_more fun as => (hM a as).mono fun _ h => h.1) fun a =>
    (reads_more hq).bind (hM a) (hk a)

/-- A rule that begins with a keyword and a name. -/
theorem choice_named {α β : Type} {w : Text} {k : Nat → Identifier → Parser β}
    {M : Nat → Identifier → Language Identifier α} {f : α → β} {G : Text → Prop}
    (hw : solid w = true) (hM : ∀ l x, Precedes (spelled r) (M l x) G Apart)
    (hk : ∀ l x, Reads (spelled r) m (k l (r x)) (M l x) G f) :
    Choice (spelled r) m
      (do lit w; let lineno ← linePos; let name ← expect identifier; k lineno name)
      (do Language.word w; let lineno ← Language.linePos; let name ← Written.name; M lineno name)
      G f [w] :=
  .single hw (reads_linePos.bind (fun _ => precedes_name_bind _) fun lineno =>
    reads_name.expect.bind (hM lineno) (hk lineno))

/-- As many as there are, up to the closing bracket. -/
theorem reads_upToBrace {α β γ δ : Type} {p : Parser β} {L : Language Identifier α} {f : α → β}
    {ws : List Text} {k : List β → Parser δ} {M : List α → Language Identifier γ} {g : γ → δ}
    {G : Text → Prop} (hp : Choice (spelled r) m p L (fun _ => True) f ws)
    (hws : ws.all solid = true) (ha : apartFrom "\x7d".toList ws = true)
    (hk : ∀ as, Reads (spelled r) m (k (as.map f)) (M as) G g) :
    Reads (spelled r) m (do let as ← star p; expect (word "\x7d"); k as)
      (do let as ← Language.Star L; Written.word "\x7d"; M as) G g :=
  (hp.star hws fun _ _ => trivial).bind
    (fun as => hp.precedes_word (by decide) ha (fun _ _ => trivial) (M as))
    fun as => Reads.expectLit (by decide) (hk as)

/-! ## Includes, endpoints and devices -/

theorem all_of_led {p : Char → Bool} (hp : gapChars.all p = true) {c : Char} {w s : Text}
    (hc : p c = true) (h : Led (c :: w) s) : s.head?.all p = true := by
  have hahead := ahead_of_led hp hc h
  cases s with
  | nil => rfl
  | cons d s => exact hahead

theorem precedes_filename {G : Text → Prop} :
    Precedes (spelled r) Written.bareFilename G fun s => solid s = true :=
  precedes_solid (p := filenameRest) (by decide) fun _ _ _ ⟨c, cs, hc, _, ht, hps⟩ =>
    ⟨c, cs, filenameRest_of_start hc, ht ▸ hps⟩

theorem choice_includeRule {F : Text → Prop} :
    Choice (spelled r) m includeRule Written.includeRule F id ["include".toList] := by
  refine .single (by decide) (reads_linePos.bind (fun _ => ?_) fun lineno => ?_)
  · exact precedes_bind (precedes_filename (G := fun _ => True)) fun _ => precedes_true
  · exact reads_filename.expect.bind
      (fun _ => (precedes_word_bind _ _).mono fun _ h =>
        all_of_led (p := fun c => !filenameRest c) (by decide) (by decide) h)
      fun _ => Reads.expectLit (by decide) (reads_pure rfl)

theorem choice_endpointCmd {F : Text → Prop} :
    Choice (spelled r) m endpointCmd Written.endpointCmd F id
      ["eid".toList, "datatype".toList, "access".toList] := by
  refine .cons (.single (by decide) ?_) (.cons (.single (by decide) ?_) (.single (by decide) ?_)
    (by decide)) (by decide)
  · exact reads_uint.expect.bind
      (fun _ => (precedes_ends rfl _).mono fun _ h => noDigit_of_ends h)
      fun _ => Reads.expectLit (by decide) (reads_pure rfl)
  · exact reads_datatype.expect.bind (fun _ => precedes_true)
      fun _ => Reads.expectLit (by decide) (reads_pure rfl)
  · exact Reads.expectLit (by decide) (reads_list reads_accessLv.expect reads_accessLv
      (fun _ _ => precedes_stop rfl rfl rfl _)
      fun _ as => Reads.expectLit (by decide) (reads_pure (by rw [List.map_id]; rfl)))

theorem choice_endpoint {F : Text → Prop} :
    Choice (spelled r) m endpoint Written.endpoint F (EndpointDoc.rename r)
      ["endpoint".toList] := by
  refine choice_named (by decide) (fun _ _ => precedes_apart rfl _) fun lineno name => ?_
  exact Reads.expectLit (by decide) (reads_upToBrace choice_endpointCmd (by decide) (by decide)
    fun cmds => reads_pure (by rw [List.map_id]; rfl))

theorem reads_eidList :
    Reads (spelled r) m eidList Written.eidList
      (fun s => Written.Ends s ∧ Fails (do word ","; expect uint) s) id :=
  have huint : Reads (spelled r) m uint Written.uint Written.Ends id :=
    reads_uint.weaken fun _ h => noDigit_of_ends h
  reads_list huint huint (fun _ _ => precedes_pure _ fun _ h => h)
    fun _ _ => reads_pure (by rw [List.map_id]; rfl)

theorem fails_uint {c : Char} {w s : Text} (hsolid : solid [c] = true) (hc : c.isDigit = false)
    (h : Led (c :: w) s) : Fails uint s := by
  obtain ⟨g, t, hg, rfl⟩ := h
  refine fails_skipped hg hsolid fun n => ?_
  have hrun : (c :: (w ++ t)).takeWhile Char.isDigit = [] := by
    rw [List.takeWhile_cons_of_neg (by simp [hc])]
  show (run Char.isDigit >>= _) ⟨n, c :: (w ++ t)⟩ = .fail
  simp [run, holds, hrun]

theorem reads_ipv6Address :
    Reads (spelled r) m ipv6Address Written.ipv6Address
      (fun s => Fails (do skipped; oneOf addressChar) s) id := by
  have hproper : Proper (spelled r) Written.addressChar := by
    rintro n ps c ⟨_, _, _, rfl, ⟨g, hg, rfl⟩, hc, rfl⟩
    rw [textOf_append, List.length_append, textOf_singleton (spelled r) (.word [c])]
    exact Nat.lt_of_lt_of_le Nat.zero_lt_one (Nat.le_add_left _ _)
  refine reads_addressChar.bind (fun _ => precedes_true) fun c => ?_
  refine (reads_star reads_addressChar hproper precedes_true).bind
    (fun _ => precedes_pure _ fun _ h => ⟨trivial, h⟩) fun cs => ?_
  exact reads_pure (by rw [List.map_id]; rfl)

theorem choice_aliasCmd {F : Text → Prop} :
    Choice (spelled r) m aliasCmd Written.aliasCmd F id ["ip".toList, "eids".toList] := by
  refine .cons (.single (by decide) ?_) (.single (by decide) ?_) (by decide)
  · refine reads_ipv6Address.expect.bind (fun _ => ?_)
      fun _ => Reads.expectLit (by decide) (reads_pure rfl)
    refine (precedes_word_bind _ _).mono fun s ⟨g, t, hg, hs⟩ => ?_
    rw [hs]
    exact fails_skipped hg rfl fun n => rfl
  · refine Reads.expectLit (by decide) ((reads_opt reads_eidList).bind (fun eids => ?_)
      fun eids => Reads.expectLit (by decide) (reads_pure (by rw [Option.map_id]; rfl)))
    exact (precedes_word_bind _ _).mono fun s h => ⟨⟨ends_of_led (by decide) h,
      fails_bind (fails_lit (by decide) (by decide) h)⟩, fails_bind (fails_uint rfl rfl h)⟩

theorem choice_aliasRule {F : Text → Prop} :
    Choice (spelled r) m aliasRule Written.aliasRule F (AliasDoc.rename r) ["device".toList] := by
  refine choice_named (by decide) (fun _ _ => precedes_apart rfl _) fun lineno name => ?_
  exact Reads.expectLit (by decide) (reads_upToBrace choice_aliasCmd (by decide) (by decide)
    fun cmds => reads_pure (by rw [List.map_id]; rfl))

end

end Grammar

end Hexabus.Hbc
