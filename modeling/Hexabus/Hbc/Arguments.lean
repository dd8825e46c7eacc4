import Hexabus.Hbc.ReadBlocks

/-!
# Arguments of instances

Where an instance is given a name, a constant is tried first. What a name is read as there
depends on its first characters: it is taken for a constant, or for the name it is, or a part of
it is taken and the parse ends behind that part. So a program is accepted under other names, and
read as the same program with these names, exactly if its arguments are read alike.
-/

namespace Hexabus.Hbc

open Lib.Expectation

/-- The name of an argument that is none of the constants. -/
def InstParameterDoc.name? : InstParameterDoc → Option Identifier
  | .identifier name => some name
  | .constant _ => none

def ParsedBlock.arguments : ParsedBlock → List Identifier
  | .instantiationDoc doc => doc.parameters.filterMap InstParameterDoc.name?
  | _ => []

/-- The names that instances are given. -/
def argumentsOf (blocks : List ParsedBlock) : List Identifier :=
  blocks.flatMap ParsedBlock.arguments

namespace Grammar

open Parser

/-! ## Names as arguments -/

/-- The number that a text is, where it is all of it. -/
def wholeUint (digits : Text) : Option UInt32 :=
  if digits ≠ [] && digits.all Char.isDigit && decimal digits < 2 ^ 32 then
    some (UInt32.ofNat (decimal digits))
  else none

/-- What a name is read as in the place of an argument, in the order in which the alternatives
are tried. It is read as nothing where a constant takes a part of it. -/
def asArgument (floatValue : Text → UInt32) (x : Identifier) : Option InstParameterDoc :=
  match specialText x.val with
  | some w => if w = x.val then some (.constant (.float (floatValue w))) else none
  | none =>
    if ['i'].isPrefixOf x.val then
      (wholeUint (x.val.drop 1)).map fun value => .constant (.uint value)
    else if "true".toList.isPrefixOf x.val || "false".toList.isPrefixOf x.val then
      if x.val = "true".toList || x.val = "false".toList then some (.constant (.placeholder []))
      else none
    else some (.identifier x)

section
variable {floatValue : Text → UInt32} {x : Identifier} {g s u w : Text}

/-! ## Numbers in front of a name -/

theorem length_of_beginsWith (h : beginsWith w u = true) : w.length ≤ u.length := by
  have hmap : (u.take w.length).map Char.toLower = w := of_decide_eq_true h
  have hlength := congrArg List.length hmap
  rw [List.length_map, List.length_take] at hlength
  omega

theorem beginsWith_append (hw : w.all identifierRest = true) (hs : Apart s) (u : Text) :
    beginsWith w (u ++ s) = beginsWith w u := by
  cases h : beginsWith w u with
  | false => exact beginsWith_of_apart hw hs h
  | true =>
    rw [← h, beginsWith, beginsWith, List.take_append_of_le_length (length_of_beginsWith h)]

/-- No bracket is in front of the rest of a name, or of what is behind it. -/
theorem head_ne_bracket (x : Identifier) (k : Nat) (hs : Written.Ends s) :
    (x.val.drop k ++ s).head? ≠ some '(' := by
  intro h
  cases hdrop : x.val.drop k with
  | nil =>
    rw [hdrop, List.nil_append] at h
    rw [Written.Ends, h] at hs
    exact absurd hs (by decide)
  | cons c u =>
    rw [hdrop] at h
    obtain rfl : c = '(' := Option.some.inj h
    have hmem : '(' ∈ x.val := List.mem_of_mem_drop (hdrop ▸ List.mem_cons_self)
    exact absurd (Identifier.mem hmem) (by decide)

theorem specialText_nan (h : beginsWith "nan".toList u = true)
    (hbracket : (u.drop 3).head? ≠ some '(') : specialText u = some (u.take 3) := by
  rw [specialText, if_pos h]
  split
  · rename_i t hdrop
    rw [hdrop] at hbracket
    exact absurd rfl hbracket
  · rfl

theorem specialText_inf (hnan : beginsWith "nan".toList u = false)
    (h : beginsWith "inf".toList u = true) :
    specialText u = some (u.take (if beginsWith "inity".toList (u.drop 3) then 8 else 3)) := by
  rw [specialText, if_neg (by rw [hnan]; decide), if_pos h]

/-- What a number takes of a name does not depend on what is behind the name. -/
theorem specialText_append (x : Identifier) (hs : Written.Ends s) :
    specialText (x.val ++ s) = specialText x.val := by
  have hapart := Apart.of_ends hs
  have hnan := beginsWith_append (w := "nan".toList) (by decide) hapart x.val
  have hinf := beginsWith_append (w := "inf".toList) (by decide) hapart x.val
  by_cases h : beginsWith "nan".toList x.val = true
  · have hlength : 3 ≤ x.val.length := length_of_beginsWith h
    have hdrop : (x.val ++ s).drop 3 = x.val.drop 3 ++ s := List.drop_append_of_le_length hlength
    rw [specialText_nan (hnan.trans h) (hdrop ▸ head_ne_bracket x 3 hs),
      specialText_nan h (by simpa using head_ne_bracket (s := []) x 3 rfl),
      List.take_append_of_le_length hlength]
  rw [Bool.not_eq_true] at h
  by_cases h' : beginsWith "inf".toList x.val = true
  · have hlength : 3 ≤ x.val.length := length_of_beginsWith h'
    have hdrop : (x.val ++ s).drop 3 = x.val.drop 3 ++ s := List.drop_append_of_le_length hlength
    have hinity := beginsWith_append (w := "inity".toList) (by decide) hapart (x.val.drop 3)
    rw [specialText_inf (hnan.trans h) (hinf.trans h'), specialText_inf h h', hdrop, hinity,
      List.take_append_of_le_length]
    split
    next hall =>
      have hrest : 5 ≤ (x.val.drop 3).length := length_of_beginsWith hall
      rw [List.length_drop] at hrest
      omega
    · exact hlength
  · rw [Bool.not_eq_true] at h'
    rw [specialText, hnan, hinf, specialText, h, h']
    rfl

/-- A number takes what a name begins with. -/
theorem specialText_prefix (x : Identifier) (h : specialText x.val = some w) :
    ∃ u, x.val = w ++ u := by
  have htake : ∀ k, x.val.take k = w → ∃ u, x.val = w ++ u := fun k hk =>
    ⟨x.val.drop k, by rw [← hk, List.take_append_drop]⟩
  by_cases hnan : beginsWith "nan".toList x.val = true
  · rw [specialText_nan hnan (by simpa using head_ne_bracket (s := []) x 3 rfl)] at h
    exact htake _ (Option.some.inj h)
  · rw [Bool.not_eq_true] at hnan
    by_cases hinf : beginsWith "inf".toList x.val = true
    · rw [specialText_inf hnan hinf] at h
      exact htake _ (Option.some.inj h)
    · rw [specialText, if_neg (by rw [hnan]; decide), if_neg hinf] at h
      cases h

/-- On a name, a number is one of the special ones. -/
theorem floatText_name (x : Identifier) (hs : Written.Ends s) :
    floatText (x.val ++ s) = specialText x.val := by
  obtain ⟨c, cs, hx, hc, -⟩ := Identifier.parts x
  have hne : ∀ d, identifierStart d = false → c ≠ d := by
    rintro d hd rfl
    rw [hc] at hd
    exact absurd hd (by decide)
  have hdigit := not_isDigit_of_identifierStart hc
  rw [← specialText_append x hs, hx, List.cons_append]
  have hsign : signText (c :: (cs ++ s)) = [] := by
    rw [signText.eq_3]
    · rintro t ⟨rfl, -⟩
      exact hne '+' (by decide) rfl
    · rintro t ⟨rfl, -⟩
      exact hne '-' (by decide) rfl
  cases hspecial : specialText (c :: (cs ++ s)) with
  | none =>
    exact floatText_eq_none ⟨hne '+' (by decide), hne '-' (by decide), hne '.' (by decide)⟩ hdigit
      hspecial
  | some w =>
    have hwhole : (c :: (cs ++ s)).takeWhile Char.isDigit = [] :=
      List.takeWhile_cons_of_neg (by simp [hdigit])
    rw [floatText, hsign, List.length_nil, List.drop_zero, unsignedText, hwhole]
    simp [hspecial]

/-! ## Constants in front of a name -/

theorem feeds_part (hx : x.val = w ++ u) : feeds w = 0 := by
  have hfeeds := Identifier.feeds x
  rw [hx, feeds, List.count_append] at hfeeds
  exact (Nat.add_eq_zero_iff.mp hfeeds).1

theorem head_ne_sign (x : Identifier) (s : Text) : (x.val ++ s).head? ≠ some '$' := by
  obtain ⟨c, cs, hx, hc, -⟩ := Identifier.parts x
  rw [hx]
  intro hsign
  rw [Option.some.inj hsign] at hc
  exact absurd hc (by decide)

theorem fails_placeholder_name (hg : Gap g) (x : Identifier) (s : Text) :
    Fails placeholder (g ++ (x.val ++ s)) :=
  fails_placeholder hg (solid_append (Identifier.solid x) s) (head_ne_sign x s)

theorem constant_special (hg : Gap g) (hs : Written.Ends s) (h : specialText x.val = some w)
    (hx : x.val = w ++ u) (n : Nat) :
    constant floatValue ⟨n, g ++ (x.val ++ s)⟩ =
      .ok (.float (floatValue w)) ⟨n + feeds g, u ++ s⟩ := by
  have hsolid := solid_append (Identifier.solid x) s
  have hfloat : bareFloat ⟨n + feeds g, x.val ++ s⟩ = .ok w ⟨n + feeds g, u ++ s⟩ := by
    simp only [bareFloat, floatText_name x hs, h]
    rw [hx, List.append_assoc, List.drop_left, Position.advance_append, feeds_part hx,
      Nat.add_zero]
  rw [constant, orElse_of_fails (fails_bind (fails_placeholder_name hg x s))]
  refine orElse_of_ok ?_
  rw [skipped_bind hg hsolid, bind_apply, hfloat]
  rfl

/-- Behind the number alternative. -/
theorem constant_noSpecial (hg : Gap g) (hs : Written.Ends s) (h : specialText x.val = none)
    (n : Nat) : constant floatValue ⟨n, g ++ (x.val ++ s)⟩ =
      ((do word "i"; let value ← expect uint; return ConstantDoc.uint value)
        <|> (do word "true"; return .placeholder [])
        <|> (do word "false"; return .placeholder []) : Parser ConstantDoc)
      ⟨n, g ++ (x.val ++ s)⟩ := by
  rw [constant, orElse_of_fails (fails_bind (fails_placeholder_name hg x s)),
    orElse_of_fails (fails_float hg (solid_append (Identifier.solid x) s)
      ((floatText_name x hs).trans h))]

/-- Digits are taken as a number that fits, and nothing else is. -/
theorem uint_digits {digits t : Text} (hdigits : digits.all Char.isDigit = true)
    (ht : (t.head?.all fun c => !c.isDigit) = true) (hsolid : solid (digits ++ t) = true)
    (n : Nat) : uint ⟨n, digits ++ t⟩ =
      if digits ≠ [] && decimal digits < 2 ^ 32 then
        .ok (UInt32.ofNat (decimal digits)) ⟨n, t⟩
      else .fail := by
  have hfeeds : feeds digits = 0 := feeds_of_all (by decide) hdigits
  have hskip := skipped_bind (g := []) .nil hsolid
    (do let w ← run Char.isDigit
        holds (w ≠ [] && decimal w < 2 ^ 32)
        return UInt32.ofNat (decimal w)) n
  refine hskip.trans ?_
  rw [bind_apply, run_append hdigits ht, andThen_ok, bind_apply, holds]
  split
  · rw [hfeeds]
    rfl
  · rfl

/-! ## A name that is read -/

theorem instParameter_constant {here after : Position} {c : ConstantDoc}
    (h : constant floatValue here = .ok c after) :
    instParameter floatValue here = .ok (.constant c) after := by
  refine orElse_of_ok ?_
  rw [bind_apply, h]
  rfl

/-- The characters behind the first part of a name. -/
theorem rest_of_parts (hx : x.val = w ++ u) : u.all identifierRest = true := by
  rw [List.all_eq_true]
  intro c hc
  exact Identifier.mem (hx ▸ List.mem_append_right w hc)

theorem exists_of_isPrefixOf (h : w.isPrefixOf x.val = true) : ∃ u, x.val = w ++ u := by
  obtain ⟨u, hu⟩ := List.isPrefixOf_iff_prefix.mp h
  exact ⟨u, hu.symm⟩

/-- The word is taken, whatever stands behind it. -/
theorem constant_word (hg : Gap g) (hs : Written.Ends s) (h : specialText x.val = none)
    (hw : w = "true".toList ∨ w = "false".toList) (hx : x.val = w ++ u) (n : Nat) :
    constant floatValue ⟨n, g ++ (x.val ++ s)⟩ = .ok (.placeholder []) ⟨n + feeds g, u ++ s⟩ := by
  have hi : Fails (do word "i"; let value ← expect uint; return ConstantDoc.uint value)
      (g ++ (w ++ (u ++ s))) := by
    rcases hw with rfl | rfl
    · exact fails_bind (fails_lit rfl rfl ⟨g, _, hg, rfl⟩)
    · exact fails_bind (fails_lit rfl rfl ⟨g, _, hg, rfl⟩)
  rw [constant_noSpecial hg hs h, hx, List.append_assoc, orElse_of_fails hi]
  rcases hw with rfl | rfl
  · exact orElse_of_ok (lit_bind (by decide) hg _ n)
  · have htrue : Fails (do word "true"; return ConstantDoc.placeholder [])
        (g ++ ("false".toList ++ (u ++ s))) := fails_bind (fails_lit rfl rfl ⟨g, _, hg, rfl⟩)
    rw [orElse_of_fails htrue]
    exact lit_bind (by decide) hg _ n

/-- Behind `i`, a number is expected. -/
theorem constant_i (hg : Gap g) (hs : Written.Ends s) (h : specialText x.val = none)
    (hx : x.val = ['i'] ++ u) (n : Nat) :
    constant floatValue ⟨n, g ++ (x.val ++ s)⟩ =
      (expect uint >>= fun value => pure (ConstantDoc.uint value)) ⟨n + feeds g, u ++ s⟩ := by
  have hlit : (do word "i"; let value ← expect uint; return ConstantDoc.uint value)
      ⟨n, g ++ (x.val ++ s)⟩ =
        (expect uint >>= fun value => pure (ConstantDoc.uint value)) ⟨n + feeds g, u ++ s⟩ := by
    rw [hx, List.append_assoc]
    exact lit_bind (by decide) hg _ n
  rw [constant_noSpecial hg hs h]
  show Parser.orElse _ _ _ = _
  rw [Parser.orElse, hlit, bind_apply, expect]
  cases uint ⟨n + feeds g, u ++ s⟩ with
  | ok value after => rfl
  | fail => rfl
  | error => rfl

/-- Behind `i`, a number that is all of the rest. -/
theorem uint_whole {value : UInt32} (hs : Written.Ends s) (h : wholeUint u = some value) (n : Nat) :
    uint ⟨n, u ++ s⟩ = .ok value ⟨n, s⟩ := by
  unfold wholeUint at h
  split at h
  next hholds =>
    cases h
    simp only [Bool.and_eq_true, decide_eq_true_eq] at hholds
    obtain ⟨⟨hne, hall⟩, hlt⟩ := hholds
    obtain ⟨c, cs, rfl⟩ := List.exists_cons_of_ne_nil hne
    have hc : c.isDigit = true := List.all_eq_true.mp hall c List.mem_cons_self
    have hsolid : solid (c :: cs ++ s) = true :=
      solid_append (solid_cons (notMem_gapChars (p := Char.isDigit) (by decide) hc) cs) s
    rw [uint_digits hall (noDigit_of_ends hs) hsolid, decide_eq_true hne, decide_eq_true hlt]
    rfl
  · cases h

/-- A name that no constant begins like. -/
theorem fails_constant_plain (hg : Gap g) (hs : Written.Ends s) (h : specialText x.val = none)
    (hi : ¬ ['i'].isPrefixOf x.val = true)
    (hwords : ¬ ("true".toList.isPrefixOf x.val || "false".toList.isPrefixOf x.val) = true) :
    Fails (constant floatValue) (g ++ (x.val ++ s)) := by
  rw [Bool.or_eq_true, not_or, Bool.not_eq_true, Bool.not_eq_true] at hwords
  rw [Bool.not_eq_true] at hi
  have hapart := Apart.of_ends hs
  refine fails_constant hg (solid_append (Identifier.solid x) s) (head_ne_sign x s)
    ((floatText_name x hs).trans h) fun w hw => ?_
  simp only [List.mem_cons, List.not_mem_nil, or_false] at hw
  rcases hw with rfl | rfl | rfl
  · exact isPrefixOf_of_apart (by decide) hapart hi
  · exact isPrefixOf_of_apart (by decide) hapart hwords.1
  · exact isPrefixOf_of_apart (by decide) hapart hwords.2

/-- **A name that is read as an argument.** -/
theorem instParameter_name (hg : Gap g) (hs : Written.Ends s) {v : InstParameterDoc}
    (h : asArgument floatValue x = some v) (n : Nat) :
    instParameter floatValue ⟨n, g ++ (x.val ++ s)⟩ = .ok v ⟨n + feeds g, s⟩ := by
  unfold asArgument at h
  split at h
  next w hspecial =>
    split at h
    next hw =>
      cases h
      exact instParameter_constant (constant_special (u := []) hg hs hspecial
        (by rw [List.append_nil, hw]) n)
    · cases h
  next hspecial =>
    split at h
    next hi =>
      obtain ⟨u, hu⟩ := exists_of_isPrefixOf hi
      obtain ⟨value, hvalue, rfl⟩ := Option.map_eq_some_iff.mp h
      have hvalue : wholeUint u = some value := by rwa [hu] at hvalue
      refine instParameter_constant ((constant_i hg hs hspecial hu n).trans ?_)
      rw [bind_apply, expect, uint_whole hs hvalue]
      rfl
    next hi =>
      split at h
      next hword =>
        split at h
        next hall =>
          cases h
          rw [Bool.or_eq_true, decide_eq_true_eq, decide_eq_true_eq] at hall
          exact instParameter_constant (constant_word (u := []) hg hs hspecial hall
            (List.append_nil _).symm n)
        · cases h
      next hword =>
        cases h
        have hfails : Fails (constant floatValue) (g ++ (x.val ++ s)) :=
          fails_constant_plain hg hs hspecial hi hword
        have hname : identifier ⟨n, g ++ (x.val ++ s)⟩ = .ok x ⟨n + feeds g, s⟩ :=
          (skipped_bind hg (solid_append (Identifier.solid x) s) bareIdentifier n).trans
            (bareIdentifier_append x (Apart.of_ends hs) _)
        rw [instParameter, orElse_of_fails (fails_bind hfails), bind_apply, hname]
        rfl

/-! ## A name of which a part is taken -/

/-- What closes an argument is ahead. -/
def Closed (s : Text) : Prop := Led ",".toList s ∨ Led ")".toList s

theorem Closed.ends (h : Closed s) : Written.Ends s :=
  h.elim (ends_of_led (by decide)) (ends_of_led (by decide))

/-- The parse ends, or goes on in front of the rest of a name. -/
def Stuck {α : Type} (o : Outcome α) : Prop :=
  o = .error ∨ ∃ a n c s, o = .ok a ⟨n, c :: s⟩ ∧ identifierRest c = true

theorem stuck_ok {α : Type} {a : α} {n : Nat} {o : Outcome α} (h : o = .ok a ⟨n, u ++ s⟩)
    (hu : u.all identifierRest = true) (hne : u ≠ []) : Stuck o := by
  obtain ⟨c, cs, rfl⟩ := List.exists_cons_of_ne_nil hne
  exact .inr ⟨a, n, c, cs ++ s, h, List.all_eq_true.mp hu c List.mem_cons_self⟩

theorem Stuck.bind {α β : Type} {p : Parser α} {k : α → Parser β} {here : Position}
    (h : Stuck (p here)) (hk : ∀ a n c s, identifierRest c = true → Stuck (k a ⟨n, c :: s⟩)) :
    Stuck ((p >>= k) here) := by
  rw [bind_apply]
  rcases h with herror | ⟨a, n, c, s, hok, hc⟩
  · rw [herror]
    exact .inl rfl
  · rw [hok]
    exact hk a n c s hc

theorem Stuck.map {α β : Type} {p : Parser α} {here : Position} (h : Stuck (p here)) (f : α → β) :
    Stuck ((p >>= fun a => pure (f a)) here) :=
  h.bind fun a n c s hc => .inr ⟨f a, n, c, s, rfl, hc⟩

theorem Stuck.orElse {α : Type} {p q : Parser α} {here : Position} (h : Stuck (p here)) :
    Stuck ((p <|> q) here) := by
  have hsame : (p <|> q) here = p here := by
    show Parser.orElse p q here = _
    rw [Parser.orElse]
    rcases h with herror | ⟨a, n, c, s, hok, -⟩
    · rw [herror]
    · rw [hok]
  rwa [hsame]

theorem Stuck.expect {α : Type} {p : Parser α} {here : Position} (h : Stuck (p here)) :
    Stuck (expect p here) := by
  have hsame : Parser.expect p here = p here := by
    rw [Parser.expect]
    rcases h with herror | ⟨a, n, c, s, hok, -⟩
    · rw [herror]
    · rw [hok]
  rwa [hsame]

theorem Stuck.opt {α : Type} {p : Parser α} {here : Position} (h : Stuck (p here)) :
    Stuck (opt p here) := by
  rw [Parser.opt]
  rcases h with herror | ⟨a, n, c, s, hok, hc⟩
  · rw [herror]
    exact .inl rfl
  · rw [hok]
    exact .inr ⟨some a, n, c, s, rfl, hc⟩

/-- The parse ends where the rest of a name cannot stand. -/
theorem Stuck.error {α β : Type} {p : Parser α} {k : α → Parser β} {here : Position}
    (h : Stuck (p here)) (hk : ∀ a n c s, identifierRest c = true → k a ⟨n, c :: s⟩ = .error) :
    (p >>= k) here = .error := by
  rw [bind_apply]
  rcases h with herror | ⟨a, n, c, s, hok, hc⟩
  · rw [herror]
    rfl
  · rw [hok]
    exact hk a n c s hc

theorem Stuck.cons {α : Type} {o : Outcome (List α)} (h : Stuck o) (a : α) :
    Stuck (andThen o fun as after => .ok (a :: as) after) := by
  rcases h with rfl | ⟨as, n, c, s, rfl, hc⟩
  · exact .inl rfl
  · exact .inr ⟨a :: as, n, c, s, rfl, hc⟩

/-- Behind `i`, a number that does not match or is not all of the rest. -/
theorem uint_part (hs : Closed s) (hu : u.all identifierRest = true) (h : wholeUint u = none)
    (n : Nat) : Stuck (expect uint ⟨n, u ++ s⟩) := by
  have hfail : uint ⟨n, u ++ s⟩ = .fail → Stuck (expect uint ⟨n, u ++ s⟩) := by
    intro hfail
    rw [Parser.expect, hfail]
    exact .inl rfl
  cases u with
  | nil => exact hfail (hs.elim (fun h => fails_uint rfl rfl h n) fun h => fails_uint rfl rfl h n)
  | cons c cs =>
    have hc := List.all_eq_true.mp hu c List.mem_cons_self
    have hsolid : solid (c :: cs ++ s) = true :=
      solid_append (solid_cons (notMem_gapChars identifierRest_gapChars hc) cs) s
    -- the digits that it begins with, and the rest of it
    generalize hdigits : (c :: cs).takeWhile Char.isDigit = digits
    generalize hrest : (c :: cs).dropWhile Char.isDigit = rest
    have hsplit : c :: cs = digits ++ rest := by
      rw [← hdigits, ← hrest, List.takeWhile_append_dropWhile]
    have hall : digits.all Char.isDigit = true := by
      rw [← hdigits, List.all_eq_true]
      exact fun d hd => List.mem_takeWhile_imp hd
    have hhead : ((rest ++ s).head?.all fun c => !c.isDigit) = true := by
      cases rest with
      | nil => exact noDigit_of_ends hs.ends
      | cons d ds =>
        have hd := List.head?_dropWhile_not Char.isDigit (c :: cs)
        rw [hrest] at hd
        simpa using hd
    rw [hsplit, List.append_assoc] at hsolid
    have huint := uint_digits hall hhead hsolid n
    rw [← List.append_assoc, ← hsplit] at huint
    by_cases hholds : (decide (digits ≠ []) && decide (decimal digits < 2 ^ 32)) = true
    · rw [if_pos hholds] at huint
      have hne : rest ≠ [] := by
        rintro rfl
        rw [List.append_nil] at hsplit
        rw [hsplit, wholeUint, hall, Bool.and_true, if_pos hholds] at h
        cases h
      refine stuck_ok (u := rest) (s := s) (a := UInt32.ofNat (decimal digits)) (n := n) ?_ ?_ hne
      · rw [Parser.expect, huint]
      · rw [hsplit, List.all_append, Bool.and_eq_true] at hu
        exact hu.2
    · rw [if_neg hholds] at huint
      exact hfail huint

/-- **A name that a constant takes a part of.** -/
theorem instParameter_part (hg : Gap g) (hs : Closed s) (h : asArgument floatValue x = none)
    (n : Nat) : Stuck (instParameter floatValue ⟨n, g ++ (x.val ++ s)⟩) := by
  have hends := hs.ends
  unfold asArgument at h
  refine Stuck.orElse (Stuck.map ?_ _)
  split at h
  next w hspecial =>
    obtain ⟨u, hu⟩ := specialText_prefix x hspecial
    refine stuck_ok (constant_special hg hends hspecial hu n) (rest_of_parts hu) ?_
    rintro rfl
    rw [if_pos (by rw [hu, List.append_nil])] at h
    cases h
  next hspecial =>
    split at h
    next hi =>
      obtain ⟨u, hu⟩ := exists_of_isPrefixOf hi
      have hnone : wholeUint u = none := by
        have hnone := Option.map_eq_none_iff.mp h
        rwa [hu] at hnone
      rw [constant_i hg hends hspecial hu]
      exact (uint_part hs (rest_of_parts hu) hnone _).map _
    next hi =>
      split at h
      next hword =>
        obtain ⟨w, u, hw, hu⟩ : ∃ w u, (w = "true".toList ∨ w = "false".toList) ∧
            x.val = w ++ u := by
          rcases (Bool.or_eq_true _ _).mp hword with hword | hword
          · obtain ⟨u, hu⟩ := exists_of_isPrefixOf hword
            exact ⟨_, u, .inl rfl, hu⟩
          · obtain ⟨u, hu⟩ := exists_of_isPrefixOf hword
            exact ⟨_, u, .inr rfl, hu⟩
        refine stuck_ok (constant_word hg hends hspecial hw hu n) (rest_of_parts hu) ?_
        rintro rfl
        rw [List.append_nil] at hu
        rw [if_pos (by rcases hw with rfl | rfl <;> rw [hu] <;> decide)] at h
        cases h
      · cases h

end

/-! ## Arguments that are read -/

section
variable (floatValue : Text → UInt32) (r : Identifier → Identifier)

/-- An argument, as it is read under other names. -/
def readArgument : InstParameterDoc → InstParameterDoc
  | .constant value => .constant value
  | .identifier x => (asArgument floatValue (r x)).getD (.identifier (r x))

/-- The name is read as an argument under its other name. -/
def Readable (x : Identifier) : Prop := asArgument floatValue (r x) ≠ none

instance (x : Identifier) : Decidable (Readable floatValue r x) :=
  inferInstanceAs (Decidable (asArgument floatValue (r x) ≠ none))

end

section
variable {floatValue : Text → UInt32} {r : Identifier → Identifier} {m : Nat} {s : Text}

theorem reads_readable : Reads (spelled r) m (instParameter floatValue)
    (Written.instParameter floatValue (Readable floatValue r)) Written.Ends
    (readArgument floatValue r) := by
  have hconstant : Reads (spelled r) m
      (constant floatValue >>= fun value => pure (InstParameterDoc.constant value))
      (Written.constant floatValue >>= fun value => pure (InstParameterDoc.constant value))
      Written.Ends (readArgument floatValue r) :=
    reads_constant.bind (fun _ => precedes_pure _ fun _ h => h) fun _ => reads_pure rfl
  refine hconstant.left.or ?_
  rintro n ps v s ⟨_, _, x, rfl, ⟨⟨_, _, _, rfl, ⟨g, hg, rfl⟩, rfl⟩, hx⟩, rfl, rfl⟩ hs _
  obtain ⟨v, hv⟩ := Option.ne_none_iff_exists'.mp hx
  have hread : readArgument floatValue r (.identifier x) = v := by
    rw [readArgument, hv, Option.getD_some]
  have hlines : lines ([.gap g hg] ++ [.name x] ++ []) = feeds g := by
    simp [lines, Piece.feeds]
  rw [hread, hlines, List.append_nil, textOf_append, textOf_singleton, textOf_singleton,
    List.append_assoc]
  exact instParameter_name hg hs hv n

/-! ## Programs with names that are allowed -/

section
variable {allowed : Identifier → Prop} {n : Nat} {ps : List (Piece Identifier)}

theorem instParameter_allowed {v : InstParameterDoc}
    (h : Written.instParameter floatValue (fun _ => True) n ps v)
    (hv : ∀ x, v.name? = some x → allowed x) :
    Written.instParameter floatValue allowed n ps v := by
  rcases h with h | ⟨qs, us, x, rfl, ⟨hx, -⟩, rfl, rfl⟩
  · exact .inl h
  · exact .inr ⟨qs, [], x, rfl, ⟨hx, hv x rfl⟩, rfl, rfl⟩

theorem instParameters_allowed {vs : List InstParameterDoc}
    (h : Written.instParameters floatValue (fun _ => True) n ps vs)
    (hvs : ∀ x ∈ vs.filterMap InstParameterDoc.name?, allowed x) :
    Written.instParameters floatValue allowed n ps vs := by
  obtain ⟨qs, _, v, rfl, hv, us, _, ws, rfl, hws, rfl, rfl⟩ := h
  have hmem : ∀ u ∈ v :: ws, ∀ x, u.name? = some x → allowed x := fun u hu x hx =>
    hvs x (List.mem_filterMap.mpr ⟨u, hu, hx⟩)
  have hstar : ∀ n us ws, Written.more (Written.instParameter floatValue fun _ => True) n us ws →
      (∀ u ∈ ws, ∀ x, u.name? = some x → allowed x) →
      Written.more (Written.instParameter floatValue allowed) n us ws := by
    intro n us ws h
    induction h with
    | nil => exact fun _ => .nil
    | cons ha has ih =>
      intro hall
      rw [List.forall_mem_cons] at hall
      obtain ⟨as, bs, _, rfl, hcomma, hw⟩ := ha
      exact .cons ⟨as, bs, (), rfl, hcomma, instParameter_allowed hw hall.1⟩ (ih hall.2)
  rw [List.forall_mem_cons] at hmem
  exact ⟨qs, _, v, rfl, instParameter_allowed hv hmem.1, us, _, ws, rfl, hstar _ _ _ hws hmem.2,
    rfl, rfl⟩

theorem instantiation_allowed {doc : InstantiationDoc}
    (h : Written.instantiation floatValue (fun _ => True) n ps doc)
    (hdoc : ∀ x ∈ doc.parameters.filterMap InstParameterDoc.name?, allowed x) :
    Written.instantiation floatValue allowed n ps doc := by
  obtain ⟨_, _, _, rfl, hword, _, _, _, rfl, hline, _, _, _, rfl, hname, _, _, _, rfl, hcolon,
    _, _, _, rfl, hclass, _, _, _, rfl, hopen, _, _, parameters, rfl, hparameters, hclose⟩ := h
  refine ⟨_, _, _, rfl, hword, _, _, _, rfl, hline, _, _, _, rfl, hname, _, _, _, rfl, hcolon,
    _, _, _, rfl, hclass, _, _, _, rfl, hopen, _, _, parameters, rfl, ?_, hclose⟩
  obtain ⟨_, _, _, rfl, -, _, _, _, rfl, -, rfl, rfl⟩ := hclose
  rcases hparameters with hnone | ⟨vs, rfl, hvs⟩
  · exact .inl hnone
  · exact .inr ⟨vs, rfl, instParameters_allowed hvs hdoc⟩

theorem block_allowed {block : ParsedBlock}
    (h : Written.block floatValue (fun _ => True) n ps block)
    (hblock : ∀ x ∈ block.arguments, allowed x) : Written.block floatValue allowed n ps block := by
  rcases h with h | h | h | h | h | ⟨qs, _, doc, rfl, hdoc, rfl, rfl⟩
  · exact .inl h
  · exact .inr (.inl h)
  · exact .inr (.inr (.inl h))
  · exact .inr (.inr (.inr (.inl h)))
  · exact .inr (.inr (.inr (.inr (.inl h))))
  · exact .inr (.inr (.inr (.inr (.inr ⟨qs, [], doc, rfl, instantiation_allowed hdoc hblock,
      rfl, rfl⟩))))

theorem blocks_allowed {blocks : List ParsedBlock}
    (h : Language.Star (Written.block floatValue fun _ => True) n ps blocks)
    (hblocks : ∀ x ∈ argumentsOf blocks, allowed x) :
    Language.Star (Written.block floatValue allowed) n ps blocks := by
  induction h with
  | nil => exact .nil
  | cons hblock _ ih =>
    rw [argumentsOf, List.flatMap_cons, List.forall_mem_append] at hblocks
    exact .cons (block_allowed hblock hblocks.1) (ih hblocks.2)

end

/-! ## Where the parse ends -/

section
variable {n : Nat} {ps : List (Piece Identifier)}

/-- The rest of a name is no sign. -/
theorem fails_lit_rest {c d : Char} {w : Text} (hc : identifierRest c = true)
    (hd : identifierRest d = false) : Fails (lit (d :: w)) (c :: s) := by
  have hne : d ≠ c := by
    rintro rfl
    rw [hc] at hd
    cases hd
  refine fails_isPrefixOf .nil (solid_cons (notMem_gapChars identifierRest_gapChars hc) s) ?_
  rw [List.isPrefixOf, beq_false_of_ne hne, Bool.false_and]

theorem more_rest {c : Char} (hc : identifierRest c = true) (n k : Nat) :
    starFrom (do word ","; expect (instParameter floatValue)) k ⟨n, c :: s⟩ =
      .ok [] ⟨n, c :: s⟩ := by
  cases k with
  | zero => rfl
  | succ k =>
    have hfails : Fails (do word ","; expect (instParameter floatValue)) (c :: s) :=
      fails_bind (fails_lit_rest hc (by decide))
    rw [starFrom, hfails]

theorem stuck_instParameter {v : InstParameterDoc} {x : Identifier}
    (h : Written.instParameter floatValue (fun _ => True) n ps v) (hx : v.name? = some x)
    (hbad : ¬ Readable floatValue r x) (hs : Closed s) (l : Nat) :
    Stuck (instParameter floatValue ⟨l, textOf (spelled r) ps ++ s⟩) := by
  rcases h with ⟨_, _, _, -, -, -, rfl⟩ | ⟨_, _, y, rfl, ⟨⟨_, _, _, rfl, ⟨g, hg, rfl⟩, rfl⟩, -⟩, rfl, rfl⟩
  · cases hx
  · cases hx
    rw [List.append_nil, textOf_append, textOf_singleton, textOf_singleton, List.append_assoc]
    exact instParameter_part hg hs (not_not.mp hbad) l

/-- In front of the further arguments is what closes the first one. -/
theorem closed_more {α : Type} {L : Language Identifier α} {vs : List α}
    (h : Written.more L n ps vs) (hs : Closed s) : Closed (textOf (spelled r) ps ++ s) :=
  precedes_star (F := Closed) (G := Closed) ((precedes_word_bind _ _).mono fun _ h => .inl h)
    (fun _ h => h) n ps vs s h hs

/-- Where the first argument is read, it is a later one that is not. -/
theorem unread_of_cons {v : InstParameterDoc} {vs : List InstParameterDoc}
    (hbad : ∃ x ∈ (v :: vs).filterMap InstParameterDoc.name?, ¬ Readable floatValue r x)
    (hread : ∀ x, v.name? = some x → Readable floatValue r x) :
    ∃ x ∈ vs.filterMap InstParameterDoc.name?, ¬ Readable floatValue r x := by
  obtain ⟨x, hx, hxbad⟩ := hbad
  obtain ⟨u, hu, hxu⟩ := List.mem_filterMap.mp hx
  rcases List.mem_cons.mp hu with rfl | hu
  · exact absurd (hread x hxu) hxbad
  · exact ⟨x, List.mem_filterMap.mpr ⟨u, hu, hxu⟩, hxbad⟩

/-- Of the further arguments, one is not read. -/
theorem stuck_more {vs : List InstParameterDoc}
    (h : Written.more (Written.instParameter floatValue fun _ => True) n ps vs)
    (hbad : ∃ x ∈ vs.filterMap InstParameterDoc.name?, ¬ Readable floatValue r x) (hs : Closed s)
    {k : Nat} (hk : (textOf (spelled r) ps ++ s).length < k) :
    Stuck (starFrom (do word ","; expect (instParameter floatValue)) k
      ⟨n, textOf (spelled r) ps ++ s⟩) := by
  induction h generalizing k with
  | nil =>
    obtain ⟨_, hx, -⟩ := hbad
    exact absurd hx List.not_mem_nil
  | @cons n _ us v vs hv hvs ih =>
    obtain ⟨k, rfl⟩ := Nat.exists_eq_succ_of_ne_zero (by omega : k ≠ 0)
    obtain ⟨qs, ws, _, rfl, hcomma, hv⟩ := hv
    have hclosed := closed_more (r := r) hvs hs
    have hlength : 0 < (textOf (spelled r) (qs ++ ws)).length := by
      obtain ⟨_, _, _, rfl, ⟨g, hg, rfl⟩, rfl⟩ := hcomma
      rw [textOf_append, textOf_append, textOf_singleton (spelled r) (.word _), List.length_append,
        List.length_append]
      exact Nat.lt_add_right _ (Nat.lt_add_left _ Nat.zero_lt_one)
    have hword : (do word ","; expect (instParameter floatValue))
        ⟨n, textOf (spelled r) (qs ++ ws) ++ (textOf (spelled r) us ++ s)⟩ =
          expect (instParameter floatValue)
            ⟨n + lines qs, textOf (spelled r) ws ++ (textOf (spelled r) us ++ s)⟩ := by
      rw [textOf_append, List.append_assoc]
      exact Reads.followed (fun m => reads_lit (by decide)) _ hcomma trivial
    rw [textOf_append, List.append_assoc] at hk ⊢
    rw [starFrom, hword]
    by_cases hread : ∀ x, v.name? = some x → Readable floatValue r x
    · -- this one is read, and a later one is not
      have hlater := unread_of_cons hbad hread
      have hfirst := (@reads_readable floatValue r _).expect (n + lines qs) ws v
        (textOf (spelled r) us ++ s) (instParameter_allowed hv hread) hclosed.ends
        (Nat.lt_succ_self _)
      have hrest := ih hlater (k := k) (by rw [List.length_append] at hk; omega)
      rw [lines_append, ← Nat.add_assoc] at hrest
      rw [hfirst]
      exact hrest.cons _
    · -- this one is not read
      push Not at hread
      obtain ⟨x, hx, hxbad⟩ := hread
      rcases (stuck_instParameter hv hx hxbad hclosed (n + lines qs)).expect with
        herror | ⟨a, l, c, u, hok, hc⟩
      · rw [herror]
        exact .inl rfl
      · rw [hok]
        exact Stuck.cons (.inr ⟨_, l, c, u, more_rest hc l k, hc⟩) a

/-- Of all arguments, one is not read. -/
theorem stuck_instParameters {vs : List InstParameterDoc}
    (h : Written.instParameters floatValue (fun _ => True) n ps vs)
    (hbad : ∃ x ∈ vs.filterMap InstParameterDoc.name?, ¬ Readable floatValue r x)
    (hs : Closed s) : Stuck (instParameters floatValue ⟨n, textOf (spelled r) ps ++ s⟩) := by
  obtain ⟨qs, _, v, rfl, hv, us, _, vs, rfl, hvs, rfl, rfl⟩ := h
  have hclosed := closed_more (r := r) hvs hs
  rw [List.append_nil, textOf_append, List.append_assoc, instParameters]
  by_cases hread : ∀ x, v.name? = some x → Readable floatValue r x
  · have hlater := unread_of_cons hbad hread
    rw [Reads.followed (fun m => reads_readable) _ (instParameter_allowed hv hread) hclosed.ends]
    exact (stuck_more hvs hlater hs (Nat.lt_succ_self _)).map _
  · push Not at hread
    obtain ⟨x, hx, hxbad⟩ := hread
    refine (stuck_instParameter hv hx hxbad hclosed n).bind fun a l c u hc => ?_
    refine Stuck.map (.inr ⟨[], l, c, u, ?_, hc⟩) _
    exact more_rest hc l _

/-- **An instance with an argument that is not read** ends the parse. -/
theorem error_instantiation {doc : InstantiationDoc}
    (h : Written.instantiation floatValue (fun _ => True) n ps doc)
    (hbad : ∃ x ∈ doc.parameters.filterMap InstParameterDoc.name?, ¬ Readable floatValue r x)
    (s : Text) : instantiation floatValue ⟨n, textOf (spelled r) ps ++ s⟩ = .error := by
  obtain ⟨qs₁, _, _, rfl, hword, qs₂, _, lineno, rfl, hline, qs₃, _, name, rfl, hname, qs₄, _, _,
    rfl, hcolon, qs₅, _, moduleclass, rfl, hclass, qs₆, _, _, rfl, hopen, qs₇, _, parameters, rfl,
    hparameters, hclose⟩ := h
  obtain ⟨qs₈, _, _, rfl, hclosing, _, _, _, rfl, -, rfl, rfl⟩ := hclose
  obtain ⟨vs, rfl, hvs⟩ : ∃ vs, parameters = some vs ∧ Written.instParameters floatValue
      (fun _ => True) _ qs₇ vs := by
    rcases hparameters with ⟨-, rfl⟩ | hvs
    · obtain ⟨_, hx, -⟩ := hbad
      exact absurd hx List.not_mem_nil
    · exact hvs
  -- what is ahead, where a name ends
  have hled : ∀ (w : String) (l : Nat) (qs : List (Piece Identifier)) (u : Text),
      Written.word w l qs () → Led w.toList (textOf (spelled r) qs ++ u) :=
    fun w l qs u hqs => precedes_word (G := fun _ => True) w.toList l qs () u hqs trivial
  simp only [textOf_append, List.append_assoc, List.append_nil]
  refine (Reads.followed (fun m => reads_lit (by decide)) _ hword trivial).trans ?_
  refine (Reads.followed (fun m => reads_linePos) _ hline
    (precedes_name_solid (G := fun _ => True) _ _ _ _ hname trivial)).trans ?_
  refine (Reads.followed (fun m => reads_name.expect) _ hname
    (apart_of_led (by decide) (hled ":" _ _ _ hcolon))).trans ?_
  refine (Reads.followed (fun m => (reads_lit (by decide)).expect) _ hcolon trivial).trans ?_
  refine (Reads.followed (fun m => reads_identifier.expect) _ hclass
    (apart_of_led (by decide) (hled "(" _ _ _ hopen))).trans ?_
  refine (Reads.followed (fun m => (reads_lit (by decide)).expect) _ hopen trivial).trans ?_
  refine (stuck_instParameters hvs hbad (.inr (hled ")" _ _ _ hclosing))).opt.error
    fun a l c u hc => ?_
  exact errors_bind (errors_expect (fails_lit_rest hc (by decide))) l

/-- A block that is not read. -/
theorem error_block {doc : ParsedBlock} (h : Written.block floatValue (fun _ => True) n ps doc)
    (hbad : ∃ x ∈ doc.arguments, ¬ Readable floatValue r x) (s : Text) :
    block floatValue ⟨n, textOf (spelled r) ps ++ s⟩ = .error := by
  obtain ⟨x, hx, hxbad⟩ := hbad
  rcases h with ⟨_, _, _, -, -, -, rfl⟩ | ⟨_, _, _, -, -, -, rfl⟩ | ⟨_, _, _, -, -, -, rfl⟩ |
    ⟨_, _, _, -, -, -, rfl⟩ | ⟨_, _, _, -, -, -, rfl⟩ | ⟨qs, _, doc, rfl, hdoc, rfl, rfl⟩
  iterate 5 exact absurd hx List.not_mem_nil
  have hled : Led "instance".toList (textOf (spelled r) qs ++ s) :=
    precedes_word_bind (G := fun _ => True) _ _ n qs doc s hdoc trivial
  have herror := error_instantiation hdoc ⟨x, hx, hxbad⟩ s
  have htrue : solid "instance".toList = true := by decide
  have hinclude : Fails includeRule (textOf (spelled r) qs ++ s) :=
    (choice_includeRule (r := r) (m := 0) (F := fun _ => True)).fails _ _ htrue (by decide) hled
  have hendpoint : Fails endpoint (textOf (spelled r) qs ++ s) :=
    (choice_endpoint (r := r) (m := 0) (F := fun _ => True)).fails _ _ htrue (by decide) hled
  have halias : Fails aliasRule (textOf (spelled r) qs ++ s) :=
    (choice_aliasRule (r := r) (m := 0) (F := fun _ => True)).fails _ _ htrue (by decide) hled
  have hmachine : Fails (statemachine floatValue) (textOf (spelled r) qs ++ s) :=
    (choice_statemachine (r := r) (m := 0) (F := fun _ => True)).fails _ _ htrue (by decide) hled
  have hmodule : Fails (moduleRule floatValue) (textOf (spelled r) qs ++ s) :=
    (choice_moduleRule (r := r) (m := 0) (F := fun _ => True)).fails _ _ htrue (by decide) hled
  rw [List.append_nil, block, orElse_of_fails (fails_bind hinclude),
    orElse_of_fails (fails_bind hendpoint), orElse_of_fails (fails_bind halias),
    orElse_of_fails (fails_bind hmachine), orElse_of_fails (fails_bind hmodule), bind_apply,
    herror]
  rfl

/-- **A program with an argument that is not read** is not accepted. -/
theorem error_blocks {blocks : List ParsedBlock}
    (h : Language.Star (Written.block floatValue fun _ => True) n ps blocks)
    (hbad : ∃ x ∈ argumentsOf blocks, ¬ Readable floatValue r x) {k : Nat}
    (hk : (textOf (spelled r) ps ++ s).length < k) :
    starFrom (block floatValue) k ⟨n, textOf (spelled r) ps ++ s⟩ = .error := by
  induction h generalizing k with
  | nil =>
    obtain ⟨_, hx, -⟩ := hbad
    exact absurd hx List.not_mem_nil
  | @cons n qs us block blocks hblock hblocks ih =>
    obtain ⟨k, rfl⟩ := Nat.exists_eq_succ_of_ne_zero (by omega : k ≠ 0)
    rw [textOf_append, List.append_assoc] at hk ⊢
    rw [starFrom]
    by_cases hread : ∀ x ∈ block.arguments, Readable floatValue r x
    · have hlater : ∃ x ∈ argumentsOf blocks, ¬ Readable floatValue r x := by
        obtain ⟨x, hx, hxbad⟩ := hbad
        rw [argumentsOf, List.flatMap_cons, List.mem_append] at hx
        rcases hx with hx | hx
        · exact absurd (hread x hx) hxbad
        · exact ⟨x, hx, hxbad⟩
      have hallowed := block_allowed hblock hread
      have hchoice (m : Nat) := choice_blockBy (@reads_readable floatValue r m)
      have hlength := (hchoice 0).led.proper (not_ledBy_nil (by decide)) n qs block hallowed
      rw [(hchoice _).reads n qs block _ hallowed trivial (Nat.lt_succ_self _)]
      dsimp only
      rw [ih hlater (by rw [List.length_append] at hk; omega)]
      rfl
    · push Not at hread
      rw [error_block hblock hread]

end

/-! ## Other names -/

section
variable {ps : List (Piece Identifier)} {blocks : List ParsedBlock}

theorem parse_readable (h : Written.program floatValue (fun _ => True) 1 ps blocks)
    (hread : ∀ x ∈ argumentsOf blocks, Readable floatValue r x) :
    parse floatValue (textOf (spelled r) ps) =
      some (blocks.map (ParsedBlock.renameBy r (readArgument floatValue r))) := by
  obtain ⟨qs, _, _, rfl, hblocks, _, _, _, rfl, ⟨g, hg, rfl⟩, rfl, rfl⟩ := h
  rw [textOf_append, List.append_nil, textOf_singleton]
  exact parse_starBy (fun _ => reads_readable) (blocks_allowed hblocks hread) hg

theorem parse_unreadable (h : Written.program floatValue (fun _ => True) 1 ps blocks)
    (hbad : ¬ ∀ x ∈ argumentsOf blocks, Readable floatValue r x) :
    parse floatValue (textOf (spelled r) ps) = none := by
  obtain ⟨qs, _, _, rfl, hblocks, _, _, _, rfl, ⟨g, hg, rfl⟩, rfl, rfl⟩ := h
  push Not at hbad
  have herror : star (block floatValue) ⟨1, textOf (spelled r) qs ++ g⟩ = .error :=
    error_blocks hblocks hbad (Nat.lt_succ_self _)
  rw [textOf_append, List.append_nil, textOf_singleton]
  show parse floatValue (textOf (spelled r) qs ++ g) = none
  rw [parse, start, bind_apply, herror]
  rfl

/-- Other names behind a first reading of the arguments. -/
theorem rename_renameBy (f : InstParameterDoc → InstParameterDoc) (block : ParsedBlock) :
    (block.renameBy id f).rename r = block.renameBy r fun v => (f v).rename r := by
  have hother : (∀ doc, block ≠ .instantiationDoc doc) →
      (block.renameBy id f).rename r = block.renameBy r fun v => (f v).rename r := by
    intro hno
    have hsame : ∀ r f, block.renameBy r f = block.rename r := by
      intro r f
      cases block with
      | instantiationDoc doc => exact absurd rfl (hno doc)
      | _ => rfl
    rw [hsame, hsame, ParsedBlock.rename_id hno]
  cases block with
  | instantiationDoc doc =>
    simp [ParsedBlock.renameBy, ParsedBlock.rename, InstantiationDoc.renameBy,
      InstantiationDoc.rename]
  | _ => exact hother fun doc h => by cases h

/-- Two readings of a block are the same, where they are for each argument. -/
theorem renameBy_eq_iff {f g : InstParameterDoc → InstParameterDoc}
    (hconstant : ∀ value, f (.constant value) = g (.constant value)) (block : ParsedBlock) :
    block.renameBy r f = block.renameBy r g ↔
      ∀ x ∈ block.arguments, f (.identifier x) = g (.identifier x) := by
  cases block with
  | instantiationDoc doc =>
    simp only [ParsedBlock.renameBy, InstantiationDoc.renameBy, ParsedBlock.instantiationDoc.injEq,
      InstantiationDoc.mk.injEq, true_and, and_true, List.map_inj_left, ParsedBlock.arguments,
      List.mem_filterMap]
    constructor
    · rintro h x ⟨v, hv, hx⟩
      cases v with
      | constant value => cases hx
      | identifier name =>
        cases hx
        exact h _ hv
    · intro h v hv
      cases v with
      | constant value => exact hconstant value
      | identifier name => exact h name ⟨_, hv, rfl⟩
  | _ => exact iff_of_true rfl fun x hx => absurd hx List.not_mem_nil

/-- The program is accepted under the other names exactly if it is, and then its tree is the tree
of the program with the other names. -/
def ReadsRenamed (floatValue : Text → UInt32) (r : Identifier → Identifier)
    (ps : List (Piece Identifier)) : Prop :=
  ((parse floatValue (textOf (spelled r) ps)).isSome ↔
      (parse floatValue (textOf (spelled id) ps)).isSome) ∧
    ∀ tree, parse floatValue (textOf (spelled id) ps) = some tree →
      parse floatValue (textOf (spelled r) ps) = some (tree.map (ParsedBlock.rename r))

/-- Under both kinds of names, an argument is not read; or all arguments are read, and each of
them as the same constant or as the name that it is. -/
def ArgumentsAlike (floatValue : Text → UInt32) (r : Identifier → Identifier)
    (blocks : List ParsedBlock) : Prop :=
  (∃ x ∈ argumentsOf blocks, asArgument floatValue x = none) ∧
      (∃ x ∈ argumentsOf blocks, asArgument floatValue (r x) = none) ∨
    ∀ x ∈ argumentsOf blocks, asArgument floatValue x ≠ none ∧
      asArgument floatValue (r x) = (asArgument floatValue x).map (InstParameterDoc.rename r)

theorem readArgument_eq_iff {x : Identifier} (hid : Readable floatValue id x)
    (hr : Readable floatValue r x) :
    readArgument floatValue r (.identifier x) =
        (readArgument floatValue id (.identifier x)).rename r ↔
      asArgument floatValue (r x) = (asArgument floatValue x).map (InstParameterDoc.rename r) := by
  obtain ⟨v, hv⟩ := Option.ne_none_iff_exists'.mp hid
  obtain ⟨w, hw⟩ := Option.ne_none_iff_exists'.mp hr
  have hv : asArgument floatValue x = some v := hv
  simp only [readArgument, id, hv, hw, Option.getD_some, Option.map_some, Option.some.injEq]

/-- **A program is read alike under other names** exactly if its arguments are. -/
theorem readsRenamed_iff (h : Written.program floatValue (fun _ => True) 1 ps blocks) :
    ReadsRenamed floatValue r ps ↔ ArgumentsAlike floatValue r blocks := by
  unfold ReadsRenamed ArgumentsAlike
  by_cases hid : ∀ x ∈ argumentsOf blocks, Readable floatValue id x
  · have hread : ¬ ∃ x ∈ argumentsOf blocks, asArgument floatValue x = none :=
      fun ⟨x, hx, hnone⟩ => hid x hx hnone
    rw [parse_readable h hid]
    by_cases hr : ∀ x ∈ argumentsOf blocks, Readable floatValue r x
    · -- both are accepted, and the trees are compared argument by argument
      have hblock : ∀ block ∈ blocks, (block.renameBy r (readArgument floatValue r) =
          (block.renameBy id (readArgument floatValue id)).rename r ↔
            ∀ x ∈ block.arguments, asArgument floatValue (r x) =
              (asArgument floatValue x).map (InstParameterDoc.rename r)) := by
        intro block hblock
        have hmem : ∀ x ∈ block.arguments, x ∈ argumentsOf blocks := fun x hx =>
          List.mem_flatMap.mpr ⟨block, hblock, hx⟩
        rw [rename_renameBy]
        refine (renameBy_eq_iff ?_ block).trans (forall₂_congr fun x hx =>
          readArgument_eq_iff (hid x (hmem x hx)) (hr x (hmem x hx)))
        exact fun value => rfl
      rw [parse_readable h hr]
      simp only [Option.isSome_some, true_and, Option.some.injEq, forall_eq', hread, false_and,
        false_or, List.map_map, List.map_inj_left, Function.comp_apply]
      constructor
      · intro htree x hx
        obtain ⟨block, hmem, hx'⟩ := List.mem_flatMap.mp hx
        exact ⟨hid x hx, (hblock block hmem).mp (htree block hmem) x hx'⟩
      · intro halike block hmem
        exact (hblock block hmem).mpr fun x hx =>
          (halike x (List.mem_flatMap.mpr ⟨block, hmem, hx⟩)).2
    · -- only the program itself is accepted
      rw [parse_unreadable h hr]
      refine iff_of_false (fun hall => ?_) (not_or.mpr ⟨fun hboth => hread hboth.1, fun hall => ?_⟩)
      · exact absurd (hall.1.mpr rfl) Bool.false_ne_true
      · refine hr fun x hx hnone => ?_
        obtain ⟨hne, halike⟩ := hall x hx
        rw [hnone] at halike
        exact hne (Option.map_eq_none_iff.mp halike.symm)
  · have hunread : ∃ x ∈ argumentsOf blocks, asArgument floatValue x = none := by
      push Not at hid
      obtain ⟨x, hx, hbad⟩ := hid
      exact ⟨x, hx, not_not.mp hbad⟩
    rw [parse_unreadable h hid]
    by_cases hr : ∀ x ∈ argumentsOf blocks, Readable floatValue r x
    · -- only the program with the other names is accepted
      rw [parse_readable h hr]
      refine iff_of_false (fun hall => ?_) (not_or.mpr ⟨fun hboth => ?_, fun hall => ?_⟩)
      · exact absurd (hall.1.mp rfl) Bool.false_ne_true
      · obtain ⟨x, hx, hnone⟩ := hboth.2
        exact hr x hx hnone
      · exact hid fun x hx => (hall x hx).1
    · rw [parse_unreadable h hr]
      push Not at hr
      obtain ⟨x, hx, hbad⟩ := hr
      exact iff_of_true ⟨Iff.rfl, fun tree htree => by cases htree⟩
        (.inl ⟨hunread, x, hx, not_not.mp hbad⟩)

end

end

/-- Arguments that are read as names under both kinds of names. -/
theorem led_underscored : ReadsRenamed (fun _ => 0) underscored
    (instanceOf ⟨"lamp".toList, rfl⟩ ⟨"blink".toList, rfl⟩ ⟨"led".toList, rfl⟩) :=
  (readsRenamed_iff (instanceOf_written trivial)).mpr (.inr (by decide))

/-- `input` in the place of `led`. -/
def inputForLed : Identifier → Identifier :=
  Equiv.swap ⟨"led".toList, rfl⟩ ⟨"input".toList, rfl⟩

/-- An argument that begins like a constant ends the parse. -/
theorem input_not_read : Function.Injective inputForLed ∧
    Written.program (fun _ => 0) (fun _ => True) 1
      (instanceOf ⟨"lamp".toList, rfl⟩ ⟨"blink".toList, rfl⟩ ⟨"led".toList, rfl⟩)
      [.instantiationDoc
        { lineno := 1
          name := ⟨"lamp".toList, rfl⟩
          moduleclass := ⟨"blink".toList, rfl⟩
          parameters := [.identifier ⟨"led".toList, rfl⟩]
          readFromFile := [] }] ∧
    ¬ ReadsRenamed (fun _ => 0) inputForLed
      (instanceOf ⟨"lamp".toList, rfl⟩ ⟨"blink".toList, rfl⟩ ⟨"led".toList, rfl⟩) := by
  refine ⟨Equiv.injective _, instanceOf_written trivial, fun h => ?_⟩
  have hprogram := @instanceOf_written ⟨"lamp".toList, rfl⟩ ⟨"blink".toList, rfl⟩
    ⟨"led".toList, rfl⟩ (fun _ => True) trivial
  have hread := parse_readable (r := id) hprogram (by decide)
  have hunread := parse_unreadable (r := inputForLed) hprogram (by decide)
  have hsome := h.1.mpr (by rw [hread]; rfl)
  rw [hunread] at hsome
  exact absurd hsome Bool.false_ne_true

end Grammar

end Hexabus.Hbc
