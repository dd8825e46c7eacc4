import Hexabus.Host.DeviceListing

/-!
# The strings in the listing

`json_string_writer` escapes quotes and some control characters, and leaves backslashes alone.
What a reader of JSON makes of the text between the quotes is computed from the string itself.
-/

namespace Hexabus.Host.Hexinfo

open Lib.Json

/-! ## What the text of a string denotes -/

/-- A character after a backslash, neither of which begins a code unit. The characters that are
written with a backslash of their own end up as an escaped backslash and a letter; a quote
ends the string. -/
def afterBackslash (d : UInt8) : Option (List Element) :=
  if d = 0x22 then none
  else if d = 0x0A then some [.octet 0x5C, .octet 0x6E]
  else if d = 0x0D then some [.octet 0x5C, .octet 0x72]
  else if d = 0x09 then some [.octet 0x5C, .octet 0x74]
  else if d = 0x0B then some [.octet 0x5C, .octet 0x76]
  else (escaped d).map fun c => [.octet c]

/-- The code unit that four digits spell. -/
def codeUnit (h₁ h₂ h₃ h₄ : UInt8) : Option Element :=
  (hexDigit h₁).bind fun d₁ => (hexDigit h₂).bind fun d₂ => (hexDigit h₃).bind fun d₃ =>
    (hexDigit h₄).map fun d₄ => .codeUnit (Nat.ofDigits 16 [d₄, d₃, d₂, d₁])

/-- What the text of a string denotes from some character on, if it is the text of a string at
all. -/
def denotedFrom : Utf8 → List UInt8 → Option (List Element)
  | u, [] => if u = .boundary then some [] else none
  | u, c :: str =>
    if c = 0x5C then
      if u = .boundary then
        match str with
        | [] => none
        | d :: str =>
          if d = 0x75 then
            match str with
            | h₁ :: h₂ :: h₃ :: h₄ :: str =>
              (codeUnit h₁ h₂ h₃ h₄).bind fun unit =>
                (denotedFrom .boundary str).map fun elements => unit :: elements
            | _ => none
          else
            (afterBackslash d).bind fun first =>
              (denotedFrom .boundary str).map fun elements => first ++ elements
      else none
    else if c = 0x22 ∨ c = 0x0A ∨ c = 0x0D ∨ c = 0x09 then
      if u = .boundary then
        (denotedFrom .boundary str).map fun elements => .octet c :: elements
      else none
    else if c < 0x20 then none
    else (u.step c).bind fun u => (denotedFrom u str).map fun elements => .octet c :: elements

/-- What is written for a string is the text of a string. -/
def Readable (str : List UInt8) : Prop := (denotedFrom .boundary str).isSome

instance (str : List UInt8) : Decidable (Readable str) :=
  inferInstanceAs (Decidable (_ = true))

/-- The string that is read back. -/
def denoted (str : List UInt8) : List UInt8 := octets ((denotedFrom .boundary str).getD [])

/-! ## The text of one character -/

/-- The characters that are written with a backslash, and stand for themselves. -/
def IsEscaped (c : UInt8) : Prop := c = 0x22 ∨ c = 0x0A ∨ c = 0x0D ∨ c = 0x09

theorem jsonCharacter_plain {c : UInt8} (h : ¬ IsEscaped c) (hv : c ≠ 0x0B) :
    jsonCharacter c = [c] := by
  unfold jsonCharacter
  rw [if_neg fun hc => h (.inl hc), if_neg fun hc => h (.inr (.inl hc)),
    if_neg fun hc => h (.inr (.inr (.inl hc))), if_neg fun hc => h (.inr (.inr (.inr hc))),
    if_neg hv]

theorem jsonCharacter_escaped {c : UInt8} (h : IsEscaped c) :
    ∃ letter, jsonCharacter c = [0x5C, letter] ∧ letter ≠ 0x75 ∧ escaped letter = some c := by
  rcases h with rfl | rfl | rfl | rfl
  · exact ⟨0x22, rfl, by decide, rfl⟩
  · exact ⟨0x6E, rfl, by decide, rfl⟩
  · exact ⟨0x72, rfl, by decide, rfl⟩
  · exact ⟨0x74, rfl, by decide, rfl⟩

/-- A character is written as it is, or begins with a backslash. -/
theorem jsonCharacter_cases (c : UInt8) :
    (jsonCharacter c = [c] ∧ c ≠ 0x22) ∨
      (∃ letter, jsonCharacter c = [0x5C, letter]) ∧ hexDigit c = none := by
  by_cases h : IsEscaped c
  · obtain ⟨letter, heq, -⟩ := jsonCharacter_escaped h
    refine .inr ⟨⟨letter, heq⟩, ?_⟩
    rcases h with rfl | rfl | rfl | rfl <;> rfl
  · by_cases hv : c = 0x0B
    · subst hv
      exact .inr ⟨⟨0x76, rfl⟩, rfl⟩
    · exact .inl ⟨jsonCharacter_plain h hv, fun hc => h (.inl hc)⟩

theorem json_cons (c : UInt8) (str : List UInt8) : json (c :: str) = jsonCharacter c ++ json str :=
  List.flatMap_cons

/-- What follows the text of each string. -/
def closing : List UInt8 := ascii "\",\n"

/-! ## The reader outside of strings -/

/-- No string is open. -/
def Outside (r : Reader) : Prop := r.mode = .between ∨ ∃ bytes, r.mode = .word bytes

theorem step_of_not_isWord {r : Reader} (h : Outside r) {b : UInt8} (hb : isWord b = false) :
    r.step b = r.outside b := by
  obtain ⟨ts, mode⟩ := r
  rcases h with heq | ⟨bytes, heq⟩
  · cases heq
    exact if_neg (by rw [hb]; decide)
  · cases heq
    exact if_neg (by rw [hb]; decide)

theorem outside_backslash (r : Reader) : r.outside 0x5C = none := by
  unfold Reader.outside
  cases r.closed with
  | none => rfl
  | some tokens => rfl

/-- Only a quote opens a string. -/
theorem outside_of_step {r r' : Reader} (h : Outside r) {b : UInt8} (hb : b ≠ 0x22)
    (hstep : r.step b = some r') : Outside r' := by
  by_cases hword : isWord b = true
  · obtain ⟨ts, mode⟩ := r
    rcases h with heq | ⟨bytes, heq⟩
    · cases heq
      cases (if_pos hword).symm.trans hstep
      exact .inr ⟨_, rfl⟩
    · cases heq
      cases (if_pos hword).symm.trans hstep
      exact .inr ⟨_, rfl⟩
  · rw [step_of_not_isWord h (eq_false_of_ne_true hword)] at hstep
    obtain ⟨tokens, -, hstep⟩ := Option.bind_eq_some_iff.mp hstep
    split at hstep
    · cases hstep
      exact .inl rfl
    · obtain ⟨token, -, rfl⟩ := Option.map_eq_some_iff.mp hstep
      exact .inl rfl

/-- Outside of a string the rest of its text is refused: at a backslash, or in the line that the
closing quote opens as a string. -/
theorem run_outside (str : List UInt8) (r : Reader) (h : Outside r) :
    r.run (json str ++ closing) = none := by
  induction str generalizing r with
  | nil =>
    show (r.step 0x22).bind _ = none
    rw [step_of_not_isWord h rfl]
    unfold Reader.outside
    cases r.closed with
    | none => rfl
    | some tokens => rfl
  | cons c str ih =>
    rw [json_cons]
    rcases jsonCharacter_cases c with ⟨heq, hc⟩ | ⟨⟨letter, heq⟩, -⟩
    · rw [heq, List.singleton_append, List.cons_append, Reader.run_cons]
      cases hstep : r.step c with
      | none => rfl
      | some r' => exact ih r' (outside_of_step h hc hstep)
    · rw [heq, List.cons_append, List.cons_append, Reader.run_cons, step_of_not_isWord h rfl,
        outside_backslash, Option.bind_none]

/-! ## The reader on the text of a string -/

variable (ts : List Token) (elements : List Element)

/-- Within a character of several bytes there is no ASCII. -/
theorem step_string_within {u : Utf8} (hu : u ≠ .boundary) {b : UInt8} (hb : b < 0x80) :
    Reader.step ⟨ts, .string u elements⟩ b = none := by
  show (if b < 0x20 then none else _) = none
  split
  · rfl
  · rw [if_neg fun h => hu h.1, if_neg fun h => hu h.1, u.step_ascii hb, if_neg hu]
    rfl

theorem step_string_plain (u : Utf8) {b : UInt8} (hb : ¬ b < 0x20) (hquote : b ≠ 0x22)
    (hslash : b ≠ 0x5C) : Reader.step ⟨ts, .string u elements⟩ b =
      (u.step b).map fun u => ⟨ts, .string u (.octet b :: elements)⟩ := by
  show (if b < 0x20 then none else _) = _
  rw [if_neg hb, if_neg fun h => hquote h.2, if_neg fun h => hslash h.2]

theorem step_escape {b : UInt8} (hb : b ≠ 0x75) : Reader.step ⟨ts, .escape elements⟩ b =
    (escaped b).map fun c => ⟨ts, .string .boundary (.octet c :: elements)⟩ :=
  if_neg hb

/-- A digit of a code unit. -/
theorem run_unicode_cons (digits : List Nat) (c : UInt8) (str : List UInt8) :
    Reader.run ⟨ts, .unicode digits elements⟩ (json (c :: str) ++ closing) =
      (hexDigit c).bind fun digit => Reader.run
        (if digits.length = 3 then
          ⟨ts, .string .boundary (.codeUnit (Nat.ofDigits 16 (digit :: digits)) :: elements)⟩
        else ⟨ts, .unicode (digit :: digits) elements⟩) (json str ++ closing) := by
  rw [json_cons]
  rcases jsonCharacter_cases c with ⟨heq, -⟩ | ⟨⟨letter, heq⟩, hdigit⟩
  · rw [heq, List.singleton_append, List.cons_append, Reader.run_cons]
    show ((hexDigit c).map _).bind _ = _
    rw [Option.bind_map]
    rfl
  · rw [heq, hdigit]
    rfl

/-- Too few digits. -/
theorem run_unicode_short (str : List UInt8) (digits : List Nat)
    (h : str.length + digits.length < 4) :
    Reader.run ⟨ts, .unicode digits elements⟩ (json str ++ closing) = none := by
  induction str generalizing digits with
  | nil => rfl
  | cons c str ih =>
    rw [List.length_cons] at h
    rw [run_unicode_cons]
    cases hexDigit c with
    | none => rfl
    | some digit =>
      rw [Option.bind_some, if_neg (by omega)]
      exact ih _ (by rw [List.length_cons]; omega)

/-- A backslash in the string, and the character after it. -/
theorem run_afterBackslash {d : UInt8} (hd : d ≠ 0x75) (str : List UInt8) :
    Reader.run ⟨ts, .escape elements⟩ (json (d :: str) ++ closing) =
      (afterBackslash d).bind fun first =>
        Reader.run ⟨ts, .string .boundary (first.reverse ++ elements)⟩ (json str ++ closing) := by
  rw [json_cons]
  by_cases hescaped : IsEscaped d
  · rcases hescaped with rfl | rfl | rfl | rfl
    · -- the quote of the string is not escaped any more
      exact run_outside str _ (.inl rfl)
    · rfl
    · rfl
    · rfl
  by_cases hv : d = 0x0B
  · subst hv
    rfl
  have hfirst : afterBackslash d = (escaped d).map fun c => [.octet c] := by
    unfold afterBackslash
    rw [if_neg fun h => hescaped (.inl h), if_neg fun h => hescaped (.inr (.inl h)),
      if_neg fun h => hescaped (.inr (.inr (.inl h))),
      if_neg fun h => hescaped (.inr (.inr (.inr h))), if_neg hv]
  rw [jsonCharacter_plain hescaped hv, List.singleton_append, List.cons_append, Reader.run_cons,
    step_escape ts elements hd, hfirst, Option.bind_map, Option.bind_map]
  rfl

/-- **Strings**. The text of a string and what follows it is read as the string that it denotes,
and refused if it denotes none. -/
theorem run_denotedFrom (u : Utf8) (str : List UInt8) :
    Reader.run ⟨ts, .string u elements⟩ (json str ++ closing) =
      (denotedFrom u str).map fun new =>
        ⟨.valueSeparator :: .string (octets (elements.reverse ++ new)) :: ts, .between⟩ := by
  fun_induction denotedFrom u str generalizing elements with
  | case1 =>
    rw [Option.map_some, List.append_nil]
    rfl
  | case2 u hu =>
    show (Reader.step ⟨ts, .string u elements⟩ 0x22).bind _ = none
    rw [step_string_within ts elements hu (by decide), Option.bind_none]
  | case3 => rfl
  | case4 h₁ h₂ h₃ h₄ str ih =>
    show Reader.run ⟨ts, .unicode [] elements⟩ (json (h₁ :: h₂ :: h₃ :: h₄ :: str) ++ closing) = _
    rw [run_unicode_cons]
    unfold codeUnit
    cases hexDigit h₁ with
    | none => rfl
    | some d₁ =>
      rw [Option.bind_some, Option.bind_some, if_neg (by decide), run_unicode_cons]
      cases hexDigit h₂ with
      | none => rfl
      | some d₂ =>
        rw [Option.bind_some, Option.bind_some, if_neg (by simp), run_unicode_cons]
        cases hexDigit h₃ with
        | none => rfl
        | some d₃ =>
          rw [Option.bind_some, Option.bind_some, if_neg (by simp), run_unicode_cons]
          cases hexDigit h₄ with
          | none => rfl
          | some d₄ =>
            rw [Option.bind_some, Option.map_some, Option.bind_some, if_pos (by rfl), ih,
              Option.map_map]
            simp only [List.reverse_cons, List.append_assoc, List.singleton_append]
            rfl
  | case5 str hshort =>
    have hlength : str.length + ([] : List Nat).length < 4 := by
      match str, hshort with
      | [], _ => simp
      | [_], _ => simp
      | [_, _], _ => simp
      | [_, _, _], _ => simp
      | h₁ :: h₂ :: h₃ :: h₄ :: str, hshort => exact absurd rfl (hshort h₁ h₂ h₃ h₄ str)
    exact run_unicode_short ts elements str [] hlength
  | case6 d str hd ih =>
    show Reader.run ⟨ts, .escape elements⟩ (json (d :: str) ++ closing) = _
    rw [run_afterBackslash ts elements hd]
    cases afterBackslash d with
    | none => rfl
    | some first =>
      rw [Option.bind_some, Option.bind_some, ih, Option.map_map]
      simp only [List.reverse_append, List.reverse_reverse, List.append_assoc]
      rfl
  | case7 u str hu =>
    show (Reader.step ⟨ts, .string u elements⟩ 0x5C).bind _ = none
    rw [step_string_within ts elements hu (by decide), Option.bind_none]
  | case8 c str hc hescaped ih =>
    obtain ⟨letter, heq, hletter, hvalue⟩ := jsonCharacter_escaped hescaped
    have hbackslash : Reader.step ⟨ts, .string .boundary elements⟩ 0x5C =
        some ⟨ts, .escape elements⟩ := rfl
    rw [json_cons, heq, List.cons_append, List.cons_append, Reader.run_cons, hbackslash,
      Option.bind_some, List.singleton_append, List.cons_append, Reader.run_cons,
      step_escape ts elements hletter, hvalue, Option.map_some, Option.bind_some, ih,
      Option.map_map]
    simp only [List.reverse_cons, List.append_assoc, List.singleton_append]
    rfl
  | case9 u c str hc hescaped hu =>
    obtain ⟨letter, heq, -⟩ := jsonCharacter_escaped hescaped
    rw [json_cons, heq, List.cons_append, List.cons_append, Reader.run_cons,
      step_string_within ts elements hu (by decide)]
    rfl
  | case10 u c str hc hescaped hcontrol =>
    rw [json_cons]
    by_cases hv : c = 0x0B
    · subst hv
      show (Reader.step ⟨ts, .string u elements⟩ 0x5C).bind _ = none
      by_cases hu : u = .boundary
      · subst hu
        rfl
      · rw [step_string_within ts elements hu (by decide), Option.bind_none]
    · have hstep : Reader.step ⟨ts, .string u elements⟩ c = none := if_pos hcontrol
      rw [jsonCharacter_plain hescaped hv, List.singleton_append, List.cons_append,
        Reader.run_cons, hstep]
      rfl
  | case11 u c str hc hescaped hcontrol ih =>
    have hv : c ≠ 0x0B := by
      rintro rfl
      exact hcontrol (by decide)
    rw [json_cons, jsonCharacter_plain hescaped hv, List.singleton_append, List.cons_append,
      Reader.run_cons, step_string_plain ts elements u hcontrol (fun h => hescaped (.inl h)) hc]
    cases u.step c with
    | none => rfl
    | some u' =>
      rw [Option.map_some, Option.bind_some, Option.bind_some, ih, Option.map_map]
      simp only [List.reverse_cons, List.append_assoc, List.singleton_append]
      rfl

/-! ## Strings that are read back -/

/-- UTF-8 from some byte on, without backslashes and without other control characters than
those that are escaped. -/
structure PlainFrom (u : Utf8) (str : List UInt8) : Prop where
  utf8 : str.foldlM Utf8.step u = some .boundary
  characters : ∀ c ∈ str, c ≠ 0x5C ∧ (0x20 ≤ c ∨ c = 0x0A ∨ c = 0x0D ∨ c = 0x09)

/-- UTF-8 without backslashes and without other control characters than those that are
escaped. -/
def Plain (str : List UInt8) : Prop := PlainFrom .boundary str

theorem ascii_of_isEscaped {c : UInt8} (h : IsEscaped c) : c < 0x80 := by
  rcases h with rfl | rfl | rfl | rfl <;> decide

theorem denotedFrom_of_plainFrom {u : Utf8} {str : List UInt8} (h : PlainFrom u str) :
    denotedFrom u str = some (str.map .octet) := by
  induction str generalizing u with
  | nil => exact if_pos (Option.some.inj h.utf8)
  | cons c str ih =>
    obtain ⟨hslash, hcontrol⟩ := h.characters c List.mem_cons_self
    obtain ⟨u', hstep, hutf8⟩ := Option.bind_eq_some_iff.mp h.utf8
    have hrest := ih ⟨hutf8, fun d hd => h.characters d (List.mem_cons_of_mem c hd)⟩
    rw [denotedFrom.eq_def]
    simp only [if_neg hslash]
    by_cases hescaped : IsEscaped c
    · rw [u.step_ascii (ascii_of_isEscaped hescaped)] at hstep
      split at hstep
      · rename_i hu
        cases hstep
        unfold IsEscaped at hescaped
        rw [if_pos hescaped, if_pos hu, hrest]
        rfl
      · cases hstep
    · have hprintable : ¬ c < 0x20 := by
        rcases hcontrol with hge | hspecial
        · exact UInt8.not_lt.mpr hge
        · exact absurd (.inr hspecial) hescaped
      unfold IsEscaped at hescaped
      rw [if_neg hescaped, if_neg hprintable, hstep, Option.bind_some, hrest]
      rfl

/-- A backslash and a character denote themselves only if a character that is escaped follows,
and then another character in its place. -/
theorem octets_afterBackslash {d : UInt8} {first : List Element}
    (h : afterBackslash d = some first) (elements : List Element) :
    (∃ c, octets (first ++ elements) = c :: octets elements) ∨
      ∃ letter, letter ≠ d ∧ octets (first ++ elements) = 0x5C :: letter :: octets elements := by
  unfold afterBackslash at h
  split_ifs at h with hquote hlf hcr htab hvt
  · cases h
    exact .inr ⟨0x6E, by rw [hlf]; decide, rfl⟩
  · cases h
    exact .inr ⟨0x72, by rw [hcr]; decide, rfl⟩
  · cases h
    exact .inr ⟨0x74, by rw [htab]; decide, rfl⟩
  · cases h
    exact .inr ⟨0x76, by rw [hvt]; decide, rfl⟩
  · obtain ⟨c, -, rfl⟩ := Option.map_eq_some_iff.mp h
    exact .inl ⟨c, rfl⟩

theorem exists_codeUnit {h₁ h₂ h₃ h₄ : UInt8} {unit : Element}
    (h : codeUnit h₁ h₂ h₃ h₄ = some unit) : ∃ n, unit = .codeUnit n := by
  obtain ⟨d₁, -, h⟩ := Option.bind_eq_some_iff.mp h
  obtain ⟨d₂, -, h⟩ := Option.bind_eq_some_iff.mp h
  obtain ⟨d₃, -, h⟩ := Option.bind_eq_some_iff.mp h
  obtain ⟨d₄, -, rfl⟩ := Option.map_eq_some_iff.mp h
  exact ⟨_, rfl⟩

/-- What a string denotes is not longer than the string. -/
theorem length_octets_denotedFrom {u : Utf8} {str : List UInt8} {elements : List Element}
    (h : denotedFrom u str = some elements) : (octets elements).length ≤ str.length := by
  fun_induction denotedFrom u str generalizing elements with
  | case1 =>
    cases h
    exact le_rfl
  | case4 h₁ h₂ h₃ h₄ str ih =>
    obtain ⟨unit, hunit, h⟩ := Option.bind_eq_some_iff.mp h
    obtain ⟨rest, hrest, rfl⟩ := Option.map_eq_some_iff.mp h
    obtain ⟨n, rfl⟩ := exists_codeUnit hunit
    have hlength := length_octets_codeUnit n rest
    have hih := ih hrest
    simp only [List.length_cons]
    omega
  | case6 d str hd ih =>
    obtain ⟨first, hfirst, h⟩ := Option.bind_eq_some_iff.mp h
    obtain ⟨rest, hrest, rfl⟩ := Option.map_eq_some_iff.mp h
    have hih := ih hrest
    rcases octets_afterBackslash hfirst rest with ⟨c, heq⟩ | ⟨letter, -, heq⟩
    · rw [heq]
      simp only [List.length_cons]
      omega
    · rw [heq]
      simp only [List.length_cons]
      omega
  | case8 c str hc hescaped ih =>
    obtain ⟨rest, hrest, rfl⟩ := Option.map_eq_some_iff.mp h
    exact Nat.succ_le_succ (ih hrest)
  | case11 u c str hc hescaped hcontrol ih =>
    obtain ⟨u', hstep, h⟩ := Option.bind_eq_some_iff.mp h
    obtain ⟨rest, hrest, rfl⟩ := Option.map_eq_some_iff.mp h
    exact Nat.succ_le_succ (ih u' hrest)
  | _ => cases h

theorem PlainFrom.cons {u u' : Utf8} {c : UInt8} {str : List UInt8} (h : PlainFrom u' str)
    (hstep : u.step c = some u') (hc : c ≠ 0x5C)
    (hcontrol : 0x20 ≤ c ∨ c = 0x0A ∨ c = 0x0D ∨ c = 0x09) : PlainFrom u (c :: str) := by
  refine ⟨?_, fun d hd => ?_⟩
  · rw [List.foldlM_cons, hstep]
    exact h.utf8
  · rcases List.mem_cons.mp hd with rfl | hd
    · exact ⟨hc, hcontrol⟩
    · exact h.characters d hd

/-- A string that denotes itself has no backslash. -/
theorem plainFrom_of_denotedFrom {u : Utf8} {str : List UInt8} {elements : List Element}
    (h : denotedFrom u str = some elements) (hself : octets elements = str) :
    PlainFrom u str := by
  fun_induction denotedFrom u str generalizing elements with
  | case1 => exact ⟨rfl, nofun⟩
  | case4 h₁ h₂ h₃ h₄ str ih =>
    -- six characters cannot become four bytes at the most
    obtain ⟨unit, hunit, h⟩ := Option.bind_eq_some_iff.mp h
    obtain ⟨rest, hrest, rfl⟩ := Option.map_eq_some_iff.mp h
    obtain ⟨n, rfl⟩ := exists_codeUnit hunit
    have hlength := length_octets_codeUnit n rest
    have hle := length_octets_denotedFrom hrest
    rw [hself] at hlength
    simp only [List.length_cons] at hlength
    omega
  | case6 d str hd ih =>
    obtain ⟨first, hfirst, h⟩ := Option.bind_eq_some_iff.mp h
    obtain ⟨rest, hrest, rfl⟩ := Option.map_eq_some_iff.mp h
    rcases octets_afterBackslash hfirst rest with ⟨c, heq⟩ | ⟨letter, hletter, heq⟩
    · -- nor two characters one
      have hle := length_octets_denotedFrom hrest
      have hlength := congrArg List.length (heq.symm.trans hself)
      simp only [List.length_cons] at hlength
      omega
    · have hcons := heq.symm.trans hself
      exact absurd (List.cons.inj (List.cons.inj hcons).2).1 hletter
  | case8 c str hc hescaped ih =>
    obtain ⟨rest, hrest, rfl⟩ := Option.map_eq_some_iff.mp h
    have hstep : Utf8.step .boundary c = some .boundary := if_pos (ascii_of_isEscaped hescaped)
    refine (ih hrest (List.cons.inj hself).2).cons hstep hc ?_
    rcases hescaped with rfl | hspecial
    · exact .inl (by decide)
    · exact .inr hspecial
  | case11 u c str hc hescaped hcontrol ih =>
    obtain ⟨u', hstep, h⟩ := Option.bind_eq_some_iff.mp h
    obtain ⟨rest, hrest, rfl⟩ := Option.map_eq_some_iff.mp h
    exact (ih u' hrest (List.cons.inj hself).2).cons hstep hc (.inl (UInt8.not_lt.mp hcontrol))
  | _ => cases h

/-- **Names**. A string is read back as it is just when it is plain. -/
theorem denoted_eq_self_iff (str : List UInt8) :
    Readable str ∧ denoted str = str ↔ Plain str := by
  unfold Readable denoted Plain
  constructor
  · rintro ⟨hreadable, hself⟩
    obtain ⟨elements, heq⟩ := Option.isSome_iff_exists.mp hreadable
    rw [heq] at hself
    exact plainFrom_of_denotedFrom heq hself
  · intro h
    rw [denotedFrom_of_plainFrom h]
    exact ⟨rfl, octets_map_octet str⟩

end Hexabus.Host.Hexinfo
