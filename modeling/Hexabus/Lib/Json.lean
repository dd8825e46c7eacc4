import Hexabus.Lib.JsonTokens
import Mathlib.Data.List.Chain

/-!
# JSON values

The values of the JSON data model, the tokens that each is written with, and the reader of
values. The reader succeeds exactly on the tokens of a value, and gives that value.
-/

namespace Hexabus.Lib.Json

/-- A value. Numbers are kept as they are written, and the members of an object in their
order. -/
inductive Value where
  | null
  | bool (b : Bool)
  | number (text : List UInt8)
  | string (value : List UInt8)
  | array (elements : List Value)
  | object (members : List (List UInt8 × Value))

/-! ## The tokens of a value -/

mutual

def Value.tokens : Value → List Token
  | .null => [.null]
  | .bool b => [.bool b]
  | .number text => [.number text]
  | .string value => [.string value]
  | .array [] => [.beginArray, .endArray]
  | .array (v :: vs) => .beginArray :: (v.tokens ++ elementTokens vs)
  | .object [] => [.beginObject, .endObject]
  | .object (m :: ms) => .beginObject :: (memberToken m ++ memberTokens ms)

/-- The elements after the first one. -/
def elementTokens : List Value → List Token
  | [] => [.endArray]
  | v :: vs => .valueSeparator :: (v.tokens ++ elementTokens vs)

/-- The members after the first one. -/
def memberTokens : List (List UInt8 × Value) → List Token
  | [] => [.endObject]
  | m :: ms => .valueSeparator :: (memberToken m ++ memberTokens ms)

def memberToken : List UInt8 × Value → List Token
  | (name, v) => .string name :: .nameSeparator :: v.tokens

end

/-! ## The reader -/

mutual

/-- A value, and the tokens after it. The number bounds the depth of the calls. -/
def readValue : Nat → List Token → Option (Value × List Token)
  | 0, _ => none
  | _ + 1, .null :: ts => some (.null, ts)
  | _ + 1, .bool b :: ts => some (.bool b, ts)
  | _ + 1, .number text :: ts => some (.number text, ts)
  | _ + 1, .string value :: ts => some (.string value, ts)
  | _ + 1, .beginArray :: .endArray :: ts => some (.array [], ts)
  | n + 1, .beginArray :: ts =>
    (readValue n ts).bind fun r =>
      (readElements n r.2).map fun rs => (.array (r.1 :: rs.1), rs.2)
  | _ + 1, .beginObject :: .endObject :: ts => some (.object [], ts)
  | n + 1, .beginObject :: ts =>
    (readMember n ts).bind fun r =>
      (readMembers n r.2).map fun rs => (.object (r.1 :: rs.1), rs.2)
  | _ + 1, _ => none

def readElements : Nat → List Token → Option (List Value × List Token)
  | 0, _ => none
  | _ + 1, .endArray :: ts => some ([], ts)
  | n + 1, .valueSeparator :: ts =>
    (readValue n ts).bind fun r => (readElements n r.2).map fun rs => (r.1 :: rs.1, rs.2)
  | _ + 1, _ => none

def readMembers : Nat → List Token → Option (List (List UInt8 × Value) × List Token)
  | 0, _ => none
  | _ + 1, .endObject :: ts => some ([], ts)
  | n + 1, .valueSeparator :: ts =>
    (readMember n ts).bind fun r => (readMembers n r.2).map fun rs => (r.1 :: rs.1, rs.2)
  | _ + 1, _ => none

def readMember : Nat → List Token → Option ((List UInt8 × Value) × List Token)
  | 0, _ => none
  | n + 1, .string name :: .nameSeparator :: ts =>
    (readValue n ts).map fun r => ((name, r.1), r.2)
  | _ + 1, _ => none

end

/-- The value of a JSON text. -/
def decode (text : List UInt8) : Option Value :=
  (tokens text).bind fun ts =>
    match readValue ts.length ts with
    | some (v, []) => some v
    | _ => none

/-! ## The reader undoes the tokens -/

theorem Value.tokens_ne_endArray (v : Value) (ts more : List Token) :
    v.tokens ++ more ≠ .endArray :: ts := by
  intro h
  unfold Value.tokens at h
  split at h <;> cases h

theorem Value.tokens_ne_nil (v : Value) : v.tokens ≠ [] := by
  intro h
  unfold Value.tokens at h
  split at h <;> cases h

theorem readValue_object {n : Nat} {m : List UInt8 × Value} {more : List Token} :
    readValue (n + 1) (.beginObject :: (memberToken m ++ more)) =
      (readMember n (memberToken m ++ more)).bind fun r =>
        (readMembers n r.2).map fun rs => (.object (r.1 :: rs.1), rs.2) := by
  rw [memberToken.eq_def]
  rfl

theorem readValue_array {n : Nat} {v : Value} {more : List Token} :
    readValue (n + 1) (.beginArray :: (v.tokens ++ more)) =
      (readValue n (v.tokens ++ more)).bind fun r =>
        (readElements n r.2).map fun rs => (.array (r.1 :: rs.1), rs.2) := by
  rw [readValue]
  exact fun ts h => v.tokens_ne_endArray ts more h

mutual

theorem readValue_tokens (v : Value) (n : Nat) (ts : List Token) (h : v.tokens.length ≤ n) :
    readValue n (v.tokens ++ ts) = some (v, ts) := by
  obtain ⟨n, rfl⟩ : ∃ k, n = k + 1 :=
    Nat.exists_eq_add_one_of_ne_zero fun hn => by
      subst hn
      exact v.tokens_ne_nil (List.eq_nil_of_length_eq_zero (Nat.le_zero.mp h))
  match v with
  | .null => rfl
  | .bool b => rfl
  | .number text => rfl
  | .string value => rfl
  | .array [] => rfl
  | .array (v :: vs) =>
    rw [Value.tokens, List.length_cons, List.length_append] at h
    rw [Value.tokens, List.cons_append, List.append_assoc, readValue_array,
      readValue_tokens v n _ (by omega), Option.bind_some]
    dsimp only
    rw [readElements_tokens vs n ts (by omega), Option.map_some]
  | .object [] => rfl
  | .object (m :: ms) =>
    rw [Value.tokens, List.length_cons, List.length_append] at h
    rw [Value.tokens, List.cons_append, List.append_assoc, readValue_object,
      readMember_tokens m n _ (by omega), Option.bind_some]
    dsimp only
    rw [readMembers_tokens ms n ts (by omega), Option.map_some]

theorem readElements_tokens (vs : List Value) (n : Nat) (ts : List Token)
    (h : (elementTokens vs).length ≤ n) :
    readElements n (elementTokens vs ++ ts) = some (vs, ts) := by
  match vs, n with
  | [], 0 => exact absurd h (by simp [elementTokens])
  | [], n + 1 => rfl
  | v :: vs, 0 => exact absurd h (by simp [elementTokens])
  | v :: vs, n + 1 =>
    rw [elementTokens, List.length_cons, List.length_append] at h
    rw [elementTokens, List.cons_append, List.append_assoc, readElements,
      readValue_tokens v n _ (by omega), Option.bind_some]
    dsimp only
    rw [readElements_tokens vs n ts (by omega), Option.map_some]

theorem readMembers_tokens (ms : List (List UInt8 × Value)) (n : Nat) (ts : List Token)
    (h : (memberTokens ms).length ≤ n) :
    readMembers n (memberTokens ms ++ ts) = some (ms, ts) := by
  match ms, n with
  | [], 0 => exact absurd h (by simp [memberTokens])
  | [], n + 1 => rfl
  | m :: ms, 0 => exact absurd h (by simp [memberTokens])
  | m :: ms, n + 1 =>
    rw [memberTokens, List.length_cons, List.length_append] at h
    rw [memberTokens, List.cons_append, List.append_assoc, readMembers,
      readMember_tokens m n _ (by omega), Option.bind_some]
    dsimp only
    rw [readMembers_tokens ms n ts (by omega), Option.map_some]

theorem readMember_tokens (m : List UInt8 × Value) (n : Nat) (ts : List Token)
    (h : (memberToken m).length ≤ n) :
    readMember n (memberToken m ++ ts) = some (m, ts) := by
  match m, n with
  | (name, v), 0 => exact absurd h (by simp [memberToken])
  | (name, v), n + 1 =>
    rw [memberToken, List.length_cons, List.length_cons] at h
    rw [memberToken, List.cons_append, List.cons_append, readMember,
      readValue_tokens v n ts (by omega), Option.map_some]

end

/-! ## The reader takes only such tokens -/

/-- Two parts are read one after the other. -/
theorem eq_some_of_bind {α β γ : Type} {x : Option (α × List Token)}
    {y : List Token → Option (β × List Token)} {f : α → β → γ} {c : γ} {rest : List Token}
    (h : (x.bind fun r => (y r.2).map fun rs => (f r.1 rs.1, rs.2)) = some (c, rest)) :
    ∃ a ts b, x = some (a, ts) ∧ y ts = some (b, rest) ∧ c = f a b := by
  obtain ⟨⟨a, ts⟩, hx, hmap⟩ := Option.bind_eq_some_iff.mp h
  obtain ⟨⟨b, rest'⟩, hy, heq⟩ := Option.map_eq_some_iff.mp hmap
  cases heq
  exact ⟨a, ts, b, hx, hy, rfl⟩

theorem readers_sound (n : Nat) :
    (∀ ts v rest, readValue n ts = some (v, rest) → ts = v.tokens ++ rest) ∧
    (∀ ts vs rest, readElements n ts = some (vs, rest) → ts = elementTokens vs ++ rest) ∧
    (∀ ts ms rest, readMembers n ts = some (ms, rest) → ts = memberTokens ms ++ rest) ∧
    (∀ ts m rest, readMember n ts = some (m, rest) → ts = memberToken m ++ rest) := by
  induction n with
  | zero => exact ⟨nofun, nofun, nofun, nofun⟩
  | succ n ih =>
    obtain ⟨ihValue, ihElements, ihMembers, ihMember⟩ := ih
    refine ⟨fun ts v rest h => ?_, fun ts vs rest h => ?_, fun ts ms rest h => ?_,
      fun ts m rest h => ?_⟩
    · unfold readValue at h
      split at h
      case h_7 heq =>
        cases heq
        obtain ⟨v', ts', vs, hv, hvs, rfl⟩ :=
          eq_some_of_bind (f := fun v vs => Value.array (v :: vs)) h
        rw [ihValue _ _ _ hv, ihElements _ _ _ hvs, Value.tokens, List.cons_append,
          List.append_assoc]
      case h_9 heq =>
        cases heq
        obtain ⟨m, ts', ms, hm, hms, rfl⟩ :=
          eq_some_of_bind (f := fun m ms => Value.object (m :: ms)) h
        rw [ihMember _ _ _ hm, ihMembers _ _ _ hms, Value.tokens, List.cons_append,
          List.append_assoc]
      all_goals cases h
      all_goals rfl
    · unfold readElements at h
      split at h
      case h_3 heq =>
        cases heq
        obtain ⟨v', ts', vs, hv, hvs, rfl⟩ := eq_some_of_bind h
        rw [ihValue _ _ _ hv, ihElements _ _ _ hvs, elementTokens, List.cons_append,
          List.append_assoc]
      all_goals cases h
      rfl
    · unfold readMembers at h
      split at h
      case h_3 heq =>
        cases heq
        obtain ⟨m, ts', ms, hm, hms, rfl⟩ := eq_some_of_bind h
        rw [ihMember _ _ _ hm, ihMembers _ _ _ hms, memberTokens, List.cons_append,
          List.append_assoc]
      all_goals cases h
      rfl
    · unfold readMember at h
      split at h
      case h_2 heq =>
        cases heq
        obtain ⟨⟨v', ts'⟩, hv, heq⟩ := Option.map_eq_some_iff.mp h
        cases heq
        rw [ihValue _ _ _ hv, memberToken, List.cons_append, List.cons_append]
      all_goals cases h

/-- **Decoding**. A text has a value just when its tokens are those of the value. -/
theorem decode_eq_some_iff (text : List UInt8) (v : Value) :
    decode text = some v ↔ tokens text = some v.tokens := by
  unfold decode
  constructor
  · intro h
    obtain ⟨ts, hts, h⟩ := Option.bind_eq_some_iff.mp h
    split at h
    · rename_i v' hread
      cases h
      rw [hts, (readers_sound _).1 _ _ _ hread, List.append_nil]
    · cases h
  · intro h
    have hread := readValue_tokens v v.tokens.length [] le_rfl
    rw [List.append_nil] at hread
    rw [h, Option.bind_some, hread]

/-! ## Separators -/

/-- After a separator comes a value or a name. -/
def Follows (t u : Token) : Prop := t = .valueSeparator → u ≠ .endArray ∧ u ≠ .endObject

theorem Value.follows_tokens (v : Value) (more : List Token) :
    ∀ u ∈ (v.tokens ++ more).head?, Follows .valueSeparator u := by
  intro u h
  unfold Value.tokens at h
  split at h <;> cases h <;> exact fun _ => ⟨nofun, nofun⟩

theorem isChain_cons_of_ne {t : Token} {ts : List Token} (ht : t ≠ .valueSeparator)
    (h : ts.IsChain Follows) : (t :: ts).IsChain Follows := by
  exact List.isChain_cons.mpr ⟨fun _ _ hsep => absurd hsep ht, h⟩

mutual

theorem Value.isChain_tokens (v : Value) (more : List Token) (h : more.IsChain Follows) :
    (v.tokens ++ more).IsChain Follows := by
  match v with
  | .null => exact isChain_cons_of_ne nofun h
  | .bool b => exact isChain_cons_of_ne nofun h
  | .number text => exact isChain_cons_of_ne nofun h
  | .string value => exact isChain_cons_of_ne nofun h
  | .array [] =>
    exact isChain_cons_of_ne nofun (isChain_cons_of_ne nofun h)
  | .array (v :: vs) =>
    rw [Value.tokens, List.cons_append, List.append_assoc]
    exact isChain_cons_of_ne nofun (v.isChain_tokens _ (isChain_elementTokens vs more h))
  | .object [] =>
    exact isChain_cons_of_ne nofun (isChain_cons_of_ne nofun h)
  | .object (m :: ms) =>
    rw [Value.tokens, List.cons_append, List.append_assoc]
    exact isChain_cons_of_ne nofun (isChain_memberToken m _ (isChain_memberTokens ms more h))

theorem isChain_elementTokens (vs : List Value) (more : List Token) (h : more.IsChain Follows) :
    (elementTokens vs ++ more).IsChain Follows := by
  match vs with
  | [] => exact isChain_cons_of_ne nofun h
  | v :: vs =>
    rw [elementTokens, List.cons_append, List.append_assoc]
    exact List.isChain_cons.mpr
      ⟨v.follows_tokens _, v.isChain_tokens _ (isChain_elementTokens vs more h)⟩

theorem isChain_memberTokens (ms : List (List UInt8 × Value)) (more : List Token)
    (h : more.IsChain Follows) : (memberTokens ms ++ more).IsChain Follows := by
  match ms with
  | [] => exact isChain_cons_of_ne nofun h
  | m :: ms =>
    rw [memberTokens, List.cons_append, List.append_assoc]
    refine List.isChain_cons.mpr
      ⟨?_, isChain_memberToken m _ (isChain_memberTokens ms more h)⟩
    rw [memberToken.eq_def]
    intro u hu
    cases hu
    exact fun _ => ⟨nofun, nofun⟩

theorem isChain_memberToken (m : List UInt8 × Value) (more : List Token)
    (h : more.IsChain Follows) : (memberToken m ++ more).IsChain Follows := by
  match m with
  | (name, v) =>
    exact isChain_cons_of_ne nofun (isChain_cons_of_ne nofun (v.isChain_tokens more h))

end

/-! ## Arrays, element by element -/

/-- Elements after the first one, each by its tokens. -/
def moreElements : List (List Token) → List Token
  | [] => [.endArray]
  | ts :: elements => .valueSeparator :: (ts ++ moreElements elements)

/-- The elements of an array and its end, each element by its tokens. -/
def arrayElements : List (List Token) → List Token
  | [] => [.endArray]
  | ts :: elements => ts ++ moreElements elements

theorem elementTokens_eq (vs : List Value) :
    elementTokens vs = moreElements (vs.map Value.tokens) := by
  induction vs with
  | nil => rfl
  | cons v vs ih => rw [elementTokens, ih, List.map_cons, moreElements]

theorem Value.tokens_array (vs : List Value) :
    (Value.array vs).tokens = .beginArray :: arrayElements (vs.map Value.tokens) := by
  cases vs with
  | nil => rfl
  | cons v vs => rw [Value.tokens, elementTokens_eq, List.map_cons, arrayElements]

theorem isInfix_moreElements {ts : List Token} {elements : List (List Token)}
    (h : ts ∈ elements) : ts <:+: moreElements elements := by
  induction elements with
  | nil => exact absurd h List.not_mem_nil
  | cons ts' elements ih =>
    rcases List.mem_cons.mp h with rfl | h
    · exact ⟨[.valueSeparator], moreElements elements, by rw [moreElements]; rfl⟩
    · exact (ih h).trans ⟨.valueSeparator :: ts', [], by rw [moreElements]; simp⟩

theorem isInfix_arrayElements {ts : List Token} {elements : List (List Token)}
    (h : ts ∈ elements) : ts <:+: arrayElements elements := by
  cases elements with
  | nil => exact absurd h List.not_mem_nil
  | cons ts' elements =>
    rcases List.mem_cons.mp h with rfl | h
    · exact ⟨[], moreElements elements, rfl⟩
    · exact (isInfix_moreElements h).trans ⟨ts', [], by rw [arrayElements, List.append_nil]⟩

/-! ## Parts of values -/

/-- The member of an object. -/
def Value.member (name : List UInt8) : Value → Option Value
  | .object members => (members.find? fun m => m.1 = name).map fun m => m.2
  | _ => none

def Value.elements? : Value → Option (List Value)
  | .array elements => some elements
  | _ => none

def Value.string? : Value → Option (List UInt8)
  | .string value => some value
  | _ => none

def Value.natural? : Value → Option Nat
  | .number text => Json.natural? text
  | _ => none

end Hexabus.Lib.Json
