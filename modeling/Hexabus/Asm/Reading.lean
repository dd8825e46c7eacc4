import Hexabus.Asm.Grammar
import Hexabus.Hbc.ReadRules

/-!
# What the grammar of the assembler reads

Every program that is written in the language is read as the program that it is written for, with
the lines that its blocks and clauses are on.
-/

namespace Hexabus.Asm

open Lib.Expectation
open Hbc (Text Identifier identifierStart identifierRest)
open Hbc.Grammar (spelled precedes_ends noDigit_of_ends reads_uint bareFloat_append)

namespace Grammar

open Parser

section
variable {r : Identifier → Identifier} {m : Nat} {F : Text → Prop}

/-! ## Tokens -/

theorem not_isHex : gapChars.all (!isHex ·) = true := by decide

theorem not_identifierStart : gapChars.all (!identifierStart ·) = true := by decide

theorem not_identifierRest : gapChars.all (!identifierRest ·) = true := by decide

theorem reads_hexDigit : Reads (spelled r) m hexDigit Written.hexDigit F id :=
  (reads_token not_isHex).bind (fun _ => precedes_true) fun _ => reads_pure rfl

theorem reads_identifier : Reads (spelled r) m identifier Written.identifier
    (Without identifierRest) id := by
  refine Reads.assoc ?_
  refine (reads_token not_identifierStart).expect.bind (fun _ => precedes_true) fun c => ?_
  refine (reads_tokens not_identifierRest).bind (fun _ => precedes_pure _ fun _ h => h) fun cs => ?_
  exact reads_pure (by rw [List.map_id]; rfl)

theorem reads_bareIdentifier : Reads (spelled r) m identifier Written.bareIdentifier
    (Without identifierRest) id := Reads.unskipped reads_identifier

theorem precedes_bareIdentifier {α : Type} (M : String → Language Identifier α) {G : Text → Prop} :
    Precedes (spelled r) (Written.bareIdentifier >>= M) G fun s => solid s = true := by
  refine precedes_bind (H := fun _ => True) ?_ fun _ => precedes_true
  exact precedes_bind (precedes_oneOf (G := fun _ => True) not_identifierStart)
    fun _ => precedes_true

/-- A name ends in front of a word of another kind. -/
theorem precedes_without {α : Type} {c : Char} {w : Text} {G : Text → Prop} {test : Char → Bool}
    (hsolid : solid [c] = true) (hc : test c = false) (M : Language Identifier α) :
    Precedes (spelled r) (Language.word (c :: w) >>= fun _ => M) G (Without test) :=
  (precedes_word_bind (c :: w) M).mono fun _ h => without_of_led hsolid hc h

theorem reads_ipv6AddressBlock :
    Reads (spelled r) m ipv6AddressBlock Written.ipv6AddressBlock F id := by
  refine reads_hexDigit.bind (fun _ => precedes_true) fun a => ?_
  refine reads_hexDigit.expect.bind (fun _ => precedes_true) fun b => ?_
  refine reads_hexDigit.expect.bind (fun _ => precedes_true) fun c => ?_
  exact reads_hexDigit.expect.bind (fun _ => precedes_true) fun d => reads_pure rfl

theorem reads_nextBlock : Reads (spelled r) m nextBlock Written.nextBlock F id :=
  Reads.expectLit (by decide) reads_ipv6AddressBlock.expect

theorem reads_ipv6Address : Reads (spelled r) m ipv6Address Written.ipv6Address F id := by
  refine reads_ipv6AddressBlock.bind (fun _ => precedes_true) fun a => ?_
  refine reads_nextBlock.bind (fun _ => precedes_true) fun b => ?_
  refine reads_nextBlock.bind (fun _ => precedes_true) fun c => ?_
  refine reads_nextBlock.bind (fun _ => precedes_true) fun d => ?_
  refine reads_nextBlock.bind (fun _ => precedes_true) fun e => ?_
  refine reads_nextBlock.bind (fun _ => precedes_true) fun f => ?_
  refine reads_nextBlock.bind (fun _ => precedes_true) fun g => ?_
  exact reads_nextBlock.bind (fun _ => precedes_true) fun h => reads_pure rfl

/-- A number, up to the semicolon behind it. -/
theorem reads_uintSemicolon {α β : Type} {k : UInt32 → Parser β} {M : UInt32 → Language Identifier α}
    {f : α → β} (hk : ∀ value, Reads (spelled r) m (k value) (M value) F f) :
    Reads (spelled r) m (do let value ← expect Hbc.Grammar.uint; expect (Hbc.Grammar.word ";"); k value)
      (do let value ← Hbc.Written.uint; Hbc.Written.word ";"; M value) F f :=
  reads_uint.expect.bind (fun _ => (precedes_ends rfl _).mono fun _ h => noDigit_of_ends h)
    fun value => Reads.expectLit (by decide) (hk value)

theorem choice_operator : Choice (spelled r) m operator Written.operator
    (Hbc.Grammar.Ahead (· ≠ '=')) id
    ["==".toList, "<=".toList, ">=".toList, "<".toList, ">".toList, "!=".toList] := by
  -- the shorter signs are tried behind the longer ones that they begin
  refine .cons (.token (by decide) _) (.consOf (.token (by decide) _) (.consOf
    (.token (by decide) _) (.cons (.token (by decide) _) (.cons (.token (by decide) _)
    (.token (by decide) _) (by decide)) (by decide)) ?_) ?_) (by decide)
  · refine precedes_or ?_ (precedes_or (Hbc.Grammar.precedes_shorter rfl) ?_)
    all_goals exact (precedes_word_bind _ _).mono fun _ h => fails_bind (fails_lit rfl rfl h)
  · refine precedes_or ?_ (precedes_or (Hbc.Grammar.precedes_shorter rfl) (precedes_or ?_ ?_))
    all_goals exact (precedes_word_bind _ _).mono fun _ h => fails_bind (fails_lit rfl rfl h)

theorem choice_field : Choice (spelled r) m field Written.field F id
    ["hour".toList, "minute".toList, "second".toList, "day".toList, "month".toList, "year".toList,
      "weekday".toList] := by
  refine .cons ?_ (.cons ?_ (.cons ?_ (.cons ?_ (.cons ?_ (.cons ?_ ?_ (by decide)) (by decide))
    (by decide)) (by decide)) (by decide)) (by decide)
  all_goals exact .token (by decide) _

theorem reads_direction : Reads (spelled r) m direction Written.direction F id := by
  have hchoice : Choice (spelled r) m direction Written.direction F id
      ["before".toList, "after".toList] := by
    refine .cons ?_ ?_ (by decide)
    all_goals exact .token (by decide) _
  exact hchoice.reads

section
variable {floatValue : Text → UInt32}

theorem reads_float : Reads (spelled r) m (float floatValue) (Hbc.Written.float floatValue)
    Hbc.Written.Ends id := by
  intro n ps bits s hps hs _
  obtain ⟨_, _, _, rfl, ⟨g, hg, rfl⟩, w, hw, rfl, rfl⟩ := hps
  rw [textOf_append, textOf_singleton, textOf_singleton, lines_append, lines_singleton,
    lines_singleton, List.append_assoc, ← Nat.add_assoc]
  refine (skipped_bind hg (solid_append hw.1 s) _ n).trans ?_
  rw [bind_apply, bareFloat_append hw hs, andThen_ok]
  rfl

/-- A comparison is not longer than it is where a number follows. -/
theorem precedes_float : Precedes (spelled r) (Hbc.Written.float floatValue) Hbc.Written.Ends
    (Hbc.Grammar.Ahead (· ≠ '=')) := by
  intro n ps bits s hps hs
  obtain ⟨_, _, _, rfl, ⟨g, hg, rfl⟩, w, hw, rfl, rfl⟩ := hps
  rw [textOf_append, textOf_singleton, textOf_singleton, List.append_assoc]
  refine Hbc.Grammar.ahead_gap (by decide) hg ?_
  cases w with
  | nil => exact absurd hw.1 (by decide)
  | cons c w =>
    refine decide_eq_true ?_
    rintro rfl
    have hsome := hw.2.2 [] rfl
    have hnone := (Hbc.Grammar.floatText_startsNoFloat (c := '=') (s := w ++ []) (by decide)).2
    rw [List.cons_append, hnone] at hsome
    exact absurd hsome (by simp)

/-- A number of type `float`, up to the semicolon behind it. -/
theorem reads_floatSemicolon {α β : Type} {k : UInt32 → Parser β}
    {M : UInt32 → Language Identifier α} {f : α → β}
    (hk : ∀ value, Reads (spelled r) m (k value) (M value) F f) :
    Reads (spelled r) m
      (do let value ← expect (float floatValue); expect (Hbc.Grammar.word ";"); k value)
      (do let value ← Hbc.Written.float floatValue; Hbc.Written.word ";"; M value) F f :=
  reads_float.expect.bind (fun _ => precedes_ends rfl _)
    fun value => Reads.expectLit (by decide) (hk value)

/-! ## Conditions -/

theorem choice_condEidvalue : Choice (spelled r) m (condEidvalue floatValue)
    (Written.condEidvalue floatValue) F id ["ip".toList] := by
  refine .single (by decide) (Reads.expectLit (by decide) ?_)
  refine reads_ipv6Address.expect.bind (fun _ => precedes_true) fun ipv6Address => ?_
  refine Reads.expectLit (by decide) (Reads.expectLit (by decide) (Reads.expectLit (by decide) ?_))
  refine reads_uintSemicolon fun eid => Reads.expectLit (by decide) ?_
  refine choice_operator.reads.expect.bind
    (fun _ => precedes_bind precedes_float fun _ => precedes_ends rfl _) fun op => ?_
  exact reads_floatSemicolon fun value => reads_pure rfl

theorem choice_condTimeout : Choice (spelled r) m condTimeout Written.condTimeout F id
    ["timeout".toList] :=
  .single (by decide) (Reads.expectLit (by decide) (reads_uintSemicolon fun _ => reads_pure rfl))

theorem choice_condDatetime : Choice (spelled r) m condDatetime Written.condDatetime F id
    ["hour".toList, "minute".toList, "second".toList, "day".toList, "month".toList, "year".toList,
      "weekday".toList] :=
  choice_field.bind (fun _ => precedes_true) fun _ =>
    reads_direction.expect.bind (fun _ => precedes_true) fun _ =>
      reads_uintSemicolon fun _ => reads_pure rfl

theorem choice_condition : Choice (spelled r) m (condition floatValue)
    (Written.condition floatValue) F id ["condition".toList] := by
  refine .single (by decide) (reads_linePos.bind (fun _ => precedes_bareIdentifier _)
    fun lineno => ?_)
  refine reads_bareIdentifier.bind (fun _ => precedes_without rfl rfl _) fun name => ?_
  refine Reads.expectLit (by decide) ?_
  have hcond := (@choice_condEidvalue r m (fun _ => True) floatValue).cons
    (choice_condTimeout.cons choice_condDatetime (by decide)) (by decide)
  exact hcond.reads.expect.bind (fun _ => precedes_true) fun cond =>
    Reads.expectLit (by decide) (reads_pure rfl)

/-! ## States -/

theorem choice_ifClause : Choice (spelled r) m (ifClause floatValue) (Written.ifClause floatValue)
    F id ["if".toList] := by
  refine .single (by decide) (reads_linePos.bind (fun _ => precedes_bareIdentifier _)
    fun lineno => ?_)
  refine reads_bareIdentifier.bind (fun _ => precedes_without rfl rfl _) fun name => ?_
  refine Reads.expectLit (by decide) (Reads.expectLit (by decide) ?_)
  refine reads_uint.expect.bind (fun _ => (precedes_ends rfl _).mono fun _ h => noDigit_of_ends h)
    fun eid => Reads.expectLit (by decide) ?_
  refine reads_floatSemicolon fun value => Reads.expectLit (by decide) ?_
  refine reads_identifier.bind (fun _ => precedes_without rfl rfl _) fun goodstate => ?_
  refine Reads.expectLit (by decide) (Reads.expectLit (by decide) ?_)
  refine reads_identifier.bind (fun _ => precedes_without rfl rfl _) fun badstate => ?_
  exact Reads.expectLit (by decide) (Reads.expectLit (by decide) (reads_pure rfl))

theorem choice_state : Choice (spelled r) m (state floatValue) (Written.state floatValue) F id
    ["state".toList] := by
  refine .single (by decide) (reads_linePos.bind (fun _ => precedes_bareIdentifier _)
    fun lineno => ?_)
  refine reads_bareIdentifier.bind (fun _ => precedes_without rfl rfl _) fun name => ?_
  refine Reads.expectLit (by decide) ?_
  have hclauses := (@choice_ifClause r m (fun _ => True) floatValue).star (by decide)
    fun _ _ => trivial
  refine hclauses.bind (fun _ => (choice_ifClause (m := m)).precedes_word (by decide) (by decide)
    (fun _ _ => trivial) _) fun ifClauses => ?_
  exact Reads.expectLit (by decide) (reads_pure (by rw [List.map_id]; rfl))

/-! ## Programs -/

theorem reads_targetIp : Reads (spelled r) m targetIp Written.targetIp F id :=
  Reads.lit (by decide) (reads_ipv6Address.bind (fun _ => precedes_true) fun _ =>
    Reads.expectLit (by decide) (reads_pure rfl))

/-- A name does not begin with the digit that stands for none. -/
theorem precedes_noZero {α : Type} {k : Parser α} {G : Text → Prop} :
    Precedes (spelled r) Written.identifier G (Fails do Hbc.Grammar.word "0"; k) := by
  intro n ps name s hps _
  obtain ⟨_, _, _, rfl, ⟨g, hg, rfl⟩, _, _, c, rfl, ⟨hc, rfl⟩, -⟩ := hps
  rw [textOf_append, textOf_append, textOf_singleton, textOf_singleton, List.append_assoc,
    List.append_assoc]
  have hne : '0' ≠ c := by
    rintro rfl
    exact absurd hc (by decide)
  refine fails_bind (Hbc.Grammar.fails_isPrefixOf hg
    (solid_cons (notMem_gapChars not_identifierStart hc) _) ?_)
  show ('0' == c && _) = false
  rw [beq_false_of_ne hne, Bool.false_and]

theorem reads_deviceName : Reads (spelled r) m deviceName Written.deviceName F id := by
  refine Reads.lit (by decide) ?_
  have hzero : Reads (spelled r) m (do Hbc.Grammar.word "0"; return ([] : List UInt8))
      (do Hbc.Written.word "0"; return ([] : List UInt8)) (Without identifierRest) id :=
    Reads.lit (by decide) (reads_pure rfl)
  have hname : Reads (spelled r) m (do let name ← identifier; return nameBytes name)
      (do let name ← Written.identifier; return nameBytes name) (Without identifierRest) id :=
    reads_identifier.bind (fun _ => precedes_pure _ fun _ h => h) fun _ => reads_pure rfl
  refine (hzero.alt hname ?_).bind (fun _ => precedes_without rfl rfl _) fun name =>
    Reads.expectLit (by decide) (reads_pure rfl)
  exact precedes_bind precedes_noZero fun _ => precedes_pure _ fun _ h => h

theorem proper_hexDigit : Proper (spelled r) Written.hexDigit := by
  intro n ps d hps
  obtain ⟨qs, rs, c, rfl, hc, -⟩ := hps
  have hlength := @proper_token _ (spelled r) isHex n qs c hc
  rw [textOf_append, List.length_append]
  omega

theorem reads_machineId : Reads (spelled r) m machineId Written.machineId F id := by
  refine Reads.lit (by decide) ?_
  have hdigits := reads_star (@reads_hexDigit r m fun _ => True) proper_hexDigit precedes_true
  refine hdigits.bind (fun _ => (precedes_without rfl rfl _ : Precedes _ _ _ (Without isHex)).mono fun _ h =>
    ⟨trivial, fails_bind (fails_token h)⟩) fun digits => ?_
  exact Reads.expectLit (by decide) (reads_pure (by rw [List.map_id]; rfl))

theorem choice_startstate : Choice (spelled r) m startstate Written.startstate F id
    ["startstate".toList] :=
  .single (by decide) (reads_identifier.bind (fun _ => precedes_without rfl rfl _) fun _ =>
    Reads.expectLit (by decide) (reads_pure rfl))

theorem choice_block : Choice (spelled r) m (block floatValue) (Written.block floatValue) F id
    ["state".toList, "condition".toList] := by
  refine .cons ?_ ?_ (by decide)
  · exact choice_state.map fun _ => rfl
  · exact choice_condition.map fun _ => rfl

/-- Nothing but what is skipped is left. -/
theorem precedes_end {α : Type} (a : α) :
    Precedes (spelled r) (do Language.gap; return a) (· = []) Gap :=
  precedes_bind (precedes_gap fun g s hg hs => by rw [hs, List.append_nil]; exact hg)
    fun _ => precedes_pure a fun _ h => h

/-- In front of the blocks there is no start state. -/
theorem fails_startstate {s : Text} (h : LedBy ["state".toList, "condition".toList] s ∨ Gap s) :
    Fails startstate s :=
  h.elim ((@choice_startstate id 0 (fun _ => True)).fails_ledBy (by decide))
    ((@choice_startstate id 0 (fun _ => True)).failsEnd s)

theorem reads_start : Reads (spelled r) m (start floatValue) (Written.program floatValue) (· = [])
    id := by
  have hblock := @choice_block r m (fun _ => True) floatValue
  refine reads_targetIp.bind (fun _ => precedes_true) fun targetIp => ?_
  refine reads_deviceName.bind (fun _ => precedes_true) fun deviceName => ?_
  refine reads_machineId.bind (fun _ => precedes_true) fun machineId => ?_
  refine (reads_opt (choice_startstate (F := fun _ => True)).reads).bind (fun _ =>
    precedes_bind (hblock.precedes_star.mono fun _ h => ⟨trivial, fails_startstate h⟩)
      fun _ => precedes_end _) fun startState => ?_
  refine (hblock.star (by decide) fun _ _ => trivial).bind (fun blocks =>
    (precedes_end _).mono fun _ h => ⟨trivial, hblock.failsEnd _ h⟩) fun blocks => ?_
  refine reads_eoi.expect.bind (fun _ => precedes_pure _ fun _ h => h) fun _ => ?_
  exact reads_pure (by rw [List.map_id, Option.map_id]; rfl)

/-- **A program is read** as the program that it is written for. -/
theorem parse_written {ps : List (Piece Identifier)} {doc : HbaDoc}
    (h : Written.program floatValue 1 ps doc) :
    parse floatValue (textOf (spelled id) ps) = some doc := by
  have hread := reads_start (r := id) 1 ps doc [] h rfl (Nat.lt_succ_self _)
  rw [List.append_nil] at hread
  rw [parse, hread]
  rfl

end

end

end Grammar

end Hexabus.Asm
