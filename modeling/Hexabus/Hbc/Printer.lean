import Hexabus.Hbc.Syntax

/-!
# Printed conditions and commands

`hbc_printer.cpp`, as far as vertices are named by it, and `replaceNewline`. How a
stream prints a `float` is a parameter; its text never ends in a `t`.
-/

namespace Hexabus.Hbc

/-- The text of a `float`: digits with a point or an exponent, `inf` or `nan`. -/
structure FloatPrinter where
  print : UInt32 → Text
  print_ne_nil : ∀ bits, print bits ≠ []
  getLast_print : ∀ bits, (print bits).getLast? ≠ some 't'

variable (fp : FloatPrinter)

def printUint (n : Nat) : Text := Nat.toDigits 10 n

def ConstantDoc.print : ConstantDoc → Text
  | .placeholder name => '<' :: name ++ ['>']
  | .uint value => printUint value.toNat
  | .float bits => fp.print bits

def GeidElement.print : GeidElement → Text
  | .literal name => name.val
  | .placeholder name => '<' :: name ++ ['>']

def GlobalEndpointIdDoc.print (geid : GlobalEndpointIdDoc) : Text :=
  geid.deviceAlias.print ++ '.' :: geid.endpointName.print

def CompOperator.print : CompOperator → Text
  | .eq => " == ".toList
  | .leq => " <= ".toList
  | .geq => " >= ".toList
  | .lt => " < ".toList
  | .gt => " > ".toList
  | .neq => " != ".toList

def TimeFields.print : TimeFields → Text
  | .hour => "hour".toList
  | .minute => "minute".toList
  | .second => "second".toList
  | .day => "day".toList
  | .month => "month".toList
  | .year => "year".toList
  | .weekday => "weekday".toList

def TimeOperator.print : TimeOperator → Text
  | .lt => " < ".toList
  | .gt => " > ".toList

def BoolOperator.print : BoolOperator → Text
  | .and => " && ".toList
  | .or => " || ".toList

theorem printUint_injective : Function.Injective printUint := by
  intro m n h
  have hdigits := congrArg (fun text => Nat.ofDigitChars 10 text 0) h
  simpa [printUint] using hdigits

theorem isDigit_of_mem_printUint {n : Nat} {c : Char} (h : c ∈ printUint n) : c.isDigit = true :=
  Nat.isDigit_of_mem_toDigits (by decide) (by decide) h

def ConditionDoc.print : ConditionDoc → Text
  | .tautology value => printUint value.toNat
  | .atomic geid compOp constant => geid.print ++ compOp.print ++ constant.print fp
  | .timeout seconds => "timeout ".toList ++ seconds.print fp ++ " sec".toList
  | .timer fields op value =>
    "time ".toList ++ fields.print ++ op.print ++ value.print fp
  | .compound a op b =>
    " ( ".toList ++ a.print ++ op.print ++ b.print ++ " ) ".toList

def CommandDoc.print (command : CommandDoc) : Text :=
  '[' :: printUint command.lineno ++ "] write ".toList ++ command.geid.print ++ " := ".toList ++
    command.constant.print fp ++ ['\n']

def GotoCommandDoc.print (goto : GotoCommandDoc) : Text :=
  '[' :: printUint goto.lineno ++ "] goto ".toList ++ goto.targetState.val ++ ['\n']

def CommandBlockDoc.print (block : CommandBlockDoc) : Text :=
  block.commands.flatMap (CommandDoc.print fp) ++ block.gotoCommand.print

/-- `replaceNewline`: a line break becomes a backslash and an `n`. -/
def replaceNewline (s : Text) : Text :=
  s.flatMap fun c => if c = '\n' then ['\\', 'n'] else [c]

/-! ## The names of initial states

The output pass knows an initial state by the end of its vertex's name. -/

def initSuffix : Text := ".init".toList

/-- `v_name.length() > 5` and `v_name.substr(v_name.length() - 5) == ".init"`. -/
def namesInit (name : Text) : Bool := decide (5 < name.length) && initSuffix.isSuffixOf name

/-- A name that ends in some other character than a `t` is not an initial state's. -/
theorem namesInit_eq_false {name : Text} {c : Char} (h : name.getLast? = some c) (hc : c ≠ 't') :
    namesInit name = false := by
  by_contra hinit
  obtain ⟨-, hsuffix⟩ := (Bool.and_eq_true _ _).mp (Bool.eq_true_of_not_eq_false hinit)
  obtain ⟨front, hfront⟩ := List.isSuffixOf_iff_suffix.mp hsuffix
  have hlast : name.getLast? = some 't' := by
    rw [← hfront, List.getLast?_append]
    rfl
  exact hc (Option.some.inj (h.symm.trans hlast))

theorem replaceNewline_append (s t : Text) :
    replaceNewline (s ++ t) = replaceNewline s ++ replaceNewline t := List.flatMap_append

theorem getLast?_replaceNewline {s : Text} {c : Char} (h : s.getLast? = some c) :
    (replaceNewline s).getLast? = some (if c = '\n' then 'n' else c) := by
  obtain ⟨front, rfl⟩ := List.getLast?_eq_some_iff.mp h
  rw [replaceNewline_append, List.getLast?_append]
  by_cases hc : c = '\n'
  · subst hc
    rfl
  · have hsingle : replaceNewline [c] = [c] := by
      simp [replaceNewline, hc]
    rw [hsingle, if_neg hc]
    rfl

theorem getLast?_append_of {s t : Text} {c : Char} (h : t.getLast? = some c) :
    (s ++ t).getLast? = some c := by
  rw [List.getLast?_append, h]
  rfl

theorem getLast?_printUint (n : Nat) : ∃ c, (printUint n).getLast? = some c ∧ c ≠ 't' := by
  obtain ⟨c, hc⟩ := List.getLast?_isSome.mpr (Nat.toDigits_ne_nil (b := 10) (n := n)) |>
    Option.isSome_iff_exists.mp
  refine ⟨c, hc, ?_⟩
  rintro rfl
  have hdigit := Nat.isDigit_of_mem_toDigits (by decide) (by decide) (List.mem_of_getLast? hc)
  exact absurd hdigit (by decide)

theorem getLast?_constant (constant : ConstantDoc) :
    ∃ c, (constant.print fp).getLast? = some c ∧ c ≠ 't' := by
  cases constant with
  | placeholder name => exact ⟨'>', getLast?_append_of (s := '<' :: name) rfl, by decide⟩
  | uint value => exact getLast?_printUint value.toNat
  | float bits =>
    obtain ⟨c, hc⟩ := Option.isSome_iff_exists.mp
      (List.getLast?_isSome.mpr (fp.print_ne_nil bits))
    refine ⟨c, hc, ?_⟩
    rintro rfl
    exact fp.getLast_print bits hc

/-- A printed condition ends in a number, a closing bracket or the `c` of `sec`. -/
theorem getLast?_condition (condition : ConditionDoc) :
    ∃ c, (condition.print fp).getLast? = some c ∧ c ≠ 't' := by
  cases condition with
  | tautology value => exact getLast?_printUint value.toNat
  | atomic geid compOp constant =>
    obtain ⟨c, hc, ht⟩ := getLast?_constant fp constant
    exact ⟨c, getLast?_append_of hc, ht⟩
  | timeout seconds => exact ⟨'c', getLast?_append_of (by decide), by decide⟩
  | timer fields op value =>
    obtain ⟨c, hc, ht⟩ := getLast?_constant fp value
    exact ⟨c, getLast?_append_of hc, ht⟩
  | compound a op b => exact ⟨' ', getLast?_append_of (by decide), by decide⟩

theorem getLast?_block (block : CommandBlockDoc) :
    (block.print fp).getLast? = some '\n' := by
  unfold CommandBlockDoc.print GotoCommandDoc.print
  exact getLast?_append_of (getLast?_append_of rfl)

/-- The name of a command vertex is not an initial state's. -/
theorem namesInit_block (block : CommandBlockDoc) :
    namesInit (replaceNewline (block.print fp)) = false :=
  namesInit_eq_false (getLast?_replaceNewline (getLast?_block fp block)) (by decide)

/-- The name of a condition that has been split is not an initial state's. -/
theorem namesInit_condition (condition : ConditionDoc) :
    namesInit (condition.print fp) = false ∧
      namesInit (replaceNewline (condition.print fp)) = false := by
  obtain ⟨c, hc, ht⟩ := getLast?_condition fp condition
  refine ⟨namesInit_eq_false hc ht, namesInit_eq_false (getLast?_replaceNewline hc) ?_⟩
  by_cases hn : c = '\n'
  · rw [if_pos hn]
    decide
  · rwa [if_neg hn]

end Hexabus.Hbc
