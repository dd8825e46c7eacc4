import Hexabus.Lib.ShellWords
import Hexabus.Web.Numbers

/-!
# Command lines

The web interface renames devices and writes endpoints by programs of the host software. It
pastes their command lines together from what a client sent, and hands them to the shell.
-/

namespace Hexabus.Web.CommandLines

open Lib.Shell

/-! ## What the shell does with characters -/

def shellKind (c : UInt16) : Kind :=
  if c = 0x20 ∨ c = 0x09 then .blank
  else if c = 0x0A then .newline
  else if c = 0x27 then .singleQuote
  else if c = 0x22 then .doubleQuote
  else if c = 0x5C then .backslash
  else if c = 0x23 then .hash
  else if c = 0x7E then .tilde
  else if c ∈ literal "$\x60" then .expansion
  else if c ∈ literal "*?[" then .pattern
  else if c ∈ literal ";&|<>()" then .operator
  else .ordinary

/-- What the shell is given: the argument of a process ends at a zero. -/
def handed (command : Text) : Text := (throughUtf8 command).takeWhile fun c => c ≠ 0

/-- The argument vector that the shell makes of a command. -/
def argumentsOf (command : Text) : Option (List Text) := words shellKind (handed command)

/-! ## The commands -/

/-- `replace` with a text replaces the first place only. -/
def replaceFirst (c : UInt16) (new : Text) : Text → Text
  | [] => []
  | d :: s => if d = c then new ++ s else d :: replaceFirst c new s

/-- The command of `rename_device`. The library reads an address and writes its canonical form;
there is no command for an invalid address. -/
def renameDevice (canonicalForm : Text → Option Text) (addr newName : Text) : Option Text :=
  (canonicalForm addr).map fun a =>
    literal "hexaupload --ip " ++ a ++ literal " --rename '" ++
      replaceFirst 0x27 (literal "''") newName ++ literal "'"

/-- Type 1 is bool. -/
def isBool (type : Text) : Bool := decide (toNumber type = .finite 1)

/-- The value that is written: for a bool, any text but the empty one is true. -/
def writtenValue (type value : Text) : Text :=
  if isBool type then (if value ≠ [] then literal "1" else literal "0") else value

/-- The command of `write_endpoint`. -/
def writeEndpoint (ip eid type value : Text) : Text :=
  literal "hexaswitch set " ++ ip ++ literal " --eid " ++ eid ++ literal " --datatype " ++ type ++
    literal " --value " ++ writtenValue type value

/-- The command for a `device_rename` message: the device is in the tree, and the name is not
empty. -/
def deviceRename (devices : Text → Bool) (canonicalForm : Text → Option Text)
    (device name : Text) : Option Text :=
  if !devices device then none
  else if name = [] then none
  else renameDevice canonicalForm device name

/-- The command for an `ep_set` message. -/
def epSet (ip eid type value : Text) : Text := writeEndpoint ip eid type value

/-! ## What is meant -/

def renameArguments (canonicalForm : Text → Option Text) (addr newName : Text) :
    Option (List Text) :=
  (canonicalForm addr).map fun a =>
    [literal "hexaupload", literal "--ip", a, literal "--rename", newName]

def writeArguments (ip eid type value : Text) : List Text :=
  [literal "hexaswitch", literal "set", ip, literal "--eid", eid, literal "--datatype", type,
    literal "--value", writtenValue type value]

/-- The text reaches a program as it is. -/
def Sendable (s : Text) : Prop := 0 ∉ s ∧ WellFormed s

/-- A name that can stand between single quotes. -/
def Quotable (name : Text) : Prop := 0x27 ∉ name ∧ Sendable name

/-- An argument that needs no quotes. -/
def Unquoted (s : Text) : Prop := Plain shellKind s ∧ Sendable s

instance (s : Text) : Decidable (Sendable s) := inferInstanceAs (Decidable (_ ∧ _))

instance (name : Text) : Decidable (Quotable name) := inferInstanceAs (Decidable (_ ∧ _))

instance (s : Text) : Decidable (Unquoted s) := inferInstanceAs (Decidable (_ ∧ _))

/-! ## What the shell is given -/

theorem length_handed_le (s : Text) : (handed s).length ≤ s.length := by
  rw [← length_throughUtf8 s]
  exact (List.takeWhile_prefix _).length_le

theorem handed_of_length {s : Text} (h : s.length ≤ (handed s).length) :
    handed s = throughUtf8 s ∧ 0 ∉ s := by
  have hall : handed s = throughUtf8 s :=
    (List.takeWhile_prefix _).eq_of_length_le (by rwa [length_throughUtf8])
  refine ⟨hall, fun h0 => ?_⟩
  have hmem : ∀ t : Text, ∀ h : Option UInt16, (0 : UInt16) ∈ t → 0 ∈ throughUtf8From h t := by
    intro t
    induction t with
    | nil => simp
    | cons c t ih =>
      intro h hc
      rcases List.mem_cons.mp hc with rfl | hc
      · cases h <;> simp [throughUtf8From, isHighSurrogate, isLowSurrogate]
      · cases h <;> rw [throughUtf8From] <;> split <;> (try split) <;> simp [ih _ hc]
  have := List.mem_takeWhile_imp (hall ▸ hmem s none h0 : (0 : UInt16) ∈ handed s)
  simp at this

/-- No character is lost on the way: decided by looking at each. -/
theorem kept_of_all {s : Text} (h : s.all (fun c => !isSurrogate c && c != 0) = true) :
    ∀ c ∈ s, isSurrogate c = false ∧ c ≠ 0 := by
  intro c hc
  simpa using List.all_eq_true.mp h c hc

theorem handed_prefix {p : Text} (hp : ∀ c ∈ p, isSurrogate c = false ∧ c ≠ 0) (s : Text) :
    handed (p ++ s) = p ++ handed s := by
  rw [handed, throughUtf8_append_left fun c hc => (hp c hc).1, List.takeWhile_append_of_pos]
  · rfl
  · intro c hc
    simpa using (hp c hc).2

theorem handed_of_sendable {s : Text} (h : Sendable s) : handed s = s := by
  rw [handed, h.2, List.takeWhile_eq_self_iff]
  intro c hc
  simpa using fun h0 : c = 0 => h.1 (h0 ▸ hc)

/-! ## Unquoted fields -/

theorem throughUtf8_spaced {b : UInt16} (hb : isSurrogate b = false) (ws : List Text) :
    throughUtf8 (spaced b ws) = spaced b (ws.map throughUtf8) := by
  induction ws with
  | nil => rfl
  | cons w ws ih =>
    cases ws with
    | nil => rfl
    | cons v ws =>
      rw [spaced, throughUtf8_append hb, ih]
      rfl

theorem filter_spaced {b : UInt16} (hb : shellKind b = .blank) (ws : List Text) :
    (spaced b ws).filter (fun c => shellKind c ≠ .blank) =
      ws.flatten.filter fun c => shellKind c ≠ .blank := by
  induction ws with
  | nil => rfl
  | cons w ws ih =>
    cases ws with
    | nil => simp [spaced]
    | cons v ws =>
      have hflat : (w :: v :: ws).flatten = w ++ (v :: ws).flatten := rfl
      rw [spaced, List.filter_append, List.filter_cons_of_neg (by simp [hb]), ih, hflat,
        List.filter_append]

theorem map_eq_of_flatten_eq {ws : List Text} (h : (ws.map throughUtf8).flatten = ws.flatten) :
    ∀ w ∈ ws, WellFormed w := by
  induction ws with
  | nil => simp
  | cons w ws ih =>
    obtain ⟨hw, hws⟩ := List.append_inj h (length_throughUtf8 w)
    intro v hv
    rcases List.mem_cons.mp hv with rfl | hv
    · exact hw
    · exact ih hws v hv

theorem length_flatten_map (ws : List Text) :
    (ws.map throughUtf8).flatten.length = ws.flatten.length := by
  induction ws with
  | nil => rfl
  | cons w ws ih => simp at ih ⊢; omega

theorem mem_spaced {b c : UInt16} {w : Text} {ws : List Text} (hw : w ∈ ws) (hc : c ∈ w) :
    c ∈ spaced b ws := by
  induction ws with
  | nil => simp at hw
  | cons v ws ih =>
    cases ws with
    | nil =>
      rw [List.mem_singleton] at hw
      rwa [spaced, ← hw]
    | cons u ws =>
      rw [spaced, List.mem_append, List.mem_cons]
      rcases List.mem_cons.mp hw with rfl | hw
      · exact .inl hc
      · exact .inr (.inr (ih hw))

/-- **Fields side by side are the arguments exactly if none of them needs quotes.** -/
theorem argumentsOf_spaced_iff {ws : List Text} (hne : ws ≠ []) :
    argumentsOf (spaced 0x20 ws) = some ws ↔ ∀ w ∈ ws, Unquoted w := by
  have hblank : shellKind 0x20 = .blank := by decide
  constructor
  · intro h
    -- nothing of the line can be missing, as the arguments take all of it
    have hcost := cost_le shellKind h
    have hlength := length_spaced (0x20 : UInt16) hne
    obtain ⟨hall, hzero⟩ := handed_of_length (s := spaced 0x20 ws) (by
      simp [room] at hcost
      omega)
    have hline : cost ws = 1 + (handed (spaced 0x20 ws)).length := by
      rw [hall, length_throughUtf8, hlength]
    obtain ⟨hplain, hfilter⟩ := (verbatim shellKind).1 ws h hline
    rw [hall, throughUtf8_spaced (by decide), filter_spaced hblank] at hfilter
    have hflat : (ws.map throughUtf8).flatten = ws.flatten := by
      rw [← hfilter, eq_comm, List.filter_eq_self]
      refine List.length_filter_eq_length_iff.mp ?_
      rw [hfilter, length_flatten_map]
    have hformed := map_eq_of_flatten_eq hflat
    exact fun w hw => ⟨hplain w hw, fun h0 => hzero (mem_spaced hw h0), hformed w hw⟩
  · intro h
    have hmap : ws.map throughUtf8 = ws :=
      (List.map_congr_left fun w hw => (h w hw).2.2).trans (List.map_id ws)
    have hsent : handed (spaced 0x20 ws) = spaced 0x20 ws := by
      rw [handed, throughUtf8_spaced (by decide), hmap, List.takeWhile_eq_self_iff]
      have hz : ∀ vs : List Text, (∀ v ∈ vs, Unquoted v) → (0 : UInt16) ∉ spaced 0x20 vs := by
        intro vs
        induction vs with
        | nil => simp [spaced]
        | cons v vs ih =>
          intro hvs
          cases vs with
          | nil => exact (hvs v List.mem_cons_self).2.1
          | cons u vs =>
            rw [spaced, List.mem_append, List.mem_cons, not_or, not_or]
            exact ⟨(hvs v List.mem_cons_self).2.1, by decide,
              ih fun w hw => hvs w (List.mem_cons_of_mem _ hw)⟩
      intro c hc
      simpa using fun h0 : c = 0 => hz ws h (h0 ▸ hc)
    rw [argumentsOf, hsent]
    exact words_spaced shellKind hblank fun w hw => (h w hw).1

theorem unquoted_writtenValue {type value : Text} :
    Unquoted (writtenValue type value) ↔ isBool type = true ∨ Unquoted value := by
  unfold writtenValue
  by_cases h : isBool type = true
  · rw [if_pos h]
    refine ⟨fun _ => .inl h, fun _ => ?_⟩
    split
    · decide
    · decide
  · rw [if_neg h]
    exact ⟨.inr, fun hor => hor.resolve_left h⟩

theorem writeEndpoint_eq (ip eid type value : Text) :
    writeEndpoint ip eid type value = spaced 0x20 (writeArguments ip eid type value) := by
  have h₁ : literal "hexaswitch set " = literal "hexaswitch" ++ 0x20 :: (literal "set" ++ [0x20]) :=
    rfl
  have h₂ : literal " --eid " = 0x20 :: (literal "--eid" ++ [0x20]) := rfl
  have h₃ : literal " --datatype " = 0x20 :: (literal "--datatype" ++ [0x20]) := rfl
  have h₄ : literal " --value " = 0x20 :: (literal "--value" ++ [0x20]) := rfl
  simp only [writeEndpoint, writeArguments, spaced, h₁, h₂, h₃, h₄, List.append_assoc,
    List.cons_append, List.nil_append]

/-- **An endpoint is written as meant exactly if no field needs quotes**; the value of a bool is
not written as it is. -/
theorem writeEndpoint_iff (ip eid type value : Text) :
    argumentsOf (writeEndpoint ip eid type value) = some (writeArguments ip eid type value) ↔
      Unquoted ip ∧ Unquoted eid ∧ Unquoted type ∧ (isBool type = true ∨ Unquoted value) := by
  have h₁ : Unquoted (literal "hexaswitch") := by decide
  have h₂ : Unquoted (literal "set") := by decide
  have h₃ : Unquoted (literal "--eid") := by decide
  have h₄ : Unquoted (literal "--datatype") := by decide
  have h₅ : Unquoted (literal "--value") := by decide
  rw [writeEndpoint_eq, argumentsOf_spaced_iff (by simp [writeArguments])]
  simp only [writeArguments, List.forall_mem_cons, List.not_mem_nil, false_implies, implies_true,
    and_true, unquoted_writtenValue, h₁, h₂, h₃, h₄, h₅, true_and]

/-! ## A quoted name -/

/-- What the library writes for an address: hexadecimal digits and colons. -/
def IsAddress (a : Text) : Prop :=
  a ≠ [] ∧ ∀ c ∈ a, (0x30 ≤ c ∧ c ≤ 0x39) ∨ (0x61 ≤ c ∧ c ≤ 0x66) ∨ c = 0x3A

theorem address_char {c : UInt16}
    (h : (0x30 ≤ c ∧ c ≤ 0x39) ∨ (0x61 ≤ c ∧ c ≤ 0x66) ∨ c = 0x3A) :
    c ∈ literal "0123456789abcdef:" := by
  have hall : ∀ n : Nat, n < 0x67 → ((0x30 ≤ n ∧ n ≤ 0x39) ∨ (0x61 ≤ n ∧ n ≤ 0x66) ∨ n = 0x3A) →
      UInt16.ofNat n ∈ literal "0123456789abcdef:" := by decide
  have hc : c.toNat < 0x67 ∧ ((0x30 ≤ c.toNat ∧ c.toNat ≤ 0x39) ∨
      (0x61 ≤ c.toNat ∧ c.toNat ≤ 0x66) ∨ c.toNat = 0x3A) := by
    rcases h with ⟨h, h'⟩ | ⟨h, h'⟩ | rfl
    · have h₁ : 0x30 ≤ c.toNat := UInt16.le_iff_toNat_le.mp h
      have h₂ : c.toNat ≤ 0x39 := UInt16.le_iff_toNat_le.mp h'
      omega
    · have h₁ : 0x61 ≤ c.toNat := UInt16.le_iff_toNat_le.mp h
      have h₂ : c.toNat ≤ 0x66 := UInt16.le_iff_toNat_le.mp h'
      omega
    · decide
  have := hall c.toNat hc.1 hc.2
  rwa [UInt16.ofNat_toNat] at this

theorem IsAddress.mem {a : Text} (h : IsAddress a) {c : UInt16} (hc : c ∈ a) :
    shellKind c = .ordinary ∧ isSurrogate c = false ∧ c ≠ 0 := by
  have hmem := address_char (h.2 c hc)
  have hkind : (literal "0123456789abcdef:").all (fun c => shellKind c = .ordinary) = true := by
    decide
  exact ⟨by simpa using List.all_eq_true.mp hkind c hmem, kept_of_all (by decide) c hmem⟩

theorem IsAddress.plain {a : Text} (h : IsAddress a) : Plain shellKind a := by
  cases a with
  | nil => exact absurd rfl h.1
  | cons c a =>
    exact ⟨(h.mem List.mem_cons_self).1, fun d hd => .inl (h.mem (List.mem_cons_of_mem _ hd)).1⟩

theorem shellKind_quote {c : UInt16} : shellKind c = .singleQuote ↔ c = 0x27 := by
  constructor
  · intro h
    by_contra hne
    unfold shellKind at h
    repeat' split at h
    all_goals exact absurd h (by decide)
  · rintro rfl
    decide

/-- The words before the name, and the quote, are read as they are meant. -/
theorem argumentsOf_rename {a : Text} (ha : IsAddress a) (s : Text) :
    argumentsOf (literal "hexaupload --ip " ++ a ++ literal " --rename '" ++ s) =
      (wordsFrom shellKind (.single []) (handed s)).map fun ws =>
        literal "hexaupload" :: literal "--ip" :: a :: literal "--rename" :: ws := by
  have hfront : ∀ c ∈ literal "hexaupload --ip ", isSurrogate c = false ∧ c ≠ 0 :=
    kept_of_all (by decide)
  have hback : ∀ c ∈ literal " --rename '", isSurrogate c = false ∧ c ≠ 0 :=
    kept_of_all (by decide)
  have hhanded : handed (literal "hexaupload --ip " ++ a ++ literal " --rename '" ++ s) =
      literal "hexaupload --ip " ++ a ++ literal " --rename '" ++ handed s := by
    rw [List.append_assoc, List.append_assoc, handed_prefix hfront,
      handed_prefix fun c hc => (ha.mem hc).2, handed_prefix hback, ← List.append_assoc,
      ← List.append_assoc]
  have hblank : shellKind 0x20 = .blank := by decide
  have hline : literal "hexaupload --ip " ++ a ++ literal " --rename '" ++ handed s =
      literal "hexaupload" ++ 0x20 :: (literal "--ip" ++ 0x20 :: (a ++ 0x20 ::
        (literal "--rename" ++ 0x20 :: 0x27 :: handed s))) := by
    have h₁ : literal "hexaupload --ip " =
        literal "hexaupload" ++ 0x20 :: (literal "--ip" ++ [0x20]) := rfl
    have h₂ : literal " --rename '" = 0x20 :: (literal "--rename" ++ [0x20, 0x27]) := rfl
    simp only [h₁, h₂, List.append_assoc, List.cons_append, List.nil_append]
  rw [argumentsOf, hhanded, hline, words, wordsFrom_plain_blank shellKind (by decide) hblank,
    wordsFrom_plain_blank shellKind (by decide) hblank,
    wordsFrom_plain_blank shellKind ha.plain hblank,
    wordsFrom_plain_blank shellKind (by decide) hblank]
  have hquote : wordsFrom shellKind (.plain none) (0x27 :: handed s) =
      wordsFrom shellKind (.single []) (handed s) := by
    rw [wordsFrom, shellKind_quote.mpr rfl]
    rfl
  rw [hquote]
  simp only [Option.map_map]
  rfl

theorem replaceFirst_of_notMem {c : UInt16} {new s : Text} (h : c ∉ s) :
    replaceFirst c new s = s := by
  induction s with
  | nil => rfl
  | cons d s ih =>
    rw [List.mem_cons, not_or] at h
    rw [replaceFirst, if_neg (Ne.symm h.1), ih h.2]

theorem replaceFirst_append {c : UInt16} {new p r : Text} (h : c ∉ p) :
    replaceFirst c new (p ++ c :: r) = p ++ (new ++ r) := by
  induction p with
  | nil => simp [replaceFirst]
  | cons d p ih =>
    rw [List.mem_cons, not_or] at h
    rw [List.cons_append, replaceFirst, if_neg (Ne.symm h.1), ih h.2, List.cons_append]

theorem quote_notMem_throughUtf8 {s : Text} (h : 0x27 ∉ s) :
    ∀ c ∈ throughUtf8 s, shellKind c ≠ .singleQuote := by
  intro c hc hk
  rw [shellKind_quote] at hk
  subst hk
  exact h (mem_of_mem_throughUtf8 (by decide) hc)

/-- A quote in the name: the two that replace it stand for nothing, and what is read is shorter
than the name. -/
theorem wordsFrom_quote_ne {p r : Text} (hp : 0x27 ∉ p) :
    wordsFrom shellKind (.single []) (handed (p ++ (literal "''" ++ r) ++ [0x27])) ≠
      some [p ++ 0x27 :: r] := by
  intro h
  have hline : p ++ (literal "''" ++ r) ++ [0x27] = p ++ 0x27 :: ([0x27] ++ (r ++ [0x27])) := by
    have hq : literal "''" = [0x27, 0x27] := rfl
    simp [hq]
  rw [hline, handed, throughUtf8_append (by decide), List.takeWhile_append] at h
  split at h
  · have hrest : (0x27 :: throughUtf8 ([0x27] ++ (r ++ [0x27]))).takeWhile (fun c => c ≠ 0) =
        [0x27, 0x27] ++ handed (r ++ [0x27]) := by
      have hquote : isSurrogate 0x27 = false := by decide
      rw [List.singleton_append, throughUtf8_cons hquote, List.takeWhile_cons_of_pos (by decide),
        List.takeWhile_cons_of_pos (by decide)]
      rfl
    have hkind : shellKind 0x27 = .singleQuote := shellKind_quote.mpr rfl
    rw [hrest, wordsFrom_single shellKind (quote_notMem_throughUtf8 hp), List.cons_append,
      List.cons_append, wordsFrom, if_pos hkind, wordsFrom, hkind] at h
    have hcost := cost_le shellKind h
    have hlength := length_handed_le (r ++ [0x27])
    simp [room] at hcost hlength
    omega
  · -- a zero ends the line within the name
    have hcost := cost_le shellKind h
    have hlength := (List.takeWhile_prefix (l := throughUtf8 p) (fun c => decide (c ≠ 0))).length_le
    rw [length_throughUtf8] at hlength
    simp [room] at hcost hlength
    omega

/-- A name between the quotes that the command ends in. -/
theorem wordsFrom_name_iff (name : Text) :
    wordsFrom shellKind (.single []) (handed (replaceFirst 0x27 (literal "''") name ++ [0x27])) =
      some [name] ↔ Quotable name := by
  constructor
  · intro h
    by_cases hq : 0x27 ∈ name
    · obtain ⟨p, r, rfl, hp⟩ := List.eq_append_cons_of_mem hq
      rw [replaceFirst_append hp] at h
      exact absurd h (wordsFrom_quote_ne hp)
    · rw [replaceFirst_of_notMem hq] at h
      have hcost := cost_le shellKind h
      obtain ⟨hall, hzero⟩ := handed_of_length (s := name ++ [0x27]) (by
        simp [room] at hcost
        simpa using hcost)
      rw [hall, throughUtf8_append (by decide),
        wordsFrom_single shellKind (quote_notMem_throughUtf8 hq)] at h
      have hw : throughUtf8 name = name := by
        simpa [wordsFrom, shellKind_quote, throughUtf8, throughUtf8From] using h
      exact ⟨hq, fun h0 => hzero (List.mem_append_left _ h0), hw⟩
  · rintro ⟨hq, hs⟩
    have hk : ∀ c ∈ name, shellKind c ≠ .singleQuote := fun c hc hk =>
      hq (shellKind_quote.mp hk ▸ hc)
    have hsent : Sendable (name ++ [0x27]) := by
      refine ⟨by simpa using hs.1, ?_⟩
      rw [WellFormed, throughUtf8_append (by decide), hs.2]
      rfl
    rw [replaceFirst_of_notMem hq, handed_of_sendable hsent, wordsFrom_single shellKind hk]
    simp [wordsFrom, shellKind_quote]

/-! ## The messages of a client -/

/-- **A device is renamed as meant exactly if its new name has no quote.** -/
theorem renameDevice_iff {canonicalForm : Text → Option Text} {addr newName line : Text}
    (ha : ∀ a, canonicalForm addr = some a → IsAddress a)
    (hline : renameDevice canonicalForm addr newName = some line) :
    argumentsOf line = renameArguments canonicalForm addr newName ↔ Quotable newName := by
  obtain ⟨a, hcanonical, rfl⟩ := Option.map_eq_some_iff.mp hline
  have hquote : literal "'" = [0x27] := rfl
  rw [List.append_assoc, argumentsOf_rename (ha a hcanonical), renameArguments, hcanonical,
    ← wordsFrom_name_iff, hquote]
  constructor
  · intro h
    obtain ⟨ws, hws, heq⟩ := Option.map_eq_some_iff.mp h
    rw [hws]
    simpa using heq
  · intro h
    rw [h]
    rfl

/-- **What a client can send.** The command line for a message is read by the shell as the program
and the arguments that are meant exactly if the new name has no quote, and exactly if no field of
what is written needs quotes. -/
theorem read_as_meant_iff (devices : Text → Bool) (canonicalForm : Text → Option Text)
    (ha : ∀ addr a, canonicalForm addr = some a → IsAddress a) :
    (∀ device name line, deviceRename devices canonicalForm device name = some line →
      (argumentsOf line = renameArguments canonicalForm device name ↔ Quotable name)) ∧
    ∀ ip eid type value,
      argumentsOf (epSet ip eid type value) = some (writeArguments ip eid type value) ↔
        Unquoted ip ∧ Unquoted eid ∧ Unquoted type ∧ (isBool type = true ∨ Unquoted value) := by
  constructor
  · intro device name line h
    unfold deviceRename at h
    split at h
    · simp at h
    · split at h
      · simp at h
      · exact renameDevice_iff (ha device) h
  · exact writeEndpoint_iff

/-- One device and the form of its address. -/
def oneAddress (addr : Text) : Option Text :=
  if addr = literal "fd00::1" then some (literal "fd00:0000:0000:0000:0000:0000:0000:0001")
  else none

theorem isAddress_oneAddress (addr a : Text) (h : oneAddress addr = some a) : IsAddress a := by
  unfold oneAddress at h
  split at h
  · have hall : (literal "fd00:0000:0000:0000:0000:0000:0000:0001").all (fun c =>
        decide ((0x30 ≤ c ∧ c ≤ 0x39) ∨ (0x61 ≤ c ∧ c ≤ 0x66) ∨ c = 0x3A)) = true := by decide
    rw [← Option.some.inj h]
    exact ⟨by decide, fun c hc => of_decide_eq_true (List.all_eq_true.mp hall c hc)⟩
  · simp at h

/-- A name with a space is quoted, and a number needs no quotes. -/
theorem read_as_meant_lamp :
    (∀ line, deviceRename (fun _ => true) oneAddress (literal "fd00::1") (literal "desk lamp") =
        some line →
      argumentsOf line = renameArguments oneAddress (literal "fd00::1") (literal "desk lamp")) ∧
    argumentsOf (epSet (literal "fd00::1") (literal "2") (literal "3") (literal "75")) =
      some (writeArguments (literal "fd00::1") (literal "2") (literal "3") (literal "75")) :=
  have h := read_as_meant_iff (fun _ => true) oneAddress isAddress_oneAddress
  ⟨fun line hline => (h.1 _ _ line hline).mpr (by decide),
    (h.2 _ _ _ _).mpr ⟨by decide, by decide, by decide, .inr (by decide)⟩⟩

/-- A quote in a name is lost, and a semicolon in a value ends the command. -/
theorem read_otherwise :
    deviceRename (fun _ => true) oneAddress (literal "fd00::1") (literal "it's") =
      some (literal
        "hexaupload --ip fd00:0000:0000:0000:0000:0000:0000:0001 --rename 'it''s'") ∧
    argumentsOf (literal
        "hexaupload --ip fd00:0000:0000:0000:0000:0000:0000:0001 --rename 'it''s'") =
      renameArguments oneAddress (literal "fd00::1") (literal "its") ∧
    argumentsOf (literal
        "hexaupload --ip fd00:0000:0000:0000:0000:0000:0000:0001 --rename 'it''s'") ≠
      renameArguments oneAddress (literal "fd00::1") (literal "it's") ∧
    epSet (literal "fd00::1") (literal "2") (literal "3") (literal "75;reboot") =
      literal "hexaswitch set fd00::1 --eid 2 --datatype 3 --value 75;reboot" ∧
    argumentsOf (epSet (literal "fd00::1") (literal "2") (literal "3") (literal "75;reboot")) ≠
      some (writeArguments (literal "fd00::1") (literal "2") (literal "3")
        (literal "75;reboot")) := by
  decide +kernel

end Hexabus.Web.CommandLines
