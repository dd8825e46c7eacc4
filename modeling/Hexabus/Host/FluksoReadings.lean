import Hexabus.Lib.JsonTokens
import Hexabus.Lib.Matching

/-!
# The readings of the Flukso sensors

`updateFluksoValues` of `hexabus_server.cpp`: the daemon reads a file for each sensor, in which
there is a JSON array of pairs of a timestamp and a value, and looks for the last value with
regular expressions.
-/

namespace Hexabus.Host.Flukso

open Lib.Matching Lib.Json

/-! ## The daemon -/

abbrev Text := List UInt8

/-- `[[:digit:]]*`. -/
def digits : Regex UInt8 := .star (.set isDigit)

/-- `^\[(?:\[[[:digit:]]*,[[:digit:]]*\],)*\[[[:digit:]]*,([[:digit:]]*)\]` and
`(?:,\[[[:digit:]]*,"nan"\])*\]$` in one, without its ends. -/
def r : Regex UInt8 := .concat [
  .lit (ascii "["),
  .star (.concat [.lit (ascii "["), digits, .lit (ascii ","), digits, .lit (ascii "],")]),
  .lit (ascii "["), digits, .lit (ascii ","), .group digits, .lit (ascii "]"),
  .star (.concat [.lit (ascii ",["), digits, .lit (ascii ",\"nan\"]")]),
  .lit (ascii "]")]

/-- `^\[(?:\[[[:digit:]]*,"nan"\],)*\[[[:digit:]]*,"nan"\]\]$`, without its ends. -/
def r0 : Regex UInt8 := .concat [
  .lit (ascii "["),
  .star (.concat [.lit (ascii "["), digits, .lit (ascii ",\"nan\"],")]),
  .lit (ascii "["), digits, .lit (ascii ",\"nan\"]"),
  .lit (ascii "]")]

/-- `^[0-9a-f]{32}$`, without its ends. -/
def hex32 : Regex UInt8 :=
  .times 32 (.set fun c => isDigit c || decide (0x61 ≤ c ∧ c ≤ 0x66))

/-- Where `^` and `$` see the end of a line: a line feed, a carriage return, a form feed. -/
def isSeparator (c : UInt8) : Bool := c = 0x0A || c = 0x0D || c = 0x0C

/-- `isspace`. -/
def isSpace (c : UInt8) : Bool := c = 0x20 || decide (0x09 ≤ c ∧ c ≤ 0x0D)

/-- `file >> flukso_data`. -/
def readWord (content : Text) : Text :=
  (content.dropWhile isSpace).takeWhile fun c => !isSpace c

/-- `boost::lexical_cast<uint32_t>` of some digits. -/
def lexicalCast (text : Text) : Option UInt32 :=
  if text = [] then none
  else (natural? text).bind fun n => if n < 2 ^ 32 then some (UInt32.ofNat n) else none

/-- The value that is stored for `flukso_data`, if any. -/
def fluksoValue (data : Text) : Option UInt32 :=
  match searchLine isSeparator r data with
  | some what => lexicalCast (what.getD [])
  | none => if (searchLine isSeparator r0 data).isSome then some 0 else none

/-- `_flukso_values`. -/
abbrev FluksoValues := Text → Option UInt32

/-- One round of the loop: a file by its name, and its content if it can be opened. -/
def updateFluksoValue (values : FluksoValues) (sensor : Text × Option Text) : FluksoValues :=
  if matchWhole hex32 sensor.1 then
    match sensor.2.bind fun content => fluksoValue (readWord content) with
    | some value => Function.update values sensor.1 (some value)
    | none => values
  else values

/-- `updateFluksoValues`: the files of `/var/run/fluksod/sensor/`, if it is a directory. -/
def updateFluksoValues (sensors : Option (List (Text × Option Text))) (values : FluksoValues) :
    FluksoValues := (sensors.getD []).foldl updateFluksoValue values

/-! ## Arrays -/

/-- An element of the array as it is written: the digits of a timestamp, and those of a value
or `"nan"`. -/
structure Entry where
  timestamp : Text
  value : Option Text

def Entry.text (e : Entry) : Text :=
  ascii "[" ++ e.timestamp ++ ascii "," ++ e.value.getD (ascii "\"nan\"") ++ ascii "]"

/-- A JSON array of such pairs. -/
def array (es : List Entry) : Text :=
  ascii "[" ++ (ascii ",").intercalate (es.map Entry.text) ++ ascii "]"

/-- Nothing but digits, and none of them may do. -/
def Entry.IsDigits (e : Entry) : Prop :=
  (∀ c ∈ e.timestamp, isDigit c = true) ∧ ∀ v, e.value = some v → ∀ c ∈ v, isDigit c = true

/-- A reading of a sensor: a timestamp, and a value unless it is not a number. -/
structure Reading where
  timestamp : Nat
  value : Option UInt32

def Reading.entry (reading : Reading) : Entry :=
  ⟨decimal reading.timestamp, reading.value.map fun v => decimal v.toNat⟩

/-- The last value that is a number, or 0. -/
def lastReading (readings : List Reading) : UInt32 :=
  (readings.filterMap Reading.value).getLast?.getD 0

/-- The text is an array of readings. -/
def IsReadings (text : Text) : Prop :=
  ∃ readings : List Reading, readings ≠ [] ∧ text = array (readings.map Reading.entry)

/-- What is to become of the value of a sensor with that text in its file. -/
def TakesLast (text : Text) (old new : Option UInt32) : Prop :=
  (∀ readings : List Reading, readings ≠ [] → text = array (readings.map Reading.entry) →
    new = some (lastReading readings)) ∧ (¬ IsReadings text → new = old)

/-- No number comes after a `"nan"`. -/
def NanLast (es : List Entry) : Prop :=
  ∃ nums nans : List Entry, es = nums ++ nans ∧ (∀ e ∈ nums, e.value.isSome = true) ∧
    ∀ e ∈ nans, e.value = none

/-- The last number is one of 32 bits. -/
def LastFits (es : List Entry) : Prop :=
  ∀ v, (es.filterMap Entry.value).getLast? = some v → (lexicalCast v).isSome = true

/-! ## Arrays as words -/

theorem array_cons (e : Entry) (es : List Entry) : array (e :: es) =
    ascii "[" ++ e.text ++ es.flatMap (fun e => ascii "," ++ e.text) ++ ascii "]" := by
  unfold array
  congr 1
  rw [List.append_assoc]
  congr 1
  induction es generalizing e with
  | nil =>
    rw [List.flatMap_nil, List.append_nil]
    exact List.intercalate_singleton
  | cons d es ih =>
    rw [List.map_cons, List.map_cons, List.intercalate_cons_cons, ← List.map_cons, ih d,
      List.flatMap_cons]
    simp only [List.append_assoc]

theorem array_append (nums : List Entry) (e : Entry) (nans : List Entry) :
    array (nums ++ e :: nans) = ascii "[" ++ nums.flatMap (fun e => e.text ++ ascii ",") ++
      e.text ++ nans.flatMap (fun e => ascii "," ++ e.text) ++ ascii "]" := by
  cases nums with
  | nil => rw [List.nil_append, array_cons, List.flatMap_nil, List.append_nil]
  | cons d nums =>
    rw [List.cons_append, array_cons]
    congr 1
    rw [List.flatMap_append, List.flatMap_cons]
    induction nums generalizing d with
    | nil =>
      simp only [List.flatMap_cons, List.flatMap_nil, List.nil_append, List.append_nil,
        List.append_assoc]
    | cons f nums ih =>
      have hf := ih f
      simp only [List.flatMap_cons, List.append_assoc, List.append_cancel_left_eq] at hf ⊢
      rw [hf]

theorem digits_append_inj {v v' x x' : Text} {c c' : UInt8} (hv : ∀ d ∈ v, isDigit d = true)
    (hv' : ∀ d ∈ v', isDigit d = true) (hc : isDigit c = false) (hc' : isDigit c' = false)
    (h : v ++ c :: x = v' ++ c' :: x') : v = v' ∧ c = c' ∧ x = x' := by
  have htake : ∀ {v x : Text} {c : UInt8}, (∀ d ∈ v, isDigit d = true) → isDigit c = false →
      (v ++ c :: x).takeWhile isDigit = v := by
    intro v x c hv hc
    rw [List.takeWhile_append_of_pos hv, List.takeWhile_cons_of_neg (Bool.eq_false_iff.mp hc),
      List.append_nil]
  have hsame : v = v' := by
    rw [← htake hv hc, h, htake hv' hc']
  subst hsame
  cases List.append_cancel_left h
  exact ⟨rfl, rfl, rfl⟩

/-- The end of an element is found. -/
theorem Entry.append_inj {e e' : Entry} (he : e.IsDigits) (he' : e'.IsDigits) {x x' : Text}
    (h : e.text ++ x = e'.text ++ x') : e = e' ∧ x = x' := by
  obtain ⟨timestamp, value⟩ := e
  obtain ⟨timestamp', value'⟩ := e'
  obtain ⟨htime, hvalue⟩ := he
  obtain ⟨htime', hvalue'⟩ := he'
  simp only [Entry.text, List.append_assoc, List.append_cancel_left_eq] at h
  obtain ⟨rfl, -, h⟩ := digits_append_inj htime htime' rfl rfl h
  cases value with
  | none =>
    cases value' with
    | none =>
      have hrest := List.append_cancel_left (List.append_cancel_left (List.append_cancel_left h))
      exact ⟨rfl, hrest⟩
    | some v' =>
      -- a quote is neither a digit nor the end of a number
      have hquote := (@digits_append_inj [] v' _ _ 0x22 0x5D (fun _ hd => absurd hd List.not_mem_nil)
        (hvalue' v' rfl) rfl rfl h).2.1
      exact absurd hquote (by decide)
  | some v =>
    cases value' with
    | none =>
      have hquote := (@digits_append_inj v [] _ _ 0x5D 0x22 (hvalue v rfl)
        (fun _ hd => absurd hd List.not_mem_nil) rfl rfl h).2.1
      exact absurd hquote (by decide)
    | some v' =>
      obtain ⟨rfl, -, hrest⟩ := digits_append_inj (hvalue v rfl) (hvalue' v' rfl) rfl rfl h
      exact ⟨rfl, hrest⟩

/-- **An array is read in one way only.** -/
theorem array_inj {es es' : List Entry} (hne : es ≠ []) (hne' : es' ≠ [])
    (hes : ∀ e ∈ es, e.IsDigits) (hes' : ∀ e ∈ es', e.IsDigits) (h : array es = array es') :
    es = es' := by
  have htail : ∀ es es' : List Entry, (∀ e ∈ es, e.IsDigits) → (∀ e ∈ es', e.IsDigits) →
      es.flatMap (fun e => ascii "," ++ e.text) ++ ascii "]" =
        es'.flatMap (fun e => ascii "," ++ e.text) ++ ascii "]" → es = es' := by
    intro es
    induction es with
    | nil =>
      intro es' _ _ h
      cases es' with
      | nil => rfl
      | cons e' es' => cases h
    | cons e es ih =>
      intro es' hes hes' h
      cases es' with
      | nil => cases h
      | cons e' es' =>
        simp only [List.flatMap_cons, List.append_assoc] at h
        obtain ⟨rfl, hrest⟩ := Entry.append_inj (hes e List.mem_cons_self)
          (hes' e' List.mem_cons_self) (List.append_cancel_left h)
        rw [ih es' (fun d hd => hes d (List.mem_cons_of_mem _ hd))
          (fun d hd => hes' d (List.mem_cons_of_mem _ hd)) hrest]
  cases es with
  | nil => exact absurd rfl hne
  | cons e es =>
    cases es' with
    | nil => exact absurd rfl hne'
    | cons e' es' =>
      rw [array_cons, array_cons] at h
      simp only [List.append_assoc] at h
      obtain ⟨rfl, hrest⟩ := Entry.append_inj (hes e List.mem_cons_self)
        (hes' e' List.mem_cons_self) (List.append_cancel_left h)
      rw [htail es es' (fun d hd => hes d (List.mem_cons_of_mem _ hd))
        (fun d hd => hes' d (List.mem_cons_of_mem _ hd)) hrest]

/-! ## What the expressions spell -/

/-- An element with a number. -/
def Entry.IsNum (e : Entry) : Prop := e.IsDigits ∧ e.value.isSome = true

/-- An element without one. -/
def Entry.IsNan (e : Entry) : Prop := e.IsDigits ∧ e.value = none

theorem spells_num (w : Text) (what : Option Text) :
    Spells (.concat [.lit (ascii "["), digits, .lit (ascii ","), digits, .lit (ascii "],")]) w what ↔
      what = none ∧ ∃ e : Entry, e.IsNum ∧ w = e.text ++ ascii "," := by
  unfold digits
  simp only [spells_lit_cons, spells_star_set_cons, spells_concat_nil]
  constructor
  · rintro ⟨_, rfl, timestamp, _, htime, rfl, _, rfl, v, _, hv, rfl, _, rfl, rfl, rfl⟩
    refine ⟨rfl, ⟨timestamp, some v⟩, ⟨⟨htime, ?_⟩, rfl⟩, ?_⟩
    · rintro _ ⟨⟩
      exact hv
    · simp only [Entry.text, Option.getD_some, List.append_assoc]
      rfl
  · rintro ⟨rfl, ⟨timestamp, _ | v⟩, ⟨⟨htime, hv⟩, hsome⟩, rfl⟩
    · cases hsome
    · refine ⟨_, ?_, timestamp, _, htime, rfl, _, rfl, v, _, hv v rfl, rfl, _, rfl, rfl, rfl⟩
      simp only [Entry.text, Option.getD_some, List.append_assoc]
      rfl

theorem spells_nan_comma (w : Text) (what : Option Text) :
    Spells (.concat [.lit (ascii "["), digits, .lit (ascii ",\"nan\"],")]) w what ↔
      what = none ∧ ∃ e : Entry, e.IsNan ∧ w = e.text ++ ascii "," := by
  unfold digits
  simp only [spells_lit_cons, spells_star_set_cons, spells_concat_nil]
  constructor
  · rintro ⟨_, rfl, timestamp, _, htime, rfl, _, rfl, rfl, rfl⟩
    refine ⟨rfl, ⟨timestamp, none⟩, ⟨⟨htime, nofun⟩, rfl⟩, ?_⟩
    simp only [Entry.text, Option.getD_none, List.append_assoc]
    rfl
  · rintro ⟨rfl, ⟨timestamp, value⟩, ⟨⟨htime, hv⟩, rfl⟩, rfl⟩
    refine ⟨_, ?_, timestamp, _, htime, rfl, _, rfl, rfl, rfl⟩
    simp only [Entry.text, Option.getD_none, List.append_assoc]
    rfl

theorem spells_comma_nan (w : Text) (what : Option Text) :
    Spells (.concat [.lit (ascii ",["), digits, .lit (ascii ",\"nan\"]")]) w what ↔
      what = none ∧ ∃ e : Entry, e.IsNan ∧ w = ascii "," ++ e.text := by
  unfold digits
  simp only [spells_lit_cons, spells_star_set_cons, spells_concat_nil]
  constructor
  · rintro ⟨_, rfl, timestamp, _, htime, rfl, _, rfl, rfl, rfl⟩
    refine ⟨rfl, ⟨timestamp, none⟩, ⟨⟨htime, nofun⟩, rfl⟩, ?_⟩
    simp only [Entry.text, Option.getD_none, List.append_assoc]
    rfl
  · rintro ⟨rfl, ⟨timestamp, value⟩, ⟨⟨htime, hv⟩, rfl⟩, rfl⟩
    refine ⟨_, ?_, timestamp, _, htime, rfl, _, rfl, rfl, rfl⟩
    simp only [Entry.text, Option.getD_none, List.append_assoc]
    rfl

theorem append_comma_ne (e : Entry) : e.text ++ ascii "," ≠ [] :=
  List.append_ne_nil_of_right_ne_nil _ (List.cons_ne_nil _ _)

theorem comma_append_ne (e : Entry) : ascii "," ++ e.text ≠ [] := List.cons_ne_nil _ _

theorem spells_digits_cons {rs : List (Regex UInt8)} {w : Text} {what : Option Text} :
    Spells (.concat (digits :: rs)) w what ↔
      ∃ v u, (∀ c ∈ v, isDigit c = true) ∧ w = v ++ u ∧ Spells (.concat rs) u what :=
  spells_star_set_cons

/-- **The first expression** takes numbers, and `"nan"`s behind them. -/
theorem spells_r {text : Text} {what : Option Text} : Spells r text what ↔
    ∃ (nums : List Entry) (timestamp v : Text) (nans : List Entry), (∀ e ∈ nums, e.IsNum) ∧
      Entry.IsDigits ⟨timestamp, some v⟩ ∧ (∀ e ∈ nans, e.IsNan) ∧
      text = array (nums ++ ⟨timestamp, some v⟩ :: nans) ∧ what = some v := by
  unfold r
  simp only [spells_lit_cons, spells_star_cons spells_num append_comma_ne,
    spells_star_cons spells_comma_nan comma_append_ne, spells_group_cons, spells_concat_nil,
    spells_digits_cons]
  constructor
  · rintro ⟨_, rfl, nums, _, hnums, rfl, _, rfl, timestamp, _, htime, rfl, _, rfl, v, _, _,
      ⟨inner, hv⟩, rfl, ⟨_, rfl, nans, _, hnans, rfl, _, rfl, rfl, rfl⟩, rfl⟩
    refine ⟨nums, timestamp, v, nans, hnums, ⟨htime, ?_⟩, hnans, ?_, rfl⟩
    · rintro _ ⟨⟩
      exact (spells_star_set.mp hv).2
    · rw [array_append]
      simp only [Entry.text, Option.getD_some, List.append_assoc, List.append_nil]
  · rintro ⟨nums, timestamp, v, nans, hnums, ⟨htime, hv⟩, hnans, rfl, rfl⟩
    refine ⟨_, ?_, nums, _, hnums, rfl, _, rfl, timestamp, _, htime, rfl, _, rfl, v, _, none,
      ⟨none, spells_star_set.mpr ⟨rfl, hv v rfl⟩⟩, rfl, ⟨_, rfl, nans, _, hnans, rfl, _, rfl, rfl, rfl⟩, rfl⟩
    rw [array_append]
    simp only [Entry.text, Option.getD_some, List.append_assoc, List.append_nil]

/-- **The second expression** takes `"nan"`s. -/
theorem spells_r0 {text : Text} {what : Option Text} : Spells r0 text what ↔
    ∃ nans : List Entry, nans ≠ [] ∧ (∀ e ∈ nans, e.IsNan) ∧ text = array nans ∧
      what = none := by
  unfold r0
  simp only [spells_lit_cons, spells_star_cons spells_nan_comma append_comma_ne,
    spells_concat_nil, spells_digits_cons]
  constructor
  · rintro ⟨_, rfl, nans, _, hnans, rfl, _, rfl, timestamp, _, htime, rfl, _, rfl, _, rfl, rfl, rfl⟩
    refine ⟨nans ++ [⟨timestamp, none⟩], List.append_ne_nil_of_right_ne_nil _ (List.cons_ne_nil _ _),
      fun e he => ?_, ?_, rfl⟩
    · rcases List.mem_append.mp he with he | he
      · exact hnans e he
      · rw [List.mem_singleton.mp he]
        exact ⟨⟨htime, nofun⟩, rfl⟩
    · rw [array_append]
      simp only [Entry.text, Option.getD_none, List.append_assoc, List.flatMap_nil, List.nil_append]
      rfl
  · rintro ⟨nans, hne, hnans, rfl, rfl⟩
    rcases List.eq_nil_or_concat nans with rfl | ⟨front, ⟨timestamp, value⟩, rfl⟩
    · exact absurd rfl hne
    · rw [List.concat_eq_append] at hnans ⊢
      obtain ⟨⟨htime, -⟩, rfl⟩ := hnans _ (List.mem_append_right _ List.mem_cons_self)
      refine ⟨_, ?_, front, _, fun e he => hnans e (List.mem_append_left _ he), rfl, _, rfl, timestamp,
        _, htime, rfl, _, rfl, _, rfl, rfl, rfl⟩
      rw [array_append]
      simp only [Entry.text, Option.getD_none, List.append_assoc, List.flatMap_nil, List.nil_append]
      rfl

/-! ## The value of a text -/

/-- The digits of the last number. -/
def lastNumber (es : List Entry) : Option Text := (es.filterMap Entry.value).getLast?

theorem filterMap_nans {nans : List Entry} (h : ∀ e ∈ nans, e.value = none) :
    nans.filterMap Entry.value = [] :=
  List.filterMap_eq_nil_iff.mpr h

/-- **Numbers first**: the value is the last number, or 0. -/
theorem fluksoValue_nanLast {es : List Entry} (hne : es ≠ []) (hes : ∀ e ∈ es, e.IsDigits)
    (hlast : NanLast es) (hline : ∀ c ∈ array es, isSeparator c = false) :
    fluksoValue (array es) = (lastNumber es).elim (some 0) lexicalCast := by
  obtain ⟨nums, nans, rfl, hnums, hnans⟩ := hlast
  have hspelled : ∀ what, Spells r (array (nums ++ nans)) what →
      ∃ v, lastNumber (nums ++ nans) = some v ∧ what = some v := by
    intro what hspells
    obtain ⟨nums', timestamp, v, nans', hnums', hlast, hnans', heq, rfl⟩ := spells_r.mp hspells
    have hsame := array_inj hne (List.append_ne_nil_of_right_ne_nil _ (List.cons_ne_nil _ _)) hes
      (fun e he => by
        rcases List.mem_append.mp he with he | he
        · exact (hnums' e he).1
        · rcases List.mem_cons.mp he with rfl | he
          · exact hlast
          · exact (hnans' e he).1) heq
    refine ⟨v, ?_, rfl⟩
    unfold lastNumber
    rw [hsame, List.filterMap_append,
      List.filterMap_cons_some (show Entry.value ⟨timestamp, some v⟩ = some v from rfl),
      filterMap_nans fun e he => (hnans' e he).2, List.getLast?_concat]
  rcases List.eq_nil_or_concat nums with rfl | ⟨front, ⟨timestamp, value⟩, rfl⟩
  · rw [List.nil_append] at hspelled hne hes hline ⊢
    have hnone : lastNumber nans = none := by
      unfold lastNumber
      rw [filterMap_nans hnans]
      rfl
    have hr : searchLine isSeparator r (array nans) = none := by
      refine (searchLine_eq_none hline).mpr fun what hspells => ?_
      obtain ⟨v, hv, -⟩ := hspelled what hspells
      rw [hnone] at hv
      cases hv
    have hr0 : searchLine isSeparator r0 (array nans) ≠ none := fun h =>
      (searchLine_eq_none hline).mp h none
        (spells_r0.mpr ⟨nans, hne, fun e he => ⟨hes e he, hnans e he⟩, rfl, rfl⟩)
    unfold fluksoValue
    rw [hr, hnone]
    exact if_pos (Option.isSome_iff_ne_none.mpr hr0)
  · rw [List.concat_eq_append, List.append_assoc, List.singleton_append] at *
    have hvalue := hnums _ (List.mem_append_right _ List.mem_cons_self)
    cases value with
    | none => cases hvalue
    | some v =>
      have hr : searchLine isSeparator r (array (front ++ ⟨timestamp, some v⟩ :: nans)) ≠ none := by
        intro h
        refine (searchLine_eq_none hline).mp h (some v) (spells_r.mpr ⟨front, timestamp, v, nans,
          fun e he => ⟨hes e (List.mem_append_left _ he), hnums e (List.mem_append_left _ he)⟩,
          hes _ (List.mem_append_right _ List.mem_cons_self),
          fun e he => ⟨hes e (List.mem_append_right _ (List.mem_cons_of_mem _ he)), hnans e he⟩,
          rfl, rfl⟩)
      obtain ⟨what, hwhat⟩ := Option.ne_none_iff_exists'.mp hr
      obtain ⟨v', hv', rfl⟩ := hspelled what (spells_of_searchLine hline hwhat)
      unfold fluksoValue
      rw [hwhat, hv']
      rfl

/-- **Nothing else** has a value. -/
theorem fluksoValue_eq_none {data : Text} (hline : ∀ c ∈ data, isSeparator c = false)
    (h : ∀ es : List Entry, es ≠ [] → (∀ e ∈ es, e.IsDigits) → NanLast es → data ≠ array es) :
    fluksoValue data = none := by
  have hr : searchLine isSeparator r data = none := by
    refine (searchLine_eq_none hline).mpr fun what hspells => ?_
    obtain ⟨nums, timestamp, v, nans, hnums, hlast, hnans, heq, -⟩ := spells_r.mp hspells
    refine h _ (List.append_ne_nil_of_right_ne_nil nums (List.cons_ne_nil _ _)) ?_ ?_ heq
    · intro e he
      rcases List.mem_append.mp he with he | he
      · exact (hnums e he).1
      · rcases List.mem_cons.mp he with rfl | he
        · exact hlast
        · exact (hnans e he).1
    · refine ⟨nums ++ [⟨timestamp, some v⟩], nans, by simp, fun e he => ?_,
        fun e he => (hnans e he).2⟩
      rcases List.mem_append.mp he with he | he
      · exact (hnums e he).2
      · rw [List.mem_singleton.mp he]
        rfl
  have hr0 : searchLine isSeparator r0 data = none := by
    refine (searchLine_eq_none hline).mpr fun what hspells => ?_
    obtain ⟨nans, hne, hnans, heq, -⟩ := spells_r0.mp hspells
    exact h nans hne (fun e he => (hnans e he).1)
      ⟨[], nans, rfl, fun e he => absurd he List.not_mem_nil, fun e he => (hnans e he).2⟩ heq
  unfold fluksoValue
  rw [hr, hr0]
  rfl

/-! ## Readings -/

theorem lexicalCast_decimal (v : UInt32) : lexicalCast (decimal v.toNat) = some v := by
  have hne : decimal v.toNat ≠ [] := by
    obtain ⟨b, digits, heq, -⟩ := decimal_eq_cons v.toNat
    rw [heq]
    exact List.cons_ne_nil _ _
  unfold lexicalCast
  rw [if_neg hne, natural?_decimal, Option.bind_some, if_pos v.toNat_lt, UInt32.ofNat_toNat]

theorem Reading.isDigits (reading : Reading) : reading.entry.IsDigits := by
  refine ⟨fun c hc => isDigit_of_mem_decimal hc, fun v hv c hc => ?_⟩
  obtain ⟨n, -, rfl⟩ := Option.map_eq_some_iff.mp hv
  exact isDigit_of_mem_decimal hc

theorem isDigits_entries (readings : List Reading) :
    ∀ e ∈ readings.map Reading.entry, e.IsDigits := by
  intro e he
  obtain ⟨reading, -, rfl⟩ := List.mem_map.mp he
  exact reading.isDigits

theorem lastNumber_entries (readings : List Reading) : lastNumber (readings.map Reading.entry) =
    (readings.filterMap Reading.value).getLast?.map fun v => decimal v.toNat := by
  unfold lastNumber
  rw [List.filterMap_map, ← List.getLast?_map, List.map_filterMap]
  rfl

theorem lastFits_entries (readings : List Reading) : LastFits (readings.map Reading.entry) := by
  intro v hv
  have hlast : lastNumber (readings.map Reading.entry) = some v := hv
  rw [lastNumber_entries] at hlast
  obtain ⟨n, -, rfl⟩ := Option.map_eq_some_iff.mp hlast
  rw [lexicalCast_decimal]
  rfl

/-- Where the daemon does what it is to do: a text of the form that it looks for is an array of
readings, and the other way round. -/
def Readable (text : Text) : Prop :=
  ∀ es : List Entry, es ≠ [] → (∀ e ∈ es, e.IsDigits) → text = array es →
    ((∃ readings : List Reading, es = readings.map Reading.entry) ↔ NanLast es ∧ LastFits es)

theorem takesLast_iff {text : Text} (hline : ∀ c ∈ text, isSeparator c = false) :
    (∀ old, TakesLast text old ((fluksoValue text).or old)) ↔ Readable text := by
  constructor
  · rintro htakes es hne hes rfl
    constructor
    · rintro ⟨readings, rfl⟩
      refine ⟨?_, lastFits_entries readings⟩
      by_contra hnot
      -- no value is taken, and there was none
      have hnone : fluksoValue (array (readings.map Reading.entry)) = none := by
        refine fluksoValue_eq_none hline fun es' hne' hes' hlast' heq => hnot ?_
        rw [array_inj hne hne' hes hes' heq]
        exact hlast'
      have hnew := (htakes none).1 readings (fun h => hne (by rw [h]; rfl)) rfl
      rw [hnone] at hnew
      cases hnew
    · rintro ⟨hlast, hfits⟩
      by_contra hnot
      have hvalue := fluksoValue_nanLast hne hes hlast hline
      have hsome : ∃ v, fluksoValue (array es) = some v := by
        rw [hvalue]
        cases hnumber : lastNumber es with
        | none => exact ⟨0, rfl⟩
        | some v => exact Option.isSome_iff_exists.mp (hfits v hnumber)
      obtain ⟨v, hv⟩ := hsome
      have hnew := (htakes none).2 fun ⟨readings, hreadings, heq⟩ => hnot ⟨readings, by
        refine array_inj hne ?_ hes (isDigits_entries readings) heq
        exact fun h => hreadings (List.map_eq_nil_iff.mp h)⟩
      rw [hv] at hnew
      cases hnew
  · intro hreadable old
    constructor
    · rintro readings hreadings rfl
      have hne : readings.map Reading.entry ≠ [] := fun h =>
        hreadings (List.map_eq_nil_iff.mp h)
      obtain ⟨hlast, -⟩ := (hreadable _ hne (isDigits_entries readings) rfl).mp ⟨readings, rfl⟩
      rw [fluksoValue_nanLast hne (isDigits_entries readings) hlast hline, lastNumber_entries]
      unfold lastReading
      cases (readings.filterMap Reading.value).getLast? with
      | none => rfl
      | some v =>
        rw [Option.map_some, Option.elim_some, lexicalCast_decimal]
        rfl
    · intro hnot
      have hnone : fluksoValue text = none := by
        by_cases hform : ∃ es : List Entry, es ≠ [] ∧ (∀ e ∈ es, e.IsDigits) ∧ NanLast es ∧
            text = array es
        · obtain ⟨es, hne, hes, hlast, rfl⟩ := hform
          rw [fluksoValue_nanLast hne hes hlast hline]
          have hunfit : ¬ LastFits es := fun hfits => by
            obtain ⟨readings, rfl⟩ := (hreadable es hne hes rfl).mpr ⟨hlast, hfits⟩
            exact hnot ⟨readings, fun h => hne (by rw [h]; rfl), rfl⟩
          simp only [LastFits, not_forall] at hunfit
          obtain ⟨v, hv, hcast⟩ := hunfit
          rw [show lastNumber es = some v from hv]
          exact Option.not_isSome_iff_eq_none.mp hcast
        · exact fluksoValue_eq_none hline fun es hne hes hlast heq =>
            hform ⟨es, hne, hes, hlast, heq⟩
      rw [hnone]
      rfl

/-! ## The directory -/

theorem readWord_line (content : Text) : ∀ c ∈ readWord content, isSeparator c = false := by
  intro c hc
  have hspace := List.mem_takeWhile_imp (p := fun c => !isSpace c) hc
  refine Bool.eq_false_iff.mpr fun hseparator => ?_
  have hends : ∀ d : UInt8, d = 0x0A ∨ d = 0x0D ∨ d = 0x0C → isSpace d = true := by
    rintro d (rfl | rfl | rfl) <;> rfl
  have hcases : c = 0x0A ∨ c = 0x0D ∨ c = 0x0C := by
    unfold isSeparator at hseparator
    simpa [or_assoc] using hseparator
  rw [hends c hcases] at hspace
  cases hspace

variable {sensors : List (Text × Option Text)} {values : FluksoValues} {name : Text}

theorem updateFluksoValue_other {sensor : Text × Option Text} (h : sensor.1 ≠ name) :
    updateFluksoValue values sensor name = values name := by
  unfold updateFluksoValue
  split
  · cases sensor.2.bind fun content => fluksoValue (readWord content) with
    | none => rfl
    | some v => exact Function.update_of_ne (Ne.symm h) _ _
  · rfl

/-- What other files do. -/
theorem foldl_updateFluksoValue_other (h : name ∉ sensors.map Prod.fst) :
    sensors.foldl updateFluksoValue values name = values name := by
  induction sensors generalizing values with
  | nil => rfl
  | cons sensor sensors ih =>
    rw [List.map_cons, List.mem_cons, not_or] at h
    rw [List.foldl_cons, ih h.2, updateFluksoValue_other (Ne.symm h.1)]

/-- What a file does. -/
theorem updateFluksoValues_sensor (hnodup : (sensors.map Prod.fst).Nodup) {content : Text}
    (hmem : (name, some content) ∈ sensors) (hname : matchWhole hex32 name = true) :
    updateFluksoValues (some sensors) values name =
      (fluksoValue (readWord content)).or (values name) := by
  obtain ⟨earlier, later, rfl⟩ := List.append_of_mem hmem
  rw [List.map_append, List.map_cons, List.nodup_middle, List.nodup_cons, List.mem_append,
    not_or] at hnodup
  obtain ⟨⟨hearlier, hlater⟩, -⟩ := hnodup
  show (earlier ++ (name, some content) :: later).foldl updateFluksoValue values name = _
  rw [List.foldl_append, List.foldl_cons, foldl_updateFluksoValue_other hlater]
  have hold := @foldl_updateFluksoValue_other earlier values name hearlier
  unfold updateFluksoValue
  rw [if_pos hname, Option.bind_some]
  cases hvalue : fluksoValue (readWord content) with
  | none => exact hold
  | some v => exact Function.update_self _ _ _

/-- **The last value of each sensor** is taken, whatever the value was, if and only if the
expressions take the text for what it is. -/
theorem updateFluksoValues_takesLast (hnodup : (sensors.map Prod.fst).Nodup) {content : Text}
    (hmem : (name, some content) ∈ sensors) (hname : matchWhole hex32 name = true) :
    (∀ values, TakesLast (readWord content) (values name)
      (updateFluksoValues (some sensors) values name)) ↔ Readable (readWord content) := by
  rw [← takesLast_iff (readWord_line content)]
  constructor
  · intro h old
    have hold := h fun _ => old
    rw [updateFluksoValues_sensor hnodup hmem hname] at hold
    exact hold
  · intro h values
    rw [updateFluksoValues_sensor hnodup hmem hname]
    exact h (values name)

/-! ## Three files -/

/-- The name of a sensor. -/
def sensorName : Text := ascii "0123456789abcdef0123456789abcdef"

theorem matchWhole_sensorName : matchWhole hex32 sensorName = true := by
  have hall : sensorName.all (fun c => isDigit c || decide (0x61 ≤ c ∧ c ≤ 0x66)) = true := rfl
  exact matchWhole_iff.mpr ⟨none, spells_times_set.mpr ⟨rfl, rfl, List.all_eq_true.mp hall⟩⟩

theorem nodup_sensorName (content : Option Text) :
    ([(sensorName, content)].map Prod.fst).Nodup := List.nodup_singleton _

/-- Two numbers, and a `"nan"` behind them. -/
def nanBehind : List Reading := [⟨1, some 7⟩, ⟨2, some 5⟩, ⟨3, none⟩]

def nanBehindFile : Text := ascii "[[1,7],[2,5],[3,\"nan\"]]\n"

/-- The last number is taken. -/
theorem nanBehind_takesLast :
    readWord nanBehindFile = array (nanBehind.map Reading.entry) ∧ lastReading nanBehind = 5 ∧
      ∀ values : FluksoValues, TakesLast (readWord nanBehindFile) (values sensorName)
        (updateFluksoValues (some [(sensorName, some nanBehindFile)]) values sensorName) := by
  refine ⟨by decide, rfl, (updateFluksoValues_takesLast (nodup_sensorName _) List.mem_cons_self
    matchWhole_sensorName).mpr fun es hne hes heq => ?_⟩
  have hword : readWord nanBehindFile = array (nanBehind.map Reading.entry) := by decide
  obtain rfl := array_inj (List.cons_ne_nil _ _) hne (isDigits_entries nanBehind) hes
    (hword.symm.trans heq)
  refine ⟨fun _ => ⟨?_, lastFits_entries nanBehind⟩, fun _ => ⟨nanBehind, rfl⟩⟩
  exact ⟨[_, _], [_], rfl, by decide, by decide⟩

/-- A `"nan"` in front of a number. -/
def nanInFront : List Reading := [⟨1, none⟩, ⟨2, some 5⟩]

def nanInFrontFile : Text := ascii "[[1,\"nan\"],[2,5]]\n"

/-- **A number behind a `"nan"`** is not taken, and a value without a timestamp is. -/
theorem nanInFront_kept :
    (readWord nanInFrontFile = array (nanInFront.map Reading.entry) ∧ ∀ values : FluksoValues,
      updateFluksoValues (some [(sensorName, some nanInFrontFile)]) values sensorName =
        values sensorName) ∧
    (¬ IsReadings (ascii "[[,5]]") ∧ ∀ values : FluksoValues,
      updateFluksoValues (some [(sensorName, some (ascii "[[,5]]"))]) values sensorName =
        some 5) := by
  refine ⟨⟨by decide, fun values => ?_⟩, ?_, fun values => ?_⟩
  · rw [updateFluksoValues_sensor (nodup_sensorName _) List.mem_cons_self matchWhole_sensorName]
    have hnone : fluksoValue (readWord nanInFrontFile) = none := by decide
    rw [hnone]
    rfl
  · rintro ⟨readings, hne, heq⟩
    have hdigits : ∀ e ∈ [(⟨[], some (ascii "5")⟩ : Entry)], e.IsDigits := by
      intro e he
      rw [List.mem_singleton.mp he]
      refine ⟨fun c hc => absurd hc List.not_mem_nil, ?_⟩
      rintro _ ⟨⟩
      have hall : (ascii "5").all isDigit = true := rfl
      exact List.all_eq_true.mp hall
    have hsame := array_inj (List.cons_ne_nil _ _) (fun h => hne (List.map_eq_nil_iff.mp h))
      hdigits (isDigits_entries readings) heq
    cases readings with
    | nil => exact hne rfl
    | cons reading readings =>
      obtain ⟨b, digits, hdecimal, -⟩ := decimal_eq_cons reading.timestamp
      have htime : [] = decimal reading.timestamp :=
        congrArg Entry.timestamp (List.cons.inj hsame).1
      rw [hdecimal] at htime
      cases htime
  · rw [updateFluksoValues_sensor (nodup_sensorName _) List.mem_cons_self matchWhole_sensorName]
    have hsome : fluksoValue (readWord (ascii "[[,5]]")) = some 5 := by decide
    rw [hsome]
    rfl

end Hexabus.Host.Flukso
