import Hexabus.Host.DeviceListing
import Hexabus.Lib.Folds

/-!
# The endpoint registry

`endpoint_registry.cpp`: the table of endpoints is read from a property tree. The tree itself
is parsed by a library; a number is read from a text as a stream reads an unsigned number.
-/

namespace Hexabus.Host.EndpointRegistry

open Lib.Json Lib.Folds Hexinfo

abbrev Text := List UInt8

/-! ## Property trees -/

/-- `ptree`: a text, and children with their keys in the order of the file. -/
inductive PTree
  | node (data : Text) (children : List (Text × PTree))

namespace PTree

/-- `get_value<std::string>`. -/
def data : PTree → Text
  | .node data _ => data

def children : PTree → List (Text × PTree)
  | .node _ children => children

/-- The texts of the children with a key. -/
def texts (tree : PTree) (key : Text) : List Text :=
  (tree.children.filter fun c => c.1 = key).map fun c => c.2.data

end PTree

def isSpace (b : UInt8) : Bool := b = 0x20 || (0x09 ≤ b && b ≤ 0x0D)

/-- The sign of a number and what is behind it. -/
def sign : Text → Bool × Text
  | 0x2D :: t => (true, t)
  | 0x2B :: t => (false, t)
  | t => (false, t)

/-- A decimal number between blanks: whether a minus is in front of it, and the digits. -/
def numeral (text : Text) : Option (Bool × Text) :=
  let t := sign (text.dropWhile isSpace)
  let digits := t.2.takeWhile isDigit
  if digits ≠ [] ∧ (t.2.dropWhile isDigit).all isSpace = true then some (t.1, digits) else none

def magnitude (digits : Text) : Nat := digits.foldl (fun n b => 10 * n + (b.toNat - 0x30)) 0

/-- `get_value<uint32_t>`. A minus is accepted, and the number is negated as an unsigned one. -/
def getUint (text : Text) : Option UInt32 :=
  (numeral text).bind fun n =>
    if magnitude n.2 < 2 ^ 32 then
      some (if n.1 then 0 - UInt32.ofNat (magnitude n.2) else UInt32.ofNat (magnitude n.2))
    else none

/-! ## The registry -/

/-- `EndpointDescriptor::Access`. -/
inductive Access
  | read | write | readWrite
  deriving DecidableEq

/-- The value of an enumerator. -/
def functionCode : Function → UInt32
  | .sensor => 0
  | .actor => 1
  | .infrastructure => 2

/-- `EndpointDescriptor`. The function is the value of a variable of the enumeration. -/
structure EndpointDescriptor where
  eid : UInt32
  description : Text
  unit : Option Text
  type : DataType
  access : Access
  function : UInt32

/-- `std::map<uint32_t, EndpointDescriptor>`. -/
abbrev Table := UInt32 → Option EndpointDescriptor

/-- What a `GenericException` of `reload` says. -/
inductive RegistryError
  | fileNotFound
  | parser (what : Text)
  | invalidFile
  | invalidEid (text : Text)
  | duplicateDescriptors (eid : UInt32)
  | keyNotFound (key : Text) (eid : UInt32)
  | duplicateKey (key : Text) (eid : UInt32)
  | invalidType (text : Text) (eid : UInt32)
  | invalidAccess (text : Text) (eid : UInt32)

def RegistryError.what : RegistryError → Text
  | .fileNotFound => ascii "Endpoint registry file not found"
  | .parser what => what
  | .invalidFile => ascii "Invalid endpoint registry file"
  | .invalidEid text => ascii "Invalid EID " ++ text
  | .duplicateDescriptors eid => ascii "Duplicate descriptors for EID " ++ decimal eid.toNat
  | .keyNotFound key eid => ascii "Key '" ++ key ++ ascii "' not found for EID " ++ decimal eid.toNat
  | .duplicateKey key eid => ascii "Duplicate key '" ++ key ++ ascii "' for EID" ++ decimal eid.toNat
  | .invalidType text eid => ascii "Invalid type " ++ text ++ ascii " for EID " ++ decimal eid.toNat
  | .invalidAccess text eid =>
    ascii "Invalid access " ++ text ++ ascii " for EID " ++ decimal eid.toNat

def typeWords : List (Text × DataType) :=
  [(ascii "BOOL", .bool), (ascii "UINT8", .uint8), (ascii "UINT32", .uint32),
    (ascii "DATETIME", .datetime), (ascii "FLOAT", .float), (ascii "128STRING", .string128),
    (ascii "TIMESTAMP", .timestamp), (ascii "65BYTES", .bytes65), (ascii "16BYTES", .bytes16)]

def functionWords : List (Text × Function) :=
  [(ascii "sensor", .sensor), (ascii "actor", .actor), (ascii "infrastructure", .infrastructure)]

def accessWords : List (Text × Access) :=
  [(ascii "R", .read), (ascii "W", .write), (ascii "RW", .readWrite)]

/-- A chain of comparisons: what the first word that is equal stands for. -/
def meaning {α : Type} (words : List (Text × α)) (text : Text) : Option α :=
  (words.find? fun w => w.1 = text).map Prod.snd

/-- `single_child`. -/
def singleChild (tree : PTree) (key : Text) (eid : UInt32) : Except RegistryError Text :=
  match tree.texts key with
  | [] => .error (.keyNotFound key eid)
  | [text] => .ok text
  | _ => .error (.duplicateKey key eid)

/-- An `else` branch that throws. -/
def orThrow {α : Type} (e : RegistryError) : Option α → Except RegistryError α
  | some a => .ok a
  | none => .error e

/-- One pass of the loop. What `function` holds where no word is equal is `uninitialised`. -/
def readEntry (uninitialised : UInt32) (eids : Table) (child : Text × PTree) :
    Except RegistryError EndpointDescriptor := do
  if child.1 ≠ ascii "eid" then throw .invalidFile
  let eid ← orThrow (.invalidEid child.2.data) (getUint child.2.data)
  if (eids eid).isSome then throw (.duplicateDescriptors eid)
  let description ← singleChild child.2 (ascii "description") eid
  let unit := (child.2.texts (ascii "unit")).head?
  let typeStr ← singleChild child.2 (ascii "type") eid
  let type ← orThrow (.invalidType typeStr eid) (meaning typeWords typeStr)
  let functionStr ← singleChild child.2 (ascii "function") eid
  let function := ((meaning functionWords functionStr).map functionCode).getD uninitialised
  let accessStr ← singleChild child.2 (ascii "access") eid
  let access ← orThrow (.invalidAccess accessStr eid) (meaning accessWords accessStr)
  return { eid, description, unit, type, access, function }

/-- `eids.insert`, where the key is not taken. -/
def insert (eids : Table) (d : EndpointDescriptor) : Table := Function.update eids d.eid (some d)

/-- The loop over the children. -/
def readEntries (uninitialised : Nat → UInt32) :
    List (Text × PTree) → Table → Except RegistryError Table
  | [], eids => .ok eids
  | child :: rest, eids => do
    let d ← readEntry (uninitialised rest.length) eids child
    readEntries uninitialised rest (insert eids d)

/-- What the registry file is. -/
inductive RegistryFile
  | notFound
  | notParsed (what : Text)
  | parsed (tree : PTree)

/-- `reload`: the outcome, and the table behind it. -/
def reload (uninitialised : Nat → UInt32) (file : RegistryFile) (table : Table) :
    Except RegistryError Unit × Table :=
  match file with
  | .notFound => (.error .fileNotFound, table)
  | .notParsed what => (.error (.parser what), table)
  | .parsed tree =>
    match readEntries uninitialised tree.children fun _ => none with
    | .error e => (.error e, table)
    | .ok eids => (.ok (), eids)

/-! ## What the file says -/

/-- The number that stands in a text. -/
def writtenNumber (text : Text) : Option Int :=
  (numeral text).map fun n => if n.1 then -(magnitude n.2 : Int) else magnitude n.2

/-- The word of a child that there is once. -/
def PTree.Says {α : Type} (tree : PTree) (key : String) (words : List (Text × α)) (a : α) : Prop :=
  ∃ word, tree.texts (ascii key) = [word] ∧ meaning words word = some a

/-- A descriptor has what is written in an entry. -/
structure Describes (entry : PTree) (d : EndpointDescriptor) : Prop where
  eid : writtenNumber entry.data = some (d.eid.toNat : Int)
  description : entry.texts (ascii "description") = [d.description]
  unit : ∀ u, u ∈ entry.texts (ascii "unit") ↔ d.unit = some u
  type : entry.Says "type" typeWords d.type
  access : entry.Says "access" accessWords d.access
  function : ∃ f, entry.Says "function" functionWords f ∧ d.function = functionCode f

/-- The table has exactly the entries of the tree. -/
def Holds (table : Table) (tree : PTree) : Prop :=
  (∀ c ∈ tree.children, c.1 = ascii "eid") ∧
    ∃ ds, List.Forall₂ (fun c d => Describes c.2 d) tree.children ds ∧
      (ds.map EndpointDescriptor.eid).Nodup ∧
      ∀ eid, table eid = ds.find? fun d => d.eid = eid

/-- Either there is an exception and the table is the one from before, or it is the one of the
file. -/
def Faithful (file : RegistryFile) (before : Table) (outcome : Except RegistryError Unit × Table) :
    Prop :=
  match outcome.1 with
  | .error _ => outcome.2 = before
  | .ok _ => ∃ tree, file = .parsed tree ∧ Holds outcome.2 tree

/-! ## What is checked -/

/-- What `reload` refuses an entry for. -/
structure Sound (c : Text × PTree) : Prop where
  key : c.1 = ascii "eid"
  eid : getUint c.2.data ≠ none
  description : (c.2.texts (ascii "description")).length = 1
  type : ∃ t, c.2.Says "type" typeWords t
  function : (c.2.texts (ascii "function")).length = 1
  access : ∃ a, c.2.Says "access" accessWords a

/-- The entries pass what is checked. -/
def PTree.Passes (tree : PTree) : Prop :=
  (∀ c ∈ tree.children, Sound c) ∧ (tree.children.map fun c => getUint c.2.data).Nodup

/-- What is not checked: that the word for the function is known, that the number is none
below zero, and that there is one unit. -/
structure Plain (entry : PTree) : Prop where
  function : ∀ word ∈ entry.texts (ascii "function"), meaning functionWords word ≠ none
  eid : ∀ n, writtenNumber entry.data = some n → 0 ≤ n
  unit : ∀ u ∈ entry.texts (ascii "unit"), ∀ v ∈ entry.texts (ascii "unit"), u = v

theorem singleChild_ok_iff {tree : PTree} {key : Text} {eid : UInt32} {text : Text} :
    singleChild tree key eid = .ok text ↔ tree.texts key = [text] := by
  unfold singleChild
  constructor
  · intro h
    split at h
    · cases h
    · next hone =>
      cases h
      exact hone
    · cases h
  · intro h
    rw [h]

theorem orThrow_ok_iff {α : Type} {e : RegistryError} {o : Option α} {a : α} :
    orThrow e o = .ok a ↔ o = some a := by
  cases o <;> simp [orThrow]

theorem ite_throw_iff {α : Type} {P : Prop} [Decidable P] {e : RegistryError}
    {k : Unit → Except RegistryError α} {a : α} :
    (if P then throw e >>= k else k ()) = .ok a ↔ ¬ P ∧ k () = .ok a := by
  by_cases h : P
  · rw [if_pos h]
    exact ⟨fun h' => (by cases h'), fun h' => absurd h h'.1⟩
  · rw [if_neg h]
    exact ⟨fun h' => ⟨h, h'⟩, fun h' => h'.2⟩

/-- What comes of an entry, where `function` is `bits` unless a word is equal. -/
structure Taken (bits : UInt32) (c : Text × PTree) (d : EndpointDescriptor) : Prop where
  key : c.1 = ascii "eid"
  eid : getUint c.2.data = some d.eid
  description : c.2.texts (ascii "description") = [d.description]
  unit : d.unit = (c.2.texts (ascii "unit")).head?
  type : c.2.Says "type" typeWords d.type
  function : ∃ word, c.2.texts (ascii "function") = [word] ∧
    d.function = ((meaning functionWords word).map functionCode).getD bits
  access : c.2.Says "access" accessWords d.access

/-- **One pass of the loop.** -/
theorem readEntry_ok_iff {bits : UInt32} {eids : Table} {c : Text × PTree}
    {d : EndpointDescriptor} :
    readEntry bits eids c = .ok d ↔ eids d.eid = none ∧ Taken bits c d := by
  unfold readEntry
  simp only [ite_throw_iff, bind_ok_iff, singleChild_ok_iff, orThrow_ok_iff, not_not]
  constructor
  · rintro ⟨hkey, eid, heid, hnew, description, hdesc, typeStr, htype, type, hmeans, functionStr,
      hfunction, accessStr, haccess, access, hgranted, hd⟩
    cases hd
    exact ⟨Option.not_isSome_iff_eq_none.mp hnew, hkey, heid, hdesc, rfl,
      ⟨typeStr, htype, hmeans⟩, ⟨functionStr, hfunction, rfl⟩, accessStr, haccess, hgranted⟩
  · rintro ⟨hnew, hkey, heid, hdesc, hunit, ⟨typeStr, htype, hmeans⟩, ⟨functionStr, hfunction, hf⟩,
      accessStr, haccess, hgranted⟩
    refine ⟨hkey, d.eid, heid, Option.not_isSome_iff_eq_none.mpr hnew, d.description, hdesc,
      typeStr, htype, d.type, hmeans, functionStr, hfunction, accessStr, haccess, d.access,
      hgranted, ?_⟩
    rw [← hunit, ← hf]
    rfl

theorem find?_cons_update {d : EndpointDescriptor} {ds : List EndpointDescriptor} {eids : Table}
    (hd : ∀ e ∈ ds, e.eid ≠ d.eid) (eid : UInt32) :
    (ds.find? fun e => e.eid = eid).or (insert eids d eid) =
      ((d :: ds).find? fun e => e.eid = eid).or (eids eid) := by
  unfold insert
  by_cases h : d.eid = eid
  · subst h
    have hnone : (ds.find? fun e => e.eid = d.eid) = none :=
      List.find?_eq_none.mpr fun e he => by simpa using hd e he
    rw [hnone, List.find?_cons_of_pos (by simp), Function.update_self]
    rfl
  · rw [List.find?_cons_of_neg (by simpa using h), Function.update_of_ne (Ne.symm h)]

/-- Behind the loop every entry is found under its number. -/
theorem readEntries_ok {uninitialised : Nat → UInt32} {cs : List (Text × PTree)}
    {eids table : Table} (h : readEntries uninitialised cs eids = .ok table) :
    ∃ ds, List.Forall₂ (fun c d => ∃ bits, Taken bits c d) cs ds ∧
      (∀ d ∈ ds, eids d.eid = none) ∧ (ds.map EndpointDescriptor.eid).Nodup ∧
      ∀ eid, table eid = (ds.find? fun d => d.eid = eid).or (eids eid) := by
  induction cs generalizing eids with
  | nil =>
    cases h
    exact ⟨[], .nil, fun d hd => absurd hd List.not_mem_nil, List.nodup_nil, fun _ => rfl⟩
  | cons c cs ih =>
    obtain ⟨d, hd, hrest⟩ := bind_ok_iff.mp h
    obtain ⟨hnew, htaken⟩ := readEntry_ok_iff.mp hd
    obtain ⟨ds, hds, hfree, hnodup, hfound⟩ := ih hrest
    have hother : ∀ e ∈ ds, e.eid ≠ d.eid := by
      intro e he heq
      have hnone := hfree e he
      rw [insert, heq, Function.update_self] at hnone
      cases hnone
    refine ⟨d :: ds, .cons ⟨_, htaken⟩ hds, ?_, ?_, ?_⟩
    · intro e he
      rcases List.mem_cons.mp he with rfl | he
      · exact hnew
      · have hnone := hfree e he
        rwa [insert, Function.update_of_ne (hother e he)] at hnone
    · refine List.nodup_cons.mpr ⟨fun hmem => ?_, hnodup⟩
      obtain ⟨e, he, heq⟩ := List.mem_map.mp hmem
      exact hother e he heq
    · exact fun eid => (hfound eid).trans (find?_cons_update hother eid)

theorem Sound.exists_taken {c : Text × PTree} (h : Sound c) (bits : UInt32) :
    ∃ d, Taken bits c d := by
  obtain ⟨eid, heid⟩ := Option.ne_none_iff_exists'.mp h.eid
  obtain ⟨description, hdesc⟩ := List.length_eq_one_iff.mp h.description
  obtain ⟨type, htype⟩ := h.type
  obtain ⟨word, hword⟩ := List.length_eq_one_iff.mp h.function
  obtain ⟨access, haccess⟩ := h.access
  exact ⟨⟨eid, description, (c.2.texts (ascii "unit")).head?, type, access,
    ((meaning functionWords word).map functionCode).getD bits⟩, h.key, heid, hdesc, rfl, htype,
    ⟨word, hword, rfl⟩, haccess⟩

theorem Taken.sound {bits : UInt32} {c : Text × PTree} {d : EndpointDescriptor}
    (h : Taken bits c d) : Sound c where
  key := h.key
  eid := by
    rw [h.eid]
    exact Option.some_ne_none _
  description := by
    rw [h.description]
    rfl
  type := ⟨_, h.type⟩
  function := by
    obtain ⟨word, hword, -⟩ := h.function
    rw [hword]
    rfl
  access := ⟨_, h.access⟩

/-- The loop gets through where everything that is checked is in order. -/
theorem readEntries_succeeds {uninitialised : Nat → UInt32} {cs : List (Text × PTree)}
    {eids : Table} (hcs : ∀ c ∈ cs, Sound c) (hnodup : (cs.map fun c => getUint c.2.data).Nodup)
    (hfree : ∀ c ∈ cs, ∀ eid, getUint c.2.data = some eid → eids eid = none) :
    ∃ table, readEntries uninitialised cs eids = .ok table := by
  induction cs generalizing eids with
  | nil => exact ⟨eids, rfl⟩
  | cons c cs ih =>
    rw [List.map_cons, List.nodup_cons] at hnodup
    obtain ⟨d, hd⟩ := (hcs c List.mem_cons_self).exists_taken (uninitialised cs.length)
    have hread := readEntry_ok_iff.mpr ⟨hfree c List.mem_cons_self d.eid hd.eid, hd⟩
    obtain ⟨table, htable⟩ := @ih (insert eids d) (fun c' hc' => hcs c' (List.mem_cons_of_mem _ hc'))
      hnodup.2 fun c' hc' eid heid => by
        have hne : eid ≠ d.eid := by
          rintro rfl
          exact hnodup.1 (List.mem_map.mpr ⟨c', hc', heid.trans hd.eid.symm⟩)
        rw [insert, Function.update_of_ne hne]
        exact hfree c' (List.mem_cons_of_mem _ hc') eid heid
    exact ⟨table, bind_ok_iff.mpr ⟨d, hread, htable⟩⟩

/-! ## Results -/

/-- A number that is read is the one that is written, unless that is below zero. -/
theorem writtenNumber_of_getUint {text : Text} {v : UInt32} (h : getUint text = some v)
    (hpos : ∀ n, writtenNumber text = some n → 0 ≤ n) :
    writtenNumber text = some (v.toNat : Int) := by
  obtain ⟨⟨minus, digits⟩, hn, hv⟩ := Option.bind_eq_some_iff.mp h
  rw [Option.ite_none_right_eq_some] at hv
  obtain ⟨hlt, hv⟩ := hv
  have hwritten : writtenNumber text = some (if minus then -(magnitude digits : Int)
      else magnitude digits) := by
    rw [writtenNumber, hn]
    rfl
  have h0 := hpos _ hwritten
  have hv := Option.some.inj hv
  rw [hwritten, ← hv]
  cases minus with
  | false =>
    show some (magnitude digits : Int) = some ((UInt32.ofNat (magnitude digits)).toNat : Int)
    rw [UInt32.toNat_ofNat_of_lt' hlt]
  | true =>
    -- minus zero is the only number with a minus that is not below zero
    have hzero : magnitude digits = 0 := by
      have h0 : 0 ≤ -(magnitude digits : Int) := h0
      omega
    show some (-(magnitude digits : Int)) = some ((0 - UInt32.ofNat (magnitude digits)).toNat : Int)
    rw [hzero]
    rfl

theorem Taken.describes {bits : UInt32} {c : Text × PTree} {d : EndpointDescriptor}
    (h : Taken bits c d) (hc : Plain c.2) : Describes c.2 d where
  eid := writtenNumber_of_getUint h.eid hc.eid
  description := h.description
  unit := by
    intro u
    rw [h.unit, List.head?_eq_some_iff]
    constructor
    · intro hu
      obtain ⟨v, vs, hvs⟩ := List.exists_cons_of_ne_nil (List.ne_nil_of_mem hu)
      have hv : v ∈ c.2.texts (ascii "unit") := by
        rw [hvs]
        exact List.mem_cons_self
      exact ⟨vs, hc.unit v hv u hu ▸ hvs⟩
    · rintro ⟨vs, hvs⟩
      rw [hvs]
      exact List.mem_cons_self
  type := h.type
  access := h.access
  function := by
    obtain ⟨word, hword, hd⟩ := h.function
    have hmem : word ∈ c.2.texts (ascii "function") := by
      rw [hword]
      exact List.mem_cons_self
    obtain ⟨f, hf⟩ := Option.ne_none_iff_exists'.mp (hc.function word hmem)
    rw [hf] at hd
    exact ⟨f, ⟨word, hword, hf⟩, hd⟩

theorem Describes.plain {entry : PTree} {d : EndpointDescriptor} (h : Describes entry d) :
    Plain entry where
  function := by
    obtain ⟨f, ⟨word, hword, hf⟩, -⟩ := h.function
    intro word' hmem
    rw [hword, List.mem_singleton] at hmem
    rw [hmem, hf]
    exact Option.some_ne_none f
  eid := by
    intro n hn
    rw [h.eid] at hn
    have hn := Option.some.inj hn
    omega
  unit := by
    intro u hu v hv
    exact Option.some.inj (((h.unit u).mp hu).symm.trans ((h.unit v).mp hv))

theorem map_getUint {cs : List (Text × PTree)} {ds : List EndpointDescriptor}
    (h : List.Forall₂ (fun c d => ∃ bits, Taken bits c d) cs ds) :
    (cs.map fun c => getUint c.2.data) = (ds.map EndpointDescriptor.eid).map some := by
  induction h with
  | nil => rfl
  | cons hd _ ih =>
    obtain ⟨bits, hd⟩ := hd
    rw [List.map_cons, List.map_cons, List.map_cons, hd.eid, ih]

/-- The loop gets through exactly where everything that is checked is in order. -/
theorem readEntries_ok_iff_passes {uninitialised : Nat → UInt32} {tree : PTree} :
    (∃ table, readEntries uninitialised tree.children (fun _ => none) = .ok table) ↔
      tree.Passes := by
  constructor
  · rintro ⟨table, h⟩
    obtain ⟨ds, hds, -, hnodup, -⟩ := readEntries_ok h
    constructor
    · have hboth : List.Forall₂ (fun c d => Sound c ∧ ∃ bits, Taken bits c d) tree.children ds :=
        hds.imp fun c d ⟨bits, hd⟩ => ⟨hd.sound, bits, hd⟩
      exact ((List.forall₂_and_left _ _).mp hboth).1
    · rw [map_getUint hds]
      exact hnodup.map (Option.some_injective _)
  · rintro ⟨hsound, hnodup⟩
    exact readEntries_succeeds hsound hnodup fun _ _ _ _ => rfl

/-- **The registry is loaded as the file says, or not at all**, exactly where a file that passes
the checks has a known word for every function, no number below zero and no two units in one
entry. -/
theorem reload_faithful (uninitialised : Nat → UInt32) (file : RegistryFile) (before : Table) :
    Faithful file before (reload uninitialised file before) ↔
      ∀ tree, file = .parsed tree → tree.Passes → ∀ c ∈ tree.children, Plain c.2 := by
  cases file with
  | notFound => exact ⟨fun _ _ h => (by cases h), fun _ => rfl⟩
  | notParsed what => exact ⟨fun _ _ h => (by cases h), fun _ => rfl⟩
  | parsed tree =>
    cases hread : readEntries uninitialised tree.children (fun _ => none) with
    | error e =>
      have hout : reload uninitialised (.parsed tree) before = (.error e, before) := by
        simp only [reload, hread]
      rw [hout]
      refine ⟨fun _ tree' h hpass => ?_, fun _ => rfl⟩
      cases h
      obtain ⟨table, htable⟩ := readEntries_ok_iff_passes.mpr hpass
      rw [hread] at htable
      cases htable
    | ok table =>
      have hout : reload uninitialised (.parsed tree) before = (.ok (), table) := by
        simp only [reload, hread]
      rw [hout]
      constructor
      · rintro ⟨tree', h', hkeys, ds, hds, -⟩ tree'' h'' - c hc
        cases h'
        cases h''
        have hboth : List.Forall₂ (fun c d => Plain c.2 ∧ Describes c.2 d) tree.children ds :=
          hds.imp fun c d hd => ⟨hd.plain, hd⟩
        exact ((List.forall₂_and_left _ _).mp hboth).1 c hc
      · intro hplain
        obtain ⟨ds, hds, -, hnodup, hfound⟩ := readEntries_ok hread
        have hpass := readEntries_ok_iff_passes.mp ⟨table, hread⟩
        refine ⟨tree, rfl, fun c hc => (hpass.1 c hc).key, ds, ?_, hnodup, fun eid => ?_⟩
        · refine ((List.forall₂_and_left _ _).mpr ⟨hplain tree rfl hpass, hds⟩).imp ?_
          rintro c d ⟨hc, bits, hd⟩
          exact hd.describes hc
        · show table eid = _
          rw [hfound eid, Option.or_none]

/-- An entry with a word for its function that is none. -/
def unknownFunction : PTree :=
  .node [] [(ascii "eid", .node (ascii "7") [(ascii "description", .node (ascii "lamp") []),
    (ascii "type", .node (ascii "BOOL") []), (ascii "function", .node (ascii "Actor") []),
    (ascii "access", .node (ascii "RW") [])])]

/-- It is loaded, and the function is whatever the variable held. -/
theorem reload_unknownFunction :
    ((reload (fun _ => 77) (.parsed unknownFunction) fun _ => none).2 7).map
        EndpointDescriptor.function = some 77 ∧
      ¬ Faithful (.parsed unknownFunction) (fun _ => none)
        (reload (fun _ => 77) (.parsed unknownFunction) fun _ => none) := by
  refine ⟨rfl, ?_⟩
  rintro ⟨tree, htree, -, ds, hds, -⟩
  cases htree
  cases hds with
  | cons hd _ =>
    obtain ⟨f, ⟨word, hword, hf⟩, -⟩ := hd.function
    have heq : [ascii "Actor"] = [word] := hword
    rw [← (List.cons_eq_cons.mp heq).1] at hf
    cases hf

end Hexabus.Host.EndpointRegistry
