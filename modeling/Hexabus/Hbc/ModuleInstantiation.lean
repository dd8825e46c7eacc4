import Hexabus.Hbc.GraphChecks
import Hexabus.Lib.Folds

/-!
# Module instantiation

`module_instantiation.cpp` of the compiler: an instance of a module is a state machine, copied
from the module with the parameters in the places of the placeholders. The line number of an
endpoint's name is not copied.
-/

namespace Hexabus.Hbc

open Lib.Folds

/-! ## Modules and instances -/

/-- `inst_parameter_doc`. -/
inductive InstParameterDoc
  | constant (value : ConstantDoc)
  | identifier (name : Identifier)
  deriving DecidableEq

/-- `module_doc`; `placeholderlist` has the names of its placeholders. -/
structure ModuleDoc where
  lineno : Nat
  name : Identifier
  placeholderlist : List Text
  stateset : List Identifier
  inClauses : List InClauseDoc
  readFromFile : Text

/-- `instantiation_doc`. -/
structure InstantiationDoc where
  lineno : Nat
  name : Identifier
  moduleclass : Identifier
  parameters : List InstParameterDoc
  readFromFile : Text

/-- The blocks of a program that the pass looks at. -/
inductive HbcBlock
  | statemachine (doc : StatemachineDoc)
  | instantiation (doc : InstantiationDoc)

/-- Why an instance cannot be made, with the file and what else the message names. `badGet` is
what escapes while the message for an endpoint's placeholder is put together. -/
inductive InstantiationError
  | moduleNotFound (file : Text) (lineno : Nat) (moduleclass : Text)
  | parameterCount (file : Text) (lineno : Nat)
  | devicePlaceholderNotFound (file name : Text)
  | endpointPlaceholderNotFound (file name : Text)
  | constantPlaceholderNotFound (name : Text)
  | badGet
  | expectedDeviceName (file : Text) (lineno : Nat) (placeholder : Text)
  | expectedEndpointName (file : Text) (lineno : Nat) (placeholder : Text)
  | expectedConstant (file : Text) (lineno : Nat)
  | deviceDoesNotExist (file : Text) (lineno : Nat) (device : Text)
  | endpointDoesNotExist (file : Text) (lineno : Nat) (endpoint : Text)
  deriving DecidableEq

/-- The tables: the modules, and which names of devices and endpoints there are. -/
structure ModuleTables where
  modules : Text → Option ModuleDoc
  devices : Text → Bool
  endpoints : Text → Bool

/-! ## The visitor -/

/-- What the visitor works with: its members, and the lists that it hands on. `unset` is what
the line number of a new `global_endpoint_id_doc` happens to be. -/
structure Instantiating where
  tables : ModuleTables
  instReadFromFile : Text
  instLineno : Nat
  modReadFromFile : Text
  placeholders : List Text
  parameters : List InstParameterDoc
  unset : GlobalEndpointIdDoc → Nat

/-- `placeholder_index`: the last placeholder of that name. -/
def placeholderIndex (placeholders : List Text) (name : Text) : Option Nat :=
  (List.range placeholders.length).foldl
    (fun index i => if placeholders[i]? = some name then some i else index) none

namespace Instantiating

variable (m : Instantiating)

/-- `parameters[placeholder_index]`; the two lists are of one length. -/
def parameter (name : Text) : Option InstParameterDoc :=
  (placeholderIndex m.placeholders name).bind fun i => m.parameters[i]?

/-- The device alias of a `global_endpoint_id_doc`. -/
def deviceAlias (geid : GlobalEndpointIdDoc) : Except InstantiationError GeidElement :=
  match geid.deviceAlias with
  | .literal name => .ok (.literal name)
  | .placeholder name =>
    match m.parameter name with
    | none => .error (.devicePlaceholderNotFound m.modReadFromFile name)
    | some (.constant _) => .error (.expectedDeviceName m.modReadFromFile geid.lineno name)
    | some (.identifier device) =>
      if m.tables.devices device.val then .ok (.literal device)
      else .error (.deviceDoesNotExist m.modReadFromFile geid.lineno device.val)

/-- Its endpoint name. -/
def endpointName (geid : GlobalEndpointIdDoc) : Except InstantiationError GeidElement :=
  match geid.endpointName with
  | .literal name => .ok (.literal name)
  | .placeholder name =>
    match m.parameter name with
    | none =>
      match geid.deviceAlias with
      | .literal _ => .error .badGet
      | .placeholder _ => .error (.endpointPlaceholderNotFound m.modReadFromFile name)
    | some (.constant _) => .error (.expectedEndpointName m.instReadFromFile m.instLineno name)
    | some (.identifier endpoint) =>
      if m.tables.endpoints endpoint.val then .ok (.literal endpoint)
      else .error (.endpointDoesNotExist m.instReadFromFile m.instLineno endpoint.val)

def geid (geid : GlobalEndpointIdDoc) : Except InstantiationError GlobalEndpointIdDoc := do
  let deviceAlias ← m.deviceAlias geid
  let endpointName ← m.endpointName geid
  return ⟨deviceAlias, m.unset geid, endpointName⟩

def constant : ConstantDoc → Except InstantiationError ConstantDoc
  | .placeholder name =>
    match m.parameter name with
    | none => .error (.constantPlaceholderNotFound name)
    | some (.constant value) => .ok value
    | some (.identifier _) => .error (.expectedConstant m.instReadFromFile m.instLineno)
  | .uint value => .ok (.uint value)
  | .float bits => .ok (.float bits)

def condition : ConditionDoc → Except InstantiationError ConditionDoc
  | .tautology value => .ok (.tautology value)
  | .atomic geid compOp constant => do
    let geid ← m.geid geid
    let constant ← m.constant constant
    return .atomic geid compOp constant
  | .timeout seconds => do
    let seconds ← m.constant seconds
    return .timeout seconds
  | .timer fields op value => do
    let value ← m.constant value
    return .timer fields op value
  | .compound conditionA boolOp conditionB => do
    let conditionA ← condition conditionA
    let conditionB ← condition conditionB
    return .compound conditionA boolOp conditionB

def command (command : CommandDoc) : Except InstantiationError CommandDoc := do
  let geid ← m.geid command.geid
  let constant ← m.constant command.constant
  return ⟨command.lineno, geid, constant⟩

def commandBlock (commands : CommandBlockDoc) : Except InstantiationError CommandBlockDoc := do
  let instCommands ← commands.commands.mapM m.command
  return ⟨instCommands, commands.gotoCommand⟩

def guardedCommandBlock (block : GuardedCommandBlockDoc) :
    Except InstantiationError GuardedCommandBlockDoc := do
  let condition ← m.condition block.condition
  let commandBlock ← m.commandBlock block.commandBlock
  return ⟨condition, commandBlock⟩

def ifClause (clause : IfClauseDoc) : Except InstantiationError IfClauseDoc := do
  let ifBlock ← m.guardedCommandBlock clause.ifBlock
  let elseIfBlocks ← clause.elseIfBlocks.mapM m.guardedCommandBlock
  return ⟨ifBlock, elseIfBlocks⟩

def inClause (clause : InClauseDoc) : Except InstantiationError InClauseDoc := do
  let ifClauses ← clause.ifClauses.mapM m.ifClause
  return ⟨clause.lineno, clause.name, ifClauses⟩

end Instantiating

/-- `inst:` and the two names. -/
def instanceName (inst : InstantiationDoc) : Text :=
  "inst:".toList ++ inst.name.val ++ ':' :: inst.moduleclass.val

/-- The visitor on an `instantiation_doc`. -/
def instantiate (tables : ModuleTables) (unset : GlobalEndpointIdDoc → Nat)
    (inst : InstantiationDoc) : Except InstantiationError StatemachineDoc :=
  match tables.modules inst.moduleclass.val with
  | none => .error (.moduleNotFound inst.readFromFile inst.lineno inst.moduleclass.val)
  | some module =>
    if module.placeholderlist.length ≠ inst.parameters.length then
      .error (.parameterCount inst.readFromFile inst.lineno)
    else do
      let m : Instantiating := ⟨tables, inst.readFromFile, inst.lineno, module.readFromFile,
        module.placeholderlist, inst.parameters, unset⟩
      let inClauses ← module.inClauses.mapM m.inClause
      return ⟨inst.lineno, instanceName inst, module.stateset, inClauses, []⟩

/-- `ModuleInstantiation`: the instances come behind the blocks of the program. -/
def moduleInstantiation (tables : ModuleTables) (unset : GlobalEndpointIdDoc → Nat)
    (blocks : List HbcBlock) : Except InstantiationError HbcDoc := do
  let instances ← (blocks.filterMap fun block => match block with
    | .instantiation inst => some inst
    | .statemachine _ => none).mapM (instantiate tables unset)
  return (blocks.filterMap fun block => match block with
    | .statemachine doc => some doc
    | .instantiation _ => none) ++ instances

/-! ## Substitution -/

/-- What a module is made of besides its structure: names of endpoints and constants. -/
inductive Part
  | geid (doc : GlobalEndpointIdDoc)
  | constant (doc : ConstantDoc)

/-- What becomes of the two. -/
structure PartMap where
  geid : GlobalEndpointIdDoc → GlobalEndpointIdDoc
  constant : ConstantDoc → ConstantDoc

def Part.map (f : PartMap) : Part → Part
  | .geid doc => .geid (f.geid doc)
  | .constant doc => .constant (f.constant doc)

namespace ConditionDoc

def parts : ConditionDoc → List Part
  | .tautology _ => []
  | .atomic geid _ constant => [.geid geid, .constant constant]
  | .timeout seconds => [.constant seconds]
  | .timer _ _ value => [.constant value]
  | .compound conditionA _ conditionB => conditionA.parts ++ conditionB.parts

def map (f : PartMap) : ConditionDoc → ConditionDoc
  | .tautology value => .tautology value
  | .atomic geid compOp constant => .atomic (f.geid geid) compOp (f.constant constant)
  | .timeout seconds => .timeout (f.constant seconds)
  | .timer fields op value => .timer fields op (f.constant value)
  | .compound conditionA boolOp conditionB =>
    .compound (conditionA.map f) boolOp (conditionB.map f)

end ConditionDoc

def CommandDoc.parts (command : CommandDoc) : List Part :=
  [.geid command.geid, .constant command.constant]

def CommandDoc.map (f : PartMap) (command : CommandDoc) : CommandDoc :=
  ⟨command.lineno, f.geid command.geid, f.constant command.constant⟩

def CommandBlockDoc.parts (block : CommandBlockDoc) : List Part :=
  block.commands.flatMap CommandDoc.parts

def CommandBlockDoc.map (f : PartMap) (block : CommandBlockDoc) : CommandBlockDoc :=
  ⟨block.commands.map (CommandDoc.map f), block.gotoCommand⟩

def GuardedCommandBlockDoc.parts (block : GuardedCommandBlockDoc) : List Part :=
  block.condition.parts ++ block.commandBlock.parts

def GuardedCommandBlockDoc.map (f : PartMap) (block : GuardedCommandBlockDoc) :
    GuardedCommandBlockDoc := ⟨block.condition.map f, block.commandBlock.map f⟩

def IfClauseDoc.parts (clause : IfClauseDoc) : List Part :=
  clause.ifBlock.parts ++ clause.elseIfBlocks.flatMap GuardedCommandBlockDoc.parts

def IfClauseDoc.map (f : PartMap) (clause : IfClauseDoc) : IfClauseDoc :=
  ⟨clause.ifBlock.map f, clause.elseIfBlocks.map (GuardedCommandBlockDoc.map f)⟩

def InClauseDoc.parts (clause : InClauseDoc) : List Part :=
  clause.ifClauses.flatMap IfClauseDoc.parts

/-- **The same clause** with other endpoints and constants: the names of states, the order of
clauses and commands and the nesting of conditions stay. -/
def InClauseDoc.map (f : PartMap) (clause : InClauseDoc) : InClauseDoc :=
  ⟨clause.lineno, clause.name, clause.ifClauses.map (IfClauseDoc.map f)⟩

/-! Where a placeholder stands says what it is to be. -/

inductive Kind
  | device
  | endpoint
  | constant

/-- The placeholders in an element, each with its kind. -/
def GeidElement.uses (kind : Kind) : GeidElement → List (Kind × Text)
  | .literal _ => []
  | .placeholder name => [(kind, name)]

def ConstantDoc.uses : ConstantDoc → List (Kind × Text)
  | .placeholder name => [(.constant, name)]
  | .uint _ | .float _ => []

def Part.uses : Part → List (Kind × Text)
  | .geid doc => doc.deviceAlias.uses .device ++ doc.endpointName.uses .endpoint
  | .constant doc => doc.uses

/-- The argument fits where it is used: it is a constant, or the name of a device or endpoint. -/
def ModuleTables.Suits (tables : ModuleTables) : Kind → InstParameterDoc → Prop
  | .device, .identifier name => tables.devices name.val = true
  | .endpoint, .identifier name => tables.endpoints name.val = true
  | .constant, .constant _ => True
  | _, _ => False

/-- The argument in the place of a placeholder. -/
def GeidElement.subst (argument : Text → Option InstParameterDoc) : GeidElement → GeidElement
  | .literal name => .literal name
  | .placeholder name =>
    match argument name with
    | some (.identifier value) => .literal value
    | _ => .placeholder name

def ConstantDoc.subst (argument : Text → Option InstParameterDoc) : ConstantDoc → ConstantDoc
  | .placeholder name =>
    match argument name with
    | some (.constant value) => value
    | _ => .placeholder name
  | .uint value => .uint value
  | .float bits => .float bits

/-- The substitution, with line numbers of the endpoints' names. -/
def substitution (argument : Text → Option InstParameterDoc) (line : GlobalEndpointIdDoc → Nat) :
    PartMap where
  geid doc := ⟨doc.deviceAlias.subst argument, line doc, doc.endpointName.subst argument⟩
  constant doc := doc.subst argument

/-! ## The visitor substitutes -/

namespace Instantiating

variable {m : Instantiating}

/-- A placeholder has an argument of its kind. -/
def Fits (m : Instantiating) (use : Kind × Text) : Prop :=
  ∃ argument, m.parameter use.2 = some argument ∧ m.tables.Suits use.1 argument

def partMap (m : Instantiating) : PartMap := substitution m.parameter m.unset

theorem deviceAlias_ok {doc : GlobalEndpointIdDoc} {element : GeidElement} :
    m.deviceAlias doc = .ok element ↔ (∀ use ∈ doc.deviceAlias.uses .device, m.Fits use) ∧
      element = doc.deviceAlias.subst m.parameter := by
  unfold deviceAlias
  cases doc.deviceAlias with
  | literal name =>
    simp only [GeidElement.uses, List.not_mem_nil, false_imp_iff, implies_true, true_and,
      GeidElement.subst, Except.ok.injEq, eq_comm]
  | placeholder name =>
    simp only [GeidElement.uses, List.forall_mem_singleton, GeidElement.subst, Fits]
    cases hargument : m.parameter name with
    | none => simp
    | some argument =>
      cases argument with
      | constant value => simp [ModuleTables.Suits]
      | identifier device =>
        by_cases hdevice : m.tables.devices device.val = true
        · simp only [if_pos hdevice]
          constructor
          · rintro ⟨⟩
            exact ⟨⟨_, rfl, hdevice⟩, rfl⟩
          · rintro ⟨-, rfl⟩
            rfl
        · simp [ModuleTables.Suits, hdevice]

theorem endpointName_ok {doc : GlobalEndpointIdDoc} {element : GeidElement} :
    m.endpointName doc = .ok element ↔ (∀ use ∈ doc.endpointName.uses .endpoint, m.Fits use) ∧
      element = doc.endpointName.subst m.parameter := by
  unfold endpointName
  cases doc.endpointName with
  | literal name =>
    simp only [GeidElement.uses, List.not_mem_nil, false_imp_iff, implies_true, true_and,
      GeidElement.subst, Except.ok.injEq, eq_comm]
  | placeholder name =>
    simp only [GeidElement.uses, List.forall_mem_singleton, GeidElement.subst, Fits]
    cases hargument : m.parameter name with
    | none => cases doc.deviceAlias <;> simp
    | some argument =>
      cases argument with
      | constant value => simp [ModuleTables.Suits]
      | identifier endpoint =>
        by_cases hendpoint : m.tables.endpoints endpoint.val = true
        · simp only [if_pos hendpoint]
          constructor
          · rintro ⟨⟩
            exact ⟨⟨_, rfl, hendpoint⟩, rfl⟩
          · rintro ⟨-, rfl⟩
            rfl
        · simp [ModuleTables.Suits, hendpoint]

/-- Every placeholder in the part has an argument. -/
def FitsPart (m : Instantiating) (part : Part) : Prop := ∀ use ∈ part.uses, m.Fits use

theorem constant_ok {doc value : ConstantDoc} : m.constant doc = .ok value ↔
    m.FitsPart (.constant doc) ∧ value = m.partMap.constant doc := by
  unfold constant FitsPart Part.uses partMap substitution
  cases doc with
  | placeholder name =>
    simp only [ConstantDoc.uses, List.forall_mem_singleton, ConstantDoc.subst, Fits]
    cases hargument : m.parameter name with
    | none => simp
    | some argument =>
      cases argument with
      | constant value' =>
        constructor
        · rintro ⟨⟩
          exact ⟨⟨_, rfl, trivial⟩, rfl⟩
        · rintro ⟨-, rfl⟩
          rfl
      | identifier name => simp [ModuleTables.Suits]
  | uint value => simp [ConstantDoc.uses, ConstantDoc.subst, eq_comm]
  | float bits => simp [ConstantDoc.uses, ConstantDoc.subst, eq_comm]

theorem geid_ok {doc doc' : GlobalEndpointIdDoc} : m.geid doc = .ok doc' ↔
    m.FitsPart (.geid doc) ∧ doc' = m.partMap.geid doc := by
  unfold geid FitsPart Part.uses
  rw [bind_ok_iff, List.forall_mem_append]
  constructor
  · rintro ⟨device, hdevice, hrest⟩
    obtain ⟨endpoint, hendpoint, hreturn⟩ := bind_ok_iff.mp hrest
    cases hreturn
    obtain ⟨hfits, rfl⟩ := deviceAlias_ok.mp hdevice
    obtain ⟨hfits', rfl⟩ := endpointName_ok.mp hendpoint
    exact ⟨⟨hfits, hfits'⟩, rfl⟩
  · rintro ⟨⟨hfits, hfits'⟩, rfl⟩
    exact ⟨_, deviceAlias_ok.mpr ⟨hfits, rfl⟩, bind_ok_iff.mpr
      ⟨_, endpointName_ok.mpr ⟨hfits', rfl⟩, rfl⟩⟩

/-- What is returned. -/
theorem return_ok {α : Type} {a b : α} :
    (return a : Except InstantiationError α) = .ok b ↔ b = a := by
  constructor
  · rintro ⟨⟩
    rfl
  · rintro rfl
    rfl

theorem condition_ok {doc doc' : ConditionDoc} : m.condition doc = .ok doc' ↔
    (∀ part ∈ doc.parts, m.FitsPart part) ∧ doc' = doc.map m.partMap := by
  induction doc generalizing doc' with
  | tautology value =>
    have hnone : ∀ part ∈ ConditionDoc.parts (.tautology value), m.FitsPart part :=
      fun part hpart => absurd hpart List.not_mem_nil
    exact return_ok.trans (and_iff_right hnone).symm
  | atomic doc compOp value =>
    rw [condition, bind_ok_of_iff fun _ => geid_ok, bind_ok_of_iff fun _ => constant_ok, return_ok,
      ConditionDoc.parts, List.forall_mem_cons, List.forall_mem_singleton, and_assoc]
    rfl
  | timeout seconds =>
    rw [condition, bind_ok_of_iff fun _ => constant_ok, return_ok, ConditionDoc.parts,
      List.forall_mem_singleton]
    rfl
  | timer fields op value =>
    rw [condition, bind_ok_of_iff fun _ => constant_ok, return_ok, ConditionDoc.parts,
      List.forall_mem_singleton]
    rfl
  | compound conditionA boolOp conditionB iha ihb =>
    rw [condition, bind_ok_of_iff fun _ => iha, bind_ok_of_iff fun _ => ihb, return_ok,
      ConditionDoc.parts, List.forall_mem_append, and_assoc]
    rfl

theorem command_ok (doc doc' : CommandDoc) : m.command doc = .ok doc' ↔
    (∀ part ∈ doc.parts, m.FitsPart part) ∧ doc' = doc.map m.partMap := by
  rw [command, bind_ok_of_iff fun _ => geid_ok, bind_ok_of_iff fun _ => constant_ok, return_ok,
    CommandDoc.parts, List.forall_mem_cons, List.forall_mem_singleton, and_assoc]
  rfl

theorem commandBlock_ok {doc doc' : CommandBlockDoc} : m.commandBlock doc = .ok doc' ↔
    (∀ part ∈ doc.parts, m.FitsPart part) ∧ doc' = doc.map m.partMap := by
  rw [commandBlock, bind_ok_of_iff fun _ => mapM_ok_of_iff command_ok, return_ok,
    CommandBlockDoc.parts, List.forall_mem_flatMap]
  rfl

theorem guardedCommandBlock_ok (doc doc' : GuardedCommandBlockDoc) :
    m.guardedCommandBlock doc = .ok doc' ↔
      (∀ part ∈ doc.parts, m.FitsPart part) ∧ doc' = doc.map m.partMap := by
  rw [guardedCommandBlock, bind_ok_of_iff fun _ => condition_ok,
    bind_ok_of_iff fun _ => commandBlock_ok, return_ok, GuardedCommandBlockDoc.parts,
    List.forall_mem_append, and_assoc]
  rfl

theorem ifClause_ok (doc doc' : IfClauseDoc) : m.ifClause doc = .ok doc' ↔
    (∀ part ∈ doc.parts, m.FitsPart part) ∧ doc' = doc.map m.partMap := by
  rw [ifClause, bind_ok_of_iff (guardedCommandBlock_ok _),
    bind_ok_of_iff fun _ => mapM_ok_of_iff guardedCommandBlock_ok, return_ok, IfClauseDoc.parts,
    List.forall_mem_append, List.forall_mem_flatMap, and_assoc]
  rfl

/-- **The visitor substitutes** where every placeholder has an argument of its kind, and
stops where one has not. -/
theorem inClause_ok (doc doc' : InClauseDoc) : m.inClause doc = .ok doc' ↔
    (∀ part ∈ doc.parts, m.FitsPart part) ∧ doc' = doc.map m.partMap := by
  rw [inClause, bind_ok_of_iff fun _ => mapM_ok_of_iff ifClause_ok, return_ok, InClauseDoc.parts,
    List.forall_mem_flatMap]
  rfl

end Instantiating

/-! ## Parts of a copy -/

section

variable {f f' : PartMap}

theorem flatMap_parts_map {α : Type} {parts : α → List Part} {g : α → α}
    (h : ∀ a, parts (g a) = (parts a).map (Part.map f)) (l : List α) :
    (l.map g).flatMap parts = (l.flatMap parts).map (Part.map f) := by
  rw [List.flatMap_map, List.map_flatMap]
  exact congrArg l.flatMap (funext h)

theorem ConditionDoc.parts_map (doc : ConditionDoc) :
    (doc.map f).parts = doc.parts.map (Part.map f) := by
  induction doc with
  | tautology | atomic | timeout | timer => rfl
  | compound conditionA boolOp conditionB iha ihb =>
    rw [ConditionDoc.map, ConditionDoc.parts, iha, ihb, ConditionDoc.parts, List.map_append]

theorem CommandBlockDoc.parts_map (doc : CommandBlockDoc) :
    (doc.map f).parts = doc.parts.map (Part.map f) :=
  @flatMap_parts_map f CommandDoc CommandDoc.parts (CommandDoc.map f) (fun _ => rfl) doc.commands

theorem GuardedCommandBlockDoc.parts_map (doc : GuardedCommandBlockDoc) :
    (doc.map f).parts = doc.parts.map (Part.map f) := by
  unfold GuardedCommandBlockDoc.parts
  rw [List.map_append, ← ConditionDoc.parts_map, ← CommandBlockDoc.parts_map]
  rfl

theorem IfClauseDoc.parts_map (doc : IfClauseDoc) :
    (doc.map f).parts = doc.parts.map (Part.map f) := by
  unfold IfClauseDoc.parts
  rw [List.map_append, ← GuardedCommandBlockDoc.parts_map,
    ← flatMap_parts_map GuardedCommandBlockDoc.parts_map]
  rfl

theorem InClauseDoc.parts_map (doc : InClauseDoc) :
    (doc.map f).parts = doc.parts.map (Part.map f) :=
  flatMap_parts_map IfClauseDoc.parts_map doc.ifClauses

/-! Two maps that agree on the parts make the same copy. -/

theorem map_congr_of_parts {α : Type} {parts : α → List Part} {map : PartMap → α → α}
    (hmap : ∀ a, (∀ part ∈ parts a, part.map f = part.map f') → map f a = map f' a) {l : List α}
    (h : ∀ part ∈ l.flatMap parts, part.map f = part.map f') : l.map (map f) = l.map (map f') :=
  List.map_congr_left fun a ha =>
    hmap a fun part hpart => h part (List.mem_flatMap.mpr ⟨a, ha, hpart⟩)

theorem geid_eq_of_map {doc : GlobalEndpointIdDoc}
    (h : (Part.geid doc).map f = (Part.geid doc).map f') : f.geid doc = f'.geid doc :=
  Part.geid.inj h

theorem constant_eq_of_map {doc : ConstantDoc}
    (h : (Part.constant doc).map f = (Part.constant doc).map f') :
    f.constant doc = f'.constant doc := Part.constant.inj h

theorem ConditionDoc.map_congr (doc : ConditionDoc)
    (h : ∀ part ∈ doc.parts, part.map f = part.map f') : doc.map f = doc.map f' := by
  induction doc with
  | tautology value => rfl
  | atomic geid compOp constant =>
    obtain ⟨hgeid, hconstant⟩ := List.forall_mem_cons.mp h
    rw [ConditionDoc.map, ConditionDoc.map, geid_eq_of_map hgeid,
      constant_eq_of_map (hconstant _ List.mem_cons_self)]
  | timeout seconds =>
    rw [ConditionDoc.map, ConditionDoc.map, constant_eq_of_map (h _ List.mem_cons_self)]
  | timer fields op value =>
    rw [ConditionDoc.map, ConditionDoc.map, constant_eq_of_map (h _ List.mem_cons_self)]
  | compound conditionA boolOp conditionB iha ihb =>
    obtain ⟨ha, hb⟩ := List.forall_mem_append.mp h
    rw [ConditionDoc.map, ConditionDoc.map, iha ha, ihb hb]

theorem CommandDoc.map_congr (doc : CommandDoc)
    (h : ∀ part ∈ doc.parts, part.map f = part.map f') : doc.map f = doc.map f' := by
  obtain ⟨hgeid, hconstant⟩ := List.forall_mem_cons.mp h
  unfold CommandDoc.map
  rw [geid_eq_of_map hgeid, constant_eq_of_map (hconstant _ List.mem_cons_self)]

theorem GuardedCommandBlockDoc.map_congr (doc : GuardedCommandBlockDoc)
    (h : ∀ part ∈ doc.parts, part.map f = part.map f') : doc.map f = doc.map f' := by
  obtain ⟨hcondition, hblock⟩ := List.forall_mem_append.mp h
  unfold GuardedCommandBlockDoc.map CommandBlockDoc.map
  rw [doc.condition.map_congr hcondition, map_congr_of_parts CommandDoc.map_congr hblock]

theorem IfClauseDoc.map_congr (doc : IfClauseDoc)
    (h : ∀ part ∈ doc.parts, part.map f = part.map f') : doc.map f = doc.map f' := by
  obtain ⟨hif, helse⟩ := List.forall_mem_append.mp h
  unfold IfClauseDoc.map
  rw [doc.ifBlock.map_congr hif, map_congr_of_parts GuardedCommandBlockDoc.map_congr helse]

theorem InClauseDoc.map_congr (doc : InClauseDoc)
    (h : ∀ part ∈ doc.parts, part.map f = part.map f') : doc.map f = doc.map f' := by
  unfold InClauseDoc.map
  rw [map_congr_of_parts IfClauseDoc.map_congr h]

end

/-! ## Instances -/

/-- The endpoints and constants of clauses. -/
def clauseParts (clauses : List InClauseDoc) : List Part := clauses.flatMap InClauseDoc.parts

/-- The placeholders of clauses. -/
def clauseUses (clauses : List InClauseDoc) : List (Kind × Text) :=
  (clauseParts clauses).flatMap Part.uses

/-- The argument that an instance has for a placeholder; the last one, if the module has two
placeholders of one name. -/
def argument (module : ModuleDoc) (inst : InstantiationDoc) (name : Text) :
    Option InstParameterDoc :=
  ((module.placeholderlist.zip inst.parameters).reverse.find? fun p => p.1 = name).map Prod.snd

/-- The arguments are right, in number and in kind. -/
def Applies (tables : ModuleTables) (module : ModuleDoc) (inst : InstantiationDoc) : Prop :=
  module.placeholderlist.length = inst.parameters.length ∧ ∀ use ∈ clauseUses module.inClauses,
    ∃ value, argument module inst use.2 = some value ∧ tables.Suits use.1 value

def InstParameterDoc.uses : InstParameterDoc → List (Kind × Text)
  | .constant value => value.uses
  | .identifier _ => []

/-- There is no placeholder among the arguments. -/
def Closed (inst : InstantiationDoc) : Prop := ∀ value ∈ inst.parameters, value.uses = []

theorem placeholderIndex_concat (placeholders : List Text) (p name : Text) :
    placeholderIndex (placeholders ++ [p]) name =
      if p = name then some placeholders.length else placeholderIndex placeholders name := by
  unfold placeholderIndex
  rw [List.length_append, List.length_singleton, List.range_succ, List.foldl_append]
  have hfront : ∀ (l : List Nat) (index : Option Nat), (∀ i ∈ l, i < placeholders.length) →
      l.foldl (fun index i => if (placeholders ++ [p])[i]? = some name then some i else index) index =
        l.foldl (fun index i => if placeholders[i]? = some name then some i else index) index := by
    intro l
    induction l with
    | nil => exact fun _ _ => rfl
    | cons i l ih =>
      intro index hl
      rw [List.foldl_cons, List.foldl_cons, List.getElem?_append_left (hl i List.mem_cons_self)]
      exact ih _ fun j hj => hl j (List.mem_cons_of_mem _ hj)
  rw [hfront _ _ fun i hi => List.mem_range.mp hi, List.foldl_cons, List.foldl_nil,
    List.getElem?_concat_length]
  simp only [Option.some.injEq]

theorem placeholderIndex_lt {placeholders : List Text} {name : Text} {i : Nat}
    (h : placeholderIndex placeholders name = some i) : i < placeholders.length := by
  induction placeholders using List.reverseRecOn with
  | nil => cases h
  | append_singleton placeholders p ih =>
    rw [placeholderIndex_concat] at h
    rw [List.length_append, List.length_singleton]
    split at h
    · cases h
      exact Nat.lt_succ_self _
    · exact Nat.lt_succ_of_lt (ih h)

/-- **The index** is that of the argument. -/
theorem parameter_eq_argument {placeholders : List Text} {parameters : List InstParameterDoc}
    (hlen : placeholders.length = parameters.length) (name : Text) :
    ((placeholderIndex placeholders name).bind fun i => parameters[i]?) =
      ((placeholders.zip parameters).reverse.find? fun p => p.1 = name).map Prod.snd := by
  induction placeholders using List.reverseRecOn generalizing parameters with
  | nil => rfl
  | append_singleton placeholders p ih =>
    rcases List.eq_nil_or_concat parameters with rfl | ⟨front, value, rfl⟩
    · rw [List.length_append] at hlen
      cases hlen
    · rw [List.concat_eq_append, List.length_append, List.length_append] at hlen
      have hlen' : placeholders.length = front.length := Nat.add_right_cancel hlen
      rw [List.concat_eq_append, placeholderIndex_concat, List.zip_append hlen', List.reverse_append]
      show _ = (((p, value) :: (placeholders.zip front).reverse).find? fun p => p.1 = name).map
        Prod.snd
      rw [List.find?_cons]
      by_cases hp : p = name
      · rw [if_pos hp, Option.bind_some, hlen', List.getElem?_concat_length]
        simp only [hp, decide_true]
        rfl
      · rw [if_neg hp]
        simp only [hp, decide_false]
        rw [← ih hlen']
        cases hindex : placeholderIndex placeholders name with
        | none => rfl
        | some i =>
          exact List.getElem?_append_left (hlen' ▸ placeholderIndex_lt hindex)

section

variable {tables : ModuleTables} {unset : GlobalEndpointIdDoc → Nat} {module : ModuleDoc}
  {inst : InstantiationDoc}

/-- The clauses of the instance, with line numbers of the endpoints' names. -/
def substituted (module : ModuleDoc) (inst : InstantiationDoc)
    (line : GlobalEndpointIdDoc → Nat) : List InClauseDoc :=
  module.inClauses.map (InClauseDoc.map (substitution (argument module inst) line))

/-- **An instance is made** if and only if the arguments are right, and it is the module with
the arguments in the places of the placeholders. -/
theorem instantiate_ok (hmodule : tables.modules inst.moduleclass.val = some module)
    {machine : StatemachineDoc} : instantiate tables unset inst = .ok machine ↔
      Applies tables module inst ∧ machine = ⟨inst.lineno, instanceName inst, module.stateset,
        substituted module inst unset, []⟩ := by
  unfold instantiate Applies
  simp only [hmodule]
  by_cases hlen : module.placeholderlist.length = inst.parameters.length
  · rw [if_neg (not_not.mpr hlen), and_iff_right hlen]
    let m : Instantiating := ⟨tables, inst.readFromFile, inst.lineno, module.readFromFile,
      module.placeholderlist, inst.parameters, unset⟩
    have hparameter : m.parameter = argument module inst :=
      funext (parameter_eq_argument hlen)
    have hmap : m.partMap = substitution (argument module inst) unset := by
      rw [← hparameter]
      rfl
    have hfits : (∀ clause ∈ module.inClauses, ∀ part ∈ clause.parts, m.FitsPart part) ↔
        ∀ use ∈ clauseUses module.inClauses,
          ∃ value, argument module inst use.2 = some value ∧ tables.Suits use.1 value := by
      unfold clauseUses clauseParts Instantiating.FitsPart Instantiating.Fits
      rw [List.forall_mem_flatMap, List.forall_mem_flatMap, hparameter]
    rw [bind_ok_of_iff fun _ => mapM_ok_of_iff (@Instantiating.inClause_ok m),
      Instantiating.return_ok, hmap, hfits]
    rfl
  · rw [if_pos hlen]
    constructor
    · rintro ⟨⟩
    · rintro ⟨⟨hsame, -⟩, -⟩
      exact absurd hsame hlen

end

/-! ## What is left of the placeholders -/

theorem mem_of_argument {module : ModuleDoc} {inst : InstantiationDoc} {name : Text}
    {value : InstParameterDoc} (h : argument module inst name = some value) :
    value ∈ inst.parameters := by
  obtain ⟨⟨p, _⟩, hfind, rfl⟩ := Option.map_eq_some_iff.mp h
  have hmem := List.mem_reverse.mp (List.mem_of_find?_eq_some hfind)
  exact (List.of_mem_zip hmem).2

theorem GeidElement.uses_subst {σ : Text → Option InstParameterDoc} {tables : ModuleTables}
    {kind : Kind} (hkind : kind ≠ .constant) {element : GeidElement}
    (hfits : ∀ use ∈ element.uses kind, ∃ value, σ use.2 = some value ∧ tables.Suits use.1 value) :
    (element.subst σ).uses kind = [] := by
  cases element with
  | literal name => rfl
  | placeholder name =>
    obtain ⟨value, hvalue, hsuits⟩ := hfits (kind, name) (List.mem_singleton_self _)
    unfold GeidElement.subst
    simp only [hvalue]
    cases value with
    | identifier device => rfl
    | constant value =>
      cases kind with
      | device => exact hsuits.elim
      | endpoint => exact hsuits.elim
      | constant => exact absurd rfl hkind

/-- Where every placeholder has an argument without placeholders, none is left. -/
theorem Part.uses_map {σ : Text → Option InstParameterDoc} {line : GlobalEndpointIdDoc → Nat}
    {tables : ModuleTables} (hclosed : ∀ name value, σ name = some value → value.uses = [])
    {part : Part}
    (hfits : ∀ use ∈ part.uses, ∃ value, σ use.2 = some value ∧ tables.Suits use.1 value) :
    (part.map (substitution σ line)).uses = [] := by
  cases part with
  | geid doc =>
    obtain ⟨hdevice, hendpoint⟩ := List.forall_mem_append.mp hfits
    have hdeviceKind : Kind.device ≠ .constant := nofun
    have hendpointKind : Kind.endpoint ≠ .constant := nofun
    exact List.append_eq_nil_iff.mpr ⟨GeidElement.uses_subst hdeviceKind hdevice,
      GeidElement.uses_subst hendpointKind hendpoint⟩
  | constant doc =>
    cases doc with
    | uint value => rfl
    | float bits => rfl
    | placeholder name =>
      obtain ⟨value, hvalue, hsuits⟩ := hfits (.constant, name) (List.mem_singleton_self _)
      cases value with
      | identifier device => exact hsuits.elim
      | constant value =>
        show (ConstantDoc.subst σ (.placeholder name)).uses = []
        unfold ConstantDoc.subst
        simp only [hvalue]
        exact hclosed name _ hvalue

theorem clauseParts_substituted (module : ModuleDoc) (inst : InstantiationDoc)
    (line : GlobalEndpointIdDoc → Nat) : clauseParts (substituted module inst line) =
      (clauseParts module.inClauses).map (Part.map (substitution (argument module inst) line)) :=
  flatMap_parts_map InClauseDoc.parts_map module.inClauses

section

variable {tables : ModuleTables} {unset : GlobalEndpointIdDoc → Nat} {module : ModuleDoc}
  {inst : InstantiationDoc}

/-- **No placeholder is left.** -/
theorem clauseUses_substituted (h : Applies tables module inst) (hclosed : Closed inst)
    (line : GlobalEndpointIdDoc → Nat) : clauseUses (substituted module inst line) = [] := by
  unfold clauseUses
  rw [clauseParts_substituted, List.flatMap_map, List.flatMap_eq_nil_iff]
  intro part hpart
  refine Part.uses_map (fun name value hvalue => hclosed value (mem_of_argument hvalue))
    fun use huse => h.2 use ?_
  exact List.mem_flatMap.mpr ⟨part, hpart, huse⟩

/-- The line numbers show where an endpoint is named, and only there. -/
theorem substituted_congr_iff {line : GlobalEndpointIdDoc → Nat} :
    substituted module inst line = substituted module inst (fun doc => doc.lineno) ↔
      ∀ doc, Part.geid doc ∈ clauseParts module.inClauses → line doc = doc.lineno := by
  constructor
  · intro h doc hdoc
    have hparts := congrArg clauseParts h
    rw [clauseParts_substituted, clauseParts_substituted] at hparts
    have hdoc' := List.map_inj_left.mp hparts _ hdoc
    exact congrArg GlobalEndpointIdDoc.lineno (geid_eq_of_map hdoc')
  · intro h
    refine map_congr_of_parts InClauseDoc.map_congr fun part hpart => ?_
    cases part with
    | constant doc => rfl
    | geid doc =>
      show Part.geid ⟨_, line doc, _⟩ = Part.geid ⟨_, doc.lineno, _⟩
      rw [h doc hpart]

/-- An instance with right arguments is the module with its arguments, without placeholders,
and wrong ones are an error, whatever memory is not set. -/
def Substitutes (tables : ModuleTables) (inst : InstantiationDoc) : Prop :=
  ∀ module, tables.modules inst.moduleclass.val = some module →
    ∀ unset : GlobalEndpointIdDoc → Nat,
      (Applies tables module inst → Closed inst → ∃ machine,
        instantiate tables unset inst = .ok machine ∧ clauseUses machine.inClauses = [] ∧
        machine.stateset = module.stateset ∧
        machine.inClauses = substituted module inst fun doc => doc.lineno) ∧
      (¬ Applies tables module inst → ∃ e, instantiate tables unset inst = .error e)

/-- **Instantiation is substitution** but for the line numbers of the endpoints' names: right
arguments give the module with the arguments in the places of the placeholders, wrong ones an
error; and the line numbers are right as well if and only if no endpoint is named. -/
theorem instantiate_substitutes (tables : ModuleTables) (inst : InstantiationDoc) :
    (∀ module, tables.modules inst.moduleclass.val = some module → ∀ unset,
      (∀ machine, instantiate tables unset inst = .ok machine ↔
        Applies tables module inst ∧ machine = ⟨inst.lineno, instanceName inst, module.stateset,
          substituted module inst unset, []⟩) ∧
      (Applies tables module inst → Closed inst →
        clauseUses (substituted module inst unset) = []) ∧
      (¬ Applies tables module inst → ∃ e, instantiate tables unset inst = .error e)) ∧
    (Substitutes tables inst ↔ ∀ module, tables.modules inst.moduleclass.val = some module →
      Applies tables module inst → Closed inst →
        ∀ doc, Part.geid doc ∉ clauseParts module.inClauses) := by
  have herror : ∀ module, tables.modules inst.moduleclass.val = some module →
      ∀ unset, ¬ Applies tables module inst → ∃ e, instantiate tables unset inst = .error e := by
    intro module hmodule unset hnot
    cases hrun : instantiate tables unset inst with
    | error e => exact ⟨e, rfl⟩
    | ok machine => exact absurd ((instantiate_ok hmodule).mp hrun).1 hnot
  refine ⟨fun module hmodule unset => ⟨fun machine => instantiate_ok hmodule,
    fun happlies hclosed => clauseUses_substituted happlies hclosed unset,
    herror module hmodule unset⟩, ?_⟩
  constructor
  · intro h module hmodule happlies hclosed doc hdoc
    -- memory that holds another number
    obtain ⟨machine, hrun, -, -, hclauses⟩ :=
      (h module hmodule fun doc => doc.lineno + 1).1 happlies hclosed
    obtain ⟨-, rfl⟩ := (instantiate_ok hmodule).mp hrun
    exact Nat.succ_ne_self _ (substituted_congr_iff.mp hclauses doc hdoc)
  · intro h module hmodule unset
    refine ⟨fun happlies hclosed => ⟨_, (instantiate_ok hmodule).mpr ⟨happlies, rfl⟩,
      clauseUses_substituted happlies hclosed unset, rfl, ?_⟩, herror module hmodule unset⟩
    exact substituted_congr_iff.mpr fun doc hdoc =>
      absurd hdoc (h module hmodule happlies hclosed doc)

end

/-! ## The whole pass -/

/-- An instance is named as the checks of the graph take it. -/
theorem machineName_instanceName (inst : InstantiationDoc) : MachineName (instanceName inst) := by
  intro c hc
  rcases List.mem_append.mp hc with hc | hc
  · rcases List.mem_append.mp hc with hc | hc
    · have hall : "inst:".toList.all (fun c => identifierRest c || decide (c = ':')) = true := rfl
      rcases (Bool.or_eq_true _ _).mp (List.all_eq_true.mp hall c hc) with hrest | hcolon
      · exact .inl hrest
      · exact .inr (of_decide_eq_true hcolon)
    · exact .inl (Identifier.mem hc)
  · rcases List.mem_cons.mp hc with rfl | hc
    · exact .inr rfl
    · exact .inl (Identifier.mem hc)

/-- The machines of a program have such names when its own machines have. -/
theorem machineName_moduleInstantiation {tables : ModuleTables}
    {unset : GlobalEndpointIdDoc → Nat} {blocks : List HbcBlock} {hbc : HbcDoc}
    (hrun : moduleInstantiation tables unset blocks = .ok hbc)
    (hnames : ∀ doc, .statemachine doc ∈ blocks → MachineName doc.name) :
    ∀ sm ∈ hbc, MachineName sm.name := by
  obtain ⟨instances, hinstances, hreturn⟩ := bind_ok_iff.mp hrun
  obtain rfl := Instantiating.return_ok.mp hreturn
  intro sm hsm
  rcases List.mem_append.mp hsm with hsm | hsm
  · obtain ⟨block, hblock, hdoc⟩ := List.mem_filterMap.mp hsm
    cases block with
    | statemachine doc =>
      cases hdoc
      exact hnames sm hblock
    | instantiation inst => cases hdoc
  · obtain ⟨inst, -, hinst⟩ := exists_of_mapM_ok hinstances hsm
    cases hmodule : tables.modules inst.moduleclass.val with
    | none =>
      unfold instantiate at hinst
      rw [hmodule] at hinst
      cases hinst
    | some module =>
      obtain ⟨-, rfl⟩ := (instantiate_ok hmodule).mp hinst
      exact machineName_instanceName inst

/-! ## An instance -/

theorem isIdentifier_spot : isIdentifier "spot".toList = true := rfl
theorem isIdentifier_level : isIdentifier "level".toList = true := rfl
theorem isIdentifier_dimmer : isIdentifier "dimmer".toList = true := rfl

def spotName : Identifier := ⟨"spot".toList, isIdentifier_spot⟩
def levelName : Identifier := ⟨"level".toList, isIdentifier_level⟩
def dimmerName : Identifier := ⟨"dimmer".toList, isIdentifier_dimmer⟩

/-- A module that writes its second parameter to an endpoint of its first one, in line 5. -/
def dimmer : ModuleDoc :=
  ⟨1, dimmerName, ["DEVICE".toList, "LEVEL".toList], [initName], [⟨3, initName, [⟨⟨.tautology 1,
    ⟨[⟨5, ⟨.placeholder "DEVICE".toList, 5, .literal levelName⟩, .placeholder "LEVEL".toList⟩],
      ⟨6, initName⟩⟩⟩, []⟩]⟩], "lib.hbc".toList⟩

def dimmerTables : ModuleTables :=
  ⟨fun name => if name = dimmerName.val then some dimmer else none,
    fun name => decide (name = spotName.val), fun name => decide (name = levelName.val)⟩

def spotDimmer : InstantiationDoc :=
  ⟨9, spotName, dimmerName, [.identifier spotName, .constant (.uint 7)], "main.hbc".toList⟩

theorem spotDimmer_applies : Applies dimmerTables dimmer spotDimmer := by
  refine ⟨rfl, fun use huse => ?_⟩
  have huses : clauseUses dimmer.inClauses =
      [(.device, "DEVICE".toList), (.constant, "LEVEL".toList)] := rfl
  rw [huses] at huse
  rcases List.mem_cons.mp huse with rfl | huse
  · exact ⟨_, rfl, rfl⟩
  · rw [List.mem_singleton.mp huse]
    exact ⟨_, rfl, trivial⟩

/-- **The line number** of the endpoint's name is whatever memory held. -/
theorem spotDimmer_not_substitutes : ¬ Substitutes dimmerTables spotDimmer := by
  intro h
  have hclosed : Closed spotDimmer := by
    intro value hvalue
    rcases List.mem_cons.mp hvalue with rfl | hvalue
    · rfl
    · rw [List.mem_singleton.mp hvalue]
      rfl
  obtain ⟨machine, hrun, -, -, hclauses⟩ := (h dimmer rfl fun _ => 0).1 spotDimmer_applies hclosed
  obtain ⟨-, rfl⟩ := (instantiate_ok rfl).mp hrun
  have hline := substituted_congr_iff.mp hclauses
    ⟨.placeholder "DEVICE".toList, 5, .literal levelName⟩ List.mem_cons_self
  exact absurd hline nofun

end Hexabus.Hbc
