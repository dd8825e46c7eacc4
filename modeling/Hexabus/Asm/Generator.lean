import Hexabus.Asm.GraphBuilder
import Hexabus.Lib.Store

/-!
# The generator of the flash image

`generator_flash.cpp` and the output branch of `hbasm.cpp`. The blocks are visited
in the order of the file and fill three maps; the maps are then copied into three
tables of fixed size, and the tables follow the header of the image.
-/

namespace Hexabus.Asm

open Lib.Bytes Lib.Store

/-- What the program cannot say: the data type definition file, what a number becomes
that is printed and read back as a `float` or as a `uint32_t`, and the bytes that a
local `struct condition` holds behind its value. -/
structure Environment where
  datatypes : UInt32 → Option DataType
  readFloat : UInt32 → UInt32
  readUint : UInt32 → UInt32
  residue : Nat → Block 4

/-- `Datatypes::getDatatype`. -/
def Environment.getDatatype (env : Environment) (eid : UInt32) : Except AsmError DataType :=
  match env.datatypes eid with
  | some datatype => .ok datatype
  | none => .error (.datatypeNotFound eid)

/-- The value union when `v_u32` or `v_float` has been assigned. -/
def unionOf (v : UInt32) (rest : Block 4) : Block 8 :=
  ⟨leBytes 4 v.toNat ++ rest.val, by rw [List.length_append, length_leBytes, rest.property]⟩

/-- A number as an endpoint of some data type takes it. -/
def Environment.readValue (env : Environment) (datatype : DataType) (value : UInt32) : UInt32 :=
  if datatype = .float then env.readFloat value else env.readUint value

/-- Two digits a byte. -/
def hexBytes : List HexDigit → List UInt8
  | a :: b :: digits => UInt8.ofNat (16 * a.val + b.val) :: hexBytes digits
  | _ => []

theorem length_hexBytes (digits : List HexDigit) :
    (hexBytes digits).length = digits.length / 2 := by
  induction digits using hexBytes.induct with
  | case1 a b digits ih =>
    rw [hexBytes, List.length_cons, ih, List.length_cons, List.length_cons]
    omega
  | case2 digits h =>
    match digits with
    | [] => rfl
    | [a] => simp [hexBytes]
    | a :: b :: digits => exact absurd rfl (h a b digits)

def ipBytes (ip : Ipv6Address) : Block 16 :=
  ⟨hexBytes ip.val, by rw [length_hexBytes, ip.property]⟩

/-- `::1`, as the generator sets it. -/
def localhostIp : Block 16 := ⟨List.replicate 15 0 ++ [1], length_localhost⟩

/-! ## The maps -/

/-- `std::map::insert`: an entry whose key is taken is not replaced. -/
def mapInsert {α : Type} (key : Nat) (value : α) : List (Nat × α) → List (Nat × α)
  | [] => [(key, value)]
  | (k, v) :: rest =>
    if key < k then (key, value) :: (k, v) :: rest
    else if key = k then (k, v) :: rest
    else (k, v) :: mapInsert key value rest

/-- A new largest key goes to the end. -/
theorem mapInsert_append {α : Type} {key : Nat} {value : α} {m : List (Nat × α)}
    (h : ∀ entry ∈ m, entry.1 < key) : mapInsert key value m = m ++ [(key, value)] := by
  induction m with
  | nil => rfl
  | cons entry rest ih =>
    have hlt : entry.1 < key := h entry List.mem_cons_self
    rw [mapInsert, if_neg (by omega), if_neg (by omega),
      ih fun e he => h e (List.mem_cons_of_mem _ he)]
    rfl

/-- `_states_bin`, `_trans_dt_bin` and `_conditions_bin`, and the counter
`state_index`. -/
structure Maps where
  statesBin : List (Nat × Transition)
  transDtBin : List (Nat × Transition)
  conditionsBin : List (Nat × Condition)
  stateIndex : Nat

def Maps.empty : Maps := ⟨[], [], [], 0⟩

/-- The map of one of the two transition tables. -/
def Maps.bin (maps : Maps) (datetime : Bool) : List (Nat × Transition) :=
  if datetime then maps.transDtBin else maps.statesBin

/-! ## The visitor -/

/-- The record of a clause. -/
def clauseTransition (env : Environment) (vertices : List Vertex) (stateId : Nat)
    (clause : IfClauseDoc) : Except AsmError (Nat × Transition) := do
  let condId ← if clause.name ≠ "true" then findVertexId vertices clause.name
    else pure trueCondIndex.toNat
  let goodstateId ← findVertexId vertices clause.goodstate
  let badstateId ← findVertexId vertices clause.badstate
  let datatype ← env.getDatatype clause.eid
  return (condId, {
    fromState := UInt8.ofNat stateId
    cond := UInt8.ofNat condId
    eid := clause.eid
    goodState := UInt8.ofNat goodstateId
    badState := UInt8.ofNat badstateId
    datatype := datatype.code
    raw := unionOf (env.readValue datatype clause.value) (Block.zero 4) })

/-- The visitor on a clause. A clause goes to the table of its condition's data type,
as far as the conditions are in the map already; a condition that is not there is
passed over. -/
def visitClause (env : Environment) (vertices : List Vertex) (stateId : Nat) (maps : Maps)
    (clause : IfClauseDoc) : Except AsmError Maps := do
  let index := maps.stateIndex
  let maps := { maps with stateIndex := index + 1 }
  let (condId, t) ← clauseTransition env vertices stateId clause
  if clause.name ≠ "true" then
    match maps.conditionsBin.find? fun entry => entry.1 = condId with
    | some (_, cond) =>
      if cond.datatype = DataType.datetime.code then
        return { maps with transDtBin := mapInsert index t maps.transDtBin }
      else return { maps with statesBin := mapInsert index t maps.statesBin }
    | none => return maps
  else return { maps with statesBin := mapInsert index t maps.statesBin }

/-- The record of a condition block. -/
def conditionRecord (env : Environment) (doc : ConditionDoc) : Except AsmError Condition :=
  match doc.cond with
  | .eidvalue ipv6Address eid op value => do
    let datatype ← env.getDatatype eid
    return ⟨ipBytes ipv6Address, eid, op, datatype.code,
      unionOf (env.readValue datatype value) (env.residue doc.id)⟩
  | .timeout value => .ok ⟨localhostIp, 0, hxbSmTimestampOp, DataType.timestamp.code,
      unionOf value (env.residue doc.id)⟩
  | .datetime field op value => .ok ⟨localhostIp, 0, field ||| op, DataType.datetime.code,
      unionOf value (env.residue doc.id)⟩

/-- The visitor on a block. -/
def visitBlock (env : Environment) (vertices : List Vertex) (maps : Maps) :
    HbaDocBlock → Except AsmError Maps
  | .state doc => doc.ifClauses.foldlM (visitClause env vertices doc.id) maps
  | .condition doc => do
    let record ← conditionRecord env doc
    return { maps with conditionsBin := mapInsert doc.id record maps.conditionsBin }

/-- All blocks. -/
def visitBlocks (env : Environment) (vertices : List Vertex) (blocks : List HbaDocBlock) :
    Except AsmError Maps :=
  blocks.foldlM (visitBlock env vertices) Maps.empty

/-- The records the assembler emits for a program. -/
def emitted (env : Environment) (ast : HbaDoc) : Except AsmError Maps := do
  let (g, blocks) ← graphBuilder ast
  visitBlocks env g.vertices blocks

/-! ## The tables -/

/-- A table under construction: its bytes, the first of which counts the records, and
the position behind the last record. -/
structure TableBuffer where
  bytes : Nat → UInt8
  pos : Nat

def TableBuffer.empty : TableBuffer := ⟨fun _ => 0, 1⟩

/-- One record is copied, if there is still room for it. -/
def TableBuffer.insert (size : Nat) (buffer : TableBuffer) (record : List UInt8) : TableBuffer :=
  if buffer.pos < size - record.length then
    { bytes := writeBlock (writeBlock buffer.bytes 0 [buffer.bytes 0 + 1]) buffer.pos record
      pos := buffer.pos + record.length }
  else buffer

/-- The bytes of a table with these records. -/
def tableBytes (size : Nat) (records : List (List UInt8)) : List UInt8 :=
  readBlock (records.foldl (TableBuffer.insert size) TableBuffer.empty).bytes 0 size

def conditionsBufferSize : Nat := 512
def transDtBufferSize : Nat := 512
def transitionsBufferSize : Nat := 496

/-- `generator_flash::operator()`, when the maps are complete. -/
def generatorFlash (maps : Maps) : List UInt8 :=
  tableBytes conditionsBufferSize (maps.conditionsBin.map fun entry => entry.2.toBytes) ++
  tableBytes transDtBufferSize (maps.transDtBin.map fun entry => entry.2.toBytes) ++
  tableBytes transitionsBufferSize (maps.statesBin.map fun entry => entry.2.toBytes)

/-! ## The image -/

/-- The chunk with the device name: its first 30 bytes, then zeros. -/
def devName (deviceName : List UInt8) : Block 64 :=
  ⟨deviceName.take 30 ++ List.replicate (64 - (deviceName.take 30).length) 0, by
    have hlen : (deviceName.take 30).length ≤ 30 := List.length_take_le 30 deviceName
    rw [List.length_append, List.length_replicate]
    omega⟩

/-- The machine id, cut off or filled up with zeros to 32 digits. -/
def machineIdBytes (machineId : List HexDigit) : Block 16 :=
  ⟨hexBytes (machineId.take 32 ++ List.replicate (32 - (machineId.take 32).length) 0), by
    have hlen : (machineId.take 32).length ≤ 32 := List.length_take_le 32 machineId
    rw [length_hexBytes, List.length_append, List.length_replicate]
    omega⟩

/-- The output branch of `hbasm`: the bytes of the image file. -/
def hbasm (env : Environment) (ast : HbaDoc) : Except AsmError (List UInt8) := do
  let (g, blocks) ← graphBuilder ast
  let header := (ipBytes ast.targetIp).val ++ (devName ast.deviceName).val
  if blocks.length ≠ 0 then
    let maps ← visitBlocks env g.vertices blocks
    return header ++ (machineIdBytes ast.machineId).val ++ generatorFlash maps
  else return header

end Hexabus.Asm
