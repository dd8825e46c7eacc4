import Hexabus.Shared.Types

/-!
# The tables of the state machine

`hexabus_statemachine_structs.h`: conditions and transitions, the two packed
records the assembler writes and the firmware reads. Both machines are
little-endian and lay the value union out in eight bytes, so one layout serves
both. A value in a table never uses a pointer member.
-/

namespace Hexabus

open Lib.Bytes

/-- `TRUE_COND_INDEX`. -/
def trueCondIndex : UInt8 := 255

/-- `EE_STATEMACHINE_CHUNK_SIZE`. -/
def chunkSize : Nat := 64

/-- `HXB_SM_TIMESTAMP_OP`. -/
def hxbSmTimestampOp : UInt8 := 0x80

/-- `struct condition`; `datatype` and `raw` are its `hxb_value`. -/
structure Condition where
  sourceIP : Block 16
  sourceEID : UInt32
  op : UInt8
  datatype : UInt8
  raw : Block 8
  deriving DecidableEq

/-- `struct transition`; `datatype` and `raw` are its `hxb_value`. -/
structure Transition where
  fromState : UInt8
  cond : UInt8
  eid : UInt32
  goodState : UInt8
  badState : UInt8
  datatype : UInt8
  raw : Block 8
  deriving DecidableEq

namespace Condition

def value (c : Condition) : HxbValue := ⟨c.datatype, c.raw, []⟩

/-- `sizeof(struct condition)`. -/
def size : Nat := 30

/-- The packed record. -/
def toBytes (c : Condition) : List UInt8 :=
  c.sourceIP.val ++ leBytes 4 c.sourceEID.toNat ++ [c.op, c.datatype] ++ c.raw.val

@[simp] theorem length_toBytes (c : Condition) : c.toBytes.length = size := by
  simp [toBytes, size, c.sourceIP.property, c.raw.property]

/-- The record that packed bytes hold. -/
def ofBytes (b : Block size) : Condition where
  sourceIP := b.slice 0 16 (by decide)
  sourceEID := UInt32.ofNat (ofLe (b.slice 16 4 (by decide)).val)
  op := b.val.getD 20 0
  datatype := b.val.getD 21 0
  raw := b.slice 22 8 (by decide)

@[simp] theorem ofBytes_toBytes (c : Condition) (h : c.toBytes.length = size) :
    ofBytes ⟨c.toBytes, h⟩ = c := by
  have hip := c.sourceIP.property
  have heid : ((c.toBytes.drop 16).take 4) = leBytes 4 c.sourceEID.toNat :=
    take_drop_field c.sourceIP.val ([c.op, c.datatype] ++ c.raw.val)
      (by simp [toBytes]) hip (length_leBytes 4 _)
  have hop : c.toBytes.getD 20 0 = c.op :=
    getD_field (c.sourceIP.val ++ leBytes 4 c.sourceEID.toNat) (c.datatype :: c.raw.val)
      (by simp [toBytes]) (by simp [hip])
  have hdatatype : c.toBytes.getD 21 0 = c.datatype :=
    getD_field (c.sourceIP.val ++ leBytes 4 c.sourceEID.toNat ++ [c.op]) c.raw.val
      (by simp [toBytes]) (by simp [hip])
  have hsource : Block.slice ⟨c.toBytes, h⟩ 0 16 (by decide) = c.sourceIP :=
    Block.slice_field [] (leBytes 4 c.sourceEID.toNat ++ [c.op, c.datatype] ++ c.raw.val)
      (by decide) (by simp [toBytes]) rfl
  have hraw : Block.slice ⟨c.toBytes, h⟩ 22 8 (by decide) = c.raw :=
    Block.slice_field (c.sourceIP.val ++ leBytes 4 c.sourceEID.toNat ++ [c.op, c.datatype]) []
      (by decide) (by simp [toBytes]) (by simp [hip])
  unfold ofBytes
  rw [hsource, hraw]
  simp only [Block.slice, heid, uint32_ofLe_leBytes, hop, hdatatype]

end Condition

namespace Transition

def value (t : Transition) : HxbValue := ⟨t.datatype, t.raw, []⟩

/-- `sizeof(struct transition)`. -/
def size : Nat := 17

/-- The packed record. -/
def toBytes (t : Transition) : List UInt8 :=
  [t.fromState, t.cond] ++ leBytes 4 t.eid.toNat ++ [t.goodState, t.badState, t.datatype]
    ++ t.raw.val

@[simp] theorem length_toBytes (t : Transition) : t.toBytes.length = size := by
  simp [toBytes, size, t.raw.property]

/-- The record that packed bytes hold. -/
def ofBytes (b : Block size) : Transition where
  fromState := b.val.getD 0 0
  cond := b.val.getD 1 0
  eid := UInt32.ofNat (ofLe (b.slice 2 4 (by decide)).val)
  goodState := b.val.getD 6 0
  badState := b.val.getD 7 0
  datatype := b.val.getD 8 0
  raw := b.slice 9 8 (by decide)

@[simp] theorem ofBytes_toBytes (t : Transition) (h : t.toBytes.length = size) :
    ofBytes ⟨t.toBytes, h⟩ = t := by
  have heid : ((t.toBytes.drop 2).take 4) = leBytes 4 t.eid.toNat :=
    take_drop_field [t.fromState, t.cond] ([t.goodState, t.badState, t.datatype] ++ t.raw.val)
      (by simp [toBytes]) rfl (length_leBytes 4 _)
  have hfront : t.toBytes.getD 0 0 = t.fromState ∧ t.toBytes.getD 1 0 = t.cond := by
    simp [toBytes]
  have hgood : t.toBytes.getD 6 0 = t.goodState :=
    getD_field ([t.fromState, t.cond] ++ leBytes 4 t.eid.toNat)
      ([t.badState, t.datatype] ++ t.raw.val) (by simp [toBytes]) (by simp)
  have hbad : t.toBytes.getD 7 0 = t.badState :=
    getD_field ([t.fromState, t.cond] ++ leBytes 4 t.eid.toNat ++ [t.goodState])
      ([t.datatype] ++ t.raw.val) (by simp [toBytes]) (by simp)
  have hdatatype : t.toBytes.getD 8 0 = t.datatype :=
    getD_field ([t.fromState, t.cond] ++ leBytes 4 t.eid.toNat ++ [t.goodState, t.badState])
      t.raw.val (by simp [toBytes]) (by simp)
  have hraw : Block.slice ⟨t.toBytes, h⟩ 9 8 (by decide) = t.raw :=
    Block.slice_field ([t.fromState, t.cond] ++ leBytes 4 t.eid.toNat ++
      [t.goodState, t.badState, t.datatype]) [] (by decide) (by simp [toBytes]) (by simp)
  unfold ofBytes
  rw [hraw]
  simp only [Block.slice, heid, uint32_ofLe_leBytes, hfront, hgood, hbad, hdatatype]

end Transition

end Hexabus
