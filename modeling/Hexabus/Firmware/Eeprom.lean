import Hexabus.Firmware.Memory
import Hexabus.Shared.Tables

/-!
# The EEPROM

The layout of `eeprom_variables.h` from the domain name to the end of the state
machine area, every region behind the one before it, and the functions of
`state_machine_eeprom.c` that read the tables and store an uploaded chunk.
-/

namespace Hexabus.Firmware

open Lib.Bytes Lib.Store

/-! ## Layout -/

namespace EE

def domainName : Nat := 33
def domainNameSize : Nat := 30
def meteringRef : Nat := domainName + domainNameSize
def meteringCalLoad : Nat := meteringRef + 2
def meteringCalFlag : Nat := meteringCalLoad + 2
def relayDefault : Nat := meteringCalFlag + 1
def forwarding : Nat := relayDefault + 1
def statemachineId : Nat := forwarding + 1
def statemachineIdSize : Nat := 16
def statemachineNConditions : Nat := statemachineId + statemachineIdSize
def statemachineConditions : Nat := statemachineNConditions + 1
def statemachineConditionsSize : Nat := 511
def statemachineNDtTransitions : Nat := statemachineConditions + statemachineConditionsSize
def statemachineDatetimeTransitions : Nat := statemachineNDtTransitions + 1
def statemachineDatetimeTransitionsSize : Nat := 511
def statemachineNTransitions : Nat :=
  statemachineDatetimeTransitions + statemachineDatetimeTransitionsSize
def statemachineTransitions : Nat := statemachineNTransitions + 1
def statemachineTransitionsSize : Nat := 495

/-- The sum of the sizes of the regions of the state machine area. -/
def statemachineSize : Nat :=
  statemachineIdSize + 1 + statemachineConditionsSize + 1 + statemachineDatetimeTransitionsSize
    + 1 + statemachineTransitionsSize

/-- The area ends where its last region does. -/
theorem statemachine_end :
    statemachineId + statemachineSize = statemachineTransitions + statemachineTransitionsSize := rfl

/-- The area is a whole number of chunks. -/
theorem statemachineSize_eq : statemachineSize = 24 * chunkSize := rfl

end EE

/-! ## Reading -/

/-- `sm_get_id`. -/
def smGetId (eeprom : Mem) : Block 16 :=
  ⟨readBlock eeprom EE.statemachineId EE.statemachineIdSize, length_readBlock _ _ _⟩

/-- `sm_id_is_zero`: the bytes or-ed together. -/
def smIdIsZero (eeprom : Mem) : Bool :=
  (smGetId eeprom).val.foldl (· ||| ·) 0 == 0

/-- `sm_get_number_of_conditions`. -/
def smGetNumberOfConditions (eeprom : Mem) : UInt8 := eeprom EE.statemachineNConditions

/-- `sm_get_number_of_transitions`. -/
def smGetNumberOfTransitions (eeprom : Mem) (datetime : Bool) : UInt8 :=
  if datetime then eeprom EE.statemachineNDtTransitions else eeprom EE.statemachineNTransitions

/-- `sm_get_condition`. -/
def smGetCondition (eeprom : Mem) (index : UInt8) : Condition :=
  Condition.ofBytes ⟨readBlock eeprom (EE.statemachineConditions + Condition.size * index.toNat)
    Condition.size, length_readBlock _ _ _⟩

/-- `sm_get_transition`. -/
def smGetTransition (eeprom : Mem) (datetime : Bool) (index : UInt8) : Transition :=
  let table := if datetime then EE.statemachineDatetimeTransitions else EE.statemachineTransitions
  Transition.ofBytes ⟨readBlock eeprom (table + Transition.size * index.toNat) Transition.size,
    length_readBlock _ _ _⟩

/-! ## Writing -/

/-- `sm_write_chunk`: chunk 0 is the name, the others are the state machine area. -/
def smWriteChunk (eeprom : Mem) (chunkId : UInt8) (data : Block 64) : Bool × Mem :=
  if chunkId = 0 then
    if data.val.getD 0 0 = 0 then (true, eeprom)
    else (true, writeBlock eeprom EE.domainName (data.val.take EE.domainNameSize))
  else
    let chunkId := chunkId - 1
    if (chunkId.toNat + 1) * chunkSize > EE.statemachineSize then (false, eeprom)
    else (true, writeBlock eeprom (EE.statemachineId + chunkId.toNat * chunkSize) data.val)

/-- What `sm_write_chunk` does with a chunk of the state machine area. -/
theorem smWriteChunk_succ (eeprom : Mem) (data : Block 64) {k : Nat} (hk : k < 24) :
    smWriteChunk eeprom (UInt8.ofNat (k + 1)) data
      = (true, writeBlock eeprom (EE.statemachineId + k * chunkSize) data.val) := by
  have hnat : (UInt8.ofNat (k + 1)).toNat = k + 1 :=
    UInt8.toNat_ofNat_of_lt' (by show _ < 256; omega)
  have hne : UInt8.ofNat (k + 1) ≠ 0 := by
    intro h
    have h0 := congrArg UInt8.toNat h
    rw [hnat] at h0
    exact Nat.succ_ne_zero k h0
  have hpred : (UInt8.ofNat (k + 1) - 1).toNat = k := by
    rw [UInt8.toNat_sub_of_le _ _ (by rw [UInt8.le_iff_toNat_le, hnat]; show 1 ≤ _; omega), hnat]
    rfl
  have hfits : ¬ (k + 1) * chunkSize > EE.statemachineSize := by
    rw [EE.statemachineSize_eq]
    unfold chunkSize
    omega
  rw [smWriteChunk, if_neg hne]
  show (if ((UInt8.ofNat (k + 1) - 1).toNat + 1) * chunkSize > EE.statemachineSize then _ else _) = _
  rw [hpred, if_neg hfits]

end Hexabus.Firmware
