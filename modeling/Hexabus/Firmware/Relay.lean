import Hexabus.Firmware.InputOrder

/-!
# The relay and the meter of a socket

`relay.c` and `metering.c`, as configured for the Plug+: switching the relay
resets the meter, and the meter broadcasts its new value at once. The relay is
therefore an endpoint whose write handler hands values to the state machine.
-/

namespace Hexabus.Firmware

open Lib.Bytes Lib.Runs

/-- `EP_POWER_SWITCH`, `EP_POWER_METER` and `EP_ENERGY_METER_TOTAL`. -/
def epPowerSwitch : UInt32 := 1
def epPowerMeter : UInt32 := 2
def epEnergyMeterTotal : UInt32 := 7

/-- The static variables of relay and meter. `energyTotal` is the float that
`metering_get_energy_total` works out from the pulses counted. -/
structure Socket where
  relayState : Bool
  meteringPower : UInt16
  meteringReferenceValue : UInt16
  clockTime : UInt16
  clockOld : UInt16
  energyTotal : UInt32

/-! ## The meter -/

/-- `OUT_OF_DATE_TIME * CLOCK_SECOND`. -/
def outOfDate : UInt16 := 240 * 125

/-- `metering_get_power`. Both branches of the source are the difference modulo 2^16. -/
def meteringGetPower (d : Socket) : UInt16 :=
  let tmp := d.clockTime - d.clockOld
  if tmp > outOfDate then 0
  else if d.meteringPower ≠ 0 ∧ tmp > 2 * (d.meteringReferenceValue / d.meteringPower) then
    d.meteringReferenceValue / tmp
  else d.meteringPower

/-- `endpoint_power`. -/
def endpointPower : EndpointDescriptor (Dev Socket) where
  datatype := DataType.uint32.code
  eid := epPowerMeter
  name := "Power Meter".toUTF8.toList
  read value s := (.success, value.setU32 (meteringGetPower s.dev).toUInt32)
  write := none

/-- `endpoint_energy_total`. -/
def endpointEnergyTotal : EndpointDescriptor (Dev Socket) where
  datatype := DataType.float.code
  eid := epEnergyMeterTotal
  name := "Energy Meter Total".toUTF8.toList
  read value s := (.success, value.setU32 s.dev.energyTotal)
  write := none

/-- `metering_reset`. -/
def meteringReset (s : Dev Socket) : Dev Socket :=
  { s with
    dev := { s.dev with meteringPower := 0 }
    calls := s.calls ++ [.broadcast epPowerMeter, .broadcast epEnergyMeterTotal] }

/-! ## The relay -/

/-- `relay_on`. -/
def relayOn (s : Dev Socket) : Dev Socket :=
  if s.dev.relayState then s else meteringReset { s with dev := { s.dev with relayState := true } }

/-- `relay_off` does not ask whether the relay is on. -/
def relayOff (s : Dev Socket) : Dev Socket :=
  meteringReset { s with dev := { s.dev with relayState := false } }

/-- `endpoint_relay`. The relay is wired normally closed, so off is power on. -/
def endpointRelay : EndpointDescriptor (Dev Socket) where
  datatype := DataType.bool.code
  eid := epPowerSwitch
  name := "Main Switch".toUTF8.toList
  read value s := (.success, value.setU8 (if s.dev.relayState then 0 else 1))
  write := some fun env s => (.success, if env.value.v_u8 = 1 then relayOff s else relayOn s)

/-- The endpoints that are registered. -/
def socketChain : EndpointChain (Dev Socket) := [endpointRelay, endpointEnergyTotal, endpointPower]

theorem endpointWrite_relay (env : HxbEnvelope) (s : Dev Socket) :
    (socketChain.endpointWrite epPowerSwitch env s).2 =
      if DataType.bool.code ≠ env.value.datatype then s
      else if env.value.v_u8 = 1 then relayOff s else relayOn s := by
  show (if DataType.bool.code ≠ env.value.datatype then (ErrorCode.datatype, s)
    else (.success, if env.value.v_u8 = 1 then relayOff s else relayOn s)).2 = _
  split <;> rfl

/-- The meter can always be read. -/
theorem endpointRead_powerMeter (value : HxbValue) (s : Dev Socket) :
    (socketChain.endpointRead epPowerMeter value s).1 = .success := rfl

/-- **Which writes of the relay are quiet**: those refused for their data type, and
those that ask for the relay to be on (`FALSE`) when it is on. -/
theorem quietWrite_relay_iff (loc : Locals) (s : Fw Socket) (t : Transition)
    (heid : t.eid = epPowerSwitch) :
    QuietWrite socketChain loc s t ↔
      t.datatype ≠ DataType.bool.code ∨ (t.value.v_u8 ≠ 1 ∧ s.dev.relayState = true) := by
  have hloud : ∀ d : Dev Socket, SelfCall.broadcast epPowerMeter ∈ (meteringReset d).calls := by
    intro d
    simp [meteringReset]
  unfold QuietWrite
  rw [heid, endpointWrite_relay]
  have henv : (actionEnvelope loc.eidEnv t).value = t.value := rfl
  have hdatatype : t.value.datatype = t.datatype := rfl
  rw [henv, hdatatype]
  by_cases htype : t.datatype = DataType.bool.code
  · rw [if_neg (not_not.mpr htype.symm)]
    by_cases hoff : t.value.v_u8 = 1
    · rw [if_pos hoff]
      -- switching off always resets the meter
      constructor
      · intro h
        exact absurd (endpointRead_powerMeter _ _) (h _ (hloud _))
      · rintro (h | ⟨h, -⟩)
        · exact absurd htype h
        · exact absurd hoff h
    · rw [if_neg hoff]
      by_cases hon : s.dev.relayState = true
      · have hnothing : relayOn ⟨s.dev, s.eeprom, []⟩ = ⟨s.dev, s.eeprom, []⟩ := if_pos hon
        rw [hnothing]
        simp [hoff, hon]
      · have hreset : relayOn ⟨s.dev, s.eeprom, []⟩ = meteringReset
            ⟨{ s.dev with relayState := true }, s.eeprom, []⟩ := if_neg hon
        rw [hreset]
        constructor
        · intro h
          exact absurd (endpointRead_powerMeter _ _) (h _ (hloud _))
        · rintro (h | ⟨-, h⟩)
          · exact absurd htype h
          · exact absurd h hon
  · rw [if_pos (Ne.symm htype)]
    simp [htype]

/-! ## A run that loses an input -/

/-- A Plug+ with a table of one transition: whatever comes in, switch the relay as
`value` says and go to state 1. -/
def relayMachine (relayState : Bool) (value : UInt8) : Fw Socket where
  eeprom := Lib.Store.writeBlock (fun _ => 0) EE.statemachineTransitions
    (Transition.mk 0 trueCondIndex epPowerSwitch 1 0 DataType.bool.code
      ⟨value :: List.replicate 7 0, rfl⟩).toBytes
  transLength := 1
  dtTransLength := 0
  curState := 0
  inStateSince := 0
  dtValid := false
  smHandleInputEvent := 0x8a
  udpHandlerEvent := 0x8b
  lastevent := 0x8c
  pstate := .running
  timestamp := 7
  currentDt := ⟨0, 0, 0, 0, 0, 0, 0⟩
  timeValid := false
  dev := ⟨relayState, 40, 1000, 0, 0, 0⟩
  stackOverflow := false
  log := []

/-- Local variables that happen to be zero. -/
def zeroLocals : Locals where
  eidEnv := ⟨Block.zero 16, 0, 0, ⟨0, Block.zero 8, []⟩⟩
  dtenvelope := ⟨Block.zero 16, 0, 0, ⟨0, Block.zero 8, []⟩⟩
  value := ⟨0, Block.zero 8, []⟩

/-- The button of another device. -/
def buttonInfo : HxbEnvelope :=
  ⟨⟨0xfe :: List.replicate 15 0, rfl⟩, 61616, 4,
    ⟨DataType.bool.code, ⟨1 :: List.replicate 7 0, rfl⟩, []⟩⟩

/-- The meter's value when it has been reset. -/
def meterValue : HxbEnvelope :=
  ⟨localhost, 0, epPowerMeter, ⟨DataType.uint32.code, Block.zero 8, []⟩⟩

/-- The button switches the relay, the relay resets the meter, and what the meter
broadcasts is handed over and never evaluated. -/
theorem relayMachine_loses_input :
    let after := run (step socketChain zeroLocals 2) (relayMachine false 1) [.info buttonInfo]
    Entry.handed meterValue ∈ after.log ∧ (∀ st, Entry.evaluated meterValue st ∉ after.log) ∧
      ¬ Sequential 0 after.log after.curState := by
  intro after
  have hlog : after.log = [.handed buttonInfo, .evaluated buttonInfo 0, .handed meterValue,
      .handed ⟨localhost, 0, epEnergyMeterTotal, ⟨DataType.float.code, Block.zero 8, []⟩⟩,
      .finished buttonInfo 1] := by
    decide +kernel
  rw [hlog]
  refine ⟨by decide +kernel, ?_, ?_⟩
  · intro st hmem
    simp [buttonInfo, meterValue, epPowerMeter] at hmem
  · intro h
    cases h

/-- With the relay on already, asking for it to be on hands nothing over. -/
theorem relayMachine_keeps_order :
    let after := run (step socketChain zeroLocals 2) (relayMachine true 0) [.info buttonInfo, .tick]
    Sequential 0 after.log after.curState := by
  have hbutton : Admitted socketChain zeroLocals (relayMachine true 0) buttonInfo := by
    refine ⟨rfl, by decide, by decide, ?_⟩
    intro t ht
    have haction : reachedAction false (some buttonInfo) 1 0 (relayMachine true 0)
        = some (Transition.mk 0 trueCondIndex epPowerSwitch 1 0 DataType.bool.code
            ⟨0 :: List.replicate 7 0, rfl⟩) := by
      decide +kernel
    have hsame : afterReset (relayMachine true 0) buttonInfo = relayMachine true 0 :=
      if_neg (by decide +kernel)
    rw [hsame] at ht ⊢
    obtain rfl : _ = t := Option.some.inj (haction.symm.trans ht)
    rw [quietWrite_relay_iff _ _ _ rfl]
    exact .inr ⟨by decide, rfl⟩
  have htick : QuietTick socketChain zeroLocals
      (step socketChain zeroLocals 2 (.info buttonInfo) (relayMachine true 0)) := by
    intro t ht
    have hlength : (step socketChain zeroLocals 2 (.info buttonInfo)
        (relayMachine true 0)).dtTransLength.toNat = 0 := by
      decide +kernel
    rw [hlength] at ht
    cases ht
  exact run_inOrder socketChain zeroLocals 1 (relayMachine true 0) [.info buttonInfo, .tick]
    ProcessState.noConfusion rfl ⟨hbutton, fun _ => htick, trivial⟩

end Hexabus.Firmware
