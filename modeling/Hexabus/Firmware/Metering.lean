import Hexabus.Firmware.Relay

/-!
# The arithmetic of the meter

`metering.c`. Every pulse of the metering chip interrupts; the time between two pulses, as the
difference of two readings of the 16-bit clock, divides a reference value, which the calibration
works out from ten pulses and the web server from the pulses of an S0 meter.
-/

namespace Hexabus.Firmware.Metering

/-! ## The source -/

/-- `CLOCK_SECOND`. -/
def clockSecond : UInt16 := 125

/-- `METERING_IMMEDIATE_BROADCAST_NUMBER_OF_TICKS` and `.._MINIMUM_TIMEOUT`. -/
def numberOfTicks : UInt8 := 1
def minimumTimeout : UInt16 := 1

/-- `S0_ENABLE`, and what the machine makes of a division of the reference value by zero. -/
structure Build where
  s0Enable : Bool
  byZero : UInt16 → UInt16

/-- The static variables of `metering.c` with that of the relay, the words in the EEPROM, and the
endpoints that have been broadcast. -/
structure Meter where
  pulsePeriod : UInt16
  clockOld : UInt16
  calibrationPower : UInt16
  referenceValue : UInt16
  calibrationState : UInt8
  power : UInt16
  calibration : Bool
  ticksUntilBroadcast : UInt8
  lastBroadcast : UInt16
  lastPower : UInt32
  pulsesTotal : UInt32
  pulses : UInt32
  relayState : Bool
  meteringRef : UInt16
  meteringCalLoad : UInt16
  meteringCalFlag : UInt8
  broadcasts : List UInt32

/-- The time since `old`, as it is worked out at four places. -/
def difference (now old : UInt16) : UInt16 :=
  if now > old then now - old else 0xffff - old + now + 1

variable (b : Build)

/-- `calc_power`, `none` for a division by zero. -/
def calcPower (m : Meter) (pulsePeriod : UInt16) : Option UInt16 :=
  if pulsePeriod = 0 then none
  else if b.s0Enable then
    some ((m.referenceValue.toUInt32 * 10) / pulsePeriod.toUInt32).toUInt16
  else some (m.referenceValue / pulsePeriod)

/-- What `calc_power` returns. -/
def powerOf (m : Meter) (pulsePeriod : UInt16) : UInt16 :=
  (calcPower b m pulsePeriod).getD (b.byZero m.referenceValue)

/-- More than two periods have passed. -/
def isLate (m : Meter) (tmp : UInt16) : Bool :=
  if b.s0Enable then
    tmp.toUInt32 > 2 * ((m.referenceValue.toUInt32 * 10) / m.power.toUInt32)
  else tmp > 2 * (m.referenceValue / m.power)

/-- `metering_get_power`. -/
def getPower (now : UInt16) (m : Meter) : UInt16 × Meter :=
  let tmp := difference now m.clockOld
  let m :=
    if tmp > outOfDate then { m with power := 0 }
    else if m.power ≠ 0 ∧ isLate b m tmp then { m with power := powerOf b m tmp }
    else m
  (m.power, m)

/-- `metering_start`. -/
def start (now : UInt16) (m : Meter) : Meter :=
  { m with pulsePeriod := 0, power := 0, clockOld := now, lastBroadcast := now }

/-- `metering_reset`. -/
def reset (m : Meter) : Meter :=
  { m with power := 0, broadcasts := m.broadcasts ++ [epPowerMeter, epEnergyMeterTotal] }

/-- `metering_init`. -/
def init (now : UInt16) (m : Meter) : Meter :=
  start now
    { m with
      referenceValue := m.meteringRef
      calibrationPower := m.meteringCalLoad
      pulses := 0
      pulsesTotal := 0 }

/-- `metering_set_s0_calibration`, `none` for a division by zero. -/
def setS0Calibration (now value : UInt16) (m : Meter) : Option Meter :=
  let m := reset m
  if value * 10 = 0 then none
  else
    let word : UInt32 := 3600000 * clockSecond.toUInt32 / (value * 10).toUInt32
    some (start now (init now { m with meteringRef := word.toUInt16 }))

/-- `relay_on` and `relay_off`. -/
def relayOn (m : Meter) : Meter :=
  if m.relayState then m else reset { m with relayState := true }

def relayOff (m : Meter) : Meter := reset { m with relayState := false }

/-- `metering_calibrate`. -/
def calibrate (m : Meter) : Bool × Meter :=
  let m :=
    if m.meteringCalFlag = 0xff ∧ m.calibration = false then
      relayOff { m with calibration := true, calibrationState := 0 }
    else m
  (m.calibration, m)

/-- `metering_calibration_stop`. -/
def calibrationStop (m : Meter) : Meter :=
  { m with meteringRef := 0, meteringCalFlag := 0, calibrationState := 0, calibration := false }

/-- The interrupt, while the meter is calibrated. -/
def calibratePulse (now : UInt16) (m : Meter) : Meter :=
  if m.calibrationState < 10 then
    let m := if m.calibrationState = 0 then { m with pulsePeriod := now } else m
    { m with calibrationState := m.calibrationState + 1 }
  else
    let m := { m with pulsePeriod := difference now m.pulsePeriod / 10 }
    let m := { m with referenceValue := m.pulsePeriod * m.calibrationPower }
    relayOn
      { m with
        meteringRef := m.referenceValue
        meteringCalFlag := 0
        calibrationState := 0
        calibration := false }

/-- The broadcast behind a measurement. -/
def immediateBroadcast (now : UInt16) (m : Meter) : Meter :=
  if m.ticksUntilBroadcast - 1 ≠ 0 then
    { m with ticksUntilBroadcast := m.ticksUntilBroadcast - 1 }
  else
    let m := { m with ticksUntilBroadcast := numberOfTicks }
    if difference now m.lastBroadcast > minimumTimeout * clockSecond then
      let m := { m with lastBroadcast := now }
      if m.lastPower ≠ m.power.toUInt32 then
        { m with broadcasts := m.broadcasts ++ [epPowerMeter], lastPower := m.power.toUInt32 }
      else m
    else m

/-- The interrupt, while it is measured. -/
def measurePulse (now : UInt16) (m : Meter) : Meter :=
  let m := { m with pulsePeriod := difference now m.clockOld, clockOld := now }
  let m := immediateBroadcast now { m with power := powerOf b m m.pulsePeriod }
  { m with pulses := m.pulses + 1, pulsesTotal := m.pulsesTotal + 1 }

/-- `ISR(METERING_VECT)`. -/
def isr (now : UInt16) (m : Meter) : Meter :=
  if m.calibration then calibratePulse now m else measurePulse b now m

/-! ## What the arithmetic computes -/

/-- Both branches are the difference modulo 2^16. -/
theorem difference_eq (now old : UInt16) : difference now old = now - old := by
  unfold difference
  split
  · rfl
  · apply UInt16.toNat_inj.mp
    have hold : old.toNat < 2 ^ 16 := old.toNat_lt
    have hnow : now.toNat < 2 ^ 16 := now.toNat_lt
    have hmax : (0xffff - old).toNat = 65535 - old.toNat := by
      have hle : old ≤ 0xffff := UInt16.le_iff_toNat_le.mpr (by show old.toNat ≤ 65535; omega)
      exact UInt16.toNat_sub_of_le _ _ hle
    rw [UInt16.toNat_add, UInt16.toNat_add, hmax, UInt16.toNat_sub]
    show ((65535 - old.toNat + now.toNat) % 2 ^ 16 + 1) % 2 ^ 16 = _
    omega

/-- The time that has passed, up to whole rounds of the clock. -/
theorem difference_ofNat {old now : Nat} (h : old ≤ now) :
    (difference (UInt16.ofNat now) (UInt16.ofNat old)).toNat = (now - old) % 65536 := by
  rw [difference_eq, UInt16.toNat_sub, UInt16.toNat_ofNat', UInt16.toNat_ofNat']
  show (2 ^ 16 - old % 65536 + now % 65536) % 2 ^ 16 = _
  omega

/-- The dividend of a build. -/
def dividend (m : Meter) : Nat :=
  if b.s0Enable then m.referenceValue.toNat * 10 else m.referenceValue.toNat

theorem toNat_times10 (m : Meter) :
    (m.referenceValue.toUInt32 * 10).toNat = m.referenceValue.toNat * 10 := by
  have hlt : m.referenceValue.toNat < 2 ^ 16 := m.referenceValue.toNat_lt
  rw [UInt32.toNat_mul, UInt16.toNat_toUInt32]
  show m.referenceValue.toNat * 10 % 2 ^ 32 = _
  omega

/-- The quotient, which S0 meters truncate. -/
theorem calcPower_eq (m : Meter) {period : UInt16} (h : period ≠ 0) :
    ∃ p, calcPower b m period = some p ∧ p.toNat = dividend b m / period.toNat % 65536 := by
  unfold calcPower dividend
  rw [if_neg h]
  by_cases hs0 : b.s0Enable = true
  · rw [if_pos hs0, if_pos hs0]
    refine ⟨_, rfl, ?_⟩
    rw [UInt32.toNat_toUInt16, UInt32.toNat_div, toNat_times10, UInt16.toNat_toUInt32]
  · have hlt : m.referenceValue.toNat < 2 ^ 16 := m.referenceValue.toNat_lt
    have hle := Nat.div_le_self m.referenceValue.toNat period.toNat
    rw [if_neg hs0, if_neg hs0]
    refine ⟨_, rfl, ?_⟩
    rw [UInt16.toNat_div, Nat.mod_eq_of_lt (by omega)]

/-- Twice a quotient, which others truncate. -/
def doubled (m : Meter) : Nat :=
  if b.s0Enable then 2 * (dividend b m / m.power.toNat)
  else 2 * (dividend b m / m.power.toNat) % 65536

theorem isLate_iff (m : Meter) (tmp : UInt16) :
    isLate b m tmp = true ↔ doubled b m < tmp.toNat := by
  have hlt : m.referenceValue.toNat < 2 ^ 16 := m.referenceValue.toNat_lt
  unfold isLate doubled dividend
  by_cases hs0 : b.s0Enable = true
  · have hle := Nat.div_le_self (m.referenceValue.toNat * 10) m.power.toNat
    rw [if_pos hs0, if_pos hs0, if_pos hs0, decide_eq_true_iff, gt_iff_lt, UInt32.lt_iff_toNat_lt,
      UInt32.toNat_mul, UInt32.toNat_div, toNat_times10, UInt16.toNat_toUInt32,
      UInt16.toNat_toUInt32]
    show 2 * (m.referenceValue.toNat * 10 / m.power.toNat) % 2 ^ 32 < _ ↔ _
    rw [Nat.mod_eq_of_lt (by omega)]
  · rw [if_neg hs0, if_neg hs0, if_neg hs0, decide_eq_true_iff, gt_iff_lt, UInt16.lt_iff_toNat_lt,
      UInt16.toNat_mul, UInt16.toNat_div]
    rfl

/-! ## One pulse -/

theorem immediateBroadcast_same (now : UInt16) (m : Meter) :
    (immediateBroadcast now m).pulsePeriod = m.pulsePeriod ∧
      (immediateBroadcast now m).clockOld = m.clockOld ∧
      (immediateBroadcast now m).referenceValue = m.referenceValue ∧
      (immediateBroadcast now m).power = m.power ∧
      (immediateBroadcast now m).calibration = m.calibration := by
  unfold immediateBroadcast
  dsimp only
  split
  · exact ⟨rfl, rfl, rfl, rfl, rfl⟩
  · split
    · split
      · exact ⟨rfl, rfl, rfl, rfl, rfl⟩
      · exact ⟨rfl, rfl, rfl, rfl, rfl⟩
    · exact ⟨rfl, rfl, rfl, rfl, rfl⟩

/-- A pulse that is measured. -/
theorem isr_measure {m : Meter} (h : m.calibration = false) (now : UInt16) :
    (isr b now m).pulsePeriod = difference now m.clockOld ∧
      (isr b now m).clockOld = now ∧
      (isr b now m).referenceValue = m.referenceValue ∧
      (isr b now m).power = powerOf b m (difference now m.clockOld) ∧
      (isr b now m).calibration = false := by
  obtain ⟨hperiod, hclock, hreference, hpower, hcalibration⟩ := immediateBroadcast_same now
    { m with
      pulsePeriod := difference now m.clockOld
      clockOld := now
      power := powerOf b m (difference now m.clockOld) }
  unfold isr measurePulse
  rw [if_neg (by rw [h]; exact Bool.false_ne_true)]
  exact ⟨hperiod, hclock, hreference, hpower, hcalibration.trans h⟩

/-- A reading, by the time that has passed. -/
theorem getPower_eq (now : UInt16) (m : Meter) : (getPower b now m).1 =
    if 30000 < (difference now m.clockOld).toNat then 0
    else if m.power ≠ 0 ∧ doubled b m < (difference now m.clockOld).toNat then
      powerOf b m (difference now m.clockOld)
    else m.power := by
  have hdate : difference now m.clockOld > outOfDate ↔
      30000 < (difference now m.clockOld).toNat := UInt16.lt_iff_toNat_lt
  unfold getPower
  dsimp only
  by_cases hlate : difference now m.clockOld > outOfDate
  · rw [if_pos hlate, if_pos (hdate.mp hlate)]
  · rw [if_neg hlate, if_neg (mt hdate.mpr hlate)]
    by_cases hsoon : m.power ≠ 0 ∧ isLate b m (difference now m.clockOld) = true
    · rw [if_pos hsoon, if_pos ⟨hsoon.1, (isLate_iff b m _).mp hsoon.2⟩]
    · rw [if_neg hsoon, if_neg fun h => hsoon ⟨h.1, (isLate_iff b m _).mpr h.2⟩]

/-- A reading changes nothing but the power. -/
theorem getPower_same (now : UInt16) (m : Meter) :
    (getPower b now m).2 = { m with power := (getPower b now m).1 } := by
  unfold getPower
  dsimp only
  split
  · rfl
  · split
    · rfl
    · rfl

/-- A reading at the pulse, such as that of the broadcast, leaves the power. -/
theorem getPower_at_pulse (m : Meter) : (getPower b m.clockOld m).1 = m.power := by
  have hzero : (difference m.clockOld m.clockOld).toNat = 0 := by
    rw [difference_eq, UInt16.sub_self]
    rfl
  rw [getPower_eq, hzero, if_neg (Nat.not_lt_zero _), if_neg fun h => Nat.not_lt_zero _ h.2]

/-- A quotient by more than twice another one is not larger than its divisor. -/
theorem div_lt_of_late {r p t : Nat} (hp : 0 < p) (ht : 2 * (r / p) < t) : r / t < p := by
  have hr : r < p * (r / p + 1) := Nat.lt_mul_div_succ r hp
  have hle : p * (r / p + 1) ≤ p * t := Nat.mul_le_mul_left p (by omega)
  exact Nat.div_lt_of_lt_mul (by rw [Nat.mul_comm t p]; omega)

/-- The meter without S0 is the one whose broadcasts the relay makes. -/
theorem getPower_socket {m : Meter} {d : Socket} (hs0 : b.s0Enable = false)
    (hold : m.clockOld = d.clockOld) (hreference : m.referenceValue = d.meteringReferenceValue)
    (hpower : m.power = d.meteringPower) :
    (getPower b d.clockTime m).1 = meteringGetPower d := by
  unfold getPower meteringGetPower
  dsimp only
  rw [difference_eq, hold]
  by_cases hdate : d.clockTime - d.clockOld > outOfDate
  · rw [if_pos hdate, if_pos hdate]
  · rw [if_neg hdate, if_neg hdate]
    have hlate : isLate b m (d.clockTime - d.clockOld) = true ↔
        d.clockTime - d.clockOld > 2 * (d.meteringReferenceValue / d.meteringPower) := by
      rw [isLate, hs0, hreference, hpower]
      exact decide_eq_true_iff
    by_cases hsoon : m.power ≠ 0 ∧ isLate b m (d.clockTime - d.clockOld) = true
    · have hsoon' := hlate.mp hsoon.2
      have hpos : d.clockTime - d.clockOld ≠ 0 := by
        intro hzero
        rw [hzero] at hsoon'
        exact absurd hsoon' (UInt16.not_lt_zero)
      rw [if_pos hsoon, if_pos ⟨hpower ▸ hsoon.1, hsoon'⟩]
      show powerOf b m _ = _
      rw [powerOf, calcPower, if_neg hpos, hs0, hreference]
      rfl
    · rw [if_neg hsoon, if_neg fun h => hsoon ⟨hpower ▸ h.1, hlate.mpr h.2⟩, hpower]

/-! ## A calibration -/

/-- The pulses between the first and the last one are counted. -/
theorem calibrate_between {m : Meter} (hcal : m.calibration = true)
    (hpos : 0 < m.calibrationState.toNat) {times : List UInt16}
    (h : m.calibrationState.toNat + times.length ≤ 10) :
    (times.foldl (fun m now => isr b now m) m).calibration = true ∧
      (times.foldl (fun m now => isr b now m) m).calibrationState.toNat =
        m.calibrationState.toNat + times.length ∧
      (times.foldl (fun m now => isr b now m) m).pulsePeriod = m.pulsePeriod ∧
      (times.foldl (fun m now => isr b now m) m).calibrationPower = m.calibrationPower := by
  induction times generalizing m with
  | nil => exact ⟨hcal, rfl, rfl, rfl⟩
  | cons now times ih =>
    rw [List.length_cons] at h ⊢
    have hlt : m.calibrationState < 10 :=
      UInt8.lt_iff_toNat_lt.mpr (by show m.calibrationState.toNat < 10; omega)
    have hne : m.calibrationState ≠ 0 := by
      intro hzero
      rw [hzero] at hpos
      exact absurd hpos (by decide)
    have hnext : (m.calibrationState + 1).toNat = m.calibrationState.toNat + 1 := by
      rw [UInt8.toNat_add]
      show (m.calibrationState.toNat + 1) % 256 = _
      omega
    have hpulse : isr b now m = { m with calibrationState := m.calibrationState + 1 } := by
      rw [isr, if_pos hcal, calibratePulse, if_pos hlt, if_neg hne]
    have hrest := @ih { m with calibrationState := m.calibrationState + 1 } hcal
      (by show 0 < (m.calibrationState + 1).toNat; omega)
      (by show (m.calibrationState + 1).toNat + _ ≤ 10; omega)
    rw [List.foldl_cons, hpulse]
    obtain ⟨hcal', hstate, hperiod, hpower⟩ := hrest
    refine ⟨hcal', hstate.trans ?_, hperiod, hpower⟩
    show (m.calibrationState + 1).toNat + _ = _
    omega

/-- Eleven pulses. -/
def calibrateWith (first : UInt16) (between : List UInt16) (last : UInt16) (m : Meter) : Meter :=
  isr b last (between.foldl (fun m now => isr b now m) (isr b first m))

/-- **A calibration** takes a tenth of the time from the first pulse to the last one. -/
theorem calibrateWith_eq {m : Meter} (hcal : m.calibration = true) (hstate : m.calibrationState = 0)
    (first last : UInt16) {between : List UInt16} (hnine : between.length = 9) :
    (calibrateWith b first between last m).pulsePeriod = difference last first / 10 ∧
      (calibrateWith b first between last m).referenceValue =
        difference last first / 10 * m.calibrationPower := by
  have hfirst : isr b first m = { m with pulsePeriod := first, calibrationState := 1 } := by
    rw [isr, if_pos hcal, calibratePulse, hstate, if_pos (by decide), if_pos rfl]
    rfl
  obtain ⟨hcal', hstate', hperiod, hpower⟩ := @calibrate_between b
    { m with pulsePeriod := first, calibrationState := 1 } hcal (by show 0 < 1; decide) between
    (by rw [hnine]; show 1 + 9 ≤ 10; decide)
  rw [hnine] at hstate'
  unfold calibrateWith
  rw [hfirst]
  generalize between.foldl (fun m now => isr b now m)
    { m with pulsePeriod := first, calibrationState := 1 } = counted at *
  have hfull : ¬ counted.calibrationState < 10 := by
    rw [UInt8.lt_iff_toNat_lt, hstate']
    show ¬ 1 + 9 < 10
    decide
  have hrelay : ∀ m : Meter, (relayOn m).pulsePeriod = m.pulsePeriod ∧
      (relayOn m).referenceValue = m.referenceValue := by
    intro m
    unfold relayOn
    split
    · exact ⟨rfl, rfl⟩
    · exact ⟨rfl, rfl⟩
  rw [isr, if_pos hcal', calibratePulse, if_neg hfull, (hrelay _).1, (hrelay _).2]
  dsimp only
  rw [hperiod, hpower]
  exact ⟨rfl, rfl⟩

/-! ## Two pulses -/

/-- Two pulses at any ticks since the start, to a meter that measures and as the first and the last
one of a calibration, a later reading, and a number for the S0 calibration. -/
structure Scenario where
  meter : Meter
  calibrated : Meter
  first : Nat
  between : List UInt16
  second : Nat
  read : Nat
  value : UInt16
  measures : meter.calibration = false
  begins : calibrated.calibration = true ∧ calibrated.calibrationState = 0
  nine : between.length = 9
  ordered : first ≤ second
  later : second ≤ read

namespace Scenario

variable (s : Scenario)

/-- The true times between the pulses and since the second one. -/
def period : Nat := s.second - s.first
def pause : Nat := s.read - s.second

/-- The meter after the first pulse and after the second one, and at the end of the calibration. -/
def atFirst : Meter := isr b (UInt16.ofNat s.first) s.meter
def measured : Meter := isr b (UInt16.ofNat s.second) (s.atFirst b)
def calibrationEnd : Meter :=
  calibrateWith b (UInt16.ofNat s.first) s.between (UInt16.ofNat s.second) s.calibrated

/-- The power for the true period, and what is to be read of it after the pause. -/
def truePower : Nat := dividend b s.meter / s.period
def trueReading : Nat :=
  if 30000 < s.pause then 0
  else if s.truePower b ≠ 0 ∧ 2 * (dividend b s.meter / s.truePower b) < s.pause then
    dividend b s.meter / s.pause
  else s.truePower b

/-- No division by zero, no product that is cut off, and the results for the true times. -/
structure Right : Prop where
  period : (s.measured b).pulsePeriod.toNat = s.period
  power : ∃ p, calcPower b (s.atFirst b) (s.measured b).pulsePeriod = some p ∧
    (s.measured b).power = p ∧ p.toNat = s.truePower b
  pause : (difference (UInt16.ofNat s.read) (s.measured b).clockOld).toNat = s.pause
  product : s.pause ≤ 30000 → s.truePower b ≠ 0 →
    doubled b (s.measured b) = 2 * (dividend b s.meter / s.truePower b)
  reading : (getPower b (UInt16.ofNat s.read) (s.measured b)).1.toNat = s.trueReading b
  calibration : (s.calibrationEnd b).pulsePeriod.toNat = s.period / 10 ∧
    (s.calibrationEnd b).referenceValue.toNat =
      s.period / 10 * s.calibrated.calibrationPower.toNat
  s0 : (s.value * 10).toNat = s.value.toNat * 10 ∧ ∃ m,
    setS0Calibration (UInt16.ofNat s.read) s.value s.meter = some m ∧
      m.referenceValue.toNat = 450000000 / (s.value.toNat * 10)

/-- The numbers fit into the words they are worked out in. -/
structure Fits : Prop where
  period_pos : 0 < s.period
  period_lt : s.period < 65536
  power_lt : dividend b s.meter < 65536 * s.period
  pause_lt : s.pause < 65536
  product_lt : s.pause ≤ 30000 → b.s0Enable = false →
    ¬ (32768 ≤ dividend b s.meter ∧ s.period ≤ dividend b s.meter ∧
      dividend b s.meter < 2 * s.period)
  reference_lt : s.period / 10 * s.calibrated.calibrationPower.toNat < 65536
  value_ge : 687 ≤ s.value.toNat
  value_le : s.value.toNat ≤ 6553

variable {b s}

theorem measured_eq : (s.measured b).pulsePeriod.toNat = s.period % 65536 ∧
    (s.measured b).clockOld = UInt16.ofNat s.second ∧
    (s.measured b).power = powerOf b (s.atFirst b) (s.measured b).pulsePeriod ∧
    dividend b (s.atFirst b) = dividend b s.meter ∧
    dividend b (s.measured b) = dividend b s.meter := by
  obtain ⟨-, hclock, hreference, -, hcal⟩ := isr_measure b s.measures (UInt16.ofNat s.first)
  obtain ⟨hperiod', hclock', hreference', hpower', -⟩ :=
    @isr_measure b (s.atFirst b) hcal (UInt16.ofNat s.second)
  refine ⟨?_, hclock', ?_, ?_, ?_⟩
  · refine (congrArg UInt16.toNat hperiod').trans ?_
    rw [atFirst, hclock]
    exact difference_ofNat s.ordered
  · exact hpower'.trans (congrArg (powerOf b (s.atFirst b)) hperiod'.symm)
  · unfold dividend
    rw [atFirst, hreference]
  · unfold dividend
    rw [measured, hreference', atFirst, hreference]

/-- The product of the S0 calibration. -/
theorem value_times10 : (s.value * 10).toNat = s.value.toNat * 10 % 65536 := by
  rw [UInt16.toNat_mul]
  rfl

/-- The word that is stored for an S0 meter. -/
theorem s0_eq (h : s.value * 10 ≠ 0) (now : UInt16) : ∃ m,
    setS0Calibration now s.value s.meter = some m ∧
      m.referenceValue.toNat = 450000000 / (s.value * 10).toNat % 65536 := by
  refine ⟨_, if_neg h, ?_⟩
  show (3600000 * clockSecond.toUInt32 / (s.value * 10).toUInt32).toUInt16.toNat = _
  rw [UInt32.toNat_toUInt16, UInt32.toNat_div, UInt16.toNat_toUInt32]
  rfl

theorem Right.fits (h : s.Right b) : s.Fits b := by
  obtain ⟨hperiod, hclock, -, hfirst, hdividend⟩ := @measured_eq b s
  have hlt : s.period < 65536 := by
    have hright := h.period
    omega
  obtain ⟨p, hcalc, hpower, hp⟩ := h.power
  have hpos : 0 < s.period := by
    by_contra hzero
    have hnone : (s.measured b).pulsePeriod = 0 := by
      apply UInt16.toNat_inj.mp
      rw [hperiod]
      show _ = 0
      omega
    rw [calcPower, if_pos hnone] at hcalc
    cases hcalc
  have hquotient : dividend b s.meter / s.period < 65536 := by
    have hword := p.toNat_lt
    rw [hp] at hword
    exact hword
  have hpause : s.pause < 65536 := by
    have hright := h.pause
    rw [hclock, difference_ofNat s.later] at hright
    have hmod : s.pause % 65536 = s.pause := hright
    omega
  obtain ⟨hmean, hreference⟩ := h.calibration
  obtain ⟨htimes, m, hsome, hword⟩ := h.s0
  have hvalue := @value_times10 s
  have hne : s.value * 10 ≠ 0 := by
    intro hzero
    have hnone : setS0Calibration (UInt16.ofNat s.read) s.value s.meter = none := if_pos hzero
    cases hsome.symm.trans hnone
  have hpositive : s.value.toNat * 10 ≠ 0 := by
    rw [← htimes]
    exact fun hzero => hne (UInt16.toNat_inj.mp hzero)
  constructor
  case period_pos => exact hpos
  case period_lt => exact hlt
  case power_lt =>
    have hle := (Nat.div_lt_iff_lt_mul hpos).mp hquotient
    exact hle
  case pause_lt => exact hpause
  case product_lt =>
    rintro hshort hs0 ⟨hlarge, hle, htwice⟩
    have hone : s.truePower b = 1 := by
      unfold truePower
      exact Nat.div_eq_of_lt_le (by omega) (by omega)
    have hproduct := h.product hshort (by rw [hone]; decide)
    have hp1 : (s.measured b).power.toNat = 1 := by
      rw [hpower, hp, hone]
    have hmax : dividend b s.meter < 65536 := by
      unfold dividend
      rw [hs0]
      exact s.meter.referenceValue.toNat_lt
    unfold doubled at hproduct
    rw [hs0, hdividend, hp1, hone, Nat.div_one] at hproduct
    have hcut : 2 * dividend b s.meter % 65536 = 2 * dividend b s.meter := hproduct
    omega
  case reference_lt =>
    rw [← hreference]
    exact UInt16.toNat_lt _
  case value_ge =>
    have hword' : 450000000 / (s.value.toNat * 10) < 65536 := hword ▸ UInt16.toNat_lt _
    have hbound := (Nat.div_lt_iff_lt_mul (Nat.pos_of_ne_zero hpositive)).mp hword'
    omega
  case value_le => omega

theorem Fits.right (h : s.Fits b) : s.Right b := by
  obtain ⟨hperiod, hclock, hpower, hfirst, hdividend⟩ := @measured_eq b s
  have hpos := h.period_pos
  have hperiod' : (s.measured b).pulsePeriod.toNat = s.period := by
    rw [hperiod, Nat.mod_eq_of_lt h.period_lt]
  have hne : (s.measured b).pulsePeriod ≠ 0 := by
    intro hzero
    rw [hzero] at hperiod'
    exact absurd hperiod'.symm (Nat.ne_of_gt hpos)
  obtain ⟨p, hcalc, hp⟩ := calcPower_eq b (s.atFirst b) hne
  have hquotient : dividend b s.meter / s.period < 65536 :=
    (Nat.div_lt_iff_lt_mul hpos).mpr h.power_lt
  have hp' : p.toNat = s.truePower b := by
    rw [hp, hfirst, hperiod', Nat.mod_eq_of_lt hquotient]
    rfl
  have hmeasured : (s.measured b).power = p := by
    rw [hpower, powerOf, hcalc]
    rfl
  have hpause : (difference (UInt16.ofNat s.read) (s.measured b).clockOld).toNat = s.pause := by
    rw [hclock, difference_ofNat s.later]
    exact Nat.mod_eq_of_lt h.pause_lt
  have hproduct : s.pause ≤ 30000 → s.truePower b ≠ 0 →
      doubled b (s.measured b) = 2 * (dividend b s.meter / s.truePower b) := by
    intro hshort hpositive
    unfold doubled
    rw [hdividend, hmeasured, hp']
    by_cases hs0 : b.s0Enable = true
    · rw [if_pos hs0]
    · rw [if_neg hs0]
      have hmax : dividend b s.meter < 65536 := by
        unfold dividend
        rw [if_neg hs0]
        exact s.meter.referenceValue.toNat_lt
      refine Nat.mod_eq_of_lt ?_
      by_contra hlarge
      have hge : 32768 ≤ dividend b s.meter / s.truePower b := by omega
      have hmul := (Nat.le_div_iff_mul_le (Nat.pos_of_ne_zero hpositive)).mp hge
      have hone : s.truePower b = 1 := by omega
      have hle : s.period ≤ dividend b s.meter := by
        by_contra hgt
        exact hpositive (Nat.div_eq_of_lt (Nat.lt_of_not_le hgt))
      have htwice : dividend b s.meter < 2 * s.period := by
        have hsucc := Nat.lt_mul_div_succ (dividend b s.meter) hpos
        have hdiv : dividend b s.meter / s.period = 1 := hone
        rw [hdiv] at hsucc
        omega
      refine h.product_lt hshort (Bool.eq_false_iff.mpr hs0) ⟨?_, hle, htwice⟩
      rw [hone, Nat.div_one] at hge
      exact hge
  obtain ⟨hmean, hreference⟩ := calibrateWith_eq b s.begins.1 s.begins.2 (UInt16.ofNat s.first)
    (UInt16.ofNat s.second) s.nine
  have htenth : (difference (UInt16.ofNat s.second) (UInt16.ofNat s.first) / 10).toNat =
      s.period / 10 := by
    rw [UInt16.toNat_div, difference_ofNat s.ordered]
    show s.period % 65536 / 10 = _
    rw [Nat.mod_eq_of_lt h.period_lt]
  have hvalue := @value_times10 s
  have hle := h.value_le
  have hge := h.value_ge
  constructor
  case period => exact hperiod'
  case power => exact ⟨p, hcalc, hmeasured, hp'⟩
  case pause => exact hpause
  case product => exact hproduct
  case reading =>
    rw [getPower_eq, hpause]
    unfold trueReading
    by_cases hstale : 30000 < s.pause
    · rw [if_pos hstale, if_pos hstale]
      rfl
    · rw [if_neg hstale, if_neg hstale]
      have hzero : (s.measured b).power ≠ 0 ↔ s.truePower b ≠ 0 := by
        rw [hmeasured, ← hp', not_iff_not, ← UInt16.toNat_inj]
        rfl
      by_cases hlate : s.truePower b ≠ 0 ∧
          2 * (dividend b s.meter / s.truePower b) < s.pause
      · obtain ⟨hpositive, hgt⟩ := hlate
        have hdoubled := hproduct (Nat.le_of_not_lt hstale) hpositive
        have hpause0 : difference (UInt16.ofNat s.read) (s.measured b).clockOld ≠ 0 := by
          intro h0
          rw [h0] at hpause
          have hnone : 0 = s.pause := hpause
          omega
        obtain ⟨q, hq, hqeq⟩ := calcPower_eq b (s.measured b) hpause0
        have hsmall := div_lt_of_late (Nat.pos_of_ne_zero hpositive) hgt
        have hbound : s.truePower b < 65536 := hquotient
        rw [if_pos ⟨hzero.mpr hpositive, by rw [hdoubled]; exact hgt⟩, if_pos ⟨hpositive, hgt⟩,
          powerOf, hq]
        show q.toNat = _
        rw [hqeq, hdividend, hpause, Nat.mod_eq_of_lt (by omega)]
      · rw [if_neg hlate, if_neg]
        · rw [hmeasured, hp']
        · rintro ⟨hpositive, hgt⟩
          have hpositive' := hzero.mp hpositive
          rw [hproduct (Nat.le_of_not_lt hstale) hpositive'] at hgt
          exact hlate ⟨hpositive', hgt⟩
  case calibration =>
    refine ⟨(congrArg UInt16.toNat hmean).trans htenth, ?_⟩
    refine (congrArg UInt16.toNat hreference).trans ?_
    rw [UInt16.toNat_mul, htenth]
    exact Nat.mod_eq_of_lt h.reference_lt
  case s0 =>
    have htimes : (s.value * 10).toNat = s.value.toNat * 10 := by omega
    have hne10 : s.value * 10 ≠ 0 := by
      intro hzero
      rw [hzero] at htimes
      have hnone : 0 = s.value.toNat * 10 := htimes
      omega
    obtain ⟨m, hsome, hword⟩ := s0_eq hne10 (UInt16.ofNat s.read)
    refine ⟨htimes, m, hsome, ?_⟩
    rw [hword, htimes]
    refine Nat.mod_eq_of_lt ((Nat.div_lt_iff_lt_mul (by omega)).mpr ?_)
    omega

end Scenario

/-- **The arithmetic of the meter** is right, for two pulses and a reading at any ticks, any
reference value and calibration power, and any number for an S0 meter, exactly if all its numbers
fit. -/
theorem arithmetic_iff (s : Scenario) : s.Right b ↔ s.Fits b :=
  ⟨Scenario.Right.fits, Scenario.Fits.right⟩

/-- A meter with the reference value 31000, and one that is being calibrated with 100 W. -/
def sampleMeter (calibration : Bool) : Meter where
  pulsePeriod := 0
  clockOld := 0
  calibrationPower := 100
  referenceValue := 31000
  calibrationState := 0
  power := 0
  calibration := calibration
  ticksUntilBroadcast := numberOfTicks
  lastBroadcast := 0
  lastPower := 0xffffffff
  pulsesTotal := 0
  pulses := 0
  relayState := true
  meteringRef := 31000
  meteringCalLoad := 100
  meteringCalFlag := 0xff
  broadcasts := []

theorem length_between : (List.replicate 9 (100 : UInt16)).length = 9 := rfl

/-- Its pulses, `period` ticks apart, and a reading one tick later. -/
def sampleScenario (period : Nat) : Scenario where
  meter := sampleMeter false
  calibrated := sampleMeter true
  first := 100
  between := List.replicate 9 100
  second := 100 + period
  read := 100 + period + 1
  value := 1000
  measures := rfl
  begins := ⟨rfl, rfl⟩
  nine := length_between
  ordered := Nat.le_add_right 100 period
  later := Nat.le_succ (100 + period)

/-- Two seconds apart. -/
theorem twoSeconds_right : (sampleScenario 250).Right ⟨false, fun _ => 0xffff⟩ :=
  (arithmetic_iff ⟨false, fun _ => 0xffff⟩ (sampleScenario 250)).mpr
    ⟨by decide, by decide, by decide, by decide, by decide, by decide, by decide, by decide⟩

/-- Within one tick. -/
def oneTick : Scenario := sampleScenario 0

/-- The second pulse divides by zero. -/
theorem oneTick_wrong : ¬ oneTick.Right ⟨false, fun _ => 0xffff⟩ := by
  rintro ⟨-, ⟨p, hcalc, -⟩, -⟩
  have hnone : calcPower ⟨false, fun _ => 0xffff⟩ (oneTick.atFirst ⟨false, fun _ => 0xffff⟩)
      (oneTick.measured ⟨false, fun _ => 0xffff⟩).pulsePeriod = none := rfl
  cases hnone.symm.trans hcalc

end Hexabus.Firmware.Metering
