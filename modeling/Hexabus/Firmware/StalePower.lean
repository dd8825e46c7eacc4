import Hexabus.Firmware.Metering

/-!
# Readings of the meter

Runs of pulses, readings and the other operations of the meter, with the ticks that have really
passed beside the 16-bit clock, and the readings since the last pulse.
-/

namespace Hexabus.Firmware.Metering

open Lib.Runs

/-- The meter at tick `now`, with the tick at which `clock_old` was set and that of the last pulse,
and the readings since then, each with its time since the pulse. -/
structure Timed where
  meter : Meter
  now : Nat
  since : Nat
  lastPulse : Nat
  readings : List (Nat × UInt16)

namespace Timed

def clock (s : Timed) : UInt16 := UInt16.ofNat s.now

/-- The time since the last pulse. -/
def pause (s : Timed) : Nat := s.now - s.lastPulse

end Timed

inductive Step
  | wait (ticks : Nat)
  | pulse
  | read
  | calibrate
  | calibrationStop
  | relayOn
  | relayOff
  | init

variable (b : Build)

def step : Step → Timed → Timed
  | .wait ticks, s => { s with now := s.now + ticks }
  | .pulse, s =>
    { s with
      meter := isr b s.clock s.meter
      since := if s.meter.calibration then s.since else s.now
      lastPulse := s.now
      readings := [] }
  | .read, s =>
    { s with
      meter := (getPower b s.clock s.meter).2
      readings := s.readings ++ [(s.pause, (getPower b s.clock s.meter).1)] }
  | .calibrate, s => { s with meter := (calibrate s.meter).2 }
  | .calibrationStop, s => { s with meter := calibrationStop s.meter }
  | .relayOn, s => { s with meter := relayOn s.meter }
  | .relayOff, s => { s with meter := relayOff s.meter }
  | .init, s => { s with meter := init s.clock s.meter, since := s.now }

/-- The meter as it is started, with any EEPROM. -/
def boot (m : Meter) : Timed := ⟨init 0 m, 0, 0, 0, []⟩

/-- Out of date, the power is read as zero, and no reading is above an earlier one. -/
structure ReadsRight (s : Timed) : Prop where
  stale : ∀ r ∈ s.readings, 30000 < r.1 → r.2 = 0
  falling : s.readings.Pairwise fun earlier later => later.2 ≤ earlier.2

/-- What the meter takes for the time since the last pulse. -/
def Timed.seen (s : Timed) : Nat := (s.now - s.since) % 65536

/-- A reading out of date is seen to be so, or the power has gone to zero, or goes there for the
time that is seen. -/
def StaleSeen (s : Timed) : Prop :=
  s.pause ≤ 30000 ∨ 30000 < s.seen ∨ (doubled b s.meter < s.seen ∧ dividend b s.meter < s.seen)

/-- Two times the last period, at a power of 1, is cut off at 16 bits so that a reading comes to be
worked out anew too early. -/
def TooEarly (s : Timed) : Prop :=
  b.s0Enable = false ∧ s.meter.power = 1 ∧ 32768 ≤ s.meter.referenceValue.toNat ∧
    2 * s.meter.referenceValue.toNat < 65536 + s.seen ∧
    2 * s.seen ≤ s.meter.referenceValue.toNat ∧ s.seen ≤ 30000

/-- The readings for which the clock is wide enough. -/
def InTime (s : Timed) : Step → Prop
  | .read => s.meter.power = 0 ∨ (StaleSeen b s ∧ ¬ TooEarly b s)
  | _ => True

/-! ## One reading -/

/-- A power of zero is read as zero. -/
theorem getPower_zero {m : Meter} (h : m.power = 0) (now : UInt16) : (getPower b now m).1 = 0 := by
  rw [getPower_eq]
  split
  · rfl
  · rw [if_neg fun hlate => hlate.1 h, h]

/-- The quotient for the time that is seen is not above the power, but where the product is cut
off. -/
theorem div_seen_le {m : Meter} {seen : Nat} (hpos : 0 < m.power.toNat)
    (hlate : doubled b m < seen) (hseen : seen ≤ 30000)
    (hfit : ¬ (b.s0Enable = false ∧ m.power.toNat = 1 ∧ 32768 ≤ m.referenceValue.toNat ∧
      2 * m.referenceValue.toNat < 65536 + seen ∧ 2 * seen ≤ m.referenceValue.toNat)) :
    dividend b m / seen ≤ m.power.toNat := by
  by_cases hexact : 2 * (dividend b m / m.power.toNat) < seen
  · exact (div_lt_of_late hpos hexact).le
  · -- the product is cut off, which it is only at a power of 1
    have hs0 : b.s0Enable = false := by
      by_contra hs0
      unfold doubled at hlate
      rw [if_pos (Bool.eq_true_of_not_eq_false hs0)] at hlate
      exact hexact hlate
    have hdividend : dividend b m = m.referenceValue.toNat := by
      unfold dividend
      rw [hs0]
      rfl
    have hmax : m.referenceValue.toNat < 65536 := m.referenceValue.toNat_lt
    unfold doubled at hlate
    rw [hs0, hdividend] at hlate
    rw [hdividend] at hexact ⊢
    have hcut : 2 * (m.referenceValue.toNat / m.power.toNat) % 65536 < seen := hlate
    have hlarge : 32768 ≤ m.referenceValue.toNat / m.power.toNat := by omega
    have hmul := (Nat.le_div_iff_mul_le hpos).mp hlarge
    have hone : m.power.toNat = 1 := by omega
    rw [hone, Nat.div_one] at hcut hlarge
    rw [hone]
    have htwice : ¬ 2 * seen ≤ m.referenceValue.toNat := by
      intro hle
      exact hfit ⟨hs0, hone, hlarge, by omega, hle⟩
    have hlt : m.referenceValue.toNat / seen < 2 := by
      refine Nat.div_lt_of_lt_mul ?_
      omega
    omega

/-- A reading is not above the power before it. -/
theorem getPower_le {m : Meter} {now : UInt16}
    (hfit : ¬ (b.s0Enable = false ∧ m.power.toNat = 1 ∧ 32768 ≤ m.referenceValue.toNat ∧
      2 * m.referenceValue.toNat < 65536 + (difference now m.clockOld).toNat ∧
      2 * (difference now m.clockOld).toNat ≤ m.referenceValue.toNat ∧
      (difference now m.clockOld).toNat ≤ 30000)) :
    (getPower b now m).1 ≤ m.power := by
  rw [getPower_eq]
  split
  · exact UInt16.le_iff_toNat_le.mpr (Nat.zero_le _)
  · rename_i hdate
    split
    · rename_i hlate
      obtain ⟨hpower, hgt⟩ := hlate
      have hpos : 0 < m.power.toNat := by
        rw [Nat.pos_iff_ne_zero]
        exact fun hzero => hpower (UInt16.toNat_inj.mp hzero)
      have hne : difference now m.clockOld ≠ 0 := by
        intro hzero
        rw [hzero] at hgt
        exact Nat.not_lt_zero _ hgt
      obtain ⟨q, hq, hqeq⟩ := calcPower_eq b m hne
      have hle := div_seen_le b hpos hgt (Nat.le_of_not_lt hdate)
        fun ⟨h1, h2, h3, h4, h5⟩ => hfit ⟨h1, h2, h3, h4, h5, Nat.le_of_not_lt hdate⟩
      rw [powerOf, hq, UInt16.le_iff_toNat_le]
      show q.toNat ≤ _
      rw [hqeq]
      exact (Nat.mod_le _ _).trans hle
    · exact UInt16.le_refl _

/-! ## Runs -/

/-- The clock and the power: while there is one, the last pulse is the one it was measured at. -/
structure Invariant (s : Timed) : Prop where
  clock : s.meter.clockOld = UInt16.ofNat s.since
  since : s.since ≤ s.now
  measured : s.meter.power ≠ 0 → s.since = s.lastPulse ∧ s.meter.calibration = false
  above : ∀ r ∈ s.readings, s.meter.power ≤ r.2
  right : ReadsRight s

variable {b} {s : Timed}

/-- What is seen is the true time, up to whole rounds of the clock. -/
theorem Invariant.seen (h : Invariant s) :
    (difference s.clock s.meter.clockOld).toNat = s.seen := by
  rw [h.clock]
  exact difference_ofNat h.since

/-- An operation that leaves the clock, and the power or sets it to zero. -/
theorem Invariant.operation (h : Invariant s) {m : Meter} (hclock : m.clockOld = s.meter.clockOld)
    (hpower : m.power = 0 ∨ (m.power = s.meter.power ∧
      (s.meter.calibration = false → m.calibration = false))) :
    Invariant { s with meter := m } := by
  refine ⟨hclock.trans h.clock, h.since, fun hne => ?_, fun r hr => ?_,
    h.right.stale, h.right.falling⟩
  · rcases hpower with hzero | ⟨hsame, hcal⟩
    · exact absurd hzero hne
    · obtain ⟨hsince, hmeasures⟩ := h.measured (hsame ▸ hne)
      exact ⟨hsince, hcal hmeasures⟩
  · have hle : s.meter.power ≤ r.2 := h.above r hr
    rcases hpower with hzero | ⟨hsame, -⟩
    · show m.power ≤ r.2
      rw [hzero]
      exact UInt16.le_iff_toNat_le.mpr (Nat.zero_le _)
    · show m.power ≤ r.2
      rw [hsame]
      exact hle

theorem relayOn_same (m : Meter) : (relayOn m).clockOld = m.clockOld ∧
    ((relayOn m).power = 0 ∨
      ((relayOn m).power = m.power ∧ (m.calibration = false → (relayOn m).calibration = false))) := by
  unfold relayOn
  split
  · exact ⟨rfl, .inr ⟨rfl, id⟩⟩
  · exact ⟨rfl, .inl rfl⟩

theorem calibrate_same (m : Meter) : (calibrate m).2.clockOld = m.clockOld ∧
    ((calibrate m).2.power = 0 ∨ ((calibrate m).2.power = m.power ∧
      (m.calibration = false → (calibrate m).2.calibration = false))) := by
  unfold calibrate
  dsimp only
  split
  · exact ⟨rfl, .inl rfl⟩
  · exact ⟨rfl, .inr ⟨rfl, id⟩⟩

/-- A pulse of a calibration measures nothing. -/
theorem calibratePulse_same (now : UInt16) (m : Meter) :
    (calibratePulse now m).clockOld = m.clockOld ∧
      ((calibratePulse now m).power = 0 ∨ (calibratePulse now m).power = m.power) := by
  unfold calibratePulse
  split
  · dsimp only
    split
    · exact ⟨rfl, .inr rfl⟩
    · exact ⟨rfl, .inr rfl⟩
  · dsimp only
    obtain ⟨hclock, hpower⟩ := relayOn_same
      { m with
        pulsePeriod := difference now m.pulsePeriod / 10
        referenceValue := difference now m.pulsePeriod / 10 * m.calibrationPower
        meteringRef := difference now m.pulsePeriod / 10 * m.calibrationPower
        meteringCalFlag := 0
        calibrationState := 0
        calibration := false }
    exact ⟨hclock, hpower.imp id And.left⟩

/-- A pulse begins a new list of readings. -/
theorem Invariant.pulse (h : Invariant s) : Invariant (step b .pulse s) := by
  have hnone : ReadsRight (step b .pulse s) :=
    ⟨fun r hr => absurd hr List.not_mem_nil, List.Pairwise.nil⟩
  have habove : ∀ r ∈ (step b .pulse s).readings, (step b .pulse s).meter.power ≤ r.2 :=
    fun r hr => absurd hr List.not_mem_nil
  cases hcal : s.meter.calibration with
  | false =>
    obtain ⟨-, hclock, -, -, hmeasures⟩ := isr_measure b hcal s.clock
    refine ⟨?_, ?_, fun _ => ⟨?_, hmeasures⟩, habove, hnone⟩
    · show _ = UInt16.ofNat (if s.meter.calibration then s.since else s.now)
      rw [hcal]
      exact hclock
    · show (if s.meter.calibration then s.since else s.now) ≤ s.now
      rw [hcal]
      exact Nat.le_refl _
    · show (if s.meter.calibration then s.since else s.now) = s.now
      rw [hcal]
      rfl
  | true =>
    have hzero : s.meter.power = 0 := by
      by_contra hne
      cases hcal.symm.trans (h.measured hne).2
    obtain ⟨hclock, hpower⟩ := calibratePulse_same s.clock s.meter
    have hisr : (step b .pulse s).meter = calibratePulse s.clock s.meter := if_pos hcal
    have hsince : (step b .pulse s).since = s.since := if_pos hcal
    refine ⟨?_, ?_, fun hne => absurd ?_ hne, habove, hnone⟩
    · rw [hisr, hsince, hclock]
      exact h.clock
    · rw [hsince]
      exact h.since
    · rw [hisr]
      exact hpower.elim id fun hsame => hsame.trans hzero

/-- A reading out of date is zero. -/
theorem Invariant.stale (h : Invariant s) (hseen : s.meter.power = 0 ∨ StaleSeen b s)
    (hpause : 30000 < s.pause) : (getPower b s.clock s.meter).1 = 0 := by
  rcases hseen with hzero | hshort | hdate | ⟨hlate, hsmall⟩
  · exact getPower_zero b hzero _
  · exact absurd hpause (Nat.not_lt_of_le hshort)
  · rw [getPower_eq, h.seen, if_pos hdate]
  · rw [getPower_eq, h.seen]
    split
    · rfl
    · have hne : difference s.clock s.meter.clockOld ≠ 0 := by
        intro hnone
        have hseen := h.seen
        rw [hnone] at hseen
        have hzero : 0 = s.seen := hseen
        omega
      obtain ⟨q, hq, hqeq⟩ := calcPower_eq b s.meter hne
      rw [h.seen, Nat.div_eq_of_lt hsmall] at hqeq
      have hq0 : q = 0 := UInt16.toNat_inj.mp hqeq
      by_cases hpower : s.meter.power ≠ 0
      · rw [if_pos ⟨hpower, hlate⟩, powerOf, hq]
        exact hq0
      · rw [if_neg fun hboth => hpower hboth.1]
        exact not_not.mp hpower

theorem Invariant.read (h : Invariant s) (hok : InTime b s .read) : Invariant (step b .read s) := by
  have hle : (getPower b s.clock s.meter).1 ≤ s.meter.power := by
    rcases hok with hzero | ⟨-, hfit⟩
    · rw [getPower_zero b hzero]
      exact UInt16.le_iff_toNat_le.mpr (Nat.zero_le _)
    · refine getPower_le b fun ⟨hs0, hone, hlarge, hcut, htwice, hdate⟩ => hfit ?_
      rw [h.seen] at hcut htwice hdate
      exact ⟨hs0, UInt16.toNat_inj.mp hone, hlarge, hcut, htwice, hdate⟩
  have hmeter : (step b .read s).meter =
      { s.meter with power := (getPower b s.clock s.meter).1 } := getPower_same b _ _
  refine ⟨?_, h.since, fun hne => ?_, fun r hr => ?_, ?_, ?_⟩
  · rw [hmeter]
    exact h.clock
  · rw [hmeter] at hne ⊢
    refine h.measured fun hzero => hne ?_
    show (getPower b s.clock s.meter).1 = 0
    exact getPower_zero b hzero _
  · rw [hmeter]
    show (getPower b s.clock s.meter).1 ≤ r.2
    rcases List.mem_append.mp hr with hold | hnew
    · exact UInt16.le_trans hle (h.above r hold)
    · rw [List.mem_singleton.mp hnew]
      exact UInt16.le_refl _
  · intro r hr hpause
    rcases List.mem_append.mp hr with hold | hnew
    · exact h.right.stale r hold hpause
    · rw [List.mem_singleton.mp hnew] at hpause ⊢
      exact h.stale (hok.imp id And.left) hpause
  · show (s.readings ++ [_]).Pairwise _
    rw [List.pairwise_append]
    refine ⟨h.right.falling, List.pairwise_singleton _ _, fun r hr r' hr' => ?_⟩
    rw [List.mem_singleton.mp hr']
    exact UInt16.le_trans hle (h.above r hr)

/-- **One step** keeps the invariant. -/
theorem Invariant.step (h : Invariant s) (a : Step) (hok : InTime b s a) :
    Invariant (step b a s) := by
  cases a with
  | wait ticks =>
    exact ⟨h.clock, Nat.le_add_right_of_le h.since, h.measured, h.above, h.right.stale,
      h.right.falling⟩
  | pulse => exact h.pulse
  | read => exact h.read hok
  | calibrate => exact h.operation (calibrate_same s.meter).1 (calibrate_same s.meter).2
  | calibrationStop => exact h.operation rfl (.inr ⟨rfl, fun _ => rfl⟩)
  | relayOn => exact h.operation (relayOn_same s.meter).1 (relayOn_same s.meter).2
  | relayOff => exact h.operation rfl (.inl rfl)
  | init =>
    refine ⟨rfl, Nat.le_refl _, fun hne => absurd rfl hne, fun r _ => ?_, h.right.stale,
      h.right.falling⟩
    exact UInt16.le_iff_toNat_le.mpr (Nat.zero_le _)

theorem invariant_boot (m : Meter) : Invariant (boot m) :=
  ⟨rfl, Nat.le_refl _, fun hne => absurd rfl hne, fun _ hr => absurd hr List.not_mem_nil,
    fun _ hr => absurd hr List.not_mem_nil, List.Pairwise.nil⟩

variable (b) in
/-- **Stale power**: in every run of pulses, readings and the other operations whose readings are in
time, those out of date are zero and none is above an earlier one of the same pause. -/
theorem stale_power (m : Meter) (steps : List Step)
    (h : Meets (Metering.step b) (InTime b) (boot m) steps) :
    ReadsRight (run (Metering.step b) (boot m) steps) :=
  (@run_invariant _ _ (Metering.step b) (InTime b) Invariant
    (fun _ a hinv hok => hinv.step a hok) (boot m) steps (invariant_boot m) h).right

/-- A pulse, a reading after 100 ticks, and one that is out of date. -/
def timelySteps : List Step := [.wait 250, .pulse, .wait 100, .read, .wait 40000, .read]

theorem timely_right : ReadsRight (run (step ⟨false, fun _ => 0xffff⟩) (boot (sampleMeter false))
    timelySteps) := by
  refine stale_power ⟨false, fun _ => 0xffff⟩ (sampleMeter false) timelySteps
    ⟨trivial, trivial, trivial, .inr ⟨.inl (by decide), ?_⟩, trivial,
      .inr ⟨.inr (.inl (by decide)), ?_⟩, trivial⟩
  · exact fun hearly => absurd hearly.2.1 (by decide)
  · exact fun hearly => absurd hearly.2.1 (by decide)

/-- A reading 250 ticks after the clock has gone round once. -/
theorem wrapped_not_right : ¬ ReadsRight (run (step ⟨false, fun _ => 0xffff⟩)
    (boot (sampleMeter false)) [.wait 250, .pulse, .wait (65536 + 250), .read]) := by
  intro h
  have hzero := h.stale (65786, 124) (by decide) (by decide)
  cases hzero

end Hexabus.Firmware.Metering
