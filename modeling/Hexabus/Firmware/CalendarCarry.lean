import Hexabus.Firmware.DatetimeService
import Hexabus.Lib.Calendar

/-!
# The carries of the clock

The service counts a date-time second by second. Time and weekday are always those of the
calendar; the date is not once a month has ended, as the months and days that follow are counted
from 0, and the leap day is left out.
-/

namespace Hexabus.Firmware.Timing

open Lib.Calendar Lib.Runs

/-! ## What a date-time shows -/

def ShowsTime (dt : HxbDatetime) (time : Nat) : Prop :=
  dt.hour.toNat = time / 3600 ∧ dt.minute.toNat = time / 60 % 60 ∧ dt.second.toNat = time % 60

def ShowsDate (dt : HxbDatetime) (d : Date) : Prop :=
  dt.year.toNat = d.year ∧ dt.month.toNat = d.month ∧ dt.day.toNat = d.day

/-- The date-time is that of the calendar. -/
def Shows (dt : HxbDatetime) (m : Moment) : Prop :=
  ShowsDate dt m.date ∧ dt.weekday.toNat = m.weekday ∧ ShowsTime dt m.time

instance (dt : HxbDatetime) (time : Nat) : Decidable (ShowsTime dt time) :=
  inferInstanceAs (Decidable (_ ∧ _ ∧ _))

instance (dt : HxbDatetime) (d : Date) : Decidable (ShowsDate dt d) :=
  inferInstanceAs (Decidable (_ ∧ _ ∧ _))

instance (dt : HxbDatetime) (m : Moment) : Decidable (Shows dt m) :=
  inferInstanceAs (Decidable (_ ∧ _ ∧ _))

/-- Both have one date and weekday. -/
def SameDay (dt dt' : HxbDatetime) : Prop :=
  dt.year = dt'.year ∧ dt.month = dt'.month ∧ dt.day = dt'.day ∧ dt.weekday = dt'.weekday

theorem SameDay.refl (dt : HxbDatetime) : SameDay dt dt := ⟨rfl, rfl, rfl, rfl⟩

theorem SameDay.trans {a b c : HxbDatetime} (h : SameDay a b) (h' : SameDay b c) : SameDay a c :=
  ⟨h.1.trans h'.1, h.2.1.trans h'.2.1, h.2.2.1.trans h'.2.2.1, h.2.2.2.trans h'.2.2.2⟩

theorem SameDay.showsDate {dt dt' : HxbDatetime} (h : SameDay dt dt') (d : Date) :
    ShowsDate dt d ↔ ShowsDate dt' d := by
  unfold ShowsDate
  rw [h.1, h.2.1, h.2.2.1]

/-! ## Time and weekday -/

/-- The time of day takes no part in the day's carry. -/
theorem SameDay.advanceDay {dt dt' : HxbDatetime} (h : SameDay dt dt') :
    SameDay (advanceDay dt) (advanceDay dt') := by
  obtain ⟨hyear, hmonth, hday, hweekday⟩ := h
  unfold Timing.advanceDay
  simp only [hyear, hmonth, hday, hweekday]
  split
  · split
    · exact ⟨rfl, rfl, rfl, rfl⟩
    · exact ⟨rfl, rfl, rfl, rfl⟩
  · exact ⟨rfl, rfl, rfl, rfl⟩

theorem advanceDay_time (dt : HxbDatetime) : (advanceDay dt).hour = dt.hour ∧
    (advanceDay dt).minute = dt.minute ∧ (advanceDay dt).second = dt.second := by
  unfold advanceDay
  dsimp only
  split
  · split
    · exact ⟨rfl, rfl, rfl⟩
    · exact ⟨rfl, rfl, rfl⟩
  · exact ⟨rfl, rfl, rfl⟩

/-- A counter that is below its limit, and the one that passes it. -/
theorem succ_gt {n limit : UInt8} (h : n.toNat ≤ limit.toNat) (hlimit : limit.toNat < 255) :
    (n + 1).toNat = n.toNat + 1 ∧ (n + 1 > limit ↔ n.toNat = limit.toNat) := by
  have hsucc : (n + 1).toNat = n.toNat + 1 := by
    rw [UInt8.toNat_add]
    show (n.toNat + 1) % 256 = _
    omega
  refine ⟨hsucc, ?_⟩
  rw [gt_iff_lt, UInt8.lt_iff_toNat_lt, hsucc]
  omega

theorem advanceDay_weekday {dt : HxbDatetime} (h : dt.weekday.toNat < 7) :
    (advanceDay dt).weekday.toNat = (dt.weekday.toNat + 1) % 7 := by
  have hweekday : (advanceDay dt).weekday = if dt.weekday + 1 > 6 then 0 else dt.weekday + 1 := by
    unfold advanceDay
    dsimp only
    split
    · split
      · rfl
      · rfl
    · rfl
  have h6 : (6 : UInt8).toNat = 6 := rfl
  obtain ⟨hsucc, hgt⟩ := @succ_gt dt.weekday 6 (by show dt.weekday.toNat ≤ 6; omega) (by decide)
  rw [h6] at hgt
  rw [hweekday]
  by_cases hlast : dt.weekday + 1 > 6
  · rw [if_pos hlast, hgt.mp hlast]
    rfl
  · have hne := mt hgt.mpr hlast
    rw [if_neg hlast, hsucc]
    omega

/-- **One second**: the time goes on, and after the last one of the day the day does. -/
theorem advanceSecond_spec {dt : HxbDatetime} {time : Nat} (h : ShowsTime dt time)
    (htime : time < 86400) :
    (time + 1 < 86400 → ShowsTime (advanceSecond dt) (time + 1) ∧ SameDay (advanceSecond dt) dt) ∧
      (time + 1 = 86400 → ShowsTime (advanceSecond dt) 0 ∧
        SameDay (advanceSecond dt) (advanceDay dt)) := by
  obtain ⟨hhour, hminute, hsecond⟩ := h
  have hzero : (0 : UInt8).toNat = 0 := rfl
  obtain ⟨hs, hsgt⟩ := @succ_gt dt.second 59 (by show dt.second.toNat ≤ 59; omega) (by decide)
  obtain ⟨hm, hmgt⟩ := @succ_gt dt.minute 59 (by show dt.minute.toNat ≤ 59; omega) (by decide)
  obtain ⟨hh, hhgt⟩ := @succ_gt dt.hour 23 (by show dt.hour.toNat ≤ 23; omega) (by decide)
  have h59 : (59 : UInt8).toNat = 59 := rfl
  have h23 : (23 : UInt8).toNat = 23 := rfl
  rw [h59] at hsgt hmgt
  rw [h23] at hhgt
  unfold advanceSecond
  dsimp only
  by_cases h1 : dt.second + 1 > 59
  · have h1' := hsgt.mp h1
    rw [if_pos h1]
    unfold advanceMinute
    dsimp only
    by_cases h2 : dt.minute + 1 > 59
    · have h2' := hmgt.mp h2
      rw [if_pos h2]
      unfold advanceHour
      dsimp only
      by_cases h3 : dt.hour + 1 > 23
      · have h3' := hhgt.mp h3
        rw [if_pos h3]
        refine ⟨fun hlt => absurd hlt (by omega), fun _ => ?_⟩
        obtain ⟨hhour', hminute', hsecond'⟩ :=
          advanceDay_time { dt with second := 0, minute := 0, hour := 0 }
        refine ⟨⟨?_, ?_, ?_⟩, SameDay.advanceDay ⟨rfl, rfl, rfl, rfl⟩⟩
        · rw [hhour']
          rfl
        · rw [hminute']
          rfl
        · rw [hsecond']
          rfl
      · have h3' := mt hhgt.mpr h3
        rw [if_neg h3]
        refine ⟨fun _ => ⟨⟨?_, ?_, ?_⟩, rfl, rfl, rfl, rfl⟩, fun heq => absurd heq (by omega)⟩
        · exact hh.trans (by omega)
        · exact hzero.trans (by omega)
        · exact hzero.trans (by omega)
    · have h2' := mt hmgt.mpr h2
      rw [if_neg h2]
      refine ⟨fun _ => ⟨⟨?_, ?_, ?_⟩, rfl, rfl, rfl, rfl⟩, fun heq => absurd heq (by omega)⟩
      · exact hhour.trans (by omega)
      · exact hm.trans (by omega)
      · exact hzero.trans (by omega)
  · have h1' := mt hsgt.mpr h1
    rw [if_neg h1]
    refine ⟨fun _ => ⟨⟨?_, ?_, ?_⟩, rfl, rfl, rfl, rfl⟩, fun heq => absurd heq (by omega)⟩
    · exact hhour.trans (by omega)
    · exact hminute.trans (by omega)
    · exact hs.trans (by omega)

/-- **Any number of seconds**: time and weekday are those of the calendar, and the date is as the
day's carry leaves it at every midnight. -/
theorem advanceSecond_iterate {dt : HxbDatetime} {m : Moment} (hm : m.Valid) (h : Shows dt m)
    (n : Nat) : ShowsTime (advanceSecond^[n] dt) (m.after n).time ∧
      (advanceSecond^[n] dt).weekday.toNat = (m.after n).weekday ∧
      SameDay (advanceSecond^[n] dt) (advanceDay^[m.midnights n] dt) := by
  induction n with
  | zero =>
    have hnone : m.midnights 0 = 0 := Nat.div_eq_of_lt hm.2.2
    rw [Moment.after_zero hm, hnone]
    exact ⟨h.2.2, h.2.1, SameDay.refl dt⟩
  | succ n ih =>
    obtain ⟨htime, hweekday, hday⟩ := ih
    have hlt : (m.after n).time < 86400 := Nat.mod_lt _ (by omega)
    obtain ⟨hwithin, hmidnight⟩ := advanceSecond_spec htime hlt
    rw [Function.iterate_succ_apply']
    rcases Nat.lt_or_eq_of_le (Nat.succ_le_of_lt hlt) with hlt | heq
    · obtain ⟨htime', hsame⟩ := hwithin hlt
      have hnights : m.midnights (n + 1) = m.midnights n := by
        have : (m.time + n) % 86400 + 1 < 86400 := hlt
        unfold Moment.midnights
        omega
      rw [Moment.after_succ_within m n hlt, hnights]
      exact ⟨htime', (congrArg UInt8.toNat hsame.2.2.2).trans hweekday, hsame.trans hday⟩
    · obtain ⟨htime', hsame⟩ := hmidnight heq
      have hnights : m.midnights (n + 1) = m.midnights n + 1 := by
        have : (m.time + n) % 86400 + 1 = 86400 := heq
        unfold Moment.midnights
        omega
      rw [Moment.after_succ_midnight m n heq, hnights, Function.iterate_succ_apply']
      refine ⟨htime', ?_, hsame.trans hday.advanceDay⟩
      have hlt7 : (advanceSecond^[n] dt).weekday.toNat < 7 := by
        rw [hweekday]
        exact Nat.mod_lt _ (by omega)
      rw [hsame.2.2.2, advanceDay_weekday hlt7, hweekday]

/-! ## Days -/

/-- The last day of a month that the service knows. -/
def codeLength (month : Nat) : Nat :=
  if month = 2 then 28 else if month = 4 ∨ month = 6 ∨ month = 9 ∨ month = 11 then 30 else 31

theorem codeLength_bounds (month : Nat) : 28 ≤ codeLength month ∧ codeLength month ≤ 31 := by
  unfold codeLength
  split
  · omega
  · split <;> omega

/-- It is the calendar's, but for the leap day. -/
theorem daysInMonth_eq (year month : Nat) : daysInMonth year month =
    codeLength month + if month = 2 ∧ isLeapYear year = true then 1 else 0 := by
  unfold daysInMonth codeLength
  by_cases hmonth : month = 2
  · rw [if_pos hmonth, if_pos hmonth]
    by_cases hleap : isLeapYear year = true
    · rw [if_pos hleap, if_pos ⟨hmonth, hleap⟩]
    · rw [if_neg hleap, if_neg fun h => hleap h.2]
  · rw [if_neg hmonth, if_neg hmonth, if_neg fun h : _ ∧ _ => hmonth h.1, Nat.add_zero]

theorem monthEnds_iff {month : Nat} (day : UInt8) (h1 : 1 ≤ month) (h12 : month ≤ 12) :
    monthEnds (UInt8.ofNat month) day = true ↔ codeLength month < day.toNat := by
  have h28 : day > 28 ↔ 28 < day.toNat := UInt8.lt_iff_toNat_lt
  have h30 : day > 30 ↔ 30 < day.toNat := UInt8.lt_iff_toNat_lt
  have h31 : day > 31 ↔ 31 < day.toNat := UInt8.lt_iff_toNat_lt
  interval_cases month <;> simp [monthEnds, codeLength, h28, h30, h31]

/-- What the carry of a day does to the date. -/
theorem advanceDay_cases {dt : HxbDatetime} (h1 : 1 ≤ dt.month.toNat) (h12 : dt.month.toNat ≤ 12)
    (hday : dt.day.toNat ≤ 31) :
    (dt.day.toNat + 1 ≤ codeLength dt.month.toNat →
      (advanceDay dt).year.toNat = dt.year.toNat ∧
        (advanceDay dt).month.toNat = dt.month.toNat ∧
        (advanceDay dt).day.toNat = dt.day.toNat + 1) ∧
    (codeLength dt.month.toNat < dt.day.toNat + 1 → dt.month.toNat < 12 →
      (advanceDay dt).year.toNat = dt.year.toNat ∧
        (advanceDay dt).month.toNat = dt.month.toNat + 1 ∧ (advanceDay dt).day.toNat = 0) ∧
    (codeLength dt.month.toNat < dt.day.toNat + 1 → dt.month.toNat = 12 →
      (advanceDay dt).month = 0) := by
  have hnext : (dt.day + 1).toNat = dt.day.toNat + 1 := by
    rw [UInt8.toNat_add]
    show (dt.day.toNat + 1) % 256 = _
    omega
  have hmonth : (dt.month + 1).toNat = dt.month.toNat + 1 := by
    rw [UInt8.toNat_add]
    show (dt.month.toNat + 1) % 256 = _
    omega
  have hends : monthEnds dt.month (dt.day + 1) = true ↔
      codeLength dt.month.toNat < dt.day.toNat + 1 := by
    have hiff := monthEnds_iff (dt.day + 1) h1 h12
    rwa [UInt8.ofNat_toNat, hnext] at hiff
  have h12' : dt.month + 1 > 12 ↔ 12 < dt.month.toNat + 1 := by
    rw [gt_iff_lt, UInt8.lt_iff_toNat_lt, hmonth]
    rfl
  unfold advanceDay
  dsimp only
  refine ⟨fun hle => ?_, fun hlt hlt12 => ?_, fun hlt heq => ?_⟩
  · rw [if_neg fun h => absurd (hends.mp h) (by omega)]
    exact ⟨rfl, rfl, hnext⟩
  · rw [if_pos (hends.mpr hlt), if_neg fun h => absurd (h12'.mp h) (by omega)]
    exact ⟨rfl, hmonth, rfl⟩
  · rw [if_pos (hends.mpr hlt), if_pos (h12'.mpr (by omega))]

/-- Month 0 has no end. -/
theorem advanceDay_stuck {dt : HxbDatetime} (h : dt.month = 0) : (advanceDay dt).month = 0 := by
  have hends : monthEnds dt.month (dt.day + 1) = false := by
    rw [h]
    simp [monthEnds]
  unfold advanceDay
  dsimp only
  rw [hends]
  exact h

/-! ## Behind the calendar -/

/-- The date is behind the calendar's: in the month 0 there is no way out of, or earlier in the
year, or in a year that is over. -/
def Behind (dt : HxbDatetime) (d : Date) : Prop :=
  dt.month = 0 ∨ ((1 ≤ dt.month.toNat ∧ dt.month.toNat ≤ 12) ∧
    dt.day.toNat ≤ codeLength dt.month.toNat ∧ (dt.year.toNat < d.year ∨ (dt.year.toNat = d.year ∧
      (dt.month.toNat < d.month ∨ (dt.month.toNat = d.month ∧ dt.day.toNat < d.day)))))

theorem Behind.not_shows {dt : HxbDatetime} {d : Date} (h : Behind dt d) (hd : d.Valid) :
    ¬ ShowsDate dt d := by
  rintro ⟨hyear, hmonth, hday⟩
  have hpos : 1 ≤ d.month := hd.1
  rcases h with hzero | ⟨-, -, hbehind⟩
  · rw [hzero] at hmonth
    have : 0 = d.month := hmonth
    omega
  · omega

/-- A date that is behind stays behind. -/
theorem Behind.next {dt : HxbDatetime} {d : Date} (h : Behind dt d) (hd : d.Valid) :
    Behind (advanceDay dt) d.next := by
  obtain ⟨hm1, hm12, hd1, hdlen⟩ := hd
  rcases h with hzero | ⟨⟨h1, h12⟩, hday, hbehind⟩
  · exact .inl (advanceDay_stuck hzero)
  · have hbounds := codeLength_bounds dt.month.toNat
    obtain ⟨hwithin, hover, hdecember⟩ := advanceDay_cases h1 h12 (by omega)
    by_cases hlast : dt.day.toNat + 1 ≤ codeLength dt.month.toNat
    · obtain ⟨hy, hm, hdd⟩ := hwithin hlast
      right
      rw [hy, hm, hdd]
      refine ⟨⟨h1, h12⟩, hlast, ?_⟩
      unfold Date.next
      split
      · show _ < d.year ∨ _ = d.year ∧ (_ < d.month ∨ _ = d.month ∧ _ < d.day + 1)
        omega
      · split
        · show _ < d.year ∨ _ = d.year ∧ (_ < d.month + 1 ∨ _ = d.month + 1 ∧ _ < 1)
          omega
        · show _ < d.year + 1 ∨ _ = d.year + 1 ∧ _
          omega
    · rcases Nat.lt_or_eq_of_le h12 with hlt | heq
      · obtain ⟨hy, hm, hdd⟩ := hover (by omega) hlt
        right
        rw [hy, hm, hdd]
        refine ⟨⟨by omega, hlt⟩, Nat.zero_le _, ?_⟩
        unfold Date.next
        split
        · rename_i hinside
          -- only the leap day could be left of the month
          show _ < d.year ∨ _ = d.year ∧ (_ < d.month ∨ _ = d.month ∧ 0 < d.day + 1)
          rcases hbehind with hyear | ⟨hyear, hmonth | ⟨hmonth, hlt'⟩⟩
          · omega
          · omega
          · rw [hmonth] at hlast
            rw [daysInMonth_eq] at hinside
            exfalso
            split at hinside <;> omega
        · split
          · show _ < d.year ∨ _ = d.year ∧ (_ < d.month + 1 ∨ _ = d.month + 1 ∧ 0 < 1)
            omega
          · show _ < d.year + 1 ∨ _ = d.year + 1 ∧ _
            omega
      · exact .inl (hdecember (by omega) heq)

theorem Behind.iterate {dt : HxbDatetime} {d : Date} (h : Behind dt d) (hd : d.Valid) (n : Nat) :
    Behind (advanceDay^[n] dt) (Date.next^[n] d) := by
  induction n with
  | zero => exact h
  | succ n ih =>
    rw [Function.iterate_succ_apply', Function.iterate_succ_apply']
    exact ih.next (Date.iterate_valid hd n)

/-! ## The dates that are right -/

variable {dt : HxbDatetime} {d : Date}

/-- Days within a month. -/
theorem within_month (h : ShowsDate dt d) (hd : d.Valid) {n : Nat}
    (hn : d.day + n ≤ codeLength d.month) :
    ShowsDate (advanceDay^[n] dt) { d with day := d.day + n } := by
  obtain ⟨hyear, hmonth, hday⟩ := h
  obtain ⟨hm1, hm12, -, -⟩ := hd
  induction n with
  | zero => exact ⟨hyear, hmonth, hday⟩
  | succ n ih =>
    obtain ⟨hy, hm, hdd⟩ := ih (by omega)
    have hbounds := codeLength_bounds d.month
    have hm' : (advanceDay^[n] dt).month.toNat = d.month := hm
    have hdd' : (advanceDay^[n] dt).day.toNat = d.day + n := hdd
    obtain ⟨hwithin, -, -⟩ := @advanceDay_cases (advanceDay^[n] dt) (by omega) (by omega)
      (by omega)
    obtain ⟨hy1, hm1, hd1⟩ := hwithin (by rw [hm', hdd']; omega)
    rw [Function.iterate_succ_apply']
    exact ⟨hy1.trans hy, hm1.trans hm, hd1.trans (congrArg Nat.succ hdd)⟩

/-- The month ends, and the date falls behind. -/
theorem behind_of_end (h : ShowsDate dt d) (hd : d.Valid) (hlast : codeLength d.month ≤ d.day)
    (hend : d.day = daysInMonth d.year d.month) : Behind (advanceDay dt) d.next := by
  obtain ⟨hyear, hmonth, hday⟩ := h
  obtain ⟨hm1, hm12, hd1, hdlen⟩ := hd
  have hbounds := daysInMonth_bounds d.year d.month
  obtain ⟨-, hover, hdecember⟩ := @advanceDay_cases dt (by omega) (by omega) (by omega)
  unfold Date.next
  rw [if_neg (by omega)]
  rcases Nat.lt_or_eq_of_le hm12 with hlt | heq
  · obtain ⟨hy, hm, hdd⟩ := hover (by rw [hmonth, hday]; omega) (by omega)
    right
    rw [hy, hm, hdd, if_pos hlt]
    refine ⟨⟨by omega, by omega⟩, Nat.zero_le _, .inr ⟨hyear, .inr ⟨?_, Nat.one_pos⟩⟩⟩
    rw [hmonth]
  · exact .inl (hdecember (by rw [hmonth, hday]; omega) (by omega))

/-- Behind from the end of the month on, where no leap day comes. -/
theorem behind_after (h : ShowsDate dt d) (hd : d.Valid)
    (hleap : ¬ (d.month = 2 ∧ isLeapYear d.year = true ∧ d.day ≤ 28)) {n : Nat} (hn : n ≠ 0)
    (hlong : codeLength d.month < d.day + n) :
    Behind (advanceDay^[n] dt) (Date.next^[n] d) := by
  have hlength := daysInMonth_eq d.year d.month
  have hle : d.day ≤ daysInMonth d.year d.month := hd.2.2.2
  by_cases hpast : codeLength d.month < d.day
  · -- the leap day itself
    have hend : d.day = daysInMonth d.year d.month := by
      split at hlength <;> omega
    obtain ⟨k, rfl⟩ := Nat.exists_eq_succ_of_ne_zero hn
    rw [Function.iterate_succ_apply, Function.iterate_succ_apply]
    exact (behind_of_end h hd hpast.le hend).iterate (Date.next_valid hd) k
  · obtain ⟨k, hk⟩ : ∃ k, d.day + k = codeLength d.month := ⟨codeLength d.month - d.day, by omega⟩
    obtain ⟨j, rfl⟩ : ∃ j, n = j + 1 + k := ⟨n - k - 1, by omega⟩
    have hnoLeap : ¬ (d.month = 2 ∧ isLeapYear d.year = true) := by
      rintro ⟨hmonth, hyear⟩
      refine hleap ⟨hmonth, hyear, ?_⟩
      rw [hmonth] at hpast
      exact Nat.le_of_not_lt hpast
    rw [if_neg hnoLeap, Nat.add_zero] at hlength
    have hlast := within_month h hd (Nat.le_of_eq hk)
    have hdate : Date.next^[k] d = { d with day := d.day + k } :=
      Date.iterate_within (by omega)
    have hvalid : ({ d with day := d.day + k } : Date).Valid := hdate ▸ Date.iterate_valid hd k
    rw [Function.iterate_add_apply advanceDay (j + 1), Function.iterate_add_apply Date.next (j + 1),
      hdate, Function.iterate_succ_apply, Function.iterate_succ_apply]
    refine (behind_of_end hlast hvalid ?_ ?_).iterate (Date.next_valid hvalid) j
    · show codeLength d.month ≤ d.day + k
      omega
    · show d.day + k = daysInMonth d.year d.month
      omega

/-! ## The leap day -/

/-- From February to March of a leap year the two days that the service and the calendar have
alone, the 0th of March and the 29th of February, are one. -/
theorem march_first (h : ShowsDate dt d) (hd : d.Valid) (hmonth : d.month = 2)
    (hleap : isLeapYear d.year = true) {k : Nat} (hk : d.day + k = 28) :
    ¬ ShowsDate (advanceDay^[k + 1] dt) (Date.next^[k + 1] d) ∧
      ShowsDate (advanceDay^[k + 2] dt) ⟨d.year, 3, 1⟩ ∧ Date.next^[k + 2] d = ⟨d.year, 3, 1⟩ := by
  have hcode : codeLength d.month = 28 := by
    rw [hmonth]
    rfl
  have hlength : daysInMonth d.year d.month = 29 := by
    rw [daysInMonth_eq, hcode, if_pos ⟨hmonth, hleap⟩]
  obtain ⟨hyear', hmonth', hday'⟩ := within_month h hd (show d.day + k ≤ codeLength d.month by omega)
  have hyear2 : (advanceDay^[k] dt).year.toNat = d.year := hyear'
  have hmonth2 : (advanceDay^[k] dt).month.toNat = 2 := hmonth'.trans hmonth
  have hday2 : (advanceDay^[k] dt).day.toNat = 28 := hday'.trans hk
  obtain ⟨-, hover, -⟩ := @advanceDay_cases (advanceDay^[k] dt) (by omega) (by omega) (by omega)
  have hlen2 : codeLength (advanceDay^[k] dt).month.toNat = 28 := by
    rw [hmonth2]
    rfl
  obtain ⟨hy3, hm3, hd3⟩ := hover (by omega) (by omega)
  obtain ⟨hwithin, -, -⟩ := @advanceDay_cases (advanceDay (advanceDay^[k] dt)) (by omega) (by omega)
    (by omega)
  have hlen3 : codeLength (advanceDay (advanceDay^[k] dt)).month.toNat = 31 := by
    rw [hm3, hmonth2]
    rfl
  obtain ⟨hy4, hm4, hd4⟩ := hwithin (by omega)
  have hfeb : Date.next^[k + 1] d = ⟨d.year, 2, 29⟩ := by
    rw [Date.iterate_within (by omega), hmonth, ← Nat.add_assoc, hk]
  refine ⟨?_, ?_, ?_⟩
  · rw [hfeb, Function.iterate_succ_apply']
    rintro ⟨-, hmarch, -⟩
    have : (advanceDay (advanceDay^[k] dt)).month.toNat = 2 := hmarch
    omega
  · rw [Function.iterate_succ_apply', Function.iterate_succ_apply']
    refine ⟨?_, ?_, ?_⟩
    · exact hy4.trans (hy3.trans hyear2)
    · exact hm4.trans (hm3.trans (congrArg (· + 1) hmonth2))
    · exact hd4.trans (congrArg (· + 1) hd3)
  · have hfull : ¬ 29 < daysInMonth d.year 2 := by
      rw [← hmonth]
      omega
    rw [Function.iterate_succ_apply', hfeb, Date.next, if_neg hfull, if_pos (by show 2 < 12; decide)]

/-! ## When the date is right -/

/-- No midnight has passed, or the month has not ended for the service, or it is March after a leap
day that the service has left out. -/
def InReach (d : Date) (days : Nat) : Prop :=
  days = 0 ∨ d.day + days ≤ codeLength d.month ∨
    (d.month = 2 ∧ isLeapYear d.year = true ∧ d.day ≤ 28 ∧
      30 ≤ d.day + days ∧ d.day + days ≤ 60)

/-- **The days of the service** are those of the calendar just where they are in reach. -/
theorem showsDate_iff (h : ShowsDate dt d) (hd : d.Valid) (n : Nat) :
    ShowsDate (advanceDay^[n] dt) (Date.next^[n] d) ↔ InReach d n := by
  by_cases hn : n = 0
  · subst hn
    exact ⟨fun _ => .inl rfl, fun _ => h⟩
  by_cases hwithin : d.day + n ≤ codeLength d.month
  · have hlength := daysInMonth_eq d.year d.month
    refine ⟨fun _ => .inr (.inl hwithin), fun _ => ?_⟩
    rw [Date.iterate_within (by omega)]
    exact within_month h hd hwithin
  by_cases hleap : d.month = 2 ∧ isLeapYear d.year = true ∧ d.day ≤ 28
  · obtain ⟨hmonth, hyear, hday⟩ := hleap
    have hcode : codeLength d.month = 28 := by
      rw [hmonth]
      rfl
    obtain ⟨k, hk⟩ : ∃ k, d.day + k = 28 := ⟨28 - d.day, by omega⟩
    obtain ⟨hwrong, hmarch, hdate⟩ := march_first h hd hmonth hyear hk
    unfold InReach
    by_cases hfeb : n = k + 1
    · subst hfeb
      exact ⟨fun hshows => absurd hshows hwrong, fun hreach => by omega⟩
    · obtain ⟨j, rfl⟩ : ∃ j, n = j + (k + 2) := ⟨n - (k + 2), by omega⟩
      have hvalid : (⟨d.year, 3, 1⟩ : Date).Valid := hdate ▸ Date.iterate_valid hd (k + 2)
      have h31 : codeLength 3 = 31 := rfl
      rw [Function.iterate_add_apply advanceDay j, Function.iterate_add_apply Date.next j, hdate]
      by_cases hj : 1 + j ≤ 31
      · rw [Date.iterate_within (show 1 + j ≤ daysInMonth d.year 3 from hj)]
        exact ⟨fun _ => .inr (.inr ⟨hmonth, hyear, hday, by omega, by omega⟩),
          fun _ => within_month hmarch hvalid (show 1 + j ≤ codeLength 3 by omega)⟩
      · have hbehind := behind_after hmarch hvalid (fun hfeb => by cases hfeb.1)
          (show j ≠ 0 by omega) (show codeLength 3 < 1 + j by omega)
        refine ⟨fun hshows => absurd hshows (hbehind.not_shows (Date.iterate_valid hvalid j)),
          fun hreach => by omega⟩
  · have hbehind := behind_after h hd hleap hn (Nat.lt_of_not_le hwithin)
    refine ⟨fun hshows => absurd hshows (hbehind.not_shows (Date.iterate_valid hd n)), ?_⟩
    rintro (hzero | hle | ⟨hmonth, hyear, hday, -⟩)
    · exact absurd hzero hn
    · exact absurd hle hwithin
    · exact absurd ⟨hmonth, hyear, hday⟩ hleap

/-! ## Runs of the clock -/

/-- A step without an update changes the date-time in a second that is counted, and only there. -/
theorem currentDt_step {s : Clock} {a : ClockStep} (h : ∀ dt, a ≠ .update dt) :
    ∃ n, (clockStep a s).seconds = s.seconds + n ∧
      (clockStep a s).currentDt = advanceSecond^[n] s.currentDt := by
  have hsecond : ∀ s : Clock, s.threadTimer.seconds = s.seconds + 1 ∧
      s.threadTimer.currentDt = advanceSecond s.currentDt := by
    intro s
    unfold Clock.threadTimer Clock.resetExpired Clock.countSecond
    split
    · exact ⟨rfl, rfl⟩
    · exact ⟨rfl, rfl⟩
  cases a with
  | update dt => exact absurd rfl (h dt)
  | tick => exact ⟨0, rfl, rfl⟩
  | poll => exact ⟨0, rfl, rfl⟩
  | act q action => exact ⟨0, rfl, rfl⟩
  | event =>
    show ∃ n, s.doEvent.seconds = _ ∧ s.doEvent.currentDt = _
    unfold Clock.doEvent
    split
    · exact ⟨0, rfl, rfl⟩
    · exact ⟨0, rfl, rfl⟩
    · dsimp only
      split
      · obtain ⟨hseconds, hdt⟩ := hsecond { s with kernel := { s.kernel with events := _ } }
        exact ⟨1, hseconds, hdt⟩
      · exact ⟨0, rfl, rfl⟩

theorem currentDt_run {s : Clock} {steps : List ClockStep} (h : ∀ dt, .update dt ∉ steps) :
    ∃ n, (run clockStep s steps).seconds = s.seconds + n ∧
      (run clockStep s steps).currentDt = advanceSecond^[n] s.currentDt := by
  induction steps generalizing s with
  | nil => exact ⟨0, rfl, rfl⟩
  | cons a steps ih =>
    obtain ⟨n, hseconds, hdt⟩ := @currentDt_step s a fun dt heq => h dt (heq ▸ List.mem_cons_self)
    obtain ⟨k, hseconds', hdt'⟩ := @ih (clockStep a s) fun dt hmem =>
      h dt (List.mem_cons_of_mem a hmem)
    refine ⟨k + n, ?_, ?_⟩
    · rw [run_cons, hseconds', hseconds]
      omega
    · rw [run_cons, hdt', hdt, Function.iterate_add_apply]

/-- **The calendar of the clock**: in every run without an update, from any date-time that exists,
the seconds that are counted lead to the date-time of the calendar exactly if its date is in
reach. -/
theorem calendar_iff (s : Clock) (steps : List ClockStep) (h : ∀ dt, .update dt ∉ steps)
    {m : Moment} (hm : m.Valid) (hshows : Shows s.currentDt m) :
    Shows (run clockStep s steps).currentDt
        (m.after ((run clockStep s steps).seconds - s.seconds)) ↔
      InReach m.date (m.midnights ((run clockStep s steps).seconds - s.seconds)) := by
  obtain ⟨n, hseconds, hdt⟩ := @currentDt_run s steps h
  rw [hseconds, Nat.add_sub_cancel_left, hdt]
  obtain ⟨htime, hweekday, hday⟩ := advanceSecond_iterate hm hshows n
  rw [← showsDate_iff hshows.1 hm.1]
  constructor
  · intro hright
    exact (hday.showsDate _).mp hright.1
  · intro hdate
    exact ⟨(hday.showsDate _).mpr hdate, hweekday, htime⟩

/-- A clock to which the end of a second has been posted. -/
def dueClock (dt : HxbDatetime) : Clock where
  kernel := ⟨0, fun _ => ⟨0, 0, none⟩, [], false, [.timer .updateTimer (some .datetime)]⟩
  currentDt := dt
  timeValid := true
  timestamp := 0
  validCounter := 0
  seconds := 0
  sinceUpdate := 0

/-- The last second before the last day of a January. -/
theorem january_right : Shows
    (run clockStep (dueClock ⟨23, 59, 59, 30, 1, 2013, 3⟩) [.event]).currentDt
    (Moment.after ⟨⟨2013, 1, 30⟩, 3, 86399⟩ 1) :=
  (calendar_iff (dueClock ⟨23, 59, 59, 30, 1, 2013, 3⟩) [.event] (by simp)
    (show Moment.Valid ⟨⟨2013, 1, 30⟩, 3, 86399⟩ from ⟨by decide, by decide, by decide⟩)
    (by decide)).mpr (.inr (.inl (by decide)))

/-- On the first of February the service has the day 0. -/
theorem february_wrong : Shows (dueClock ⟨23, 59, 59, 31, 1, 2013, 4⟩).currentDt
      ⟨⟨2013, 1, 31⟩, 4, 86399⟩ ∧
    ¬ Shows (run clockStep (dueClock ⟨23, 59, 59, 31, 1, 2013, 4⟩) [.event]).currentDt
      (Moment.after ⟨⟨2013, 1, 31⟩, 4, 86399⟩ 1) := by
  refine ⟨by decide, fun h => ?_⟩
  have hday : (0 : UInt8).toNat = 1 := h.1.2.2
  cases hday

end Hexabus.Firmware.Timing
