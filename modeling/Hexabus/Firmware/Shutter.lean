import Hexabus.Lib.SinglePrecision
import Mathlib.Tactic.IntervalCases

/-!
# The window shutter

`shutter.c`: a position that the encoder's polls count, a goal that a write sets, and an upper
bound that a time-out sets. A run is any order of writes, polls and time-outs; the set-up process
does no more than writes do. A `double` is a `float` on the target, and an `int` has 16 bits: that
no value leaves them is `Inv`.
-/

namespace Hexabus.Firmware.Shutter

open Lib.Single

/-! ## The state -/

/-- `shutter_direction`. -/
inductive Direction
  | up
  | down
  | stop
  deriving DecidableEq

/-- `SHUTTER_DIR_UP`, `SHUTTER_DIR_DOWN` and `SHUTTER_DIR_STOP`. -/
def Direction.count : Direction → Int
  | .up => 1
  | .down => -1
  | .stop => 0

/-- `SHUTTER_MAX_BOUND`. -/
def maxBound : Int := 30000

/-- The variables, and the bits `SHUTTER_OUT_UP` and `SHUTTER_OUT_DOWN` of the port. -/
structure State where
  direction : Direction
  goal : Int
  pos : Int
  upperbound : Int
  outUp : Bool
  outDown : Bool

/-- `shutter_init`. -/
def shutterInit : State := ⟨.stop, 0, maxBound / 2, maxBound, false, false⟩

/-- `shutter_open`. -/
def shutterOpen (s : State) : State := { s with direction := .up, outDown := false, outUp := true }

/-- `shutter_close`. -/
def shutterClose (s : State) : State := { s with direction := .down, outUp := false, outDown := true }

/-- `shutter_stop`. -/
def shutterStop (s : State) : State := { s with direction := .stop, outUp := false, outDown := false }

/-- `(float)shutter_upperbound/255.0`. -/
def factor (upperbound : Int) : ℚ := single (upperbound / 255)

/-- `shutter_set`: the goal. -/
def goalOf (upperbound : Int) (val : UInt8) : Int :=
  if val = 255 then maxBound
  else if val = 1 then -maxBound
  else truncate (single (val.toNat * factor upperbound))

/-- `shutter_set`: the motor. -/
def move (s : State) : State :=
  if s.goal > s.pos then shutterOpen s else if s.goal < s.pos then shutterClose s else s

def shutterSet (s : State) (val : UInt8) : State := move { s with goal := goalOf s.upperbound val }

/-- `shutter_toggle`. -/
def shutterToggle (s : State) (val : UInt8) : State :=
  if s.direction = .stop ∧ val ≠ 0 then shutterSet s val else shutterStop s

/-- `shutter_get_state`: the value before it is converted. -/
def position (s : State) : ℚ := single (s.pos * factor s.upperbound)

/-- `shutter_get_state`: a number that is no `uint8_t` has no defined conversion. -/
def shutterGetState (s : State) : Option UInt8 :=
  if 0 ≤ truncate (position s) ∧ truncate (position s) ≤ 255 then
    some (UInt8.ofNat (truncate (position s)).toNat)
  else none

/-- `shutter_process`, `PROCESS_EVENT_POLL`: the position. -/
def advance (s : State) : State := { s with pos := s.pos + s.direction.count }

/-- `shutter_process`, `PROCESS_EVENT_POLL`. -/
def poll (s : State) : State :=
  if (advance s).pos ≥ s.goal ∧ s.direction = .up ∨
      (advance s).pos ≤ s.goal ∧ s.direction = .down then
    shutterStop (advance s)
  else advance s

/-- `shutter_process`, `PROCESS_EVENT_TIMER`. -/
def timeout (s : State) : State :=
  match s.direction with
  | .up => shutterStop { s with upperbound := s.pos }
  | .down => shutterStop { s with pos := 1 }
  | .stop => shutterStop s

/-! ## Runs -/

inductive Step
  | write (val : UInt8)
  | poll
  | timeout

def step (s : State) : Step → State
  | .write val => shutterToggle s val
  | .poll => poll s
  | .timeout => timeout s

def run (s : State) (steps : List Step) : State := steps.foldl step s

/-! ## What holds in every state -/

/-- The outputs are those of the direction, the motor runs towards the goal, and no variable
leaves the range of a position. -/
structure Inv (s : State) : Prop where
  outUp : s.outUp = decide (s.direction = .up)
  outDown : s.outDown = decide (s.direction = .down)
  up : s.direction = .up → s.pos < s.goal
  down : s.direction = .down → s.goal < s.pos
  pos : |s.pos| ≤ maxBound
  goal : |s.goal| ≤ maxBound
  upperbound : |s.upperbound| ≤ maxBound

theorem Inv.stop {s : State} (h : Inv s) : Inv (shutterStop s) :=
  ⟨rfl, rfl, fun hd => (by cases hd), fun hd => (by cases hd), h.pos, h.goal, h.upperbound⟩

theorem abs_factor_le {u : Int} (hu : |u| ≤ maxBound) : |factor u| ≤ 117 + 2 / 3 := by
  have hcast : |(u : ℚ)| ≤ 30000 := by exact_mod_cast hu
  have hdiv : |(u : ℚ) / 255| ≤ 30000 / 255 := by
    rw [abs_div, abs_of_pos (by norm_num : (0 : ℚ) < 255)]
    gcongr
  have hround := abs_single_sub_le ((u : ℚ) / 255)
  have htri := abs_sub_abs_le_abs_sub (factor u) ((u : ℚ) / 255)
  rw [factor] at htri ⊢
  linarith

theorem abs_goalOf_le {u : Int} (hu : |u| ≤ maxBound) (val : UInt8) :
    |goalOf u val| ≤ maxBound := by
  unfold goalOf
  split
  · decide
  · next h255 =>
    split
    · decide
    · have hval : val.toNat ≤ 254 := by
        have hlt := val.toNat_lt
        have hne : val.toNat ≠ 255 := fun h => h255 (UInt8.toNat_inj.mp h)
        omega
      have hcast : (val.toNat : ℚ) ≤ 254 := by exact_mod_cast hval
      have hfactor := abs_factor_le hu
      have hprod : |(val.toNat : ℚ) * factor u| ≤ 254 * (117 + 2 / 3) := by
        rw [abs_mul, abs_of_nonneg (Nat.cast_nonneg _)]
        gcongr
      have hround := abs_single_sub_le ((val.toNat : ℚ) * factor u)
      have htri := abs_sub_abs_le_abs_sub (single ((val.toNat : ℚ) * factor u))
        ((val.toNat : ℚ) * factor u)
      refine abs_truncate_le ?_
      have hmax : ((maxBound : Int) : ℚ) = 30000 := by norm_num [maxBound]
      rw [hmax]
      linarith

theorem Inv.move {s : State} (h : Inv s) : Inv (move s) := by
  unfold Shutter.move
  split
  · next hgt => exact ⟨rfl, rfl, fun _ => hgt, fun hd => (by cases hd), h.pos, h.goal, h.upperbound⟩
  · split
    · next hlt =>
      exact ⟨rfl, rfl, fun hd => (by cases hd), fun _ => hlt, h.pos, h.goal, h.upperbound⟩
    · exact h

theorem Inv.toggle {s : State} (h : Inv s) (val : UInt8) : Inv (shutterToggle s val) := by
  unfold shutterToggle
  split
  · next hcond =>
    obtain ⟨hstop, -⟩ := hcond
    refine Inv.move ⟨h.outUp, h.outDown, fun hd => ?_, fun hd => ?_, h.pos,
      abs_goalOf_le h.upperbound val, h.upperbound⟩
    · rw [show s.direction = .up from hd] at hstop
      cases hstop
    · rw [show s.direction = .down from hd] at hstop
      cases hstop
  · exact h.stop

theorem Inv.poll {s : State} (h : Inv s) : Inv (poll s) := by
  have hpos := abs_le.mp h.pos
  have hgoal := abs_le.mp h.goal
  have hup := h.up
  have hdown := h.down
  have hcount : |s.pos + s.direction.count| ≤ maxBound := by
    rw [abs_le]
    cases hd : s.direction with
    | up =>
      have hlt := hup hd
      simp only [Direction.count]
      omega
    | down =>
      have hlt := hdown hd
      simp only [Direction.count]
      omega
    | stop =>
      simp only [Direction.count]
      omega
  unfold Shutter.poll
  split
  · exact ⟨rfl, rfl, fun hd => (by cases hd), fun hd => (by cases hd), hcount, h.goal, h.upperbound⟩
  · next hgo =>
    rw [not_or] at hgo
    refine ⟨h.outUp, h.outDown, fun hd => ?_, fun hd => ?_, hcount, h.goal, h.upperbound⟩
    · exact not_le.mp fun hle => hgo.1 ⟨hle, hd⟩
    · exact not_le.mp fun hle => hgo.2 ⟨hle, hd⟩

theorem Inv.timeout {s : State} (h : Inv s) : Inv (timeout s) := by
  unfold Shutter.timeout
  split
  · exact ⟨rfl, rfl, fun hd => (by cases hd), fun hd => (by cases hd), h.pos, h.goal, h.pos⟩
  · have hone : |(1 : Int)| ≤ maxBound := by decide
    exact ⟨rfl, rfl, fun hd => (by cases hd), fun hd => (by cases hd), hone, h.goal, h.upperbound⟩
  · exact h.stop

theorem Inv.step {s : State} (h : Inv s) (st : Step) : Inv (step s st) := by
  cases st with
  | write val => exact h.toggle val
  | poll => exact h.poll
  | timeout => exact h.timeout

theorem Inv.run {s : State} (h : Inv s) (steps : List Step) : Inv (run s steps) := by
  induction steps generalizing s with
  | nil => exact h
  | cons st steps ih => exact ih (h.step st)

theorem inv_init : Inv shutterInit :=
  ⟨rfl, rfl, fun hd => (by cases hd), fun hd => (by cases hd), by decide, by decide, by decide⟩

/-! ## To the goal -/

/-- No write comes. -/
def Undisturbed (steps : List Step) : Prop := ∀ st ∈ steps, ∀ val, st ≠ .write val

/-- The goal stays, and the bound as long as the goal may still be reached. -/
def Heading (goal upperbound : Int) (s : State) : Prop :=
  s.goal = goal ∧ (s.upperbound = upperbound ∨ s.direction = .stop ∧ s.pos ≠ s.goal)

theorem poll_fields (s : State) :
    (poll s).goal = s.goal ∧ (poll s).pos = s.pos + s.direction.count ∧
      (poll s).upperbound = s.upperbound := by
  unfold poll
  split <;> exact ⟨rfl, rfl, rfl⟩

theorem Heading.poll {g u : Int} {s : State} (h : Heading g u s) : Heading g u (poll s) := by
  obtain ⟨hg, hu⟩ := h
  obtain ⟨hgoal, hpos, hbound⟩ := poll_fields s
  refine ⟨hgoal.trans hg, hu.imp hbound.trans fun ⟨hd, hne⟩ => ⟨?_, ?_⟩⟩
  · unfold Shutter.poll
    split
    · rfl
    · exact hd
  · rw [hpos, hgoal, hd]
    exact fun h => hne ((Int.add_zero _).symm.trans h)

theorem Heading.timeout {g u : Int} {s : State} (hi : Inv s) (h : Heading g u s) :
    Heading g u (timeout s) := by
  obtain ⟨hg, hu⟩ := h
  cases hd : s.direction with
  | up =>
    have ht : Shutter.timeout s = shutterStop { s with upperbound := s.pos } := by
      rw [Shutter.timeout, hd]
    rw [ht]
    exact ⟨hg, .inr ⟨rfl, (hi.up hd).ne⟩⟩
  | down =>
    have ht : Shutter.timeout s = shutterStop { s with pos := 1 } := by rw [Shutter.timeout, hd]
    rw [ht]
    rcases hu with hu | hu
    · exact ⟨hg, .inl hu⟩
    · exact absurd (hu.1.symm.trans hd) (by decide)
  | stop =>
    have ht : Shutter.timeout s = shutterStop s := by rw [Shutter.timeout, hd]
    rw [ht]
    exact ⟨hg, hu.imp_right fun h => ⟨rfl, h.2⟩⟩

theorem Heading.run {g u : Int} {s : State} (hi : Inv s) (h : Heading g u s) {steps : List Step}
    (hsteps : Undisturbed steps) : Heading g u (run s steps) := by
  induction steps generalizing s with
  | nil => exact h
  | cons st steps ih =>
    refine ih (hi.step st) ?_ fun st' hst' => hsteps st' (List.mem_cons_of_mem _ hst')
    cases st with
    | write val => exact absurd rfl (hsteps _ List.mem_cons_self val)
    | poll => exact h.poll
    | timeout => exact h.timeout hi

theorem move_fields (s : State) :
    (move s).goal = s.goal ∧ (move s).pos = s.pos ∧ (move s).upperbound = s.upperbound := by
  unfold move
  split
  · exact ⟨rfl, rfl, rfl⟩
  · split <;> exact ⟨rfl, rfl, rfl⟩

/-- When the goal of a write is reached, it is that of the present bound. -/
theorem at_goal {s : State} (hi : Inv s) {val : UInt8} (hstop : s.direction = .stop)
    (hval : val ≠ 0) {steps : List Step} (hsteps : Undisturbed steps)
    (hgoal : (run (shutterToggle s val) steps).pos = (run (shutterToggle s val) steps).goal) :
    (run (shutterToggle s val) steps).pos = goalOf s.upperbound val ∧
      (run (shutterToggle s val) steps).upperbound = s.upperbound := by
  have hset : shutterToggle s val = move { s with goal := goalOf s.upperbound val } :=
    if_pos ⟨hstop, hval⟩
  obtain ⟨hg, -, hu⟩ := move_fields { s with goal := goalOf s.upperbound val }
  have hheading : Heading (goalOf s.upperbound val) s.upperbound (shutterToggle s val) := by
    rw [hset]
    exact ⟨hg, .inl hu⟩
  obtain ⟨hg, hu⟩ := hheading.run (hi.toggle val) hsteps
  rcases hu with hu | hu
  · exact ⟨hgoal.trans hg, hu⟩
  · exact absurd hgoal hu.2

/-- A poll stops the motor at the goal only. -/
theorem pos_of_poll_stop {s : State} (hi : Inv s) (hmoves : s.direction = .stop → s.pos = s.goal)
    (hstop : (poll s).direction = .stop) : (poll s).pos = (poll s).goal := by
  obtain ⟨hgoal, hpos, -⟩ := poll_fields s
  rw [hgoal, hpos]
  unfold poll at hstop
  split at hstop
  · next hat =>
    rcases hat with ⟨hge, hd⟩ | ⟨hle, hd⟩
    · have hlt := hi.up hd
      rw [advance, hd] at hge
      rw [hd]
      exact le_antisymm (Int.add_one_le_iff.mpr hlt) hge
    · have hlt := hi.down hd
      rw [advance, hd] at hle
      rw [hd]
      exact le_antisymm hle (Int.le_sub_one_iff.mpr hlt)
  · have hd : s.direction = .stop := hstop
    rw [hd, hmoves hd]
    exact Int.add_zero _

/-- As many polls as there are steps to the goal reach it. -/
theorem reaches_goal {s : State} (hi : Inv s) (hmoves : s.direction = .stop → s.pos = s.goal) :
    (run s (List.replicate (s.goal - s.pos).natAbs .poll)).pos = s.goal := by
  obtain ⟨n, hn⟩ : ∃ n, n = (s.goal - s.pos).natAbs := ⟨_, rfl⟩
  rw [← hn]
  induction n generalizing s with
  | zero =>
    show s.pos = s.goal
    omega
  | succ n ih =>
    obtain ⟨hgoal, hpos, -⟩ := poll_fields s
    rw [List.replicate_succ, ← hgoal]
    refine ih hi.poll (pos_of_poll_stop hi hmoves) ?_
    show n = ((poll s).goal - (poll s).pos).natAbs
    rw [hgoal, hpos]
    cases hd : s.direction with
    | up =>
      have hlt := hi.up hd
      show n = (s.goal - (s.pos + 1)).natAbs
      omega
    | down =>
      have hlt := hi.down hd
      show n = (s.goal - (s.pos + -1)).natAbs
      omega
    | stop =>
      have heq := hmoves hd
      omega

/-! ## The scale -/

/-- The value read, before its conversion, is one of the scale. -/
def InRange (s : State) : Prop := 0 ≤ position s ∧ position s ≤ 255

/-- A read returns the value up to one. -/
def Returns (val : UInt8) (s : State) : Prop :=
  ∃ w, shutterGetState s = some w ∧ |(w.toNat : Int) - val.toNat| ≤ 1

/-- The bounds at which the position with the value 255 is rounded above it. -/
def coarse : List Int := [5, 9, 17, 75, 153]

/-- The position times the bound, of which a 255th is read, is one of those that give a value of
the scale. -/
def Fits (s : State) : Prop :=
  0 ≤ s.pos * s.upperbound ∧ (s.pos * s.upperbound < 255 * 255 ∨
    s.pos * s.upperbound = 255 * 255 ∧ |s.upperbound| ∉ coarse)

/-- The product that is rounded is near what it would be without the factor's rounding. -/
theorem abs_mul_factor_sub_le (n u : Int) :
    |n * factor u - ((n * u : Int) : ℚ) / 255| ≤ |((n * u : Int) : ℚ) / 255| / 2 ^ 24 := by
  have hfactor := abs_single_sub_le ((u : ℚ) / 255)
  have hsub : n * factor u - ((n * u : Int) : ℚ) / 255 = n * (single (u / 255) - u / 255) := by
    rw [factor, Int.cast_mul]
    ring
  have habs : |((n * u : Int) : ℚ) / 255| = |(n : ℚ)| * |(u : ℚ) / 255| := by
    rw [Int.cast_mul, mul_div_assoc, abs_mul]
  rw [hsub, abs_mul, habs, mul_div_assoc]
  gcongr

theorem mul_factor_bounds {n u : Int} (h : 0 ≤ n * u) :
    ((n * u : Int) : ℚ) / 255 * (1 - 1 / 2 ^ 24) ≤ n * factor u ∧
      n * factor u ≤ ((n * u : Int) : ℚ) / 255 * (1 + 1 / 2 ^ 24) := by
  have hprod : (0 : ℚ) ≤ ((n * u : Int) : ℚ) / 255 := div_nonneg (Int.cast_nonneg h) (by norm_num)
  have habs := abs_le.mp (abs_mul_factor_sub_le n u)
  rw [abs_of_nonneg hprod] at habs
  constructor <;> linarith [habs.1, habs.2]

theorem single_factor_le {n u : Int} (h : 0 ≤ n * u) :
    single (n * factor u) ≤ ((n * u : Int) : ℚ) / 255 * (1 + 1 / 2 ^ 24) ^ 2 := by
  have hprod : (0 : ℚ) ≤ ((n * u : Int) : ℚ) / 255 := div_nonneg (Int.cast_nonneg h) (by norm_num)
  obtain ⟨hlow, hhigh⟩ := mul_factor_bounds h
  have hnonneg : (0 : ℚ) ≤ n * factor u := (mul_nonneg hprod (by norm_num)).trans hlow
  calc single (n * factor u) ≤ n * factor u * (1 + 1 / 2 ^ 24) := single_le hnonneg
    _ ≤ ((n * u : Int) : ℚ) / 255 * (1 + 1 / 2 ^ 24) * (1 + 1 / 2 ^ 24) := by gcongr
    _ = _ := by ring

theorem le_single_factor {n u : Int} (h : 0 ≤ n * u) :
    ((n * u : Int) : ℚ) / 255 * (1 - 1 / 2 ^ 24) ^ 2 ≤ single (n * factor u) := by
  have hprod : (0 : ℚ) ≤ ((n * u : Int) : ℚ) / 255 := div_nonneg (Int.cast_nonneg h) (by norm_num)
  obtain ⟨hlow, -⟩ := mul_factor_bounds h
  have hnonneg : (0 : ℚ) ≤ n * factor u := (mul_nonneg hprod (by norm_num)).trans hlow
  calc ((n * u : Int) : ℚ) / 255 * (1 - 1 / 2 ^ 24) ^ 2
      = ((n * u : Int) : ℚ) / 255 * (1 - 1 / 2 ^ 24) * (1 - 1 / 2 ^ 24) := by ring
    _ ≤ n * factor u * (1 - 1 / 2 ^ 24) := mul_le_mul_of_nonneg_right hlow (by norm_num)
    _ ≤ single (n * factor u) := le_single hnonneg

theorem single_factor_neg {n u : Int} (h : n * u < 0) : single (n * factor u) < 0 := by
  refine single_neg_of_neg ?_
  have hprod : ((n * u : Int) : ℚ) / 255 < 0 :=
    div_neg_of_neg_of_pos (Int.cast_lt_zero.mpr h) (by norm_num)
  have habs := (abs_le.mp (abs_mul_factor_sub_le n u)).2
  rw [abs_of_neg hprod] at habs
  linarith

/-- The divisors of 255^2 up to 255, but for one. -/
def smallDivisors : List Int := [3, 5, 9, 15, 17, 25, 45, 51, 75, 85, 153, 225, 255]

/-- The smaller of two factors of 255^2, neither of which is beyond a position. -/
theorem mem_smallDivisors {n u : Int} (hn : |n| ≤ 255) (hu : |u| ≤ maxBound)
    (h : n * u = 255 * 255) : |n| ∈ smallDivisors := by
  have hmul : n.natAbs * u.natAbs = 65025 := by rw [← Int.natAbs_mul, h]; rfl
  have key : ∀ m : ℕ, m < 256 → m ∣ 65025 → m = 1 ∨ (m : Int) ∈ smallDivisors := by
    decide +kernel
  rw [Int.abs_eq_natAbs] at hn hu ⊢
  rcases key n.natAbs (by omega) ⟨u.natAbs, hmul.symm⟩ with hone | hmem
  · rw [hone, Nat.one_mul] at hmul
    rw [hmul] at hu
    exact absurd hu (by decide)
  · exact hmem

/-- Where rounding decides. -/
theorem single_factor_eq {n u : Int} (hn : |n| ≤ maxBound) (hu : |u| ≤ maxBound)
    (h : n * u = 255 * 255) : single (n * factor u) ≤ 255 ↔ |u| ∉ coarse := by
  have key : ∀ d ∈ smallDivisors, ∀ e ∈ [(1 : Int), -1],
      (single ((65025 / (d * e) : Int) * factor (d * e)) ≤ 255 ↔ |d * e| ∉ coarse) ∧
        (single ((d * e : Int) * factor (65025 / (d * e))) ≤ 255 ↔ |65025 / (d * e)| ∉ coarse) := by
    decide +kernel
  have hsign : ∀ x : Int, ∃ e ∈ [(1 : Int), -1], x = |x| * e := by
    intro x
    rcases abs_choice x with hx | hx
    · exact ⟨1, by decide, by rw [hx, mul_one]⟩
    · exact ⟨-1, by decide, by rw [hx, neg_mul_neg, mul_one]⟩
  have hquot : ∀ {x y : Int}, x * y = 255 * 255 → y = 65025 / x := by
    intro x y hxy
    have hx : x ≠ 0 := by
      rintro rfl
      rw [zero_mul] at hxy
      exact absurd hxy (by decide)
    exact (Int.ediv_eq_of_eq_mul_right hx hxy.symm).symm
  by_cases hsmall : |u| ≤ 255
  · obtain ⟨e, he, hue⟩ := hsign u
    have hquot := hquot ((mul_comm u n).trans h)
    have hkey := (key |u| (mem_smallDivisors hsmall hn ((mul_comm u n).trans h)) e he).1
    rwa [← hue, ← hquot] at hkey
  · have hsmall : |n| ≤ 255 := by
      by_contra hcon
      have habs : |n| * |u| = 255 * 255 := by rw [← abs_mul, h]; rfl
      nlinarith
    obtain ⟨e, he, hne⟩ := hsign n
    have hkey := (key |n| (mem_smallDivisors hsmall hu h) e he).2
    rwa [← hne, ← hquot h] at hkey

/-- **What is read** is a value of the scale when the position fits the bound. -/
theorem inRange_iff {s : State} (hi : Inv s) : InRange s ↔ Fits s := by
  unfold InRange Fits position
  by_cases hneg : s.pos * s.upperbound < 0
  · have hread := single_factor_neg hneg
    constructor
    · exact fun h => absurd h.1 (not_le.mpr hread)
    · exact fun h => absurd h.1 (not_le.mpr hneg)
  rw [not_lt] at hneg
  have hlow := le_single_factor hneg
  have hhigh := single_factor_le hneg
  have hcast : (0 : ℚ) ≤ ((s.pos * s.upperbound : Int) : ℚ) := Int.cast_nonneg hneg
  have hread : 0 ≤ single (s.pos * factor s.upperbound) :=
    (mul_nonneg (div_nonneg hcast (by norm_num)) (by norm_num)).trans hlow
  rcases lt_trichotomy (s.pos * s.upperbound) (255 * 255) with hlt | heq | hgt
  · have hle : ((s.pos * s.upperbound : Int) : ℚ) ≤ 65024 := by
      have : s.pos * s.upperbound ≤ 65024 := by omega
      exact_mod_cast this
    refine iff_of_true ⟨hread, hhigh.trans ?_⟩ ⟨hneg, .inl hlt⟩
    calc ((s.pos * s.upperbound : Int) : ℚ) / 255 * (1 + 1 / 2 ^ 24) ^ 2
        ≤ 65024 / 255 * (1 + 1 / 2 ^ 24) ^ 2 := by gcongr
      _ ≤ 255 := by norm_num
  · have hfits := single_factor_eq hi.pos hi.upperbound heq
    exact ⟨fun h => ⟨hneg, .inr ⟨heq, hfits.mp h.2⟩⟩, fun h => ⟨hread, hfits.mpr
      (h.2.elim (fun hlt => absurd heq hlt.ne) And.right)⟩⟩
  · have hge : (65026 : ℚ) ≤ ((s.pos * s.upperbound : Int) : ℚ) := by
      have : 65026 ≤ s.pos * s.upperbound := by omega
      exact_mod_cast this
    refine iff_of_false (fun h => ?_) fun h => ?_
    · have : (65026 : ℚ) / 255 * (1 - 1 / 2 ^ 24) ^ 2 ≤ 255 :=
        calc (65026 : ℚ) / 255 * (1 - 1 / 2 ^ 24) ^ 2
            ≤ ((s.pos * s.upperbound : Int) : ℚ) / 255 * (1 - 1 / 2 ^ 24) ^ 2 := by gcongr
          _ ≤ 255 := hlow.trans h.2
      exact absurd this (by norm_num)
    · rcases h.2 with h | h
      · exact absurd hgt h.asymm
      · exact hgt.ne' h.1

/-- The value that is returned when there is one. -/
theorem shutterGetState_eq_some {s : State} {w : UInt8} (h : shutterGetState s = some w) :
    (w.toNat : Int) = truncate (position s) := by
  unfold shutterGetState at h
  split at h
  · next hrange =>
    rw [← Option.some.inj h, UInt8.toNat_ofNat']
    omega
  · cases h

/-- A bound of the whole scale has a factor of one at least. -/
theorem one_le_factor {u : Int} (hu : 255 ≤ u) (hmax : |u| ≤ maxBound) : 1 ≤ factor u := by
  have hcast : (255 : ℚ) ≤ u := by exact_mod_cast hu
  have habs : |(u : ℚ)| ≤ 30000 := by exact_mod_cast hmax
  have hlt : |(u : ℚ) / 255| < 2 ^ 24 := by
    rw [abs_div, abs_of_pos (by norm_num : (0 : ℚ) < 255), div_lt_iff₀ (by norm_num)]
    linarith
  have hone : ((1 : Int) : ℚ) ≤ (u : ℚ) / 255 := by
    rw [Int.cast_one, le_div_iff₀ (by norm_num)]
    linarith
  have hle := intCast_le_single hlt hone
  rwa [Int.cast_one] at hle

/-- When the value and the steps beyond 255 are few, the goal is the value. -/
theorem single_of_near {n u : Int} (h2 : 2 ≤ n) (h254 : n ≤ 254) (hu : 255 ≤ u)
    (hmax : |u| ≤ maxBound) (h : n * (u - 255) < 255) :
    (n : ℚ) ≤ single (n * factor u) ∧ single (n * factor u) < n + 1 := by
  have hn : (0 : ℚ) ≤ n := by exact_mod_cast (by omega : 0 ≤ n)
  have hn254 : (n : ℚ) ≤ 254 := by exact_mod_cast h254
  have hfactor := one_le_factor hu hmax
  have hfactor' := abs_factor_le hmax
  rw [abs_of_nonneg (zero_le_one.trans hfactor)] at hfactor'
  constructor
  · have hle : (n : ℚ) ≤ n * factor u := le_mul_of_one_le_right hn hfactor
    refine intCast_le_single ?_ hle
    rw [abs_of_nonneg (hn.trans hle)]
    calc (n : ℚ) * factor u ≤ 254 * (117 + 2 / 3) := by gcongr
      _ < 2 ^ 24 := by norm_num
  · have hnonneg : 0 ≤ n * u := Int.mul_nonneg (by omega) (by omega)
    have hprod : ((n * u : Int) : ℚ) ≤ 255 * n + 254 := by
      have : n * u ≤ 255 * n + 254 := by rw [Int.mul_sub] at h; omega
      exact_mod_cast this
    calc single (n * factor u)
        ≤ ((n * u : Int) : ℚ) / 255 * (1 + 1 / 2 ^ 24) ^ 2 := single_factor_le hnonneg
      _ ≤ (255 * n + 254) / 255 * (1 + 1 / 2 ^ 24) ^ 2 := by gcongr
      _ < n + 1 := by linarith

/-- A product a 255th of which is above an integer of the scale gives that integer at least. -/
theorem le_single_of_lt {n u k : Int} (hk : 0 ≤ k) (hk' : k ≤ 256) (h : 255 * k < n * u) :
    (k : ℚ) ≤ single (n * factor u) := by
  have hcast : 255 * (k : ℚ) + 1 ≤ ((n * u : Int) : ℚ) := by
    have : 255 * k + 1 ≤ n * u := h
    exact_mod_cast this
  have hk256 : (k : ℚ) ≤ 256 := by exact_mod_cast hk'
  calc (k : ℚ) ≤ (255 * k + 1) / 255 * (1 - 1 / 2 ^ 24) ^ 2 := by linarith
    _ ≤ ((n * u : Int) : ℚ) / 255 * (1 - 1 / 2 ^ 24) ^ 2 := by gcongr
    _ ≤ single (n * factor u) := le_single_factor (by omega)

/-- Otherwise the goal is beyond the value. -/
theorem lt_single_of_far {n u : Int} (h2 : 2 ≤ n) (h254 : n ≤ 254) (h : 255 ≤ n * (u - 255)) :
    ((n + 1 : Int) : ℚ) ≤ single (n * factor u) := by
  rcases h.eq_or_lt with heq | hlt
  · -- a 255th of the product is an integer, and rounding decides
    have key : ∀ m : ℕ, m < 255 → 2 ≤ m → m ∣ 255 →
        (((m : Int) + 1 : Int) : ℚ) ≤ single ((m : Int) * factor (255 + 255 / (m : Int))) := by
      decide +kernel
    obtain ⟨m, rfl⟩ := Int.eq_ofNat_of_zero_le (by omega : 0 ≤ n)
    have hdvd : (m : Int) ∣ ((255 : ℕ) : Int) := ⟨u - 255, heq⟩
    have hu : u = 255 + 255 / (m : Int) := by
      rw [Int.ediv_eq_of_eq_mul_right (by omega) heq]
      omega
    have hkey := key m (by omega) (by omega) (Int.natCast_dvd_natCast.mp hdvd)
    rwa [← hu] at hkey
  · refine le_single_of_lt (by omega) (by omega) ?_
    rw [Int.mul_sub] at hlt
    omega

/-- **What is read at the goal** is the value that was written when the value and the steps beyond
255 are few, and is beyond it otherwise. -/
theorem returns_iff {s : State} {val : UInt8} {u : Int} (h2 : 2 ≤ val) (h254 : val ≤ 254)
    (hu : 255 ≤ u) (hmax : |u| ≤ maxBound) (hpos : s.pos = goalOf u val) (hbound : s.upperbound = u) :
    Returns val s ↔ (val.toNat : Int) * (u - 255) < 255 := by
  have hlow : 2 ≤ (val.toNat : Int) := by exact_mod_cast UInt8.le_iff_toNat_le.mp h2
  have hhigh : (val.toNat : Int) ≤ 254 := by exact_mod_cast UInt8.le_iff_toNat_le.mp h254
  have hgoal : goalOf u val = truncate (single (((val.toNat : Int) : ℚ) * factor u)) := by
    have hne255 : val ≠ 255 := by
      rintro rfl
      exact absurd hhigh (by decide)
    have hne1 : val ≠ 1 := by
      rintro rfl
      exact absurd hlow (by decide)
    rw [goalOf, if_neg hne255, if_neg hne1, Int.cast_natCast]
  rw [hgoal] at hpos
  generalize hn : (val.toNat : Int) = n at *
  constructor
  · rintro ⟨w, hw, hdiff⟩
    by_contra hfar
    rw [not_lt] at hfar
    have hge : n + 1 ≤ s.pos := by
      rw [hpos]
      exact le_truncate (by omega) (lt_single_of_far hlow hhigh hfar)
    have hu256 : 256 ≤ u := by
      by_contra hcon
      have : u = 255 := by omega
      rw [this] at hfar
      omega
    have hprod : 255 * (n + 2) < s.pos * s.upperbound := by
      rw [hbound]
      have hmul : (n + 1) * u ≤ s.pos * u := mul_le_mul_of_nonneg_right hge (by omega)
      rw [Int.mul_sub] at hfar
      rw [Int.add_mul] at hmul
      omega
    have htrunc := le_truncate (by omega) (le_single_of_lt (by omega) (by omega) hprod)
    have hval := shutterGetState_eq_some hw
    rw [position] at hval
    rw [← hval] at htrunc
    rw [abs_le] at hdiff
    omega
  · intro hnear
    obtain ⟨hle, hlt⟩ := single_of_near hlow hhigh hu hmax hnear
    have hsame : truncate (single (n * factor u)) = n := truncate_eq (by omega) hle hlt
    have hposition : truncate (position s) = n := by rw [position, hpos, hsame, hbound, hsame]
    refine ⟨UInt8.ofNat n.toNat, ?_, ?_⟩
    · rw [shutterGetState, hposition]
      exact if_pos ⟨by omega, by omega⟩
    · rw [UInt8.toNat_ofNat', abs_le]
      omega

/-- The outputs of a state: one of them at most, and one when the direction is not `stop`. -/
theorem Inv.outputs {s : State} (hi : Inv s) :
    ¬ (s.outUp = true ∧ s.outDown = true) ∧
      ((s.outUp = true ∨ s.outDown = true) ↔ s.direction ≠ .stop) := by
  rw [hi.outUp, hi.outDown]
  cases s.direction <;> decide

/-- **The scale in every run**: the outputs are right; a read is in range when the position fits
the bound; and at its goal a shutter returns the value written when the value and the steps beyond
255 are few. -/
theorem shutter_scale (steps : List Step) :
    let s := run shutterInit steps
    (¬ (s.outUp = true ∧ s.outDown = true) ∧
      ((s.outUp = true ∨ s.outDown = true) ↔ s.direction ≠ .stop)) ∧
    (InRange s ↔ Fits s) ∧
    ∀ val : UInt8, 2 ≤ val → val ≤ 254 → 255 ≤ s.upperbound → s.direction = .stop →
      ∀ drive, Undisturbed drive →
        (run (shutterToggle s val) drive).pos = (run (shutterToggle s val) drive).goal →
        (Returns val (run (shutterToggle s val) drive) ↔
          (val.toNat : Int) * (s.upperbound - 255) < 255) := by
  have hi : Inv (run shutterInit steps) := inv_init.run steps
  refine ⟨hi.outputs, inRange_iff hi, fun val h2 h254 hu hstop drive hdrive hgoal => ?_⟩
  have hval : val ≠ 0 := by
    rintro rfl
    exact absurd h2 (by decide)
  obtain ⟨hpos, hbound⟩ := at_goal hi hstop hval hdrive hgoal
  exact returns_iff h2 h254 hu hi.upperbound hpos hbound

/-- A shutter whose bound is found at 300, and that is then sent to the position 128: a read there
returns 176. Before it is calibrated, a read is out of range. -/
theorem read_of_calibrated :
    let calibrate : List Step := [.write 1, .timeout, .write 255] ++ List.replicate 299 .poll ++
      [.timeout]
    let s := run shutterInit calibrate
    let t := run s (.write 128 :: List.replicate 150 .poll)
    s.upperbound = 300 ∧ s.direction = .stop ∧ t.pos = t.goal ∧ shutterGetState t = some 176 ∧
      ¬ Returns 128 t ∧ ¬ InRange shutterInit := by
  have hread : shutterGetState (run (run shutterInit
      ([.write 1, .timeout, .write 255] ++ List.replicate 299 .poll ++ [.timeout]))
      (.write 128 :: List.replicate 150 .poll)) = some 176 := by decide +kernel
  refine ⟨by decide +kernel, by decide +kernel, by decide +kernel, hread, ?_, ?_⟩
  · rintro ⟨w, hw, hdiff⟩
    rw [hread] at hw
    rw [← Option.some.inj hw] at hdiff
    exact absurd hdiff (by decide)
  · exact fun h => absurd h.2 (by decide +kernel)

end Hexabus.Firmware.Shutter
