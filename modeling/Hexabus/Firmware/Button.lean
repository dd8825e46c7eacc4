import Hexabus.Lib.Debounce

/-!
# Buttons

`button.c`: every tick of the clock, the pins of all registered buttons are sampled. A word of
16 bits for each pin holds the state of its debouncing and, in the upper 14 bits, the ticks since
the first active sample. The callbacks are recorded in the order in which they are called.
-/

namespace Hexabus.Firmware.Buttons

open Lib.Debounce

/-! ## The source -/

/-- `BUTTON_DEBOUNCE_TICKS`, of `hexabus_config.h`. -/
def buttonDebounceTicks : UInt16 := 1

/-- `enum button_state_t`. -/
def idle : UInt16 := 0
def debounceActive : UInt16 := 1
def active : UInt16 := 2
def debounceIdle : UInt16 := 3
def stateMask : UInt16 := 3
def stateShamt : UInt16 := 2

/-- `0xFFFF >> STATE_SHAMT`. -/
def maxTicks : UInt16 := 0xffff >>> stateShamt

/-- `struct button_set_descriptor_t`: of the two handlers, whether they are there. -/
structure Descriptor where
  port : Nat
  mask : UInt8
  activeLevel : Bool
  clickTicks : UInt16
  pressedTicks : UInt16
  clicked : Bool
  pressed : Bool
  deriving DecidableEq, Repr

/-- A call of one of the handlers. -/
inductive Call
  | clicked (button : UInt8)
  | pressed (button : UInt8) (released : Bool) (pressedTicks : UInt16)
  deriving DecidableEq, Repr

def Call.button : Call → UInt8
  | clicked button => button
  | pressed button _ _ => button

/-- `activeLevel`, for one bit of the port. -/
def isActive (d : Descriptor) (port bit : UInt8) : Bool :=
  let level := port &&& bit
  (level != 0 && d.activeLevel) || (level == 0 && !d.activeLevel)

/-- `ticks`, one sample later; it stays at its largest value. -/
def countTicks (state : UInt16) : UInt16 :=
  let ticks := state >>> stateShamt
  if (ticks + buttonDebounceTicks) &&& maxTicks > ticks then ticks + buttonDebounceTicks
  else maxTicks

/-- The `switch`: the new state, its ticks and the calls. -/
def switchState (d : Descriptor) (bit : UInt8) (activeLevel : Bool) (smState ticks : UInt16) :
    UInt16 × UInt16 × List Call :=
  if smState = idle then
    if activeLevel then (debounceActive, 0, []) else (smState, ticks, [])
  else if smState = debounceActive ∨ smState = active then
    if activeLevel then
      (active, ticks,
        if d.pressed ∧ d.pressedTicks ≤ ticks then [.pressed bit false ticks] else [])
    else if smState = debounceActive then (idle, 0, [])
    else (debounceIdle, ticks, [])
  else
    if activeLevel then (active, ticks, [])
    else
      (idle, 0,
        (if d.clicked ∧ d.clickTicks ≥ ticks then [.clicked bit] else []) ++
          if d.pressed ∧ d.pressedTicks ≤ ticks then [.pressed bit true ticks] else [])

/-- One sample of one pin. -/
def iterateBit (d : Descriptor) (bit : UInt8) (activeLevel : Bool) (state : UInt16) :
    UInt16 × List Call :=
  let (smState, ticks, calls) :=
    switchState d bit activeLevel (state &&& stateMask) (countTicks state)
  ((ticks <<< stateShamt) ||| smState, calls)

/-- The values of `bit`. -/
def bits : List UInt8 := [0x80, 0x40, 0x20, 0x10, 0x08, 0x04, 0x02, 0x01]

/-- `d.mask & bit`. -/
def Descriptor.masks (d : Descriptor) (bit : UInt8) : Bool := d.mask &&& bit != 0

/-- The inner loop; `state[index]` is the head of the list. -/
def iterateBits (d : Descriptor) (port : UInt8) : List UInt8 → List UInt16 →
    List UInt16 × List Call
  | [], states => (states, [])
  | bit :: rest, states =>
    if d.masks bit then
      let (state, calls) := iterateBit d bit (isActive d port bit) (states.headD 0)
      let (states, more) := iterateBits d port rest states.tail
      (state :: states, calls ++ more)
    else iterateBits d port rest states

/-- The bits of the mask. -/
def pins (d : Descriptor) : List UInt8 := bits.filter d.masks

/-- `struct button_sm_state_t`, with a word for each pin. -/
structure Button where
  descriptor : Descriptor
  state : List UInt16
  fits : state.length = (pins descriptor).length

/-! ## The words -/

theorem toNat_maxTicks : maxTicks.toNat = 0x3fff := by decide

/-- What is packed is unpacked. -/
theorem unpack {ticks smState : UInt16} (hticks : ticks.toNat ≤ 0x3fff) (hstate : smState.toNat < 4) :
    ((ticks <<< stateShamt) ||| smState) >>> stateShamt = ticks ∧
      ((ticks <<< stateShamt) ||| smState) &&& stateMask = smState := by
  have hword : ((ticks <<< stateShamt) ||| smState).toNat = ticks.toNat * 4 + smState.toNat := by
    have hshift : (ticks <<< stateShamt).toNat = 2 ^ 2 * ticks.toNat := by
      rw [UInt16.toNat_shiftLeft]
      show ticks.toNat <<< 2 % 2 ^ 16 = _
      rw [Nat.shiftLeft_eq]
      omega
    rw [UInt16.toNat_or, hshift, ← Nat.two_pow_add_eq_or_of_lt hstate]
    omega
  constructor
  · rw [← UInt16.toNat_inj, UInt16.toNat_shiftRight, hword]
    show (ticks.toNat * 4 + smState.toNat) >>> 2 = _
    rw [Nat.shiftRight_eq_div_pow]
    omega
  · rw [← UInt16.toNat_inj, UInt16.toNat_and, hword]
    show (ticks.toNat * 4 + smState.toNat) &&& (2 ^ 2 - 1) = _
    rw [Nat.and_two_pow_sub_one_eq_mod]
    omega

/-- The ticks that are counted in `n` samples. -/
def capped (n : Nat) : Nat := min n 0x3fff

theorem countTicks_spec {state : UInt16} {n : Nat} (h : (state >>> stateShamt).toNat = capped n) :
    (countTicks state).toNat = capped (n + 1) := by
  unfold countTicks capped at *
  have hsucc : (state >>> stateShamt + buttonDebounceTicks).toNat = min n 0x3fff + 1 := by
    rw [UInt16.toNat_add, h]
    show (min n 0x3fff + 1) % 2 ^ 16 = _
    omega
  have hmask : ((state >>> stateShamt + buttonDebounceTicks) &&& maxTicks).toNat =
      (min n 0x3fff + 1) % 2 ^ 14 := by
    rw [UInt16.toNat_and, hsucc]
    exact Nat.and_two_pow_sub_one_eq_mod _ 14
  by_cases hlt : n < 0x3fff
  · have hgt : (state >>> stateShamt + buttonDebounceTicks) &&& maxTicks > state >>> stateShamt := by
      rw [gt_iff_lt, UInt16.lt_iff_toNat_lt, hmask, h]
      omega
    simp only [if_pos hgt]
    rw [hsucc]
    omega
  · have hle : ¬ (state >>> stateShamt + buttonDebounceTicks) &&& maxTicks >
        state >>> stateShamt := by
      rw [gt_iff_lt, UInt16.lt_iff_toNat_lt, hmask, h]
      omega
    simp only [if_neg hle]
    rw [toNat_maxTicks]
    omega

theorem countTicks_le (state : UInt16) : (countTicks state).toNat ≤ 0x3fff := by
  have hword : (state >>> stateShamt).toNat ≤ 0x3fff := by
    have hlt : state.toNat < 2 ^ 16 := state.toNat_lt
    rw [UInt16.toNat_shiftRight]
    show state.toNat >>> 2 ≤ _
    rw [Nat.shiftRight_eq_div_pow]
    omega
  have hcapped : (state >>> stateShamt).toNat = capped (state >>> stateShamt).toNat :=
    (Nat.min_eq_left hword).symm
  rw [countTicks_spec hcapped]
  exact Nat.min_le_right _ _

/-! ## One sample -/

/-- The state of the debouncing, for the level and the last sample. -/
def phase : Bool → Bool → UInt16
  | false, false => idle
  | false, true => debounceActive
  | true, true => active
  | true, false => debounceIdle

theorem phase_lt (high last : Bool) : (phase high last).toNat < 4 := by
  cases high <;> cases last <;> decide

/-- The calls at a sample: the button is held, or it is let go. -/
def callsFor (d : Descriptor) (bit : UInt8) (high last now : Bool) (ticks : UInt16) : List Call :=
  if last = true ∧ now = true then
    if d.pressed ∧ d.pressedTicks ≤ ticks then [.pressed bit false ticks] else []
  else if high = true ∧ last = false ∧ now = false then
    (if d.clicked ∧ d.clickTicks ≥ ticks then [.clicked bit] else []) ++
      if d.pressed ∧ d.pressedTicks ≤ ticks then [.pressed bit true ticks] else []
  else []

theorem switchState_spec (d : Descriptor) (bit : UInt8) (high last now : Bool) (ticks : UInt16) :
    ∃ ticks', switchState d bit now (phase high last) ticks =
        (phase (if last = now then now else high) now, ticks',
          callsFor d bit high last now ticks) ∧
      (ticks' = ticks ∨ ticks' = 0) ∧
      (now = true ∨ (high = true ∧ last = true) →
        ticks' = if high = true ∨ last = true then ticks else 0) := by
  cases high with
  | false =>
    cases last with
    | false =>
      cases now with
      | false => exact ⟨ticks, rfl, .inl rfl, fun h => by simp at h⟩
      | true => exact ⟨0, rfl, .inr rfl, fun _ => rfl⟩
    | true =>
      cases now with
      | false => exact ⟨0, rfl, .inr rfl, fun h => by simp at h⟩
      | true => exact ⟨ticks, rfl, .inl rfl, fun _ => rfl⟩
  | true =>
    cases last with
    | false =>
      cases now with
      | false => exact ⟨0, rfl, .inr rfl, fun h => by simp at h⟩
      | true => exact ⟨ticks, rfl, .inl rfl, fun _ => rfl⟩
    | true =>
      cases now with
      | false => exact ⟨ticks, rfl, .inl rfl, fun _ => rfl⟩
      | true => exact ⟨ticks, rfl, .inl rfl, fun _ => rfl⟩

/-! ## The samples of a pin -/

/-- The word of a pin before sample `n`. -/
def stateAt (d : Descriptor) (bit : UInt8) (f : Nat → Bool) : Nat → UInt16
  | 0 => 0
  | n + 1 => (iterateBit d bit (f n) (stateAt d bit f n)).1

/-- The calls at sample `n`. -/
def callsAt (d : Descriptor) (bit : UInt8) (f : Nat → Bool) (n : Nat) : List Call :=
  (iterateBit d bit (f n) (stateAt d bit f n)).2

variable {d : Descriptor} {bit : UInt8} {f : Nat → Bool}

theorem iterateBit_spec {state : UInt16} {high last : Bool} (now : Bool)
    (h : state &&& stateMask = phase high last) :
    (iterateBit d bit now state).1 &&& stateMask = phase (if last = now then now else high) now ∧
      (now = true ∨ (high = true ∧ last = true) → (iterateBit d bit now state).1 >>> stateShamt =
        if high = true ∨ last = true then countTicks state else 0) ∧
      (iterateBit d bit now state).2 = callsFor d bit high last now (countTicks state) := by
  obtain ⟨ticks, hswitch, hticks, hkept⟩ :=
    switchState_spec d bit high last now (countTicks state)
  have hle : ticks.toNat ≤ 0x3fff := by
    rcases hticks with rfl | rfl
    · exact countTicks_le state
    · exact Nat.zero_le _
  have hiterate : iterateBit d bit now state =
      ((ticks <<< stateShamt) ||| phase (if last = now then now else high) now,
        callsFor d bit high last now (countTicks state)) := by
    unfold iterateBit
    rw [h, hswitch]
  obtain ⟨hunpack, hstate⟩ :=
    unpack hle (phase_lt (if last = now then now else high) now)
  rw [hiterate]
  exact ⟨hstate, fun hon => hunpack.trans (hkept hon), rfl⟩

/-- **The word of a pin**: the debouncing is where the level and the last sample are, and the
ticks of a press count from its first sample. -/
theorem stateAt_spec (n : Nat) :
    stateAt d bit f (n + 1) &&& stateMask = phase (level f n) (f n) ∧
      (level f n = true ∨ f n = true →
        (stateAt d bit f (n + 1) >>> stateShamt).toNat = capped (n - onset f n)) := by
  induction n with
  | zero =>
    obtain ⟨hstate, hticks, -⟩ := @iterateBit_spec d bit 0 false false (f 0) rfl
    refine ⟨?_, fun hon => ?_⟩
    · rw [stateAt]
      refine hstate.trans ?_
      cases f 0 <;> rfl
    · have hfirst : f 0 = true := hon.resolve_left Bool.false_ne_true
      rw [stateAt]
      refine (congrArg UInt16.toNat (hticks (.inl hfirst))).trans rfl
  | succ n ih =>
    obtain ⟨hphase, hcount⟩ := ih
    obtain ⟨hstate, hticks, -⟩ := @iterateBit_spec d bit _ _ _ (f (n + 1)) hphase
    refine ⟨hstate, fun hon => ?_⟩
    have hwas : f (n + 1) = true ∨ (level f n = true ∧ f n = true) := by
      cases hnow : f (n + 1) with
      | true => exact .inl rfl
      | false =>
        -- a high level at a low sample: the sample is a single one
        have hhigh : level f (n + 1) = true := hon.resolve_right (by rw [hnow]; exact Bool.false_ne_true)
        have hchange : f n = true := by
          cases hn : f n with
          | true => rfl
          | false => cases hhigh.symm.trans (level_of_low hn hnow)
        have hsame : level f (n + 1) = level f n := by
          refine level_of_change ?_
          rw [hchange, hnow]
          exact Bool.false_ne_true.symm
        exact .inr ⟨hsame.symm.trans hhigh, hchange⟩
    refine (congrArg UInt16.toNat (hticks hwas)).trans ?_
    have hle := @onset_le f n
    by_cases hbegun : level f n = true ∨ f n = true
    · rw [if_pos hbegun, countTicks_spec (hcount hbegun), onset_succ hbegun]
      congr 1
      omega
    · rw [not_or, Bool.not_eq_true, Bool.not_eq_true] at hbegun
      rw [if_neg (by rw [hbegun.1, hbegun.2]; simp), onset_low hbegun.1 hbegun.2, Nat.sub_self]
      rfl

/-- Before anything has been sampled twice nothing is called. -/
theorem callsAt_zero : callsAt d bit f 0 = [] := by
  obtain ⟨-, -, hcalls⟩ := @iterateBit_spec d bit 0 false false (f 0) rfl
  exact hcalls

/-- The calls at a sample, with the ticks since the first sample of the press. -/
theorem callsAt_succ (n : Nat) : ∃ ticks : UInt16,
    callsAt d bit f (n + 1) = callsFor d bit (level f n) (f n) (f (n + 1)) ticks ∧
      (level f n = true ∨ f n = true → ticks.toNat = capped (n + 1 - onset f n)) := by
  obtain ⟨hphase, hcount⟩ := @stateAt_spec d bit f n
  obtain ⟨-, -, hcalls⟩ := @iterateBit_spec d bit _ _ _ (f (n + 1)) hphase
  refine ⟨_, hcalls, fun hbegun => ?_⟩
  have hle := @onset_le f n
  rw [countTicks_spec (hcount hbegun)]
  congr 1
  omega

/-! ## What the calls tell -/

def Call.isClicked : Call → Bool
  | clicked _ => true
  | pressed .. => false

def Call.isPressed : Call → Bool
  | pressed _ released _ => !released
  | clicked _ => false

def Call.isReleased : Call → Bool
  | pressed _ released _ => released
  | clicked _ => false

/-- The calls of a press. -/
def during (calls : Nat → List Call) (first last : Nat) : List Call :=
  (List.range' (first + 1) (last - first)).flatMap calls

/-- How the presses of a pin are told: no call but in a press, at its active samples or at its
end; clicked or released at its end, not both; released only after pressed, and once. -/
structure Classified (f : Nat → Bool) (calls : Nat → List Call) : Prop where
  quiet : ∀ n, calls n ≠ [] → (level f n = true ∧ f n = true) ∨ ∃ first, Pulse f first n
  atEnd : ∀ n, ∀ c ∈ calls n, c.isClicked = true ∨ c.isReleased = true → ∃ first, Pulse f first n
  exclusive : ∀ first last, Pulse f first last → ∀ c ∈ during calls first last,
    ∀ c' ∈ during calls first last, c.isClicked = true → c'.isReleased = false
  preceded : ∀ first last, Pulse f first last → ∀ c ∈ calls last, c.isReleased = true →
    ∃ n, first < n ∧ n < last ∧ ∃ c' ∈ calls n, c'.isPressed = true
  once : ∀ first last, Pulse f first last → ∀ c ∈ during calls first last, c.isPressed = true →
    ((during calls first last).filter Call.isReleased).length = 1

/-- Every press that lasts `pressed_ticks` ticks up to its end has two active samples after each
other, the second of them `pressed_ticks` ticks or more after the first sample. -/
def HeldLongEnough (d : Descriptor) (f : Nat → Bool) : Prop :=
  d.pressed = true → ∀ first last, Pulse f first last →
    d.pressedTicks.toNat ≤ capped (last - first) →
      ∃ n, first ≤ n ∧ n + 1 < last ∧ f n = true ∧ f (n + 1) = true ∧
        d.pressedTicks.toNat ≤ capped (n + 1 - first)

/-! ## The calls of a sample -/

section CallsFor

variable {high last now : Bool} {ticks : UInt16} {c : Call}

theorem callsFor_held (d : Descriptor) (bit : UInt8) (high : Bool) (ticks : UInt16) :
    callsFor d bit high true true ticks =
      if d.pressed ∧ d.pressedTicks ≤ ticks then [.pressed bit false ticks] else [] := rfl

theorem callsFor_ended (d : Descriptor) (bit : UInt8) (ticks : UInt16) :
    callsFor d bit true false false ticks =
      (if d.clicked ∧ d.clickTicks ≥ ticks then [.clicked bit] else []) ++
        if d.pressed ∧ d.pressedTicks ≤ ticks then [.pressed bit true ticks] else [] := rfl

/-- Something is called when the button is held or let go. -/
theorem held_or_ended (h : callsFor d bit high last now ticks ≠ []) :
    (last = true ∧ now = true) ∨ (high = true ∧ last = false ∧ now = false) := by
  unfold callsFor at h
  split at h
  · rename_i hheld
    exact .inl hheld
  · split at h
    · rename_i hended
      exact .inr hended
    · exact absurd rfl h

/-- A call while the button is held. -/
theorem mem_held (h : c ∈ callsFor d bit high true true ticks) :
    c = .pressed bit false ticks ∧ d.pressed = true ∧ d.pressedTicks ≤ ticks := by
  rw [callsFor_held] at h
  split at h
  · rename_i hpressed
    exact ⟨List.mem_singleton.mp h, hpressed⟩
  · cases h

/-- A call when it is let go. -/
theorem mem_ended (h : c ∈ callsFor d bit true false false ticks) :
    (c = .clicked bit ∧ d.clicked = true ∧ d.clickTicks ≥ ticks) ∨
      (c = .pressed bit true ticks ∧ d.pressed = true ∧ d.pressedTicks ≤ ticks) := by
  rw [callsFor_ended, List.mem_append] at h
  rcases h with h | h
  · split at h
    · rename_i hclicked
      exact .inl ⟨List.mem_singleton.mp h, hclicked⟩
    · cases h
  · split at h
    · rename_i hpressed
      exact .inr ⟨List.mem_singleton.mp h, hpressed⟩
    · cases h

/-- All calls are for the pin. -/
theorem button_of_mem (h : c ∈ callsFor d bit high last now ticks) : c.button = bit := by
  rcases held_or_ended (List.ne_nil_of_mem h) with ⟨rfl, rfl⟩ | ⟨rfl, rfl, rfl⟩
  · rw [(mem_held h).1]
    rfl
  · rcases mem_ended h with ⟨rfl, -⟩ | ⟨rfl, -⟩ <;> rfl

/-- Released is called once when the button is let go. -/
theorem filter_ended (hpressed : d.pressed = true) (hticks : d.pressedTicks ≤ ticks) :
    (callsFor d bit true false false ticks).filter Call.isReleased =
      [.pressed bit true ticks] := by
  rw [callsFor_ended, List.filter_append, @if_pos (_ ∧ _) _ ⟨hpressed, hticks⟩]
  by_cases hclicked : d.clicked = true ∧ d.clickTicks ≥ ticks
  · rw [if_pos hclicked]
    rfl
  · rw [if_neg hclicked]
    rfl

end CallsFor

/-! ## The calls of a press -/

section Press

variable {first last n : Nat} {c : Call}

/-- A call of a press at a sample that is not its last: the button is held. -/
theorem callsAt_held (h : Pulse f first last) (hn : first ≤ n) (hlt : n + 1 < last)
    (hc : c ∈ callsAt d bit f (n + 1)) : c.isPressed = true ∧ c.isReleased = false ∧
      c.isClicked = false ∧ f n = true ∧ f (n + 1) = true ∧ d.pressed = true ∧
        d.pressedTicks.toNat ≤ capped (n + 1 - first) := by
  obtain ⟨ticks, hcalls, hcount⟩ := @callsAt_succ d bit f n
  rw [hcalls] at hc
  have hhigh : level f (n + 1) = true := h.during (n + 1) (by omega) hlt
  rcases held_or_ended (List.ne_nil_of_mem hc) with ⟨hlast, hnow⟩ | ⟨-, hlast, hnow⟩
  · rw [hlast, hnow] at hc
    obtain ⟨rfl, hpressed, hticks⟩ := mem_held hc
    have hle := UInt16.le_iff_toNat_le.mp hticks
    rw [hcount (.inr hlast), h.onset_eq hn (by omega)] at hle
    exact ⟨rfl, rfl, rfl, hlast, hnow, hpressed, hle⟩
  · cases hhigh.symm.trans (level_of_low hlast hnow)

/-- The button is held long enough. -/
theorem exists_held (h : Pulse f first last) (hn : first ≤ n) (hlt : n + 1 < last)
    (hlast : f n = true) (hnow : f (n + 1) = true) (hpressed : d.pressed = true)
    (hticks : d.pressedTicks.toNat ≤ capped (n + 1 - first)) :
    ∃ c ∈ callsAt d bit f (n + 1), c.isPressed = true := by
  obtain ⟨ticks, hcalls, hcount⟩ := @callsAt_succ d bit f n
  have hle : d.pressedTicks ≤ ticks := by
    rw [UInt16.le_iff_toNat_le, hcount (.inr hlast), h.onset_eq hn (by omega)]
    exact hticks
  refine ⟨.pressed bit false ticks, ?_, rfl⟩
  rw [hcalls, hlast, hnow, callsFor_held, if_pos ⟨hpressed, hle⟩]
  exact List.mem_singleton_self _

/-- The calls at the last sample of a press. -/
theorem callsAt_last (h : Pulse f first last) : ∃ ticks : UInt16,
    callsAt d bit f last = callsFor d bit true false false ticks ∧
      ticks.toNat = capped (last - first) := by
  obtain ⟨n, rfl, hn, hlevel, hlow, hlast⟩ := h.ends
  obtain ⟨ticks, hcalls, hcount⟩ := @callsAt_succ d bit f n
  rw [hlevel, hlow, hlast] at hcalls
  refine ⟨ticks, hcalls, ?_⟩
  rw [hcount (.inl hlevel), h.onset_eq (by omega) (by omega)]

theorem mem_during {calls : Nat → List Call} (hfirst : first < last) :
    c ∈ during calls first last ↔ ∃ n, first ≤ n ∧ n + 1 ≤ last ∧ c ∈ calls (n + 1) := by
  unfold during
  simp only [List.mem_flatMap, List.mem_range'_1]
  constructor
  · rintro ⟨k, ⟨hge, hlt⟩, hc⟩
    obtain ⟨n, rfl⟩ := Nat.exists_eq_succ_of_ne_zero (by omega : k ≠ 0)
    exact ⟨n, by omega, by omega, hc⟩
  · rintro ⟨n, hn, hle, hc⟩
    exact ⟨n + 1, ⟨by omega, by omega⟩, hc⟩

theorem during_succ (calls : Nat → List Call) (hn : first ≤ n) :
    during calls first (n + 1) = during calls first n ++ calls (n + 1) := by
  unfold during
  rw [show n + 1 - first = n - first + 1 by omega, List.range'_concat, List.flatMap_append,
    List.flatMap_singleton, show first + 1 + 1 * (n - first) = n + 1 by omega]

/-- The calls at an end of a press come at its last sample. -/
theorem last_of_end (h : Pulse f first last) (hn : first ≤ n) (hle : n + 1 ≤ last)
    (hc : c ∈ callsAt d bit f (n + 1)) (hend : c.isClicked = true ∨ c.isReleased = true) :
    n + 1 = last := by
  by_contra hne
  obtain ⟨-, hreleased, hclicked, -⟩ := callsAt_held h hn (by omega) hc
  rcases hend with hend | hend
  · cases hclicked.symm.trans hend
  · cases hreleased.symm.trans hend

end Press

/-! ## One pin -/

/-- **The presses of one pin** are told as they should be exactly if those that are long enough
at their end are so while the button is held. -/
theorem classified_pin (d : Descriptor) (bit : UInt8) (f : Nat → Bool)
    (hticks : d.clickTicks < d.pressedTicks) :
    Classified f (callsAt d bit f) ↔ HeldLongEnough d f := by
  have hlt := UInt16.lt_iff_toNat_lt.mp hticks
  constructor
  · intro h hpressed first last hpulse hlong
    obtain ⟨ticks, hcalls, hcount⟩ := @callsAt_last d bit f _ _ hpulse
    have hle : d.pressedTicks ≤ ticks := by
      rw [UInt16.le_iff_toNat_le, hcount]
      exact hlong
    have hreleased : Call.pressed bit true ticks ∈ callsAt d bit f last := by
      rw [hcalls, callsFor_ended, @if_pos (d.pressed = true ∧ _) _ ⟨hpressed, hle⟩]
      exact List.mem_append_right _ (List.mem_singleton_self _)
    obtain ⟨k, hk, hklt, c, hc, -⟩ := h.preceded first last hpulse _ hreleased rfl
    obtain ⟨n, rfl⟩ := Nat.exists_eq_succ_of_ne_zero (by omega : k ≠ 0)
    obtain ⟨-, -, -, hn, hnow, -, hheld⟩ := callsAt_held hpulse (Nat.le_of_lt_succ hk) hklt hc
    exact ⟨n, Nat.le_of_lt_succ hk, hklt, hn, hnow, hheld⟩
  · intro hheld
    constructor
    case quiet =>
      intro n hcalls
      cases n with
      | zero => exact absurd callsAt_zero hcalls
      | succ n =>
        obtain ⟨ticks, heq, -⟩ := @callsAt_succ d bit f n
        rw [heq] at hcalls
        rcases held_or_ended hcalls with ⟨hlast, hnow⟩ | ⟨hhigh, hlast, hnow⟩
        · exact .inl ⟨level_of_high hlast hnow, hnow⟩
        · exact .inr ⟨_, pulse_of_fall hhigh (level_of_low hlast hnow)⟩
    case atEnd =>
      intro n c hc hend
      cases n with
      | zero =>
        rw [callsAt_zero] at hc
        cases hc
      | succ n =>
        obtain ⟨ticks, heq, -⟩ := @callsAt_succ d bit f n
        rw [heq] at hc
        rcases held_or_ended (List.ne_nil_of_mem hc) with ⟨hlast, hnow⟩ | ⟨hhigh, hlast, hnow⟩
        · rw [hlast, hnow] at hc
          rw [(mem_held hc).1] at hend
          exact absurd hend (by simp [Call.isClicked, Call.isReleased])
        · exact ⟨_, pulse_of_fall hhigh (level_of_low hlast hnow)⟩
    case exclusive =>
      intro first last hpulse c hc c' hc' hclicked
      have hfirst : first < last := Nat.lt_of_succ_lt hpulse.long
      obtain ⟨n, hn, hle, hc⟩ := (mem_during hfirst).mp hc
      obtain ⟨n', hn', hle', hc'⟩ := (mem_during hfirst).mp hc'
      cases hreleased : c'.isReleased with
      | false => rfl
      | true =>
        -- both come at the last sample, at one count of ticks
        rw [last_of_end hpulse hn hle hc (.inl hclicked)] at hc
        rw [last_of_end hpulse hn' hle' hc' (.inr hreleased)] at hc'
        obtain ⟨ticks, hcalls, -⟩ := @callsAt_last d bit f _ _ hpulse
        rw [hcalls] at hc hc'
        have hclick : d.clickTicks ≥ ticks := by
          rcases mem_ended hc with ⟨-, -, hclick⟩ | ⟨rfl, -⟩
          · exact hclick
          · cases hclicked
        have hpress : d.pressedTicks ≤ ticks := by
          rcases mem_ended hc' with ⟨rfl, -⟩ | ⟨-, -, hpress⟩
          · cases hreleased
          · exact hpress
        have h1 := UInt16.le_iff_toNat_le.mp hclick
        have h2 := UInt16.le_iff_toNat_le.mp hpress
        omega
    case preceded =>
      intro first last hpulse c hc hreleased
      obtain ⟨ticks, hcalls, hcount⟩ := @callsAt_last d bit f _ _ hpulse
      rw [hcalls] at hc
      rcases mem_ended hc with ⟨rfl, -⟩ | ⟨-, hpressed, hle⟩
      · cases hreleased
      · have hlong := UInt16.le_iff_toNat_le.mp hle
        rw [hcount] at hlong
        obtain ⟨n, hn, hnlt, hlast, hnow, hticks'⟩ := hheld hpressed first last hpulse hlong
        exact ⟨n + 1, Nat.lt_succ_of_le hn, hnlt,
          exists_held hpulse hn hnlt hlast hnow hpressed hticks'⟩
    case once =>
      intro first last hpulse c hc hc'
      have hfirst : first < last := Nat.lt_of_succ_lt hpulse.long
      obtain ⟨n, hn, hle, hcall⟩ := (mem_during hfirst).mp hc
      obtain ⟨m, rfl, hm, -⟩ := hpulse.ends
      obtain ⟨ticks, hcalls, hcount⟩ := @callsAt_last d bit f _ _ hpulse
      have hnlt : n + 1 < m + 1 := by
        by_contra hge
        rw [show n + 1 = m + 1 by omega, hcalls] at hcall
        rcases mem_ended hcall with ⟨rfl, -⟩ | ⟨rfl, -⟩
        · cases hc'
        · cases hc'
      obtain ⟨-, -, -, -, -, hpressed, hticks'⟩ := callsAt_held hpulse hn hnlt hcall
      have hpress : d.pressedTicks ≤ ticks := by
        rw [UInt16.le_iff_toNat_le, hcount]
        refine hticks'.trans ?_
        unfold capped
        omega
      -- nothing is released before the last sample
      have hbefore : (during (callsAt d bit f) first m).filter Call.isReleased = [] := by
        refine List.filter_eq_nil_iff.mpr fun c' hmem => ?_
        obtain ⟨k, hk, hkle, hmem⟩ := (mem_during hm).mp hmem
        rw [(callsAt_held hpulse hk (by omega) hmem).2.1]
        exact Bool.false_ne_true
      rw [during_succ _ (by omega), List.filter_append, hbefore, hcalls,
        filter_ended hpressed hpress]
      rfl

/-! ## All buttons -/

theorem length_iterateBits (d : Descriptor) (port : UInt8) (bs : List UInt8)
    (states : List UInt16) (h : states.length = (bs.filter d.masks).length) :
    (iterateBits d port bs states).1.length = (bs.filter d.masks).length := by
  induction bs generalizing states with
  | nil => exact h
  | cons bit bs ih =>
    rw [iterateBits]
    by_cases hbit : d.masks bit = true
    · rw [List.filter_cons_of_pos hbit] at h ⊢
      obtain ⟨state, states, rfl⟩ := List.exists_cons_of_length_eq_add_one h
      rw [if_pos hbit]
      exact congrArg Nat.succ (ih states (Nat.succ.inj h))
    · rw [List.filter_cons_of_neg hbit] at h ⊢
      rw [if_neg hbit]
      exact ih states h

/-- One turn of the outer loop. -/
def Button.iterate (port : UInt8) (b : Button) : Button × List Call :=
  (⟨b.descriptor, (iterateBits b.descriptor port bits b.state).1,
    length_iterateBits b.descriptor port bits b.state b.fits⟩,
    (iterateBits b.descriptor port bits b.state).2)

/-- `button_iterate_once`, with what the ports read; the calls of each button. -/
def buttonIterateOnce (sample : Nat → UInt8) (chain : List Button) :
    List Button × List (List Call) :=
  (chain.map fun b => (b.iterate (sample b.descriptor.port)).1,
    chain.map fun b => (b.iterate (sample b.descriptor.port)).2)

theorem length_fresh (d : Descriptor) :
    (List.replicate (pins d).length (0 : UInt16)).length = (pins d).length :=
  List.length_replicate

/-- `BUTTON_REGISTER`, with as many words as there are pins. -/
def buttonRegister (d : Descriptor) : Button :=
  ⟨d, List.replicate (pins d).length 0, length_fresh d⟩

/-- The chain before sample `n`. -/
def chainAt (ds : List Descriptor) (samples : Nat → Nat → UInt8) : Nat → List Button
  | 0 => ds.map buttonRegister
  | n + 1 => (buttonIterateOnce (samples n) (chainAt ds samples n)).1

/-- The calls of button `i` for one of its pins at sample `n`. -/
def chainCalls (ds : List Descriptor) (samples : Nat → Nat → UInt8) (i : Nat) (bit : UInt8)
    (n : Nat) : List Call :=
  (((buttonIterateOnce (samples n) (chainAt ds samples n)).2[i]?).getD []).filter
    fun c => c.button = bit

/-- What a pin reads. -/
def pinSamples (d : Descriptor) (samples : Nat → Nat → UInt8) (bit : UInt8) (n : Nat) : Bool :=
  isActive d (samples n d.port) bit

/-- The inner loop takes the pins one by one. -/
theorem iterateBits_map (d : Descriptor) (port : UInt8) (bs : List UInt8) (word : UInt8 → UInt16) :
    iterateBits d port bs ((bs.filter d.masks).map word) =
      ((bs.filter d.masks).map fun bit => (iterateBit d bit (isActive d port bit) (word bit)).1,
        (bs.filter d.masks).flatMap fun bit =>
          (iterateBit d bit (isActive d port bit) (word bit)).2) := by
  induction bs with
  | nil => rfl
  | cons bit bs ih =>
    rw [iterateBits]
    by_cases hbit : d.masks bit = true
    · rw [List.filter_cons_of_pos hbit, List.map_cons, if_pos hbit]
      simp only [List.headD_cons, List.tail_cons, ih, List.map_cons, List.flatMap_cons]
    · rw [List.filter_cons_of_neg hbit, if_neg hbit]
      exact ih

/-- A button whose words are those of its pins. -/
theorem Button.iterate_eq (b : Button) (port : UInt8) (word : UInt8 → UInt16)
    (h : b.state = (pins b.descriptor).map word) :
    (b.iterate port).1.descriptor = b.descriptor ∧
      (b.iterate port).1.state = (pins b.descriptor).map (fun bit =>
        (iterateBit b.descriptor bit (isActive b.descriptor port bit) (word bit)).1) ∧
      (b.iterate port).2 = (pins b.descriptor).flatMap (fun bit =>
        (iterateBit b.descriptor bit (isActive b.descriptor port bit) (word bit)).2) := by
  have hmap := iterateBits_map b.descriptor port bits word
  refine ⟨rfl, ?_, ?_⟩
  · show (iterateBits b.descriptor port bits b.state).1 = _
    rw [h]
    exact congrArg Prod.fst hmap
  · show (iterateBits b.descriptor port bits b.state).2 = _
    rw [h]
    exact congrArg Prod.snd hmap

/-- Every button of the chain is where its pins are. -/
theorem chainAt_spec (ds : List Descriptor) (samples : Nat → Nat → UInt8) (n : Nat) {i : Nat}
    {d : Descriptor} (hd : ds[i]? = some d) : ∃ b, (chainAt ds samples n)[i]? = some b ∧
      b.descriptor = d ∧
      b.state = (pins d).map fun bit => stateAt d bit (pinSamples d samples bit) n := by
  induction n with
  | zero =>
    refine ⟨buttonRegister d, ?_, rfl, ?_⟩
    · rw [chainAt, List.getElem?_map, hd]
      rfl
    · show List.replicate (pins d).length 0 = (pins d).map fun _ => 0
      rw [List.map_const']
  | succ n ih =>
    obtain ⟨b, hb, rfl, hstate⟩ := ih
    obtain ⟨hdescriptor, hnext, -⟩ := b.iterate_eq (samples n b.descriptor.port) _ hstate
    refine ⟨(b.iterate (samples n b.descriptor.port)).1, ?_, hdescriptor, hnext⟩
    rw [chainAt, buttonIterateOnce, List.getElem?_map, hb]
    rfl

theorem button_of_callsAt {n : Nat} {c : Call} (h : c ∈ callsAt d bit f n) : c.button = bit := by
  cases n with
  | zero =>
    rw [callsAt_zero] at h
    cases h
  | succ n =>
    obtain ⟨ticks, hcalls, -⟩ := @callsAt_succ d bit f n
    rw [hcalls] at h
    exact button_of_mem h

/-- A list that is made from one of the members. -/
theorem flatMap_single {α β : Type} [DecidableEq α] {xs : List α} {x : α} (hx : x ∈ xs)
    (hnodup : xs.Nodup) (g : α → List β) :
    xs.flatMap (fun y => if y = x then g y else []) = g x := by
  induction xs with
  | nil => cases hx
  | cons y ys ih =>
    obtain ⟨hnot, hnodup⟩ := List.nodup_cons.mp hnodup
    rw [List.flatMap_cons]
    by_cases hy : y = x
    · subst hy
      have hrest : ys.flatMap (fun z => if z = y then g z else []) = [] := by
        refine List.flatMap_eq_nil_iff.mpr fun z hz => if_neg ?_
        rintro rfl
        exact hnot hz
      rw [if_pos rfl, hrest, List.append_nil]
    · rw [if_neg hy, List.nil_append]
      exact ih ((List.mem_cons.mp hx).resolve_left (Ne.symm hy)) hnodup

/-- The calls for a pin are those of its own samples: pins and buttons do not disturb each
other. -/
theorem chainCalls_eq (ds : List Descriptor) (samples : Nat → Nat → UInt8) {i : Nat}
    {d : Descriptor} (hd : ds[i]? = some d) {bit : UInt8} (hbit : bit ∈ pins d) (n : Nat) :
    chainCalls ds samples i bit n = callsAt d bit (pinSamples d samples bit) n := by
  obtain ⟨b, hb, rfl, hstate⟩ := chainAt_spec ds samples n hd
  obtain ⟨-, -, hcalls⟩ := b.iterate_eq (samples n b.descriptor.port) _ hstate
  have hchain : (((buttonIterateOnce (samples n) (chainAt ds samples n)).2[i]?).getD []) =
      (pins b.descriptor).flatMap fun bit =>
        callsAt b.descriptor bit (pinSamples b.descriptor samples bit) n := by
    rw [buttonIterateOnce, List.getElem?_map, hb]
    exact hcalls
  have hown : ∀ pin, (callsAt b.descriptor pin (pinSamples b.descriptor samples pin) n).filter
      (fun c => c.button = bit) = if pin = bit then
        callsAt b.descriptor pin (pinSamples b.descriptor samples pin) n else [] := by
    intro pin
    by_cases hpin : pin = bit
    · rw [if_pos hpin]
      refine List.filter_eq_self.mpr fun c hc => decide_eq_true ?_
      exact (button_of_callsAt hc).trans hpin
    · rw [if_neg hpin]
      refine List.filter_eq_nil_iff.mpr fun c hc => ?_
      rw [button_of_callsAt hc, decide_eq_false hpin]
      exact Bool.false_ne_true
  have hnodup : (pins b.descriptor).Nodup := List.Nodup.filter _ (by decide)
  rw [chainCalls, hchain, List.filter_flatMap]
  simp only [hown]
  exact flatMap_single hbit hnodup _

/-- **Every button**: for each pin of each registered button, whatever its samples are, the
presses are told as they should be exactly if those that are long enough at their end are so
while the button is held. -/
theorem classified_iff (ds : List Descriptor) (samples : Nat → Nat → UInt8) {i : Nat}
    {d : Descriptor} (hd : ds[i]? = some d) (hticks : d.clickTicks < d.pressedTicks) {bit : UInt8}
    (hbit : bit ∈ pins d) :
    Classified (pinSamples d samples bit) (chainCalls ds samples i bit) ↔
      HeldLongEnough d (pinSamples d samples bit) := by
  have hcalls : chainCalls ds samples i bit = callsAt d bit (pinSamples d samples bit) :=
    funext (chainCalls_eq ds samples hd hbit)
  rw [hcalls]
  exact classified_pin d bit _ hticks

/-- The button of the socket, with 125 ticks a second. -/
def buttonsSystem : Descriptor where
  port := 0
  mask := 0x20
  activeLevel := false
  clickTicks := 250
  pressedTicks := 251
  clicked := true
  pressed := true

/-- A button that is pressed for three samples. -/
def shortPress (n _port : Nat) : UInt8 := if n < 3 then 0 else 0x20

/-- The socket's button is clicked. -/
theorem shortPress_classified : Classified (pinSamples buttonsSystem shortPress 0x20)
    (chainCalls [buttonsSystem] shortPress 0 0x20) := by
  refine (classified_iff [buttonsSystem] shortPress rfl (by decide) (by decide)).mpr ?_
  intro _ first last hpulse hlong
  have hfirst : first < 3 := by
    by_contra hge
    have hidle : pinSamples buttonsSystem shortPress 0x20 first = false := by
      unfold pinSamples shortPress
      rw [if_neg hge]
      decide
    cases hidle.symm.trans hpulse.begins.1
  -- at sample 4 the button has been idle twice
  have hlast : last ≤ 4 := by
    by_contra hgt
    cases hpulse.during 4 (by omega) (by omega)
  have hticks : 251 ≤ last - first := Nat.le_trans hlong (Nat.min_le_left _ _)
  omega

/-- A button that reports a press after three ticks. -/
def threeTicks : Descriptor := { buttonsSystem with clickTicks := 2, pressedTicks := 3 }

/-- It is pressed for as long. -/
theorem pulse_shortPress : Pulse (pinSamples threeTicks shortPress 0x20) 0 4 where
  before := rfl
  during n hn hlt := by
    obtain rfl | rfl | rfl : n = 1 ∨ n = 2 ∨ n = 3 := by omega
    · rfl
    · rfl
    · rfl
  after := rfl
  long := by omega

/-- Released is called at the second idle sample, when four ticks have passed, and pressed at no
active one, as the last of these comes after two ticks. -/
theorem shortPress_not_classified : ¬ Classified (pinSamples threeTicks shortPress 0x20)
    (chainCalls [threeTicks] shortPress 0 0x20) := by
  intro h
  have hcalls : chainCalls [threeTicks] shortPress 0 0x20 =
      callsAt threeTicks 0x20 (pinSamples threeTicks shortPress 0x20) :=
    funext (chainCalls_eq [threeTicks] shortPress rfl (by decide))
  rw [hcalls, classified_pin _ _ _ (by decide)] at h
  obtain ⟨n, -, hn, -, hnow, hticks⟩ := h rfl 0 4 pulse_shortPress (by decide)
  have hlong : 3 ≤ capped (n + 1) := hticks
  unfold capped at hlong
  obtain rfl : n = 2 := by omega
  cases hnow

end Hexabus.Firmware.Buttons
