import Hexabus.Lib.Bytes
import Hexabus.Lib.Runs

/-!
# The infrared receiver

`ir_receiver.c`. Timer 0 counts the time since the last interrupt, and the interrupt of the
receiver's pin takes a code apart edge by edge. The pin's interrupt is set to one direction of
edges; an edge in the other direction passes unseen. The pin rests at the high level.
-/

namespace Hexabus.Firmware.IrReceiver

open Lib.Bytes Lib.Runs

/-! ## The source -/

/-- `ISC21` and `ISC20`: which edges of the pin interrupt. -/
inductive Sense
  | falling | rising
  deriving DecidableEq, Repr

/-- An edge to this level interrupts. -/
def Sense.sees : Sense → Bool → Bool
  | falling, line => !line
  | rising, line => line

def irIdleState : UInt8 := 0
def irStartState : UInt8 := 1
def irDataState : UInt8 := 2

def irEdgeDown : UInt8 := 0
def irEdgeUp : UInt8 := 1

/-- The pin, its interrupt and the static variables, with the number of polls and whether
`ir_data` was written behind its end, recorded for the theorems. -/
structure Receiver where
  line : Bool
  sense : Sense
  irTime : UInt32
  irTimeSinceLast : UInt32
  irData : List UInt8
  irPrevData : List UInt8
  irState : UInt8
  irEdgeDir : UInt8
  irRepeat : UInt8
  irBit : UInt8
  irByte : UInt8
  irLastData : List UInt8
  polls : Nat
  outside : Bool
  deriving DecidableEq, Repr

/-- `ir_receiver_init`, at some level of the pin. -/
def irReceiverInit (line : Bool) : Receiver where
  line := line
  sense := .falling
  irTime := 0
  irTimeSinceLast := 0
  irData := [0, 0, 0, 0]
  irPrevData := [0, 0, 0, 0]
  irState := irIdleState
  irEdgeDir := irEdgeDown
  irRepeat := 0
  irBit := 0
  irByte := 0
  irLastData := [0, 0, 0, 0]
  polls := 0
  outside := false

/-- The interrupt is set to falling edges. -/
def awaitDown (s : Receiver) : Receiver := { s with sense := .falling, irEdgeDir := irEdgeDown }

/-- The interrupt is set to rising edges. -/
def awaitUp (s : Receiver) : Receiver := { s with sense := .rising, irEdgeDir := irEdgeUp }

/-- `ir_receiver_reset`. -/
def irReceiverReset (s : Receiver) : Receiver :=
  awaitDown { s with irData := [0, 0, 0, 0], irState := irIdleState }

/-- `process_poll(&ir_receiver_process)`. -/
def processPoll (s : Receiver) : Receiver := { s with polls := s.polls + 1 }

/-- `(ir_time_since_last > low) && (ir_time_since_last < high)`. -/
def within (low high : UInt32) (s : Receiver) : Bool :=
  low < s.irTimeSinceLast && s.irTimeSinceLast < high

/-- `ir_data[ir_byte] |= (1<<ir_bit)`. -/
def setDataBit (s : Receiver) : Receiver :=
  { s with
    irData := s.irData.modify s.irByte.toNat (· ||| UInt8.ofNat (2 ^ s.irBit.toNat))
    outside := s.outside || decide (4 ≤ s.irByte.toNat) }

/-- `ir_bit++`, and the next byte behind the last bit. -/
def countBit (s : Receiver) : Receiver :=
  let s := { s with irBit := s.irBit + 1 }
  if s.irBit > 7 then { s with irBit := 0, irByte := s.irByte + 1 } else s

/-- The test for the AGC burst, which is Samsung's if `IR_SAMSUNG`. -/
def isBurst (samsung : Bool) (s : Receiver) : Bool :=
  if samsung then within 40 47 s else within 85 95 s

/-- Waiting for the AGC burst. -/
def isrIdle (samsung : Bool) (s : Receiver) : Receiver :=
  if s.irEdgeDir = 0 then awaitUp s
  else if isBurst samsung s then
    awaitDown { s with irState := irStartState }
  else irReceiverReset s

/-- Waiting for the AGC gap. -/
def isrStart (s : Receiver) : Receiver :=
  if within 40 47 s then awaitUp { s with irState := irDataState, irBit := 0, irByte := 0 }
  else if within 20 25 s then irReceiverReset (processPoll { s with irRepeat := 1 })
  else irReceiverReset s

/-- Waiting for bits. -/
def isrData (s : Receiver) : Receiver :=
  if s.irEdgeDir ≠ 0 then
    if s.irByte > 3 then irReceiverReset (processPoll { s with irLastData := s.irData })
    else if within 1 7 s then awaitDown s
    else irReceiverReset s
  else if within 1 7 s then awaitUp (countBit s)
  else if within 14 19 s then awaitUp (countBit (setDataBit s))
  else irReceiverReset s

/-- `ISR(INT2_vect)`. -/
def isr (samsung : Bool) (s : Receiver) : Receiver :=
  let s := { s with irTimeSinceLast := s.irTime, irTime := 0 }
  if s.irState = irIdleState then isrIdle samsung s
  else if s.irState = irStartState then isrStart s
  else if s.irState = irDataState then isrData s
  else s

/-- `ir_receiver_process` on a poll; `resend` is `timer_expired(..) || to_be_repeated()`. -/
def thread (resend : Bool) (s : Receiver) : Receiver :=
  if s.irRepeat ≠ 0 then { s with irRepeat := 0 }
  else if s.irPrevData ≠ s.irLastData ∨ resend then { s with irPrevData := s.irLastData }
  else s

/-- The pin changes its level after the timer has interrupted `ticks` times, or the process is
polled. -/
inductive Step
  | edge (ticks : Nat)
  | thread (resend : Bool)

def step (samsung : Bool) : Step → Receiver → Receiver
  | .edge ticks, s =>
    let s := { s with irTime := s.irTime + UInt32.ofNat ticks, line := !s.line }
    if s.sense.sees s.line then isr samsung s else s
  | .thread resend, s => IrReceiver.thread resend s

/-! ## Safety -/

/-- What holds of the variables at any time. -/
structure Core (s : Receiver) : Prop where
  state : s.irState = irIdleState ∨ s.irState = irStartState ∨ s.irState = irDataState
  clear : s.irState ≠ irDataState → s.irData = [0, 0, 0, 0]
  length : s.irData.length = 4
  bit : s.irBit.toNat < 8
  byte : s.irByte.toNat ≤ 4
  inside : s.outside = false

/-- What holds of the receiver between two edges: it waits for an edge that can come, and for a
falling one only while there is a byte to write. -/
structure Sound (s : Receiver) : Prop extends Core s where
  dir : (s.irEdgeDir = irEdgeDown ∧ s.sense = .falling) ∨
    (s.irEdgeDir = irEdgeUp ∧ s.sense = .rising ∧ s.line = false)
  start : s.irState = irStartState → s.irEdgeDir = irEdgeDown
  data : s.irState = irDataState → s.irEdgeDir = irEdgeDown → s.irByte.toNat < 4

/-- The number of bits that have come. -/
def place (s : Receiver) : Nat := 8 * s.irByte.toNat + s.irBit.toNat

/-- Counting a bit moves the place by one. -/
theorem countBit_spec {s : Receiver} (hbit : s.irBit.toNat < 8) (hbyte : s.irByte.toNat < 4) :
    ∃ bit byte, countBit s = { s with irBit := bit, irByte := byte } ∧ bit.toNat < 8 ∧
      8 * byte.toNat + bit.toNat = place s + 1 := by
  have hsucc : (s.irBit + 1).toNat = s.irBit.toNat + 1 := by
    rw [UInt8.toNat_add]
    show (s.irBit.toNat + 1) % 256 = _
    omega
  unfold countBit place
  by_cases hlast : s.irBit + 1 > 7
  · have hnat : 7 < (s.irBit + 1).toNat := UInt8.lt_iff_toNat_lt.mp hlast
    have hnext : (s.irByte + 1).toNat = s.irByte.toNat + 1 := by
      rw [UInt8.toNat_add]
      show (s.irByte.toNat + 1) % 256 = _
      omega
    refine ⟨0, s.irByte + 1, if_pos hlast, by decide, ?_⟩
    show 8 * (s.irByte + 1).toNat + 0 = _
    omega
  · have hnat : ¬ 7 < (s.irBit + 1).toNat := fun h => hlast (UInt8.lt_iff_toNat_lt.mpr h)
    exact ⟨s.irBit + 1, s.irByte, if_neg hlast, by omega, by omega⟩

theorem sound_init (line : Bool) : Sound (irReceiverInit line) where
  state := .inl rfl
  clear _ := rfl
  length := rfl
  bit := by show (0 : UInt8).toNat < 8; decide
  byte := by show (0 : UInt8).toNat ≤ 4; decide
  inside := rfl
  dir := .inl ⟨rfl, rfl⟩
  start _ := rfl
  data hstate := by cases hstate

section Step

variable {s : Receiver}

theorem Core.reset (h : Core s) : Sound (irReceiverReset s) where
  state := .inl rfl
  clear _ := rfl
  length := rfl
  bit := h.bit
  byte := h.byte
  inside := h.inside
  dir := .inl ⟨rfl, rfl⟩
  start _ := rfl
  data hstate := by cases hstate

/-- One bit more, in a receiver that may write. -/
theorem Core.countBit (h : Core s) (hstate : s.irState = irDataState) (hline : s.line = false)
    (hbyte : s.irByte.toNat < 4) : Sound (awaitUp (countBit s)) := by
  obtain ⟨bit, byte, hcount, hbit, hplace⟩ := countBit_spec h.bit hbyte
  have hlast := h.bit
  unfold place at hplace
  rw [hcount]
  exact {
    state := h.state
    clear := h.clear
    length := h.length
    bit := hbit
    byte := by show byte.toNat ≤ 4; omega
    inside := h.inside
    dir := .inr ⟨rfl, rfl, hline⟩
    start := fun hstart => by cases hstate.symm.trans hstart
    data := fun _ hdown => by cases hdown }

theorem Core.setDataBit (h : Core s) (hstate : s.irState = irDataState)
    (hbyte : s.irByte.toNat < 4) : Core (setDataBit s) where
  state := h.state
  clear hdata := absurd hstate hdata
  length := (List.length_modify ..).trans h.length
  bit := h.bit
  byte := h.byte
  inside := by
    show (s.outside || decide (4 ≤ s.irByte.toNat)) = false
    rw [h.inside, decide_eq_false (by omega)]
    rfl

/-- An interrupt at a falling edge. -/
theorem Core.isr_down (h : Core s) (samsung : Bool) (hdir : s.irEdgeDir = irEdgeDown)
    (hline : s.line = false) (hdata : s.irState = irDataState → s.irByte.toNat < 4) :
    Sound (isr samsung s) := by
  let s₁ : Receiver := { s with irTimeSinceLast := s.irTime, irTime := 0 }
  have h₁ : Core s₁ := ⟨h.state, h.clear, h.length, h.bit, h.byte, h.inside⟩
  rcases h.state with hstate | hstate | hstate
  · have hisr : isr samsung s = awaitUp s₁ := by
      rw [isr, if_pos hstate]
      exact if_pos hdir
    rw [hisr]
    exact { h₁ with
      dir := .inr ⟨rfl, rfl, hline⟩
      start := fun hstart => by cases hstate.symm.trans hstart
      data := fun _ hdown => by cases hdown }
  · have hisr : isr samsung s = isrStart s₁ := by
      rw [isr, if_neg (by rw [hstate]; decide), if_pos hstate]
    rw [hisr, isrStart]
    split
    · exact {
        state := .inr (.inr rfl)
        clear := fun hclear => absurd rfl hclear
        length := h.length
        bit := by show (0 : UInt8).toNat < 8; decide
        byte := by show (0 : UInt8).toNat ≤ 4; decide
        inside := h.inside
        dir := .inr ⟨rfl, rfl, hline⟩
        start := fun hstart => by cases hstart
        data := fun _ hdown => by cases hdown }
    · split
      · exact Core.reset ⟨h₁.state, h₁.clear, h₁.length, h₁.bit, h₁.byte, h₁.inside⟩
      · exact h₁.reset
  · have hisr : isr samsung s = isrData s₁ := by
      rw [isr, if_neg (by rw [hstate]; decide), if_neg (by rw [hstate]; decide), if_pos hstate]
    rw [hisr, isrData, if_neg (fun hup => hup hdir)]
    split
    · exact h₁.countBit hstate hline (hdata hstate)
    · split
      · exact (h₁.setDataBit hstate (hdata hstate)).countBit hstate hline (hdata hstate)
      · exact h₁.reset

/-- An interrupt at a rising edge. -/
theorem Core.isr_up (h : Core s) (samsung : Bool) (hdir : s.irEdgeDir = irEdgeUp)
    (hstart : s.irState ≠ irStartState) : Sound (isr samsung s) := by
  let s₁ : Receiver := { s with irTimeSinceLast := s.irTime, irTime := 0 }
  have h₁ : Core s₁ := ⟨h.state, h.clear, h.length, h.bit, h.byte, h.inside⟩
  rcases h.state with hstate | hstate | hstate
  · have hisr : isr samsung s = isrIdle samsung s₁ := by rw [isr, if_pos hstate]
    rw [hisr, isrIdle, if_neg (by rw [show s₁.irEdgeDir = 1 from hdir]; decide)]
    have hzero : s.irData = [0, 0, 0, 0] := h.clear (by rw [hstate]; decide)
    split
    · exact {
        state := .inr (.inl rfl)
        clear := fun _ => hzero
        length := h.length
        bit := h.bit
        byte := h.byte
        inside := h.inside
        dir := .inl ⟨rfl, rfl⟩
        start := fun _ => rfl
        data := fun hdata => by cases hdata }
    · exact h₁.reset
  · exact absurd hstate hstart
  · have hisr : isr samsung s = isrData s₁ := by
      rw [isr, if_neg (by rw [hstate]; decide), if_neg (by rw [hstate]; decide), if_pos hstate]
    rw [hisr, isrData, if_pos (by rw [show s₁.irEdgeDir = 1 from hdir]; decide)]
    split
    · exact Core.reset ⟨h₁.state, h₁.clear, h₁.length, h₁.bit, h₁.byte, h₁.inside⟩
    · rename_i hbyte
      have hlt : ¬ 3 < s.irByte.toNat := fun hlt => hbyte (UInt8.lt_iff_toNat_lt.mpr hlt)
      split
      · exact { h₁ with
          dir := .inl ⟨rfl, rfl⟩
          start := fun hstart' => by cases hstate.symm.trans hstart'
          data := fun _ _ => by show s.irByte.toNat < 4; omega }
      · exact h₁.reset

theorem Sound.edge (h : Sound s) (samsung : Bool) (ticks : Nat) :
    Sound (step samsung (.edge ticks) s) := by
  let s₁ : Receiver := { s with irTime := s.irTime + UInt32.ofNat ticks, line := !s.line }
  have h₁ : Core s₁ := ⟨h.state, h.clear, h.length, h.bit, h.byte, h.inside⟩
  show Sound (if s₁.sense.sees s₁.line then isr samsung s₁ else s₁)
  rcases h.dir with ⟨hdir, hsense⟩ | ⟨hdir, hsense, hline⟩
  · have hsees : s₁.sense.sees s₁.line = !s₁.line := by
      rw [show s₁.sense = .falling from hsense]
      rfl
    rw [hsees]
    cases hline : s₁.line with
    | false => exact h₁.isr_down samsung hdir hline fun hstate => h.data hstate hdir
    | true => exact { h₁ with dir := .inl ⟨hdir, hsense⟩, start := h.start, data := h.data }
  · have hsees : s₁.sense.sees s₁.line = true := by
      rw [show s₁.sense = .rising from hsense]
      show (!s.line) = true
      rw [hline]
      rfl
    rw [if_pos hsees]
    refine h₁.isr_up samsung hdir fun hstart => ?_
    cases hdir.symm.trans (h.start hstart)

theorem Sound.thread (h : Sound s) (resend : Bool) : Sound (thread resend s) := by
  unfold IrReceiver.thread
  split
  · exact ⟨⟨h.state, h.clear, h.length, h.bit, h.byte, h.inside⟩, h.dir, h.start, h.data⟩
  · split
    · exact ⟨⟨h.state, h.clear, h.length, h.bit, h.byte, h.inside⟩, h.dir, h.start, h.data⟩
    · exact h

end Step

/-- **Every run**: the receiver is in one of its states and has written inside `ir_data` only. -/
theorem sound_run (samsung line : Bool) (steps : List Step) :
    Sound (run (step samsung) (irReceiverInit line) steps) := by
  refine run_invariant (fun s a h _ => ?_) (sound_init line) (meets_true _ steps)
  cases a with
  | edge ticks => exact h.edge samsung ticks
  | thread resend => exact h.thread resend

/-! ## A transmission -/

/-- The half microseconds between two interrupts of the timer: a clock of 8 MHz divided by 8,
and a compare value of 100. -/
def timerPeriod : Nat := 2 * (100 + 1)

/-- How often the timer interrupts in that many half microseconds. -/
def ticks (time : Nat) : Nat := time / timerPeriod

/-- 4.5 ms with Samsung's remotes, 9 ms otherwise. -/
def burstTicks (samsung : Bool) : Nat := ticks (if samsung then 9000 else 18000)

/-- 4.5 ms. -/
def gapTicks : Nat := ticks 9000

/-- 562.5 µs. -/
def markTicks : Nat := ticks 1125

/-- 1687.5 µs for a one, 562.5 µs for a zero. -/
def spaceTicks (bit : Bool) : Nat := ticks (if bit then 3375 else 1125)

/-- The bits of a code from number `k` on, lowest first, and the mark behind the last one. -/
def bitsFrom (code : UInt32) (k : Nat) : List Nat :=
  (List.range' k (32 - k)).flatMap (fun i => [markTicks, spaceTicks (code.toNat.testBit i)]) ++
    [markTicks]

/-- The times before the edges of a code, the first after a pause. -/
def transmission (samsung : Bool) (pause : Nat) (code : UInt32) : List Nat :=
  pause :: burstTicks samsung :: gapTicks :: bitsFrom code 0

theorem bitsFrom_end (code : UInt32) : bitsFrom code 32 = [markTicks] := rfl

theorem bitsFrom_lt (code : UInt32) {k : Nat} (hk : k < 32) : bitsFrom code k =
    markTicks :: spaceTicks (code.toNat.testBit k) :: bitsFrom code (k + 1) := by
  obtain ⟨m, hm⟩ : ∃ m, 32 - k = m + 1 := ⟨31 - k, by omega⟩
  have hm' : 32 - (k + 1) = m := by omega
  unfold bitsFrom
  rw [hm, hm', List.range'_succ, List.flatMap_cons]
  rfl

/-- The receiver between two edges of a transmission. -/
structure At (s : Receiver) (state dir : UInt8) (line : Bool) : Prop where
  inState : s.irState = state
  awaits : s.irEdgeDir = dir
  sense : s.sense = if dir = irEdgeDown then .falling else .rising
  pin : s.line = line
  time : s.irTime = 0

/-- The first `k` bits have come. -/
structure Holds (s : Receiver) (code : UInt32) (k : Nat) : Prop where
  data : ofLe s.irData = code.toNat % 2 ^ k
  length : s.irData.length = 4
  place : place s = k
  bit : s.irBit.toNat < 8

/-- How far the transmission of a code has come, with the edges that are still to come. -/
inductive Phase (samsung : Bool) (code : UInt32) (polls : Nat) : Receiver → List Nat → Prop
  | idle {s : Receiver} {pause : Nat} (hidle : s.irState = irIdleState)
      (hdir : s.irEdgeDir = irEdgeDown) (hsense : s.sense = .falling) (hline : s.line = true)
      (hclear : s.irData = [0, 0, 0, 0]) (hpolls : s.polls = polls) :
      Phase samsung code polls s (transmission samsung pause code)
  | burst {s : Receiver} (hat : At s irIdleState irEdgeUp false)
      (hclear : s.irData = [0, 0, 0, 0]) (hpolls : s.polls = polls) :
      Phase samsung code polls s (burstTicks samsung :: gapTicks :: bitsFrom code 0)
  | gap {s : Receiver} (hat : At s irStartState irEdgeDown true)
      (hclear : s.irData = [0, 0, 0, 0]) (hpolls : s.polls = polls) :
      Phase samsung code polls s (gapTicks :: bitsFrom code 0)
  | mark {s : Receiver} {k : Nat} (hat : At s irDataState irEdgeUp false) (hk : k ≤ 32)
      (hholds : Holds s code k) (hpolls : s.polls = polls) :
      Phase samsung code polls s (bitsFrom code k)
  | space {s : Receiver} {k : Nat} (hat : At s irDataState irEdgeDown true) (hk : k < 32)
      (hholds : Holds s code k) (hpolls : s.polls = polls) :
      Phase samsung code polls s (spaceTicks (code.toNat.testBit k) :: bitsFrom code (k + 1))
  | done {s : Receiver} (hidle : s.irState = irIdleState) (hdir : s.irEdgeDir = irEdgeDown)
      (hline : s.line = true) (hlast : s.irLastData = leBytes 4 code.toNat)
      (hpolls : s.polls = polls + 1) : Phase samsung code polls s []

/-! ## One edge of a transmission -/

/-- What the interrupt finds. -/
def atEdge (ticks : Nat) (s : Receiver) : Receiver :=
  { s with irTime := 0, irTimeSinceLast := s.irTime + UInt32.ofNat ticks, line := !s.line }

/-- Setting a bit above all that are set. -/
theorem ofLe_modify_or {bs : List UInt8} {i j : Nat} (hi : i < bs.length) (hj : j < 8)
    (h : ofLe bs < 2 ^ (8 * i + j)) :
    ofLe (bs.modify i (· ||| UInt8.ofNat (2 ^ j))) = ofLe bs + 2 ^ (8 * i + j) := by
  induction i generalizing bs with
  | zero =>
    obtain ⟨b, rest, rfl⟩ := List.exists_cons_of_length_pos hi
    have hpow : 2 ^ j < 256 := Nat.pow_lt_pow_right (by decide) hj
    have hsum : b.toNat + 256 * ofLe rest < 2 ^ j := by
      rw [Nat.mul_zero, Nat.zero_add] at h
      exact h
    have hset : (b ||| UInt8.ofNat (2 ^ j)).toNat = b.toNat + 2 ^ j := by
      have hor := Nat.two_pow_add_eq_or_of_lt (show b.toNat < 2 ^ j by omega) 1
      rw [Nat.mul_one] at hor
      rw [UInt8.toNat_or, UInt8.toNat_ofNat_of_lt' hpow, Nat.or_comm, ← hor, Nat.add_comm]
    show (b ||| UInt8.ofNat (2 ^ j)).toNat + 256 * ofLe rest = b.toNat + 256 * ofLe rest + _
    rw [hset, Nat.mul_zero, Nat.zero_add]
    omega
  | succ i ih =>
    obtain ⟨b, rest, rfl⟩ := List.exists_cons_of_length_pos (Nat.lt_of_le_of_lt (Nat.zero_le _) hi)
    have hpow : 2 ^ (8 * (i + 1) + j) = 256 * 2 ^ (8 * i + j) := by
      rw [show 8 * (i + 1) + j = 8 + (8 * i + j) by omega, Nat.pow_add]
    have hsum : b.toNat + 256 * ofLe rest < 256 * 2 ^ (8 * i + j) := hpow ▸ h
    have hrest := @ih rest (Nat.lt_of_succ_lt_succ hi) (by omega)
    show b.toNat + 256 * ofLe (rest.modify i _) = b.toNat + 256 * ofLe rest + _
    rw [hrest, hpow]
    omega

/-- The low bits of a number, with one more of them. -/
theorem mod_two_pow_succ (x k : Nat) :
    x % 2 ^ (k + 1) = x % 2 ^ k + if x.testBit k then 2 ^ k else 0 := by
  rw [Nat.mod_pow_succ, Nat.testBit_eq_decide_div_mod_eq]
  have hbit : x / 2 ^ k % 2 = 0 ∨ x / 2 ^ k % 2 = 1 := by omega
  rcases hbit with h | h
  · simp [h]
  · simp [h]

section Edge

variable {samsung : Bool} {code : UInt32} {polls : Nat} {s : Receiver}

theorem step_edge (ticks : Nat) (h : s.sense.sees (!s.line) = true) :
    step samsung (.edge ticks) s =
      if s.irState = irIdleState then isrIdle samsung (atEdge ticks s)
      else if s.irState = irStartState then isrStart (atEdge ticks s)
      else if s.irState = irDataState then isrData (atEdge ticks s)
      else atEdge ticks s := by
  show (if s.sense.sees (!s.line) then isr samsung _ else _) = _
  rw [if_pos h]
  rfl

/-- The edge that the receiver waits for, in a state of a transmission. -/
theorem At.step_edge {state dir : UInt8} {line : Bool} (h : At s state dir line)
    (hseen : line = decide (dir = irEdgeDown)) (ticks : Nat) :
    step samsung (.edge ticks) s =
        (if state = irIdleState then isrIdle samsung (atEdge ticks s)
        else if state = irStartState then isrStart (atEdge ticks s)
        else if state = irDataState then isrData (atEdge ticks s)
        else atEdge ticks s) ∧
      (atEdge ticks s).irTimeSinceLast = UInt32.ofNat ticks := by
  have hsees : s.sense.sees (!s.line) = true := by
    rw [h.sense, h.pin, hseen]
    by_cases hdir : dir = irEdgeDown
    · rw [if_pos hdir, decide_eq_true hdir]
      rfl
    · rw [if_neg hdir, decide_eq_false hdir]
      rfl
  constructor
  · rw [IrReceiver.step_edge ticks hsees, h.inState]
  · show s.irTime + UInt32.ofNat ticks = _
    rw [h.time, UInt32.zero_add]

/-- The first edge. -/
theorem Phase.begin {pause : Nat} (hidle : s.irState = irIdleState)
    (hdir : s.irEdgeDir = irEdgeDown) (hsense : s.sense = .falling) (hline : s.line = true)
    (hclear : s.irData = [0, 0, 0, 0]) (hpolls : s.polls = polls) :
    Phase samsung code polls (step samsung (.edge pause) s)
      (burstTicks samsung :: gapTicks :: bitsFrom code 0) := by
  have hstep : step samsung (.edge pause) s = awaitUp (atEdge pause s) := by
    rw [IrReceiver.step_edge pause (by rw [hsense, hline]; rfl), if_pos hidle]
    exact if_pos hdir
  rw [hstep]
  refine .burst ⟨hidle, rfl, rfl, ?_, rfl⟩ hclear hpolls
  show (!s.line) = false
  rw [hline]
  rfl

theorem isBurst_atEdge (h : (atEdge (burstTicks samsung) s).irTimeSinceLast =
    UInt32.ofNat (burstTicks samsung)) : isBurst samsung (atEdge (burstTicks samsung) s) = true := by
  unfold isBurst within
  rw [h]
  cases samsung with
  | true => decide
  | false => decide

/-- The end of the burst. -/
theorem Phase.endBurst (hat : At s irIdleState irEdgeUp false) (hclear : s.irData = [0, 0, 0, 0])
    (hpolls : s.polls = polls) :
    Phase samsung code polls (step samsung (.edge (burstTicks samsung)) s)
      (gapTicks :: bitsFrom code 0) := by
  obtain ⟨hstep, hsince⟩ := @At.step_edge samsung s _ _ _ hat (by decide) (burstTicks samsung)
  have hisr : isrIdle samsung (atEdge (burstTicks samsung) s) =
      awaitDown { atEdge (burstTicks samsung) s with irState := irStartState } := by
    have hup : (atEdge (burstTicks samsung) s).irEdgeDir = 1 := hat.awaits
    rw [isrIdle, if_neg (by rw [hup]; decide), if_pos (isBurst_atEdge hsince)]
  rw [hstep, if_pos rfl, hisr]
  refine .gap ⟨rfl, rfl, rfl, ?_, rfl⟩ hclear hpolls
  show (!s.line) = true
  rw [hat.pin]
  rfl

/-- The end of the gap. -/
theorem Phase.endGap (hat : At s irStartState irEdgeDown true) (hclear : s.irData = [0, 0, 0, 0])
    (hpolls : s.polls = polls) :
    Phase samsung code polls (step samsung (.edge gapTicks) s) (bitsFrom code 0) := by
  obtain ⟨hstep, hsince⟩ := @At.step_edge samsung s _ _ _ hat (by decide) gapTicks
  have hwithin : within 40 47 (atEdge gapTicks s) = true := by
    unfold within
    rw [hsince]
    decide
  rw [hstep, if_neg (by decide), if_pos rfl, isrStart, if_pos hwithin]
  refine .mark ⟨rfl, rfl, rfl, ?_, rfl⟩ (by omega)
    ⟨?_, ?_, rfl, by show (0 : UInt8).toNat < 8; decide⟩ hpolls
  · show (!s.line) = false
    rw [hat.pin]
    rfl
  · show ofLe s.irData = _
    rw [hclear, Nat.pow_zero, Nat.mod_one]
    rfl
  · show s.irData.length = 4
    rw [hclear]
    rfl

theorem within_mark (h : (atEdge markTicks s).irTimeSinceLast = UInt32.ofNat markTicks) :
    within 1 7 (atEdge markTicks s) = true := by
  unfold within
  rw [h]
  decide

/-- The end of a mark with a space behind it. -/
theorem Phase.endMark {k : Nat} (hat : At s irDataState irEdgeUp false) (hk : k < 32)
    (hholds : Holds s code k) (hpolls : s.polls = polls) :
    Phase samsung code polls (step samsung (.edge markTicks) s)
      (spaceTicks (code.toNat.testBit k) :: bitsFrom code (k + 1)) := by
  obtain ⟨hstep, hsince⟩ := @At.step_edge samsung s _ _ _ hat (by decide) markTicks
  have hplace := hholds.place
  unfold place at hplace
  have hbyte : ¬ (atEdge markTicks s).irByte > 3 := by
    intro hgt
    have hnat : 3 < s.irByte.toNat := UInt8.lt_iff_toNat_lt.mp hgt
    omega
  have hup : (atEdge markTicks s).irEdgeDir = 1 := hat.awaits
  rw [hstep, if_neg (by decide), if_neg (by decide), if_pos rfl, isrData,
    if_pos (by rw [hup]; decide), if_neg hbyte, if_pos (within_mark hsince)]
  refine .space ⟨hat.inState, rfl, rfl, ?_, rfl⟩ hk
    ⟨hholds.data, hholds.length, hholds.place, hholds.bit⟩ hpolls
  show (!s.line) = true
  rw [hat.pin]
  rfl

/-- The end of the last mark. -/
theorem Phase.finish (hat : At s irDataState irEdgeUp false) (hholds : Holds s code 32)
    (hpolls : s.polls = polls) :
    Phase samsung code polls (step samsung (.edge markTicks) s) [] := by
  obtain ⟨hstep, -⟩ := @At.step_edge samsung s _ _ _ hat (by decide) markTicks
  have hplace := hholds.place
  have hbit := hholds.bit
  unfold place at hplace
  have hbyte : (atEdge markTicks s).irByte > 3 := by
    refine UInt8.lt_iff_toNat_lt.mpr ?_
    show 3 < s.irByte.toNat
    omega
  have hup : (atEdge markTicks s).irEdgeDir = 1 := hat.awaits
  rw [hstep, if_neg (by decide), if_neg (by decide), if_pos rfl, isrData,
    if_pos (by rw [hup]; decide), if_pos hbyte]
  refine .done rfl rfl ?_ ?_ ?_
  · show (!s.line) = true
    rw [hat.pin]
    rfl
  · show s.irData = _
    have hcode : ofLe s.irData = code.toNat :=
      hholds.data.trans (Nat.mod_eq_of_lt code.toNat_lt)
    rw [← hcode, ← hholds.length, leBytes_ofLe]
  · show s.polls + 1 = _
    rw [hpolls]

/-- The receiver after a bit. -/
theorem Holds.count {k : Nat} {s' : Receiver} (hbit : s.irBit.toNat < 8)
    (hbyte : s.irByte.toNat < 4) (hplace : IrReceiver.place s = k)
    (hdata : ofLe s.irData = code.toNat % 2 ^ (k + 1)) (hlength : s.irData.length = 4)
    (h : s' = awaitUp (countBit s)) : Holds s' code (k + 1) ∧ s'.irState = s.irState ∧
      s'.irEdgeDir = irEdgeUp ∧ s'.sense = .rising ∧ s'.line = s.line ∧ s'.irTime = s.irTime ∧
      s'.polls = s.polls := by
  obtain ⟨bit, byte, hcount, hlt, hnext⟩ := countBit_spec hbit hbyte
  rw [h, hcount]
  refine ⟨⟨hdata, hlength, ?_, hlt⟩, rfl, rfl, rfl, rfl, rfl, rfl⟩
  show 8 * byte.toNat + bit.toNat = k + 1
  rw [hnext, hplace]

/-- The end of a space: a bit. -/
theorem Phase.endSpace {k : Nat} (hat : At s irDataState irEdgeDown true) (hk : k < 32)
    (hholds : Holds s code k) (hpolls : s.polls = polls) :
    Phase samsung code polls
      (step samsung (.edge (spaceTicks (code.toNat.testBit k))) s) (bitsFrom code (k + 1)) := by
  obtain ⟨hstep, hsince⟩ := @At.step_edge samsung s _ _ _ hat (by decide)
    (spaceTicks (code.toNat.testBit k))
  have hplace := hholds.place
  have hbit := hholds.bit
  unfold place at hplace
  have hbyte : s.irByte.toNat < 4 := by omega
  let s₁ := atEdge (spaceTicks (code.toNat.testBit k)) s
  have hline : s₁.line = false := by
    show (!s.line) = false
    rw [hat.pin]
    rfl
  -- the one is set, the zero is there already
  have hisr : ∃ s₂ : Receiver, isrData s₁ = awaitUp (countBit s₂) ∧
      ofLe s₂.irData = code.toNat % 2 ^ (k + 1) ∧ s₂.irData.length = 4 ∧
      s₂ = { s₁ with irData := s₂.irData, outside := s₂.outside } := by
    have hdown : ¬ s₁.irEdgeDir ≠ 0 := fun hup => hup hat.awaits
    rw [isrData, if_neg hdown, mod_two_pow_succ]
    cases hone : code.toNat.testBit k with
    | false =>
      have hwithin : within 1 7 s₁ = true := by
        unfold within
        rw [hsince, hone]
        decide
      rw [if_pos hwithin]
      exact ⟨s₁, rfl, hholds.data, hholds.length, rfl⟩
    | true =>
      have hnot : within 1 7 s₁ = false := by
        unfold within
        rw [hsince, hone]
        decide
      have hwithin : within 14 19 s₁ = true := by
        unfold within
        rw [hsince, hone]
        decide
      rw [if_neg (by rw [hnot]; exact Bool.false_ne_true), if_pos hwithin]
      refine ⟨setDataBit s₁, rfl, ?_, (List.length_modify ..).trans hholds.length, rfl⟩
      have hlow : ofLe s.irData < 2 ^ (8 * s.irByte.toNat + s.irBit.toNat) := by
        rw [hholds.data, hplace]
        exact Nat.mod_lt _ (Nat.two_pow_pos k)
      show ofLe (s.irData.modify s.irByte.toNat (· ||| UInt8.ofNat (2 ^ s.irBit.toNat))) = _
      rw [ofLe_modify_or (by rw [hholds.length]; exact hbyte) hbit hlow, hholds.data, hplace]
      rfl
  obtain ⟨s₂, hdata, hof, hlength, hs₂⟩ := hisr
  rw [hstep, if_neg (by decide), if_neg (by decide), if_pos rfl]
  obtain ⟨hnext, hstate, hdir, hsense, hpin, htime, hpolls'⟩ := @Holds.count code s₂ k _
    (by rw [hs₂]; exact hbit) (by rw [hs₂]; exact hbyte) (by rw [hs₂]; exact hplace) hof hlength
    hdata
  refine .mark ⟨?_, hdir, hsense, ?_, ?_⟩ hk hnext ?_
  · rw [hstate, hs₂]
    exact hat.inState
  · rw [hpin, hs₂]
    exact hline
  · rw [htime, hs₂]
    rfl
  · rw [hpolls', hs₂]
    exact hpolls

/-- **The edge lemma**: the next edge of a transmission takes it one edge further. -/
theorem Phase.edge {t : Nat} {rest : List Nat} (h : Phase samsung code polls s (t :: rest)) :
    Phase samsung code polls (step samsung (.edge t) s) rest := by
  generalize htimes : t :: rest = times at h
  cases h with
  | idle hidle hdir hsense hline hclear hpolls =>
    cases htimes
    exact .begin hidle hdir hsense hline hclear hpolls
  | burst hat hclear hpolls =>
    cases htimes
    exact .endBurst hat hclear hpolls
  | gap hat hclear hpolls =>
    cases htimes
    exact .endGap hat hclear hpolls
  | @mark k hat hk hholds hpolls =>
    rcases Nat.lt_or_eq_of_le hk with hlt | rfl
    · rw [bitsFrom_lt code hlt] at htimes
      cases htimes
      exact .endMark hat hlt hholds hpolls
    · rw [bitsFrom_end] at htimes
      cases htimes
      exact .finish hat hholds hpolls
  | space hat hk hholds hpolls =>
    cases htimes
    exact .endSpace hat hk hholds hpolls
  | done => cases htimes

/-- The process does not touch what the interrupt works on. -/
theorem Phase.thread {times : List Nat} (h : Phase samsung code polls s times) (resend : Bool) :
    Phase samsung code polls (thread resend s) times := by
  have hthread : ∃ again prev, IrReceiver.thread resend s =
      { s with irRepeat := again, irPrevData := prev } := by
    unfold IrReceiver.thread
    split
    · exact ⟨0, s.irPrevData, rfl⟩
    · split
      · exact ⟨s.irRepeat, s.irLastData, rfl⟩
      · exact ⟨s.irRepeat, s.irPrevData, rfl⟩
  obtain ⟨again, prev, hthread⟩ := hthread
  rw [hthread]
  cases h with
  | idle hidle hdir hsense hline hclear hpolls =>
    exact .idle hidle hdir hsense hline hclear hpolls
  | burst hat hclear hpolls =>
    exact .burst ⟨hat.inState, hat.awaits, hat.sense, hat.pin, hat.time⟩ hclear hpolls
  | gap hat hclear hpolls =>
    exact .gap ⟨hat.inState, hat.awaits, hat.sense, hat.pin, hat.time⟩ hclear hpolls
  | mark hat hk hholds hpolls =>
    exact .mark ⟨hat.inState, hat.awaits, hat.sense, hat.pin, hat.time⟩ hk
      ⟨hholds.data, hholds.length, hholds.place, hholds.bit⟩ hpolls
  | space hat hk hholds hpolls =>
    exact .space ⟨hat.inState, hat.awaits, hat.sense, hat.pin, hat.time⟩ hk
      ⟨hholds.data, hholds.length, hholds.place, hholds.bit⟩ hpolls
  | done hidle hdir hline hlast hpolls => exact .done hidle hdir hline hlast hpolls

/-- Behind the last edge. -/
theorem Phase.last (h : Phase samsung code polls s []) :
    s.irState = irIdleState ∧ s.line = true ∧ s.irLastData = leBytes 4 code.toNat ∧
      s.polls = polls + 1 := by
  generalize htimes : ([] : List Nat) = times at h
  cases h with
  | done hidle hdir hline hlast hpolls => exact ⟨hidle, hline, hlast, hpolls⟩
  | @mark k hat hk hholds hpolls => cases (List.append_eq_nil_iff.mp htimes.symm).2
  | idle => cases htimes
  | burst => cases htimes
  | gap => cases htimes
  | space => cases htimes

end Edge

/-! ## Every code -/

/-- The times before the edges of a run. -/
def edges : List Step → List Nat
  | [] => []
  | .edge ticks :: steps => ticks :: edges steps
  | .thread _ :: steps => edges steps

theorem phase_run {samsung : Bool} {code : UInt32} {polls : Nat} {s : Receiver} {times : List Nat}
    {steps : List Step} (h : Phase samsung code polls s times) (hedges : edges steps = times) :
    Phase samsung code polls (run (step samsung) s steps) [] := by
  induction steps generalizing s times with
  | nil =>
    cases hedges
    exact h
  | cons a steps ih =>
    cases a with
    | edge ticks =>
      cases hedges
      exact ih h.edge rfl
    | thread resend => exact ih (h.thread resend) hedges

/-- The receiver waits for a transmission: its pin rests, and it has not seen a burst begin. -/
def Idle (s : Receiver) : Prop := s.irState = irIdleState ∧ s.line = true

/-- **The receiver**: in every run, every subscript of `ir_data` is below 4 and the state is one
of the three; and whenever it is idle, whatever has come before, a transmission of a code leaves
that code in `ir_last_data`, low byte first, and polls the process once. -/
theorem receives (samsung line : Bool) (steps : List Step) :
    let s := run (step samsung) (irReceiverInit line) steps
    (s.outside = false ∧ s.irByte.toNat ≤ 4 ∧
      (s.irState = irIdleState ∨ s.irState = irStartState ∨ s.irState = irDataState)) ∧
    (Idle s → ∀ (code : UInt32) (pause : Nat) (later : List Step),
      edges later = transmission samsung pause code →
        (run (step samsung) s later).irLastData = leBytes 4 code.toNat ∧
          (run (step samsung) s later).polls = s.polls + 1 ∧ Idle (run (step samsung) s later)) := by
  intro s
  have hsound : Sound s := sound_run samsung line steps
  refine ⟨⟨hsound.inside, hsound.byte, hsound.state⟩, ?_⟩
  rintro ⟨hidle, hline⟩ code pause later hedges
  have hdown : s.irEdgeDir = irEdgeDown ∧ s.sense = .falling := by
    rcases hsound.dir with hdown | ⟨-, -, hlow⟩
    · exact hdown
    · cases hline.symm.trans hlow
  have hclear : s.irData = [0, 0, 0, 0] := hsound.clear (by rw [hidle]; decide)
  have hphase : Phase samsung code s.polls s (transmission samsung pause code) :=
    .idle hidle hdown.1 hdown.2 hline hclear rfl
  obtain ⟨hidle', hline', hlast, hpolls⟩ := (phase_run hphase hedges).last
  exact ⟨hlast, hpolls, hidle', hline'⟩

/-- The power key, from the start. -/
theorem receives_power :
    (run (step true) (irReceiverInit true)
      ((transmission true 0 4244768519).map Step.edge)).irLastData =
        leBytes 4 (4244768519 : UInt32).toNat :=
  ((receives true true []).2 ⟨rfl, rfl⟩ 4244768519 0 _ rfl).1

/-- The last edge of a code finds the receiver with `ir_byte` at 4. -/
theorem lastMark_byte :
    ¬ (run (step true) (irReceiverInit true)
      ((transmission true 0 4244768519).dropLast.map Step.edge)).irByte.toNat < 4 := by
  decide +kernel

end Hexabus.Firmware.IrReceiver
