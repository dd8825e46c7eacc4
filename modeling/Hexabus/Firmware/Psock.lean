import Hexabus.Firmware.Memory

/-!
# Protosockets

`psock.c`: a protothread that reads from a TCP connection up to an end marker. What it reads goes
into a buffer, as far as the buffer has room; the rest of the bytes up to the marker is thrown away.
A call of the application brings at most one segment, and a read that has not come to its marker
waits for the next one.
-/

namespace Hexabus.Firmware

open Lib.Store

/-- `STATE_NONE`, `STATE_READ` and `STATE_BLOCKED_NEWDATA`; the other states belong to sending. -/
inductive Psock.State where
  | none | read | blockedNewdata
  deriving DecidableEq, Repr

/-- The receiving half of `struct psock`. `buf.ptr` is where the `left` last bytes of the buffer
begin. `unread` are the bytes from `readptr` on, `readlen` of them. -/
structure Psock where
  inputbuf : Mem
  left : Nat
  unread : List UInt8
  state : Psock.State
  /-- `psockpt` stands in the wait of `psock_readto`. -/
  waiting : Bool

namespace Psock

/-- `sizeof(s->inputbuf) - 1`. -/
def bufsize : Nat := 49

/-- `psock_init`. -/
def init (inputbuf : Mem) : Psock := ⟨inputbuf, bufsize, [], .none, false⟩

/-- `psock_datalen`. -/
def datalen (s : Psock) : Nat := bufsize - s.left

/-- `*buf->ptr = **dataptr`, with the pointers moved on. -/
def put (s : Psock) (b : UInt8) : Psock :=
  { s with inputbuf := setU8 s.inputbuf (bufsize - s.left) b, left := s.left - 1 }

/-- The second loop of `buf_bufto`: the buffer is full, and bytes are dropped. -/
def skipto (endmarker : UInt8) : List UInt8 → List UInt8 × Bool
  | [] => ([], false)
  | c :: data => if c = endmarker then (data, true) else skipto endmarker data

/-- `buf_bufto` on the bytes that are unread, and whether it returns `BUF_FOUND`. -/
def bufto (endmarker : UInt8) (s : Psock) : List UInt8 → Psock × Bool
  | [] => ({ s with unread := [] }, false)
  | c :: data =>
    if 0 < s.left then
      if c = endmarker then ({ s.put c with unread := data }, true)
      else bufto endmarker (s.put c) data
    else
      ({ s with unread := (skipto endmarker (c :: data)).1 }, (skipto endmarker (c :: data)).2)

/-- `psock_newdata`; `uipNewdata` is `uip_newdata()`. -/
def newdata (uipNewdata : Bool) (s : Psock) : Psock × Bool :=
  if s.unread ≠ [] then (s, true)
  else if s.state = .read then ({ s with state := .blockedNewdata }, false)
  else (s, uipNewdata)

/-- The wait of `psock_readto`: whether there are bytes to read. `u` is the segment in
`uip_appdata`, if this call brings one. -/
def await (u : Option (List UInt8)) (s : Psock) : Psock × Bool :=
  if s.unread = [] then
    match s.newdata u.isSome with
    | (s, true) => ({ s with state := .read, unread := u.getD [] }, true)
    | (s, false) => (s, false)
  else (s, true)

/-- The loop of `psock_readto`. Bytes left over from the piece before, then a segment, and there is
nothing more to take: it goes round three times at most. -/
def readtoLoop (c : UInt8) (u : Option (List UInt8)) : Nat → Psock → Psock × Bool
  | 0, s => (s, false)
  | n + 1, s =>
    match s.await u with
    | (s, false) => (s, false)
    | (s, true) =>
      match s.bufto c s.unread with
      | (s, true) => (s, true)
      | (s, false) => readtoLoop c u n s

/-- `buf_setup`, unless `psock_readto` is called again where it waits. -/
def enter (s : Psock) : Psock :=
  if s.waiting then s else { s with left := bufsize, waiting := true }

/-- `psock_readto`, and whether it comes to its end. -/
def readto (c : UInt8) (u : Option (List UInt8)) (s : Psock) : Psock × Bool :=
  match readtoLoop c u 3 s.enter with
  | (s, false) => (s, false)
  | (s, true) =>
    if s.datalen = 0 then ({ s with state := .none, waiting := false }, false)
    else ({ s with waiting := false }, true)

/-! ## What the buffer holds -/

/-- The buffer, with `m` before the read began, after the bytes of `piece`. -/
structure Holds (s : Psock) (m : Mem) (piece : List UInt8) : Prop where
  inputbuf : s.inputbuf = writeBlock m 0 (piece.take bufsize)
  left : s.left = bufsize - piece.length

theorem Holds.datalen {s : Psock} {m : Mem} {piece : List UInt8} (h : s.Holds m piece) :
    s.datalen = min piece.length bufsize := by
  rw [Psock.datalen, h.left]
  omega

/-- A byte behind a block that was written. -/
theorem setU8_writeBlock (m : Mem) (bs : List UInt8) (b : UInt8) :
    setU8 (writeBlock m 0 bs) bs.length b = writeBlock m 0 (bs ++ [b]) := by
  funext i
  by_cases hin : i < bs.length
  · have hleft := writeBlock_apply_in m 0 bs i hin
    have hright := writeBlock_apply_in m 0 (bs ++ [b]) i (by simp; omega)
    rw [Nat.zero_add] at hleft hright
    rw [setU8, writeBlock_apply_out _ _ _ _ (.inl hin), hleft, hright,
      List.getElem_append_left hin]
  · by_cases hat : i = bs.length
    · subst hat
      have hleft := writeBlock_apply_in (writeBlock m 0 bs) bs.length [b] 0 (by simp)
      have hright := writeBlock_apply_in m 0 (bs ++ [b]) bs.length (by simp)
      rw [Nat.add_zero] at hleft
      rw [Nat.zero_add] at hright
      rw [setU8, hleft, hright]
      simp
    · rw [setU8, writeBlock_apply_out _ _ _ _ (.inr (by simp; omega)),
        writeBlock_apply_out _ _ _ _ (.inr (by omega)),
        writeBlock_apply_out _ _ _ _ (.inr (by simp; omega))]

variable {s : Psock} {m : Mem} {piece : List UInt8}

/-- While there is room, a byte is put behind the others. -/
theorem Holds.put (h : s.Holds m piece) (hroom : 0 < s.left) (b : UInt8) :
    (s.put b).Holds m (piece ++ [b]) := by
  have hlen : piece.length < bufsize := by
    have hleft := h.left
    omega
  constructor
  · show setU8 s.inputbuf (bufsize - s.left) b = _
    have hat : bufsize - s.left = (piece.take bufsize).length := by
      rw [h.left, List.length_take]
      omega
    rw [hat, h.inputbuf, setU8_writeBlock, List.take_of_length_le (l := piece) (by omega),
      List.take_of_length_le (by simp; omega)]
  · show s.left - 1 = _
    rw [h.left, List.length_append, List.length_singleton]
    omega

/-- Then bytes are dropped. -/
theorem Holds.drop (h : s.Holds m piece) (hfull : ¬ 0 < s.left) (data : List UInt8) :
    s.Holds m (piece ++ data) := by
  have hlen : bufsize ≤ piece.length := by
    have hleft := h.left
    omega
  constructor
  · rw [h.inputbuf, List.take_append_of_le_length hlen]
  · rw [h.left, List.length_append]
    omega

theorem skipto_short {c : UInt8} {data : List UInt8} (hc : c ∉ data) :
    skipto c data = ([], false) := by
  induction data with
  | nil => rfl
  | cons b data ih =>
    have hb : b ≠ c := fun heq => hc (heq ▸ List.mem_cons_self)
    rw [skipto, if_neg hb, ih (fun hmem => hc (List.mem_cons_of_mem b hmem))]

theorem skipto_found {c : UInt8} {data : List UInt8} (hc : c ∉ data) (rest : List UInt8) :
    skipto c (data ++ c :: rest) = (rest, true) := by
  induction data with
  | nil => simp [skipto]
  | cons b data ih =>
    have hb : b ≠ c := fun heq => hc (heq ▸ List.mem_cons_self)
    rw [List.cons_append, skipto, if_neg hb, ih (fun hmem => hc (List.mem_cons_of_mem b hmem))]

/-- What `buf_bufto` has read, and what it leaves. -/
structure After (s : Psock) (m : Mem) (piece unread : List UInt8) (t : Psock) : Prop where
  holds : t.Holds m piece
  unread : t.unread = unread
  state : t.state = s.state
  waiting : t.waiting = s.waiting

/-- `buf_bufto` does not find its end marker: all bytes are read. -/
theorem bufto_short {c : UInt8} {data : List UInt8} (h : s.Holds m piece) (hc : c ∉ data) :
    (s.bufto c data).2 = false ∧ After s m (piece ++ data) [] (s.bufto c data).1 := by
  induction data generalizing s piece with
  | nil =>
    rw [List.append_nil]
    exact ⟨rfl, ⟨h.inputbuf, h.left⟩, rfl, rfl, rfl⟩
  | cons b data ih =>
    have hb : b ≠ c := fun heq => hc (heq ▸ List.mem_cons_self)
    have hdata : c ∉ data := fun hmem => hc (List.mem_cons_of_mem b hmem)
    rw [bufto]
    by_cases hroom : 0 < s.left
    · rw [if_pos hroom, if_neg hb]
      have hrest := ih (h.put hroom b) hdata
      rw [List.append_assoc] at hrest
      exact ⟨hrest.1, hrest.2.holds, hrest.2.unread, hrest.2.state, hrest.2.waiting⟩
    · have hdrop := h.drop hroom (b :: data)
      rw [if_neg hroom, skipto_short hc]
      exact ⟨rfl, ⟨hdrop.inputbuf, hdrop.left⟩, rfl, rfl, rfl⟩

/-- `buf_bufto` finds its end marker: the bytes behind it stay unread. -/
theorem bufto_found {c : UInt8} {data : List UInt8} (h : s.Holds m piece) (hc : c ∉ data)
    (rest : List UInt8) :
    (s.bufto c (data ++ c :: rest)).2 = true ∧
      After s m (piece ++ data ++ [c]) rest (s.bufto c (data ++ c :: rest)).1 := by
  induction data generalizing s piece with
  | nil =>
    rw [List.nil_append, List.append_nil, bufto]
    by_cases hroom : 0 < s.left
    · have hput := h.put hroom c
      rw [if_pos hroom, if_pos rfl]
      exact ⟨rfl, ⟨hput.inputbuf, hput.left⟩, rfl, rfl, rfl⟩
    · have hdrop := h.drop hroom [c]
      rw [if_neg hroom, skipto, if_pos rfl]
      exact ⟨rfl, ⟨hdrop.inputbuf, hdrop.left⟩, rfl, rfl, rfl⟩
  | cons b data ih =>
    have hb : b ≠ c := fun heq => hc (heq ▸ List.mem_cons_self)
    have hdata : c ∉ data := fun hmem => hc (List.mem_cons_of_mem b hmem)
    rw [List.cons_append, bufto]
    by_cases hroom : 0 < s.left
    · rw [if_pos hroom, if_neg hb]
      have hrest := ih (h.put hroom b) hdata
      rw [List.append_assoc piece [b]] at hrest
      exact ⟨hrest.1, hrest.2.holds, hrest.2.unread, hrest.2.state, hrest.2.waiting⟩
    · have hdrop := h.drop hroom (b :: data ++ [c])
      rw [← List.append_assoc] at hdrop
      rw [if_neg hroom, ← List.cons_append, skipto_found hc]
      exact ⟨rfl, ⟨hdrop.inputbuf, hdrop.left⟩, rfl, rfl, rfl⟩

/-! ## One call of `psock_readto` -/

/-- Bytes are only left over from a segment that is being read. -/
def Fit (s : Psock) : Prop := s.state ≠ .read → s.unread = []

/-- The bytes a call can read: those left over from a segment, or the segment it brings. -/
def offer (u : Option (List UInt8)) (s : Psock) : List UInt8 :=
  if s.state = .read then s.unread else u.getD []

/-- The call has read all bytes there are, and waits. -/
structure Waits (t : Psock) (m : Mem) (piece : List UInt8) : Prop where
  holds : t.Holds m piece
  unread : t.unread = []
  state : t.state ≠ .read
  waiting : t.waiting = true

@[simp] theorem enter_waiting (s : Psock) : s.enter.waiting = true := by
  unfold enter
  split
  next h => exact h
  next => rfl

@[simp] theorem enter_state (s : Psock) : s.enter.state = s.state := by
  unfold enter
  split <;> rfl

@[simp] theorem enter_unread (s : Psock) : s.enter.unread = s.unread := by
  unfold enter
  split <;> rfl

theorem Waits.enter (h : s.Waits m piece) : s.enter.Holds m piece := by
  rw [Psock.enter, if_pos h.waiting]
  exact h.holds

/-- A read that begins. -/
theorem holds_enter (hwaiting : s.waiting = false) : s.enter.Holds s.inputbuf [] := by
  rw [enter, hwaiting]
  constructor
  · funext i
    show s.inputbuf i = writeBlock s.inputbuf 0 ([].take bufsize) i
    rw [writeBlock_apply_out _ _ _ _ (.inr (Nat.zero_le i))]
  · rfl

variable {u : Option (List UInt8)}

theorem await_of_offer (hfit : s.Fit) (h : s.offer u ≠ []) :
    s.await u = ({ s with state := .read, unread := s.offer u }, true) := by
  unfold offer at h ⊢
  by_cases hread : s.state = .read
  · rw [if_pos hread] at h ⊢
    rw [await, if_neg h, ← hread]
  · rw [if_neg hread] at h ⊢
    have hunread := hfit hread
    cases u with
    | none => exact absurd rfl h
    | some data => simp [await, newdata, hunread, hread]

theorem readtoLoop_of_short {t : Psock} {c : UInt8} (n : Nat) (hawait : s.await u = (t, true))
    (hbuf : (t.bufto c t.unread).2 = false) :
    readtoLoop c u (n + 1) s = readtoLoop c u n (t.bufto c t.unread).1 := by
  have hpair : t.bufto c t.unread = ((t.bufto c t.unread).1, false) := Prod.ext rfl hbuf
  rw [readtoLoop, hawait]
  dsimp only
  rw [hpair]

theorem readtoLoop_of_found {t : Psock} {c : UInt8} (n : Nat) (hawait : s.await u = (t, true))
    (hbuf : (t.bufto c t.unread).2 = true) :
    readtoLoop c u (n + 1) s = ((t.bufto c t.unread).1, true) := by
  have hpair : t.bufto c t.unread = ((t.bufto c t.unread).1, true) := Prod.ext rfl hbuf
  rw [readtoLoop, hawait]
  dsimp only
  rw [hpair]

/-- The segment has been read, and there is nothing to take before the next call. -/
theorem await_consumed (hread : s.state = .read) (hunread : s.unread = []) :
    s.await u = ({ s with state := .blockedNewdata }, false) := by
  simp [await, newdata, hunread, hread]

theorem readtoLoop_consumed (c : UInt8) (n : Nat) (h : s.Holds m piece)
    (hread : s.state = .read) (hunread : s.unread = []) (hwaiting : s.waiting = true) :
    (readtoLoop c u (n + 1) s).2 = false ∧ (readtoLoop c u (n + 1) s).1.Waits m piece := by
  rw [readtoLoop, await_consumed hread hunread]
  exact ⟨rfl, ⟨h.inputbuf, h.left⟩, hunread, by simp, hwaiting⟩

/-- Nothing to read. -/
theorem readtoLoop_idle (c : UInt8) (n : Nat) (hfit : s.Fit) (h : s.Holds m piece)
    (hwaiting : s.waiting = true) (hoffer : s.offer u = []) :
    (readtoLoop c u (n + 2) s).2 = false ∧ (readtoLoop c u (n + 2) s).1.Waits m piece := by
  by_cases hread : s.state = .read
  · rw [offer, if_pos hread] at hoffer
    exact readtoLoop_consumed c (n + 1) h hread hoffer hwaiting
  · rw [offer, if_neg hread] at hoffer
    have hunread := hfit hread
    cases u with
    | none =>
      have hawait : s.await none = (s, false) := by
        simp [await, newdata, hunread, hread]
      rw [readtoLoop, hawait]
      exact ⟨rfl, h, hunread, hread, hwaiting⟩
    | some data =>
      -- a segment without bytes
      have hdata : data = [] := hoffer
      subst hdata
      have hawait : s.await (some []) = ({ s with state := .read, unread := [] }, true) := by
        simp [await, newdata, hunread, hread]
      rw [readtoLoop, hawait]
      exact readtoLoop_consumed c n ⟨h.inputbuf, h.left⟩ rfl rfl hwaiting

/-- **`psock_readto` without its end marker**: it has taken all bytes, and waits. -/
theorem readto_short {c : UInt8} (hfit : s.Fit) (h : s.enter.Holds m piece)
    (hc : c ∉ s.offer u) :
    (s.readto c u).2 = false ∧ (s.readto c u).1.Waits m (piece ++ s.offer u) := by
  have hfit' : s.enter.Fit := by simpa [Fit] using hfit
  have hoffer : s.enter.offer u = s.offer u := by simp [offer]
  have hloop : (readtoLoop c u 3 s.enter).2 = false ∧
      (readtoLoop c u 3 s.enter).1.Waits m (piece ++ s.offer u) := by
    by_cases hnone : s.offer u = []
    · rw [hnone, List.append_nil]
      exact readtoLoop_idle c 1 hfit' h (enter_waiting s) (hoffer.trans hnone)
    · have hawait := await_of_offer hfit' (hoffer ▸ hnone)
      rw [hoffer] at hawait
      have htaken := bufto_short (s := { s.enter with state := .read, unread := s.offer u })
        ⟨h.inputbuf, h.left⟩ hc
      rw [readtoLoop_of_short 2 hawait htaken.1]
      exact readtoLoop_consumed c 1 htaken.2.holds htaken.2.state htaken.2.unread
        (htaken.2.waiting.trans (enter_waiting s))
  have hpair : readtoLoop c u 3 s.enter = ((readtoLoop c u 3 s.enter).1, false) :=
    Prod.ext rfl hloop.1
  rw [readto, hpair]
  exact ⟨rfl, hloop.2⟩

/-- **`psock_readto` up to its end marker**: the piece is in the buffer, as far as it has room. -/
theorem readto_found {c : UInt8} {data rest : List UInt8} (hfit : s.Fit)
    (h : s.enter.Holds m piece) (hoffer : s.offer u = data ++ c :: rest) (hc : c ∉ data) :
    (s.readto c u).2 = true ∧ (s.readto c u).1.Holds m (piece ++ data ++ [c]) ∧
      (s.readto c u).1.unread = rest ∧ (s.readto c u).1.state = .read ∧
      (s.readto c u).1.waiting = false := by
  have hfit' : s.enter.Fit := by simpa [Fit] using hfit
  have henter : s.enter.offer u = data ++ c :: rest := by
    rw [← hoffer]
    simp [offer]
  have hawait := await_of_offer hfit' (show s.enter.offer u ≠ [] by rw [henter]; simp)
  rw [henter] at hawait
  have htaken := bufto_found (s := { s.enter with state := .read, unread := data ++ c :: rest })
    ⟨h.inputbuf, h.left⟩ hc rest
  have hloop := readtoLoop_of_found 2 hawait htaken.1
  -- the end marker is in the buffer, or the buffer is full
  have hdatalen := htaken.2.holds.datalen
  rw [readto, hloop]
  dsimp only
  rw [if_neg (by rw [hdatalen]; simp [bufsize])]
  exact ⟨rfl, ⟨htaken.2.holds.inputbuf, htaken.2.holds.left⟩, htaken.2.unread, htaken.2.state, rfl⟩

end Psock

end Hexabus.Firmware
