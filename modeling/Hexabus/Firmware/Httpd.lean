import Hexabus.Lib.Delimited
import Hexabus.Lib.JsonTokens
import Hexabus.Firmware.Eeprom
import Hexabus.Firmware.Psock

/-!
# The input side of the web server

`httpd.c` of the socket: a protothread per connection that takes a request apart with reads up to
an end marker. It is resumed at each call of the application, reads what the call brings, and waits
in the middle of a piece if need be. What it does with a finished piece depends only on the piece,
so a connection is a reader of delimited pieces, however the request is cut into segments.
-/

namespace Hexabus.Firmware

open Lib.Store Lib.Delimited
open Lib.Json (ascii)

namespace Httpd

def isoNl : UInt8 := 0x0A
def isoCr : UInt8 := 0x0D
def isoSpace : UInt8 := 0x20
def isoSlash : UInt8 := 0x2F
def isoAmper : UInt8 := 0x26
def isoEqual : UInt8 := 0x3D

def httpdGet : List UInt8 := ascii "GET "
def httpdPost : List UInt8 := ascii "POST "
def httpdConfigFile : List UInt8 := ascii "config.shtml "
def httpdSocketStatusFile : List UInt8 := ascii "socket_stat.shtml "

/-- What outlives a connection: the EEPROM, and of the relay the default state and how often
`relay_toggle` was called. -/
structure Device where
  eeprom : Mem
  relayDefaultState : Bool
  relayToggles : Nat

/-- `set_relay_default`. -/
def Device.setRelayDefault (value : Bool) (d : Device) : Device :=
  if d.relayDefaultState ≠ value then
    { d with
      eeprom := setU8 d.eeprom EE.relayDefault (if value then 1 else 0)
      relayDefaultState := value }
  else d

/-! ## The protothread -/

/-- Where `handle_input` waits: its reads in the order of the source. -/
inductive Point where
  | method | getPath | postPath
  /-- The loop that looks for the empty line. -/
  | headerNl | headerCr | headersEnd
  | domainNameEqual | domainName
  | relayEqual | relay
  /-- The request is answered, and the rest of it looked through for the log. -/
  | output
  /-- The connection is closed. -/
  | closed
  /-- More has been copied into the name buffer than it holds; what follows is undefined. -/
  | overrun
  deriving DecidableEq, Repr

/-- The end marker of a read. -/
def Point.delim : Point → Option UInt8
  | .method | .getPath | .postPath => some isoSpace
  | .headerNl | .headersEnd | .output => some isoNl
  | .headerCr => some isoCr
  | .domainNameEqual | .relayEqual => some isoEqual
  | .domainName | .relay => some isoAmper
  | .closed | .overrun => none

/-- `copied` are the lengths of the copies into the name buffer. -/
structure Handler where
  point : Point
  device : Device
  copied : List Nat

namespace Handler

/-- `strncmp(&s->inputbuf[off], text, sizeof(text) - 1) == 0`. -/
def Begins (inputbuf : Mem) (off : Nat) (text : List UInt8) : Prop :=
  readBlock inputbuf off text.length = text

instance (inputbuf : Mem) (off : Nat) (text : List UInt8) : Decidable (Begins inputbuf off text) :=
  inferInstanceAs (Decidable (_ = _))

def goto (h : Handler) (point : Point) : Handler := { h with point := point }

/-- The domain name: the value is copied into a buffer of zeros, and the buffer into the EEPROM. -/
def storeDomainName (inputbuf : Mem) (datalen : Nat) (h : Handler) : Handler :=
  if inputbuf 0 ≠ isoAmper then
    let copied := h.copied ++ [datalen - 1]
    if datalen - 1 ≤ EE.domainNameSize then
      let tmp := writeBlock (fun _ => 0) 0 (readBlock inputbuf 0 (datalen - 1))
      let eeprom := writeBlock h.device.eeprom EE.domainName (readBlock tmp 0 EE.domainNameSize)
      { point := .relayEqual, device := { h.device with eeprom := eeprom }, copied := copied }
    else { h with point := .overrun, copied := copied }
  else h.goto .relayEqual

/-- The radio buttons: for power to be on, the relay, which is wired normally closed, is off. -/
def storeRelay (inputbuf : Mem) (h : Handler) : Handler :=
  if inputbuf 0 = 0x31 then { h with point := .output, device := h.device.setRelayDefault false }
  else if inputbuf 0 = 0x30 then
    { h with point := .output, device := h.device.setRelayDefault true }
  else h.goto .output

/-- `handle_input` from a finished read up to the next one, with the buffer it leaves. The name of
the file that is to be sent, and the log, are left out. -/
def proceed (inputbuf : Mem) (datalen : Nat) (h : Handler) : Handler × Mem :=
  match h.point with
  | .method =>
    if Begins inputbuf 0 httpdGet then (h.goto .getPath, inputbuf)
    else if Begins inputbuf 0 httpdPost then (h.goto .postPath, inputbuf)
    else (h.goto .closed, inputbuf)
  | .getPath =>
    if inputbuf 0 ≠ isoSlash then (h.goto .closed, inputbuf)
    else if inputbuf 1 = isoSpace then (h.goto .output, inputbuf)
    else (h.goto .output, setU8 inputbuf (datalen - 1) 0)
  | .postPath =>
    if inputbuf 0 ≠ isoSlash then (h.goto .closed, inputbuf)
    else if Begins inputbuf 1 httpdConfigFile then
      (h.goto .headerNl, setU8 inputbuf (datalen - 1) 0)
    else if Begins inputbuf 1 httpdSocketStatusFile then
      ({ h with
        point := .output
        device := { h.device with relayToggles := h.device.relayToggles + 1 } },
        setU8 inputbuf (datalen - 1) 0)
    else (h.goto .closed, inputbuf)
  | .headerNl => (h.goto .headerCr, inputbuf)
  | .headerCr => (h.goto (if datalen = 1 then .headersEnd else .headerNl), inputbuf)
  | .headersEnd => (h.goto .domainNameEqual, inputbuf)
  | .domainNameEqual => (h.goto .domainName, inputbuf)
  | .domainName => (h.storeDomainName inputbuf datalen, inputbuf)
  | .relayEqual => (h.goto .relay, inputbuf)
  | .relay => (h.storeRelay inputbuf, inputbuf)
  | .output | .closed | .overrun => (h, inputbuf)

end Handler

end Httpd

/-- The part of `struct httpd_state` that the input side works on. -/
structure Httpd where
  sin : Psock
  handler : Httpd.Handler
  timer : Nat

namespace Httpd

/-- Behind a read that has come to its end. -/
def proceed (s : Httpd) (sin : Psock) : Httpd :=
  let (handler, inputbuf) := s.handler.proceed sin.inputbuf sin.datalen
  { s with sin := { sin with inputbuf := inputbuf }, handler := handler }

/-- `handle_input`, resumed where it waits, until it waits again. -/
def handleInput (u : Option (List UInt8)) : Nat → Httpd → Httpd
  | 0, s => s
  | n + 1, s =>
    match s.handler.point.delim with
    | none => s
    | some c =>
      match s.sin.readto c u with
      | (sin, false) => { s with sin := sin }
      | (sin, true) => handleInput u n (s.proceed sin)

/-- `handle_connection`. Every read takes at least one byte. -/
def handleConnection (u : Option (List UInt8)) (s : Httpd) : Httpd :=
  handleInput u (s.sin.unread.length + (u.getD []).length + 1) s

/-- What uIP calls the application for while a connection is open. -/
inductive Appcall where
  | poll | acked
  | newdata (data : List UInt8)
  deriving DecidableEq, Repr

/-- The segment in `uip_appdata`. -/
def Appcall.segment : Appcall → Option (List UInt8)
  | .poll | .acked => none
  | .newdata data => some data

def Appcall.data (call : Appcall) : List UInt8 := call.segment.getD []

/-- `httpd_appcall` for a new connection, which may bring its first data at once. -/
def connected (inputbuf : Mem) (device : Device) (u : Option (List UInt8)) : Httpd :=
  handleConnection u
    { sin := .init inputbuf, handler := { point := .method, device := device, copied := [] },
      timer := 0 }

/-- `httpd_appcall`. -/
def appcall (s : Httpd) : Appcall → Httpd
  | .poll =>
    if s.timer + 1 ≥ 20 then
      { s with timer := s.timer + 1, handler := s.handler.goto .closed }
    else handleConnection none { s with timer := s.timer + 1 }
  | call => handleConnection call.segment { s with timer := 0 }

/-- A connection from its first call on. -/
def serve (inputbuf : Mem) (device : Device) (u : Option (List UInt8)) (calls : List Appcall) :
    Httpd :=
  calls.foldl appcall (connected inputbuf device u)

/-! ## A connection as a reader -/

/-- The pieces a connection takes, with the buffer as it was before the piece. Of a long piece the
buffer has the beginning. -/
def reader : PieceReader (Handler × Mem) UInt8 where
  delim x := x.1.point.delim
  done x piece := x.1.proceed (writeBlock x.2 0 (piece.take Psock.bufsize))
    (min piece.length Psock.bufsize)

/-- Between two calls: the handler is the reader's, and the protosocket waits behind the piece. -/
structure Between (s : Httpd) (x : (Handler × Mem) × List UInt8) : Prop where
  handler : s.handler = x.1.1
  sin : reader.delim x.1 ≠ none → s.sin.Waits x.1.2 x.2

variable {s : Httpd} {m : Mem} {piece : List UInt8} {u : Option (List UInt8)}

theorem handleInput_of_short {c : UInt8} (n : Nat) (hdelim : s.handler.point.delim = some c)
    (hread : (s.sin.readto c u).2 = false) :
    handleInput u (n + 1) s = { s with sin := (s.sin.readto c u).1 } := by
  have hpair : s.sin.readto c u = ((s.sin.readto c u).1, false) := Prod.ext rfl hread
  rw [handleInput, hdelim]
  dsimp only
  rw [hpair]

theorem handleInput_of_found {c : UInt8} (n : Nat) (hdelim : s.handler.point.delim = some c)
    (hread : (s.sin.readto c u).2 = true) :
    handleInput u (n + 1) s = handleInput u n (s.proceed (s.sin.readto c u).1) := by
  have hpair : s.sin.readto c u = ((s.sin.readto c u).1, true) := Prod.ext rfl hread
  rw [handleInput, hdelim]
  dsimp only
  rw [hpair]

/-- What `handle_input` does with a piece is what the reader does with it. -/
theorem done_eq {sin : Psock} (h : sin.Holds m piece) :
    reader.done (s.handler, m) piece
      = ((s.proceed sin).handler, (s.proceed sin).sin.inputbuf) := by
  show s.handler.proceed _ _ = s.handler.proceed sin.inputbuf sin.datalen
  rw [h.inputbuf, h.datalen]

/-- **One call of `handle_input`** reads all the bytes it is offered. -/
theorem handleInput_reads {n : Nat} (hfit : s.sin.Fit) (h : s.sin.enter.Holds m piece)
    (hn : (s.sin.offer u).length < n) :
    Between (handleInput u n s) (reader.read ((s.handler, m), piece) (s.sin.offer u)) := by
  induction n generalizing s m piece with
  | zero => exact absurd hn (Nat.not_lt_zero _)
  | succ n ih =>
    cases hdelim : s.handler.point.delim with
    | none =>
      have hstop : reader.delim (s.handler, m) = none := hdelim
      rw [handleInput, hdelim, PieceReader.read_stopped hstop]
      exact ⟨rfl, fun hgoes => absurd hstop hgoes⟩
    | some c =>
      have hmarker : reader.delim (s.handler, m) = some c := hdelim
      by_cases hc : c ∈ s.sin.offer u
      · -- a piece ends, and the next read begins with what is left
        obtain ⟨data, rest, hoffer, hdata⟩ := List.eq_append_cons_of_mem hc
        obtain ⟨hended, hholds, hunread, hstate, hwaiting⟩ :=
          Psock.readto_found hfit h hoffer hdata
        rw [handleInput_of_found n hdelim hended, hoffer, PieceReader.read_piece hmarker hdata,
          done_eq hholds]
        have hrest : (s.proceed (s.sin.readto c u).1).sin.offer u = rest := by
          show (if (s.sin.readto c u).1.state = .read then (s.sin.readto c u).1.unread else _) = rest
          rw [if_pos hstate, hunread]
        have hlt : rest.length < n := by
          rw [hoffer, List.length_append, List.length_cons] at hn
          omega
        have hgo := ih (s := s.proceed (s.sin.readto c u).1)
          (fun hne => absurd hstate hne) (Psock.holds_enter hwaiting) (hrest ▸ hlt)
        rw [hrest] at hgo
        exact hgo
      · have hread := Psock.readto_short hfit h hc
        rw [handleInput_of_short n hdelim hread.1, PieceReader.read_short hmarker hc]
        exact ⟨rfl, fun _ => hread.2⟩

theorem Between.withTimer {x : (Handler × Mem) × List UInt8} (h : Between s x) (timer : Nat) :
    Between { s with timer := timer } x := ⟨h.handler, h.sin⟩

/-- A call that finds the protosocket waiting reads its segment. -/
theorem handleConnection_reads {x : (Handler × Mem) × List UInt8} (h : Between s x)
    (u : Option (List UInt8)) : Between (s.handleConnection u) (reader.read x (u.getD [])) := by
  obtain ⟨⟨handler, m⟩, piece⟩ := x
  have hhandler : s.handler = handler := h.handler
  subst hhandler
  by_cases hdelim : reader.delim (s.handler, m) = none
  · have hpoint : s.handler.point.delim = none := hdelim
    rw [handleConnection, handleInput, hpoint, PieceReader.read_stopped hdelim]
    exact h
  · have hwaits := h.sin hdelim
    have hoffer : s.sin.offer u = u.getD [] := if_neg hwaits.state
    have hgo := handleInput_reads (u := u) (n := s.sin.unread.length + (u.getD []).length + 1)
      (fun _ => hwaits.unread) hwaits.enter (by rw [hoffer]; omega)
    rw [hoffer] at hgo
    exact hgo

/-- The first call reads what it brings. -/
theorem connected_reads (inputbuf : Mem) (device : Device) (u : Option (List UInt8)) :
    Between (connected inputbuf device u)
      (reader.read (({ point := .method, device := device, copied := [] }, inputbuf), [])
        (u.getD [])) := by
  have hoffer : (Psock.init inputbuf).offer u = u.getD [] := rfl
  have hgo := handleInput_reads (u := u) (n := ([] : List UInt8).length + (u.getD []).length + 1)
    (s := { sin := .init inputbuf, handler := { point := .method, device := device, copied := [] },
            timer := 0 })
    (fun _ => rfl) (Psock.holds_enter rfl) (by rw [hoffer]; simp)
  rw [hoffer] at hgo
  exact hgo

/-- The time-out closes a connection at the twentieth poll in a row. -/
def InTime (calls : List Appcall) : Prop := ¬ List.replicate 20 .poll <:+: calls

instance (calls : List Appcall) : Decidable (InTime calls) :=
  inferInstanceAs (Decidable (¬ _))

@[simp] theorem handleInput_timer (n : Nat) (s : Httpd) :
    (handleInput u n s).timer = s.timer := by
  induction n generalizing s with
  | zero => rfl
  | succ n ih =>
    rw [handleInput]
    cases s.handler.point.delim with
    | none => rfl
    | some c =>
      dsimp only
      split
      next => rfl
      next sin _ =>
        rw [ih]
        rfl

@[simp] theorem handleConnection_timer (s : Httpd) :
    (s.handleConnection u).timer = s.timer := handleInput_timer _ s

theorem serve_append (inputbuf : Mem) (device : Device) (u : Option (List UInt8))
    (calls : List Appcall) (call : Appcall) :
    serve inputbuf device u (calls ++ [call]) = (serve inputbuf device u calls).appcall call := by
  simp [serve]

theorem timer_poll (s : Httpd) : (s.appcall .poll).timer = s.timer + 1 := by
  rw [appcall]
  split
  next => rfl
  next => exact handleConnection_timer _

/-- The timer counts the polls since the last other call. -/
theorem polls_serve (inputbuf : Mem) (device : Device) (u : Option (List UInt8))
    (calls : List Appcall) :
    List.replicate (serve inputbuf device u calls).timer .poll <:+ calls := by
  induction calls using List.reverseRecOn with
  | nil =>
    rw [serve, List.foldl_nil, connected, handleConnection_timer]
    exact List.nil_suffix
  | append_singleton calls call ih =>
    rw [serve_append]
    cases call with
    | poll =>
      rw [timer_poll, List.replicate_succ']
      obtain ⟨earlier, hearlier⟩ := ih
      exact ⟨earlier, by rw [← List.append_assoc, hearlier]⟩
    | acked => exact (handleConnection_timer _).symm ▸ List.nil_suffix
    | newdata data => exact (handleConnection_timer _).symm ▸ List.nil_suffix

/-- **A connection reads its request**, however it is cut into segments and polled in between. -/
theorem serve_reads (inputbuf : Mem) (device : Device) (u : Option (List UInt8))
    {calls : List Appcall} (hcalls : InTime calls) :
    Between (serve inputbuf device u calls)
      (reader.read (({ point := .method, device := device, copied := [] }, inputbuf), [])
        (u.getD [] ++ calls.flatMap Appcall.data)) := by
  induction calls using List.reverseRecOn with
  | nil =>
    rw [List.flatMap_nil, List.append_nil]
    exact connected_reads inputbuf device u
  | append_singleton calls call ih =>
    have hearlier : InTime calls := fun hin => hcalls (hin.trans (List.prefix_append _ _).isInfix)
    have hbetween := ih hearlier
    rw [serve_append, List.flatMap_append, List.flatMap_singleton, ← List.append_assoc,
      PieceReader.read_append]
    cases call with
    | poll =>
      have htimer : ¬ (serve inputbuf device u calls).timer + 1 ≥ 20 := by
        intro hlate
        have hpolls := polls_serve inputbuf device u (calls ++ [.poll])
        rw [serve_append, timer_poll] at hpolls
        obtain ⟨k, hk⟩ := Nat.exists_eq_add_of_le' hlate
        rw [hk, List.replicate_add] at hpolls
        exact hcalls ((List.suffix_append _ _).trans hpolls).isInfix
      rw [appcall, if_neg htimer]
      exact handleConnection_reads (hbetween.withTimer _) none
    | acked => exact handleConnection_reads (hbetween.withTimer 0) none
    | newdata data => exact handleConnection_reads (hbetween.withTimer 0) (some data)

/-- A way for some bytes to come in over a connection. -/
structure Delivery (bytes : List UInt8) where
  first : Option (List UInt8)
  calls : List Appcall
  whole : first.getD [] ++ calls.flatMap Appcall.data = bytes
  inTime : InTime calls

/-- Segment after segment. -/
def Delivery.segments {bytes : List UInt8} (segments : List (List UInt8))
    (h : segments.flatten = bytes) : Delivery bytes where
  first := none
  calls := segments.map .newdata
  whole := by
    rw [← h, Option.getD_none, List.nil_append, List.flatMap_map]
    exact List.flatMap_id
  inTime := by
    intro hin
    have hpoll : Appcall.poll ∈ segments.map .newdata := hin.subset (by simp)
    simp at hpoll

/-- **The cut does not matter**: whichever way some bytes are delivered, the handler ends as the
reader does on them. -/
theorem Delivery.handler_eq {bytes : List UInt8} (d : Delivery bytes) (inputbuf : Mem)
    (device : Device) :
    (serve inputbuf device d.first d.calls).handler
      = (reader.read (({ point := .method, device := device, copied := [] }, inputbuf), [])
          bytes).1.1 := by
  have hserve := serve_reads inputbuf device d.first d.inTime
  rw [d.whole] at hserve
  exact hserve.handler

end Httpd

end Hexabus.Firmware
