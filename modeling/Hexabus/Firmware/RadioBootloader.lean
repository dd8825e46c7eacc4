import Hexabus.Firmware.UsbBootloader

/-!
# The radio bootloader

`ProgramFlash` of the Socket's `Bootloader.c`, which takes up to three lines of a hex file in a
packet, and `bootloader_send_data` of the USB stick, which puts the lines that it is given into
packets and sends each one until it is answered. The page commands are those of the USB
bootloader; the addresses have 32 bits here.
-/

namespace Hexabus.Firmware.RadioBootloader

open UsbBootloader (pagesize bootErasePage bootWritePage bootWriteBuffer)

/-- The flash and the page buffer, and the variables of `ProgramFlash` that a line or a packet
leaves to the next one. -/
structure Boot extends UsbBootloader.Boot where
  segmentOffset : Nat
  dataLength : UInt8
  temp : UInt8
  lastStartAddr : Nat
  packetSuccess : Bool
  l : Nat
  currentpos : Nat
  nextLine : Bool
  addrLow : UInt8
  addrHigh : UInt8

/-! ## A line -/

/-- The page of a line with data. (`startAddress` is never behind the line's address here.) -/
def enter (currentAddress : Nat) (s : Boot) : Boot :=
  let t :=
    if s.startAddress = 0xFFFFFFFF then
      let t := { s with
        temp := UInt8.ofNat (currentAddress / pagesize)
        startAddress := pagesize * (currentAddress / pagesize) }
      if t.pagePos = 0 then { t with toBoot := bootErasePage t.startAddress t.toBoot } else t
    else if s.startAddress > currentAddress + s.segmentOffset ∨
        (s.startAddress + pagesize) % 0x100000000 ≤ currentAddress + s.segmentOffset then
      let t := { s with toBoot := bootWritePage s.startAddress s.toBoot }
      let t := { t with
        pagePos := 0
        temp := UInt8.ofNat (currentAddress / pagesize)
        startAddress := s.segmentOffset + pagesize * (currentAddress / pagesize) }
      { t with toBoot := bootErasePage t.startAddress t.toBoot }
    else s
  { t with pagePos := (currentAddress + s.segmentOffset - t.startAddress) % 65536 }

/-- A full page is written, and the next one is begun. -/
def turn (currentAddress i : Nat) (s : Boot) : Boot :=
  if s.pagePos ≥ pagesize then
    let t := { s with toBoot := bootWritePage s.startAddress s.toBoot }
    let t := { t with
      startAddress := (s.segmentOffset + currentAddress + i) % 0x100000000
      pagePos := 0 }
    { t with toBoot := bootErasePage t.startAddress t.toBoot }
  else s

/-- The word of the line at `bufferPos = currentpos + 6 + i`. -/
def word (currentAddress i : Nat) (s : Boot) : Boot :=
  let t := turn currentAddress i s
  let low := t.buffer (t.currentpos + 6 + i)
  let high := t.buffer (t.currentpos + 6 + i + 1)
  let t := { t with toBoot := bootWriteBuffer currentAddress i low high t.toBoot, temp := high }
  { t with pagePos := (t.pagePos + 2) % 65536 }

/-- The words of the line from a position on. (Beyond the bounds of the buffer the position, a
byte, would wrap around.) -/
def words (currentAddress : Nat) : Nat → Nat → Boot → Boot
  | 0, _, s => s
  | n + 1, i, s => words currentAddress n (i + 2) (word currentAddress i s)

/-- How the loop over the lines of a packet goes on. -/
inductive Verdict
  | more
  | wrong
  | last
  deriving DecidableEq

/-- `pagePos -= dataLength`, when a line is refused. -/
def refuse (s : Boot) : Boot × Verdict :=
  ({ s with pagePos := (s.pagePos + 65536 - s.dataLength.toNat) % 65536 }, .wrong)

/-- `ProgramFlash`: the line that begins behind `currentpos`. -/
def line (s : Boot) : Boot × Verdict :=
  let byte := fun i => s.buffer (s.currentpos + i)
  if byte 1 ≠ 0x3a then refuse s
  else
    let dataLength := byte 2
    let currentAddress := (byte 3).toNat * 256 + (byte 4).toNat
    let type := byte 5
    let t := { s with
      dataLength := dataLength
      temp := byte 4
      segmentOffset :=
        if currentAddress = 0 ∧ s.startAddress ≠ 0xFFFFFFFF then
          (s.segmentOffset + 0x10000) % 0x100000000
        else s.segmentOffset }
    let sum := (List.range dataLength.toNat).foldl (fun sum i => sum + byte (6 + i))
      (dataLength + byte 3 + byte 4 + type)
    if 0xFF - sum + 1 = byte (6 + dataLength.toNat) then
      if type = 0x01 then ({ t with nextLine := false }, .last)
      else if dataLength ≠ 0 then
        let t := words currentAddress ((dataLength.toNat + 1) / 2) 0 (enter currentAddress t)
        ({ t with currentpos := t.currentpos + dataLength.toNat + 6 }, .more)
      else (t, .more)
    else refuse t

/-! ## A packet -/

/-- The lines of a packet from `l` on, and whether one was refused. -/
def lines : Nat → Boot → Boot × Bool
  | 0, s => (s, false)
  | n + 1, s =>
    match line s with
    | (t, .more) => lines n { t with l := t.l + 1 }
    | (t, .wrong) => (t, true)
    | (t, .last) => (t, false)

/-- Whether the packet in the buffer is taken for the one before. -/
def Recognised (s : Boot) : Prop :=
  (s.buffer 6).toNat * 256 + (s.buffer 7).toNat = s.lastStartAddr ∧ s.packetSuccess = true

instance (s : Boot) : Decidable (Recognised s) := inferInstanceAs (Decidable (_ ∧ _))

/-- What is set before the lines of the packet in the buffer are read: no line is left to a packet
that is taken for the one before. -/
def begun (s : Boot) : Boot :=
  { s with
    l := if Recognised s then (s.buffer 3).toNat else s.l
    lastStartAddr := s.temp.toNat
    packetSuccess := false }

/-- `ProgramFlash`: the packet in the buffer, and the answer. -/
def packet (s : Boot) : Boot × UInt8 :=
  let linecount := (s.buffer 3).toNat
  match lines (linecount - (begun s).l) (begun s) with
  | (t, true) => (t, 0x06)
  | (t, false) => ({ t with packetSuccess := true, l := 0, currentpos := 3 }, 0x05)

/-- The last page is written. (What the bootloader notes in its EEPROM then is left out.) -/
def finish (s : Boot) : Boot := { s with toBoot := bootWritePage s.startAddress s.toBoot }

/-- What `receivePacket` leaves in the buffer: a frame, or nothing new when the timer has ended the
wait. -/
def load (frame : List UInt8) (s : Boot) : Boot :=
  { s with buffer := fun i => frame.getD i (s.buffer i) }

/-- What is done with the buffer behind `receivePacket`: it is left alone without the bootloader's
address, and else taken for a packet and answered. -/
def respond (s : Boot) : Boot × Option UInt8 :=
  if s.buffer 1 ≠ s.addrLow ∧ s.buffer 2 ≠ s.addrHigh then (s, none)
  else
    let r := packet s
    (if r.1.nextLine then r.1 else finish r.1, some r.2)

/-- `ProgramFlash`, while `nextLine` is set. -/
def receive (frame : List UInt8) (s : Boot) : Boot × Option UInt8 :=
  if s.nextLine then respond (load frame s) else (s, none)

/-- `ProgramFlash` before the first packet. The buffers, `temp` and `dataLength` hold anything. -/
def begin (flash temporary buffer : Nat → UInt8) (temp dataLength addrLow addrHigh : UInt8) :
    Boot where
  flash := flash
  temporary := temporary
  touched := []
  buffer := buffer
  pagePos := 0
  startAddress := 0xFFFFFFFF
  segmentOffset := 0
  dataLength := dataLength
  temp := temp
  lastStartAddr := 0xFFFF
  packetSuccess := false
  l := 0
  currentpos := 3
  nextLine := true
  addrLow := addrLow
  addrHigh := addrHigh

/-! ## The relay -/

/-- A line of a hex file, with the address that the file gives to its data. -/
structure Record where
  address : Nat
  type : UInt8
  data : List UInt8
  short : data.length < 256

/-- The bytes of a line, up to its checksum. -/
def Record.head (r : Record) : List UInt8 :=
  [UInt8.ofNat r.data.length, UInt8.ofNat (r.address / 256), UInt8.ofNat r.address, r.type]

/-- The checksum of a line. -/
def Record.checksum (r : Record) : UInt8 := 0xFF - (r.head ++ r.data).foldl (· + ·) 0 + 1

/-- A line as it is sent. The relay takes no other from the host. -/
def Record.bytes (r : Record) : List UInt8 := 0x3a :: (r.head ++ r.data ++ [r.checksum])

/-- `MAX_HEX_LINE_SIZE`. -/
def maxHexLineSize : Nat := 128

/-- `LINE_COUNT`. -/
def lineCount : Nat := 3

/-- The lines of a packet, and those behind it; nothing when a line is too long, or when no line
comes. -/
def gather : Nat → Nat → List Record → Option (List Record × List Record)
  | 0, _, rest => some ([], rest)
  | _ + 1, _, [] => none
  | n + 1, currentpos, r :: rest =>
    if r.data.length + currentpos + 6 > maxHexLineSize then none
    else if r.data.length = 0 then some ([r], rest)
    else
      (gather n (currentpos + r.data.length + 6) rest).map fun (packet, rest) => (r :: packet, rest)

/-- The frame of a packet, `hex_data`. -/
def hexData (addrLow addrHigh : UInt8) (packet : List Record) : List UInt8 :=
  [0x58, addrLow, addrHigh, UInt8.ofNat packet.length] ++ packet.flatMap Record.bytes ++
    [0x58, 0x58]

/-- `rf212_send`: whether a frame is sent, with two bytes that the radio appends. -/
def Sendable (frame : List UInt8) : Prop := frame.length + 2 ≤ 127

instance (frame : List UInt8) : Decidable (Sendable frame) := inferInstanceAs (Decidable (_ ≤ _))

/-- `bootloader_send_data`: a packet is sent until it is answered, and the last one has a line
without data; or it has returned `-1`, or waits for a line. -/
inductive Relay
  | failed
  | sending (packet rest : List Record)
  | ended (rest : List Record)

/-- The packet that is sent next. -/
def Relay.next (lines : List Record) : Relay :=
  match gather lineCount 3 lines with
  | some (packet, rest) => .sending packet rest
  | none => .failed

/-- `lastline`. -/
def lastline (packet : List Record) : Bool := packet.any fun r => r.data.length = 0

/-! ## A session -/

/-- The relay and the bootloader; and, for the conditions on a run, the packets that the relay has
had answers for, and whether the one in hand has come to the bootloader. -/
structure Session where
  relay : Relay
  boot : Boot
  sent : List (List Record)
  again : Bool

/-- What becomes of a packet that the relay sends: it is lost; or it arrives, and the answer does or
does not; or it is lost when the timer ends the bootloader's wait, and the bootloader answers to
what it has in its buffer. -/
inductive Event
  | lost
  | arrives (answered : Bool)
  | expires (answered : Bool)

/-- The relay sends the next packet when it has been answered within a second, and else the same. -/
def conclude (packet rest : List Record) (answered : Bool) (sent : List (List Record))
    (again : Bool) (r : Boot × Option UInt8) : Session :=
  if answered = true ∧ r.2 = some 0x05 then
    { relay := if lastline packet then .ended rest else .next rest
      boot := r.1
      sent := sent ++ [packet]
      again := false }
  else { relay := .sending packet rest, boot := r.1, sent := sent, again := again }

/-- A packet is sent. (The relay has the bootloader's address from its first answer.) -/
def exchange (e : Event) (s : Session) : Session :=
  match s.relay with
  | .sending packet rest =>
    let frame := hexData s.boot.addrLow s.boot.addrHigh packet
    if Sendable frame then
      match e with
      | .lost => s
      | .arrives answered => conclude packet rest answered s.sent true (receive frame s.boot)
      | .expires answered => conclude packet rest answered s.sent s.again (receive [] s.boot)
    else s
  | _ => s

end Hexabus.Firmware.RadioBootloader
