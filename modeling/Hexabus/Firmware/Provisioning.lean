import Hexabus.Firmware.Eeprom
import Hexabus.Lib.Runs

/-!
# Provisioning

`provisioning.c`. The USB stick is the master, a process that waits for a socket that asks and
sends it the PAN id and the key; the socket is the slave, a function that asks until it is
answered. Both move to PAN 1 and into the bootloader mode of the radio for as long as they run.
What the radio has received and the framer has parsed, and the clock, are what a run is given.
-/

namespace Hexabus.Firmware

open Lib Lib.Bytes Lib.Store

namespace EE

def panId : Nat := 11
def encryptionKey : Nat := 17
def encryptionKeySize : Nat := 16

/-- The name is behind the key. -/
theorem encryptionKey_end : encryptionKey + encryptionKeySize = domainName := rfl

end EE

namespace Provisioning

/-! ## Messages -/

/-- `PROVISIONING_HEADER`, with its NUL. -/
def provisioningHeader : List UInt8 :=
  [0x50, 0x52, 0x4F, 0x56, 0x49, 0x53, 0x49, 0x4F, 0x4E, 0x49, 0x4E, 0x47, 0]

/-- `struct provisioning_m_t`, without its header. -/
structure Message where
  panId : UInt16
  aesKey : Block 16
  deriving DecidableEq

/-- `sizeof(struct provisioning_m_t)`. -/
def Message.size : Nat := 31

def Message.bytes (msg : Message) : List UInt8 :=
  provisioningHeader ++ leBytes 2 msg.panId.toNat ++ msg.aesKey.val

/-- The packet buffer, from `packetbuf_dataptr` on. -/
structure Packetbuf where
  data : Mem
  datalen : Nat

namespace Packetbuf

/-- The header, in a packet of that size. -/
def holdsHeader (size : Nat) (p : Packetbuf) : Bool :=
  p.datalen == size && readBlock p.data 0 provisioningHeader.length == provisioningHeader

/-- The master waits for the header alone. -/
def isRequest : Packetbuf → Bool := holdsHeader provisioningHeader.length

/-- The slave waits for a whole message. -/
def isMessage : Packetbuf → Bool := holdsHeader Message.size

/-- The fields, at their offsets. -/
def message (p : Packetbuf) : Message :=
  ⟨getU16 p.data 13, ⟨readBlock p.data 15 16, length_readBlock _ _ _⟩⟩

end Packetbuf

/-- A packet as it is sent. -/
structure Sent where
  payload : List UInt8
  dstPanId : UInt16
  srcPanId : UInt16
  encrypted : Bool
  deriving DecidableEq

/-! ## A device -/

/-- The variables of the device, the registers of its radio, and what it has sent. -/
structure Mote where
  bootloaderMode : Nat
  bootloaderPkt : Nat
  encryptionEnabled : UInt8
  macSrcPanId : UInt16
  macDstPanId : UInt16
  panAddr : UInt16
  shortAddr : UInt16
  aesKey : Block 16
  eeprom : Mem
  sent : List Sent

namespace Mote

/-- `rf212_set_pan_addr`, without an IEEE address. -/
def rf212SetPanAddr (pan addr : UInt16) (m : Mote) : Mote :=
  { m with panAddr := pan, shortAddr := addr }

/-- `rf212_key_setup`. -/
def rf212KeySetup (key : Block 16) (m : Mote) : Mote := { m with aesKey := key }

/-- Both PAN ids of frames, and the one of the radio. -/
def setPanId (pan : UInt16) (m : Mote) : Mote :=
  rf212SetPanAddr pan 0 { m with macDstPanId := pan, macSrcPanId := pan }

/-- `NETSTACK_RDC.send`. -/
def send (payload : List UInt8) (m : Mote) : Mote :=
  { m with sent := m.sent ++ [⟨payload, m.macDstPanId, m.macSrcPanId, m.encryptionEnabled != 0⟩] }

/-- `get_aes128key_from_eeprom`. -/
def getAes128key (m : Mote) : Block 16 :=
  ⟨readBlock m.eeprom EE.encryptionKey EE.encryptionKeySize, length_readBlock _ _ _⟩

/-- `get_panid_from_eeprom`. -/
def getPanid (m : Mote) : UInt16 := getU16 m.eeprom EE.panId

end Mote

/-! ## Time -/

/-- `clock_time() - time > limit`, in 16 bits. -/
def expired (limit clock time : UInt16) : Bool := clock - time > limit

/-- `CLOCK_SECOND * PROV_TIMEOUT_USB`. -/
def timeoutUsb : UInt16 := 125 * 500

/-- `CLOCK_SECOND * PROV_TIMEOUT_SOCKET`. -/
def timeoutSocket : UInt16 := 125 * 30

/-! ## The master -/

/-- The two pauses of the master: at the start of each round, and while no packet is there. -/
inductive Pause
  | round | noPacket
  deriving DecidableEq

/-- The master at a pause. Nothing reads `before`, the device as it was when the run started. -/
structure Master where
  pause : Pause
  time : UInt16
  provPanId : UInt16
  before : Mote

/-- What the master meets between two pauses: the clock in the loop, `bootloader_pkt`, the packet
that is read and parsed, and the clock behind the loop. -/
structure Moment where
  clock : UInt16
  bootloaderPkt : Bool
  packetbuf : Packetbuf
  clockAfter : UInt16

namespace Master

/-- `provisioning_process`, up to its first pause. -/
def start (clock : UInt16) (m : Mote) : Master × Mote :=
  (⟨.round, clock, m.macSrcPanId, m⟩,
    { m with bootloaderPkt := 0, bootloaderMode := 1 }.setPanId 0x0001)

/-- The code behind the loop. -/
def finish (clockAfter : UInt16) (p : Master) (m : Mote) : Mote :=
  if expired timeoutUsb clockAfter p.time then
    { m.setPanId p.provPanId with bootloaderMode := 0 }
  else
    let msg : Message := ⟨p.provPanId, m.getAes128key⟩
    let tmpEnc := m.encryptionEnabled
    let m := { m with encryptionEnabled := 0 }.send msg.bytes
    let m := { m with encryptionEnabled := tmpEnc }
    { m.setPanId p.provPanId with bootloaderMode := 0 }

/-- The packet is read; the next round begins with a pause. -/
def readPacket (x : Moment) (p : Master) (m : Mote) : Option Master × Mote :=
  let m := { m with bootloaderPkt := 0 }
  if x.packetbuf.isRequest then (none, finish x.clockAfter p m)
  else (some { p with pause := .round }, m)

/-- `while(!bootloader_pkt)`. -/
def awaitPacket (x : Moment) (p : Master) (m : Mote) : Option Master × Mote :=
  if x.bootloaderPkt then readPacket x p m else (some { p with pause := .noPacket }, m)

/-- From a pause to the next one, or to the end. The time-out leaves the outer loop at the first
pause, and only the inner one at the second. -/
def resume (x : Moment) (p : Master) (m : Mote) : Option Master × Mote :=
  match p.pause with
  | .round =>
    if expired timeoutUsb x.clock p.time then (none, finish x.clockAfter p m)
    else awaitPacket x p m
  | .noPacket =>
    if expired timeoutUsb x.clock p.time then readPacket x p m else awaitPacket x p m

end Master

/-! ## The stick -/

/-- A run of the master that has ended. -/
structure Run where
  before : Mote
  after : Mote
  cancelled : Bool

/-- The stick: `provisioning_process` if it is on the process list, the command that is being
parsed, and the runs so far, which nothing reads. -/
structure Stick where
  mote : Mote
  process : Option Master
  isParsing : Bool
  parsedStr : List UInt8
  ended : List Run

/-- A stick that has just started. -/
def Stick.boot (mote : Mote) : Stick := ⟨mote, none, false, [], []⟩

/-- What happens on a stick: a character from the host, the button, and the event that a pause
of the process waits for. -/
inductive Event
  | getchar (c : UInt8) (clock : UInt16)
  | buttonReleased (clock : UInt16)
  | resume (x : Moment)

namespace Stick

/-- `provisioning_master`; a process that runs is not started again. -/
def provisioningMaster (clock : UInt16) (s : Stick) : Stick :=
  match s.process with
  | some _ => s
  | none =>
    { s with
      process := some (Master.start clock s.mote).1
      mote := (Master.start clock s.mote).2 }

/-- `process_exit(&provisioning_process)`: the exit handler jumps behind all of the code that
puts the device back, to the lights. -/
def processExit (s : Stick) : Stick :=
  match s.process with
  | none => s
  | some p => { s with process := none, ended := s.ended ++ [⟨p.before, s.mote, true⟩] }

/-- The process is called with the event of its pause. -/
def resume (x : Moment) (s : Stick) : Stick :=
  match s.process with
  | none => s
  | some p =>
    match p.resume x s.mote with
    | (some p', m) => { s with process := some p', mote := m }
    | (none, m) => { s with process := none, mote := m, ended := s.ended ++ [⟨p.before, m, false⟩] }

/-- `P_ON_STR`. -/
def pOnStr : List UInt8 := [0x48, 0x58, 0x42, 0x5F, 0x50, 0x5F, 0x4F, 0x4E]

/-- `P_OFF_STR`. -/
def pOffStr : List UInt8 := [0x48, 0x58, 0x42, 0x5F, 0x50, 0x5F, 0x4F, 0x46, 0x46]

/-- `process_pairing_command`: whether the character was one of a command. -/
def processPairingCommand (c : UInt8) (clock : UInt16) (s : Stick) : Bool × Stick :=
  if c = 0x26 ∧ s.isParsing then
    let command := cString s.parsedStr
    let s := { s with isParsing := false, parsedStr := [] }
    if command = pOnStr then (true, s.provisioningMaster clock)
    else if command = pOffStr then (true, s.processExit)
    else (true, s)
  else if ¬ s.isParsing ∧ c = 0x24 then (true, { s with isParsing := true, parsedStr := [] })
  else if s.isParsing then
    let s := { s with parsedStr := s.parsedStr ++ [c] }
    if s.parsedStr.length ≥ 20 then (true, { s with isParsing := false, parsedStr := [] })
    else (true, s)
  else (false, s)

def step : Event → Stick → Stick
  | .getchar c clock, s => (s.processPairingCommand c clock).2
  | .buttonReleased clock, s => s.provisioningMaster clock
  | .resume x, s => s.resume x

/-- All that happens on a stick from its start on. -/
def run (mote : Mote) (events : List Event) : Stick := Runs.run step (boot mote) events

end Stick

/-! ## The slave -/

/-- A round of the slave: the clock, and the packet that is read and parsed after it has asked. -/
structure Round where
  clock : UInt16
  packetbuf : Packetbuf

/-- What a run of the slave meets: the clock at its start, what the packet buffer has in it by
then, the rounds, and the clock behind the loop. -/
structure SlaveRun where
  time : UInt16
  packetbuf : Packetbuf
  rounds : List Round
  clockAfter : UInt16

namespace SlaveRun

/-- The loop: what it has sent, and what it leaves in the packet buffer. There is no end as long
as more rounds are to come. -/
def loop (time : UInt16) : List Round → Packetbuf → Mote → Option (Packetbuf × Mote)
  | [], _, _ => none
  | r :: rounds, packetbuf, m =>
    if expired timeoutSocket r.clock time then some (packetbuf, m)
    else
      let m := m.send provisioningHeader
      if r.packetbuf.isMessage then some (r.packetbuf, m) else loop time rounds r.packetbuf m

/-- The code behind the loop. -/
def finish (run : SlaveRun) (oldPanId : UInt16) (tmpEnc : UInt8) (packetbuf : Packetbuf)
    (m : Mote) : Int × Mote :=
  if expired timeoutSocket run.clockAfter run.time then
    (-1, { m.setPanId oldPanId with bootloaderMode := 0, encryptionEnabled := tmpEnc })
  else
    let packet := packetbuf.message
    let m := { m with
      eeprom := writeBlock (setU16 m.eeprom EE.panId packet.panId) EE.encryptionKey
        packet.aesKey.val }
    let m := (m.rf212KeySetup packet.aesKey).setPanId packet.panId
    (0, { m with bootloaderMode := 0, encryptionEnabled := tmpEnc })

/-- `provisioning_slave`, with what it returns. -/
def provisioningSlave (run : SlaveRun) (m : Mote) : Option (Int × Mote) :=
  let oldPanId := m.macSrcPanId
  let tmpEnc := m.encryptionEnabled
  let m := { m with bootloaderPkt := 0, bootloaderMode := 1 }
  let m := { m.setPanId 0x0001 with encryptionEnabled := 0 }
  (loop run.time run.rounds run.packetbuf m).map fun (packetbuf, m) =>
    run.finish oldPanId tmpEnc packetbuf m

end SlaveRun

end Provisioning

end Hexabus.Firmware
