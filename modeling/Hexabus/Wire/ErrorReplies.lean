import Hexabus.Firmware.Reception
import Hexabus.Lib.Network
import Hexabus.Wire.FirmwareToHost

/-!
# Replies to errors

What a device replies to an error packet, and what becomes of such a reply in a network of
devices. An error packet that fails the checksum is answered, because the checksum is looked at
before the type; the answer does not fail it, so nothing answers the answer.
-/

namespace Hexabus.Wire

open Lib.Bytes Lib.Store Lib.Runs Lib.Network Firmware
open Host.BinarySerializer (appendCRC)
open Host (frame valueDatagram)

/-! ## One datagram -/

/-- An error packet, as far as its header tells. -/
def IsError (m : Mem) : Prop :=
  isHexabusPacket m = true ∧ m HxbPacket.type = PacketType.error.code

/-- The codes of the protocol: the errors that are not internal to a device. -/
def protocolErrors : List ErrorCode :=
  [.unknownEid, .writeReadonly, .crcFailed, .datatype, .invalidValue]

/-- What is replied to the packet in the receive buffer. -/
structure RepliesWell (arrival : Arrival) (m : Mem) (reply : Option Mem) : Prop where
  wellFormed : IsError m → checkCrc m = .success → reply = none
  corrupted : IsError m → checkCrc m ≠ .success → reply = some (errorPacket .crcFailed)
  broadcast : m HxbPacket.type = PacketType.info.code → arrival.toGroup = true → reply = none
  codes : ∀ packet, reply = some packet → packet HxbPacket.type = PacketType.error.code →
    ∃ code ∈ protocolErrors, packet = errorPacket code

/-- `HXB_ERR_INTERNAL` is a threshold. -/
theorem mem_protocolErrors {err : ErrorCode} (hne : err ≠ .success)
    (h : err.code &&& hxbErrInternal = 0) : err ∈ protocolErrors := by
  cases err with
  | success => exact absurd rfl hne
  | unknownEid => decide
  | writeReadonly => decide
  | crcFailed => decide
  | datatype => decide
  | invalidValue => decide
  | malformedPacket => exact absurd h (by decide)
  | unexpectedPacket => exact absurd h (by decide)
  | noValue => exact absurd h (by decide)

/-- What is sent back is an error of the protocol. -/
theorem sentBack_codes {err : ErrorCode} {packet : Mem} (hne : err ≠ .success)
    (h : sentBack err = some packet) : ∃ code ∈ protocolErrors, packet = errorPacket code := by
  unfold sentBack at h
  split at h
  · rename_i hcode
    cases h
    exact ⟨err, mem_protocolErrors hne hcode, rfl⟩
  · cases h

variable {σ : Type} {chain : EndpointChain σ} {eeprom buffer : Mem} {value : HxbValue} {s : σ}
  {arrival : Arrival} {m : Mem}

/-- An error that the handler finds itself is sent back if it is one of the protocol. -/
theorem replyError_codes {isBroadcast : Bool} {err code : ErrorCode} (hne : err ≠ .success)
    (h : replyError isBroadcast err = .reply code) : code ∈ protocolErrors := by
  unfold replyError at h
  split at h
  · rename_i hcond
    cases h
    exact mem_protocolErrors hne hcond.2
  · cases h

theorem udphandler_codes {code : ErrorCode} (h : udphandler arrival value m = .reply code) :
    code ∈ protocolErrors := by
  unfold udphandler at h
  split at h
  · cases h
  split at h
  · rename_i hcrc
    exact replyError_codes hcrc h
  have hunexpected : ErrorCode.unexpectedPacket ≠ .success := by decide
  simp only at h
  split at h
  · -- a write
    split at h
    · rename_i hextract
      exact replyError_codes hextract h
    · cases h
  · cases h
  · cases h
  · -- an info, handed over or dropped
    split at h
    · cases h
    split at h <;> cases h
  · exact replyError_codes hunexpected h
  · exact replyError_codes hunexpected h
  · exact replyError_codes hunexpected h

/-- A reply is an error of the protocol, or it answers a query. -/
theorem perform_reply {packet : Mem}
    (h : ((udphandler arrival value m).perform chain eeprom buffer value s).reply = some packet) :
    (∃ code ∈ protocolErrors, packet = errorPacket code) ∨
      packet HxbPacket.type = PacketType.info.code ∨
      packet HxbPacket.type = PacketType.epinfo.code := by
  cases haction : udphandler arrival value m with
  | ignore =>
    rw [haction] at h
    cases h
  | reply code =>
    rw [haction] at h
    cases h
    exact .inl ⟨code, udphandler_codes haction, rfl⟩
  | write envelope =>
    rw [haction] at h
    simp only [Action.perform] at h
    split at h
    · rename_i herr
      exact .inl (sentBack_codes herr h)
    · cases h
  | query eid =>
    rw [haction] at h
    simp only [Action.perform] at h
    split at h
    · rename_i herr
      exact .inl (sentBack_codes herr h)
    · rename_i herr
      cases h
      exact .inr (.inl (generateQueryResponse_type (Prod.ext (not_not.mp herr) rfl)))
  | epquery eid =>
    rw [haction] at h
    simp only [Action.perform] at h
    split at h
    · rename_i herr
      exact .inl (sentBack_codes herr h)
    · rename_i herr
      cases h
      exact .inr (.inr (generateEpqueryResponse_type (Prod.ext (not_not.mp herr) rfl)).1)
  | input envelope =>
    rw [haction] at h
    cases h
  | datetime envelope =>
    rw [haction] at h
    cases h

theorem perform_codes {packet : Mem}
    (h : ((udphandler arrival value m).perform chain eeprom buffer value s).reply = some packet)
    (htype : packet HxbPacket.type = PacketType.error.code) :
    ∃ code ∈ protocolErrors, packet = errorPacket code := by
  rcases perform_reply h with hcode | hinfo | hepinfo
  · exact hcode
  · exact absurd (hinfo.symm.trans htype) (by decide)
  · exact absurd (hepinfo.symm.trans htype) (by decide)

theorem IsError.ofCode (h : IsError m) :
    PacketType.ofCode (m HxbPacket.type) = some .error := by
  rw [h.2, PacketType.ofCode_code]

/-- A checksum is looked for in every error packet. -/
theorem IsError.checkCrc (h : IsError m) (hne : checkCrc m ≠ .success) :
    Firmware.checkCrc m = .crcFailed := by
  have hlen : dataLen m = some HxbPacket.sizeofError := by
    unfold dataLen
    rw [h.ofCode]
  unfold Firmware.checkCrc at hne ⊢
  rw [hlen] at hne ⊢
  simp only at hne ⊢
  split
  · rfl
  · rename_i hcrc
    rw [if_neg hcrc] at hne
    exact absurd rfl hne

theorem IsError.isBroadcast (h : IsError m) : Firmware.isBroadcast arrival m = false := by
  unfold Firmware.isBroadcast
  rw [h.2]
  rfl

/-- An error packet that passes the checksum is unexpected, which is no error of the
protocol. -/
theorem udphandler_wellFormed (h : IsError m) (hcrc : checkCrc m = .success) :
    udphandler arrival value m = .ignore := by
  unfold udphandler
  rw [if_neg (by simp [h.1]), if_neg (not_not.mpr hcrc)]
  simp only [h.ofCode]
  unfold replyError
  rw [if_neg (fun hcond => absurd hcond.2 (by decide))]

theorem udphandler_corrupted (h : IsError m) (hcrc : checkCrc m ≠ .success) :
    udphandler arrival value m = .reply .crcFailed := by
  unfold udphandler
  rw [if_neg (by simp [h.1]), if_pos hcrc, h.checkCrc hcrc, h.isBroadcast]
  rfl

theorem perform_broadcast (htype : m HxbPacket.type = PacketType.info.code)
    (hgroup : arrival.toGroup = true) :
    ((udphandler arrival value m).perform chain eeprom buffer value s).reply = none := by
  have hbroadcast : isBroadcast arrival m = true := by
    simp [isBroadcast, htype, hgroup]
  have hignore : ∀ err, replyError true err = .ignore := fun err =>
    if_neg fun hcond => Bool.noConfusion hcond.1
  unfold udphandler
  split
  · rfl
  split
  · rw [hbroadcast, hignore]
    rfl
  simp only [htype, PacketType.ofCode_code]
  split
  · rfl
  split <;> rfl

/-- **Replies to one datagram**. -/
theorem udphandler_repliesWell (chain : EndpointChain σ) (eeprom buffer : Mem) (value : HxbValue)
    (s : σ) (arrival : Arrival) (m : Mem) : RepliesWell arrival m
      ((udphandler arrival value m).perform chain eeprom buffer value s).reply where
  wellFormed h hcrc := by
    rw [udphandler_wellFormed h hcrc]
    rfl
  corrupted h hcrc := by
    rw [udphandler_corrupted h hcrc]
    rfl
  broadcast := perform_broadcast
  codes _ := perform_codes

/-! ## Devices in a network -/

/-- A datagram between the devices. -/
structure Datagram where
  srcIp : Block 16
  srcPort : UInt16
  dstIp : Block 16
  bytes : List UInt8

/-- A device: its address and its endpoints. -/
structure Device (σ : Type) where
  ip : Block 16
  chain : EndpointChain σ

/-- What a device reads beside a datagram: the rest of the receive buffer, the send buffer and
the value record, which are not initialised, and the EEPROM. -/
structure Surroundings where
  received : Mem
  buffer : Mem
  value : HxbValue
  eeprom : Mem

/-- What another process of a device does: the device changes, and datagrams are sent. -/
structure Activity (σ : Type) where
  state : σ
  datagrams : List Datagram

/-- A device and a datagram for it; the reply leaves through `do_udp_send`. -/
def Device.receive (device : Device σ) (rest : Surroundings) (datagram : Datagram) (s : σ) :
    σ × List Datagram :=
  let arrival : Arrival := ⟨datagram.srcIp, datagram.srcPort, datagram.dstIp = hxbGroup⟩
  let effect := (udphandler arrival rest.value (Wire.receive rest.received datagram.bytes)).perform
    device.chain rest.eeprom rest.buffer rest.value s
  (effect.device, ((effect.reply.bind doUdpSend).toList).map fun bytes =>
    ⟨device.ip, hxbPort, datagram.srcIp, bytes⟩)

/-- The network of the devices. Any device may receive any datagram. -/
def devices {ν : Type} (device : ν → Device σ) :
    Protocol ν σ Datagram Surroundings (Activity σ) where
  receive node := (device node).receive
  act _ activity _ := (activity.state, activity.datagrams)

/-- A datagram with an error packet. -/
def Datagram.IsError (datagram : Datagram) : Prop :=
  datagram.bytes.take 4 = hxbHeader ∧ datagram.bytes[4]? = some PacketType.error.code

/-- Wherever the datagram is received, it passes the checksum. -/
def Datagram.PassesCrc (datagram : Datagram) : Prop :=
  ∀ buffer, checkCrc (receive buffer datagram.bytes) = .success

/-- An error is answered with an error in the run. -/
def Answered {ν : Type} (net : Net ν σ Datagram) (datagram reply : Datagram) : Prop :=
  (datagram, reply) ∈ net.answers ∧ datagram.IsError ∧ reply.IsError

/-! ## The bytes of a reply -/

theorem appendCRC_frame_type (t f : UInt8) (payload : List UInt8) :
    (appendCRC (frame t f payload))[4]? = some t := rfl

theorem errorPacket_type (code : ErrorCode) :
    errorPacket code HxbPacket.type = PacketType.error.code := by
  rw [errorPacket, setU8, writeBlock_type (by decide), setU8_self]

/-- What is sent of a reply that is no error does not look like an error. -/
theorem doUdpSend_answer_type {packet : Mem} {bytes : List UInt8}
    (h : packet HxbPacket.type = PacketType.info.code ∨
      packet HxbPacket.type = PacketType.epinfo.code) (hsend : doUdpSend packet = some bytes) :
    bytes[4]? ≠ some PacketType.error.code := by
  rcases h with hinfo | hepinfo
  · have hframe : bytes[4]? = some PacketType.info.code := by
      cases hd : DataType.ofCode (packet HxbPacket.datatype) with
      | none => rw [doUdpSend_info_none hinfo (.inl hd)] at hsend; cases hsend
      | some d =>
        by_cases hne : d = .undefined
        · subst hne
          rw [doUdpSend_info_none hinfo (.inr hd)] at hsend
          cases hsend
        · obtain ⟨value, hvalue, -⟩ := doUdpSend_info hinfo hd hne
          rw [hvalue] at hsend
          cases hsend
          exact appendCRC_frame_type _ _ _
    rw [hframe]
    decide
  · rw [doUdpSend_epinfo hepinfo] at hsend
    cases hsend
    rw [show (valueDatagram .epinfo 0 (getU32 packet HxbPacket.eid) (packet HxbPacket.datatype)
      (readBlock packet HxbPacket.value (stringPacketBufferLength + 1)))[4]? = some
        PacketType.epinfo.code from appendCRC_frame_type _ _ _]
    decide

/-- An error packet that a device has sent passes the checksum wherever it is received. -/
theorem passesCrc_errorPacket {code : ErrorCode} {datagram : Datagram}
    (h : doUdpSend (errorPacket code) = some datagram.bytes) : datagram.PassesCrc := by
  rw [doUdpSend_error (errorPacket_type code)] at h
  intro buffer
  rw [← Option.some.inj h]
  have hheld : Holds (receive buffer (appendCRC (frame PacketType.error.code 0
      [errorPacket code HxbPacket.errorCode]))) 0 (appendCRC (frame PacketType.error.code 0
        [errorPacket code HxbPacket.errorCode])) := holds_write buffer 0 _
  refine checkCrc_of_holds hheld ?_
  unfold dataLen
  rw [(holds_frame hheld).2.1, PacketType.ofCode_code]
  rfl

/-- Received, the datagram of an error packet is an error packet. -/
theorem Datagram.IsError.received {datagram : Datagram} (h : datagram.IsError) (buffer : Mem) :
    Wire.IsError (receive buffer datagram.bytes) := by
  have hheld : Holds (receive buffer datagram.bytes) 0 datagram.bytes :=
    holds_write buffer 0 datagram.bytes
  obtain ⟨htake, htype⟩ := h
  have hlen : 4 < datagram.bytes.length := (List.getElem?_eq_some_iff.mp htype).1
  constructor
  · have hread : readBlock (receive buffer datagram.bytes) 0 4 = hxbHeader := by
      rw [← htake, ← take_readBlock _ 0 datagram.bytes.length 4 (by omega)]
      exact congrArg (List.take 4) hheld
    exact decide_eq_true hread
  · have hbyte := hheld.getD_eq 0 hlen
    rwa [List.getD_eq_getElem?_getD, htype] at hbyte

/-- **An answer**: only an error packet that fails the checksum somewhere is answered with an
error packet, and the answer passes it everywhere. -/
theorem receive_answer (device : Device σ) (rest : Surroundings) (datagram : Datagram) (s : σ)
    {reply : Datagram} (hreply : reply ∈ (device.receive rest datagram s).2)
    (herror : datagram.IsError) (hreplyError : reply.IsError) :
    ¬ datagram.PassesCrc ∧ reply.PassesCrc := by
  simp only [Device.receive, List.mem_map, Option.mem_toList, Option.bind_eq_some_iff] at hreply
  obtain ⟨bytes, ⟨packet, hpacket, hsend⟩, rfl⟩ := hreply
  constructor
  · intro hpasses
    have hreceived := herror.received rest.received
    rw [udphandler_wellFormed hreceived (hpasses rest.received)] at hpacket
    cases hpacket
  · rcases perform_reply hpacket with ⟨code, -, rfl⟩ | hanswer
    · exact passesCrc_errorPacket hsend
    · exact absurd hreplyError.2 (doUdpSend_answer_type hanswer hsend)

/-! ## The end of an exchange -/

/-- The first `n` events of a schedule. -/
def firstEvents {ε : Type} (events : Nat → ε) (n : Nat) : List ε := (List.range n).map events

/-- **Replies to errors**. Every device replies well to every datagram; and whatever devices
there are, whatever they do and whatever is in flight at first, in no infinite run an exchange
of error packets goes on for ever. -/
theorem errors_end :
    (∀ {σ : Type} (chain : EndpointChain σ) (eeprom buffer : Mem) (value : HxbValue) (s : σ)
      (arrival : Arrival) (m : Mem), RepliesWell arrival m
        ((udphandler arrival value m).perform chain eeprom buffer value s).reply) ∧
    ∀ {ν σ : Type} [DecidableEq ν] (device : ν → Device σ) (nodes : ν → σ)
      (flight : List Datagram) (events : Nat → Event ν Surroundings (Activity σ)),
      ¬ ∃ exchange : Nat → Datagram, ∀ k, ∃ n,
        Answered (run (devices device).step (Net.start nodes flight) (firstEvents events n))
          (exchange k) (exchange (k + 1)) := by
  refine ⟨udphandler_repliesWell, ?_⟩
  rintro ν σ _ device nodes flight events ⟨exchange, hexchange⟩
  have hanswers : ∀ n, ∀ answer ∈ (run (devices device).step (Net.start nodes flight)
      (firstEvents events n)).answers, answer.1.IsError → answer.2.IsError →
        ¬ answer.1.PassesCrc ∧ answer.2.PassesCrc := fun n =>
    Protocol.answers_run (R := fun datagram reply => datagram.IsError → reply.IsError →
      ¬ datagram.PassesCrc ∧ reply.PassesCrc)
      (fun node rest datagram s _ hreply => receive_answer (device node) rest datagram s hreply)
      nodes flight _
  -- the first answer passes the checksum, so there is no second one
  obtain ⟨n, hfirst, herror, hreply⟩ := hexchange 0
  obtain ⟨n', hsecond, herror', hreply'⟩ := hexchange 1
  exact (hanswers n' _ hsecond herror' hreply').1 (hanswers n _ hfirst herror hreply).2

/-- An error packet whose checksum is wrong. -/
def corruptedError : Mem := fun i =>
  [0x48, 0x58, 0x30, 0x43, 0x00, 0x00, 0x01, 0x00, 0x00].getD i 0

/-- It is answered. -/
theorem corruptedError_answered : IsError corruptedError ∧
    ((udphandler ⟨Block.zero 16, hxbPort, false⟩ ⟨0, Block.zero 8, []⟩ corruptedError).perform
      ([] : EndpointChain Unit) (fun _ => 0) (fun _ => 0) ⟨0, Block.zero 8, []⟩ ()).reply
        ≠ none := by
  have herror : IsError corruptedError := by
    constructor <;> decide
  have hcrc : checkCrc corruptedError ≠ .success := by decide +kernel
  refine ⟨herror, ?_⟩
  rw [(udphandler_repliesWell _ _ _ _ _ _ _).corrupted herror hcrc]
  exact Option.some_ne_none _

end Hexabus.Wire
