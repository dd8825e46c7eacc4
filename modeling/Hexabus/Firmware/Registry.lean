import Hexabus.Firmware.Eeprom

/-!
# The endpoint registry

`endpoint_registry.c`: the chain of registered descriptors and the four lookups
on it. Endpoint ids divisible by 32 are synthetic. What the handlers of an
endpoint do is the endpoint's own affair, so they are fields of its descriptor,
functions on the state `σ` of the device.
-/

namespace Hexabus.Firmware

open Lib.Bytes Lib.Store

/-- `struct hxb_envelope`. -/
structure HxbEnvelope where
  src_ip : Block 16
  src_port : UInt16
  eid : UInt32
  value : HxbValue
  deriving DecidableEq

/-- `struct endpoint_descriptor`. A read fills in the value record it is handed;
bytes it stores through the record's pointer are the record's `blob`. -/
structure EndpointDescriptor (σ : Type) where
  datatype : UInt8
  eid : UInt32
  name : List UInt8
  read : HxbValue → σ → ErrorCode × HxbValue
  write : Option (HxbEnvelope → σ → ErrorCode × σ)

/-- `_endpoint_chain`, newest registration first. -/
abbrev EndpointChain (σ : Type) := List (EndpointDescriptor σ)

namespace EndpointChain

variable {σ : Type} (chain : EndpointChain σ)

/-- `find_descriptor`. -/
def findDescriptor (eid : UInt32) : Option (EndpointDescriptor σ) :=
  chain.find? fun ep => ep.eid = eid

/-- `synthesize_read_m32`. -/
def synthesizeReadM32 (eid : UInt32) (value : HxbValue) : HxbValue :=
  let mask := chain.foldl
    (fun mask ep => if eid ≤ ep.eid ∧ ep.eid < eid + 32 then mask ||| (1 <<< (ep.eid - eid))
      else mask) (1 : UInt32)
  { value with datatype := DataType.uint32.code }.setU32 mask

/-- `endpoint_get_datatype`. -/
def endpointGetDatatype (eid : UInt32) : UInt8 :=
  if eid % 32 = 0 then DataType.uint32.code
  else match chain.findDescriptor eid with
    | some ep => ep.datatype
    | none => DataType.undefined.code

/-- `endpoint_write`. -/
def endpointWrite (eid : UInt32) (env : HxbEnvelope) (s : σ) : ErrorCode × σ :=
  if eid % 32 = 0 then (.writeReadonly, s)
  else match chain.findDescriptor eid with
    | some ep =>
      match ep.write with
      | none => (.writeReadonly, s)
      | some write => if ep.datatype ≠ env.value.datatype then (.datatype, s) else write env s
    | none => (.unknownEid, s)

/-- `endpoint_read`. -/
def endpointRead (eid : UInt32) (value : HxbValue) (s : σ) : ErrorCode × HxbValue :=
  if eid % 32 = 0 then (.success, chain.synthesizeReadM32 eid value)
  else match chain.findDescriptor eid with
    | some ep => ep.read { value with datatype := ep.datatype } s
    | none => (.unknownEid, value)

/-- `strncpy_P`: `len` bytes, the text and then zeros. -/
def strncpy (src : List UInt8) (len : Nat) : List UInt8 :=
  (cString src).take len ++ List.replicate (len - (cString src).length) 0

/-- `endpoint_get_name`, storing the name at `buffer` in memory `m`. -/
def endpointGetName (eeprom : Mem) (eid : UInt32) (m : Mem) (buffer len : Nat) : ErrorCode × Mem :=
  if eid % 32 = 0 then
    let len := if len ≥ EE.domainNameSize then EE.domainNameSize - 1 else len
    let m := writeBlock m buffer (readBlock eeprom EE.domainName len)
    (.success, setU8 m (buffer + EE.domainNameSize) 0)
  else match chain.findDescriptor eid with
    | some ep => (.success, writeBlock m buffer (strncpy ep.name len))
    | none => (.unknownEid, m)

end EndpointChain

end Hexabus.Firmware
