import Hexabus.Host.Hexinfo
import Hexabus.Lib.Json

/-!
# Writing devices as JSON

`hexinfo.cpp`: `json_string_writer`, `write_dev_desc_json`, and the part of `main` that writes
all devices. The endpoint registry is what its `find` answers, and an address is written by a
function that is not part of the program.
-/

namespace Hexabus.Host.Hexinfo

open Lib.Json

/-! ## The registry -/

/-- `EndpointDescriptor::Function`. -/
inductive Function where
  | sensor
  | actor
  | infrastructure

/-- `hexabus::EndpointDescriptor`, what is written of it. -/
structure RegistryEntry where
  description : List UInt8
  unit : Option (List UInt8)
  type : DataType
  function : Function

/-- `EndpointRegistry::find`. -/
abbrev EndpointRegistry := UInt32 → Option RegistryEntry

/-! ## The text -/

/-- One character in `json_string_writer`. -/
def jsonCharacter (c : UInt8) : List UInt8 :=
  if c = 0x22 then ascii "\\\""
  else if c = 0x0A then ascii "\\n"
  else if c = 0x0D then ascii "\\r"
  else if c = 0x09 then ascii "\\t"
  else if c = 0x0B then ascii "\\v"
  else [c]

/-- `json_string_writer`. -/
def json (str : List UInt8) : List UInt8 := str.flatMap jsonCharacter

def Function.text : Function → List UInt8
  | .sensor => ascii "sensor"
  | .actor => ascii "actor"
  | .infrastructure => ascii "infrastructure"

/-- What is written of an endpoint that is found in the registry. -/
def writeEntry (entry : RegistryEntry) : List UInt8 :=
  ascii "\t\t\t\"unit\": \"" ++ json (entry.unit.getD []) ++ ascii "\",\n" ++
    (ascii "\t\t\t\"description\": \"" ++ json entry.description ++ ascii "\",\n") ++
    (ascii "\t\t\t\"function\": \"" ++ entry.function.text ++ ascii "\",\n") ++
    (ascii "\t\t\t\"type\": " ++ decimal entry.type.code.toNat ++ ascii "\n")

variable (epRegistry : EndpointRegistry)

/-- One endpoint, without the comma after it. -/
def writeEndpoint (eid : UInt32) : List UInt8 :=
  ascii "\t\t\x7b\n" ++ (ascii "\t\t\t\"eid\": " ++ decimal eid.toNat ++ ascii ",\n") ++
    (match epRegistry eid with
      | some entry => writeEntry entry
      | none => []) ++
    ascii "\t\t\x7d"

/-- The loop over `dev.endpoint_ids`. -/
def writeEndpoints : List UInt32 → List UInt8
  | [] => []
  | eid :: eids =>
    if eid % 32 = 0 then writeEndpoints eids
    else writeEndpoint epRegistry eid ++ (if eids.isEmpty then ascii "\n" else ascii ",\n") ++
      writeEndpoints eids

variable (addressText : Address → List UInt8)

/-- `write_dev_desc_json`: what it writes, and whether it has written. -/
def writeDevDescJson (dev : DeviceDescriptor) (emitComma : Bool) : List UInt8 × Bool :=
  if dev.name.length ≠ 0 then
    ((if emitComma then ascii ",\n" else []) ++
      (ascii "\x7b\n" ++
        (ascii "\t\"name\": \"" ++ json dev.name ++ ascii "\",\n") ++
        (ascii "\t\"ip\": \"" ++ addressText dev.ipv6Address ++ ascii "\",\n") ++
        ascii "\t\"endpoints\": [\n" ++
        writeEndpoints epRegistry dev.endpointIds ++
        ascii "\t]\n\x7d\n"), true)
  else ([], false)

/-- The loop of `main`, from the beginning of `devices` or from a later device on. -/
def writeDevices : Bool → Bool → List DeviceDescriptor → List UInt8
  | _, _, [] => []
  | atBegin, hasWritten, dev :: devices =>
    let r := writeDevDescJson epRegistry addressText dev (hasWritten && !atBegin)
    r.1 ++ writeDevices false (hasWritten || r.2) devices

/-- `--json`. -/
def writeJson (devices : List DeviceDescriptor) : List UInt8 :=
  ascii "\x7b\"devices\": [\n" ++ writeDevices epRegistry addressText true false devices ++
    ascii "]\x7d\n"

end Hexabus.Host.Hexinfo
