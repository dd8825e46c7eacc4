import Hexabus.Web.Values

/-!
# The device tree

`devicetree.js`: the devices that the web interface knows, by their addresses, and the endpoints
of each, by their ids as they were given. Both are plain objects, which inherit properties.
-/

namespace Hexabus.Web.DeviceTree

open Lib

/-- What is thrown: a string by the code itself, an exception by the language. -/
inductive Thrown where
  | text (message : Text)
  | typeError
  deriving DecidableEq

/-! ## Properties of plain objects -/

/-- The properties that every object has. -/
def inheritedNames : List Text :=
  ["constructor", "toString", "toLocaleString", "valueOf", "hasOwnProperty", "isPrototypeOf",
    "propertyIsEnumerable", "__proto__", "__defineGetter__", "__defineSetter__",
    "__lookupGetter__", "__lookupSetter__"].map literal

/-- A property of an object: its own, or one of those that it inherits. All of them are true. -/
inductive Slot (α : Type) where
  | absent
  | inherited
  | own (a : α)

def property {α : Type} (o : Object Text α) (key : Text) : Slot α :=
  match o.get key with
  | some a => .own a
  | none => if inheritedNames.contains key then .inherited else .absent

/-! ## Endpoints -/

/-- `fields` are the properties that `add_key` defines. Times are in milliseconds. -/
structure Endpoint where
  eid : Number
  fields : List (Text × Value)
  lastUpdate : ℤ
  lastValue : Option Value

def endpointKeys : List Text := [literal "type", literal "description", literal "function"]

/-- The further fields of an endpoint of some function; there are no other functions. -/
def functionKeys (function : Text) : Option (List Text) :=
  if function = literal "sensor" then
    some [literal "minvalue", literal "maxvalue", literal "unit"]
  else if function = literal "actor" then some []
  else if function = literal "infrastructure" then some []
  else none

def isNumber : Option Value → Bool
  | some (.number _) => true
  | _ => false

/-- `add_key`: the property that is defined. -/
def addKey (params : List (Text × Value)) (key : Text) : Except Thrown (Text × Value) :=
  if key = literal "type" ∧ isNumber (Properties.get key params) = false then
    .error (.text (literal "Field type is supposed to be a number."))
  else match Properties.get key params with
    | none => .error (.text (literal "Required field: " ++ key))
    | some .null => .error (.text (literal "Required field: " ++ key))
    | some v => .ok (key, v)

/-- `forEach` with `add_key`. -/
def addKeys (params : List (Text × Value)) : List Text → Except Thrown (List (Text × Value))
  | [] => .ok []
  | key :: keys => (addKey params key).bind fun field =>
      (addKeys params keys).map fun fields => field :: fields

/-- The keys for `params.function`; it is converted to a string, as every key is. -/
def keysFor (params : List (Text × Value)) : Except Thrown (List Text) :=
  match (Properties.get (literal "function") params).bind fun function =>
      function.text.bind functionKeys with
  | some keys => .ok keys
  | none => .error .typeError

/-- `add_function_keys` -/
def addFunctionKeys (params : List (Text × Value)) : Except Thrown (List (Text × Value)) :=
  (addKeys params endpointKeys).bind fun fields =>
    (keysFor params).bind fun keys =>
      (addKeys params keys).map fun more => fields ++ more

/-- `new Endpoint` for a device of the tree. -/
def newEndpoint (now : ℤ) (eid : Text) (params : List (Text × Value)) : Except Thrown Endpoint :=
  if parseInt eid = .nan then .error (.text (literal "Invalid: eid. Expected: int"))
  else (addFunctionKeys params).map fun fields =>
    { eid := parseInt eid, fields := fields, lastUpdate := now, lastValue := none }

/-! ## Devices -/

structure Device where
  ip : Text
  name : Value
  lastUpdate : ℤ
  endpoints : Object Text Endpoint

/-- `new Device` for an address that has not been there. -/
def newDevice (now : ℤ) (ip : Text) (name : Option Value) : Except Thrown Device :=
  match name with
  | none => .error (.text (literal "Required parameter: name"))
  | some .null => .error (.text (literal "Required parameter: name"))
  | some name => .ok { ip := ip, name := name, lastUpdate := now, endpoints := Object.empty }

/-! ## The tree -/

structure Tree where
  devices : Object Text Device
  views : List Value

/-- `new DeviceTree` without a file. -/
def Tree.empty : Tree := ⟨Object.empty, []⟩

def Tree.setDevice (t : Tree) (ip : Text) (d : Device) : Tree :=
  { t with devices := t.devices.put ip d }

def Device.setEndpoint (d : Device) (eid : Text) (ep : Endpoint) : Device :=
  { d with endpoints := d.endpoints.put eid ep }

/-- `devices[ip] || new Device`. What is inherited has no endpoints, and the next statement
throws. -/
def deviceFor (now : ℤ) (t : Tree) (ip : Text) (params : List (Text × Value)) :
    Except Thrown Device :=
  match property t.devices ip with
  | .own d => .ok d
  | .inherited => .error .typeError
  | .absent => newDevice now ip (Properties.get (literal "name") params)

/-- `device.endpoints[eid] || new Endpoint`: the new one, if there was none. -/
def endpointFor (now : ℤ) (d : Device) (eid : Text) (params : List (Text × Value)) :
    Except Thrown (Option Endpoint) :=
  match property d.endpoints eid with
  | .own _ => .ok none
  | .inherited => .ok none
  | .absent => (newEndpoint now eid params).map some

/-- `add_endpoint`: the tree afterwards, and what is returned or thrown. A new device is in the
tree before it is known whether the endpoint exists. -/
def addEndpoint (now : ℤ) (t : Tree) (ip eid : Text) (params : List (Text × Value)) :
    Tree × Except Thrown Endpoint :=
  match deviceFor now t ip params with
  | .error e => (t, .error e)
  | .ok d =>
    match endpointFor now d eid params with
    | .error e => (t, .error e)
    | .ok none => (t.setDevice ip d, .error (.text (literal "Endpoint exists")))
    | .ok (some ep) => ((t.setDevice ip d).setDevice ip (d.setEndpoint eid ep), .ok ep)

/-- `remove`: an inherited property cannot be deleted, which goes unnoticed. -/
def remove (t : Tree) (ip : Text) : Tree × Except Thrown Unit :=
  match property t.devices ip with
  | .own _ => ({ t with devices := t.devices.erase ip }, .ok ())
  | .inherited => (t, .ok ())
  | .absent => (t, .error (.text (literal "No such device")))

/-! ## Lookup -/

/-- `endpoint_id` of an endpoint. -/
def endpointId (ip : Text) (ep : Endpoint) : Text := ip ++ 0x2E :: numberText ep.eid

/-- What `endpoint_by_id` finds: nothing, the endpoint that stands under a key of a device, or a
property that the endpoints inherit. -/
inductive Found where
  | nothing
  | endpoint (ip eid : Text)
  | inherited
  | throws
  deriving DecidableEq

/-- `endpoint_by_id`: the parts after the second one do not matter, and a second part that is not
there is undefined, a key like any other. -/
def endpointById (t : Tree) (id : Text) : Found :=
  let parts := id.splitOn 0x2E
  let ip := parts.headD []
  match property t.devices ip with
  | .absent => .nothing
  | .inherited => .throws
  | .own d =>
    let eid := (parts.tail.head?).getD (literal "undefined")
    match property d.endpoints eid with
    | .absent => .nothing
    | .inherited => .inherited
    | .own _ => .endpoint ip eid

/-! ## Runs -/

inductive Call where
  | addEndpoint (now : ℤ) (ip eid : Text) (params : List (Text × Value))
  | remove (ip : Text)

/-- The tree after a call, and whether the call threw. -/
def Call.run (t : Tree) : Call → Tree × Bool
  | .addEndpoint now ip eid params =>
    let (t, result) := DeviceTree.addEndpoint now t ip eid params
    (t, result.isOk == false)
  | .remove ip =>
    let (t, result) := DeviceTree.remove t ip
    (t, result.isOk == false)

/-- The tree after calls. -/
def after (calls : List Call) : Tree := calls.foldl (fun t c => (c.run t).1) Tree.empty

end Hexabus.Web.DeviceTree
