import Hexabus.Web.EndpointLookup

/-!
# Saving the device tree

`save` writes the tree to a file as JSON, and `new DeviceTree` builds a tree from such a file. In
between, the requests of HTTP clients and the messages of sockets change the tree.
-/

namespace Hexabus.Web.DeviceTree

open Lib

/-! ## The file -/

/-- An endpoint in the file: its members but the time, which is written as a text that is read as
the same time. -/
structure SavedEndpoint where
  members : List (Text × Value)
  lastUpdate : ℤ

structure SavedDevice where
  ip : Text
  name : Value
  lastUpdate : ℤ
  endpoints : List (Text × SavedEndpoint)

structure File where
  devices : List (Text × SavedDevice)
  views : List Value

/-- `toJSON` of an endpoint: `last_value` and what can be enumerated. -/
def Endpoint.toJSON (d : Device) (ep : Endpoint) : SavedEndpoint :=
  { members := (ep.lastValue.toList.map fun v => (literal "last_value", v)) ++
      [(literal "eid", .number ep.eid), (literal "id", .string (endpointId d.ip ep)),
        (literal "ip", .string d.ip), (literal "name", d.name)] ++ ep.fields
    lastUpdate := ep.lastUpdate }

/-- `toJSON` of a device. -/
def Device.toJSON (d : Device) : SavedDevice :=
  { ip := d.ip, name := d.name, lastUpdate := d.lastUpdate
    endpoints := d.endpoints.entries.map fun e => (e.1, e.2.toJSON d) }

/-- What is read of an endpoint that has been written. -/
def SavedEndpoint.throughFile (s : SavedEndpoint) : SavedEndpoint :=
  { s with members := Properties.putAll [] (membersThroughFile s.members) }

def SavedDevice.throughFile (s : SavedDevice) : SavedDevice :=
  { ip := throughUtf8 s.ip, name := s.name.throughFile, lastUpdate := s.lastUpdate
    endpoints := Properties.putAll [] (s.endpoints.map fun e =>
      (throughUtf8 e.1, e.2.throughFile)) }

/-- `save`, and what `JSON.parse` makes of the file. -/
def save (t : Tree) : File :=
  { devices := Properties.putAll [] (t.devices.entries.map fun e =>
      (throughUtf8 e.1, e.2.toJSON.throughFile))
    views := itemsThroughFile t.views }

/-- `new Endpoint` for an endpoint of the file. -/
def loadEndpoint (s : SavedEndpoint) : Except Thrown Endpoint :=
  match Properties.get (literal "eid") s.members with
  | none => .error (.text (literal "Required parameter: eid"))
  | some .null => .error (.text (literal "Required parameter: eid"))
  | some eid =>
    match eid.text.map parseInt with
    | none => .error .typeError
    | some .nan => .error (.text (literal "Invalid: eid. Expected: int"))
    | some n => (addFunctionKeys s.members).map fun fields =>
        { eid := n, fields := fields, lastUpdate := s.lastUpdate
          lastValue := Properties.get (literal "last_value") s.members }

/-- A loop over properties, each of which is loaded. -/
def loadAll {α β : Type} (load : α → Except Thrown β) :
    List (Text × α) → Except Thrown (List (Text × β))
  | [] => .ok []
  | (key, a) :: l => (load a).bind fun b => (loadAll load l).map fun bs => (key, b) :: bs

/-- `new Device` for a device of the file. -/
def loadDevice (s : SavedDevice) : Except Thrown Device :=
  (loadAll loadEndpoint s.endpoints).bind fun endpoints =>
    match s.name with
    | .null => .error (.text (literal "Required parameter: name"))
    | name => .ok { ip := s.ip, name := name, lastUpdate := s.lastUpdate
                    endpoints := Object.ofEntries endpoints }

/-- `new DeviceTree` with a file. -/
def load (f : File) : Except Thrown Tree :=
  (loadAll loadDevice f.devices).map fun devices =>
    { devices := Object.ofEntries devices, views := f.views }

/-! ## Requests and messages -/

/-- `last_value` as it is set. -/
def lastValueAt (unixTs : ℤ) (value : Option Value) : Value :=
  .object ((literal "unix_ts", .number (.finite unixTs)) ::
    value.toList.map fun v => (literal "value", v))

/-- `Math.round(Date.now() / 1000)` -/
def unixTs (now : ℤ) : ℤ := (now + 500) / 1000

/-- The setter of `last_value`, which updates the times of the endpoint and of the device. -/
def setLastValue (now : ℤ) (t : Tree) (ip eid : Text) (value : Option Value) : Tree :=
  match t.devices.get ip with
  | none => t
  | some d =>
    match d.endpoints.get eid with
    | none => t
    | some ep =>
      t.setDevice ip ({ d with lastUpdate := now }.setEndpoint eid
        { ep with lastUpdate := now, lastValue := some (lastValueAt (unixTs now) value) })

/-- `ignore_endpoint` -/
def ignoreEndpoint (eid : Text) : Bool :=
  decide (toNumber eid = .finite 7) || decide (toNumber eid = .finite 8)

/-- The bounds that `add_endpoint` of the application gives every endpoint. -/
def bounds (eid : Option Value) : ℚ × ℚ :=
  match eid with
  | some (.number (.finite 2)) => (0, 3600)
  | some (.number (.finite 3)) => (10, 35)
  | _ => (0, 100)

def withBounds (params : List (Text × Value)) : List (Text × Value) :=
  let (low, high) := bounds (Properties.get (literal "eid") params)
  Properties.put (literal "maxvalue") (.number (.finite high))
    (Properties.put (literal "minvalue") (.number (.finite low)) params)

/-- A sensor that a request adds. A value that is no number is stored, too. -/
def addSensor (now : ℤ) (t : Tree) (ip eid : Text) (body : List (Text × Value)) : Tree :=
  match addEndpoint now t ip eid (withBounds body) with
  | (t, .error _) => t
  | (t, .ok _) =>
    match parseFloatOf (Properties.get (literal "value") body) with
    | none => t
    | some n => setLastValue now t ip eid (some (.number n))

/-- `PUT /api/sensor/:ip/:eid` -/
def putSensor (now : ℤ) (t : Tree) (ip eid : Text) (body : List (Text × Value)) : Tree :=
  if ignoreEndpoint eid then t
  else match property t.devices ip with
    | .absent => addSensor now t ip eid body
    | .inherited => t
    | .own d =>
      match property d.endpoints eid with
      | .absent => addSensor now t ip eid body
      | .inherited => t
      | .own _ => t

/-- The properties of functions may be set without a trace; those of `__proto__` are the
properties of every object. -/
def setInherited (t : Tree) (eid : Text) : Option Tree :=
  if eid = literal "__proto__" then none else some t

/-- `POST /api/sensor/:ip/:eid` -/
def postSensor (now : ℤ) (t : Tree) (ip eid : Text) (body : List (Text × Value)) : Option Tree :=
  if ignoreEndpoint eid then some t
  else match property t.devices ip with
    | .absent => some t
    | .inherited => some t
    | .own d =>
      match property d.endpoints eid with
      | .absent => some t
      | slot =>
        match parseFloatOf (Properties.get (literal "value") body) with
        | none => some t
        | some .nan => some t
        | some n => match slot with
          | .own _ => some (setLastValue now t ip eid (some (.number n)))
          | _ => setInherited t eid

/-- The setter of `name`, after the device itself has been renamed. -/
def rename (now : ℤ) (t : Tree) (ip name : Text) : Tree :=
  match t.devices.get ip with
  | none => t
  | some d => t.setDevice ip { d with name := .string name, lastUpdate := now }

/-- One field of `ep_change_metadata`: a value that is given is set. -/
def changeField (data : List (Text × Value)) (key : Text) (fields : List (Text × Value)) :
    List (Text × Value) :=
  match Properties.get key data with
  | none => fields
  | some .null => fields
  | some v => Properties.put key v fields

/-- `ep_change_metadata` -/
def changeMetadata (t : Tree) (id : Text) (data : List (Text × Value)) : Option Tree :=
  match endpointById t id with
  | .nothing => some t
  | .throws => some t
  | .inherited => setInherited t (secondPart id)
  | .endpoint ip eid =>
    match t.devices.get ip with
    | none => some t
    | some d =>
      match d.endpoints.get eid with
      | none => some t
      | some ep =>
        some (t.setDevice ip (d.setEndpoint eid { ep with
          fields := changeField data (literal "maxvalue")
            (changeField data (literal "minvalue") ep.fields) }))

/-- `ep_set`, after the endpoint itself has been written. What is thrown here ends the process, and
has not changed the tree. -/
def epSet (now : ℤ) (t : Tree) (id : Text) (value : Option Value) : Option Tree :=
  match endpointById t id with
  | .nothing => some t
  | .throws => some t
  | .inherited => setInherited t (secondPart id)
  | .endpoint ip eid => some (setLastValue now t ip eid value)

/-- What may happen to the tree: requests, messages, and devices that have been found in the
network. -/
inductive Event where
  | putSensor (now : ℤ) (ip eid : Text) (body : List (Text × Value))
  | postSensor (now : ℤ) (ip eid : Text) (body : List (Text × Value))
  | found (now : ℤ) (ip eid : Text) (params : List (Text × Value))
  | rename (now : ℤ) (ip name : Text)
  | changeMetadata (id : Text) (data : List (Text × Value))
  | epSet (now : ℤ) (id : Text) (value : Option Value)
  | remove (ip : Text)
  | views (views : List Value)

/-- The tree after an event. There is none where a property of all objects is set, since more than
the tree is changed then. -/
def step (t : Tree) : Event → Option Tree
  | .putSensor now ip eid body => some (putSensor now t ip eid body)
  | .postSensor now ip eid body => postSensor now t ip eid body
  | .found now ip eid params => some (addEndpoint now t ip eid params).1
  | .rename now ip name => some (rename now t ip name)
  | .changeMetadata id data => changeMetadata t id data
  | .epSet now id value => epSet now t id value
  | .remove ip => some (remove t ip).1
  | .views views => some { t with views := views }

end Hexabus.Web.DeviceTree
