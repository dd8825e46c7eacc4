import Hexabus.Host.Filtering
import Hexabus.Lib.Kleene
import Mathlib.Data.Option.NAry

/-!
# Filter expressions

`filtering.hpp` as expression trees, with the sender of a packet. An access to an attribute that
a packet does not have has no value, and the expressions above it handle that one by one. What an
expression means says it once, in strong Kleene logic, and evaluation follows it.
-/

namespace Hexabus.Host.Filtering

open Lib.Bytes Lib

/-! ## Packets and senders -/

/-- The bit pattern of a `float`. -/
structure FloatBits where
  bits : UInt32
  deriving DecidableEq

/-- The value types of `ValuePacket<TValue>`. -/
inductive ValueType
  | bool | uint8 | uint32 | float | datetime | timestamp | string | bytes16 | bytes65
  deriving DecidableEq

namespace ValueType

def Carrier : ValueType → Type
  | .bool => Bool
  | .uint8 => UInt8
  | .uint32 => UInt32
  | .float => FloatBits
  | .datetime => PTime
  | .timestamp => TimeDuration
  | .string => ValueString
  | .bytes16 => Block 16
  | .bytes65 => Block 65

/-- `dynamic_cast` to `ValuePacket<TValue>`, seen from the value. -/
def get? : (t : ValueType) → Host.Value → Option t.Carrier
  | .bool, .bool v => some v
  | .uint8, .uint8 v => some v
  | .uint32, .uint32 v => some v
  | .float, .float v => some ⟨v⟩
  | .datetime, .datetime v => some v
  | .timestamp, .timestamp v => some v
  | .string, .string v => some v
  | .bytes16, .bytes16 v => some v
  | .bytes65, .bytes65 v => some v
  | _, _ => none

end ValueType

/-- The packet classes that `IsOfType` is used with. -/
inductive PacketClass
  | error | query | endpointQuery | info (t : ValueType) | write (t : ValueType) | endpointInfo
  deriving DecidableEq

/-- `dynamic_cast<const Type*>(&packet)`. -/
def PacketClass.isClassOf : PacketClass → Packet → Bool
  | .error, .error .. => true
  | .query, .query .. => true
  | .endpointQuery, .endpointQuery .. => true
  | .info t, .info _ v _ => (t.get? v).isSome
  | .write t, .write _ v _ => (t.get? v).isSome
  | .endpointInfo, .endpointInfo .. => true
  | _, _ => false

/-! ## Attributes -/

/-- A value of a type, among all values. -/
def ValueType.inject : (t : ValueType) → t.Carrier → Host.Value
  | .bool, v => .bool v
  | .uint8, v => .uint8 v
  | .uint32, v => .uint32 v
  | .float, v => .float v.bits
  | .datetime, v => .datetime v
  | .timestamp, v => .timestamp v
  | .string, v => .string v
  | .bytes16, v => .bytes16 v
  | .bytes65, v => .bytes65 v

/-- The packet carries a value. -/
inductive HasValue : Packet → Host.Value → Prop
  | info (eid value flags) : HasValue (.info eid value flags) value
  | write (eid value flags) : HasValue (.write eid value flags) value
  | endpointInfo (eid datatype name flags) :
      HasValue (.endpointInfo eid datatype name flags) (.string name)

/-- The packet is about an endpoint. -/
inductive HasEid : Packet → UInt32 → Prop
  | query (eid flags) : HasEid (.query eid flags) eid
  | endpointQuery (eid flags) : HasEid (.endpointQuery eid flags) eid
  | endpointInfo (eid datatype name flags) : HasEid (.endpointInfo eid datatype name flags) eid
  | info (eid value flags) : HasEid (.info eid value flags) eid
  | write (eid value flags) : HasEid (.write eid value flags) eid

/-- The packet is of a class. -/
inductive OfClass : Packet → PacketClass → Prop
  | error (code flags) : OfClass (.error code flags) .error
  | query (eid flags) : OfClass (.query eid flags) .query
  | endpointQuery (eid flags) : OfClass (.endpointQuery eid flags) .endpointQuery
  | info (eid t v flags) : OfClass (.info eid (ValueType.inject t v) flags) (.info t)
  | write (eid t v flags) : OfClass (.write eid (ValueType.inject t v) flags) (.write t)
  | endpointInfo (eid datatype name flags) :
      OfClass (.endpointInfo eid datatype name flags) .endpointInfo

theorem get?_inject (t : ValueType) (v : t.Carrier) : t.get? (t.inject v) = some v := by
  cases t <;> rfl

theorem get?_eq_some_iff (t : ValueType) (w : Host.Value) (v : t.Carrier) :
    t.get? w = some v ↔ w = t.inject v := by
  constructor
  · intro h
    cases t <;> cases w <;> cases h <;> rfl
  · rintro rfl
    exact get?_inject t v

theorem value?_bind_eq_some_iff (packet : Packet) (t : ValueType) (v : t.Carrier) :
    packet.value?.bind t.get? = some v ↔ HasValue packet (t.inject v) := by
  rw [Option.bind_eq_some_iff]
  simp only [get?_eq_some_iff]
  constructor
  · rintro ⟨w, hw, rfl⟩
    cases packet with
    | info eid value flags => cases hw; exact .info eid _ flags
    | write eid value flags => cases hw; exact .write eid _ flags
    | endpointInfo eid datatype name flags =>
      have hname : .string name = t.inject v := Option.some.inj hw
      rw [← hname]
      exact .endpointInfo eid datatype name flags
    | _ => cases hw
  · intro h
    refine ⟨_, ?_, rfl⟩
    generalize t.inject v = w at h
    cases h <;> rfl

theorem eid?_eq_some_iff (packet : Packet) (e : UInt32) :
    packet.eid? = some e ↔ HasEid packet e := by
  constructor
  · intro h
    cases packet with
    | error code flags => cases h
    | query eid flags => cases h; exact .query e flags
    | endpointQuery eid flags => cases h; exact .endpointQuery e flags
    | endpointInfo eid datatype name flags => cases h; exact .endpointInfo e datatype name flags
    | info eid value flags => cases h; exact .info e value flags
    | write eid value flags => cases h; exact .write e value flags
  · intro h
    cases h <;> rfl

theorem isSome_get?_iff (t : ValueType) (w : Host.Value) :
    (t.get? w).isSome = true ↔ ∃ v, w = t.inject v := by
  rw [Option.isSome_iff_exists]
  simp only [get?_eq_some_iff]

theorem isClassOf_iff (type : PacketClass) (packet : Packet) :
    type.isClassOf packet = true ↔ OfClass packet type := by
  constructor
  · intro h
    cases type with
    | error => cases packet <;> first | exact .error _ _ | cases h
    | query => cases packet <;> first | exact .query _ _ | cases h
    | endpointQuery => cases packet <;> first | exact .endpointQuery _ _ | cases h
    | endpointInfo => cases packet <;> first | exact .endpointInfo _ _ _ _ | cases h
    | info t =>
      cases packet with
      | info eid value flags =>
        obtain ⟨v, rfl⟩ := (isSome_get?_iff t value).mp h
        exact .info eid t v flags
      | _ => cases h
    | write t =>
      cases packet with
      | write eid value flags =>
        obtain ⟨v, rfl⟩ := (isSome_get?_iff t value).mp h
        exact .write eid t v flags
      | _ => cases h
  · intro h
    cases h with
    | info eid t v flags => exact (isSome_get?_iff t _).mpr ⟨v, rfl⟩
    | write eid t v flags => exact (isSome_get?_iff t _).mpr ⟨v, rfl⟩
    | _ => rfl

/-! ## Senders -/

/-- `boost::asio::ip::address_v6`. -/
structure AddressV6 where
  bytes : BitVec 128
  scopeId : UInt64
  deriving DecidableEq

/-- `boost::asio::ip::address`. -/
inductive IpAddress
  | v4 (bytes : BitVec 32)
  | v6 (address : AddressV6)
  deriving DecidableEq

/-- `boost::asio::ip::bad_address_cast`, of Boost. -/
inductive BadAddressCast
  | badAddressCast
  deriving DecidableEq

/-- `address::to_v6`. -/
def IpAddress.toV6 : IpAddress → Except BadAddressCast AddressV6
  | .v4 _ => .error .badAddressCast
  | .v6 address => .ok address

/-- `boost::asio::ip::udp::endpoint`. -/
structure Endpoint where
  address : IpAddress
  port : UInt16
  deriving DecidableEq

/-- The sender of a packet. `SocketBase::openSocket` opens every socket with `udp::v6()`, so that
the endpoint `async_receive_from` fills in has an address of this kind. -/
structure Sender where
  address : AddressV6
  port : UInt16
  deriving DecidableEq

def Sender.endpoint (sender : Sender) : Endpoint := ⟨.v6 sender.address, sender.port⟩

/-! ## Expressions -/

/-- The classes of expressions, each under the type of its values. -/
inductive Exp : Type → Type 1
  | isOfType (type : PacketClass) : Exp Bool
  | eid : Exp UInt32
  | value (t : ValueType) : Exp t.Carrier
  | sourceIP : Exp AddressV6
  | sourcePort : Exp UInt16
  | constant {α : Type} (value : α) : Exp α
  | any : Exp Bool
  | hasExpression {α : Type} (item : Exp α) : Exp Bool
  | unary {α β : Type} (op : α → β) (exp : Exp α) : Exp β
  | binary {α β γ : Type} (op : α → β → γ) (left : Exp α) (right : Exp β) : Exp γ
  | booleanShortcut {α β : Type} [Truth α] [Truth β] (isAnd : Bool) (left : Exp α)
      (right : Exp β) : Exp Bool

namespace Exp

variable {α β γ : Type}

/-- `BooleanShortcutExpression::value`, with the evaluation of its two sides. -/
def shortcutValue [Truth α] [Truth β] (isAnd : Bool) (left : Except BadAddressCast (Option α))
    (right : Except BadAddressCast (Option β)) : Except BadAddressCast (Option Bool) := do
  let l ← left
  if isAnd && l.any (fun v => !truth v) then return some false
  if !isAnd && l.any truth then return some true
  let r ← right
  if isAnd && r.any (fun v => !truth v) then return some false
  if !isAnd && r.any truth then return some true
  match l, r with
  | some l, some r => return some (if isAnd then truth l && truth r else truth l || truth r)
  | _, _ => return none

/-- `value`, of each class. -/
def evaluate : {α : Type} → Exp α → Packet → Endpoint → Except BadAddressCast (Option α)
  | _, .isOfType type, packet, _ => .ok (some (type.isClassOf packet))
  | _, .eid, packet, _ => .ok packet.eid?
  | _, .value t, packet, _ => .ok (packet.value?.bind t.get?)
  | _, .sourceIP, _, sender => sender.address.toV6.map some
  | _, .sourcePort, _, sender => .ok (some sender.port)
  | _, .constant v, _, _ => .ok (some v)
  | _, .any, _, _ => .ok (some true)
  | _, .hasExpression item, packet, sender => do
    let v ← item.evaluate packet sender
    return some v.isSome
  | _, .unary op exp, packet, sender => do
    let v ← exp.evaluate packet sender
    match v with
    | some v => return some (op v)
    | none => return none
  | _, .binary op left right, packet, sender => do
    let l ← left.evaluate packet sender
    match l with
    | none => return none
    | some l =>
      let r ← right.evaluate packet sender
      match r with
      | some r => return some (op l r)
      | none => return none
  | _, @booleanShortcut _ _ _ _ isAnd left right, packet, sender =>
    shortcutValue isAnd (left.evaluate packet sender) (right.evaluate packet sender)

/-- `operator()`. -/
def passes [Truth α] (exp : Exp α) (packet : Packet) (sender : Endpoint) :
    Except BadAddressCast Bool := do
  let v ← exp.evaluate packet sender
  return v.any truth

/-! ## Operators -/

/-- `operator !`, with `std::logical_not`. -/
def not [Truth α] (exp : Exp α) : Exp Bool := unary (fun v => !truth v) exp

/-- `operator &&`. -/
def and [Truth α] [Truth β] (left : Exp α) (right : Exp β) : Exp Bool :=
  booleanShortcut true left right

/-- `operator ||`. -/
def or [Truth α] [Truth β] (left : Exp α) (right : Exp β) : Exp Bool :=
  booleanShortcut false left right

/-! ## What an expression means -/

/-- An operand of a connective. -/
def known [Truth α] (v : Option α) : Kleene.Truth := v.map truth

/-- The value of an expression: an access that does not apply is unknown, an operator on values
has none unless all of them are known, and the connectives are those of strong Kleene logic. -/
def meaning : {α : Type} → Exp α → Packet → Sender → Option α
  | _, .isOfType type, packet, _ => some (type.isClassOf packet)
  | _, .eid, packet, _ => packet.eid?
  | _, .value t, packet, _ => packet.value?.bind t.get?
  | _, .sourceIP, _, sender => some sender.address
  | _, .sourcePort, _, sender => some sender.port
  | _, .constant v, _, _ => some v
  | _, .any, _, _ => some true
  | _, .hasExpression item, packet, sender => some (item.meaning packet sender).isSome
  | _, .unary op exp, packet, sender => (exp.meaning packet sender).map op
  | _, .binary op left right, packet, sender =>
    Option.map₂ op (left.meaning packet sender) (right.meaning packet sender)
  | _, @booleanShortcut _ _ _ _ true left right, packet, sender =>
    Kleene.conj (known (left.meaning packet sender)) (known (right.meaning packet sender))
  | _, @booleanShortcut _ _ _ _ false left right, packet, sender =>
    Kleene.disj (known (left.meaning packet sender)) (known (right.meaning packet sender))

section Meaning

variable (packet : Packet) (sender : Sender)

@[simp] theorem known_bool (v : Option Bool) : known v = v := by
  unfold known
  exact congrFun Option.map_id v

@[simp] theorem meaning_not [Truth α] (exp : Exp α) :
    (not exp).meaning packet sender = Kleene.neg (known (exp.meaning packet sender)) := by
  show (exp.meaning packet sender).map _ = _
  unfold Kleene.neg known
  rw [Option.map_map]
  rfl

@[simp] theorem meaning_and [Truth α] [Truth β] (left : Exp α) (right : Exp β) :
    (and left right).meaning packet sender =
      Kleene.conj (known (left.meaning packet sender)) (known (right.meaning packet sender)) :=
  rfl

@[simp] theorem meaning_or [Truth α] [Truth β] (left : Exp α) (right : Exp β) :
    (or left right).meaning packet sender =
      Kleene.disj (known (left.meaning packet sender)) (known (right.meaning packet sender)) :=
  rfl

/-! ## Evaluation -/

/-- The two sides in the order they are evaluated. -/
theorem shortcutValue_ok [Truth α] [Truth β] (isAnd : Bool) (l : Option α) (r : Option β) :
    shortcutValue isAnd (.ok l) (.ok r) =
      if isAnd && l.any (fun v => !truth v) then .ok (some false)
      else if !isAnd && l.any truth then .ok (some true)
      else if isAnd && r.any (fun v => !truth v) then .ok (some false)
      else if !isAnd && r.any truth then .ok (some true)
      else match l, r with
        | some l, some r => .ok (some (if isAnd then truth l && truth r else truth l || truth r))
        | _, _ => .ok none := by
  cases l <;> cases r <;> rfl

/-- A false left side ends a conjunction, and so does a false right side behind a left side
without a value. -/
theorem shortcutValue_and [Truth α] [Truth β] (l : Option α) (r : Option β) :
    shortcutValue true (.ok l) (.ok r) = .ok (Kleene.conj (known l) (known r)) := by
  rw [shortcutValue_ok]
  unfold Kleene.conj known
  cases l with
  | none =>
    cases r with
    | none => rfl
    | some r => cases hr : truth r <;> simp [hr]
  | some l =>
    cases r with
    | none => cases hl : truth l <;> simp [hl]
    | some r => cases hl : truth l <;> cases hr : truth r <;> simp [hl, hr]

/-- A true side ends a disjunction. -/
theorem shortcutValue_or [Truth α] [Truth β] (l : Option α) (r : Option β) :
    shortcutValue false (.ok l) (.ok r) = .ok (Kleene.disj (known l) (known r)) := by
  rw [shortcutValue_ok]
  unfold Kleene.disj known
  cases l with
  | none =>
    cases r with
    | none => rfl
    | some r => cases hr : truth r <;> simp [hr]
  | some l =>
    cases r with
    | none => cases hl : truth l <;> simp [hl]
    | some r => cases hl : truth l <;> cases hr : truth r <;> simp [hl, hr]

/-- **Evaluation** ends, and gives what the expression means. -/
theorem evaluate_eq (exp : Exp α) :
    exp.evaluate packet sender.endpoint = .ok (exp.meaning packet sender) := by
  induction exp with
  | isOfType type => rfl
  | eid => rfl
  | value t => rfl
  | sourceIP => rfl
  | sourcePort => rfl
  | constant v => rfl
  | any => rfl
  | hasExpression item ih =>
    simp only [evaluate, meaning, ih]
    rfl
  | unary op exp ih =>
    simp only [evaluate, meaning, ih]
    cases exp.meaning packet sender <;> rfl
  | binary op left right ihLeft ihRight =>
    simp only [evaluate, meaning, ihLeft, ihRight]
    cases left.meaning packet sender with
    | none => rfl
    | some l => cases right.meaning packet sender <;> rfl
  | booleanShortcut isAnd left right ihLeft ihRight =>
    simp only [evaluate, ihLeft, ihRight]
    cases isAnd with
    | true => exact shortcutValue_and _ _
    | false => exact shortcutValue_or _ _

theorem passes_eq [Truth α] (exp : Exp α) :
    exp.passes packet sender.endpoint = .ok ((exp.meaning packet sender).any truth) := by
  unfold passes
  rw [evaluate_eq]
  rfl

/-! ## Laws -/

/-- Two expressions of which one comes from the other by swapping and regrouping the operands of
connectives and by the laws of De Morgan, anywhere in the tree. -/
inductive Rearranged : {α : Type} → Exp α → Exp α → Prop
  | refl {α : Type} (exp : Exp α) : Rearranged exp exp
  | symm {α : Type} {exp exp' : Exp α} : Rearranged exp exp' → Rearranged exp' exp
  | trans {α : Type} {exp exp' exp'' : Exp α} :
      Rearranged exp exp' → Rearranged exp' exp'' → Rearranged exp exp''
  | and_comm {α β : Type} [Truth α] [Truth β] (left : Exp α) (right : Exp β) :
      Rearranged (and left right) (and right left)
  | or_comm {α β : Type} [Truth α] [Truth β] (left : Exp α) (right : Exp β) :
      Rearranged (or left right) (or right left)
  | and_assoc {α β γ : Type} [Truth α] [Truth β] [Truth γ] (a : Exp α) (b : Exp β) (c : Exp γ) :
      Rearranged (and (and a b) c) (and a (and b c))
  | or_assoc {α β γ : Type} [Truth α] [Truth β] [Truth γ] (a : Exp α) (b : Exp β) (c : Exp γ) :
      Rearranged (or (or a b) c) (or a (or b c))
  | not_and {α β : Type} [Truth α] [Truth β] (left : Exp α) (right : Exp β) :
      Rearranged (not (and left right)) (or (not left) (not right))
  | not_or {α β : Type} [Truth α] [Truth β] (left : Exp α) (right : Exp β) :
      Rearranged (not (or left right)) (and (not left) (not right))
  | hasExpression {α : Type} {item item' : Exp α} :
      Rearranged item item' → Rearranged (hasExpression item) (hasExpression item')
  | unary {α β : Type} (op : α → β) {exp exp' : Exp α} :
      Rearranged exp exp' → Rearranged (unary op exp) (unary op exp')
  | binary {α β γ : Type} (op : α → β → γ) {left left' : Exp α} {right right' : Exp β} :
      Rearranged left left' → Rearranged right right' →
        Rearranged (binary op left right) (binary op left' right')
  | booleanShortcut {α β : Type} [Truth α] [Truth β] (isAnd : Bool) {left left' : Exp α}
      {right right' : Exp β} : Rearranged left left' → Rearranged right right' →
        Rearranged (booleanShortcut isAnd left right) (booleanShortcut isAnd left' right')

/-- **The laws** hold for what expressions mean. -/
theorem Rearranged.meaning_eq {exp exp' : Exp α} (h : Rearranged exp exp') :
    exp.meaning packet sender = exp'.meaning packet sender := by
  induction h with
  | refl exp => rfl
  | symm _ ih => exact ih.symm
  | trans _ _ ih ih' => exact ih.trans ih'
  | and_comm left right => exact Kleene.conj_comm _ _
  | or_comm left right => exact Kleene.disj_comm _ _
  | and_assoc a b c =>
    simp only [meaning_and, known_bool]
    exact Kleene.conj_assoc _ _ _
  | or_assoc a b c =>
    simp only [meaning_or, known_bool]
    exact Kleene.disj_assoc _ _ _
  | not_and left right =>
    simp only [meaning_and, meaning_or, meaning_not, known_bool]
    exact Kleene.neg_conj _ _
  | not_or left right =>
    simp only [meaning_and, meaning_or, meaning_not, known_bool]
    exact Kleene.neg_disj _ _
  | hasExpression _ ih => simp only [meaning, ih]
  | unary op _ ih => simp only [meaning, ih]
  | binary op _ _ ihLeft ihRight => simp only [meaning, ihLeft, ihRight]
  | booleanShortcut isAnd _ _ ihLeft ihRight =>
    cases isAnd <;> simp only [meaning, ihLeft, ihRight]

/-- The evaluation of an expression ends with this truth value. -/
def Is [Truth α] (exp : Exp α) (t : Kleene.Truth) : Prop :=
  ∃ v, exp.evaluate packet sender.endpoint = .ok v ∧ known v = t

theorem is_iff [Truth α] (exp : Exp α) (t : Kleene.Truth) :
    Is packet sender exp t ↔ known (exp.meaning packet sender) = t := by
  unfold Is
  rw [evaluate_eq]
  constructor
  · rintro ⟨v, hv, ht⟩
    rw [Except.ok.inj hv]
    exact ht
  · intro ht
    exact ⟨_, rfl, ht⟩

/-- Strong Kleene logic, on a packet of a sender. An access is known just when the packet has the
attribute, and its value is the attribute's. -/
structure StrongKleene : Prop where
  value : ∀ (t : ValueType) (v : t.Carrier),
    (Exp.value t).evaluate packet sender.endpoint = .ok (some v) ↔ HasValue packet (t.inject v)
  eid : ∀ e : UInt32,
    Exp.eid.evaluate packet sender.endpoint = .ok (some e) ↔ HasEid packet e
  isOfType : ∀ (type : PacketClass) (b : Bool),
    (Exp.isOfType type).evaluate packet sender.endpoint = .ok (some b) ↔
      (b = true ↔ OfClass packet type)
  source : Exp.sourceIP.evaluate packet sender.endpoint = .ok (some sender.address) ∧
    Exp.sourcePort.evaluate packet sender.endpoint = .ok (some sender.port)
  evaluates : ∀ {α : Type} (exp : Exp α),
    exp.evaluate packet sender.endpoint = .ok (exp.meaning packet sender)
  passes : ∀ {α : Type} [Truth α] (exp : Exp α), exp.passes packet sender.endpoint = .ok true ↔
    Is packet sender exp (some true)
  or_true : ∀ {α β : Type} [Truth α] [Truth β] (left : Exp α) (right : Exp β),
    Is packet sender (or left right) (some true) ↔
      Is packet sender left (some true) ∨ Is packet sender right (some true)
  or_false : ∀ {α β : Type} [Truth α] [Truth β] (left : Exp α) (right : Exp β),
    Is packet sender (or left right) (some false) ↔
      Is packet sender left (some false) ∧ Is packet sender right (some false)
  and_false : ∀ {α β : Type} [Truth α] [Truth β] (left : Exp α) (right : Exp β),
    Is packet sender (and left right) (some false) ↔
      Is packet sender left (some false) ∨ Is packet sender right (some false)
  and_true : ∀ {α β : Type} [Truth α] [Truth β] (left : Exp α) (right : Exp β),
    Is packet sender (and left right) (some true) ↔
      Is packet sender left (some true) ∧ Is packet sender right (some true)
  not_unknown : ∀ {α : Type} [Truth α] (exp : Exp α),
    Is packet sender (not exp) none ↔ Is packet sender exp none
  not_true : ∀ {α : Type} [Truth α] (exp : Exp α),
    Is packet sender (not exp) (some true) ↔ Is packet sender exp (some false)
  laws : ∀ {α : Type} {exp exp' : Exp α}, Rearranged exp exp' →
    exp.evaluate packet sender.endpoint = exp'.evaluate packet sender.endpoint

/-- **The algebra of filters**, for every packet and sender. -/
theorem strong_kleene : StrongKleene packet sender where
  value := by
    intro t v
    rw [evaluate_eq, Except.ok.injEq]
    exact value?_bind_eq_some_iff packet t v
  eid := by
    intro e
    rw [evaluate_eq, Except.ok.injEq]
    exact eid?_eq_some_iff packet e
  isOfType := by
    intro type b
    rw [evaluate_eq, Except.ok.injEq, ← isClassOf_iff]
    show some (type.isClassOf packet) = some b ↔ _
    rw [Option.some_inj, Bool.eq_iff_iff]
    exact Iff.comm
  source := ⟨rfl, rfl⟩
  evaluates := evaluate_eq packet sender
  passes := by
    intro α _ exp
    rw [passes_eq, is_iff, known, Except.ok.injEq, Option.any_eq_true, Option.map_eq_some_iff]
  or_true := by
    intro α β _ _ left right
    simp only [is_iff, known_bool, meaning_or, Kleene.disj_eq_true_iff]
  or_false := by
    intro α β _ _ left right
    simp only [is_iff, known_bool, meaning_or, Kleene.disj_eq_false_iff]
  and_false := by
    intro α β _ _ left right
    simp only [is_iff, known_bool, meaning_and, Kleene.conj_eq_false_iff]
  and_true := by
    intro α β _ _ left right
    simp only [is_iff, known_bool, meaning_and, Kleene.conj_eq_true_iff]
  not_unknown := by
    intro α _ exp
    simp only [is_iff, known_bool, meaning_not, Kleene.neg_eq_none_iff]
  not_true := by
    intro α _ exp
    simp only [is_iff, known_bool, meaning_not, Kleene.neg_eq_true_iff]
  laws := by
    intro α exp exp' h
    rw [evaluate_eq, evaluate_eq, h.meaning_eq]

/-! ## The filters of a device -/

/-- The connectives on filters are the same functions. -/
theorem shortcut_eq [Truth α] [Truth β] (isAnd : Bool) (left : PacketFilter α)
    (right : PacketFilter β) :
    .ok (shortcut isAnd left right packet) =
      shortcutValue isAnd (.ok (left packet)) (.ok (right packet)) := by
  rw [shortcutValue_ok]
  unfold shortcut
  simp only [@apply_ite _ _ (@Except.ok BadAddressCast _)]
  cases left packet <;> cases right packet <;> rfl

/-- A conjunction of filters is the filter of the conjunction. -/
theorem filtering_and [Truth α] [Truth β] (left : Exp α) (right : Exp β) :
    Filtering.and (left.meaning · sender) (right.meaning · sender) =
      ((and left right).meaning · sender) := by
  funext packet
  have h := shortcut_eq packet true (left.meaning · sender) (right.meaning · sender)
  rw [shortcutValue_and] at h
  exact Except.ok.inj h

theorem filtering_or [Truth α] [Truth β] (left : Exp α) (right : Exp β) :
    Filtering.or (left.meaning · sender) (right.meaning · sender) =
      ((or left right).meaning · sender) := by
  funext packet
  have h := shortcut_eq packet false (left.meaning · sender) (right.meaning · sender)
  rw [shortcutValue_or] at h
  exact Except.ok.inj h

end Meaning

end Exp

end Hexabus.Host.Filtering
