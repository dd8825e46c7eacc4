import Hexabus.Host.Packet

/-!
# Packet filters

`filtering.hpp`, without the sender's address, which no filter here looks at. A filter
expression has a value on a packet, or none. The operators are overloaded: an operand that is
no filter is taken for a constant.
-/

namespace Hexabus.Host

/-- `EIDPacket::eid`, if the packet is an `EIDPacket`. -/
def Packet.eid? : Packet → Option UInt32
  | .error .. => none
  | .query eid _ => some eid
  | .endpointQuery eid _ => some eid
  | .endpointInfo eid _ _ _ => some eid
  | .info eid _ _ => some eid
  | .write eid _ _ => some eid

namespace Filtering

/-- `value`. -/
abbrev PacketFilter (α : Type) := Packet → Option α

/-- What a condition in the code makes of a value. -/
class Truth (α : Type) where
  truth : α → Bool

export Truth (truth)

instance : Truth Bool := ⟨id⟩

/-- A function on packets. -/
abbrev Predicate := Packet → Bool

/-- A function decays to a pointer, and no function is at the null pointer. -/
instance : Truth Predicate := ⟨fun _ => true⟩

variable {α β γ : Type}

/-- `operator()`. -/
def passes [Truth α] (filter : PacketFilter α) (p : Packet) : Bool :=
  match filter p with
  | some v => truth v
  | none => false

def isQuery : PacketFilter Bool
  | .query .. => some true
  | _ => some false

def isEndpointQuery : PacketFilter Bool
  | .endpointQuery .. => some true
  | _ => some false

def eid : PacketFilter UInt32 := Packet.eid?

def constant (value : α) : PacketFilter α := fun _ => some value

/-- `BinaryExpression`. -/
def binary (op : α → β → γ) (left : PacketFilter α) (right : PacketFilter β) :
    PacketFilter γ := fun p =>
  match left p with
  | none => none
  | some l =>
    match right p with
    | some r => some (op l r)
    | none => none

/-- `BooleanShortcutExpression`. -/
def shortcut [Truth α] [Truth β] (isAnd : Bool) (left : PacketFilter α)
    (right : PacketFilter β) : PacketFilter Bool := fun p =>
  let l := left p
  if isAnd && l.any (fun v => !truth v) then some false
  else if !isAnd && l.any truth then some true
  else
    let r := right p
    if isAnd && r.any (fun v => !truth v) then some false
    else if !isAnd && r.any truth then some true
    else match l, r with
      | some l, some r => some (if isAnd then truth l && truth r else truth l || truth r)
      | _, _ => none

/-- `operator &&` on two filters. -/
def and [Truth α] [Truth β] (left : PacketFilter α) (right : PacketFilter β) :
    PacketFilter Bool :=
  shortcut true left right

/-- `operator ||` on two filters. -/
def or [Truth α] [Truth β] (left : PacketFilter α) (right : PacketFilter β) :
    PacketFilter Bool :=
  shortcut false left right

/-- `operator &&` on something else than a filter, and a filter. -/
def constantAnd [Truth α] [Truth β] (left : α) (right : PacketFilter β) : PacketFilter Bool :=
  shortcut true (constant left) right

/-! ## What passes -/

@[simp] theorem passes_constant [Truth α] (value : α) (p : Packet) :
    passes (constant value) p = truth value := rfl

/-- **A conjunction** passes where both sides do. -/
theorem passes_and [Truth α] [Truth β] (left : PacketFilter α) (right : PacketFilter β)
    (p : Packet) : passes (and left right) p = (passes left p && passes right p) := by
  unfold passes and shortcut
  cases left p with
  | none =>
    cases right p with
    | none => rfl
    | some r => cases hr : truth r <;> simp [hr, truth]
  | some l =>
    cases right p with
    | none => cases hl : truth l <;> simp [hl, truth]
    | some r => cases hl : truth l <;> cases hr : truth r <;> simp [hl, hr, truth]

/-- A disjunction passes where one side does. -/
theorem passes_or [Truth α] [Truth β] (left : PacketFilter α) (right : PacketFilter β)
    (p : Packet) : passes (or left right) p = (passes left p || passes right p) := by
  unfold passes or shortcut
  cases left p with
  | none =>
    cases right p with
    | none => rfl
    | some r => cases hr : truth r <;> simp [hr, truth]
  | some l =>
    cases right p with
    | none => cases hl : truth l <;> simp [hl, truth]
    | some r => cases hl : truth l <;> cases hr : truth r <;> simp [hl, hr, truth]

/-- **A function** in a conjunction is not called: only the other side decides. -/
theorem passes_constantAnd_predicate [Truth β] (predicate : Predicate) (right : PacketFilter β)
    (p : Packet) : passes (constantAnd predicate right) p = passes right p := by
  have h := passes_and (constant predicate) right p
  rw [passes_constant] at h
  exact h

/-- An operator with a number on its right. -/
@[simp] theorem binary_constant (op : α → β → γ) (left : PacketFilter α) (value : β)
    (p : Packet) : binary op left (constant value) p = (left p).map fun v => op v value := by
  unfold binary constant
  cases left p <;> rfl

theorem passes_comparison (op : α → β → Bool) (left : PacketFilter α) (value : β)
    (p : Packet) : passes (binary op left (constant value)) p = (left p).any fun v => op v value := by
  unfold passes
  rw [binary_constant]
  cases left p with
  | none => rfl
  | some v => rfl

end Filtering

end Hexabus.Host
