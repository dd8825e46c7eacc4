import Hexabus.Web.DeviceTree

/-!
# Looking up endpoints

An endpoint stands under the text that it was added with, its id is made of the number that this
text begins with, and a lookup cuts the id at its points.
-/

namespace Hexabus.Web.DeviceTree

open Lib

/-! ## What is in the tree -/

/-- An endpoint of this id stands under a key of a device. -/
def Live (t : Tree) (ip eid id : Text) : Prop :=
  ∃ d ep, t.devices.get ip = some d ∧ d.endpoints.get eid = some ep ∧ endpointId d.ip ep = id

/-- What holds of a device in the tree: no key hides an inherited property, and the endpoints have
the numbers of their keys. -/
structure Device.Kept (ip : Text) (d : Device) : Prop where
  ip_eq : d.ip = ip
  notInherited : ip ∉ inheritedNames
  endpoint : ∀ eid ep, d.endpoints.get eid = some ep →
    ep.eid = parseInt eid ∧ eid ∉ inheritedNames

def Tree.Kept (t : Tree) : Prop := ∀ ip d, t.devices.get ip = some d → d.Kept ip

theorem property_eq_absent {α : Type} {o : Object Text α} {key : Text}
    (h : property o key = .absent) : o.get key = none ∧ key ∉ inheritedNames := by
  unfold property at h
  split at h
  · simp at h
  · next hget =>
    split at h
    · simp at h
    · next hkey => exact ⟨hget, by simpa using hkey⟩

theorem property_eq_inherited {α : Type} {o : Object Text α} {key : Text}
    (h : property o key = .inherited) : o.get key = none ∧ key ∈ inheritedNames := by
  unfold property at h
  split at h
  · simp at h
  · next hget =>
    split at h
    · next hkey => exact ⟨hget, by simpa using hkey⟩
    · simp at h

theorem property_eq_own {α : Type} {o : Object Text α} {key : Text} {a : α} :
    property o key = .own a ↔ o.get key = some a := by
  unfold property
  cases h : o.get key with
  | some a' => simp
  | none => by_cases hk : key ∈ inheritedNames <;> simp [hk]

theorem property_of_inherited {α : Type} {o : Object Text α} {key : Text} (h : o.get key = none)
    (hk : key ∈ inheritedNames) : property o key = .inherited := by
  simp [property, h, hk]

theorem property_of_absent {α : Type} {o : Object Text α} {key : Text} (h : o.get key = none)
    (hk : key ∉ inheritedNames) : property o key = .absent := by
  simp [property, h, hk]

/-! ## One call -/

theorem newDevice_ok {now : ℤ} {ip : Text} {name : Option Value} {d : Device}
    (h : newDevice now ip name = .ok d) :
    isMissing name = false ∧ d.ip = ip ∧ name = some d.name ∧ d.endpoints = Object.empty := by
  unfold newDevice at h
  split at h
  · simp at h
  · simp at h
  · next name hname =>
    rw [← Except.ok.inj h]
    refine ⟨?_, rfl, rfl, rfl⟩
    cases name <;> simp_all [isMissing]

theorem newEndpoint_eid {now : ℤ} {eid : Text} {params : List (Text × Value)} {ep : Endpoint}
    (h : newEndpoint now eid params = .ok ep) : ep.eid = parseInt eid := by
  unfold newEndpoint at h
  split at h
  · simp at h
  · cases hf : addFunctionKeys params with
    | error e => simp [hf, Except.map] at h
    | ok fields =>
      rw [hf] at h
      rw [← Except.ok.inj h]

/-- The device of a call: it is the one in the tree, or a new one. -/
theorem deviceFor_ok {now : ℤ} {t : Tree} {ip : Text} {params : List (Text × Value)} {d : Device}
    (h : deviceFor now t ip params = .ok d) :
    t.devices.get ip = some d ∨ t.devices.get ip = none ∧ ip ∉ inheritedNames ∧
      newDevice now ip (Properties.get (literal "name") params) = .ok d := by
  unfold deviceFor at h
  cases hp : property t.devices ip with
  | own d' =>
    rw [hp] at h
    rw [← Except.ok.inj h]
    exact .inl (property_eq_own.mp hp)
  | inherited => simp [hp] at h
  | absent =>
    rw [hp] at h
    obtain ⟨hget, hkey⟩ := property_eq_absent hp
    exact .inr ⟨hget, hkey, h⟩

/-- The endpoint of a call: none is new exactly if there is a property of its key. -/
theorem endpointFor_ok {now : ℤ} {d : Device} {eid : Text} {params : List (Text × Value)}
    {new : Option Endpoint} (h : endpointFor now d eid params = .ok new) :
    (new = none ∧ (d.endpoints.get eid ≠ none ∨ eid ∈ inheritedNames)) ∨
      ∃ ep, new = some ep ∧ newEndpoint now eid params = .ok ep ∧ eid ∉ inheritedNames := by
  unfold endpointFor at h
  cases hp : property d.endpoints eid with
  | own ep =>
    rw [hp] at h
    rw [property_eq_own] at hp
    exact .inl ⟨(Except.ok.inj h).symm, .inl (by simp [hp])⟩
  | inherited =>
    rw [hp] at h
    exact .inl ⟨(Except.ok.inj h).symm, .inr (property_eq_inherited hp).2⟩
  | absent =>
    rw [hp] at h
    obtain ⟨hget, hkey⟩ := property_eq_absent hp
    cases hnew : newEndpoint now eid params with
    | error e => simp [hnew, Except.map] at h
    | ok ep =>
      rw [hnew] at h
      exact .inr ⟨ep, (Except.ok.inj h).symm, rfl, hkey⟩

theorem setDevice_of_get {t : Tree} {ip : Text} {d : Device} (h : t.devices.get ip = some d) :
    t.setDevice ip d = t := by
  rw [Tree.setDevice, Object.put_of_get h]

/-- **What a call to `add_endpoint` does.** Nothing; or a device without endpoints is new; or an
endpoint is new, in a device that was there or is new. -/
theorem addEndpoint_cases (now : ℤ) (t : Tree) (ip eid : Text) (params : List (Text × Value)) :
    ((addEndpoint now t ip eid params).1 = t ∧
      (addEndpoint now t ip eid params).2.isOk = false ∧
      ¬ (t.devices.get ip = none ∧ ip ∉ inheritedNames ∧
        isMissing (Properties.get (literal "name") params) = false ∧ eid ∈ inheritedNames)) ∨
    (∃ d : Device, (addEndpoint now t ip eid params).1 = t.setDevice ip d ∧
      (addEndpoint now t ip eid params).2.isOk = false ∧
      t.devices.get ip = none ∧ ip ∉ inheritedNames ∧ eid ∈ inheritedNames ∧
      newDevice now ip (Properties.get (literal "name") params) = .ok d) ∨
    ∃ (d : Device) (ep : Endpoint),
      (addEndpoint now t ip eid params).1 = t.setDevice ip (d.setEndpoint eid ep) ∧
      (addEndpoint now t ip eid params).2 = .ok ep ∧
      newEndpoint now eid params = .ok ep ∧ eid ∉ inheritedNames ∧
      (t.devices.get ip = some d ∨ t.devices.get ip = none ∧ ip ∉ inheritedNames ∧
        newDevice now ip (Properties.get (literal "name") params) = .ok d) := by
  cases hd : deviceFor now t ip params with
  | error e =>
    have heq : addEndpoint now t ip eid params = (t, .error e) := by simp [addEndpoint, hd]
    rw [heq]
    refine .inl ⟨rfl, rfl, ?_⟩
    rintro ⟨hget, hkey, hname, -⟩
    rw [deviceFor, property_of_absent hget hkey] at hd
    cases hn : Properties.get (literal "name") params with
    | none => simp [hn, isMissing] at hname
    | some name => cases name <;> simp [hn, isMissing, newDevice] at hname hd
  | ok d =>
    cases he : endpointFor now d eid params with
    | error e =>
      have heq : addEndpoint now t ip eid params = (t, .error e) := by simp [addEndpoint, hd, he]
      rw [heq]
      refine .inl ⟨rfl, rfl, ?_⟩
      rintro ⟨hget, hkey, -, heid⟩
      rcases deviceFor_ok hd with hown | ⟨-, -, hnew⟩
      · simp [hown] at hget
      · obtain ⟨-, -, -, hempty⟩ := newDevice_ok hnew
        have hnone : d.endpoints.get eid = none := by rw [hempty, Object.get_empty]
        simp [endpointFor, property_of_inherited hnone heid] at he
    | ok new =>
      rcases endpointFor_ok he with ⟨rfl, hor⟩ | ⟨ep, rfl, hep, hkeyEid⟩
      · have heq : addEndpoint now t ip eid params =
            (t.setDevice ip d, .error (.text (literal "Endpoint exists"))) := by
          simp [addEndpoint, hd, he]
        rw [heq]
        rcases deviceFor_ok hd with hown | ⟨hget, hkey, hnew⟩
        · refine .inl ⟨setDevice_of_get hown, rfl, ?_⟩
          rintro ⟨hget, -⟩
          simp [hown] at hget
        · have heid : eid ∈ inheritedNames := by
            rcases hor with hne | heid
            · obtain ⟨-, -, -, hempty⟩ := newDevice_ok hnew
              exact absurd (by rw [hempty, Object.get_empty]) hne
            · exact heid
          exact .inr (.inl ⟨d, rfl, rfl, hget, hkey, heid, hnew⟩)
      · have heq : addEndpoint now t ip eid params =
            (t.setDevice ip (d.setEndpoint eid ep), .ok ep) := by
          simp [addEndpoint, hd, he, Tree.setDevice, Object.put_put]
        rw [heq]
        rcases deviceFor_ok hd with hown | hnew
        · exact .inr (.inr ⟨d, ep, rfl, rfl, hep, hkeyEid, .inl hown⟩)
        · exact .inr (.inr ⟨d, ep, rfl, rfl, hep, hkeyEid, .inr hnew⟩)

/-! ## Any calls -/

theorem Tree.Kept.setDevice {t : Tree} (ht : t.Kept) {ip : Text} {d : Device} (hd : d.Kept ip) :
    (t.setDevice ip d).Kept := by
  intro ip' d' h
  rw [Tree.setDevice, Object.get_put] at h
  split at h
  · next heq =>
    rw [← heq, ← Option.some.inj h]
    exact hd
  · exact ht ip' d' h

theorem Device.Kept.of_new {now : ℤ} {ip : Text} {name : Option Value} {d : Device}
    (hkey : ip ∉ inheritedNames) (h : newDevice now ip name = .ok d) : d.Kept ip := by
  obtain ⟨-, hip, -, hempty⟩ := newDevice_ok h
  refine ⟨hip, hkey, fun eid ep hget => ?_⟩
  simp [hempty] at hget

theorem Device.Kept.setEndpoint {ip : Text} {d : Device} (hd : d.Kept ip) {eid : Text}
    {ep : Endpoint} (hep : ep.eid = parseInt eid) (hkey : eid ∉ inheritedNames) :
    (d.setEndpoint eid ep).Kept ip := by
  refine ⟨hd.ip_eq, hd.notInherited, fun eid' ep' h => ?_⟩
  rw [Device.setEndpoint, Object.get_put] at h
  split at h
  · next heq =>
    rw [← heq, ← Option.some.inj h]
    exact ⟨hep, hkey⟩
  · exact hd.endpoint eid' ep' h

theorem Tree.Kept.addEndpoint {t : Tree} (ht : t.Kept) (now : ℤ) (ip eid : Text)
    (params : List (Text × Value)) : (DeviceTree.addEndpoint now t ip eid params).1.Kept := by
  rcases addEndpoint_cases now t ip eid params with ⟨heq, -⟩ |
    ⟨d, heq, -, -, hkey, -, hnew⟩ | ⟨d, ep, heq, -, hep, heid, hor⟩
  · rwa [heq]
  · rw [heq]
    exact ht.setDevice (.of_new hkey hnew)
  · rw [heq]
    refine ht.setDevice (.setEndpoint ?_ (newEndpoint_eid hep) heid)
    rcases hor with hown | ⟨-, hkey, hnew⟩
    · exact ht ip d hown
    · exact .of_new hkey hnew

theorem Tree.Kept.remove {t : Tree} (ht : t.Kept) (ip : Text) :
    (DeviceTree.remove t ip).1.Kept := by
  unfold DeviceTree.remove
  split
  · intro ip' d h
    rw [Object.get_erase] at h
    split at h
    · simp at h
    · exact ht ip' d h
  · exact ht
  · exact ht

theorem Tree.Kept.run {t : Tree} (ht : t.Kept) (c : Call) : (c.run t).1.Kept := by
  cases c with
  | addEndpoint now ip eid params => exact ht.addEndpoint now ip eid params
  | remove ip => exact ht.remove ip

theorem Tree.Kept.foldl {t : Tree} (ht : t.Kept) (calls : List Call) :
    (calls.foldl (fun t c => (c.run t).1) t).Kept := by
  induction calls generalizing t with
  | nil => exact ht
  | cons c calls ih => exact ih (ht.run c)

theorem kept_after (calls : List Call) : (after calls).Kept :=
  Tree.Kept.foldl (fun ip d h => by simp [Tree.empty] at h) calls

/-- What is live after a call was live before it, or is what the call added. -/
theorem live_run {t : Tree} {c : Call} {ip eid id : Text} (h : Live (c.run t).1 ip eid id) :
    (∃ id', Live t ip eid id') ∨ ∃ now params, c = .addEndpoint now ip eid params := by
  obtain ⟨d, ep, hd, hep, -⟩ := h
  cases c with
  | addEndpoint now ip' eid' params =>
    have hrun : (Call.run t (.addEndpoint now ip' eid' params)).1 =
        (DeviceTree.addEndpoint now t ip' eid' params).1 := rfl
    rw [hrun] at hd
    rcases addEndpoint_cases now t ip' eid' params with ⟨heq, -⟩ |
      ⟨d', heq, -, -, -, -, hnew⟩ | ⟨d', ep', heq, -, -, -, hor⟩
    · rw [heq] at hd
      exact .inl ⟨_, d, ep, hd, hep, rfl⟩
    · rw [heq, Tree.setDevice, Object.get_put] at hd
      split at hd
      · rw [← Option.some.inj hd, (newDevice_ok hnew).2.2.2] at hep
        simp at hep
      · exact .inl ⟨_, d, ep, hd, hep, rfl⟩
    · rw [heq, Tree.setDevice, Object.get_put] at hd
      split at hd
      · next hip =>
        rw [← Option.some.inj hd, Device.setEndpoint, Object.get_put] at hep
        split at hep
        · next heid => exact .inr ⟨now, params, by rw [hip, heid]⟩
        · rcases hor with hown | ⟨-, -, hnew⟩
          · exact .inl ⟨_, d', ep, hip ▸ hown, hep, rfl⟩
          · rw [(newDevice_ok hnew).2.2.2] at hep
            simp at hep
      · exact .inl ⟨_, d, ep, hd, hep, rfl⟩
  | remove ip' =>
    have hrun : (Call.run t (.remove ip')).1 = (DeviceTree.remove t ip').1 := rfl
    rw [hrun] at hd
    unfold DeviceTree.remove at hd
    split at hd
    · rw [Object.get_erase] at hd
      split at hd
      · simp at hd
      · exact .inl ⟨_, d, ep, hd, hep, rfl⟩
    · exact .inl ⟨_, d, ep, hd, hep, rfl⟩
    · exact .inl ⟨_, d, ep, hd, hep, rfl⟩

theorem live_foldl {calls : List Call} {t : Tree} {ip eid id : Text}
    (h : Live (calls.foldl (fun t c => (c.run t).1) t) ip eid id) :
    (∃ id', Live t ip eid id') ∨ ∃ now params, .addEndpoint now ip eid params ∈ calls := by
  induction calls generalizing t with
  | nil => exact .inl ⟨id, h⟩
  | cons c calls ih =>
    rcases ih h with ⟨id', h'⟩ | ⟨now, params, hmem⟩
    · rcases live_run h' with hlive | ⟨now, params, rfl⟩
      · exact .inl hlive
      · exact .inr ⟨now, params, List.mem_cons_self⟩
    · exact .inr ⟨now, params, List.mem_cons_of_mem _ hmem⟩

/-- Every endpoint that is live was added by a call. -/
theorem live_after {calls : List Call} {ip eid id : Text} (h : Live (after calls) ip eid id) :
    ∃ now params, .addEndpoint now ip eid params ∈ calls := by
  rcases live_foldl h with ⟨_, d, ep, hd, -⟩ | hmem
  · simp [Tree.empty] at hd
  · exact hmem

/-! ## The parts of an id -/

def firstPart (id : Text) : Text := (id.splitOn 0x2E).headD []

def secondPart (id : Text) : Text := ((id.splitOn 0x2E).tail.head?).getD (literal "undefined")

/-- The text up to the first point. -/
def beforePoint (s : Text) : Text := s.takeWhile fun c => c ≠ 0x2E

theorem head_splitOn (s : Text) : (s.splitOn 0x2E).head? = some (beforePoint s) := by
  by_cases h : (0x2E : UInt16) ∈ s
  · obtain ⟨p, r, rfl, hp⟩ := List.eq_append_cons_of_mem h
    have hall : ∀ c ∈ p, decide (c ≠ 0x2E) = true := by
      intro c hc
      simpa using fun h0 : c = 0x2E => hp (h0 ▸ hc)
    rw [List.splitOn_append_cons_self_of_not_mem hp, beforePoint,
      List.takeWhile_append_of_pos hall]
    simp
  · rw [List.splitOn_eq_singleton h, beforePoint, List.takeWhile_eq_self_iff.mpr]
    · rfl
    · intro c hc
      simpa using fun h0 : c = 0x2E => h (h0 ▸ hc)

theorem firstPart_eq (id : Text) : firstPart id = beforePoint id := by
  rw [firstPart, List.headD_eq_head?_getD, head_splitOn]
  rfl

theorem point_notMem_beforePoint (s : Text) : 0x2E ∉ beforePoint s := by
  intro h
  have := List.mem_takeWhile_imp h
  simp at this

theorem beforePoint_append {ip : Text} (hip : 0x2E ∉ ip) (s : Text) :
    beforePoint (ip ++ 0x2E :: s) = ip := by
  have hall : ∀ c ∈ ip, decide (c ≠ 0x2E) = true := by
    intro c hc
    simpa using fun h0 : c = 0x2E => hip (h0 ▸ hc)
  rw [beforePoint, List.takeWhile_append_of_pos hall]
  simp

theorem secondPart_append {ip : Text} (hip : 0x2E ∉ ip) (s : Text) :
    secondPart (ip ++ 0x2E :: s) = beforePoint s := by
  rw [secondPart, List.splitOn_append_cons_self_of_not_mem hip, List.tail_cons, head_splitOn]
  rfl

theorem endpointById_eq (t : Tree) (id : Text) :
    endpointById t id = match property t.devices (firstPart id) with
      | .absent => .nothing
      | .inherited => .throws
      | .own d => match property d.endpoints (secondPart id) with
        | .absent => .nothing
        | .inherited => .inherited
        | .own _ => .endpoint (firstPart id) (secondPart id) := rfl

/-! ## What is asked of a lookup -/

/-- No two endpoints that are live have the same id. -/
def Distinct (t : Tree) : Prop :=
  ∀ ip eid ip' eid' id, Live t ip eid id → Live t ip' eid' id → ip = ip' ∧ eid = eid'

/-- An endpoint that is live is found by its id. -/
def Identified (t : Tree) : Prop :=
  ∀ ip eid id, Live t ip eid id → endpointById t id = .endpoint ip eid

/-- Nothing is found by any other id. -/
def NothingElse (t : Tree) : Prop :=
  ∀ id, (∀ ip eid, ¬ Live t ip eid id) → endpointById t id = .nothing

/-- The address has no point, and the key is the text of the number that it begins with, up to a
point in that text. -/
def Canonical (ip eid : Text) : Prop :=
  0x2E ∉ ip ∧ beforePoint (numberText (parseInt eid)) = eid

instance (ip eid : Text) : Decidable (Canonical ip eid) := inferInstanceAs (Decidable (_ ∧ _))

/-- A device has been added, and its endpoint is found to exist: its key is inherited. -/
def HalfWay (t : Tree) : Call → Prop
  | .addEndpoint _ ip eid params =>
    t.devices.get ip = none ∧ ip ∉ inheritedNames ∧
      isMissing (Properties.get (literal "name") params) = false ∧ eid ∈ inheritedNames
  | .remove _ => False

theorem Tree.Kept.id_eq {t : Tree} (ht : t.Kept) {ip eid id : Text} (h : Live t ip eid id) :
    id = ip ++ 0x2E :: numberText (parseInt eid) := by
  obtain ⟨d, ep, hd, hep, rfl⟩ := h
  have hk := ht ip d hd
  rw [endpointId, hk.ip_eq, (hk.endpoint eid ep hep).1]

/-- **An endpoint is found by its id exactly if its address and its key are canonical.** -/
theorem Tree.Kept.found_iff {t : Tree} (ht : t.Kept) {ip eid id : Text} (h : Live t ip eid id) :
    endpointById t id = .endpoint ip eid ↔ Canonical ip eid := by
  have hid := ht.id_eq h
  constructor
  · intro hfound
    have hparts : firstPart id = ip ∧ secondPart id = eid := by
      rw [endpointById_eq] at hfound
      split at hfound
      · simp at hfound
      · simp at hfound
      · split at hfound
        · simp at hfound
        · simp at hfound
        · exact Found.endpoint.inj hfound
    have hip : 0x2E ∉ ip := by
      rw [← hparts.1, firstPart_eq]
      exact point_notMem_beforePoint id
    refine ⟨hip, ?_⟩
    rw [← secondPart_append hip, ← hid, hparts.2]
  · rintro ⟨hip, heid⟩
    obtain ⟨d, ep, hd, hep, -⟩ := h
    have hfirst : firstPart id = ip := by rw [hid, firstPart_eq, beforePoint_append hip]
    have hsecond : secondPart id = eid := by rw [hid, secondPart_append hip, heid]
    rw [endpointById_eq, hfirst, hsecond, property_eq_own.mpr hd]
    simp only [property_eq_own.mpr hep]

theorem Identified.distinct {t : Tree} (h : Identified t) : Distinct t := by
  intro ip eid ip' eid' id hlive hlive'
  have heq := (h ip eid id hlive).symm.trans (h ip' eid' id hlive')
  exact Found.endpoint.inj heq

theorem Tree.Kept.identified_iff {t : Tree} (ht : t.Kept) :
    Distinct t ∧ Identified t ↔ ∀ ip eid id, Live t ip eid id → Canonical ip eid := by
  constructor
  · rintro ⟨-, h⟩ ip eid id hlive
    exact (ht.found_iff hlive).mp (h ip eid id hlive)
  · intro h
    have hid : Identified t := fun ip eid id hlive =>
      (ht.found_iff hlive).mpr (h ip eid id hlive)
    exact ⟨hid.distinct, hid⟩

/-- What finds nothing: the two parts of the id name neither what is in the tree nor what is
inherited. -/
theorem Tree.Kept.nothing_iff {t : Tree} (ht : t.Kept) (id : Text) :
    endpointById t id = .nothing ↔ firstPart id ∉ inheritedNames ∧
      ∀ d, t.devices.get (firstPart id) = some d →
        secondPart id ∉ inheritedNames ∧ d.endpoints.get (secondPart id) = none := by
  rw [endpointById_eq]
  cases hp : property t.devices (firstPart id) with
  | absent =>
    obtain ⟨hget, hkey⟩ := property_eq_absent hp
    simp [hget, hkey]
  | inherited => simp [(property_eq_inherited hp).2]
  | own d =>
    rw [property_eq_own] at hp
    have hk := ht _ d hp
    dsimp only
    cases he : property d.endpoints (secondPart id) with
    | absent =>
      obtain ⟨hget, hkey⟩ := property_eq_absent he
      simp [hp, hk.notInherited, hget, hkey]
    | inherited => simp [hp, (property_eq_inherited he).2]
    | own ep =>
      rw [property_eq_own] at he
      simp [hp, he]

/-- The name of an inherited property is no id, and the lookup throws. -/
theorem Tree.Kept.not_nothingElse {t : Tree} (ht : t.Kept) : ¬ NothingElse t := by
  intro h
  have hname : literal "constructor" ∈ inheritedNames := by decide
  have hnot : ∀ ip eid, ¬ Live t ip eid (literal "constructor") := by
    intro ip eid hlive
    have hpoint : (0x2E : UInt16) ∉ literal "constructor" := by decide
    rw [ht.id_eq hlive] at hpoint
    exact hpoint (by simp)
  have hfirst : firstPart (literal "constructor") = literal "constructor" := by decide
  have := ((ht.nothing_iff _).mp (h _ hnot)).1
  rw [hfirst] at this
  exact this hname

/-- **A call that throws leaves the tree as it is exactly if it does not stop half way.** -/
theorem unchanged_iff {t : Tree} {c : Call} (h : (c.run t).2 = true) :
    (c.run t).1 = t ↔ ¬ HalfWay t c := by
  cases c with
  | addEndpoint now ip eid params =>
    have hrun : (Call.run t (.addEndpoint now ip eid params)).1 =
        (addEndpoint now t ip eid params).1 := rfl
    rw [hrun]
    rcases addEndpoint_cases now t ip eid params with ⟨heq, -, hnot⟩ |
      ⟨d, heq, -, hget, hkey, heid, hnew⟩ | ⟨d, ep, -, hok, -⟩
    · exact ⟨fun _ => hnot, fun _ => heq⟩
    · refine ⟨fun hsame => ?_,
        fun hnot => absurd ⟨hget, hkey, (newDevice_ok hnew).1, heid⟩ hnot⟩
      rw [heq] at hsame
      have hown : (t.setDevice ip d).devices.get ip = some d := Object.get_put_self _ _ _
      rw [hsame, hget] at hown
      simp at hown
    · have hthrew : (Call.run t (.addEndpoint now ip eid params)).2 =
          ((addEndpoint now t ip eid params).2.isOk == false) := rfl
      rw [hthrew, hok] at h
      simp [Except.isOk, Except.toBool] at h
  | remove ip =>
    refine ⟨fun _ => id, fun _ => ?_⟩
    have hrun : Call.run t (.remove ip) = ((remove t ip).1, (remove t ip).2.isOk == false) := rfl
    rw [hrun] at h ⊢
    unfold remove at h ⊢
    cases hp : property t.devices ip with
    | own d => simp [hp, Except.isOk, Except.toBool] at h
    | inherited => simp
    | absent => simp

/-- **Lookup in a tree that calls have made.** Ids are distinct and every endpoint that is live is
found by its id exactly if the addresses and keys of the endpoints are canonical; so they are where
the calls only give such ones. Which ids find nothing depends on the first two of their parts, so
that in no tree all the others do; and a call that throws changes the tree exactly if it stops half
way. -/
theorem lookup_iff (calls : List Call) :
    (Distinct (after calls) ∧ Identified (after calls) ↔
      ∀ ip eid id, Live (after calls) ip eid id → Canonical ip eid) ∧
    ((∀ now ip eid params, .addEndpoint now ip eid params ∈ calls → Canonical ip eid) →
      Distinct (after calls) ∧ Identified (after calls)) ∧
    (∀ id, endpointById (after calls) id = .nothing ↔ firstPart id ∉ inheritedNames ∧
      ∀ d, (after calls).devices.get (firstPart id) = some d →
        secondPart id ∉ inheritedNames ∧ d.endpoints.get (secondPart id) = none) ∧
    ¬ NothingElse (after calls) ∧
    ∀ c, (Call.run (after calls) c).2 = true →
      ((Call.run (after calls) c).1 = after calls ↔ ¬ HalfWay (after calls) c) := by
  have hkept := kept_after calls
  refine ⟨hkept.identified_iff, fun h => ?_, hkept.nothing_iff, hkept.not_nothingElse,
    fun c hc => unchanged_iff hc⟩
  refine hkept.identified_iff.mpr fun ip eid id hlive => ?_
  obtain ⟨now, params, hmem⟩ := live_after hlive
  exact h now ip eid params hmem

/-- The parameters of an actor. -/
def lampParams : List (Text × Value) :=
  [(literal "name", .string (literal "lamp")), (literal "type", .number (.finite 1)),
    (literal "description", .string (literal "switch")),
    (literal "function", .string (literal "actor"))]

/-- The ids of the endpoints of a device. -/
def idsOf (t : Tree) (ip : Text) : List Text :=
  match t.devices.get ip with
  | some d => d.endpoints.entries.map fun e => endpointId d.ip e.2
  | none => []

/-- Endpoint 1 under the keys `1` and `01` has one id; under the key `01` it is not found, and under
the key `1` by another id, too; and a device is added by a call that throws. -/
theorem lookup_misses :
    idsOf (after [.addEndpoint 0 (literal "fd00::1") (literal "1") lampParams,
        .addEndpoint 0 (literal "fd00::1") (literal "01") lampParams]) (literal "fd00::1") =
        [literal "fd00::1.1", literal "fd00::1.1"] ∧
      endpointById (after [.addEndpoint 0 (literal "fd00::1") (literal "01") lampParams])
        (literal "fd00::1.1") = .nothing ∧
      endpointById (after [.addEndpoint 0 (literal "fd00::1") (literal "1") lampParams])
        (literal "fd00::1.1.5") = .endpoint (literal "fd00::1") (literal "1") ∧
      (Call.run Tree.empty
        (.addEndpoint 0 (literal "fd00::1") (literal "constructor") lampParams)).2 = true ∧
      ((Call.run Tree.empty
        (.addEndpoint 0 (literal "fd00::1") (literal "constructor") lampParams)).1.devices.get
          (literal "fd00::1")).isSome = true := by
  decide +kernel

end Hexabus.Web.DeviceTree
