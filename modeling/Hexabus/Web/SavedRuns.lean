import Hexabus.Web.SavedTrees

/-!
# Runs after which a save is loaded

Which requests and messages may change the tree so that a save of it is loaded: those that bring in
only what the file can hold, and only fields that the endpoint has.
-/

namespace Hexabus.Web.DeviceTree

open Lib

/-! ## Events that keep a tree storable -/

/-- An endpoint that is added can be stored, and so can the device that is added for it. A call
that changes nothing does no harm. -/
def SoundAdd (now : ℤ) (t : Tree) (ip eid : Text) (params : List (Text × Value)) : Prop :=
  (addEndpoint now t ip eid params).1 = t ∨
    (t.devices.get ip = none → WellFormed ip ∧
      ∀ name, Properties.get (literal "name") params = some name → name.isStorable = true) ∧
    ∀ ep, newEndpoint now eid params = .ok ep →
      WellFormed eid ∧ Rereads ep.eid ∧ membersStorable ep.fields = true

def isFinite : Number → Bool
  | .finite _ => true
  | _ => false

/-- **What an event brings in can be stored**, where it changes the tree. -/
def Sound (t : Tree) : Event → Prop
  | .putSensor now ip eid body =>
    putSensor now t ip eid body = t ∨
      SoundAdd now t ip eid (withBounds body) ∧
        ((addEndpoint now t ip eid (withBounds body)).2.isOk = true →
          ∀ n, parseFloatOf (Properties.get (literal "value") body) = some n →
            isFinite n = true)
  | .postSensor now ip eid body =>
    postSensor now t ip eid body = some t ∨
      ∀ n, parseFloatOf (Properties.get (literal "value") body) = some n → isFinite n = true
  | .found now ip eid params => SoundAdd now t ip eid params
  | .rename _ ip name => t.devices.get ip = none ∨ WellFormed name
  | .changeMetadata id data =>
    ∀ ip eid d ep, endpointById t id = .endpoint ip eid → t.devices.get ip = some d →
      d.endpoints.get eid = some ep →
      ∀ key ∈ [literal "minvalue", literal "maxvalue"], ∀ v, Properties.get key data = some v →
        v = .null ∨ key ∈ Properties.keys ep.fields ∧ v.isStorable = true
  | .epSet _ id value =>
    (∀ ip eid, endpointById t id ≠ .endpoint ip eid) ∨ ∀ v, value = some v → v.isStorable = true
  | .remove _ => True
  | .views _ => True

/-- The tree after events. -/
def run (t : Tree) (events : List Event) : Option Tree := events.foldlM step t

/-- Every event is sound in the tree that it meets. -/
def SoundFrom : Tree → List Event → Prop
  | _, [] => True
  | t, e :: events => Sound t e ∧ ∀ t', step t e = some t' → SoundFrom t' events

/-! ## One event -/

theorem Tree.Storable.setDevice {t : Tree} (ht : t.Storable) {ip : Text} {d : Device}
    (hd : d.Storable ip) : (t.setDevice ip d).Storable := by
  intro ip' d' h
  rw [Tree.setDevice, Object.get_put] at h
  split at h
  · next heq =>
    rw [← heq, ← Option.some.inj h]
    exact hd
  · exact ht ip' d' h

theorem Device.Storable.setEndpoint {ip : Text} {d : Device} (hd : d.Storable ip) {eid : Text}
    {ep : Endpoint} (heid : WellFormed eid) (hep : ep.Storable) :
    (d.setEndpoint eid ep).Storable ip := by
  refine ⟨hd.ip_eq, hd.ip, hd.name, hd.name_given, fun eid' ep' h => ?_⟩
  rw [Device.setEndpoint, Object.get_put] at h
  split at h
  · next heq =>
    rw [← heq, ← Option.some.inj h]
    exact ⟨heid, hep⟩
  · exact hd.endpoints eid' ep' h

theorem Device.Storable.of_new {now : ℤ} {ip : Text} {name : Option Value} {d : Device}
    (h : newDevice now ip name = .ok d) (hip : WellFormed ip)
    (hname : ∀ v, name = some v → v.isStorable = true) : d.Storable ip := by
  obtain ⟨hmissing, heq, hname', hempty⟩ := newDevice_ok h
  refine ⟨heq, hip, hname _ hname', fun hnull => ?_, fun eid ep hget => ?_⟩
  · rw [hname', hnull] at hmissing
    simp [isMissing] at hmissing
  · simp [hempty] at hget

theorem Endpoint.Storable.of_new {now : ℤ} {eid : Text} {params : List (Text × Value)}
    {ep : Endpoint} (h : newEndpoint now eid params = .ok ep) (heid : Rereads ep.eid)
    (hfields : membersStorable ep.fields = true) : ep.Storable := by
  unfold newEndpoint at h
  split at h
  · simp at h
  · cases hf : addFunctionKeys params with
    | error e => simp [hf, Except.map] at h
    | ok fields =>
      rw [hf] at h
      have hep := Except.ok.inj h
      subst hep
      exact ⟨heid, regular_of_addFunctionKeys hf, hfields, fun v hv => by simp at hv⟩

theorem Tree.Storable.addEndpoint {t : Tree} (ht : t.Storable) {now : ℤ} {ip eid : Text}
    {params : List (Text × Value)} (hs : SoundAdd now t ip eid params) :
    (DeviceTree.addEndpoint now t ip eid params).1.Storable := by
  rcases hs with hsame | ⟨hdevice, hendpoint⟩
  · rwa [hsame]
  · rcases addEndpoint_cases now t ip eid params with ⟨heq, -⟩ |
      ⟨d, heq, -, hget, -, -, hnew⟩ | ⟨d, ep, heq, -, hep, -, hor⟩
    · rwa [heq]
    · rw [heq]
      exact ht.setDevice (.of_new hnew (hdevice hget).1 (hdevice hget).2)
    · obtain ⟨heid, hreread, hfields⟩ := hendpoint ep hep
      rw [heq]
      refine ht.setDevice (.setEndpoint ?_ heid (.of_new hep hreread hfields))
      rcases hor with hown | ⟨hget, -, hnew⟩
      · exact ht ip d hown
      · exact .of_new hnew (hdevice hget).1 (hdevice hget).2

theorem isStorable_lastValueAt (ts : ℤ) {value : Option Value}
    (h : ∀ v, value = some v → v.isStorable = true) :
    (lastValueAt ts value).isStorable = true := by
  have hkeys : WellFormed (literal "unix_ts") ∧ WellFormed (literal "value") := by decide
  cases value with
  | none =>
    simp [lastValueAt, Value.isStorable, membersStorable, Properties.keys, hkeys.1]
  | some v =>
    have hne : literal "unix_ts" ≠ literal "value" := by decide
    simp [lastValueAt, Value.isStorable, membersStorable, Properties.keys, hkeys.1, hkeys.2, hne,
      h v rfl]

theorem Tree.Storable.setLastValue {t : Tree} (ht : t.Storable) (now : ℤ) (ip eid : Text)
    {value : Option Value} (h : ∀ v, value = some v → v.isStorable = true) :
    (DeviceTree.setLastValue now t ip eid value).Storable := by
  unfold DeviceTree.setLastValue
  cases hd : t.devices.get ip with
  | none => exact ht
  | some d =>
    cases hep : d.endpoints.get eid with
    | none => simpa only [hep] using ht
    | some ep =>
      simp only [hep]
      have hdevice := ht ip d hd
      obtain ⟨heid, hendpoint⟩ := hdevice.endpoints eid ep hep
      have hmoved : ({ d with lastUpdate := now } : Device).Storable ip :=
        ⟨hdevice.ip_eq, hdevice.ip, hdevice.name, hdevice.name_given, hdevice.endpoints⟩
      refine ht.setDevice (hmoved.setEndpoint heid ⟨hendpoint.eid, hendpoint.regular,
        hendpoint.fields, fun v hv => ?_⟩)
      rw [← Option.some.inj hv]
      exact isStorable_lastValueAt _ h

theorem isStorable_number {n : Number} (h : isFinite n = true) :
    (Value.number n).isStorable = true := by
  cases n with
  | finite q => rfl
  | infinite b => simp [isFinite] at h
  | nan => simp [isFinite] at h

/-- An endpoint may be added, and then its value is set. -/
theorem addSensor_cases (now : ℤ) (t : Tree) (ip eid : Text) (body : List (Text × Value)) :
    addSensor now t ip eid body = (addEndpoint now t ip eid (withBounds body)).1 ∨
      (addEndpoint now t ip eid (withBounds body)).2.isOk = true ∧
        ∃ n, parseFloatOf (Properties.get (literal "value") body) = some n ∧
          addSensor now t ip eid body =
            setLastValue now (addEndpoint now t ip eid (withBounds body)).1 ip eid
              (some (.number n)) := by
  unfold addSensor
  obtain ⟨t₁, result⟩ := addEndpoint now t ip eid (withBounds body)
  cases result with
  | error e => exact .inl rfl
  | ok ep =>
    cases hn : parseFloatOf (Properties.get (literal "value") body) with
    | none => exact .inl rfl
    | some n => exact .inr ⟨rfl, n, rfl, rfl⟩

theorem putSensor_cases (now : ℤ) (t : Tree) (ip eid : Text) (body : List (Text × Value)) :
    putSensor now t ip eid body = t ∨
      putSensor now t ip eid body = addSensor now t ip eid body := by
  unfold putSensor
  split
  · exact .inl rfl
  · split
    · exact .inr rfl
    · exact .inl rfl
    · split
      · exact .inr rfl
      · exact .inl rfl
      · exact .inl rfl

theorem Tree.Storable.putSensor {t : Tree} (ht : t.Storable) {now : ℤ} {ip eid : Text}
    {body : List (Text × Value)} (hs : Sound t (.putSensor now ip eid body)) :
    (DeviceTree.putSensor now t ip eid body).Storable := by
  rcases hs with hsame | ⟨hadd, hvalue⟩
  · rwa [hsame]
  · rcases putSensor_cases now t ip eid body with heq | heq
    · rwa [heq]
    rw [heq]
    rcases addSensor_cases now t ip eid body with heq | ⟨hok, n, hn, heq⟩
    · rw [heq]
      exact ht.addEndpoint hadd
    · rw [heq]
      refine (ht.addEndpoint hadd).setLastValue now ip eid fun v hv => ?_
      rw [← Option.some.inj hv]
      exact isStorable_number (hvalue hok n hn)

theorem setInherited_eq {t t' : Tree} {eid : Text} (h : setInherited t eid = some t') :
    t' = t := by
  unfold setInherited at h
  split at h
  · simp at h
  · exact (Option.some.inj h).symm

/-- Either the request changes nothing, or the value of an endpoint is set. -/
theorem postSensor_cases {now : ℤ} {t t' : Tree} {ip eid : Text} {body : List (Text × Value)}
    (h : postSensor now t ip eid body = some t') :
    t' = t ∨ ∃ n, parseFloatOf (Properties.get (literal "value") body) = some n ∧
      t' = setLastValue now t ip eid (some (.number n)) := by
  unfold postSensor at h
  split at h
  · exact .inl (Option.some.inj h).symm
  · split at h
    · exact .inl (Option.some.inj h).symm
    · exact .inl (Option.some.inj h).symm
    · split at h
      · exact .inl (Option.some.inj h).symm
      · split at h
        · exact .inl (Option.some.inj h).symm
        · exact .inl (Option.some.inj h).symm
        · next n _ hn =>
          split at h
          · exact .inr ⟨n, hn, (Option.some.inj h).symm⟩
          · exact .inl (setInherited_eq h)

theorem Tree.Storable.postSensor {t t' : Tree} (ht : t.Storable) {now : ℤ} {ip eid : Text}
    {body : List (Text × Value)} (hs : Sound t (.postSensor now ip eid body))
    (h : DeviceTree.postSensor now t ip eid body = some t') : t'.Storable := by
  rcases hs with hsame | hvalue
  · rw [hsame] at h
    rwa [← Option.some.inj h]
  · rcases postSensor_cases h with rfl | ⟨n, hn, rfl⟩
    · exact ht
    · refine ht.setLastValue now ip eid fun v hv => ?_
      rw [← Option.some.inj hv]
      exact isStorable_number (hvalue n hn)

theorem Tree.Storable.rename {t : Tree} (ht : t.Storable) {now : ℤ} {ip name : Text}
    (hs : Sound t (.rename now ip name)) : (DeviceTree.rename now t ip name).Storable := by
  unfold DeviceTree.rename
  cases hd : t.devices.get ip with
  | none => exact ht
  | some d =>
    have hname : WellFormed name := hs.resolve_left (by simp [hd])
    have hdevice := ht ip d hd
    refine ht.setDevice ⟨hdevice.ip_eq, hdevice.ip, ?_, ?_, hdevice.endpoints⟩
    · simpa [Value.isStorable] using hname
    · simp

theorem membersStorable_put {ms : List (Text × Value)} {key : Text} {v : Value}
    (h : membersStorable ms = true) (hkey : key ∈ Properties.keys ms)
    (hv : v.isStorable = true) : membersStorable (Properties.put key v ms) = true := by
  induction ms with
  | nil => simp [Properties.keys] at hkey
  | cons e ms ih =>
    obtain ⟨k', v'⟩ := e
    rw [membersStorable, Bool.and_eq_true, Bool.and_eq_true] at h
    rw [Properties.put]
    split
    · next heq =>
      rw [membersStorable, ← heq, h.1.1, hv, h.2]
      rfl
    · next hne =>
      rw [Properties.keys, List.map_cons, List.mem_cons] at hkey
      rw [membersStorable, h.1.1, h.1.2, ih h.2 (hkey.resolve_left (Ne.symm hne))]
      rfl

/-- A field that the endpoint has is changed to a value that can be stored. -/
theorem changeField_sound {data fields : List (Text × Value)} (key : Text)
    (hregular : Regular fields) (hstorable : membersStorable fields = true)
    (hfunction : key ≠ literal "function") (htype : key ≠ literal "type")
    (h : ∀ v, Properties.get key data = some v →
      v = .null ∨ key ∈ Properties.keys fields ∧ v.isStorable = true) :
    Regular (changeField data key fields) ∧
      membersStorable (changeField data key fields) = true ∧
      Properties.keys (changeField data key fields) = Properties.keys fields := by
  unfold changeField
  split
  · exact ⟨hregular, hstorable, rfl⟩
  · exact ⟨hregular, hstorable, rfl⟩
  · next v hnull hget =>
    have hv : v ≠ .null := by
      rintro rfl
      exact hnull rfl
    obtain ⟨hkey, hval⟩ := (h v hget).resolve_left hv
    refine ⟨hregular.put hkey hfunction htype hv, ?_, Properties.keys_put_of_mem hkey v⟩
    exact membersStorable_put hstorable hkey hval

theorem Tree.Storable.changeMetadata {t t' : Tree} (ht : t.Storable) {id : Text}
    {data : List (Text × Value)} (hs : Sound t (.changeMetadata id data))
    (h : DeviceTree.changeMetadata t id data = some t') : t'.Storable := by
  unfold DeviceTree.changeMetadata at h
  split at h
  · rwa [← Option.some.inj h]
  · rwa [← Option.some.inj h]
  · rwa [setInherited_eq h]
  · next ip eid hfound =>
    cases hd : t.devices.get ip with
    | none =>
      rw [hd] at h
      rwa [← Option.some.inj h]
    | some d =>
      cases hep : d.endpoints.get eid with
      | none =>
        simp only [hd, hep] at h
        rwa [← Option.some.inj h]
      | some ep =>
        simp only [hd, hep] at h
        rw [← Option.some.inj h]
        have hdevice := ht ip d hd
        obtain ⟨heid, hendpoint⟩ := hdevice.endpoints eid ep hep
        have hchange := hs ip eid d ep hfound hd hep
        obtain ⟨hr₁, hs₁, hk₁⟩ := changeField_sound (literal "minvalue")
          hendpoint.regular hendpoint.fields (by decide) (by decide)
          (hchange _ List.mem_cons_self)
        obtain ⟨hr₂, hs₂, -⟩ := changeField_sound (literal "maxvalue") hr₁ hs₁
          (by decide) (by decide) (by
            rw [hk₁]
            exact hchange _ (List.mem_cons_of_mem _ List.mem_cons_self))
        exact ht.setDevice (hdevice.setEndpoint heid
          ⟨hendpoint.eid, hr₂, hs₂, hendpoint.lastValue⟩)

theorem Tree.Storable.epSet {t t' : Tree} (ht : t.Storable) {now : ℤ} {id : Text}
    {value : Option Value} (hs : Sound t (.epSet now id value))
    (h : DeviceTree.epSet now t id value = some t') : t'.Storable := by
  unfold DeviceTree.epSet at h
  split at h
  · rwa [← Option.some.inj h]
  · rwa [← Option.some.inj h]
  · rwa [setInherited_eq h]
  · next ip eid hfound =>
    rw [← Option.some.inj h]
    exact ht.setLastValue now ip eid (hs.resolve_left fun hnone => hnone ip eid hfound)

theorem Tree.Storable.remove {t : Tree} (ht : t.Storable) (ip : Text) :
    (DeviceTree.remove t ip).1.Storable := by
  unfold DeviceTree.remove
  split
  · intro ip' d h
    rw [Object.get_erase] at h
    split at h
    · simp at h
    · exact ht ip' d h
  · exact ht
  · exact ht

/-- **A sound event keeps the tree storable.** -/
theorem Tree.Storable.step {t t' : Tree} (ht : t.Storable) {e : Event} (hs : Sound t e)
    (h : DeviceTree.step t e = some t') : t'.Storable := by
  cases e with
  | putSensor now ip eid body =>
    rw [← Option.some.inj h]
    exact ht.putSensor hs
  | postSensor now ip eid body => exact ht.postSensor hs h
  | found now ip eid params =>
    rw [← Option.some.inj h]
    exact ht.addEndpoint hs
  | rename now ip name =>
    rw [← Option.some.inj h]
    exact ht.rename hs
  | changeMetadata id data => exact ht.changeMetadata hs h
  | epSet now id value => exact ht.epSet hs h
  | remove ip =>
    rw [← Option.some.inj h]
    exact ht.remove ip
  | views views =>
    rw [← Option.some.inj h]
    exact ht

/-! ## Any events -/

theorem Tree.Storable.run {t t' : Tree} (ht : t.Storable) {events : List Event}
    (hs : SoundFrom t events) (h : DeviceTree.run t events = some t') : t'.Storable := by
  induction events generalizing t with
  | nil => rwa [← Option.some.inj h]
  | cons e events ih =>
    rw [DeviceTree.run, List.foldlM_cons] at h
    obtain ⟨t₁, hstep, hrest⟩ := Option.bind_eq_some_iff.mp h
    exact ih (ht.step hs.1 hstep) (hs.2 t₁ hstep) hrest

/-- **After sound events the tree is loaded as it is saved**: the same devices with their names and
times, and the same endpoints with their fields, values and times. -/
theorem load_after {events : List Event} {t : Tree} (hs : SoundFrom Tree.empty events)
    (h : run Tree.empty events = some t) :
    (load (save t)).map Tree.devices = .ok t.devices :=
  have hempty : Tree.empty.Storable := fun ip d hget => by simp [Tree.empty] at hget
  (hempty.run hs h).load

/-! ## Trees that are not loaded as they were saved -/

/-- A sensor that is added with a number, and renamed. -/
def thermometer : List Event :=
  [.putSensor 1400000000000 (literal "fd00::1") (literal "3")
      [(literal "name", .string (literal "room")), (literal "type", .number (.finite 4)),
        (literal "description", .string (literal "temperature")),
        (literal "function", .string (literal "sensor")),
        (literal "unit", .string (literal "degC")),
        (literal "value", .string (literal "21.5"))],
    .rename 1400000001000 (literal "fd00::1") (literal "kitchen")]

/-- An actor that is added without a value, with a type that is too large, or with an id of 22
digits. -/
def addedActor (type : Number) (eid : Text) : Event :=
  .putSensor 0 (literal "fd00::1") eid
    [(literal "name", .string (literal "lamp")), (literal "type", .number type),
      (literal "description", .string (literal "switch")),
      (literal "function", .string (literal "actor"))]

theorem newEndpoint_all {now : ℤ} {eid : Text} {params : List (Text × Value)}
    {p : Endpoint → Bool} (h : (newEndpoint now eid params).toOption.all p = true) {ep : Endpoint}
    (hep : newEndpoint now eid params = .ok ep) : p ep = true := by
  rw [hep] at h
  exact h

theorem soundFrom_thermometer : SoundFrom Tree.empty thermometer := by
  refine ⟨.inr ⟨.inr ⟨fun _ => ⟨by decide, ?_⟩, fun ep hep => ?_⟩, fun _ => ?_⟩, fun t' _ =>
    ⟨.inr (by decide), fun _ _ => trivial⟩⟩
  · exact (Option.all_eq_true _ _).mp (by decide +kernel)
  · have h := newEndpoint_all (p := fun ep => decide (WellFormed (literal "3")) &&
      decide (Rereads ep.eid) && membersStorable ep.fields) (by decide +kernel) hep
    rw [Bool.and_eq_true, Bool.and_eq_true, decide_eq_true_iff, decide_eq_true_iff] at h
    exact ⟨h.1.1, h.1.2, h.2⟩
  · exact (Option.all_eq_true _ _).mp (by decide +kernel)

/-- The sensor is loaded as it was saved. -/
theorem load_after_thermometer :
    (run Tree.empty thermometer).isSome = true ∧
      (run Tree.empty thermometer).map (fun t => (load (save t)).map Tree.devices) =
        (run Tree.empty thermometer).map fun t => .ok t.devices := by
  refine ⟨by decide +kernel, ?_⟩
  cases h : run Tree.empty thermometer with
  | none => rfl
  | some t => exact congrArg some (load_after soundFrom_thermometer h)

/-- The text of the value that was set last. -/
def valueText (t : Tree) (ip eid : Text) : Option Text :=
  (t.devices.get ip).bind fun d => (d.endpoints.get eid).bind fun ep => ep.lastValue.bind fun v =>
    match v with
    | .object members => (Properties.get (literal "value") members).bind Value.text
    | _ => none

/-- What is seen of an event: in the tree after it, and in the tree that is loaded then. -/
def savedAndLoaded {α : Type} (e : Event) (f : Tree → α) : Option (α × Option α) :=
  (step Tree.empty e).map fun t => (f t, (load (save t)).toOption.map f)

/-- A request without a value stores no number, which is loaded as null; a number of 22 digits is
loaded as its first one; and a tree with an infinite type is not loaded. -/
theorem not_loaded :
    savedAndLoaded (addedActor (.finite 1) (literal "1"))
        (fun t => valueText t (literal "fd00::1") (literal "1")) =
      some (some (literal "NaN"), some (some (literal "null"))) ∧
    savedAndLoaded (addedActor (.finite 1) (literal "1000000000000000000000"))
        (fun t => idsOf t (literal "fd00::1")) =
      some ([literal "fd00::1.1e+21"], some [literal "fd00::1.1"]) ∧
    savedAndLoaded (addedActor (.infinite false) (literal "1"))
        (fun t => idsOf t (literal "fd00::1")) =
      some ([literal "fd00::1.1"], none) := by
  decide +kernel

end Hexabus.Web.DeviceTree
