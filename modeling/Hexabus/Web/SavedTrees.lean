import Hexabus.Web.Persistence

/-!
# Trees that are loaded as they were saved

What the constructors check and what JSON can hold decide which trees survive a save: the fields
of an endpoint are those that its function has, every number is finite, and the number of an
endpoint is read again from its own text.
-/

namespace Hexabus.Web.DeviceTree

open Lib

/-! ## The fields of an endpoint -/

/-- The keys of all fields that an endpoint can have. -/
def allKeys : List Text :=
  endpointKeys ++ [literal "minvalue", literal "maxvalue", literal "unit"]

/-- The fields are those that the function of the endpoint has; the constructor accepts them. -/
structure Regular (fields : List (Text × Value)) : Prop where
  keys_eq : ∃ keys, keysFor fields = .ok keys ∧ Properties.keys fields = endpointKeys ++ keys
  not_null : ∀ k v, (k, v) ∈ fields → v ≠ .null
  type_number : isNumber (Properties.get (literal "type") fields) = true

theorem functionKeys_cases {function : Text} {keys : List Text}
    (h : functionKeys function = some keys) :
    keys = [literal "minvalue", literal "maxvalue", literal "unit"] ∨ keys = [] := by
  unfold functionKeys at h
  split at h
  · exact .inl (Option.some.inj h).symm
  · split at h
    · exact .inr (Option.some.inj h).symm
    · split at h
      · exact .inr (Option.some.inj h).symm
      · simp at h

theorem keysFor_cases {params : List (Text × Value)} {keys : List Text}
    (h : keysFor params = .ok keys) :
    keys = [literal "minvalue", literal "maxvalue", literal "unit"] ∨ keys = [] := by
  unfold keysFor at h
  split at h
  · next found =>
    obtain ⟨function, -, hfunction⟩ := Option.bind_eq_some_iff.mp found
    obtain ⟨text, -, hkeys⟩ := Option.bind_eq_some_iff.mp hfunction
    rw [← Except.ok.inj h]
    exact functionKeys_cases hkeys
  · simp at h

theorem nodup_of_keysFor {params : List (Text × Value)} {keys : List Text}
    (h : keysFor params = .ok keys) :
    (endpointKeys ++ keys).Nodup ∧ ∀ k ∈ endpointKeys ++ keys, k ∈ allKeys := by
  rcases keysFor_cases h with rfl | rfl
  · exact ⟨by decide, by decide⟩
  · exact ⟨by decide, by decide⟩

theorem keysFor_congr {params params' : List (Text × Value)}
    (h : Properties.get (literal "function") params =
      Properties.get (literal "function") params') : keysFor params = keysFor params' := by
  rw [keysFor, keysFor, h]

theorem addKey_congr {params params' : List (Text × Value)} {key : Text}
    (h : Properties.get key params = Properties.get key params') :
    addKey params key = addKey params' key := by
  rw [addKey, addKey, h]

theorem addKeys_congr {params params' : List (Text × Value)} {keys : List Text}
    (h : ∀ k ∈ keys, Properties.get k params = Properties.get k params') :
    addKeys params keys = addKeys params' keys := by
  induction keys with
  | nil => rfl
  | cons key keys ih =>
    rw [addKeys, addKeys, addKey_congr (h key List.mem_cons_self),
      ih fun k hk => h k (List.mem_cons_of_mem _ hk)]

theorem addFunctionKeys_congr {params params' : List (Text × Value)}
    (h : ∀ k ∈ allKeys, Properties.get k params = Properties.get k params') :
    addFunctionKeys params = addFunctionKeys params' := by
  have hends : addKeys params endpointKeys = addKeys params' endpointKeys :=
    addKeys_congr fun k hk => h k (List.mem_append_left _ hk)
  have hkeys : keysFor params = keysFor params' := keysFor_congr (h _ (by decide))
  rw [addFunctionKeys, addFunctionKeys, hends, hkeys]
  cases addKeys params' endpointKeys with
  | error e => rfl
  | ok fields =>
    cases hk : keysFor params' with
    | error e => rfl
    | ok keys =>
      have hmore : addKeys params keys = addKeys params' keys := addKeys_congr fun k hmem =>
        h k ((nodup_of_keysFor hk).2 k (List.mem_append_right _ hmem))
      simp only [Except.bind, hmore]

theorem addKey_ok {params : List (Text × Value)} {key k : Text} {v : Value}
    (h : addKey params key = .ok (k, v)) :
    k = key ∧ Properties.get key params = some v ∧ v ≠ .null ∧
      (key = literal "type" → isNumber (Properties.get key params) = true) := by
  unfold addKey at h
  split at h
  · simp at h
  · next hnumber =>
    split at h
    · simp at h
    · simp at h
    · next w hnull hget =>
      obtain ⟨rfl, rfl⟩ := Prod.mk.inj (Except.ok.inj h)
      refine ⟨rfl, hget, fun hw => ?_, fun htype => ?_⟩
      · subst hw
        exact hnull rfl
      · by_contra hcon
        exact hnumber ⟨htype, by simpa using hcon⟩

theorem addKey_of_get {params : List (Text × Value)} {key : Text} {v : Value}
    (hget : Properties.get key params = some v) (hnull : v ≠ .null)
    (htype : key = literal "type" → isNumber (some v) = true) :
    addKey params key = .ok (key, v) := by
  unfold addKey
  rw [if_neg, hget]
  · cases v <;> first | rfl | exact absurd rfl hnull
  · rintro ⟨hkey, hnumber⟩
    rw [hget, htype hkey] at hnumber
    simp at hnumber

theorem addKeys_ok {params fields : List (Text × Value)} {keys : List Text}
    (h : addKeys params keys = .ok fields) :
    Properties.keys fields = keys ∧ ∀ k v, (k, v) ∈ fields →
      Properties.get k params = some v ∧ v ≠ .null ∧
        (k = literal "type" → isNumber (some v) = true) := by
  induction keys generalizing fields with
  | nil =>
    rw [← Except.ok.inj h]
    exact ⟨rfl, by simp⟩
  | cons key keys ih =>
    rw [addKeys] at h
    cases hkey : addKey params key with
    | error e => simp [hkey, Except.bind] at h
    | ok field =>
      obtain ⟨k, v⟩ := field
      cases hkeys : addKeys params keys with
      | error e => simp [hkey, hkeys, Except.bind, Except.map] at h
      | ok more =>
        simp only [hkey, hkeys, Except.bind, Except.map, Except.ok.injEq] at h
        subst h
        obtain ⟨hmap, hmem⟩ := ih hkeys
        obtain ⟨rfl, hget, hnull, htype⟩ := addKey_ok hkey
        refine ⟨by rw [Properties.keys, List.map_cons, ← Properties.keys, hmap], ?_⟩
        intro k' v' h'
        rcases List.mem_cons.mp h' with heq | h'
        · obtain ⟨rfl, rfl⟩ := Prod.mk.inj heq
          exact ⟨hget, hnull, fun ht => hget ▸ htype ht⟩
        · exact hmem k' v' h'

theorem addKeys_of_mem {params fields : List (Text × Value)}
    (h : ∀ k v, (k, v) ∈ fields → Properties.get k params = some v ∧ v ≠ .null ∧
      (k = literal "type" → isNumber (some v) = true)) :
    addKeys params (Properties.keys fields) = .ok fields := by
  induction fields with
  | nil => rfl
  | cons field fields ih =>
    obtain ⟨k, v⟩ := field
    obtain ⟨hget, hnull, htype⟩ := h k v List.mem_cons_self
    have hrest := ih fun k v hm => h k v (List.mem_cons_of_mem _ hm)
    have hkeys : Properties.keys ((k, v) :: fields) = k :: Properties.keys fields := rfl
    rw [hkeys, addKeys, addKey_of_get hget hnull htype, hrest]
    rfl

/-- What the constructor takes from its parameters is regular. -/
theorem regular_of_addFunctionKeys {params fields : List (Text × Value)}
    (h : addFunctionKeys params = .ok fields) : Regular fields := by
  rw [addFunctionKeys] at h
  cases hends : addKeys params endpointKeys with
  | error e => simp [hends, Except.bind] at h
  | ok ends =>
    cases hkeys : keysFor params with
    | error e => simp [hends, hkeys, Except.bind] at h
    | ok keys =>
      cases hmore : addKeys params keys with
      | error e => simp [hends, hkeys, hmore, Except.bind, Except.map] at h
      | ok more =>
        simp only [hends, hkeys, hmore, Except.bind, Except.map, Except.ok.injEq] at h
        subst h
        obtain ⟨hk₁, hm₁⟩ := addKeys_ok hends
        obtain ⟨hk₂, hm₂⟩ := addKeys_ok hmore
        have hkeysEq : Properties.keys (ends ++ more) = endpointKeys ++ keys := by
          rw [← hk₁, ← hk₂]
          exact List.map_append
        have hmem : ∀ k v, (k, v) ∈ ends ++ more → Properties.get k params = some v ∧ v ≠ .null ∧
            (k = literal "type" → isNumber (some v) = true) := by
          intro k v hv
          rcases List.mem_append.mp hv with hv | hv
          · exact hm₁ k v hv
          · exact hm₂ k v hv
        have hnodup : (Properties.keys (ends ++ more)).Nodup := by
          rw [hkeysEq]
          exact (nodup_of_keysFor hkeys).1
        have hget : ∀ k ∈ endpointKeys ++ keys,
            ∃ v, (k, v) ∈ ends ++ more ∧ Properties.get k (ends ++ more) = some v := by
          intro k hk
          rw [← hkeysEq] at hk
          obtain ⟨e, he, rfl⟩ := List.mem_map.mp hk
          exact ⟨e.2, he, Properties.get_of_mem hnodup he⟩
        refine ⟨⟨keys, ?_, hkeysEq⟩, fun k v hv => (hmem k v hv).2.1, ?_⟩
        · obtain ⟨v, hv, hgetv⟩ :=
            hget (literal "function") (List.mem_append_left _ (by decide))
          rw [← hkeys]
          exact keysFor_congr (hgetv.trans (hmem _ v hv).1.symm)
        · obtain ⟨v, hv, hgetv⟩ := hget (literal "type") (List.mem_append_left _ (by decide))
          rw [hgetv]
          exact (hmem _ v hv).2.2 rfl

theorem Regular.nodup {fields : List (Text × Value)} (h : Regular fields) :
    (Properties.keys fields).Nodup ∧ ∀ k ∈ Properties.keys fields, k ∈ allKeys := by
  obtain ⟨keys, hkeys, heq⟩ := h.keys_eq
  rw [heq]
  exact nodup_of_keysFor hkeys

/-- From regular fields the constructor takes all. -/
theorem Regular.addFunctionKeys_eq {fields : List (Text × Value)} (h : Regular fields) :
    addFunctionKeys fields = .ok fields := by
  obtain ⟨keys, hkeys, heq⟩ := h.keys_eq
  have hmem : ∀ k v, (k, v) ∈ fields → Properties.get k fields = some v ∧ v ≠ .null ∧
      (k = literal "type" → isNumber (some v) = true) := by
    intro k v hv
    have hget := Properties.get_of_mem h.nodup.1 hv
    refine ⟨hget, h.not_null k v hv, ?_⟩
    rintro rfl
    rw [← hget]
    exact h.type_number
  have hall := addKeys_of_mem hmem
  obtain ⟨ends, more, hsplit, hends, hmore⟩ : ∃ ends more, fields = ends ++ more ∧
      Properties.keys ends = endpointKeys ∧ Properties.keys more = keys := by
    obtain ⟨ends, more, hsplit, hends, hmore⟩ := List.map_eq_append_iff.mp heq
    exact ⟨ends, more, hsplit, hends, hmore⟩
  have h₁ : addKeys fields endpointKeys = .ok ends := by
    rw [← hends]
    exact addKeys_of_mem fun k v hv => hmem k v (hsplit ▸ List.mem_append_left _ hv)
  have h₂ : addKeys fields keys = .ok more := by
    rw [← hmore]
    exact addKeys_of_mem fun k v hv => hmem k v (hsplit ▸ List.mem_append_right _ hv)
  simp only [addFunctionKeys, h₁, hkeys, h₂, Except.bind, Except.map, ← hsplit]

/-- A field that the endpoint has can be given another value, but for its type and its
function. -/
theorem Regular.put {fields : List (Text × Value)} (h : Regular fields) {key : Text} {v : Value}
    (hkey : key ∈ Properties.keys fields) (hfunction : key ≠ literal "function")
    (htype : key ≠ literal "type") (hv : v ≠ .null) : Regular (Properties.put key v fields) := by
  obtain ⟨keys, hkeys, heq⟩ := h.keys_eq
  refine ⟨⟨keys, ?_, ?_⟩, ?_, ?_⟩
  · rw [← hkeys]
    exact keysFor_congr (Properties.get_put_of_ne hfunction v fields)
  · rw [Properties.keys_put_of_mem hkey, heq]
  · intro k w hw
    have hget := Properties.get_of_mem (Properties.nodup_put h.nodup.1 key v) hw
    by_cases hk : key = k
    · subst hk
      rw [Properties.get_put_self] at hget
      rwa [← Option.some.inj hget]
    · rw [Properties.get_put_of_ne hk] at hget
      exact h.not_null k w (Properties.mem_of_get hget)
  · rw [Properties.get_put_of_ne htype]
    exact h.type_number

/-! ## What a file can hold -/

/-- The number of an endpoint is read again from its own text. -/
def Rereads (n : Number) : Prop :=
  (Value.number n).isStorable = true ∧ parseInt (numberText n) = n

instance (n : Number) : Decidable (Rereads n) := inferInstanceAs (Decidable (_ ∧ _))

structure Endpoint.Storable (ep : Endpoint) : Prop where
  eid : Rereads ep.eid
  regular : Regular ep.fields
  fields : membersStorable ep.fields = true
  lastValue : ∀ v, ep.lastValue = some v → v.isStorable = true

structure Device.Storable (ip : Text) (d : Device) : Prop where
  ip_eq : d.ip = ip
  ip : WellFormed ip
  name : d.name.isStorable = true
  name_given : d.name ≠ .null
  endpoints : ∀ eid ep, d.endpoints.get eid = some ep → WellFormed eid ∧ ep.Storable

def Tree.Storable (t : Tree) : Prop := ∀ ip d, t.devices.get ip = some d → d.Storable ip

/-! ## Members that are read again -/

theorem membersStorable_get {ms : List (Text × Value)} (h : membersStorable ms = true)
    {k : Text} {v : Value} (hget : Properties.get k ms = some v) : v.isStorable = true := by
  induction ms with
  | nil => simp [Properties.get] at hget
  | cons e ms ih =>
    obtain ⟨k', v'⟩ := e
    rw [membersStorable, Bool.and_eq_true, Bool.and_eq_true] at h
    rw [Properties.get] at hget
    split at hget
    · rw [← Option.some.inj hget]
      exact h.1.2
    · exact ih h.2 hget

theorem get_membersThroughFile {ms : List (Text × Value)}
    (h : ∀ k ∈ Properties.keys ms, WellFormed k) (k : Text) :
    Properties.get k (membersThroughFile ms) = (Properties.get k ms).map Value.throughFile := by
  induction ms with
  | nil => rfl
  | cons e ms ih =>
    obtain ⟨k', v⟩ := e
    have hk : throughUtf8 k' = k' := h k' List.mem_cons_self
    rw [membersThroughFile, Properties.get, Properties.get, hk]
    split
    · rfl
    · exact ih fun k hm => h k (List.mem_cons_of_mem _ hm)

theorem keys_membersThroughFile {ms : List (Text × Value)}
    (h : ∀ k ∈ Properties.keys ms, WellFormed k) :
    Properties.keys (membersThroughFile ms) = Properties.keys ms := by
  induction ms with
  | nil => rfl
  | cons e ms ih =>
    obtain ⟨k', v⟩ := e
    have hk : throughUtf8 k' = k' := h k' List.mem_cons_self
    have hrest := ih fun k hm => h k (List.mem_cons_of_mem _ hm)
    simp only [Properties.keys] at hrest ⊢
    rw [membersThroughFile, List.map_cons, List.map_cons, hrest, hk]

/-- The members of an endpoint before its fields. -/
def Endpoint.front (d : Device) (ep : Endpoint) : List (Text × Value) :=
  (ep.lastValue.toList.map fun v => (literal "last_value", v)) ++
    [(literal "eid", .number ep.eid), (literal "id", .string (endpointId d.ip ep)),
      (literal "ip", .string d.ip), (literal "name", d.name)]

theorem get_append_of_notMem {k : Text} {front fields : List (Text × Value)}
    (h : k ∉ Properties.keys front) :
    Properties.get k (front ++ fields) = Properties.get k fields := by
  induction front with
  | nil => rfl
  | cons e front ih =>
    obtain ⟨k', v⟩ := e
    rw [Properties.keys, List.map_cons, List.mem_cons, not_or] at h
    rw [List.cons_append, Properties.get, if_neg (Ne.symm h.1), ih h.2]

/-- The keys of an endpoint in the file: no field has the key of another member. -/
theorem keys_front (d : Device) (ep : Endpoint) :
    (∀ k ∈ Properties.keys (ep.front d), WellFormed k ∧ k ∉ allKeys) ∧
      (Properties.keys (ep.front d)).Nodup := by
  cases h : ep.lastValue with
  | none =>
    have hkeys : Properties.keys (ep.front d) =
        [literal "eid", literal "id", literal "ip", literal "name"] := by
      simp [Endpoint.front, h, Properties.keys]
    rw [hkeys]
    exact ⟨by decide, by decide⟩
  | some v =>
    have hkeys : Properties.keys (ep.front d) =
        [literal "last_value", literal "eid", literal "id", literal "ip", literal "name"] := by
      simp [Endpoint.front, h, Properties.keys]
    rw [hkeys]
    exact ⟨by decide, by decide⟩

theorem keys_toJSON (d : Device) {ep : Endpoint} (h : Regular ep.fields) :
    (∀ k ∈ Properties.keys (ep.toJSON d).members, WellFormed k) ∧
      (Properties.keys (ep.toJSON d).members).Nodup := by
  obtain ⟨hfront, hnodup⟩ := keys_front d ep
  have hkeys : Properties.keys (ep.toJSON d).members =
      Properties.keys (ep.front d) ++ Properties.keys ep.fields := List.map_append
  have hall : ∀ k ∈ allKeys, WellFormed k := by decide
  rw [hkeys]
  constructor
  · intro k hk
    rcases List.mem_append.mp hk with hk | hk
    · exact (hfront k hk).1
    · exact hall k (h.nodup.2 k hk)
  · refine List.nodup_append.mpr ⟨hnodup, h.nodup.1, ?_⟩
    rintro k hk k' hk' rfl
    exact (hfront k hk).2 (h.nodup.2 k hk')

theorem members_throughFile (d : Device) {ep : Endpoint} (h : Regular ep.fields) (k : Text) :
    Properties.get k ((ep.toJSON d).throughFile).members =
      (Properties.get k (ep.toJSON d).members).map Value.throughFile := by
  obtain ⟨hformed, hnodup⟩ := keys_toJSON d h
  rw [SavedEndpoint.throughFile, Properties.putAll_nil]
  · exact get_membersThroughFile hformed k
  · rw [keys_membersThroughFile hformed]
    exact hnodup

/-- **A storable endpoint is loaded as it was saved.** -/
theorem Endpoint.Storable.load {ep : Endpoint} (h : ep.Storable) (d : Device) :
    loadEndpoint ((ep.toJSON d).throughFile) = .ok ep := by
  have hmembers := members_throughFile d h.regular
  have heid : Properties.get (literal "eid") ((ep.toJSON d).throughFile).members =
      some (.number ep.eid) := by
    have hget : Properties.get (literal "eid") (ep.toJSON d).members = some (.number ep.eid) := by
      cases hl : ep.lastValue <;> simp [Endpoint.toJSON, hl, Properties.get]
      intro hcon
      exact absurd hcon (by decide)
    rw [hmembers, hget, Option.map_some, Value.throughFile_of_isStorable _ h.eid.1]
  have hlast : Properties.get (literal "last_value") ((ep.toJSON d).throughFile).members =
      ep.lastValue := by
    rw [hmembers]
    cases hl : ep.lastValue with
    | some v =>
      have hget : Properties.get (literal "last_value") (ep.toJSON d).members = some v := by
        simp [Endpoint.toJSON, hl, Properties.get]
      rw [hget, Option.map_some, v.throughFile_of_isStorable (h.lastValue v hl)]
    | none =>
      have hnot : literal "last_value" ∉ Properties.keys (ep.toJSON d).members := by
        have hkeys : Properties.keys (ep.toJSON d).members =
            [literal "eid", literal "id", literal "ip", literal "name"] ++
              Properties.keys ep.fields := by
          simp [Endpoint.toJSON, hl, Properties.keys]
        rw [hkeys, List.mem_append, not_or]
        refine ⟨by decide, fun hmem => ?_⟩
        exact absurd (h.regular.nodup.2 _ hmem) (by decide)
      rw [Properties.get_eq_none hnot]
      rfl
  have hfields : addFunctionKeys ((ep.toJSON d).throughFile).members = .ok ep.fields := by
    rw [← h.regular.addFunctionKeys_eq]
    refine addFunctionKeys_congr fun k hk => ?_
    have hsplit : (ep.toJSON d).members = ep.front d ++ ep.fields := rfl
    rw [hmembers, hsplit, get_append_of_notMem fun hm => ((keys_front d ep).1 k hm).2 hk]
    cases hget : Properties.get k ep.fields with
    | none => rfl
    | some v =>
      rw [Option.map_some, v.throughFile_of_isStorable (membersStorable_get h.fields hget)]
  have hreread : parseInt (numberText ep.eid) = ep.eid := h.eid.2
  have hnan : ep.eid ≠ .nan := by
    intro hcon
    have := h.eid.1
    rw [hcon] at this
    simp [Value.isStorable] at this
  rw [loadEndpoint, heid]
  simp only [Value.text, Option.map_some, hreread, hfields, hlast, Except.map]
  rfl

/-! ## Trees that are read again -/

theorem loadAll_map {α β : Type} (load : α → Except Thrown β) (write : β → α)
    {l : List (Text × β)} (h : ∀ k b, (k, b) ∈ l → load (write b) = .ok b) :
    loadAll load (l.map fun e => (e.1, write e.2)) = .ok l := by
  induction l with
  | nil => rfl
  | cons e l ih =>
    obtain ⟨k, b⟩ := e
    have hrest := ih fun k b hm => h k b (List.mem_cons_of_mem _ hm)
    rw [List.map_cons, loadAll, h k b List.mem_cons_self, hrest]
    rfl

/-- Properties with keys that are well formed are written under these keys. -/
theorem written_keys {α β : Type} {o : Object Text β} (write : β → α)
    (h : ∀ k b, o.get k = some b → WellFormed k) :
    Properties.putAll [] (o.entries.map fun e => (throughUtf8 e.1, write e.2)) =
      o.entries.map fun e => (e.1, write e.2) := by
  have hmap : (o.entries.map fun e => (throughUtf8 e.1, write e.2)) =
      o.entries.map fun e => (e.1, write e.2) := by
    apply List.map_congr_left
    rintro ⟨k, b⟩ he
    have hk : throughUtf8 k = k := h k b (Object.mem_entries.mp he)
    rw [hk]
  rw [hmap]
  apply Properties.putAll_nil
  have hkeys : Properties.keys (o.entries.map fun e => (e.1, write e.2)) =
      Properties.keys o.entries := by
    rw [Properties.keys, List.map_map]
    rfl
  rw [hkeys]
  exact o.nodup

/-- **A storable device is loaded as it was saved.** -/
theorem Device.Storable.load {ip : Text} {d : Device} (h : d.Storable ip) :
    loadDevice d.toJSON.throughFile = .ok d := by
  have hip : throughUtf8 d.ip = d.ip := by
    rw [h.ip_eq]
    exact h.ip
  have hendpoints : Properties.putAll [] (d.toJSON.endpoints.map fun e =>
      (throughUtf8 e.1, e.2.throughFile)) =
      d.endpoints.entries.map fun e => (e.1, (e.2.toJSON d).throughFile) := by
    rw [Device.toJSON, List.map_map]
    exact written_keys (fun ep : Endpoint => (ep.toJSON d).throughFile)
      fun eid ep hget => (h.endpoints eid ep hget).1
  have hload := loadAll_map loadEndpoint (fun ep : Endpoint => (ep.toJSON d).throughFile)
    (l := d.endpoints.entries)
    fun eid ep hm => (h.endpoints eid ep (Object.mem_entries.mp hm)).2.load d
  have hfile : d.toJSON.throughFile = ⟨d.ip, d.name, d.lastUpdate,
      d.endpoints.entries.map fun e => (e.1, (e.2.toJSON d).throughFile)⟩ := by
    rw [SavedDevice.throughFile, hendpoints]
    simp only [Device.toJSON, hip, d.name.throughFile_of_isStorable h.name]
  rw [hfile, loadDevice, hload]
  have hname := h.name_given
  simp only [Except.bind, Object.ofEntries_entries]

/-- **A storable tree is loaded as it was saved.** -/
theorem Tree.Storable.load {t : Tree} (h : t.Storable) :
    (DeviceTree.load (save t)).map Tree.devices = .ok t.devices := by
  have hdevices : (save t).devices =
      t.devices.entries.map fun e => (e.1, e.2.toJSON.throughFile) :=
    written_keys (fun d : Device => d.toJSON.throughFile)
      fun ip d hget => (h ip d hget).ip
  have hload := loadAll_map loadDevice (fun d : Device => d.toJSON.throughFile)
    (l := t.devices.entries)
    fun ip d hm => (h ip d (Object.mem_entries.mp hm)).load
  rw [DeviceTree.load, hdevices, hload]
  simp only [Except.map, Object.ofEntries_entries]

end Hexabus.Web.DeviceTree
