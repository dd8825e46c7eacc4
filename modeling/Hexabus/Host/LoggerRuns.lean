import Hexabus.Host.Logger
import Hexabus.Lib.Runs

/-!
# Runs of the logger

Every reading is accounted for, and every backlog has its query, exactly as long as each query is
taken and no two readings of a backlog have the same time stamp.
-/

namespace Hexabus.Host.Hexalog

open scoped List
open Lib.Json Lib.Runs Hexinfo Logger

variable {env : Environment} {s s' : Logger} {id : List UInt8} {r : Reading} {sensor : Sensor}

/-- An id ends with its endpoint. -/
theorem eid_of_getSensorId {a b : Address} {eid eid' : UInt32}
    (h : getSensorId env a eid = getSensorId env b eid') : eid = eid' :=
  UInt32.toNat_inj.mp (decimal_append_inj (by decide) h)

theorem insertReading_perm {readings : Readings} (h : r.1 ∉ readings.map Prod.fst) :
    insertReading r readings ~ r :: readings := by
  unfold insertReading
  rw [if_neg h]
  exact List.perm_orderedInsert _ r readings

namespace Logger

theorem backlog_of_some {entry : UInt32 × Readings} (h : s.newSensorBacklog id = some entry) :
    s.backlog id = entry := by
  unfold backlog
  rw [h, Option.getD_some]

theorem backlog_of_none (h : s.newSensorBacklog id = none) : s.backlog id = (0, []) := by
  unfold backlog
  rw [h, Option.getD_none]

/-! ## Accounting -/

/-- What came has gone somewhere, and what was somewhere before is not lost. -/
theorem Accounted.next (h : s.Accounted id) {came : List Reading} (dropped : List Reading)
    (haccepted : s'.acceptedOf id = s.acceptedOf id ++ came)
    (hreported : s'.reportedOf id = s.reportedOf id + dropped.length)
    (hperm : s.recordedOf id ++ (s.backlog id).2 ++ came ~
      s'.recordedOf id ++ (s'.backlog id).2 ++ dropped) : s'.Accounted id := by
  obtain ⟨before, hlength, hbefore⟩ := h
  refine ⟨dropped ++ before, ?_, ?_⟩
  · rw [List.length_append, hlength, hreported, Nat.add_comm]
  · rw [haccepted, ← List.append_assoc]
    calc s.acceptedOf id ++ came ~ s.recordedOf id ++ (s.backlog id).2 ++ before ++ came :=
          hbefore.append_right came
      _ ~ s.recordedOf id ++ (s.backlog id).2 ++ came ++ before := by
          rw [List.append_assoc, List.append_assoc _ came]
          exact List.perm_append_comm.append_left _
      _ ~ s'.recordedOf id ++ (s'.backlog id).2 ++ dropped ++ before := hperm.append_right before

theorem values_append {α β : Type} (key : α → List UInt8) (entries : List (α × β)) (a : α)
    (values : List β) (k : List UInt8) :
    ((entries ++ values.map (Prod.mk a)).filter fun e => key e.1 = k).map Prod.snd =
      (entries.filter fun e => key e.1 = k).map Prod.snd ++ if key a = k then values else [] := by
  rw [List.filter_append, List.map_append, List.filter_map, List.map_map]
  congr 1
  by_cases hk : key a = k
  · rw [if_pos hk, List.filter_eq_self.mpr]
    · exact List.map_id values
    · exact fun _ _ => decide_eq_true hk
  · rw [if_neg hk, List.filter_eq_nil_iff.mpr]
    · rfl
    · intro _ _ htrue
      exact hk (of_decide_eq_true htrue)

theorem acceptedOf_accept (id : List UInt8) (r : Reading) (s : Logger) (k : List UInt8) :
    (s.accept id r).acceptedOf k = s.acceptedOf k ++ if id = k then [r] else [] :=
  values_append (fun id => id) s.accepted id [r] k

theorem recordedOf_append {readings : Readings}
    (hs : s'.readings = s.readings ++ readings.map (Prod.mk sensor)) (k : List UInt8) :
    s'.recordedOf k = s.recordedOf k ++ if sensor.externalId = k then readings else [] := by
  unfold recordedOf
  rw [hs]
  exact values_append Sensor.externalId s.readings sensor readings k

theorem backlog_update (entry : Option (UInt32 × Readings)) {k : List UInt8}
    (hs : s'.newSensorBacklog = Function.update s.newSensorBacklog id entry) :
    s'.backlog k = if k = id then entry.getD (0, []) else s.backlog k := by
  unfold backlog
  rw [hs, Function.update_apply]
  split <;> rfl

/-! ## The invariant -/

/-- A backlog belongs to a sensor that is not found, with its endpoint; a sensor that has told its
name has the unit of its endpoint. -/
structure Inv (env : Environment) (s : Logger) : Prop where
  entries : ∀ id entry, s.newSensorBacklog id = some entry →
    (∃ source, id = getSensorId env source entry.1) ∧ s.find id = none
  cached : ∀ id sensor, s.sensorCache id = some sensor → sensor.externalId = id ∧
    (∀ source eid, id = getSensorId env source eid → sensor.unit = eidToUnit env eid) ∧
    ∀ r ∈ s.readings, r.1.externalId = id → r.1 = sensor
  found : ∀ r ∈ s.readings, s.find r.1.externalId ≠ none
  accounted : ∀ id, s.Accounted id

theorem find_eq_none : s.find id = none ↔ s.sensorCache id = none ∧ s.lookupSensor id = none :=
  Option.or_eq_none_iff

theorem find_of_cached (h : s.sensorCache id = some sensor) : s.find id = some sensor := by
  unfold find
  rw [h, Option.some_or]

theorem Inv.externalId (h : Inv env s) (hfind : s.find id = some sensor) :
    sensor.externalId = id := by
  cases hcache : s.sensorCache id with
  | some cached =>
    rw [find_of_cached hcache] at hfind
    cases hfind
    exact (h.cached id sensor hcache).1
  | none =>
    unfold find at hfind
    rw [hcache, Option.none_or] at hfind
    unfold lookupSensor at hfind
    simpa using List.find?_some hfind

/-- **A reading of a sensor that is found** is recorded. -/
theorem Inv.record (h : Inv env s) (hfind : s.find id = some sensor) (r : Reading) :
    Inv env ((s.accept id r).recordReading sensor r) := by
  have hid := h.externalId hfind
  refine ⟨h.entries, fun k cached hk => ?_, fun a ha => ?_, fun k => ?_⟩
  · obtain ⟨hcached, hunit, hreadings⟩ := h.cached k cached hk
    refine ⟨hcached, hunit, fun a ha hak => ?_⟩
    obtain ha | ha := List.mem_append.mp ha
    · exact hreadings a ha hak
    · rw [List.mem_singleton.mp ha] at hak ⊢
      have hsame : s.find k = some cached := find_of_cached hk
      rw [← hak, hid, hfind] at hsame
      exact Option.some.inj hsame
  · show s.find a.1.externalId ≠ none
    obtain ha | ha := List.mem_append.mp ha
    · exact h.found a ha
    · rw [List.mem_singleton.mp ha]
      show s.find sensor.externalId ≠ none
      rw [hid, hfind]
      exact Option.some_ne_none sensor
  · have haccepted := acceptedOf_accept id r s k
    have hrecorded : ((s.accept id r).recordReading sensor r).recordedOf k =
        s.recordedOf k ++ if sensor.externalId = k then [r] else [] := recordedOf_append rfl k
    rw [hid] at hrecorded
    refine (h.accounted k).next [] haccepted rfl ?_
    rw [hrecorded, List.append_nil, List.append_assoc, List.append_assoc]
    exact List.perm_append_comm.append_left _

/-- **A reading of a sensor that is not found** is put into its backlog. -/
theorem Inv.hold (h : Inv env s) (hfind : s.find id = none) {eid : UInt32} {readings : Readings}
    (hid : ∃ source, id = getSensorId env source eid)
    (hperm : readings ~ r :: (s.backlog id).2) :
    Inv env ((s.accept id r).setBacklog id (eid, readings)) := by
  refine ⟨fun k entry hk => ?_, h.cached, h.found, fun k => ?_⟩
  · change Function.update s.newSensorBacklog id (some (eid, readings)) k = some entry at hk
    rw [Function.update_apply] at hk
    split at hk
    next hkid =>
      cases hk
      exact ⟨hkid ▸ hid, hkid ▸ hfind⟩
    next => exact h.entries k entry hk
  · have hbacklog : ((s.accept id r).setBacklog id (eid, readings)).backlog k =
        if k = id then (eid, readings) else s.backlog k :=
      backlog_update (some (eid, readings)) (s := s) rfl
    refine (h.accounted k).next [] (acceptedOf_accept id r s k) rfl ?_
    rw [hbacklog, List.append_nil, List.append_assoc]
    by_cases hk : k = id
    · rw [if_pos hk, if_pos hk.symm, hk]
      exact ((List.perm_append_singleton r _).trans hperm.symm).append_left _
    · rw [if_neg hk, if_neg (Ne.symm hk), List.append_nil]
      exact .refl _

/-! ## The callbacks -/

theorem foldl_recordReading (sensor : Sensor) (readings : Readings) (s : Logger) :
    readings.foldl (recordReading sensor) s =
      { s with readings := s.readings ++ readings.map (Prod.mk sensor) } := by
  induction readings generalizing s with
  | nil => rw [List.foldl_nil, List.map_nil, List.append_nil]
  | cons r readings ih =>
    rw [List.foldl_cons, ih, List.map_cons]
    unfold recordReading
    rw [List.append_assoc, List.singleton_append]

/-- What `on_sensor_name_received` does where the sensor is not in the cache. -/
structure Named (id : List UInt8) (sensor : Sensor) (s s' : Logger) : Prop where
  backlog : s'.newSensorBacklog = Function.update s.newSensorBacklog id none
  cache : s'.sensorCache = Function.update s.sensorCache id (some sensor)
  sensors : s'.sensors = s.sensors ++ [sensor]
  readings : s'.readings = s.readings ++ (s.backlog id).2.map (Prod.mk sensor)
  cerr : s'.cerr = s.cerr
  accepted : s'.accepted = s.accepted

theorem named_onSensorNameReceived (env : Environment) (epInfo : Packet)
    (hcache : s.sensorCache id = none) : Named id (createSensor env id epInfo s) s
      (onSensorNameReceived env id epInfo s) := by
  unfold onSensorNameReceived
  dsimp only
  rw [foldl_recordReading]
  refine ⟨rfl, ?_, rfl, rfl, rfl, rfl⟩
  show Function.update s.sensorCache id (some ((s.sensorCache id).getD _)) = _
  rw [hcache, Option.getD_none]

/-- A sensor that has told its name is found; nothing changes for the others. -/
theorem Named.find (h : Named id sensor s s') (hid : sensor.externalId = id) (k : List UInt8) :
    s'.find k = if k = id then some sensor else s.find k := by
  by_cases hk : k = id
  · rw [if_pos hk]
    refine find_of_cached ?_
    rw [h.cache, hk, Function.update_self]
  · have hne : ¬ sensor.externalId = k := fun h => hk (h.symm.trans hid)
    unfold Logger.find lookupSensor
    rw [if_neg hk, h.cache, h.sensors, Function.update_of_ne hk, List.find?_append,
      List.find?_singleton]
    simp only [hne, decide_false, Bool.false_eq_true, if_false, Option.or_none]

/-- **The name of a sensor** comes: its backlog is recorded. -/
theorem Inv.named (h : Inv env s) (hbacklog : s.newSensorBacklog id ≠ none) (epInfo : Packet) :
    Inv env (onSensorNameReceived env id epInfo s) := by
  obtain ⟨entry, hentry⟩ := Option.ne_none_iff_exists'.mp hbacklog
  obtain ⟨⟨source, hsource⟩, hfind⟩ := h.entries id entry hentry
  have hheld : s.backlog id = entry := backlog_of_some hentry
  have hnone : ∀ a ∈ s.readings, a.1.externalId ≠ id := fun a ha heq =>
    h.found a ha (by rw [heq, hfind])
  have hnamed := named_onSensorNameReceived env epInfo (find_eq_none.mp hfind).1
  generalize onSensorNameReceived env id epInfo s = s' at hnamed ⊢
  generalize hsensor : createSensor env id epInfo s = sensor at hnamed
  have hid : sensor.externalId = id := by rw [← hsensor]; rfl
  have hunit : sensor.unit = eidToUnit env entry.1 := by rw [← hsensor, ← hheld]; rfl
  have hreadings : ∀ a ∈ s'.readings, a ∈ s.readings ∨ a.1 = sensor := by
    intro a ha
    rw [hnamed.readings, List.mem_append] at ha
    refine ha.imp_right fun ha => ?_
    obtain ⟨r, -, rfl⟩ := List.mem_map.mp ha
    rfl
  refine ⟨fun k entry' hk => ?_, fun k cached hk => ?_, fun a ha => ?_, fun k => ?_⟩
  · rw [hnamed.backlog, Function.update_apply] at hk
    split at hk
    next => cases hk
    next hkid =>
      rw [hnamed.find hid, if_neg hkid]
      exact h.entries k entry' hk
  · rw [hnamed.cache, Function.update_apply] at hk
    split at hk
    next hkid =>
      cases hk
      subst hkid
      refine ⟨hid, fun source' eid heid => ?_, fun a ha hak => ?_⟩
      · rw [hunit, eid_of_getSensorId (hsource.symm.trans heid)]
      · exact (hreadings a ha).resolve_left fun ha => hnone a ha hak
    next hkid =>
      obtain ⟨hcached, hunits, hbefore⟩ := h.cached k cached hk
      refine ⟨hcached, hunits, fun a ha hak => ?_⟩
      obtain ha | rfl := hreadings a ha
      · exact hbefore a ha hak
      · exact absurd (hak.symm.trans hid) hkid
  · rw [hnamed.find hid]
    split
    · exact Option.some_ne_none sensor
    next hne =>
      obtain ha | rfl := hreadings a ha
      · exact h.found a ha
      · exact absurd hid hne
  · have haccepted : s'.acceptedOf k = s.acceptedOf k := by unfold acceptedOf; rw [hnamed.accepted]
    have hreported : s'.reportedOf k = s.reportedOf k := by unfold reportedOf; rw [hnamed.cerr]
    refine (h.accounted k).next [] (haccepted.trans (List.append_nil _).symm) hreported ?_
    rw [recordedOf_append hnamed.readings, backlog_update none hnamed.backlog, hid]
    by_cases hk : k = id
    · rw [if_pos hk, if_pos hk.symm, hk]
      exact .of_eq (List.append_nil _).symm
    · rw [if_neg hk, if_neg (Ne.symm hk), List.append_nil (s.recordedOf k)]

/-- **An error** drops the backlog and says so. -/
theorem Inv.error (h : Inv env s) (id : List UInt8) : Inv env (onSensorError id s) := by
  refine ⟨fun k entry hk => ?_, h.cached, h.found, fun k => ?_⟩
  · change Function.update s.newSensorBacklog id none k = some entry at hk
    rw [Function.update_apply] at hk
    split at hk
    next => cases hk
    next => exact h.entries k entry hk
  · have hreported : (onSensorError id s).reportedOf k =
        s.reportedOf k + (if id = k then [(s.backlog id).2.length] else []).sum := by
      have hvalues := values_append (fun id => id) s.cerr id [(s.backlog id).2.length] k
      unfold reportedOf
      rw [← List.sum_append]
      exact congrArg List.sum hvalues
    refine (h.accounted k).next (if id = k then (s.backlog id).2 else [])
      (List.append_nil _).symm ?_ ?_
    · rw [hreported]
      split <;> rfl
    · have hbacklog : (onSensorError id s).backlog k = if k = id then (0, []) else s.backlog k :=
        backlog_update none (s := s) rfl
      show s.recordedOf k ++ (s.backlog k).2 ++ [] ~ s.recordedOf k ++ _ ++ _
      rw [hbacklog]
      by_cases hk : k = id
      · rw [if_pos hk, if_pos hk.symm, hk, List.append_nil, List.append_nil]
      · rw [if_neg hk, if_neg (Ne.symm hk)]

theorem Accounted.length (h : s.Accounted id) : (s.acceptedOf id).length =
    (s.recordedOf id).length + (s.backlog id).2.length + s.reportedOf id := by
  obtain ⟨dropped, hlength, hperm⟩ := h
  rw [hperm.length_eq, List.length_append, List.length_append, hlength]

end Logger

/-! ## Packets and queries -/

variable {p : Logging} {source : Address} {eid : UInt32} {value : Double} {arrival : Arrival}

/-- A reading has come. -/
abbrev noted (env : Environment) (source : Address) (eid : UInt32) (value : Double)
    (arrival : Arrival) (p : Logging) : Logging :=
  { p with user := p.user.accept (getSensorId env source eid) (arrival.timestamp, value) }

theorem acceptPacket_found (value : Double) (arrival : Arrival)
    (h : p.user.find (getSensorId env source eid) = some sensor) :
    acceptPacket env source value eid arrival p =
      { p with
        user := (p.user.accept (getSensorId env source eid) (arrival.timestamp, value)).recordReading
          sensor (arrival.timestamp, value) } := by
  have hfind : (noted env source eid value arrival p).user.find (getSensorId env source eid) =
    some sensor := h
  unfold acceptPacket
  dsimp only
  rw [hfind]

theorem acceptPacket_unknown (value : Double) (arrival : Arrival)
    (h : p.user.find (getSensorId env source eid) = none) :
    acceptPacket env source value eid arrival p =
      keep env source eid value arrival (noted env source eid value arrival p) := by
  have hfind : (noted env source eid value arrival p).user.find (getSensorId env source eid) =
    none := h
  unfold acceptPacket
  dsimp only
  rw [hfind]

theorem keep_held {entry : UInt32 × Readings}
    (h : p.user.newSensorBacklog (getSensorId env source eid) = some entry) :
    keep env source eid value arrival p =
      { p with
        user := p.user.setBacklog (getSensorId env source eid)
          (entry.1, insertReading (arrival.timestamp, value) entry.2) } := by
  unfold keep Logger.backlog
  simp only [h, Option.getD_some]

/-- The query is sent. -/
theorem keep_sent (h : p.user.newSensorBacklog (getSensorId env source eid) = none)
    (hsend : arrival.sendOk = true) : keep env source eid value arrival p =
      { p.ask (callbacks env) ⟨getSensorId env source eid, source⟩ (nameQuery source) arrival.now true
          arrival.spare with
        user := p.user.setBacklog (getSensorId env source eid)
          (eid, [(arrival.timestamp, value)]) } := by
  unfold keep Logger.backlog Logger.setBacklog
  simp only [h, hsend, Asking.ask, if_true, Option.getD_none, Function.update_self,
    Option.getD_some, Function.update_idem]
  rfl

/-- The query is refused: the backlog that was erased is there again. -/
theorem keep_refused (env : Environment) (value : Double)
    (h : p.user.newSensorBacklog (getSensorId env source eid) = none)
    (hsend : arrival.sendOk = false) : ∃ q : Logging,
      q = p.ask (callbacks env) ⟨getSensorId env source eid, source⟩ (nameQuery source) arrival.now
        false arrival.spare ∧
      (keep env source eid value arrival p).info = q.info ∧
      (keep env source eid value arrival p).bound = q.bound ∧
      (keep env source eid value arrival p).user.newSensorBacklog (getSensorId env source eid) ≠
        none := by
  refine ⟨_, rfl, ?_⟩
  unfold keep
  simp only [h, hsend]
  refine ⟨rfl, rfl, ?_⟩
  unfold Logger.setBacklog
  dsimp only
  rw [Function.update_self]
  exact Option.some_ne_none _

/-- The logger is in order, each backlog has the one query for its sensor, and a query asks the
device of the sensor for its name. -/
structure Linked (env : Environment) (p : Logging) : Prop where
  keyed : Asking.Keyed Bound.sensorId (fun id => p.user.newSensorBacklog id ≠ none) p
  requests : p.info.requests = p.bound.map fun b => nameQuery b.address
  sensors : ∀ b ∈ p.bound, ∃ eid, b.sensorId = getSensorId env b.address eid
  inv : Inv env p.user

theorem Linked.keeps (h : Linked env p) : Keeps env p where
  asked := by
    intro id hid
    obtain ⟨n, b, hn, rfl⟩ := (h.keyed.pending id).mp hid
    obtain ⟨eid, hb⟩ := h.sensors b (List.mem_of_getElem? hn.1)
    refine ⟨n, b.address, eid, hn, ?_, hb⟩
    rw [h.requests, List.getElem?_map, hn.1, Option.map_some]
  recorded := by
    intro source eid sensor hcache
    obtain ⟨-, hunit, hreadings⟩ := h.inv.cached _ sensor hcache
    refine ⟨?_, fun r hr hid => ?_⟩
    · have hnone : p.user.newSensorBacklog (getSensorId env source eid) = none := by
        by_contra hne
        obtain ⟨entry, hentry⟩ := Option.ne_none_iff_exists'.mp hne
        have hfind := (h.inv.entries _ entry hentry).2
        rw [find_of_cached hcache] at hfind
        cases hfind
      obtain ⟨dropped, hlength, hperm⟩ := h.inv.accounted (getSensorId env source eid)
      rw [backlog_of_none hnone, List.append_nil] at hperm
      exact ⟨dropped, hlength, hperm⟩
    · rw [hreadings r hr hid]
      exact hunit source eid rfl
  accounted := h.inv.accounted

theorem linked_init (env : Environment) (sensors : List Sensor) : Linked env (init sensors) where
  keyed := (Asking.keyed_init _).congr fun _ => iff_of_false (fun h => h rfl) id
  requests := rfl
  sensors := nofun
  inv := ⟨nofun, nofun, nofun, fun _ => ⟨[], rfl, .refl _⟩⟩

/-- **A reading for a backlog** that has none with its time stamp. -/
theorem Linked.held (h : Linked env p) (hfind : p.user.find (getSensorId env source eid) = none)
    {entry : UInt32 × Readings}
    (hbacklog : p.user.newSensorBacklog (getSensorId env source eid) = some entry)
    (htime : arrival.timestamp ∉ entry.2.map Prod.fst) :
    Linked env (keep env source eid value arrival (noted env source eid value arrival p)) := by
  rw [keep_held (by exact hbacklog)]
  refine ⟨(h.keyed.user _).congr fun k => ?_, h.requests, h.sensors, ?_⟩
  · refine (Asking.set_ne_none _ k).trans ⟨fun hor => hor.elim id ?_, .inl⟩
    rintro rfl
    rw [hbacklog]
    exact Option.some_ne_none entry
  · refine h.inv.hold hfind (h.inv.entries _ entry hbacklog).1 ?_
    rw [backlog_of_some hbacklog]
    exact insertReading_perm htime

/-- **The first reading of a sensor**, with a query that is sent. -/
theorem Linked.sent (h : Linked env p) (hidle : p.info.Idle)
    (hfind : p.user.find (getSensorId env source eid) = none)
    (hbacklog : p.user.newSensorBacklog (getSensorId env source eid) = none)
    (hsend : arrival.sendOk = true) :
    Linked env (keep env source eid value arrival (noted env source eid value arrival p)) := by
  rw [keep_sent (by exact hbacklog) hsend]
  have hkeyed := (h.keyed.user (p.user.accept (getSensorId env source eid)
    (arrival.timestamp, value))).ask_sent (callbacks env) hidle ⟨getSensorId env source eid, source⟩
      (fun hne => hne hbacklog) (nameQuery source) (show (1 : Int) ≤ 5 by decide) arrival.now
      arrival.spare
  refine ⟨(hkeyed.user _).congr fun k => Asking.set_ne_none _ k, ?_, fun b hb => ?_, ?_⟩
  · show (p.info.queueQuery _ _ _ _).requests = (p.bound ++ [_]).map _
    rw [DeviceInterrogator.requests_queueQuery, h.requests, List.map_append]
    rfl
  · obtain hb | hb := List.mem_append.mp hb
    · exact h.sensors b hb
    · rw [List.mem_singleton.mp hb]
      exact ⟨eid, rfl⟩
  · refine h.inv.hold hfind ⟨source, rfl⟩ ?_
    rw [backlog_of_none hbacklog]

/-- **A packet** that meets the condition keeps everything in order. -/
theorem Linked.packet (h : Linked env p) (hidle : p.info.Idle) {packet : Packet}
    (htaken : Taken env p (.packet source packet arrival)) :
    Linked env (onPacket env source packet arrival p) := by
  unfold onPacket
  cases hreading : reading packet with
  | none => exact h
  | some read =>
    obtain ⟨eid, value⟩ := read
    have htaken := htaken hidle eid value hreading
    show Linked env (acceptPacket env source value eid arrival p)
    cases hfind : p.user.find (getSensorId env source eid) with
    | some sensor =>
      rw [acceptPacket_found value arrival hfind]
      exact ⟨h.keyed.user _, h.requests, h.sensors, h.inv.record hfind _⟩
    | none =>
      have htaken := htaken hfind
      rw [acceptPacket_unknown value arrival hfind]
      cases hbacklog : p.user.newSensorBacklog (getSensorId env source eid) with
      | some entry =>
        rw [hbacklog] at htaken
        exact h.held hfind hbacklog htaken
      | none =>
        rw [hbacklog] at htaken
        exact h.sent hidle hfind hbacklog htaken

/-- **A step of the interrogator** keeps everything in order, whichever callback it calls. -/
theorem Linked.io (h : Linked env p) {a : DeviceInterrogator.Step Packet Address Address}
    (ha : a.passive = true) : Linked env (p.io (callbacks env) a) := by
  have hrequests : (p.io (callbacks env) a).info.requests =
      p.bound.map fun b => nameQuery b.address :=
    (DeviceInterrogator.requests_passive ha).trans h.requests
  cases h.keyed.io (callbacks env) ha with
  | quiet huser hkeyed =>
    refine ⟨hkeyed.congr fun k => ?_, hrequests, h.sensors, ?_⟩
    · rw [huser]
    · rw [huser]
      exact h.inv
  | response b packet hb huser hkeyed =>
    have hinv := h.inv.named hb packet
    obtain ⟨entry, hentry⟩ := Option.ne_none_iff_exists'.mp hb
    have hfind := (h.inv.entries _ entry hentry).2
    have hnamed := named_onSensorNameReceived env packet (find_eq_none.mp hfind).1
    refine ⟨hkeyed.congr fun k => ?_, hrequests, h.sensors, ?_⟩
    · rw [huser]
      show (onSensorNameReceived env b.sensorId packet p.user).newSensorBacklog k ≠ none ↔ _
      rw [hnamed.backlog]
      exact Asking.erased_ne_none k
    · rw [huser]
      exact hinv
  | failure b hb huser hkeyed =>
    refine ⟨hkeyed.congr fun k => ?_, hrequests, h.sensors, ?_⟩
    · rw [huser]
      exact Asking.erased_ne_none k
    · rw [huser]
      exact h.inv.error b.sensorId

theorem Linked.step (h : Linked env p) {a : Step} (ha : Taken env p a) :
    Linked env (step env a p) := by
  cases a with
  | packet source packet arrival =>
    show Linked env (if p.info.Idle then onPacket env source packet arrival p else p)
    split
    next hidle => exact h.packet hidle ha
    next => exact h
  | io a =>
    show Linked env (if a.passive then p.io (callbacks env) a else p)
    split
    next hpassive => exact h.io hpassive
    next => exact h

/-! ## Steps that do not meet the condition -/

/-- A query that is refused leaves a backlog that nobody asks for. -/
theorem Linked.refused (h : Linked env p)
    (hbacklog : p.user.newSensorBacklog (getSensorId env source eid) = none)
    (hsend : arrival.sendOk = false) :
    ¬ Keeps env (keep env source eid value arrival (noted env source eid value arrival p)) := by
  intro hkeeps
  obtain ⟨q, rfl, hinfo, hbound, hne⟩ := keep_refused env value
    (p := noted env source eid value arrival p) hbacklog hsend
  obtain ⟨n, source', -, hn, -⟩ := hkeeps.asked _ hne
  have hsound := (h.keyed.user
    (p.user.accept (getSensorId env source eid) (arrival.timestamp, value))).sound
  have hpending := (Asking.pending_ask_refused (callbacks env) hsound
    ⟨getSensorId env source eid, source⟩ (nameQuery source) arrival.now arrival.spare n
    ⟨getSensorId env source eid, source'⟩).mp (by
      unfold Asking.Pending at hn ⊢
      rw [hinfo, hbound] at hn
      exact hn)
  exact (h.keyed.pending _).mpr ⟨n, _, hpending, rfl⟩ hbacklog

/-- A second reading with the same time stamp is lost. -/
theorem Linked.lost (h : Linked env p) {entry : UInt32 × Readings}
    (hbacklog : p.user.newSensorBacklog (getSensorId env source eid) = some entry)
    (htime : arrival.timestamp ∈ entry.2.map Prod.fst) :
    ¬ Keeps env (keep env source eid value arrival (noted env source eid value arrival p)) := by
  intro hkeeps
  have hbefore := (h.inv.accounted (getSensorId env source eid)).length
  have hafter := (hkeeps.accounted (getSensorId env source eid)).length
  rw [keep_held (by exact hbacklog)] at hafter
  have hsame : insertReading (arrival.timestamp, value) entry.2 = entry.2 := if_pos htime
  rw [hsame] at hafter
  have hheld : ((p.user.accept (getSensorId env source eid) (arrival.timestamp, value)).setBacklog
      (getSensorId env source eid) (entry.1, entry.2)).backlog (getSensorId env source eid) =
        entry := backlog_of_some (Function.update_self _ _ _)
  have haccepted := acceptedOf_accept (getSensorId env source eid) (arrival.timestamp, value)
    p.user (getSensorId env source eid)
  rw [if_pos rfl] at haccepted
  change ((p.user.accept _ _).acceptedOf _).length =
    (p.user.recordedOf _).length + _ + p.user.reportedOf _ at hafter
  rw [haccepted, hheld, List.length_append, List.length_singleton] at hafter
  rw [backlog_of_some hbacklog] at hbefore
  omega

/-- **A step that does not meet the condition** ends in a state without the property. -/
theorem Linked.not_keeps (h : Linked env p) {a : Step} (ha : ¬ Taken env p a) :
    ¬ Keeps env (Hexalog.step env a p) := by
  cases a with
  | io a => exact absurd trivial ha
  | packet source packet arrival =>
    unfold Taken at ha
    push Not at ha
    obtain ⟨hidle, eid, value, hreading, hfind, htaken⟩ := ha
    have hstep : Hexalog.step env (.packet source packet arrival) p =
        keep env source eid value arrival (noted env source eid value arrival p) := by
      show (if p.info.Idle then onPacket env source packet arrival p else p) = _
      rw [if_pos hidle]
      unfold onPacket
      rw [hreading]
      exact acceptPacket_unknown value arrival hfind
    rw [hstep]
    cases hbacklog : p.user.newSensorBacklog (getSensorId env source eid) with
    | some entry =>
      rw [hbacklog] at htaken
      exact h.lost hbacklog (not_not.mp htaken)
    | none =>
      rw [hbacklog] at htaken
      exact h.refused hbacklog (Bool.eq_false_of_not_eq_true htaken)

/-! ## Runs -/

/-- Nothing is registered. -/
def plain : Environment where
  registry _ := none
  addressText addr := addr.val
  sensorTimezone := ascii "Europe/Berlin"

theorem meterBytes_length : (List.replicate 16 (1 : UInt8)).length = 16 := List.length_replicate

def meter : Address := ⟨List.replicate 16 1, meterBytes_length⟩

/-- A counter tells a value at the time stamp 1. -/
def told (value : UInt32) (sendOk : Bool) : Step :=
  .packet meter (.info 2 (.uint32 value) 0) ⟨1, 0, sendOk, 0⟩

/-- **The backlogs are kept** in every state of a run exactly if no query of the logger is refused
and no reading finds its time stamp in the backlog of its sensor. -/
theorem backlogs_kept_iff (env : Environment) (sensors : List Sensor) (steps : List Step) :
    (∀ earlier, earlier <+: steps → Keeps env (run (step env) (init sensors) earlier)) ↔
      Meets (step env) (Taken env) (init sensors) steps := by
  have hstep : ∀ p a, Linked env p → Taken env p a → Linked env (step env a p) :=
    fun _ _ h ha => h.step ha
  exact meets_iff hstep (fun _ h => h.keeps) (fun _ _ h ha => h.not_keeps ha)
    (linked_init env sensors)

/-- Two values, the name of the counter, and a third value. -/
example : (run (step plain) (init []) [told 7 true,
      .packet meter (.info 2 (.uint32 8) 0) ⟨2, 1, true, 0⟩,
      .io (.receive (.endpointInfo 0 0 ⟨[0x6D], by decide⟩ 0) meter), .io .callbackReturns,
      told 9 true]).user.readings.map (fun r => (r.1.name, r.2)) =
    [([0x6D], 1, .whole 7), ([0x6D], 2, .whole 8), ([0x6D], 1, .whole 9)] := by decide

/-! ## Runs that lose readings -/

/-- The query for its name is refused. -/
def refusedRun : List Step := [told 7 false]

/-- It tells two values within a second. -/
def hastyRun : List Step := [told 7 true, told 8 true]

theorem backlogs_not_kept :
    ¬ Keeps plain (run (step plain) (init []) refusedRun) ∧
      ¬ Keeps plain (run (step plain) (init []) hastyRun) := by
  constructor
  · show ¬ Keeps plain (step plain (told 7 false) (init []))
    refine (linked_init plain []).not_keeps fun h => ?_
    exact Bool.false_ne_true (h ⟨rfl, rfl⟩ 2 (.whole 7) rfl rfl)
  · have hfirst : Taken plain (init []) (told 7 true) := by
      rintro - eid value ⟨⟩ -
      rfl
    show ¬ Keeps plain (step plain (told 8 true) (step plain (told 7 true) (init [])))
    refine ((linked_init plain []).step hfirst).not_keeps fun h => ?_
    exact h (by decide) 2 (.whole 8) rfl (by decide) (by decide)

end Hexabus.Host.Hexalog
