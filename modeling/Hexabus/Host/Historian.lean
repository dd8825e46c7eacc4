import Hexabus.Lib.JsonTokens
import Mathlib.Data.List.Nodup

/-!
# The power balance

`historian.cpp` and `solar_calculator.cpp`: one thread takes packets and turns each into one or
two locked operations on two maps, another one sends the balance of the maps from time to time.
A run is any interleaving of the two. The balance is recorded as the `int32_t` that is put into
the packet, before it is made a `float`.
-/

namespace Hexabus.Host.Historian

open Lib.Json

/-! ## Maps -/

/-- `devices_t`. -/
abbrev Devices := List (List UInt8 × UInt32)

/-- `devices[device] = value`. -/
def assign (device : List UInt8) (value : UInt32) : Devices → Devices
  | [] => [(device, value)]
  | d :: ds => if d.1 = device then (device, value) :: ds else d :: assign device value ds

/-- `erase`. -/
def erase (device : List UInt8) (ds : Devices) : Devices := ds.filter fun d => d.1 ≠ device

def keys (ds : Devices) : List (List UInt8) := ds.map Prod.fst

/-- `std::accumulate` with `add_to_totals`; an `int` wraps around as a `uint32_t` does. -/
def total (ds : Devices) : UInt32 := ds.foldl (fun total d => total + d.2) 0

/-! ## The historian -/

/-- `_power_consumptions` and `_power_productions`. -/
structure Maps where
  consumptions : Devices
  productions : Devices

/-- The operations that take the lock. -/
inductive Op
  | addProduction (device : List UInt8) (value : UInt32)
  | addConsumption (device : List UInt8) (value : UInt32)
  | removeDevice (device : List UInt8)

def apply (m : Maps) : Op → Maps
  | .addProduction device value => { m with productions := assign device value m.productions }
  | .addConsumption device value => { m with consumptions := assign device value m.consumptions }
  | .removeDevice device => ⟨erase device m.consumptions, erase device m.productions⟩

/-- `send_power_balance`: what is sent. -/
def balance (m : Maps) : UInt32 := total m.consumptions - total m.productions

/-! ## The calculator -/

/-- The configuration, with the text of an address. -/
structure Config (σ : Type) where
  addressText : σ → List UInt8
  pvProductionEid : UInt32
  pvPeakWatt : UInt32
  batteryEid : UInt32
  batteryPeakWatt : UInt32

/-- `EP_POWER_METER`. -/
def epPowerMeter : UInt32 := 2

/-- A packet that `push_value` gets, with its sender. -/
inductive Value (σ : Type)
  | uint8 (source : σ) (eid : UInt32) (value : UInt8)
  | uint32 (source : σ) (eid : UInt32) (value : UInt32)

variable {σ : Type} (c : Config σ)

/-- `endpoint_eid2device`. -/
def device (source : σ) (eid : UInt32) : List UInt8 :=
  c.addressText source ++ 0x25 :: decimal eid.toNat

/-- `current_battery`: the product is one of unsigned numbers, and is read as a signed one. -/
def currentBattery (value : UInt8) : Int :=
  let n := ((value.toUInt32 - 127) * (c.batteryPeakWatt / 127)).toBitVec.toInt
  if n.natAbs < 50 then 0 else n

/-- `push_value`: the operations, one after the other. -/
def pushValue : Value σ → List Op
  | .uint8 source eid value =>
    if eid = c.pvProductionEid then
      [.addProduction (device c source eid) (value.toUInt32 * (c.pvPeakWatt / 255))]
    else if eid = c.batteryEid then
      [.removeDevice (device c source eid),
        if currentBattery c value < 0 then
          .addProduction (device c source eid) (UInt32.ofInt (-currentBattery c value))
        else .addConsumption (device c source eid) (UInt32.ofInt (currentBattery c value))]
    else []
  | .uint32 source eid value =>
    if eid = epPowerMeter then [.addConsumption (device c source eid) value] else []

/-! ## Runs -/

/-- What the threads do: a packet is taken when the one before it is done, its next operation is
done, and the balance is sent. -/
inductive Step (σ : Type)
  | receive (value : Value σ)
  | operate
  | send

/-- The maps, the packets that have been taken, what is left of the last one's operations, and
what was sent, each with the packets taken by then and whether the last one was under way: some
of its operations done, but not all. -/
structure State (σ : Type) where
  maps : Maps
  taken : List (Value σ)
  pending : List Op
  underway : Bool
  sent : List (UInt32 × List (Value σ) × Bool)

def initial : State σ := ⟨⟨[], []⟩, [], [], false, []⟩

def step (s : State σ) : Step σ → State σ
  | .receive value =>
    if s.pending = [] then { s with taken := s.taken ++ [value], pending := pushValue c value }
    else s
  | .operate =>
    match s.pending with
    | [] => s
    | op :: ops => { s with maps := apply s.maps op, pending := ops, underway := !ops.isEmpty }
  | .send => { s with sent := s.sent ++ [(balance s.maps, s.taken, s.underway)] }

def run (steps : List (Step σ)) : State σ := steps.foldl (step c) initial

/-! ## Whole updates -/

/-- The maps behind whole updates. -/
def whole (taken : List (Value σ)) : Maps :=
  taken.foldl (fun m v => (pushValue c v).foldl apply m) ⟨[], []⟩

/-- The sum of the consumptions minus the sum of the productions. -/
def net (m : Maps) : Int :=
  (m.consumptions.map fun d => (d.2.toNat : Int)).sum -
    (m.productions.map fun d => (d.2.toNat : Int)).sum

/-- A device has one value at most. -/
def Single (m : Maps) : Prop := (keys m.consumptions ++ keys m.productions).Nodup

/-- A balance that was sent is, modulo 2^32, that of the maps before or after a whole update,
and was not made within one. -/
def Fair (e : UInt32 × List (Value σ) × Bool) : Prop :=
  e.2.2 = false ∧ ((e.1.toNat : Int) = net (whole c e.2.1) % 2 ^ 32 ∨
    (e.1.toNat : Int) = net (whole c e.2.1.dropLast) % 2 ^ 32)

/-- What is asked of a run. -/
def Consistent (steps : List (Step σ)) : Prop :=
  (∀ e ∈ (run c steps).sent, Fair c e) ∧ ∀ n, Single (run c (steps.take n)).maps

/-- A value is not entered for a device that has one in the other map. -/
def Op.Free (m : Maps) : Op → Prop
  | .addProduction device _ => device ∉ keys m.consumptions
  | .addConsumption device _ => device ∉ keys m.productions
  | .removeDevice _ => True

/-- The step does not send within an update, and does not give a device a second value. -/
def Fits (s : State σ) : Step σ → Prop
  | .receive _ => True
  | .operate => ∀ op ∈ s.pending.head?, op.Free s.maps
  | .send => s.underway = false

theorem total_toNat (ds : Devices) :
    ((total ds).toNat : Int) = (ds.map fun d => (d.2.toNat : Int)).sum % 2 ^ 32 := by
  have key : ∀ (ds : Devices) (n : UInt32),
      ((ds.foldl (fun total d => total + d.2) n).toNat : Int) =
        ((n.toNat : Int) + (ds.map fun d => (d.2.toNat : Int)).sum) % 2 ^ 32 := by
    intro ds
    induction ds with
    | nil =>
      intro n
      have hn := n.toNat_lt
      rw [List.map_nil, List.sum_nil, List.foldl_nil]
      omega
    | cons d ds ih =>
      intro n
      rw [List.foldl_cons, ih, List.map_cons, List.sum_cons, UInt32.toNat_add]
      omega
  have h := key ds 0
  rwa [UInt32.toNat_zero, Int.natCast_zero, Int.zero_add] at h

/-- **A balance** is the sum of the consumptions minus the sum of the productions. -/
theorem balance_toNat (m : Maps) : ((balance m).toNat : Int) = net m % 2 ^ 32 := by
  have hc := total_toNat m.consumptions
  have hp := total_toNat m.productions
  have hlt := (total m.productions).toNat_lt
  rw [balance, net, UInt32.toNat_sub]
  omega

theorem mem_keys_assign {device d : List UInt8} {value : UInt32} {ds : Devices} :
    d ∈ keys (assign device value ds) ↔ d = device ∨ d ∈ keys ds := by
  induction ds with
  | nil => simp [assign, keys]
  | cons e ds ih =>
    rw [assign]
    by_cases h : e.1 = device
    · rw [if_pos h, keys, keys, List.map_cons, List.map_cons, List.mem_cons, List.mem_cons, h]
      tauto
    · rw [if_neg h]
      show d ∈ e.1 :: keys (assign device value ds) ↔ d = device ∨ d ∈ e.1 :: keys ds
      rw [List.mem_cons, List.mem_cons, ih]
      tauto

theorem nodup_assign {device : List UInt8} {value : UInt32} {ds : Devices} (h : (keys ds).Nodup) :
    (keys (assign device value ds)).Nodup := by
  induction ds with
  | nil => simp [assign, keys]
  | cons e ds ih =>
    rw [keys, List.map_cons, List.nodup_cons] at h
    rw [assign]
    by_cases he : e.1 = device
    · rw [if_pos he, keys, List.map_cons, List.nodup_cons, ← he]
      exact h
    · rw [if_neg he, keys, List.map_cons, List.nodup_cons]
      refine ⟨fun hmem => ?_, ih h.2⟩
      rcases mem_keys_assign.mp hmem with hmem | hmem
      · exact he hmem
      · exact h.1 hmem

theorem keys_erase (device : List UInt8) (ds : Devices) :
    keys (erase device ds) = (keys ds).filter (· ≠ device) := by
  rw [keys, keys, erase, List.filter_map]
  rfl

/-- An operation that fits keeps one value for each device. -/
theorem Single.apply {m : Maps} (h : Single m) {op : Op} (hop : op.Free m) :
    Single (apply m op) := by
  obtain ⟨hc, hp, hdisj⟩ := List.nodup_append.mp h
  cases op with
  | addProduction device value =>
    refine List.nodup_append.mpr ⟨hc, nodup_assign hp, fun a ha b hb hab => ?_⟩
    rcases mem_keys_assign.mp hb with rfl | hb
    · exact hop (hab ▸ ha)
    · exact hdisj a ha b hb hab
  | addConsumption device value =>
    refine List.nodup_append.mpr ⟨nodup_assign hc, hp, fun a ha b hb hab => ?_⟩
    rcases mem_keys_assign.mp ha with rfl | ha
    · exact hop (hab ▸ hb)
    · exact hdisj a ha b hb hab
  | removeDevice device =>
    show (keys (erase device m.consumptions) ++ keys (erase device m.productions)).Nodup
    rw [keys_erase, keys_erase, ← List.filter_append]
    exact h.filter _

/-- An operation that does not fit gives a device two values. -/
theorem Op.free_of_single {m : Maps} {op : Op} (h : Single (apply m op)) : op.Free m := by
  obtain ⟨-, -, hdisj⟩ := List.nodup_append.mp h
  cases op with
  | addProduction device value =>
    exact fun hmem => hdisj device hmem device (mem_keys_assign.mpr (.inl rfl)) rfl
  | addConsumption device value =>
    exact fun hmem => hdisj device (mem_keys_assign.mpr (.inl rfl)) device hmem rfl
  | removeDevice device => trivial

/-! ## Along a run -/

/-- Where the two threads are: nothing was taken yet, or the last packet's operations are done up
to those that are left. -/
inductive At (s : State σ) : Prop
  | start (taken : s.taken = []) (pending : s.pending = []) (maps : s.maps = ⟨[], []⟩)
      (underway : s.underway = false)
  | within (us : List (Value σ)) (v : Value σ) (done : List Op) (taken : s.taken = us ++ [v])
      (ops : pushValue c v = done ++ s.pending) (maps : s.maps = done.foldl apply (whole c us))
      (underway : s.underway = (!done.isEmpty && !s.pending.isEmpty))

theorem whole_append (us : List (Value σ)) (v : Value σ) :
    whole c (us ++ [v]) = (pushValue c v).foldl apply (whole c us) := by
  rw [whole, List.foldl_append, List.foldl_cons, List.foldl_nil, whole]

variable {c}

/-- When no packet is taken and none is under way, the maps are those behind whole updates. -/
theorem At.maps_of_pending {s : State σ} (h : At c s) (hp : s.pending = []) :
    s.maps = whole c s.taken := by
  cases h with
  | start taken _ maps _ => rw [maps, taken, whole, List.foldl_nil]
  | within us v done taken ops maps _ =>
    rw [hp, List.append_nil] at ops
    rw [maps, taken, whole_append, ops]

theorem At.step {s : State σ} (h : At c s) (st : Step σ) : At c (step c s st) := by
  cases st with
  | receive value =>
    by_cases hp : s.pending = []
    · have hu : s.underway = false := by
        cases h with
        | start _ _ _ underway => exact underway
        | within us v done _ _ _ underway => rw [underway, hp, List.isEmpty_nil, Bool.not_true,
            Bool.and_false]
      have hs : Historian.step c s (.receive value) =
          { s with taken := s.taken ++ [value], pending := pushValue c value } := if_pos hp
      rw [hs]
      exact .within s.taken value [] rfl rfl (h.maps_of_pending hp) hu
    · have hs : Historian.step c s (.receive value) = s := if_neg hp
      rw [hs]
      exact h
  | operate =>
    cases hp : s.pending with
    | nil =>
      have hs : Historian.step c s .operate = s := by rw [Historian.step, hp]
      rw [hs]
      exact h
    | cons op ops =>
      have hs : Historian.step c s .operate =
          { s with maps := apply s.maps op, pending := ops, underway := !ops.isEmpty } := by
        rw [Historian.step, hp]
      rw [hs]
      cases h with
      | start _ pending _ _ => exact absurd (hp.symm.trans pending) (List.cons_ne_nil _ _)
      | within us v done taken hops maps _ =>
        refine .within us v (done ++ [op]) taken ?_ ?_ ?_
        · rw [hops, hp, List.append_assoc, List.singleton_append]
        · rw [List.foldl_append, ← maps, List.foldl_cons, List.foldl_nil]
        · cases done <;> rfl
  | send =>
    cases h with
    | start taken pending maps underway => exact .start taken pending maps underway
    | within us v done taken ops maps underway =>
      exact .within us v done taken ops maps underway

theorem run_append (steps : List (Step σ)) (st : Step σ) :
    run c (steps ++ [st]) = step c (run c steps) st := by
  rw [run, List.foldl_append, List.foldl_cons, List.foldl_nil, run]

theorem at_run (steps : List (Step σ)) : At c (run c steps) := by
  induction steps using List.reverseRecOn with
  | nil => exact .start rfl rfl rfl rfl
  | append_singleton steps st ih =>
    rw [run_append]
    exact ih.step st

/-- What is sent while no packet is under way is the balance of whole updates. -/
theorem At.fair {s : State σ} (h : At c s) (hu : s.underway = false) :
    Fair c (balance s.maps, s.taken, s.underway) := by
  refine ⟨hu, ?_⟩
  by_cases hp : s.pending = []
  · left
    rw [← h.maps_of_pending hp]
    exact balance_toNat s.maps
  · right
    cases h with
    | start _ pending _ _ => exact absurd pending hp
    | within us v done taken ops maps underway =>
      have hd : done = [] := by
        cases done with
        | nil => rfl
        | cons op ops =>
          have hempty : s.pending.isEmpty = false := by
            rw [Bool.eq_false_iff]
            exact fun he => hp (List.isEmpty_iff.mp he)
          rw [underway, hempty] at hu
          rw [List.isEmpty_cons] at hu
          exact absurd hu (by decide)
      rw [hd, List.foldl_nil] at maps
      show ((balance s.maps).toNat : Int) = net (whole c s.taken.dropLast) % 2 ^ 32
      rw [taken, List.dropLast_concat, ← maps]
      exact balance_toNat s.maps

/-- A step that fits leaves the devices with one value each. -/
theorem single_step {s : State σ} {st : Step σ} (h : Single s.maps) (hf : Fits s st) :
    Single (step c s st).maps := by
  cases st with
  | receive value =>
    rw [step]
    split <;> exact h
  | operate =>
    cases hp : s.pending with
    | nil => rwa [step, hp]
    | cons op ops =>
      rw [step, hp]
      exact h.apply (hf op (by rw [hp]; rfl))
  | send => exact h

theorem sent_step {s : State σ} (h : At c s) {st : Step σ} (hf : Fits s st)
    (hs : ∀ e ∈ s.sent, Fair c e) : ∀ e ∈ (step c s st).sent, Fair c e := by
  cases st with
  | receive value =>
    rw [step]
    split <;> exact hs
  | operate =>
    rw [step]
    split <;> exact hs
  | send =>
    intro e he
    rcases List.mem_append.mp he with he | he
    · exact hs e he
    · rw [List.mem_singleton.mp he]
      exact h.fair hf

/-- A step that keeps what is asked of the run fits. -/
theorem fits_of_step {s : State σ} {st : Step σ} (hs : ∀ e ∈ (step c s st).sent, Fair c e)
    (h : Single (step c s st).maps) : Fits s st := by
  cases st with
  | receive value => trivial
  | operate =>
    intro op hop
    cases hp : s.pending with
    | nil =>
      rw [hp] at hop
      cases hop
    | cons op' ops =>
      rw [hp] at hop
      cases hop
      rw [step, hp] at h
      exact Op.free_of_single h
  | send =>
    exact (hs _ (List.mem_append_right _ (List.mem_singleton_self _))).1

/-- What was sent stays recorded. -/
theorem mem_sent_of_mem {s : State σ} {e : UInt32 × List (Value σ) × Bool}
    (steps : List (Step σ)) (h : e ∈ s.sent) : e ∈ (steps.foldl (step c) s).sent := by
  induction steps generalizing s with
  | nil => exact h
  | cons st steps ih =>
    refine ih ?_
    cases st with
    | receive value =>
      rw [step]
      split <;> exact h
    | operate =>
      rw [step]
      split <;> exact h
    | send => exact List.mem_append_left _ h

/-- A run whose steps fit sends balances of whole updates only, and ends with one value for each
device. -/
theorem consistent_of_fits {steps : List (Step σ)}
    (h : ∀ pre st post, steps = pre ++ st :: post → Fits (run c pre) st) :
    (∀ e ∈ (run c steps).sent, Fair c e) ∧ Single (run c steps).maps := by
  induction steps using List.reverseRecOn with
  | nil => exact ⟨fun e he => absurd he List.not_mem_nil, List.nodup_nil⟩
  | append_singleton steps st ih =>
    have hfits : Fits (run c steps) st := h steps st [] rfl
    obtain ⟨hsent, hsingle⟩ := ih fun pre st' post hs => h pre st' (post ++ [st]) (by
      rw [hs, List.append_assoc, List.cons_append])
    rw [run_append]
    exact ⟨sent_step (at_run steps) hfits hsent, single_step hsingle hfits⟩

/-- **When the balances are those of whole updates**: the locks guard one operation each, so a
balance can be sent between the two of a battery. -/
theorem consistent_iff (steps : List (Step σ)) :
    Consistent c steps ↔
      ∀ pre st post, steps = pre ++ st :: post → Fits (run c pre) st := by
  constructor
  · rintro ⟨hsent, hsingle⟩ pre st post rfl
    have hrun : run c (pre ++ st :: post) = post.foldl (step c) (step c (run c pre) st) := by
      rw [run, List.foldl_append, List.foldl_cons, run]
    refine fits_of_step (fun e he => hsent e ?_) ?_
    · rw [hrun]
      exact mem_sent_of_mem post he
    · have h := hsingle (pre.length + 1)
      rw [List.take_append, List.take_of_length_le (Nat.le_succ _), Nat.add_sub_cancel_left,
        List.take_succ_cons, List.take_zero, run_append] at h
      exact h
  · intro h
    refine ⟨?_, fun n => ?_⟩
    · exact (consistent_of_fits h).1
    · suffices hfits : ∀ pre st post, steps.take n = pre ++ st :: post → Fits (run c pre) st from
        (consistent_of_fits hfits).2
      intro pre st post hs
      refine h pre st (post ++ steps.drop n) ?_
      rw [← List.cons_append, ← List.append_assoc, ← hs, List.take_append_drop]

/-- A battery's status that comes twice, with a balance sent within the second update: the battery
is not in it. -/
theorem battery_between :
    let c : Config Unit := ⟨fun _ => [0x3a, 0x3a, 0x31], 30, 2550, 31, 1270⟩
    let v : Value Unit := .uint8 () 31 200
    let steps : List (Step Unit) := [.receive v, .operate, .operate, .receive v, .operate, .send]
    (run c steps).sent.map Prod.fst = [0] ∧ net (whole c [v]) = 730 ∧ net (whole c [v, v]) = 730 ∧
      ¬ Consistent c steps := by
  refine ⟨by decide, by decide, by decide, fun h => ?_⟩
  have hfair := h.1 (0, [.uint8 () 31 200, .uint8 () 31 200], true) (List.mem_singleton.mpr rfl)
  exact Bool.noConfusion hfair.1

/-! ## Which operations fit -/

/-- The devices that are entered. -/
structure Entered (c : Config σ) (m : Maps) : Prop where
  productions : ∀ d ∈ keys m.productions, ∃ a eid, d = device c a eid ∧
    (eid = c.pvProductionEid ∨ eid = c.batteryEid)
  consumptions : ∀ d ∈ keys m.consumptions, ∃ a eid, d = device c a eid ∧
    (eid = epPowerMeter ∨ eid = c.batteryEid ∧ eid ≠ c.pvProductionEid)

theorem eid_of_device {a b : σ} {eid eid' : UInt32} (h : device c a eid = device c b eid') :
    eid = eid' :=
  UInt32.toNat_inj.mp (decimal_append_inj (by decide) h)

/-- The devices of a packet's operations are entered in the right maps. -/
theorem Entered.apply {c : Config σ} {m : Maps} (h : Entered c m) {v : Value σ} {op : Op}
    (hop : op ∈ pushValue c v) : Entered c (apply m op) := by
  have hremove : ∀ d, Entered c (Historian.apply m (.removeDevice d)) := by
    refine fun d => ⟨fun d' hd' => h.productions d' ?_, fun d' hd' => h.consumptions d' ?_⟩
    · exact List.mem_of_mem_filter (keys_erase d m.productions ▸ hd')
    · exact List.mem_of_mem_filter (keys_erase d m.consumptions ▸ hd')
  have hproduce : ∀ a eid value, (eid = c.pvProductionEid ∨ eid = c.batteryEid) →
      Entered c (Historian.apply m (.addProduction (device c a eid) value)) := by
    refine fun a eid value heid => ⟨fun d' hd' => ?_, h.consumptions⟩
    rcases mem_keys_assign.mp hd' with rfl | hd'
    · exact ⟨a, eid, rfl, heid⟩
    · exact h.productions d' hd'
  have hconsume : ∀ a eid value,
      (eid = epPowerMeter ∨ eid = c.batteryEid ∧ eid ≠ c.pvProductionEid) →
      Entered c (Historian.apply m (.addConsumption (device c a eid) value)) := by
    refine fun a eid value heid => ⟨h.productions, fun d' hd' => ?_⟩
    rcases mem_keys_assign.mp hd' with rfl | hd'
    · exact ⟨a, eid, rfl, heid⟩
    · exact h.consumptions d' hd'
  cases v with
  | uint8 source eid value =>
    rw [pushValue] at hop
    split at hop
    · next hpv =>
      rw [List.mem_singleton.mp hop]
      exact hproduce source eid _ (.inl hpv)
    · next hpv =>
      split at hop
      · next hbattery =>
        rcases List.mem_cons.mp hop with rfl | hop
        · exact hremove _
        · rw [List.mem_singleton.mp hop]
          split
          · exact hproduce source eid _ (.inr hbattery)
          · exact hconsume source eid _ (.inr ⟨hbattery, hpv⟩)
      · cases hop
  | uint32 source eid value =>
    rw [pushValue] at hop
    split at hop
    · next hmeter =>
      rw [List.mem_singleton.mp hop]
      exact hconsume source eid _ (.inl hmeter)
    · cases hop

theorem entered_whole (c : Config σ) (us : List (Value σ)) : Entered c (whole c us) := by
  induction us using List.reverseRecOn with
  | nil => exact ⟨fun _ h => absurd h List.not_mem_nil, fun _ h => absurd h List.not_mem_nil⟩
  | append_singleton us v ih =>
    rw [whole_append]
    have key : ∀ ops : List Op, (∀ op ∈ ops, op ∈ pushValue c v) → ∀ m, Entered c m →
        Entered c (ops.foldl Historian.apply m) := by
      intro ops
      induction ops with
      | nil => exact fun _ _ hm => hm
      | cons op ops ihops =>
        intro hops m hm
        exact ihops (fun op' h => hops op' (List.mem_cons_of_mem _ h)) _
          (hm.apply (hops op List.mem_cons_self))
    exact key _ (fun _ h => h) _ ih

theorem not_mem_keys_erase (d : List UInt8) (ds : Devices) : d ∉ keys (erase d ds) := by
  rw [keys_erase, List.mem_filter]
  exact fun h => absurd rfl (of_decide_eq_true h.2)

/-- A production or consumption of another endpoint is not entered in the other map. -/
theorem Entered.free_production {c : Config σ} {m : Maps} (h : Entered c m)
    (hpv : c.pvProductionEid ≠ epPowerMeter) (source : σ) (value : UInt32) :
    (Op.addProduction (device c source c.pvProductionEid) value).Free m := by
  intro hmem
  obtain ⟨a, eid, hd, heid⟩ := h.consumptions _ hmem
  rw [← eid_of_device hd] at heid
  rcases heid with heid | heid
  · exact hpv heid
  · exact heid.2 rfl

theorem Entered.free_consumption {c : Config σ} {m : Maps} (h : Entered c m)
    (hpv : c.pvProductionEid ≠ epPowerMeter) (hbattery : c.batteryEid ≠ epPowerMeter)
    (source : σ) (value : UInt32) :
    (Op.addConsumption (device c source epPowerMeter) value).Free m := by
  intro hmem
  obtain ⟨a, eid, hd, heid⟩ := h.productions _ hmem
  rw [← eid_of_device hd] at heid
  rcases heid with heid | heid
  · exact hpv heid.symm
  · exact hbattery heid.symm

/-- Within a packet's operations, the next one fits. -/
theorem Entered.free {c : Config σ} {m : Maps} (h : Entered c m)
    (hpv : c.pvProductionEid ≠ epPowerMeter) (hbattery : c.batteryEid ≠ epPowerMeter)
    {v : Value σ} {done ops : List Op} {op : Op} (hv : pushValue c v = done ++ op :: ops) :
    op.Free (done.foldl Historian.apply m) := by
  have hone : ∀ {o : Op} {done : List Op}, [o] = done ++ op :: ops → done = [] ∧ op = o := by
    intro o done ho
    cases done with
    | nil => exact ⟨rfl, (List.cons.inj ho).1.symm⟩
    | cons o' done => exact absurd (List.cons.inj ho).2 (by simp)
  cases v with
  | uint8 source eid value =>
    rw [pushValue] at hv
    split at hv
    · next heid =>
      obtain ⟨rfl, rfl⟩ := hone hv
      rw [heid]
      exact h.free_production hpv source _
    · split at hv
      · cases done with
        | nil =>
          rw [← (List.cons.inj hv).1]
          trivial
        | cons o done =>
          -- the battery has been taken out of both maps
          rw [List.cons_append] at hv
          obtain ⟨rfl, htail⟩ := List.cons.inj hv
          obtain ⟨rfl, rfl⟩ := hone htail
          split
          · exact not_mem_keys_erase _ _
          · exact not_mem_keys_erase _ _
      · exact absurd hv (by simp)
  | uint32 source eid value =>
    rw [pushValue] at hv
    split at hv
    · next heid =>
      obtain ⟨rfl, rfl⟩ := hone hv
      rw [heid]
      exact h.free_consumption hpv hbattery source _
    · exact absurd hv (by simp)

/-- A battery is taken out of both maps before it is entered: when neither of the configured
endpoints is the power meter's, a device has one value at most, and only what is sent within an
update goes wrong. -/
theorem fits_operate {c : Config σ} (hpv : c.pvProductionEid ≠ epPowerMeter)
    (hbattery : c.batteryEid ≠ epPowerMeter) (steps : List (Step σ)) :
    Fits (run c steps) .operate := by
  intro op hop
  cases at_run (c := c) steps with
  | start _ pending _ _ =>
    rw [pending] at hop
    cases hop
  | within us v done _ ops maps _ =>
    obtain ⟨ops', hops'⟩ : ∃ ops', (run c steps).pending = op :: ops' :=
      List.head?_eq_some_iff.mp hop
    rw [maps]
    exact (entered_whole c us).free hpv hbattery (hops' ▸ ops)

end Hexabus.Host.Historian
