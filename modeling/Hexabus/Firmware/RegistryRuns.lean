import Hexabus.Firmware.Registration

/-!
# The registry over runs of registrations

On a chain the loops of `endpoint_registry.c` are the lookups on the list of descriptors
(`Linked`). Without the check of the debug build the chain lasts exactly as long as no
place registers twice: the second time its link closes the chain to a ring, which no later
registration opens again.
-/

namespace Hexabus.Firmware

open Lib.Bytes Lib.Chain

namespace LinkedRegistry

variable {σ : Type} (handlers : Handlers σ) {r : LinkedRegistry} {links : List Site}

/-! ## What has to hold -/

/-- Every lookup comes to its end. -/
structure LookupsEnd (r : LinkedRegistry) : Prop where
  find : ∀ eid, ∃ fuel, (r.findDescriptor handlers fuel eid).isSome
  synthesize : ∀ eid value, ∃ fuel, (r.synthesizeReadM32 fuel eid value).isSome
  datatype : ∀ eid, ∃ fuel, (r.endpointGetDatatype handlers fuel eid).isSome
  write : ∀ eid env s, ∃ fuel, (r.endpointWrite handlers fuel eid env s).isSome
  read : ∀ eid value s, ∃ fuel, (r.endpointRead handlers fuel eid value s).isSome
  name : ∀ eeprom eid m buffer len,
    ∃ fuel, (r.endpointGetName handlers fuel eeprom eid m buffer len).isSome

/-- The chain ends, no link comes twice, every registered descriptor comes once, and every
lookup ends. -/
structure WellFormed (registered : List Site) (r : LinkedRegistry) : Prop where
  acyclic : ∃ links, IsChain r.next r.endpointChain links ∧ links.Nodup ∧
    ∀ ep ∈ registered, (links.map fun link => (r.entries link).descriptor).count (some ep) = 1
  lookups : LookupsEnd handlers r

/-- After the calls the registry is well formed, and none of them is still looping. -/
def WellFormedAfter (config : Config) (calls : List Call) : Prop :=
  ∃ fuel r, registerAll config fuel (calls.flatMap (Call.sites config)) empty = some r ∧
    WellFormed handlers (calls.flatMap (Call.sites config)) r

/-! ## The loops on a chain -/

/-- The links form a chain, and each has the descriptor of its own place. -/
structure Linked (r : LinkedRegistry) (links : List Site) : Prop where
  chain : IsChain r.next r.endpointChain links
  own : ∀ link ∈ links, (r.entries link).descriptor = some link

/-- The list of descriptors behind the links. -/
def descriptors (links : List Site) : EndpointChain σ := links.map (Site.descriptor handlers)

theorem linked_empty : Linked empty [] :=
  ⟨.nil, fun _ h => absurd h List.not_mem_nil⟩

@[simp] theorem next_push (ep link : Site) :
    (r.push ep link).next = Function.update r.next link r.endpointChain := by
  funext other
  unfold next push
  by_cases h : other = link
  · simp [h]
  · simp [h]

@[simp] theorem endpointChain_push (ep link : Site) :
    (r.push ep link).endpointChain = some link := rfl

theorem Linked.push (h : Linked r links) {s : Site} (hs : s ∉ links) :
    Linked (r.push s s) (s :: links) := by
  constructor
  · rw [next_push, endpointChain_push]
    exact isChain_push_iff.mpr ⟨links, rfl, hs, h.chain⟩
  · intro link hlink
    by_cases heq : link = s
    · rw [heq]
      simp [LinkedRegistry.push]
    · have hmem := (List.mem_cons.mp hlink).resolve_left heq
      simp [LinkedRegistry.push, Function.update_of_ne heq, h.own link hmem]

theorem Linked.hasEid (h : Linked r links) {link : Site} (hlink : link ∈ links) (eid : UInt32) :
    r.hasEid eid link = decide (link.eid = eid) := by
  unfold LinkedRegistry.hasEid
  rw [h.own link hlink, Option.map_some, Option.some_beq_some]
  rfl

/-- The search for an endpoint id finds the link of its place. -/
theorem Linked.search_eq (h : Linked r links) (eid : UInt32) {fuel : Nat}
    (hfuel : links.length ≤ fuel) :
    searchChain r.next (r.hasEid eid) fuel r.endpointChain
      = some (links.find? fun link => link.eid = eid) := by
  have hcongr : ∀ ls : List Site, (∀ link ∈ ls, link ∈ links) →
      ls.find? (r.hasEid eid) = ls.find? fun link => link.eid = eid := by
    intro ls hls
    induction ls with
    | nil => rfl
    | cons link ls ih =>
      rw [List.find?_cons, List.find?_cons, h.hasEid (hls link List.mem_cons_self) eid,
        ih fun l hl => hls l (List.mem_cons_of_mem _ hl)]
  rw [h.chain.search_eq _ hfuel, hcongr links fun _ hl => hl]

/-- **`find_descriptor`** on a chain is the lookup in the list of descriptors. -/
theorem Linked.findDescriptor_eq (h : Linked r links) (eid : UInt32) {fuel : Nat}
    (hfuel : links.length ≤ fuel) :
    r.findDescriptor handlers fuel eid = some ((descriptors handlers links).findDescriptor eid) := by
  have hfind : (descriptors handlers links).findDescriptor eid
      = (links.find? fun link => link.eid = eid).map (Site.descriptor handlers) :=
    List.find?_map
  unfold findDescriptor
  rw [h.search_eq eid hfuel, hfind]
  cases hf : links.find? fun link => link.eid = eid with
  | none => rfl
  | some link =>
    simp only [Option.map_some, Option.bind_some, h.own link (List.mem_of_find?_eq_some hf)]

/-- **`synthesize_read_m32`** on a chain is the bitmap of the list of descriptors. -/
theorem Linked.synthesizeReadM32_eq (h : Linked r links) (eid : UInt32) (value : HxbValue)
    {fuel : Nat} (hfuel : links.length ≤ fuel) :
    r.synthesizeReadM32 fuel eid value
      = some ((descriptors handlers links).synthesizeReadM32 eid value) := by
  have hfold : ∀ (ls : List Site) (mask : UInt32), (∀ link ∈ ls, link ∈ links) →
      ls.foldl (r.synthesizeBit eid) mask = (descriptors handlers ls).foldl (fun mask ep =>
        if eid ≤ ep.eid ∧ ep.eid < eid + 32 then mask ||| (1 <<< (ep.eid - eid)) else mask)
        mask := by
    intro ls mask hls
    induction ls generalizing mask with
    | nil => rfl
    | cons link ls ih =>
      have hbit : r.synthesizeBit eid mask link = if eid ≤ link.eid ∧ link.eid < eid + 32 then
          mask ||| (1 <<< (link.eid - eid)) else mask := by
        unfold synthesizeBit
        rw [h.own link (hls link List.mem_cons_self)]
      rw [List.foldl_cons, hbit]
      exact ih _ fun l hl => hls l (List.mem_cons_of_mem _ hl)
  unfold synthesizeReadM32
  rw [h.chain.fold_eq _ _ hfuel, hfold links 1 fun _ hl => hl]
  rfl

/-- **The lookups on a chain** are those on the list of its descriptors. -/
theorem Linked.lookups_eq (h : Linked r links) {fuel : Nat} (hfuel : links.length ≤ fuel) :
    (∀ eid, r.endpointGetDatatype handlers fuel eid
      = some ((descriptors handlers links).endpointGetDatatype eid)) ∧
    (∀ eid env s, r.endpointWrite handlers fuel eid env s
      = some ((descriptors handlers links).endpointWrite eid env s)) ∧
    (∀ eid value s, r.endpointRead handlers fuel eid value s
      = some ((descriptors handlers links).endpointRead eid value s)) ∧
    ∀ eeprom eid m buffer len, r.endpointGetName handlers fuel eeprom eid m buffer len
      = some ((descriptors handlers links).endpointGetName eeprom eid m buffer len) := by
  have hfind := fun eid => h.findDescriptor_eq handlers eid hfuel
  refine ⟨?_, ?_, ?_, ?_⟩
  · intro eid
    unfold endpointGetDatatype EndpointChain.endpointGetDatatype
    rw [hfind]
    split
    · rfl
    · cases (descriptors handlers links).findDescriptor eid <;> rfl
  · intro eid env s
    unfold endpointWrite EndpointChain.endpointWrite
    rw [hfind]
    split
    · rfl
    · cases (descriptors handlers links).findDescriptor eid <;> rfl
  · intro eid value s
    unfold endpointRead EndpointChain.endpointRead
    rw [hfind, h.synthesizeReadM32_eq handlers eid value hfuel]
    split
    · rfl
    · cases (descriptors handlers links).findDescriptor eid <;> rfl
  · intro eeprom eid m buffer len
    unfold endpointGetName EndpointChain.endpointGetName
    rw [hfind]
    split
    · rfl
    · cases (descriptors handlers links).findDescriptor eid <;> rfl

theorem Linked.lookupsEnd (h : Linked r links) : LookupsEnd handlers r := by
  obtain ⟨hdatatype, hwrite, hread, hname⟩ := h.lookups_eq handlers (Nat.le_refl links.length)
  constructor
  · intro eid
    exact ⟨links.length, by rw [h.findDescriptor_eq handlers eid (Nat.le_refl _)]; rfl⟩
  · intro eid value
    exact ⟨links.length, by rw [h.synthesizeReadM32_eq handlers eid value (Nat.le_refl _)]; rfl⟩
  · intro eid
    exact ⟨links.length, by rw [hdatatype]; rfl⟩
  · intro eid env s
    exact ⟨links.length, by rw [hwrite]; rfl⟩
  · intro eid value s
    exact ⟨links.length, by rw [hread]; rfl⟩
  · intro eeprom eid m buffer len
    exact ⟨links.length, by rw [hname]; rfl⟩

theorem Linked.wellFormed (h : Linked r links) {registered : List Site}
    (hmem : ∀ s ∈ registered, s ∈ links) : WellFormed handlers registered r := by
  refine ⟨⟨links, h.chain, h.chain.nodup, ?_⟩, h.lookupsEnd handlers⟩
  intro ep hep
  have hown : (links.map fun link => (r.entries link).descriptor) = links.map some :=
    List.map_congr_left h.own
  rw [hown, List.count_map_of_injective _ _ (Option.some_injective _)]
  exact List.count_eq_one_of_mem h.chain.nodup (hmem ep hep)

/-! ## Without the check -/

/-- The registrations of a build that checks nothing. -/
def pushAll (sites : List Site) (r : LinkedRegistry) : LinkedRegistry :=
  sites.foldl (fun r s => r.push s s) r

theorem registerAll_unchecked {config : Config} (hdebug : config.debug = false) (fuel : Nat)
    (sites : List Site) (r : LinkedRegistry) :
    registerAll config fuel sites r = some (pushAll sites r) := by
  induction sites generalizing r with
  | nil => rfl
  | cons s sites ih =>
    have hstep : r.endpointRegister config fuel s s = some (r.push s s) := by
      unfold endpointRegister
      rw [hdebug]
      rfl
    unfold registerAll at ih ⊢
    rw [List.foldlM_cons, hstep]
    exact ih (r.push s s)

/-- **A ring stays a ring**: the links form a chain exactly while no place has registered
twice, and the chain then is the registrations, newest first. -/
theorem isChain_pushAll_iff (sites : List Site) (links : List Site) :
    IsChain (pushAll sites empty).next (pushAll sites empty).endpointChain links ↔
      sites.Nodup ∧ links = sites.reverse := by
  induction sites using List.reverseRecOn generalizing links with
  | nil =>
    constructor
    · intro h
      cases h
      exact ⟨List.nodup_nil, rfl⟩
    · rintro ⟨-, rfl⟩
      exact .nil
  | append_singleton sites s ih =>
    have hlast : pushAll (sites ++ [s]) empty = (pushAll sites empty).push s s := by
      unfold pushAll
      rw [List.foldl_append]
      rfl
    rw [hlast, next_push, endpointChain_push, isChain_push_iff]
    simp only [ih, List.reverse_append, List.reverse_singleton, List.singleton_append,
      List.nodup_append, List.nodup_singleton, List.mem_singleton, true_and]
    constructor
    · rintro ⟨rest, rfl, hnot, hnodup, rfl⟩
      exact ⟨⟨hnodup, fun a ha b hb hab => hnot (List.mem_reverse.mpr (hb ▸ hab ▸ ha))⟩, rfl⟩
    · rintro ⟨⟨hnodup, hnot⟩, rfl⟩
      exact ⟨sites.reverse, rfl,
        fun hmem => hnot s (List.mem_reverse.mp hmem) s rfl rfl, hnodup, rfl⟩

theorem linked_pushAll {sites : List Site} (h : sites.Nodup) :
    Linked (pushAll sites empty) sites.reverse := by
  induction sites using List.reverseRecOn with
  | nil => exact linked_empty
  | append_singleton sites s ih =>
    obtain ⟨hnodup, -, hnot⟩ := List.nodup_append.mp h
    have hs : s ∉ sites.reverse := fun hmem =>
      hnot s (List.mem_reverse.mp hmem) s (List.mem_singleton_self s) rfl
    have hpush := (ih hnodup).push hs
    unfold pushAll at hpush ⊢
    rw [List.foldl_append, List.reverse_append]
    exact hpush

/-! ## With the check -/

/-- Every place that has been called is on the chain, once. -/
theorem registerAll_checked {config : Config} (hdebug : config.debug = true) {fuel : Nat}
    (sites : List Site) (h : Linked r links) (hfuel : links.length + sites.length ≤ fuel) :
    ∃ r' links', registerAll config fuel sites r = some r' ∧ Linked r' links' ∧
      (∀ s ∈ links, s ∈ links') ∧ ∀ s ∈ sites, s ∈ links' := by
  induction sites generalizing r links with
  | nil => exact ⟨r, links, rfl, h, fun _ hs => hs, fun _ hs => absurd hs List.not_mem_nil⟩
  | cons s sites ih =>
    rw [List.length_cons] at hfuel
    obtain ⟨heid, hdatatype⟩ := s.registrable
    have hsearch : searchChain r.next (r.hasEid s.eid) fuel r.endpointChain = _ :=
      h.search_eq s.eid (by omega)
    by_cases hs : s ∈ links
    · -- registered before: the search finds the endpoint id
      obtain ⟨found, hfound⟩ : ∃ found, (links.find? fun link => link.eid = s.eid) = some found :=
        Option.isSome_iff_exists.mp (List.find?_isSome.mpr ⟨s, hs, by simp⟩)
      have hstep : r.endpointRegister config fuel s s = some r := by
        unfold endpointRegister
        rw [hdebug, if_pos rfl, if_neg heid, hsearch, hfound]
      obtain ⟨r', links', hall, hlinked, hkeep, hrest⟩ := ih h (by omega)
      refine ⟨r', links', ?_, hlinked, hkeep, ?_⟩
      · unfold registerAll at hall ⊢
        rw [List.foldlM_cons, hstep]
        exact hall
      · intro t ht
        rcases List.mem_cons.mp ht with rfl | ht
        · exact hkeep _ hs
        · exact hrest t ht
    · -- new: no other place has its endpoint id
      have hnone : (links.find? fun link => link.eid = s.eid) = none := by
        refine List.find?_eq_none.mpr ?_
        intro link hlink heq
        exact hs (Site.eid_injective (of_decide_eq_true heq) ▸ hlink)
      have hstep : r.endpointRegister config fuel s s = some (r.push s s) := by
        unfold endpointRegister
        rw [hdebug, if_pos rfl, if_neg heid, hsearch, hnone]
        exact if_neg hdatatype
      obtain ⟨r', links', hall, hlinked, hkeep, hrest⟩ := ih (h.push hs)
        (by rw [List.length_cons]; omega)
      refine ⟨r', links', ?_, hlinked, fun t ht => hkeep t (List.mem_cons_of_mem _ ht), ?_⟩
      · unfold registerAll at hall ⊢
        rw [List.foldlM_cons, hstep]
        exact hall
      · intro t ht
        rcases List.mem_cons.mp ht with rfl | ht
        · exact hkeep _ List.mem_cons_self
        · exact hrest t ht

/-! ## When the registry is well formed -/

theorem nodup_of_wellFormedAfter {config : Config} {calls : List Call}
    (hdebug : config.debug = false) (h : WellFormedAfter handlers config calls) :
    (calls.flatMap (Call.sites config)).Nodup := by
  obtain ⟨fuel, r, hall, hwf⟩ := h
  rw [registerAll_unchecked hdebug] at hall
  obtain rfl := Option.some.inj hall
  obtain ⟨links, hchain, -, -⟩ := hwf.acyclic
  exact ((isChain_pushAll_iff _ links).mp hchain).1

/-- **When the registry is well formed**, after any calls of init functions and any
registrations, in any order: if the build checks for the endpoint first, or no place of
the source registers twice. -/
theorem wellFormedAfter_iff (config : Config) (calls : List Call) :
    WellFormedAfter handlers config calls ↔
      config.debug = true ∨ (calls.flatMap (Call.sites config)).Nodup := by
  constructor
  · intro h
    cases hdebug : config.debug with
    | true => exact .inl rfl
    | false => exact .inr (nodup_of_wellFormedAfter handlers hdebug h)
  · intro h
    cases hdebug : config.debug with
    | true =>
      obtain ⟨r, links, hall, hlinked, -, hmem⟩ := registerAll_checked hdebug
        (calls.flatMap (Call.sites config)) linked_empty (Nat.le_refl _)
      exact ⟨_, r, hall, hlinked.wellFormed handlers hmem⟩
    | false =>
      have hnodup := h.resolve_left (by rw [hdebug]; exact Bool.false_ne_true)
      refine ⟨0, _, registerAll_unchecked hdebug 0 _ _, ?_⟩
      exact (linked_pushAll hnodup).wellFormed handlers fun s hs => List.mem_reverse.mpr hs

/-- A Plug+ with an S0 meter, as it is configured for use. -/
def plugPlus : Config where
  debug := false
  enabled s := s ∈ [.relay, .power, .energyTotal, .energy, .smUploadControl, .smUploadReceiver,
    .smUploadAcknack, .smReset, .sysbutton]

/-- Setting the calibration of the meter initialises the module once more. -/
theorem recalibration_not_wellFormed :
    ¬ WellFormedAfter (σ := Unit) ⟨fun _ value _ => (.success, value), fun _ _ s => (.success, s)⟩
      plugPlus [.init .buttonHandlers, .init .relay, .init .metering, .init .smUpload,
        .init .metering] := by
  intro h
  exact absurd (nodup_of_wellFormedAfter _ rfl h) (by decide)

end LinkedRegistry

end Hexabus.Firmware
