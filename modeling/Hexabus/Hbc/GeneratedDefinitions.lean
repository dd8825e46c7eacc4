import Hexabus.Hbc.Definitions
import Hexabus.Hbc.ReadBlocks

/-!
# Generated definitions

The compiler reads the definitions of endpoints and devices that `hexinfo` writes, and its table
builder takes all of them, exactly if no two names are the same once their special characters are
taken off and every address is written with hexadecimal digits and colons alone.
-/

namespace Hexabus.Hbc.Definitions

open Lib.Expectation Parser Grammar Host.Hexinfo

section
variable {r : Identifier → Identifier} {g : Text}

/-! ## Gaps -/

theorem gap_space : Gap [' '] := .blank rfl .nil

theorem gap_lineTab : Gap "\n\t".toList := .blank rfl (.blank rfl .nil)

theorem gap_lineLine : Gap "\n\n".toList := .blank rfl (.blank rfl .nil)

/-- `# Auto-generated by hexinfo.` -/
theorem gap_header (hg : Gap g) : Gap (g ++ "# Auto-generated by hexinfo.\n".toList) :=
  hg.append (@Gap.comment " Auto-generated by hexinfo.".toList '\n' [] (by decide) rfl .nil)

/-! ## Numbers -/

theorem decimal_printUint (n : Nat) : decimal (printUint n) = n := by
  simp [decimal, printUint]

theorem spells_uint (hg : Gap g) (n : UInt32) :
    Spells (spelled r) Written.uint (g ++ printUint n.toNat) (· = n) := by
  refine (spells_gap hg).bind fun _ _ _ => ⟨_, n, ⟨printUint n.toNat, ?_, ?_, ?_, ?_, rfl⟩,
    textOf_singleton _ _, rfl⟩
  · exact Nat.toDigits_ne_nil
  · exact List.all_eq_true.mpr fun _ h => isDigit_of_mem_printUint h
  · rw [decimal_printUint]
    exact n.toNat_lt
  · rw [decimal_printUint, UInt32.ofNat_toNat]

/-- The numbers behind the first one. -/
theorem spells_moreIds (ids : List UInt32) :
    Spells (spelled r) (Written.more Written.uint)
      ((if ids.isEmpty then [] else ", ".toList) ++ writeIds ids) (· = ids) := by
  induction ids with
  | nil => exact spells_star_nil rfl
  | cons id ids ih =>
    have hitem : Spells (spelled r) (do Written.word ","; Written.uint)
        ([] ++ ",".toList ++ ([' '] ++ printUint id.toNat)) (· = id) :=
      (spells_uint gap_space id).word ",".toList .nil
    have h : Spells (spelled r) (Written.more Written.uint)
        ([] ++ ",".toList ++ ([' '] ++ printUint id.toNat) ++
          ((if ids.isEmpty then [] else ", ".toList) ++ writeIds ids)) (· = id :: ids) :=
      hitem.star_cons ih fun _ _ hid hids => congrArg₂ List.cons hid hids
    simpa [writeIds] using h

theorem spells_ids (hg : Gap g) {ids : List UInt32} (hne : ids ≠ []) :
    Spells (spelled r) Written.eidList (g ++ writeIds ids) (· = ids) := by
  obtain ⟨id, ids, rfl⟩ := List.exists_cons_of_ne_nil hne
  have h : Spells (spelled r) Written.eidList (g ++ printUint id.toNat ++
      ((if ids.isEmpty then [] else ", ".toList) ++ writeIds ids ++ [])) (· = id :: ids) :=
    (spells_uint hg id).bind fun _ hid => (spells_moreIds ids).bind fun _ hids =>
      spells_pure (congrArg₂ List.cons hid hids)
  simpa [writeIds] using h

/-! ## Addresses -/

theorem spells_addressChar {g : Text} {c : Char} (hg : Gap g) (hc : addressChar c = true) :
    Spells (spelled r) Written.addressChar (g ++ [c]) (· = c) :=
  (spells_gap hg).bind fun _ _ _ => ⟨[.word [c]], c, ⟨hc, rfl⟩, textOf_singleton _ _, rfl⟩

/-- The text of an address. -/
theorem spells_ipv6Address {g w : Text} (hg : Gap g) (hne : w ≠ [])
    (hw : w.all addressChar = true) :
    Spells (spelled r) Written.ipv6Address (g ++ w) (· = w) := by
  have hstar : ∀ cs : Text, cs.all addressChar = true →
      Spells (spelled r) (Language.Star Written.addressChar) cs (· = cs) := by
    intro cs hcs
    induction cs with
    | nil => exact spells_star_nil rfl
    | cons c cs ih =>
      rw [List.all_cons, Bool.and_eq_true] at hcs
      exact (spells_addressChar .nil hcs.1).star_cons (ih hcs.2)
        fun _ _ hc hcs => congrArg₂ List.cons hc hcs
  obtain ⟨c, cs, rfl⟩ := List.exists_cons_of_ne_nil hne
  rw [List.all_cons, Bool.and_eq_true] at hw
  have h : Spells (spelled r) Written.ipv6Address (g ++ [c] ++ (cs ++ [])) (· = c :: cs) :=
    (spells_addressChar hg hw.1).bind fun _ hc => (hstar cs hw.2).bind fun _ hcs =>
      spells_pure (congrArg₂ List.cons hc hcs)
  rwa [List.append_nil, List.append_assoc] at h

/-- A character that stands in no address, and is not skipped. -/
theorem fails_addressChar {g s : Text} {c : Char} (hg : Gap g) (hc : addressChar c = false)
    (hsolid : c ∉ gapChars) : Fails (do skipped; oneOf addressChar) (g ++ c :: s) := by
  refine fails_skipped hg (solid_cons hsolid s) fun n => ?_
  rw [oneOf]
  exact if_neg (by simp [hc])

/-- **A text with such a character** is not taken for an address. -/
theorem errors_aliasIp {w s g h : Text} {c : Char} (hw : w.all addressChar = true)
    (hc : addressChar c = false) (hsolid : c ∉ gapChars) (hsemicolon : c ≠ ';') (hg : Gap g)
    (hh : Gap h) : Errors aliasIp (g ++ "ip".toList ++ (h ++ w ++ c :: s)) := by
  refine errors_lit (by decide) hg ?_
  by_cases hne : w = []
  · subst hne
    rw [List.append_nil]
    exact errors_bind (errors_expect (fails_bind (fails_addressChar hh hc hsolid)))
  · refine (reads_ipv6Address (r := id)).expect.errors (spells_ipv6Address hh hne hw)
      (fails_addressChar .nil hc hsolid) fun _ => errors_bind (errors_expect ?_)
    refine fails_isPrefixOf .nil (solid_cons hsolid s) ?_
    show (';' == c && [].isPrefixOf s) = false
    rw [beq_false_of_ne hsemicolon.symm, Bool.false_and]

end

section
variable {g : Text} {floatValue : Text → UInt32}

/-! ## Devices -/

theorem spells_name (name : List UInt8) :
    Spells (spelled id) Written.name (chars (removeSpecialchars name)) (· = definedName name) :=
  fun _ => ⟨[.name (definedName name)], _, rfl, textOf_singleton _ _, rfl⟩

theorem spells_aliasIp {text : Text} (hne : text ≠ []) (htext : text.all addressChar = true) :
    Spells (spelled id) Written.aliasIp ("\n\tip ".toList ++ (text ++ [';'])) (· = .ip text) := by
  have h : Spells (spelled id) Written.aliasIp
      ("\n\t".toList ++ "ip".toList ++ ([' '] ++ text ++ ([] ++ ";".toList ++ [])))
      (· = .ip text) :=
    .word "ip".toList gap_lineTab ((spells_ipv6Address gap_space hne htext).bind fun _ hread =>
      .word ";".toList .nil (spells_pure (congrArg _ hread)))
  simpa using h

theorem spells_aliasEids (ids : List UInt32) :
    Spells (spelled id) Written.aliasEids
      ("\n\teids \x7b ".toList ++ (writeIds ids ++ " \x7d".toList)) (· = .eids ids) := by
  have hbrace : Gap "  ".toList := .blank rfl gap_space
  by_cases hne : ids = []
  · subst hne
    have h : Spells (spelled id) Written.aliasEids
        ("\n\t".toList ++ "eids".toList ++ ([' '] ++ "\x7b".toList ++ ([] ++
          ("  ".toList ++ "\x7d".toList ++ [])))) (· = .eids []) :=
      .word "eids".toList gap_lineTab (.word "\x7b".toList gap_space
        ((spells_none (P := (· = none)) rfl).bind fun _ hread =>
          .word "\x7d".toList hbrace (spells_pure (by rw [hread]; rfl))))
    simpa [writeIds] using h
  · have h : Spells (spelled id) Written.aliasEids
        ("\n\t".toList ++ "eids".toList ++ ([' '] ++ "\x7b".toList ++ ([' '] ++ writeIds ids ++
          ([' '] ++ "\x7d".toList ++ [])))) (· = .eids ids) :=
      .word "eids".toList gap_lineTab (.word "\x7b".toList gap_space
        (((spells_ids gap_space hne).some (Q := (· = some ids))
          fun _ hread => congrArg some hread).bind fun _ hread =>
          .word "\x7d".toList gap_space (spells_pure (by rw [hread]; rfl))))
    simpa using h

theorem spells_aliasRule (name : List UInt8) {text : Text} {cmds : List AliasCmdDoc}
    (hcmds : Spells (spelled id) (Language.Star Written.aliasCmd) text (· = cmds)) (hg : Gap g) :
    Spells (spelled id) Written.aliasRule
      (g ++ "device ".toList ++ (chars (removeSpecialchars name) ++ (" \x7b".toList ++
        (text ++ "\n\x7d".toList))))
      fun doc => doc.deviceName = definedName name ∧ doc.cmds = cmds := by
  have h : Spells (spelled id) Written.aliasRule
      (g ++ "device".toList ++ ([' '] ++ (chars (removeSpecialchars name) ++ ([' '] ++
        "\x7b".toList ++ (text ++ (['\n'] ++ "\x7d".toList ++ []))))))
      fun doc => doc.deviceName = definedName name ∧ doc.cmds = cmds :=
    .word "device".toList hg ((spells_linePos gap_space).bind fun _ _ =>
      (spells_name name).bind fun _ hname => .word "\x7b".toList gap_space
        (hcmds.bind fun _ hread => .word "\x7d".toList (.blank rfl .nil)
          (spells_pure ⟨hname, hread⟩)))
  simpa using h

/-- What a block says of a device. -/
def DefinesDevice (addressText : Address → Text) (dev : DeviceDescriptor) (block : ParsedBlock) :
    Prop :=
  ∃ doc : AliasDoc, block = .aliasDoc doc ∧ doc.deviceName = definedName dev.name ∧
    doc.cmds = [.ip (addressText dev.ipv6Address), .eids dev.endpointIds]

/-- The definition of a device, up to the blank line behind it. -/
theorem writeDevDesc_eq (addressText : Address → Text) (dev : DeviceDescriptor) :
    writeDevDesc addressText dev = "# Auto-generated by hexinfo.\n".toList ++ ("device ".toList ++
      (chars (removeSpecialchars dev.name) ++ (" \x7b".toList ++
        ("\n\tip ".toList ++ (addressText dev.ipv6Address ++ [';']) ++
          ("\n\teids \x7b ".toList ++ (writeIds dev.endpointIds ++ " \x7d".toList) ++ []) ++
          "\n\x7d".toList)))) ++ "\n\n".toList := by
  unfold writeDevDesc
  generalize chars (removeSpecialchars dev.name) = name
  generalize addressText dev.ipv6Address = text
  generalize writeIds dev.endpointIds = ids
  simp

/-- **The definition of a device.** -/
theorem spells_devDesc {addressText : Address → Text} {dev : DeviceDescriptor}
    (hne : addressText dev.ipv6Address ≠ [])
    (haddress : (addressText dev.ipv6Address).all addressChar = true) :
    ∃ body tail, writeDevDesc addressText dev = body ++ tail ∧ Gap tail ∧ ∀ g, Gap g →
      Spells (spelled id) (Written.block floatValue (Allowed id)) (g ++ body) (DefinesDevice addressText dev) := by
  have hcmds : Spells (spelled id) (Language.Star Written.aliasCmd)
      ("\n\tip ".toList ++ (addressText dev.ipv6Address ++ [';']) ++
        ("\n\teids \x7b ".toList ++ (writeIds dev.endpointIds ++ " \x7d".toList) ++ []))
      (· = [.ip (addressText dev.ipv6Address), .eids dev.endpointIds]) :=
    (spells_aliasIp hne haddress).left.star_cons
      ((spells_aliasEids dev.endpointIds).right.star_cons (spells_star_nil (P := (· = [])) rfl)
        (R := (· = [.eids dev.endpointIds])) fun _ _ h hs => congrArg₂ List.cons h hs)
      fun _ _ h hs => congrArg₂ List.cons h hs
  refine ⟨_, _, writeDevDesc_eq addressText dev, gap_lineLine, fun g hg => ?_⟩
  have h := (spells_aliasRule dev.name hcmds (gap_header hg)).bind
    (Q := DefinesDevice addressText dev) fun doc hdoc => spells_pure ⟨doc, rfl, hdoc⟩
  rw [List.append_nil, List.append_assoc, List.append_assoc] at h
  exact h.left.right.right

/-! ## Endpoints -/

theorem spells_epEid (eid : UInt32) :
    Spells (spelled id) Written.epEid ("\n\teid ".toList ++ (printUint eid.toNat ++ [';']))
      (· = .eid eid) := by
  have h : Spells (spelled id) Written.epEid
      ("\n\t".toList ++ "eid".toList ++ ([' '] ++ printUint eid.toNat ++
        ([] ++ ";".toList ++ []))) (· = .eid eid) :=
    .word "eid".toList gap_lineTab ((spells_uint gap_space eid).bind fun _ hread =>
      .word ";".toList .nil (spells_pure (congrArg _ hread)))
  simpa using h

/-- A word that stands for a value. -/
theorem spells_token {α : Type} (w : Text) (a : α) (hg : Gap g) :
    Spells (spelled id) (Language.word w >>= fun _ => pure a) (g ++ w) (· = a) := by
  have h : Spells (spelled id) (Language.word w >>= fun _ => pure a) (g ++ w ++ []) (· = a) :=
    .word w hg (spells_pure rfl)
  rwa [List.append_nil] at h

theorem spells_datatype {datatype : UInt8} {dtype : Dtype}
    (h : writtenDtype datatype = some dtype) (hg : Gap g) :
    Spells (spelled id) Written.datatype (g ++ dtype.word) (· = dtype) := by
  cases dtype with
  | undefined =>
    unfold writtenDtype at h
    split_ifs at h <;> cases h
  | bool => exact (spells_token _ _ hg).left
  | uint8 => exact (spells_token _ _ hg).left.right
  | uint32 => exact (spells_token _ _ hg).left.right.right
  | float => exact (spells_token _ _ hg).right.right.right

theorem spells_epDatatype {datatype : UInt8} {dtype : Dtype}
    (h : writtenDtype datatype = some dtype) :
    Spells (spelled id) Written.epDatatype ("\n\tdatatype ".toList ++ (dtype.word ++ [';']))
      (· = .datatype dtype) := by
  have h : Spells (spelled id) Written.epDatatype
      ("\n\t".toList ++ "datatype".toList ++ ([' '] ++ dtype.word ++ ([] ++ ";".toList ++ [])))
      (· = .datatype dtype) :=
    .word "datatype".toList gap_lineTab ((spells_datatype h gap_space).bind fun _ hread =>
      .word ";".toList .nil (spells_pure (congrArg _ hread)))
  simpa using h

theorem spells_epAccess :
    Spells (spelled id) Written.epAccess "\n\taccess \x7b broadcast, write \x7d".toList
      (· = .access [.broadcast, .write]) := by
  have hwrite : Spells (spelled id) (do Written.word ","; Written.accessLv)
      ([] ++ ",".toList ++ ([' '] ++ "write".toList)) (· = .write) :=
    .word ",".toList .nil (spells_token _ _ gap_space).left.right
  have hmore : Spells (spelled id) (Written.more Written.accessLv)
      ([] ++ ",".toList ++ ([' '] ++ "write".toList) ++ []) (· = [.write]) :=
    hwrite.star_cons (spells_star_nil (P := (· = [])) rfl) fun _ _ h hs => congrArg₂ List.cons h hs
  have h : Spells (spelled id) Written.epAccess
      ("\n\t".toList ++ "access".toList ++ ([' '] ++ "\x7b".toList ++
        ([' '] ++ "broadcast".toList ++ ([] ++ ",".toList ++ ([' '] ++ "write".toList) ++ [] ++
          ([' '] ++ "\x7d".toList ++ []))))) (· = .access [.broadcast, .write]) :=
    .word "access".toList gap_lineTab (.word "\x7b".toList gap_space
      ((spells_token _ _ gap_space).right.right.bind fun _ hfirst => hmore.bind fun _ hread =>
        .word "\x7d".toList gap_space (spells_pure (by rw [hfirst, hread]))))
  simpa using h

theorem spells_endpoint (name : List UInt8) {text : Text} {cmds : List EndpointCmdDoc}
    (hcmds : Spells (spelled id) (Language.Star Written.endpointCmd) text (· = cmds))
    (hg : Gap g) :
    Spells (spelled id) Written.endpoint
      (g ++ "endpoint ".toList ++ (chars (removeSpecialchars name) ++ (" \x7b".toList ++
        (text ++ " #TODO auto-generated template. Please edit!\n\x7d".toList))))
      fun doc => doc.name = definedName name ∧ doc.cmds = cmds := by
  have hedit : Gap " #TODO auto-generated template. Please edit!\n".toList :=
    .blank rfl (@Gap.comment "TODO auto-generated template. Please edit!".toList '\n' []
      (by decide) rfl .nil)
  have h : Spells (spelled id) Written.endpoint
      (g ++ "endpoint".toList ++ ([' '] ++ (chars (removeSpecialchars name) ++ ([' '] ++
        "\x7b".toList ++ (text ++ (" #TODO auto-generated template. Please edit!\n".toList ++
          "\x7d".toList ++ []))))))
      fun doc => doc.name = definedName name ∧ doc.cmds = cmds :=
    .word "endpoint".toList hg ((spells_linePos gap_space).bind fun _ _ =>
      (spells_name name).bind fun _ hname => .word "\x7b".toList gap_space
        (hcmds.bind fun _ hread => .word "\x7d".toList hedit (spells_pure ⟨hname, hread⟩)))
  simpa using h

/-- What a block says of an endpoint. -/
def DefinesEndpoint (ep : EndpointDescriptor) (block : ParsedBlock) : Prop :=
  ∃ (doc : EndpointDoc) (dtype : Dtype), block = .endpointDoc doc ∧
    writtenDtype ep.datatype = some dtype ∧ doc.name = definedName ep.name ∧
    doc.cmds = [.eid ep.eid, .datatype dtype, .access [.broadcast, .write]]

/-- The definition of an endpoint, up to the blank line behind it. -/
theorem writeEpDesc_eq {ep : EndpointDescriptor} {dtype : Dtype}
    (h : writtenDtype ep.datatype = some dtype) :
    writeEpDesc ep = "# Auto-generated by hexinfo.\n".toList ++ ("endpoint ".toList ++
      (chars (removeSpecialchars ep.name) ++ (" \x7b".toList ++
        ("\n\teid ".toList ++ (printUint ep.eid.toNat ++ [';']) ++
          ("\n\tdatatype ".toList ++ (dtype.word ++ [';']) ++
            ("\n\taccess \x7b broadcast, write \x7d".toList ++ [])) ++
          " #TODO auto-generated template. Please edit!\n\x7d".toList)))) ++ "\n\n".toList := by
  unfold writeEpDesc
  rw [h]
  dsimp only
  generalize chars (removeSpecialchars ep.name) = name
  generalize printUint ep.eid.toNat = eid
  generalize dtype.word = word
  simp

/-- **The definition of an endpoint.** -/
theorem spells_epDesc {ep : EndpointDescriptor} {dtype : Dtype}
    (h : writtenDtype ep.datatype = some dtype) :
    ∃ body tail, writeEpDesc ep = body ++ tail ∧ Gap tail ∧ ∀ g, Gap g →
      Spells (spelled id) (Written.block floatValue (Allowed id)) (g ++ body) (DefinesEndpoint ep) := by
  have hcmds : Spells (spelled id) (Language.Star Written.endpointCmd)
      ("\n\teid ".toList ++ (printUint ep.eid.toNat ++ [';']) ++
        ("\n\tdatatype ".toList ++ (dtype.word ++ [';']) ++
          ("\n\taccess \x7b broadcast, write \x7d".toList ++ [])))
      (· = [.eid ep.eid, .datatype dtype, .access [.broadcast, .write]]) :=
    (spells_epEid ep.eid).left.star_cons
      ((spells_epDatatype h).left.right.star_cons
        (spells_epAccess.right.right.star_cons (spells_star_nil (P := (· = [])) rfl)
          (R := (· = [.access [.broadcast, .write]])) fun _ _ h hs => congrArg₂ List.cons h hs)
        (R := (· = [.datatype dtype, .access [.broadcast, .write]]))
        fun _ _ h hs => congrArg₂ List.cons h hs)
      fun _ _ h hs => congrArg₂ List.cons h hs
  refine ⟨_, _, writeEpDesc_eq h, gap_lineLine, fun g hg => ?_⟩
  have hblock := (spells_endpoint ep.name hcmds (gap_header hg)).bind
    (Q := DefinesEndpoint ep) fun doc hdoc => spells_pure ⟨doc, dtype, rfl, h, hdoc⟩
  rw [List.append_nil, List.append_assoc, List.append_assoc] at hblock
  exact hblock.left.right

end

end Hexabus.Hbc.Definitions
