import Hexabus.Host.JsonStrings

/-!
# The listing, token by token

What a reader of JSON makes of each piece of the listing: it is refused, or it is read as some
tokens. The pieces together are the tokens of a value if every endpoint is in the registry.
-/

namespace Hexabus.Host.Hexinfo

open Lib.Json

/-! ## Fields -/

/-- A field whose value is a string, up to the next line. -/
theorem reads_string (text : List UInt8) (new : List Token)
    (h : ∀ ts, Reader.run ⟨ts, .between⟩ text =
      some ⟨new.reverse ++ ts, .string .boundary []⟩) (str : List UInt8) :
    Reads (text ++ json str ++ closing) (Readable str)
      (new ++ [.string (denoted str), .valueSeparator]) := by
  have hrun : ∀ ts, Reader.run ⟨ts, .between⟩ (text ++ json str ++ closing) =
      (denotedFrom .boundary str).map fun elements =>
        ⟨.valueSeparator :: .string (octets elements) :: (new.reverse ++ ts), .between⟩ := by
    intro ts
    rw [List.append_assoc, Reader.run_append, h, Option.bind_some, run_denotedFrom]
    rfl
  refine ⟨fun hok ts => ?_, fun hnot ts => ?_⟩
  · obtain ⟨elements, heq⟩ := Option.isSome_iff_exists.mp hok
    rw [hrun, denoted, heq, Option.map_some, Option.getD_some, List.reverse_append,
      List.append_assoc]
    rfl
  · rw [hrun, Option.eq_none_iff_forall_not_mem.mpr fun elements helements =>
      hnot (Option.isSome_iff_exists.mpr ⟨elements, helements⟩)]
    rfl

/-- A field whose value is a number, up to the next line. -/
theorem reads_number (text : List UInt8) {tail : List UInt8} (new : List Token)
    {last : List Token}
    (h : ∀ ts, Reader.run ⟨ts, .between⟩ text = some ⟨new.reverse ++ ts, .between⟩) (n : Nat)
    (htail : ∀ ts bytes, wordToken bytes.reverse = some (.number (decimal n)) →
      Reader.run ⟨ts, .word bytes⟩ tail =
        some ⟨last.reverse ++ .number (decimal n) :: ts, .between⟩) :
    Reads (text ++ decimal n ++ tail) True (new ++ .number (decimal n) :: last) := by
  refine Reads.of_run fun ts => ?_
  have hword : wordToken (decimal n).reverse.reverse = some (.number (decimal n)) := by
    rw [List.reverse_reverse, wordToken_decimal]
  rw [List.append_assoc, Reader.run_append, h, Option.bind_some, Reader.run_append,
    Reader.run_decimal, Option.bind_some, htail _ _ hword, List.reverse_append,
    List.reverse_cons, List.append_assoc, List.append_assoc]
  rfl

/-- After a number, a comma and the end of the line. -/
theorem run_commaNewline (ts : List Token) (bytes : List UInt8) {token : Token}
    (h : wordToken bytes.reverse = some token) :
    Reader.run ⟨ts, .word bytes⟩ (ascii ",\n") =
      some ⟨[Token.valueSeparator].reverse ++ token :: ts, .between⟩ := by
  have hclosed : Reader.closed ⟨ts, .word bytes⟩ = some (token :: ts) := by
    show (wordToken bytes.reverse).map _ = _
    rw [h]
    rfl
  show ((Reader.outside ⟨ts, .word bytes⟩ 0x2C).bind _) = _
  unfold Reader.outside
  rw [hclosed]
  rfl

/-- After a number, the end of the line. -/
theorem run_newline (ts : List Token) (bytes : List UInt8) {token : Token}
    (h : wordToken bytes.reverse = some token) :
    Reader.run ⟨ts, .word bytes⟩ (ascii "\n") =
      some ⟨([] : List Token).reverse ++ token :: ts, .between⟩ := by
  have hclosed : Reader.closed ⟨ts, .word bytes⟩ = some (token :: ts) := by
    show (wordToken bytes.reverse).map _ = _
    rw [h]
    rfl
  show ((Reader.outside ⟨ts, .word bytes⟩ 0x0A).bind _) = _
  unfold Reader.outside
  rw [hclosed]
  rfl

/-! ## Endpoints -/

/-- What the registry says of an endpoint, as members. -/
def entryMembers (entry : RegistryEntry) : List (List UInt8 × Lib.Json.Value) :=
  [(ascii "unit", .string (denoted (entry.unit.getD []))),
    (ascii "description", .string (denoted entry.description)),
    (ascii "function", .string entry.function.text),
    (ascii "type", .number (decimal entry.type.code.toNat))]

/-- The strings of an entry are the texts of strings. -/
structure RegistryEntry.Readable (entry : RegistryEntry) : Prop where
  unit : Hexinfo.Readable (entry.unit.getD [])
  description : Hexinfo.Readable entry.description

/-- The tokens of an entry, after the separator before it. -/
def entryTokens (entry : RegistryEntry) : List Token :=
  [.string (ascii "unit"), .nameSeparator, .string (denoted (entry.unit.getD [])), .valueSeparator,
    .string (ascii "description"), .nameSeparator, .string (denoted entry.description),
    .valueSeparator, .string (ascii "function"), .nameSeparator, .string entry.function.text,
    .valueSeparator, .string (ascii "type"), .nameSeparator,
    .number (decimal entry.type.code.toNat)]

theorem reads_function (function : Function) :
    Reads (ascii "\t\t\t\"function\": \"" ++ function.text ++ ascii "\",\n") True
      [.string (ascii "function"), .nameSeparator, .string function.text, .valueSeparator] := by
  refine Reads.of_run fun ts => ?_
  cases function <;> rfl

theorem reads_entry (entry : RegistryEntry) :
    Reads (writeEntry entry) entry.Readable (entryTokens entry) := by
  have hunit := reads_string (ascii "\t\t\t\"unit\": \"")
    [.string (ascii "unit"), .nameSeparator] (fun _ => rfl) (entry.unit.getD [])
  have hdescription := reads_string (ascii "\t\t\t\"description\": \"")
    [.string (ascii "description"), .nameSeparator] (fun _ => rfl) entry.description
  have htype := reads_number (ascii "\t\t\t\"type\": ")
    [.string (ascii "type"), .nameSeparator] (fun _ => rfl) entry.type.code.toNat
    fun ts bytes h => run_newline ts bytes h
  refine (((hunit.append hdescription).append (reads_function entry.function)).append htype).congr ?_
  constructor
  · rintro ⟨⟨⟨hu, hd⟩, -⟩, -⟩
    exact ⟨hu, hd⟩
  · rintro ⟨hu, hd⟩
    exact ⟨⟨⟨hu, hd⟩, trivial⟩, trivial⟩

variable (epRegistry : EndpointRegistry)

/-- The strings of an endpoint that is in the registry are the texts of strings. -/
def EndpointReadable (eid : UInt32) : Prop := ∀ entry, epRegistry eid = some entry → entry.Readable

def endpointValue (eid : UInt32) : Lib.Json.Value :=
  .object ((ascii "eid", .number (decimal eid.toNat)) ::
    ((epRegistry eid).map entryMembers).getD [])

/-- The tokens of an endpoint. Without an entry the object ends after a separator. -/
def endpointTokens (eid : UInt32) : List Token :=
  [.beginObject, .string (ascii "eid"), .nameSeparator, .number (decimal eid.toNat),
    .valueSeparator] ++ ((epRegistry eid).map entryTokens).getD [] ++ [.endObject]

theorem endpointTokens_eq {eid : UInt32} (h : (epRegistry eid).isSome) :
    endpointTokens epRegistry eid = (endpointValue epRegistry eid).tokens := by
  obtain ⟨entry, heq⟩ := Option.isSome_iff_exists.mp h
  unfold endpointTokens endpointValue
  rw [heq]
  rfl

/-- An endpoint that is not in the registry. -/
theorem not_isChain_endpointTokens {eid : UInt32} (h : epRegistry eid = none) :
    ¬ (endpointTokens epRegistry eid).IsChain Follows := by
  intro hchain
  have hinfix : [.valueSeparator, .endObject] <:+: endpointTokens epRegistry eid := by
    refine ⟨[.beginObject, .string (ascii "eid"), .nameSeparator, .number (decimal eid.toNat)],
      [], ?_⟩
    unfold endpointTokens
    rw [h]
    rfl
  exact ((List.isChain_cons_cons.mp ( List.IsChain.infix hchain hinfix)).1 rfl).2 rfl

theorem reads_endpoint (eid : UInt32) :
    Reads (writeEndpoint epRegistry eid) (EndpointReadable epRegistry eid)
      (endpointTokens epRegistry eid) := by
  have hbegin : Reads (ascii "\t\t\x7b\n") True [.beginObject] := Reads.of_run fun _ => rfl
  have hend : Reads (ascii "\t\t\x7d") True [.endObject] := Reads.of_run fun _ => rfl
  have heid := reads_number (ascii "\t\t\t\"eid\": ")
    [.string (ascii "eid"), .nameSeparator] (fun _ => rfl) eid.toNat
    fun ts bytes h => run_commaNewline ts bytes h
  unfold writeEndpoint endpointTokens EndpointReadable
  cases epRegistry eid with
  | none =>
    have hnone : Reads [] True [] := Reads.of_run fun _ => rfl
    refine (((hbegin.append heid).append hnone).append hend).congr ?_
    constructor
    · intro _ _ heq
      cases heq
    · intro _
      exact ⟨⟨⟨trivial, trivial⟩, trivial⟩, trivial⟩
  | some entry =>
    refine (((hbegin.append heid).append (reads_entry entry)).append hend).congr ?_
    constructor
    · rintro ⟨⟨-, hentry⟩, -⟩ _ heq
      cases heq
      exact hentry
    · intro h
      exact ⟨⟨⟨trivial, trivial⟩, h entry rfl⟩, trivial⟩

/-! ## Devices -/

/-- The loop over the endpoints, from one of them on, and the end of the array. -/
theorem reads_moreEndpoints {eid : UInt32} {eids : List UInt32}
    (h : ∀ e ∈ eid :: eids, e % 32 ≠ 0) :
    Reads (writeEndpoints epRegistry (eid :: eids) ++ ascii "\t]\n")
      (∀ e ∈ eid :: eids, EndpointReadable epRegistry e)
      (endpointTokens epRegistry eid ++ moreElements (eids.map (endpointTokens epRegistry))) := by
  induction eids generalizing eid with
  | nil =>
    have hend : Reads (ascii "\n" ++ ascii "\t]\n") True [.endArray] := Reads.of_run fun _ => rfl
    have htext : writeEndpoints epRegistry [eid] ++ ascii "\t]\n" =
        writeEndpoint epRegistry eid ++ (ascii "\n" ++ ascii "\t]\n") := by
      unfold writeEndpoints
      rw [if_neg (h eid List.mem_cons_self), List.isEmpty_nil, if_pos rfl]
      unfold writeEndpoints
      rw [List.append_nil, List.append_assoc]
    rw [htext]
    refine ((reads_endpoint epRegistry eid).append hend).congr ?_
    rw [List.forall_mem_singleton]
    exact and_iff_left trivial
  | cons eid' eids ih =>
    have hrest : ∀ e ∈ eid' :: eids, e % 32 ≠ 0 := fun e he => h e (List.mem_cons_of_mem eid he)
    have hcomma : Reads (ascii ",\n") True [.valueSeparator] := Reads.of_run fun _ => rfl
    have htext : writeEndpoints epRegistry (eid :: eid' :: eids) ++ ascii "\t]\n" =
        writeEndpoint epRegistry eid ++ (ascii ",\n" ++
          (writeEndpoints epRegistry (eid' :: eids) ++ ascii "\t]\n")) := by
      rw [writeEndpoints.eq_def]
      simp only [if_neg (h eid List.mem_cons_self), List.isEmpty_cons, List.append_assoc]
      rfl
    rw [htext]
    refine ((reads_endpoint epRegistry eid).append (hcomma.append (ih hrest))).congr ?_
    exact (and_congr_right fun _ => and_iff_right trivial).trans List.forall_mem_cons.symm

/-- The loop over the endpoints and the end of the array. -/
theorem reads_endpoints {eids : List UInt32} (h : ∀ eid ∈ eids, eid % 32 ≠ 0) :
    Reads (writeEndpoints epRegistry eids ++ ascii "\t]\n")
      (∀ eid ∈ eids, EndpointReadable epRegistry eid)
      (arrayElements (eids.map (endpointTokens epRegistry))) := by
  cases eids with
  | nil =>
    have hend : Reads (ascii "\t]\n") True [.endArray] := Reads.of_run fun _ => rfl
    exact hend.congr (iff_of_true trivial nofun)
  | cons eid eids => exact reads_moreEndpoints epRegistry h

variable (addressText : Address → List UInt8)

/-- The text of an address has none of the characters that matter in a string. -/
def IsAddressText : Prop :=
  ∀ address, ∀ c ∈ addressText address, 0x20 ≤ c ∧ c < 0x80 ∧ c ≠ 0x22 ∧ c ≠ 0x5C

def deviceValue (dev : DeviceDescriptor) : Lib.Json.Value :=
  .object [(ascii "name", .string (denoted dev.name)),
    (ascii "ip", .string (addressText dev.ipv6Address)),
    (ascii "endpoints", .array (dev.endpointIds.map (endpointValue epRegistry)))]

def deviceTokens (dev : DeviceDescriptor) : List Token :=
  [.beginObject, .string (ascii "name"), .nameSeparator, .string (denoted dev.name),
    .valueSeparator, .string (ascii "ip"), .nameSeparator,
    .string (addressText dev.ipv6Address), .valueSeparator, .string (ascii "endpoints"),
    .nameSeparator, .beginArray] ++
    (arrayElements (dev.endpointIds.map (endpointTokens epRegistry)) ++ [.endObject])

/-- The strings of a device are the texts of strings. -/
structure DeviceReadable (dev : DeviceDescriptor) : Prop where
  name : Readable dev.name
  endpoints : ∀ eid ∈ dev.endpointIds, EndpointReadable epRegistry eid

theorem deviceTokens_eq {dev : DeviceDescriptor}
    (h : ∀ eid ∈ dev.endpointIds, (epRegistry eid).isSome) :
    deviceTokens epRegistry addressText dev = (deviceValue epRegistry addressText dev).tokens := by
  have hmap : dev.endpointIds.map (endpointTokens epRegistry) =
      (dev.endpointIds.map (endpointValue epRegistry)).map Lib.Json.Value.tokens := by
    rw [List.map_map]
    exact List.map_congr_left fun eid heid => endpointTokens_eq epRegistry (h eid heid)
  unfold deviceTokens deviceValue
  rw [hmap]
  simp only [Lib.Json.Value.tokens, memberTokens, memberToken, Lib.Json.Value.tokens_array]
  simp

variable {addressText}

/-- Nothing is escaped in an address. -/
theorem json_addressText (htext : IsAddressText addressText) (address : Address) :
    json (addressText address) = addressText address := by
  have hplain : ∀ str : List UInt8, (∀ c ∈ str, 0x20 ≤ c ∧ c ≠ 0x22) → json str = str := by
    intro str
    induction str with
    | nil => exact fun _ => rfl
    | cons c str ih =>
      intro h
      obtain ⟨hcontrol, hquote⟩ := h c List.mem_cons_self
      have hescaped : ¬ IsEscaped c := by
        rintro (rfl | rfl | rfl | rfl)
        · exact hquote rfl
        all_goals exact absurd hcontrol (by decide)
      have hv : c ≠ 0x0B := by
        rintro rfl
        exact absurd hcontrol (by decide)
      rw [json_cons, jsonCharacter_plain hescaped hv, ih fun d hd => h d (List.mem_cons_of_mem c hd)]
      rfl
  exact hplain _ fun c hc => ⟨(htext address c hc).1, (htext address c hc).2.2.1⟩

theorem plain_addressText (htext : IsAddressText addressText) (address : Address) :
    Plain (addressText address) := by
  refine ⟨?_, fun c hc => ⟨(htext address c hc).2.2.2, .inl (htext address c hc).1⟩⟩
  have hascii : ∀ str : List UInt8, (∀ c ∈ str, c < 0x80) →
      str.foldlM Utf8.step .boundary = some .boundary := by
    intro str
    induction str with
    | nil => exact fun _ => rfl
    | cons c str ih =>
      intro h
      rw [List.foldlM_cons, Utf8.step_ascii _ (h c List.mem_cons_self)]
      exact ih fun d hd => h d (List.mem_cons_of_mem c hd)
  exact hascii _ fun c hc => (htext address c hc).2.1

theorem reads_address (htext : IsAddressText addressText) (address : Address) :
    Reads (ascii "\t\"ip\": \"" ++ addressText address ++ ascii "\",\n") True
      [.string (ascii "ip"), .nameSeparator, .string (addressText address), .valueSeparator] := by
  have hstring := reads_string (ascii "\t\"ip\": \"")
    [.string (ascii "ip"), .nameSeparator] (fun _ => rfl) (addressText address)
  obtain ⟨hreadable, hself⟩ := (denoted_eq_self_iff _).mpr (plain_addressText htext address)
  rw [json_addressText htext, hself] at hstring
  exact hstring.congr (iff_of_true hreadable trivial)

theorem reads_device (htext : IsAddressText addressText) {dev : DeviceDescriptor}
    (hids : ∀ eid ∈ dev.endpointIds, eid % 32 ≠ 0) (emitComma : Bool) (hname : dev.name ≠ []) :
    Reads (writeDevDescJson epRegistry addressText dev emitComma).1
      (DeviceReadable epRegistry dev)
      ((if emitComma then [.valueSeparator] else []) ++
        deviceTokens epRegistry addressText dev) := by
  have hcomma : Reads (if emitComma then ascii ",\n" else []) True
      (if emitComma then [.valueSeparator] else []) := by
    refine Reads.of_run fun ts => ?_
    cases emitComma <;> rfl
  have hbegin : Reads (ascii "\x7b\n") True [.beginObject] := Reads.of_run fun _ => rfl
  have hstring := reads_string (ascii "\t\"name\": \"")
    [.string (ascii "name"), .nameSeparator] (fun _ => rfl) dev.name
  have harray : Reads (ascii "\t\"endpoints\": [\n") True
      [.string (ascii "endpoints"), .nameSeparator, .beginArray] := Reads.of_run fun _ => rfl
  have hend : Reads (ascii "\x7d\n") True [.endObject] := Reads.of_run fun _ => rfl
  have hpieces := hcomma.append (hbegin.append (hstring.append
    ((reads_address htext dev.ipv6Address).append
      (harray.append ((reads_endpoints epRegistry hids).append hend)))))
  have hlength : dev.name.length ≠ 0 := fun h => hname (List.eq_nil_of_length_eq_zero h)
  have hlast : ascii "\t]\n\x7d\n" = ascii "\t]\n" ++ ascii "\x7d\n" := rfl
  unfold writeDevDescJson deviceTokens
  rw [if_pos hlength, hlast]
  simp only [List.append_assoc, List.cons_append, List.nil_append] at hpieces ⊢
  refine hpieces.congr ⟨?_, ?_⟩
  · rintro ⟨-, -, hn, -, -, he, -⟩
    exact ⟨hn, he⟩
  · rintro ⟨hn, he⟩
    exact ⟨trivial, trivial, hn, trivial, trivial, he, trivial⟩

/-! ## The listing -/

/-- The devices that have a name. -/
def named (devices : List DeviceDescriptor) : List DeviceDescriptor :=
  devices.filter fun dev => dev.name ≠ []

theorem named_cons_of_nil {dev : DeviceDescriptor} (h : dev.name = [])
    (devices : List DeviceDescriptor) : named (dev :: devices) = named devices :=
  List.filter_cons_of_neg (by simp [h])

theorem named_cons_of_ne {dev : DeviceDescriptor} (h : dev.name ≠ [])
    (devices : List DeviceDescriptor) : named (dev :: devices) = dev :: named devices :=
  List.filter_cons_of_pos (by simp [h])

/-- A device without a name is passed over. -/
theorem writeDevices_cons_of_nil {dev : DeviceDescriptor} (h : dev.name = [])
    (atBegin hasWritten : Bool) (devices : List DeviceDescriptor) :
    writeDevices epRegistry addressText atBegin hasWritten (dev :: devices) =
      writeDevices epRegistry addressText false hasWritten devices := by
  have hwritten : ∀ emitComma, writeDevDescJson epRegistry addressText dev emitComma = ([], false) :=
    fun _ => if_neg (by simp [h])
  rw [writeDevices, hwritten, Bool.or_false]
  rfl

/-- After a device with a name, each further one follows a comma. -/
theorem writeDevices_cons_of_ne {dev : DeviceDescriptor} (h : dev.name ≠ [])
    (atBegin hasWritten : Bool) (devices : List DeviceDescriptor) :
    writeDevices epRegistry addressText atBegin hasWritten (dev :: devices) =
      (writeDevDescJson epRegistry addressText dev (hasWritten && !atBegin)).1 ++
        writeDevices epRegistry addressText false true devices := by
  have hwritten : ∀ emitComma, (writeDevDescJson epRegistry addressText dev emitComma).2 = true := by
    intro emitComma
    unfold writeDevDescJson
    rw [if_pos fun hlength => h (List.eq_nil_of_length_eq_zero hlength)]
  rw [writeDevices, hwritten, Bool.or_true]

theorem reads_moreDevices (htext : IsAddressText addressText) {devices : List DeviceDescriptor}
    (hids : ∀ dev ∈ devices, ∀ eid ∈ dev.endpointIds, eid % 32 ≠ 0) :
    Reads (writeDevices epRegistry addressText false true devices ++ ascii "]\x7d\n")
      (∀ dev ∈ named devices, DeviceReadable epRegistry dev)
      (moreElements ((named devices).map (deviceTokens epRegistry addressText)) ++
        [.endObject]) := by
  induction devices with
  | nil =>
    have hend : Reads (ascii "]\x7d\n") True [.endArray, .endObject] := Reads.of_run fun _ => rfl
    exact hend.congr (iff_of_true trivial nofun)
  | cons dev devices ih =>
    have hrest := ih fun dev hdev => hids dev (List.mem_cons_of_mem _ hdev)
    by_cases hname : dev.name = []
    · rw [writeDevices_cons_of_nil epRegistry hname, named_cons_of_nil hname]
      exact hrest
    · have hdev := reads_device epRegistry htext (hids dev List.mem_cons_self) true hname
      rw [writeDevices_cons_of_ne epRegistry hname, named_cons_of_ne hname, List.map_cons,
        moreElements, List.append_assoc, List.cons_append, List.append_assoc]
      exact (hdev.append hrest).congr List.forall_mem_cons.symm

/-- Before a device has been written there is no comma. -/
theorem reads_devices (htext : IsAddressText addressText) (atBegin : Bool)
    {devices : List DeviceDescriptor}
    (hids : ∀ dev ∈ devices, ∀ eid ∈ dev.endpointIds, eid % 32 ≠ 0) :
    Reads (writeDevices epRegistry addressText atBegin false devices ++ ascii "]\x7d\n")
      (∀ dev ∈ named devices, DeviceReadable epRegistry dev)
      (arrayElements ((named devices).map (deviceTokens epRegistry addressText)) ++
        [.endObject]) := by
  induction devices generalizing atBegin with
  | nil =>
    have hend : Reads (ascii "]\x7d\n") True [.endArray, .endObject] := Reads.of_run fun _ => rfl
    exact hend.congr (iff_of_true trivial nofun)
  | cons dev devices ih =>
    have hidsRest : ∀ dev ∈ devices, ∀ eid ∈ dev.endpointIds, eid % 32 ≠ 0 :=
      fun dev hdev => hids dev (List.mem_cons_of_mem _ hdev)
    by_cases hname : dev.name = []
    · rw [writeDevices_cons_of_nil epRegistry hname, named_cons_of_nil hname]
      exact ih false hidsRest
    · have hdev := reads_device epRegistry htext (hids dev List.mem_cons_self) false hname
      rw [writeDevices_cons_of_ne epRegistry hname, named_cons_of_ne hname, List.map_cons,
        arrayElements, List.append_assoc, List.append_assoc]
      exact (hdev.append (reads_moreDevices epRegistry htext hidsRest)).congr
        List.forall_mem_cons.symm

variable (addressText)

def listingValue (devices : List DeviceDescriptor) : Lib.Json.Value :=
  .object [(ascii "devices", .array ((named devices).map (deviceValue epRegistry addressText)))]

def listingTokens (devices : List DeviceDescriptor) : List Token :=
  [.beginObject, .string (ascii "devices"), .nameSeparator, .beginArray] ++
    (arrayElements ((named devices).map (deviceTokens epRegistry addressText)) ++ [.endObject])

variable {addressText}

/-- **The listing**, token by token. -/
theorem reads_listing (htext : IsAddressText addressText) {devices : List DeviceDescriptor}
    (hids : ∀ dev ∈ devices, ∀ eid ∈ dev.endpointIds, eid % 32 ≠ 0) :
    Reads (writeJson epRegistry addressText devices)
      (∀ dev ∈ named devices, DeviceReadable epRegistry dev)
      (listingTokens epRegistry addressText devices) := by
  have hbegin : Reads (ascii "\x7b\"devices\": [\n") True
      [.beginObject, .string (ascii "devices"), .nameSeparator, .beginArray] :=
    Reads.of_run fun _ => rfl
  unfold writeJson
  rw [List.append_assoc]
  exact (hbegin.append (reads_devices epRegistry htext true hids)).congr (and_iff_right trivial)

/-- With every endpoint in the registry, the tokens are those of a value. -/
theorem listingTokens_eq {devices : List DeviceDescriptor}
    (h : ∀ dev ∈ named devices, ∀ eid ∈ dev.endpointIds, (epRegistry eid).isSome) :
    listingTokens epRegistry addressText devices =
      (listingValue epRegistry addressText devices).tokens := by
  have hmap : (named devices).map (deviceTokens epRegistry addressText) =
      ((named devices).map (deviceValue epRegistry addressText)).map Lib.Json.Value.tokens := by
    rw [List.map_map]
    exact List.map_congr_left fun dev hdev => deviceTokens_eq epRegistry addressText (h dev hdev)
  unfold listingTokens listingValue
  rw [hmap]
  simp only [Lib.Json.Value.tokens, memberTokens, memberToken, Lib.Json.Value.tokens_array]
  rfl

/-- Otherwise they are those of no value. -/
theorem isSome_of_isChain {devices : List DeviceDescriptor}
    (h : (listingTokens epRegistry addressText devices).IsChain Follows) :
    ∀ dev ∈ named devices, ∀ eid ∈ dev.endpointIds, (epRegistry eid).isSome := by
  intro dev hdev eid heid
  by_contra hnone
  have hendpoint : endpointTokens epRegistry eid <:+: deviceTokens epRegistry addressText dev :=
    (isInfix_arrayElements (List.mem_map_of_mem heid)).trans ⟨_, _, List.append_assoc .. ⟩
  have hdevice : deviceTokens epRegistry addressText dev <:+:
      listingTokens epRegistry addressText devices :=
    (isInfix_arrayElements (List.mem_map_of_mem hdev)).trans ⟨_, _, List.append_assoc ..⟩
  exact not_isChain_endpointTokens epRegistry (Option.not_isSome_iff_eq_none.mp hnone)
    ( List.IsChain.infix h (hendpoint.trans hdevice))

end Hexabus.Host.Hexinfo
