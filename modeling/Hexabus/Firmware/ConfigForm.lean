import Hexabus.Lib.UrlEncoding
import Hexabus.Firmware.Httpd

/-!
# The configuration form

The page that sets the device's name posts its fields form-encoded, and the web server stores the
value of the first one as it stands in the request. A value of more than thirty bytes overruns the
buffer it is copied into, and one with an encoded byte becomes another name than the one entered.
The form limits the name to thirty characters, but that is before they are encoded.
-/

namespace Hexabus.Firmware.Httpd

open Lib.Store Lib.Delimited Lib.UrlEncoding
open Lib.Json (ascii)

def crlf : List UInt8 := [isoCr, isoNl]

/-- A POST request of the form: the rest of the request line, the headers, and the values of the
fields in the order of the form. -/
structure ConfigRequest where
  version : List UInt8
  headers : List (List UInt8)
  domainName : List UInt8
  relay : List UInt8
  terminator : List UInt8
  versionLine : isoNl ∉ version
  headerLines : ∀ line ∈ headers, line ≠ [] ∧ isoCr ∉ line
  domainNameValue : isoAmper ∉ domainName
  relayValue : isoAmper ∉ relay

namespace ConfigRequest

def requestLine (r : ConfigRequest) : List UInt8 :=
  httpdPost ++ (isoSlash :: httpdConfigFile ++ (r.version ++ crlf))

def body (r : ConfigRequest) : List UInt8 :=
  ascii "domain_name=" ++ (r.domainName ++ (ascii "&relay=" ++ (r.relay ++
    (ascii "&terminator=" ++ r.terminator))))

def bytes (r : ConfigRequest) : List UInt8 :=
  r.requestLine ++ (r.headers.flatMap (· ++ crlf) ++ (crlf ++ r.body))

end ConfigRequest

/-- The name in the EEPROM. -/
def deviceName (eeprom : Mem) : List UInt8 := readBlock eeprom EE.domainName EE.domainNameSize

/-- A name as the EEPROM has it. -/
def filledUp (name : List UInt8) : List UInt8 :=
  name ++ List.replicate (EE.domainNameSize - name.length) 0

/-- What the form is for: the copies stay within the buffer, and a name that fits is stored as it
was entered. -/
structure NameStored (value : List UInt8) (after : Handler) : Prop where
  bounded : ∀ n ∈ after.copied, n ≤ EE.domainNameSize
  entered : (decode value).length ≤ EE.domainNameSize →
    deviceName after.device.eeprom = filledUp (decode value)

/-! ## Pieces of a request -/

/-- Some bytes take the handler from one wait to another. -/
def Takes (h : Handler) (bs : List UInt8) (h' : Handler) : Prop :=
  ∀ m, ∃ m', ∀ rest, reader.read ((h, m), []) (bs ++ rest) = reader.read ((h', m'), []) rest

theorem Takes.trans {h h' h'' : Handler} {bs cs : List UInt8} (hb : Takes h bs h')
    (hc : Takes h' cs h'') : Takes h (bs ++ cs) h'' := by
  intro m
  obtain ⟨m', hm⟩ := hb m
  obtain ⟨m'', hm'⟩ := hc m'
  refine ⟨m'', fun rest => ?_⟩
  rw [List.append_assoc, hm, hm']

theorem Takes.nil (h : Handler) : Takes h [] h := fun m => ⟨m, fun _ => rfl⟩

variable {h : Handler}

/-- One piece, from what `handle_input` does with it. -/
theorem takes_piece {h' : Handler} {c : UInt8} {bs : List UInt8} (hdelim : h.point.delim = some c)
    (hbs : c ∉ bs)
    (hdone : ∀ m, (reader.done (h, m) (bs ++ [c])).1 = h') : Takes h (bs ++ [c]) h' := by
  intro m
  refine ⟨(reader.done (h, m) (bs ++ [c])).2, fun rest => ?_⟩
  have hmarker : reader.delim (h, m) = some c := hdelim
  rw [List.append_assoc, List.singleton_append, PieceReader.read_piece hmarker hbs, List.nil_append,
    ← hdone m]

theorem readBlock_writeBlock (m : Mem) {bs : List UInt8} {off n : Nat}
    (hlen : off + n ≤ bs.length) :
    readBlock (writeBlock m 0 bs) off n = (bs.drop off).take n := by
  have hwhole := read_write_same m 0 bs
  rw [← hwhole, drop_readBlock _ _ _ _ (by omega), take_readBlock _ _ _ _ (by omega), hwhole,
    Nat.zero_add]

/-- A piece that is its end marker. -/
theorem takes_marker {h' : Handler} {c : UInt8} (hdelim : h.point.delim = some c)
    (hdone : ∀ m, (reader.done (h, m) [c]).1 = h') : Takes h [c] h' :=
  takes_piece hdelim List.not_mem_nil hdone

/-- What a buffer begins with is what was written into it. -/
theorem begins_writeBlock (m : Mem) {bs text : List UInt8} {off : Nat}
    (hlen : off + text.length ≤ bs.length) :
    Handler.Begins (writeBlock m 0 bs) off text ↔ (bs.drop off).take text.length = text := by
  rw [Handler.Begins, readBlock_writeBlock m hlen]

theorem writeBlock_zero (m : Mem) {b : UInt8} {bs : List UInt8} : writeBlock m 0 (b :: bs) 0 = b :=
  writeBlock_apply_in m 0 (b :: bs) 0 (by simp)

theorem takes_method : Takes (h.goto .method) httpdPost (h.goto .postPath) := by
  have hpiece : httpdPost = ascii "POST" ++ [isoSpace] := by decide
  rw [hpiece]
  apply takes_piece rfl (by decide)
  intro m
  have hget : ¬ Handler.Begins (writeBlock m 0 ((ascii "POST" ++ [isoSpace]).take Psock.bufsize)) 0
      httpdGet := by
    rw [begins_writeBlock m (by decide)]
    decide
  have hpost : Handler.Begins (writeBlock m 0 ((ascii "POST" ++ [isoSpace]).take Psock.bufsize)) 0
      httpdPost := by
    rw [begins_writeBlock m (by decide)]
    decide
  show (Handler.proceed _ _ _).1 = _
  simp only [Handler.proceed, Handler.goto, if_neg hget, if_pos hpost]

theorem takes_path :
    Takes (h.goto .postPath) (isoSlash :: httpdConfigFile) (h.goto .headerNl) := by
  have hpiece : isoSlash :: httpdConfigFile = ascii "/config.shtml" ++ [isoSpace] := by decide
  rw [hpiece]
  apply takes_piece rfl (by decide)
  intro m
  have hslash : writeBlock m 0 ((ascii "/config.shtml" ++ [isoSpace]).take Psock.bufsize) 0
      = isoSlash := writeBlock_zero m
  have hconfig : Handler.Begins
      (writeBlock m 0 ((ascii "/config.shtml" ++ [isoSpace]).take Psock.bufsize)) 1
      httpdConfigFile := by
    rw [begins_writeBlock m (by decide)]
    decide
  show (Handler.proceed _ _ _).1 = _
  simp only [Handler.proceed, Handler.goto, hslash, ne_eq, not_true_eq_false, if_false,
    if_pos hconfig]

theorem takes_headerNl {line : List UInt8} (hline : isoNl ∉ line) :
    Takes (h.goto .headerNl) (line ++ [isoNl]) (h.goto .headerCr) :=
  takes_piece rfl hline fun _ => rfl

/-- A line that is not empty leads back to the beginning of the loop. -/
theorem takes_headerCr {line : List UInt8} (hline : line ≠ [] ∧ isoCr ∉ line) :
    Takes (h.goto .headerCr) (line ++ [isoCr]) (h.goto .headerNl) := by
  apply takes_piece rfl hline.2
  intro m
  have hlen : ¬ min (line ++ [isoCr]).length Psock.bufsize = 1 := by
    have hpos := List.length_pos_iff.mpr hline.1
    rw [List.length_append, List.length_singleton, Psock.bufsize]
    omega
  show h.goto (if min (line ++ [isoCr]).length Psock.bufsize = 1 then _ else _) = _
  rw [if_neg hlen]

theorem takes_emptyLine : Takes (h.goto .headerCr) [isoCr] (h.goto .headersEnd) :=
  takes_marker rfl fun _ => rfl

theorem takes_headersEnd : Takes (h.goto .headersEnd) [isoNl] (h.goto .domainNameEqual) :=
  takes_marker rfl fun _ => rfl

/-- One header, and the line feed behind it. -/
theorem takes_header {line : List UInt8} (hline : line ≠ [] ∧ isoCr ∉ line) :
    Takes (h.goto .headerCr) (line ++ crlf) (h.goto .headerCr) := by
  have hcut : line ++ crlf = line ++ [isoCr] ++ ([] ++ [isoNl]) := by simp [crlf]
  rw [hcut]
  exact (takes_headerCr hline).trans (takes_headerNl (by simp))

theorem takes_headers {headers : List (List UInt8)}
    (hlines : ∀ line ∈ headers, line ≠ [] ∧ isoCr ∉ line) :
    Takes (h.goto .headerCr) (headers.flatMap (· ++ crlf)) (h.goto .headerCr) := by
  induction headers with
  | nil => exact Takes.nil _
  | cons line headers ih =>
    rw [List.flatMap_cons]
    exact (takes_header (hlines line List.mem_cons_self)).trans
      (ih fun l hl => hlines l (List.mem_cons_of_mem _ hl))

/-- Everything before the fields. -/
theorem takes_head (r : ConfigRequest) :
    Takes (h.goto .method) (r.requestLine ++ (r.headers.flatMap (· ++ crlf) ++ crlf))
      (h.goto .domainNameEqual) := by
  have hline : r.version ++ crlf = r.version ++ [isoCr] ++ [isoNl] := by simp [crlf]
  have hversion : isoNl ∉ r.version ++ [isoCr] := by
    simp [r.versionLine, show isoNl ≠ isoCr by decide]
  have hrequest : Takes (h.goto .method) r.requestLine (h.goto .headerCr) := by
    rw [ConfigRequest.requestLine, hline]
    exact takes_method.trans (takes_path.trans (takes_headerNl hversion))
  have hempty : Takes (h.goto .headerCr) crlf (h.goto .domainNameEqual) :=
    takes_emptyLine.trans takes_headersEnd
  exact hrequest.trans ((takes_headers r.headerLines).trans hempty)

/-! ## The name -/

/-- The handler behind the name's value. -/
def Handler.named (value : List UInt8) (h : Handler) : Handler :=
  if value = [] then h.goto .relayEqual
  else if value.length ≤ EE.domainNameSize then
    { point := .relayEqual
      device := { h.device with
        eeprom := writeBlock h.device.eeprom EE.domainName (filledUp value) }
      copied := h.copied ++ [value.length] }
  else
    { h with point := .overrun, copied := h.copied ++ [min (value.length + 1) Psock.bufsize - 1] }

/-- The name buffer behind the copy. -/
theorem readBlock_tmp {value : List UInt8} (hlen : value.length ≤ EE.domainNameSize) :
    readBlock (writeBlock (fun _ => 0) 0 value) 0 EE.domainNameSize = filledUp value := by
  have hzeros : readBlock (writeBlock (fun _ => (0 : UInt8)) 0 value) (0 + value.length)
      (EE.domainNameSize - value.length)
        = List.replicate (EE.domainNameSize - value.length) 0 := by
    rw [read_write_disjoint _ _ _ _ _ (.inr le_rfl)]
    simp [readBlock]
  rw [(holds_write (fun _ => 0) 0 value).readBlock_eq hlen, hzeros, filledUp]

theorem takes_domainName {value : List UInt8} (hvalue : isoAmper ∉ value) :
    Takes (h.goto .domainName) (value ++ [isoAmper]) (h.named value) := by
  apply takes_piece rfl hvalue
  intro m
  have hdatalen : (value ++ [isoAmper]).length = value.length + 1 := by simp
  show (h.goto .domainName).storeDomainName
    (writeBlock m 0 ((value ++ [isoAmper]).take Psock.bufsize))
    (min (value ++ [isoAmper]).length Psock.bufsize) = _
  rw [Handler.storeDomainName, Handler.named, hdatalen]
  cases value with
  | nil =>
    -- the end marker is the first byte
    have hfirst : writeBlock m 0 (([] ++ [isoAmper]).take Psock.bufsize) 0 = isoAmper :=
      writeBlock_zero m
    rw [if_neg (not_not.mpr hfirst), if_pos rfl]
    rfl
  | cons b rest =>
    have hfirst : writeBlock m 0 ((b :: rest ++ [isoAmper]).take Psock.bufsize) 0 = b :=
      writeBlock_zero m
    have hb : b ≠ isoAmper := fun heq => hvalue (heq ▸ List.mem_cons_self)
    have hne : b :: rest ≠ [] := List.cons_ne_nil b rest
    rw [hfirst, if_pos hb, if_neg hne]
    generalize b :: rest = value
    by_cases hlen : value.length ≤ EE.domainNameSize
    · have hcopied : min (value.length + 1) Psock.bufsize - 1 = value.length := by
        unfold EE.domainNameSize at hlen
        unfold Psock.bufsize
        omega
      have hread : readBlock (writeBlock m 0 ((value ++ [isoAmper]).take Psock.bufsize)) 0
          value.length = value := by
        have hwhole : (value ++ [isoAmper]).take Psock.bufsize = value ++ [isoAmper] := by
          apply List.take_of_length_le
          simp only [List.length_append, List.length_singleton, Psock.bufsize]
          unfold EE.domainNameSize at hlen
          omega
        rw [hwhole, readBlock_writeBlock m (by simp), List.drop_zero, List.take_left]
      dsimp only
      rw [hcopied, if_pos hlen, if_pos hlen, hread, readBlock_tmp hlen]
      rfl
    · have hover : ¬ min (value.length + 1) Psock.bufsize - 1 ≤ EE.domainNameSize := by
        unfold EE.domainNameSize at hlen ⊢
        unfold Psock.bufsize
        omega
      dsimp only
      rw [if_neg hover, if_neg hlen]
      rfl

/-! ## The rest of the request -/

/-- The default state of the relay is stored outside of the name. -/
theorem deviceName_setRelayDefault (value : Bool) (d : Device) :
    deviceName (d.setRelayDefault value).eeprom = deviceName d.eeprom := by
  unfold Device.setRelayDefault
  split
  next => exact read_write_disjoint _ _ _ _ _ (.inl (by decide))
  next => rfl

/-- The handler `h'` is behind the name, and it is that of `h`. -/
structure Past (h h' : Handler) : Prop where
  point : h'.point ∈ ([.relayEqual, .relay, .output, .overrun] : List Point)
  copied : h'.copied = h.copied
  name : deviceName h'.device.eeprom = deviceName h.device.eeprom

theorem past_named (value : List UInt8) (h : Handler) : Past (h.named value) (h.named value) := by
  have hpoint : (h.named value).point ∈ ([.relayEqual, .relay, .output, .overrun] : List Point) := by
    unfold Handler.named Handler.goto
    split
    next => simp
    next => split <;> simp
  exact ⟨hpoint, rfl, rfl⟩

theorem past_storeRelay {h' : Handler} (hpast : Past h h') (inputbuf : Mem) :
    Past h (h'.storeRelay inputbuf) := by
  unfold Handler.storeRelay Handler.goto
  split
  next =>
    exact ⟨by simp, hpast.copied, (deviceName_setRelayDefault _ _).trans hpast.name⟩
  next =>
    split
    next =>
      exact ⟨by simp, hpast.copied, (deviceName_setRelayDefault _ _).trans hpast.name⟩
    next => exact ⟨by simp, hpast.copied, hpast.name⟩

/-- Whatever the pieces behind the name are, they leave it alone. -/
theorem past_done {x : Handler × Mem} (hpast : Past h x.1) (piece : List UInt8) :
    Past h (reader.done x piece).1 := by
  show Past h (Handler.proceed _ _ x.1).1
  have hpoint := hpast.point
  simp only [List.mem_cons, List.not_mem_nil, or_false] at hpoint
  unfold Handler.proceed Handler.goto
  rcases hpoint with hp | hp | hp | hp
  · rw [hp]
    exact ⟨by simp, hpast.copied, hpast.name⟩
  · rw [hp]
    exact past_storeRelay hpast _
  · rw [hp]
    exact hpast
  · rw [hp]
    exact hpast

/-- **A whole request** leaves the handler with the name as its value has set it. -/
theorem reads_request (r : ConfigRequest) (m : Mem) :
    Past (h.named r.domainName) (reader.read ((h.goto .method, m), []) r.bytes).1.1 := by
  have hkey : ascii "domain_name=" = ascii "domain_name" ++ [isoEqual] := by decide
  have hrelay : ascii "&relay=" = [isoAmper] ++ ascii "relay=" := by decide
  have hcut : r.bytes
      = r.requestLine ++ (r.headers.flatMap (· ++ crlf) ++ crlf) ++
        (ascii "domain_name" ++ [isoEqual]) ++ (r.domainName ++ [isoAmper]) ++
        (ascii "relay=" ++ (r.relay ++ (ascii "&terminator=" ++ r.terminator))) := by
    simp only [ConfigRequest.bytes, ConfigRequest.body, hkey, hrelay, List.append_assoc]
  have hequal : Takes (h.goto .domainNameEqual) (ascii "domain_name" ++ [isoEqual])
      (h.goto .domainName) := takes_piece rfl (by decide) fun _ => rfl
  obtain ⟨m', hm⟩ :=
    (((takes_head r).trans hequal).trans (takes_domainName (h := h) r.domainNameValue)) m
  rw [hcut, hm]
  exact PieceReader.read_stays (P := fun x : Handler × Mem => Past (h.named r.domainName) x.1)
    (fun x piece hx => past_done hx piece) (past_named _ _) _ _

/-! ## When the name is stored -/

/-- What decides it, for the name as it was before. -/
def Fits (value : List UInt8) (eeprom : Mem) : Prop :=
  value.length ≤ EE.domainNameSize ∧ Unencoded value ∧
    (value = [] → deviceName eeprom = filledUp [])

theorem deviceName_writeBlock {name : List UInt8} (eeprom : Mem)
    (hlen : name.length ≤ EE.domainNameSize) :
    deviceName (writeBlock eeprom EE.domainName (filledUp name)) = filledUp name := by
  have hfull : (filledUp name).length = EE.domainNameSize := by
    rw [filledUp, List.length_append, List.length_replicate]
    omega
  rw [deviceName, ← hfull]
  exact read_write_same eeprom EE.domainName (filledUp name)

/-- Two names that are filled up to the same bytes, one of them decoded from the other. -/
theorem filledUp_decode_iff (value : List UInt8) :
    filledUp value = filledUp (decode value) ↔ Unencoded value := by
  rw [← decode_eq_self_iff]
  constructor
  · intro heq
    exact decode_eq_of_zeros heq.symm
  · intro heq
    rw [heq]

/-- **What becomes of a name** once it has been dealt with. -/
theorem nameStored_named_iff (value : List UInt8) (device : Device) :
    NameStored value (Handler.named value ⟨.domainName, device, []⟩) ↔
      Fits value device.eeprom := by
  unfold Handler.named Fits
  by_cases hnil : value = []
  · subst hnil
    rw [if_pos rfl]
    constructor
    · intro hstored
      exact ⟨Nat.zero_le _, unencoded_nil, fun _ => hstored.entered (Nat.zero_le _)⟩
    · intro hfits
      exact ⟨fun n hn => absurd hn List.not_mem_nil, fun _ => hfits.2.2 rfl⟩
  · rw [if_neg hnil]
    by_cases hlen : value.length ≤ EE.domainNameSize
    · rw [if_pos hlen]
      have hdecoded : (decode value).length ≤ EE.domainNameSize :=
        (length_decode_le value).trans hlen
      constructor
      · intro hstored
        have hentered := hstored.entered hdecoded
        rw [deviceName_writeBlock _ hlen, filledUp_decode_iff] at hentered
        exact ⟨hlen, hentered, fun h => absurd h hnil⟩
      · intro hfits
        refine ⟨?_, fun _ => ?_⟩
        · simp [hlen]
        · rw [deviceName_writeBlock _ hlen, filledUp_decode_iff]
          exact hfits.2.1
    · -- the copy overruns the buffer
      rw [if_neg hlen]
      constructor
      · intro hstored
        have hbound := hstored.bounded (min (value.length + 1) Psock.bufsize - 1) (by simp)
        unfold EE.domainNameSize at hbound hlen
        unfold Psock.bufsize at hbound
        omega
      · intro hfits
        exact absurd hfits.1 hlen

theorem NameStored.congr {value : List UInt8} {h h' : Handler} (hpast : Past h h') :
    NameStored value h' ↔ NameStored value h := by
  constructor
  · intro hstored
    exact ⟨hpast.copied ▸ hstored.bounded, fun hlen => hpast.name ▸ hstored.entered hlen⟩
  · intro hstored
    refine ⟨?_, fun hlen => ?_⟩
    · rw [hpast.copied]
      exact hstored.bounded
    · rw [hpast.name]
      exact hstored.entered hlen

/-- What a delivered request does to the name. -/
theorem past_serve (r : ConfigRequest) (d : Delivery r.bytes) (inputbuf : Mem) (device : Device) :
    Past (Handler.named r.domainName ⟨.domainName, device, []⟩)
      (serve inputbuf device d.first d.calls).handler := by
  rw [d.handler_eq]
  exact reads_request r inputbuf

/-- **The configuration form**: for every request, however it is delivered, the copies stay within
the buffer and a name that fits is stored as it was entered, if and only if the value has at most
thirty bytes, nothing in it is encoded, and it is not empty unless the stored name is. -/
theorem config_stores_name (r : ConfigRequest) (d : Delivery r.bytes) (inputbuf : Mem)
    (device : Device) :
    NameStored r.domainName (serve inputbuf device d.first d.calls).handler ↔
      r.domainName.length ≤ EE.domainNameSize ∧ Unencoded r.domainName ∧
        (r.domainName = [] → deviceName device.eeprom = filledUp []) := by
  rw [NameStored.congr (past_serve r d inputbuf device)]
  exact nameStored_named_iff r.domainName device

/-- The request of a browser in which `name` was entered. -/
def ConfigRequest.ofName (name : List UInt8) : ConfigRequest where
  version := ascii "HTTP/1.1"
  headers := [ascii "Host: [fd00::50]", ascii "Content-Type: application/x-www-form-urlencoded"]
  domainName := encode name
  relay := ascii "1"
  terminator := []
  versionLine := by decide
  headerLines := by decide
  domainNameValue := not_mem_encode (by decide) (by decide) (by decide) name
  relayValue := by decide

/-- A request that comes in one segment. -/
theorem nameStored_segment_iff (r : ConfigRequest) (inputbuf : Mem) (device : Device) :
    NameStored r.domainName (serve inputbuf device none [.newdata r.bytes]).handler ↔
      Fits r.domainName device.eeprom := by
  have hpast := past_serve r (.segments [r.bytes] (by simp)) inputbuf device
  exact (NameStored.congr hpast).trans (nameStored_named_iff r.domainName device)

/-- Six umlauts are twelve bytes, and thirty-six in the request: they overrun the buffer. A blank
is stored as a plus sign. -/
theorem umlauts_and_blank_not_stored :
    ¬ NameStored (ConfigRequest.ofName (List.replicate 6 [0xC3, 0x84]).flatten).domainName
      (serve (fun _ => 0) ⟨fun _ => 0, false, 0⟩ none
        [.newdata (ConfigRequest.ofName (List.replicate 6 [0xC3, 0x84]).flatten).bytes]).handler ∧
    ¬ NameStored (ConfigRequest.ofName (ascii "my lamp")).domainName
      (serve (fun _ => 0) ⟨fun _ => 0, false, 0⟩ none
        [.newdata (ConfigRequest.ofName (ascii "my lamp")).bytes]).handler := by
  constructor
  · rw [nameStored_segment_iff]
    intro hfits
    exact absurd hfits.1 (by decide)
  · rw [nameStored_segment_iff]
    intro hfits
    exact absurd hfits.2.1.1 (by decide)

/-- **Seen from the browser**: a name is stored if and only if it has at most thirty bytes, all of
them among those that need no encoding, and is not empty unless the stored name is. -/
theorem browser_stores_name (name : List UInt8) (r : ConfigRequest)
    (hvalue : r.domainName = encode name) (d : Delivery r.bytes) (inputbuf : Mem)
    (device : Device) :
    NameStored (encode name) (serve inputbuf device d.first d.calls).handler ↔
      name.length ≤ EE.domainNameSize ∧ (∀ b ∈ name, Unreserved b) ∧
        (name = [] → deviceName device.eeprom = filledUp []) := by
  have hempty : encode name = [] ↔ name = [] := by
    constructor
    · intro h
      have hback := decode_encode name
      rw [h] at hback
      exact hback.symm
    · intro h
      rw [h]
      rfl
  rw [← hvalue, NameStored.congr (past_serve r d inputbuf device), nameStored_named_iff, Fits,
    hvalue, unencoded_encode_iff, hempty]
  constructor
  · intro hfits
    have hplain := (encode_eq_self_iff name).mpr hfits.2.1
    exact ⟨hplain ▸ hfits.1, hfits.2⟩
  · intro hname
    have hplain := (encode_eq_self_iff name).mpr hname.2.1
    exact ⟨hplain.symm ▸ hname.1, hname.2⟩

end Hexabus.Firmware.Httpd
