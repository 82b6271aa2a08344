import Nrxp.Bridge.Hellos
import Nrxp.Tls.Fingerprint
import Mathlib.Data.Multiset.Sort

/-!
# What an observer makes of a client's hello

The two fingerprints in use. JA3 digests what a hello offers as it stands on the wire; JA4 sorts the
cipher suites and the types of the extensions first, and leaves GREASE values out. A profile
shuffles its extensions and draws its GREASE values anew for each connection, so that its JA3
wanders while its JA4 stays.

The digests are left out: `Ja3` and `Ja4` are what goes into them. Both are computed from what the
parsers of the bridge read, and both are stated of a profile beforehand: its JA4 for hosts of a
length, and its JA3 for a draw. `hello_fingerprints` says that these are the ones observed, and
`every_ja3_drawn` that no draw is out of reach.
-/

open ExtensionBuilder TlsBridge

/-! ### The fingerprints -/

/-- What is left of a list without its GREASE values. -/
def dropGrease (values : List UInt16) : List UInt16 :=
  values.filter fun v ↦ !TlsExtensions.isGrease v

/-- Values in their order as numbers. -/
def sorted (values : List UInt16) : List ℕ :=
  Multiset.sort (values.map UInt16.toNat : Multiset ℕ) (· ≤ ·)

/-- The highest value of a list. -/
def highest (values : List UInt16) : ℕ := (values.map UInt16.toNat).foldr max 0

/-- What JA3 digests: what a hello offers, in the order of the wire. GREASE values are kept, as
`grease.rs` means the name when it says that a fixed pair of them would make for a JA3 that never
changes. -/
structure Ja3 where
  version : ProtocolVersion
  cipherSuites : List UInt16
  extensionTypes : List UInt16
  groups : List UInt16
  pointFormats : Bytes
  deriving DecidableEq

/-- What JA4 digests: what a hello offers without its GREASE values, mostly sorted. -/
structure Ja4 where
  version : ℕ
  hasServerName : Bool
  cipherCount : ℕ
  extensionCount : ℕ
  /-- The protocols above TLS, of which the first counts. -/
  alpn : Bytes
  cipherSuites : List ℕ
  /-- Without the server name and the protocols, which were looked at already. -/
  extensionTypes : List ℕ
  /-- These are not sorted. -/
  signatures : List UInt16
  deriving DecidableEq

/-- Read 16-bit values to the end. -/
def valuesOf : Bytes → List UInt16
  | hi :: lo :: rest => be16 hi lo :: valuesOf rest
  | _ => []

/-- The contents of an extension, or nothing. -/
def ExtensionStack.contents (stack : ExtensionStack) (etype : UInt16) : Bytes :=
  (stack.findByType etype).getD []

/-- Read a client's hello and its extensions off the wire. -/
def observe (wire : Bytes) : Option (ClientHello × ExtensionStack) :=
  match (unpackHandshake wire).1 with
  | .ok (some (.client hello stack)) => some (hello, stack)
  | _ => none

/-- The JA3 of a hello. -/
def Ja3.ofHello (hello : ClientHello) (stack : ExtensionStack) : Ja3 where
  version := hello.version
  cipherSuites := hello.cipherSuites
  extensionTypes := stack.extensions.map Extension.etype
  groups := valuesOf ((stack.contents TlsExtensions.supportedGroups).drop 2)
  pointFormats := (stack.contents TlsExtensions.ecPointFormats).drop 1

/-- The types JA4 sorts. -/
def ja4Types (types : List UInt16) : List UInt16 :=
  types.filter fun t ↦ t ≠ TlsExtensions.sni ∧ t ≠ TlsExtensions.alpn

/-- The JA4 of a hello. -/
def Ja4.ofHello (hello : ClientHello) (stack : ExtensionStack) : Ja4 :=
  let suites := dropGrease hello.cipherSuites
  let types := dropGrease (stack.extensions.map Extension.etype)
  { version :=
      if (stack.findByType TlsExtensions.supportedVersions).isSome then
        highest (dropGrease (valuesOf ((stack.contents TlsExtensions.supportedVersions).drop 1)))
      else hello.version.toU16.toNat
    hasServerName := (stack.findByType TlsExtensions.sni).isSome
    cipherCount := suites.length
    extensionCount := types.length
    alpn := stack.contents TlsExtensions.alpn
    cipherSuites := sorted suites
    extensionTypes := sorted (ja4Types types)
    signatures :=
      dropGrease (valuesOf ((stack.contents TlsExtensions.signatureAlgorithms).drop 2)) }

namespace BrowserProfile

/-- The JA3 of a profile, for a draw and hosts of a length. -/
def ja3 (profile : BrowserProfile) (hostLen : ℕ) (grease : GreaseSet) (order : List UInt16) :
    Ja3 where
  version := .tls12
  cipherSuites := withGreaseValue profile.hasGrease grease.cipher profile.cipherSuites
  extensionTypes := (writtenSlots profile hostLen (ClientHello.totalOverhead profile) order).map
    (wireType grease)
  groups :=
    if TlsExtensions.supportedGroups ∈ profile.extensionOrder then
      withGreaseValue profile.hasGrease grease.group profile.groups
    else []
  pointFormats := if TlsExtensions.ecPointFormats ∈ profile.extensionOrder then [0x00] else []

/-- The JA4 of a profile, for hosts of a length. -/
def ja4 (profile : BrowserProfile) (hostLen : ℕ) : Ja4 :=
  let suites := dropGrease profile.cipherSuites
  let types := dropGrease
    (writtenSlots profile hostLen (ClientHello.totalOverhead profile) profile.extensionOrder)
  { version :=
      if TlsExtensions.supportedVersions ∈ profile.extensionOrder then
        highest (dropGrease profile.versions)
      else ProtocolVersion.tls12.toU16.toNat
    hasServerName := decide (TlsExtensions.sni ∈ profile.extensionOrder)
    cipherCount := suites.length
    extensionCount := types.length
    alpn :=
      if TlsExtensions.alpn ∈ profile.extensionOrder then protocolList profile.alpn else []
    cipherSuites := sorted suites
    extensionTypes := sorted (ja4Types types)
    signatures :=
      if TlsExtensions.signatureAlgorithms ∈ profile.extensionOrder then
        dropGrease profile.signatures
      else [] }

end BrowserProfile

/-! ### GREASE values -/

theorem sorted_of_perm {values values' : List UInt16} (h : values.Perm values') :
    sorted values = sorted values' :=
  congrArg (Multiset.sort · (· ≤ ·)) (Multiset.coe_eq_coe.mpr (h.map UInt16.toNat))

theorem valuesOf_u16s (values : List UInt16) : valuesOf (u16s values) = values := by
  induction values with
  | nil => rfl
  | cons v values ih =>
    show be16 (UInt8.ofNat (v.toNat / 256 ^ 1)) (UInt8.ofNat (v.toNat / 256 ^ 0))
      :: valuesOf (u16s values) = _
    rw [be16_beBytes, ih]

theorem dropGrease_withGreaseValue (hasGrease : Bool) (v : GreaseValue) (values : List UInt16) :
    dropGrease (withGreaseValue hasGrease v values) = dropGrease values := by
  cases hasGrease with
  | false => rfl
  | true => exact List.filter_cons_of_neg (by rw [v.property]; decide)

namespace ExtensionBuilder

/-- A slot stands for a GREASE value if its id is one. -/
theorem isGrease_wireType (grease : GreaseSet) (extId : UInt16) :
    TlsExtensions.isGrease (wireType grease extId) = TlsExtensions.isGrease extId := by
  unfold wireType
  split
  · exact grease.extFirst.property
  · exact grease.extLast.property
  · rfl

/-- Without GREASE values, the types of slots are their ids. -/
theorem dropGrease_map_wireType (grease : GreaseSet) (order : List UInt16) :
    dropGrease (order.map (wireType grease)) = dropGrease order := by
  have hpred : ((fun v ↦ !TlsExtensions.isGrease v) ∘ wireType grease)
      = fun v ↦ !TlsExtensions.isGrease v :=
    funext fun extId ↦ congrArg not (isGrease_wireType grease extId)
  rw [dropGrease, List.filter_map, hpred]
  refine (List.map_congr_left fun extId hmem ↦ ?_).trans (List.map_id _)
  have hgrease := (List.mem_filter.mp hmem).2
  exact (wireType_eq_iff (Bool.not_eq_true' _ ▸ hgrease)).mpr rfl

end ExtensionBuilder

/-! ### What does not depend on the order -/

namespace ExtensionBuilder

variable {profile : BrowserProfile} {hostLen size : ℕ} {order : List UInt16}

/-- Only for the padding does it matter how long the hello is. -/
theorem isWritten_congr (profile : BrowserProfile) (size size' : ℕ) {extId : UInt16}
    (h : extId ≠ TlsExtensions.padding) :
    isWritten profile size extId = isWritten profile size' extId := by
  unfold isWritten
  split <;> first | rfl | contradiction

/-- If the padding comes last, the slots that write are a filter of the order. -/
theorem writtenSlots_eq_filter (h : TlsExtensions.padding ∉ order.dropLast) :
    writtenSlots profile hostLen size order
      = order.filter (isWritten profile (sizeAfter profile hostLen size order.dropLast)) := by
  induction order generalizing size with
  | nil => rfl
  | cons extId order ih =>
    rcases order with - | ⟨extId', order⟩
    · rw [writtenSlots, List.filter_cons]
      rfl
    · rw [List.dropLast_cons_cons] at h ⊢
      have hne : extId ≠ TlsExtensions.padding := Ne.symm (List.ne_of_not_mem_cons h)
      rw [writtenSlots, ih (List.not_mem_of_not_mem_cons h), List.filter_cons (x := extId),
        isWritten_congr profile size _ hne]
      rfl

theorem dropLast_drawnOrder_perm (profile : BrowserProfile) (rng : OsRng) :
    (drawnOrder profile rng).dropLast.Perm profile.extensionOrder.dropLast := by
  have hlast := getLast?_drawnOrder profile rng
  have hperm := drawnOrder_perm profile rng
  rcases hsome : profile.extensionOrder.getLast? with _ | last
  · rw [hsome, List.getLast?_eq_none_iff] at hlast
    rw [hlast, List.getLast?_eq_none_iff.mp hsome]
  · rw [hsome] at hlast
    rw [← List.dropLast_append_getLast? _ hlast, ← List.dropLast_append_getLast? _ hsome] at hperm
    exact (List.perm_append_right_iff _).mp hperm

/-- How long the hello is before its last slot. -/
theorem sizeAfter_dropLast_drawnOrder
    (hpadding : TlsExtensions.padding ∉ profile.extensionOrder.dropLast) (rng : OsRng) :
    sizeAfter profile hostLen size (drawnOrder profile rng).dropLast
      = sizeAfter profile hostLen size profile.extensionOrder.dropLast := by
  have hperm := dropLast_drawnOrder_perm profile rng
  rw [sizeAfter_eq_sum profile hostLen (mt hperm.mem_iff.mp hpadding),
    sizeAfter_eq_sum profile hostLen hpadding, (hperm.map _).sum_nat]

/-- **The shuffle changes the order of what is written, and nothing else.** -/
theorem writtenSlots_drawnOrder_perm
    (hpadding : TlsExtensions.padding ∉ profile.extensionOrder.dropLast) (rng : OsRng) :
    (writtenSlots profile hostLen size (drawnOrder profile rng)).Perm
      (writtenSlots profile hostLen size profile.extensionOrder) := by
  have hdrawn := mt (dropLast_drawnOrder_perm profile rng).mem_iff.mp hpadding
  rw [writtenSlots_eq_filter hdrawn, writtenSlots_eq_filter hpadding,
    sizeAfter_dropLast_drawnOrder hpadding]
  exact (drawnOrder_perm profile rng).filter _

/-- How long the hello is in the end. -/
theorem sizeAfter_drawnOrder (hpadding : TlsExtensions.padding ∉ profile.extensionOrder.dropLast)
    (rng : OsRng) :
    sizeAfter profile hostLen size (drawnOrder profile rng)
      = sizeAfter profile hostLen size profile.extensionOrder := by
  have hlast := getLast?_drawnOrder profile rng
  rcases hsome : profile.extensionOrder.getLast? with _ | last
  · rw [hsome, List.getLast?_eq_none_iff] at hlast
    rw [hlast, List.getLast?_eq_none_iff.mp hsome]
  · have hsplit {order : List UInt16} (h : order.getLast? = some last) :
        sizeAfter profile hostLen size order
          = sizeWith profile hostLen (sizeAfter profile hostLen size order.dropLast) last := by
      conv_lhs => rw [← List.dropLast_append_getLast? _ h]
      exact List.foldl_append ..
    rw [hsplit (hlast.trans hsome), hsplit hsome, sizeAfter_dropLast_drawnOrder hpadding]

end ExtensionBuilder

/-! ### Contents that are not drawn -/

namespace ExtensionBuilder

variable {profile : BrowserProfile} {host : String} {pubKey : Bytes} {grease : GreaseSet}
  {overhead : ℕ} {order : List UInt16} {es : List Tlv.Entry}

/-- What the slots that fingerprints look into write. -/
def slotData (profile : BrowserProfile) (host : String) (grease : GreaseSet) :
    UInt16 → Option Bytes
  | TlsExtensions.sni => some (hostName host)
  | TlsExtensions.supportedGroups =>
    some (u16Vector (withGreaseValue profile.hasGrease grease.group profile.groups))
  | TlsExtensions.ecPointFormats => some [1, 0x00]
  | TlsExtensions.signatureAlgorithms => some (u16Vector profile.signatures)
  | TlsExtensions.alpn => some (protocolList profile.alpn)
  | TlsExtensions.supportedVersions =>
    let values := withGreaseValue profile.hasGrease grease.version profile.versions
    some (beBytes 1 (values.length * 2) ++ u16s values)
  | _ => none

/-- A stack has these slots, as far as the order of the profile has them. -/
def FindsSlots (profile : BrowserProfile) (host : String) (grease : GreaseSet)
    (stack : ExtensionStack) : Prop :=
  ∀ extId data, slotData profile host grease extId = some data →
    stack.findByType extId = if extId ∈ profile.extensionOrder then some data else none

theorem applySlot_of_slotData (profile : BrowserProfile) (host : String) (pubKey : Bytes)
    (overhead : ℕ) {b : ExtensionBuilder} {extId : UInt16} {data : Bytes}
    (h : slotData profile host b.grease extId = some data) (rng : OsRng) :
    (applySlot profile host pubKey overhead b extId rng).1 = b.addExtension extId data := by
  unfold slotData at h
  split at h <;> cases h <;> rfl

/-- Such a slot is no GREASE value. -/
theorem isGrease_of_slotData {extId : UInt16} {data : Bytes}
    (h : slotData profile host grease extId = some data) :
    TlsExtensions.isGrease extId = false := by
  unfold slotData at h
  split at h <;> first | rfl | cases h

/-- A type without a slot is not found. -/
theorem Block.find?_eq_none {size : ℕ} (h : Block profile host pubKey grease size order es)
    {etype : UInt16} (hetype : TlsExtensions.isGrease etype = false) (hmem : etype ∉ order) :
    es.find? (fun e ↦ e.tag == etype) = none := by
  rw [List.find?_eq_none]
  intro e he htag
  obtain ⟨_, extId, hextId, hslot⟩ := h.exists_isSlot e he
  rw [hslot.tag, beq_iff_eq, wireType_eq_iff hetype] at htag
  exact hmem (htag ▸ hextId)

/-- The first slot of a type writes what is found under it. -/
theorem findByType_of_run (hlen : pubKey.length = 32) {rng : OsRng} {extId : UInt16}
    {data : Bytes} (hdata : slotData profile host grease extId = some data) (hmem : extId ∈ order)
    (hrun : (order.foldlM (applySlot profile host pubKey overhead)
      (withGrease grease) rng).1.payload = Tlv.encode es)
    (hes : (Tlv.encode es).length < 2 ^ 16) :
    (ExtensionStack.ofEntries es).findByType extId = some data := by
  obtain ⟨pre, post, rfl, hpre⟩ := List.eq_append_cons_of_mem hmem
  -- the slots before it write a block of their own, and so do those after it
  obtain ⟨before, hbefore, hrunBefore⟩ := foldlM_applySlot_block profile host hlen overhead pre
    (withGrease grease) rng
  let mid := pre.foldlM (applySlot profile host pubKey overhead) (withGrease grease) rng
  have hmid : mid.1 = { withGrease grease with payload := Tlv.encode before } := hrunBefore
  let next := applySlot profile host pubKey overhead mid.1 extId mid.2
  have hnext : next.1 = mid.1.addExtension extId data :=
    applySlot_of_slotData profile host pubKey overhead (by rw [hmid]; exact hdata) mid.2
  obtain ⟨after, -, hrunAfter⟩ :=
    foldlM_applySlot_block profile host hlen overhead post next.1 next.2
  have hwhole : Tlv.encode es = Tlv.encode (before ++ ⟨extId, data⟩ :: after) := by
    rw [List.foldlM_append] at hrun
    change (post.foldlM (applySlot profile host pubKey overhead) next.1 next.2).1.payload = _
      at hrun
    rw [hrunAfter, hnext, hmid] at hrun
    rw [← hrun, Tlv.encode_append, Tlv.encode_cons, ← List.append_assoc]
    rfl
  -- what was written can be read in one way only
  have hdecode := congrArg Tlv.decode hwhole
  rw [Tlv.decode_encode (fits_of_mem hes), Tlv.decode_encode (fits_of_mem (hwhole ▸ hes))]
    at hdecode
  have heq : es = before ++ ⟨extId, data⟩ :: after := (Prod.ext_iff.mp hdecode).1
  have hnone := hbefore.find?_eq_none (isGrease_of_slotData hdata) hpre
  have hfound : (Tlv.Entry.mk extId data :: after).find? (fun e ↦ e.tag == extId)
      = some ⟨extId, data⟩ := List.find?_cons_of_pos (beq_self_eq_true extId)
  rw [ExtensionStack.findByType_ofEntries, heq, List.find?_append, hnone, Option.none_or, hfound]
  rfl

/-- The slots that fingerprints look into are found. -/
theorem findsSlots_applyProfile (hlen : pubKey.length = 32) {rng : OsRng}
    (hrun : ((withGrease grease).applyProfile profile host pubKey overhead rng).1.payload
      = Tlv.encode es)
    (hblock : Block profile host pubKey grease overhead (drawnOrder profile rng) es)
    (hes : (Tlv.encode es).length < 2 ^ 16) :
    FindsSlots profile host grease (.ofEntries es) := by
  intro extId data hdata
  have hperm := drawnOrder_perm profile rng
  split
  · next hmem =>
    have hdrawn := hperm.mem_iff.mpr hmem
    by_cases hshuffle : profile.shuffleExtensions = true
    · rw [drawnOrder, if_pos hshuffle] at hdrawn
      rw [applyProfile, if_pos hshuffle] at hrun
      exact findByType_of_run hlen hdata hdrawn hrun hes
    · rw [drawnOrder, if_neg hshuffle] at hdrawn
      rw [applyProfile, if_neg hshuffle] at hrun
      exact findByType_of_run hlen hdata hdrawn hrun hes
  · next hmem =>
    rw [ExtensionStack.findByType_ofEntries,
      hblock.find?_eq_none (isGrease_of_slotData hdata) (mt hperm.mem_iff.mp hmem)]
    rfl

end ExtensionBuilder

/-! ### What is observed -/

namespace ClientHello

/-- The GREASE values of a hello. -/
def drawnGrease (rng : OsRng) : GreaseSet := (GreaseSet.random (OsRng.fillBytes 15 rng).2).1

variable {profile : BrowserProfile} {host : String}

/-- An observer reads the hello of the draw, and finds the slots fingerprints look into. -/
theorem exists_observed (hfits : profile.Fits) (hhost : (utf8 host).length ≤ 253)
    (hmac : HmacSha256) (now : UInt64) (keys : SessionKeys) (rng : OsRng) :
    ∃ (hello : ClientHello) (es : List Tlv.Entry),
      observe (makeClientHello hmac now profile host keys rng).1 = some (hello, .ofEntries es) ∧
      hello.version = .tls12 ∧ hello.sessionId.length = 32 ∧
      hello.cipherSuites = withGreaseValue profile.hasGrease (drawnGrease rng).cipher
        profile.cipherSuites ∧
      (makeClientHello hmac now profile host keys rng).1.length
        = 5 + (totalOverhead profile + (Tlv.encode es).length) ∧
      Block profile host keys.ecdh.publicKey.val (drawnGrease rng) (totalOverhead profile)
        (drawnOrder profile (extensionRng rng)) es ∧
      FindsSlots profile host (drawnGrease rng) (.ofEntries es) := by
  let grease := drawnGrease rng
  let suites := withGreaseValue profile.hasGrease grease.cipher profile.cipherSuites
  have hoverhead : 4 + (2 + 32 + 1 + 32 + 2 + suites.length * 2 + 2 + 2)
      = totalOverhead profile := by
    simp only [suites, length_withGreaseValue, totalOverhead]
  obtain ⟨es, hblock, hpayload⟩ := withGrease_block profile host keys.ecdh.publicKey
    (totalOverhead profile) grease (extensionRng rng)
  let sessionId := keys.claimedVersion
    :: ((OsRng.fillBytes 15 rng).1.val ++ (keys.handshakeTag hmac now keys.salt.localSalt).val)
  let hello : ClientHello := ⟨.tls12, keys.salt.localSalt, sessionId, suites, Tlv.encode es⟩
  have hrecord : (makeClientHello hmac now profile host keys rng).1
      = (TlsRecord.new .handshake profile.recordLayerVersion hello.serialize).serialize := by
    show (TlsRecord.new .handshake profile.recordLayerVersion
      (serialize ⟨.tls12, keys.salt.localSalt, sessionId, suites,
        ((withGrease grease).applyProfile profile host keys.ecdh.publicKey.val
          (4 + (2 + 32 + 1 + 32 + 2 + suites.length * 2 + 2 + 2)) (extensionRng rng)).1.payload⟩
      )).serialize = _
    rw [hoverhead, hpayload]
  have hsid : hello.sessionId.length = 32 := by simp [hello, sessionId]
  have htotal : hello.serialize.length = totalOverhead profile + (Tlv.encode es).length := by
    rw [length_serialize_eq, hsid, ← hoverhead]
    show 4 + (2 + 32 + 1 + 32 + 2 + 2 + 2) + 2 * suites.length + (Tlv.encode es).length = _
    omega
  have hlen : hello.serialize.length < 2 ^ 16 := by
    have hrun := hfits hmac now host keys rng hhost
    rw [hrecord, TlsRecord.length_serialize] at hrun
    exact Nat.lt_of_add_lt_add_left hrun
  refine ⟨hello, es, ?_, rfl, hsid, rfl, ?_, hblock, ?_⟩
  · have hread : unpackHandshake ((TlsRecord.new .handshake profile.recordLayerVersion
        hello.serialize).serialize ++ []) = _ :=
      unpackHandshake_serialize rfl hsid rfl hlen profile.recordLayerVersion []
    rw [List.append_nil] at hread
    rw [observe, hrecord, hread]
  · rw [hrecord, TlsRecord.length_serialize]
    exact congrArg (5 + ·) htotal
  · exact findsSlots_applyProfile keys.ecdh.publicKey.property hpayload hblock (by omega)

end ClientHello

namespace ExtensionBuilder.FindsSlots

variable {profile : BrowserProfile} {host : String} {grease : GreaseSet} {stack : ExtensionStack}

theorem isSome (h : FindsSlots profile host grease stack) {extId : UInt16} {data : Bytes}
    (hdata : slotData profile host grease extId = some data) :
    (stack.findByType extId).isSome = decide (extId ∈ profile.extensionOrder) := by
  rw [h extId data hdata]
  split
  · next hmem => exact (decide_eq_true hmem).symm
  · next hmem => exact (decide_eq_false hmem).symm

theorem contents (h : FindsSlots profile host grease stack) {extId : UInt16} {data : Bytes}
    (hdata : slotData profile host grease extId = some data) :
    stack.contents extId = if extId ∈ profile.extensionOrder then data else [] := by
  rw [ExtensionStack.contents, h extId data hdata]
  split <;> rfl

/-- The values of a list, behind its length. -/
theorem values (h : FindsSlots profile host grease stack) {extId : UInt16} {width n : ℕ}
    {values : List UInt16}
    (hdata : slotData profile host grease extId = some (beBytes width n ++ u16s values)) :
    valuesOf ((stack.contents extId).drop width)
      = if extId ∈ profile.extensionOrder then values else [] := by
  rw [h.contents hdata]
  split
  · rw [List.drop_left' (length_beBytes width n), valuesOf_u16s]
  · rw [List.drop_nil]
    rfl

end ExtensionBuilder.FindsSlots

section

variable {profile : BrowserProfile} {host : String} {pubKey : Bytes} {grease : GreaseSet}
  {rng : OsRng} {hello : ClientHello} {es : List Tlv.Entry}

/-- The JA3 of a hello is settled by the draw. -/
theorem Ja3.ofHello_eq
    (hblock : Block profile host pubKey grease (ClientHello.totalOverhead profile)
      (drawnOrder profile rng) es)
    (hfinds : FindsSlots profile host grease (.ofEntries es)) (hversion : hello.version = .tls12)
    (hsuites : hello.cipherSuites
      = withGreaseValue profile.hasGrease grease.cipher profile.cipherSuites) :
    ofHello hello (.ofEntries es)
      = profile.ja3 (utf8 host).length grease (drawnOrder profile rng) := by
  have hformats : ((ExtensionStack.ofEntries es).contents TlsExtensions.ecPointFormats).drop 1
      = if TlsExtensions.ecPointFormats ∈ profile.extensionOrder then [0x00] else [] := by
    rw [hfinds.contents rfl]
    split <;> rfl
  rw [ofHello, BrowserProfile.ja3, ExtensionStack.map_etype_ofEntries, hblock.map_tag, hversion,
    hsuites, hformats, hfinds.values rfl]

/-- The JA4 of a hello is the same for all draws. -/
theorem Ja4.ofHello_eq (hpadding : TlsExtensions.padding ∉ profile.extensionOrder.dropLast)
    (hblock : Block profile host pubKey grease (ClientHello.totalOverhead profile)
      (drawnOrder profile rng) es)
    (hfinds : FindsSlots profile host grease (.ofEntries es)) (hversion : hello.version = .tls12)
    (hsuites : hello.cipherSuites
      = withGreaseValue profile.hasGrease grease.cipher profile.cipherSuites) :
    ofHello hello (.ofEntries es) = profile.ja4 (utf8 host).length := by
  let stack := ExtensionStack.ofEntries es
  have htypes : (dropGrease (stack.extensions.map Extension.etype)).Perm
      (dropGrease (writtenSlots profile (utf8 host).length (ClientHello.totalOverhead profile)
        profile.extensionOrder)) := by
    rw [ExtensionStack.map_etype_ofEntries, hblock.map_tag, dropGrease_map_wireType]
    exact (writtenSlots_drawnOrder_perm hpadding rng).filter _
  have hsorted : sorted (ja4Types (dropGrease (stack.extensions.map Extension.etype))) = _ :=
    sorted_of_perm (htypes.filter _)
  have hoffered : (if (stack.findByType TlsExtensions.supportedVersions).isSome then
        highest (dropGrease (valuesOf ((stack.contents TlsExtensions.supportedVersions).drop 1)))
      else hello.version.toU16.toNat)
      = if TlsExtensions.supportedVersions ∈ profile.extensionOrder then
          highest (dropGrease profile.versions)
        else ProtocolVersion.tls12.toU16.toNat := by
    rw [hfinds.isSome rfl, hfinds.values rfl, hversion]
    split
    · next hmem =>
      rw [if_pos (of_decide_eq_true hmem), if_pos (of_decide_eq_true hmem),
        dropGrease_withGreaseValue]
    · next hmem => rw [if_neg (mt decide_eq_true hmem)]
  have hsignatures :
      dropGrease (valuesOf ((stack.contents TlsExtensions.signatureAlgorithms).drop 2))
        = if TlsExtensions.signatureAlgorithms ∈ profile.extensionOrder then
            dropGrease profile.signatures
          else [] := by
    rw [hfinds.values rfl]
    split <;> rfl
  show Ja4.mk _ _ _ _ _ _ _ _ = Ja4.mk _ _ _ _ _ _ _ _
  rw [hoffered, hsignatures, hsuites, dropGrease_withGreaseValue, htypes.length_eq,
    hsorted, hfinds.isSome rfl, hfinds.contents rfl]
  rfl

end

/-- **A profile has one JA4 and one length**, for all hosts of a length, whatever is drawn, whoever
asks and when; what it has of a JA3 beyond the draw is settled, too. -/
theorem hello_fingerprints {profile : BrowserProfile} (hfits : profile.Fits)
    (hpadding : TlsExtensions.padding ∉ profile.extensionOrder.dropLast) {host : String}
    (hhost : (utf8 host).length ≤ 253) (hmac : HmacSha256) (now : UInt64) (keys : SessionKeys)
    (rng : OsRng) :
    let wire := (ClientHello.makeClientHello hmac now profile host keys rng).1
    let hostLen := (utf8 host).length
    ∃ hello stack, observe wire = some (hello, stack) ∧
      Ja4.ofHello hello stack = profile.ja4 hostLen ∧
      Ja3.ofHello hello stack = profile.ja3 hostLen (ClientHello.drawnGrease rng)
        (drawnOrder profile (ClientHello.extensionRng rng)) ∧
      wire.length = 5 + sizeAfter profile hostLen (ClientHello.totalOverhead profile)
        profile.extensionOrder := by
  intro wire hostLen
  obtain ⟨hello, es, hread, hversion, -, hsuites, hlength, hblock, hfinds⟩ :=
    ClientHello.exists_observed hfits hhost hmac now keys rng
  refine ⟨hello, .ofEntries es, hread, Ja4.ofHello_eq hpadding hblock hfinds hversion hsuites,
    Ja3.ofHello_eq hblock hfinds hversion hsuites, ?_⟩
  rw [← sizeAfter_drawnOrder hpadding (ClientHello.extensionRng rng), ← hblock.size_add_length]
  exact hlength

/-- The profiles of sessions meet what is asked of one, whatever hash picks them. -/
theorem BrowserProfile.forSession_fits (hash : String → UInt64) (sessionId : String) :
    (forSession hash sessionId).Fits ∧
      TlsExtensions.padding ∉ (forSession hash sessionId).extensionOrder.dropLast := by
  have hmem : forSession hash sessionId ∈ all := List.get_mem ..
  have hpadding : ∀ profile ∈ all, TlsExtensions.padding ∉ profile.extensionOrder.dropLast := by
    decide
  refine ⟨shipped_fits _ ?_, hpadding _ hmem⟩
  exact List.mem_cons.mpr (Or.inl (List.mem_singleton.mp hmem))

/-- The profile in use, for a short host. -/
theorem hello_fingerprints_chrome140 :
    ∃ hello stack,
      observe (ClientHello.makeClientHello .sum 0 .chrome140 "example.com"
        (SessionKeys.new .sum true (.repeating 1)).1 (.repeating 3)).1 = some (hello, stack) ∧
      Ja4.ofHello hello stack = BrowserProfile.chrome140.ja4 11 := by
  obtain ⟨hello, stack, hread, hja4, -⟩ := @hello_fingerprints .chrome140
    (BrowserProfile.shipped_fits .chrome140 List.mem_cons_self) (by decide) "example.com"
    (by decide) .sum 0 (SessionKeys.new .sum true (.repeating 1)).1 (.repeating 3)
  exact ⟨hello, stack, hread, hja4⟩

/-! ### Every draw -/

/-- A GREASE value is a byte twice. -/
theorem eq_ofNat_of_isGrease {v : UInt16} (h : TlsExtensions.isGrease v = true) :
    ∃ low : Fin 256, v = UInt16.ofNat (257 * low) := by
  rw [TlsExtensions.isGrease] at h
  split at h
  · cases h
  have hbytes : v.toNat % 256 = v.toNat / 256 := by
    have heq := congrArg UInt16.toNat (beq_iff_eq.mp h)
    rw [UInt16.toNat_and, UInt16.toNat_shiftRight] at heq
    have hmod : v.toNat &&& (0x00ff : UInt16).toNat = v.toNat % 2 ^ 8 :=
      Nat.and_two_pow_sub_one_eq_mod v.toNat 8
    rw [hmod, Nat.shiftRight_eq_div_pow] at heq
    exact heq
  have hlt : v.toNat < 2 ^ 16 := UInt16.toNat_lt v
  have hnat : v.toNat = 257 * (v.toNat % 256) := by omega
  exact ⟨⟨v.toNat % 256, Nat.mod_lt _ (by decide)⟩,
    UInt16.ofNat_toNat.symm.trans (congrArg _ hnat)⟩

/-- The four high bits of a GREASE value tell which it is. -/
theorem greaseValues_getElem (v : GreaseValue) :
    greaseValues[(UInt8.ofNat (v.val.toNat / 4096)).toNat % 16] = v := by
  obtain ⟨v, hv⟩ := v
  obtain ⟨low, rfl⟩ := eq_ofNat_of_isGrease hv
  revert low
  decide +kernel

theorem OsRng.fillBytes_append {n : ℕ} (b : ByteArr n) (entropy : Entropy)
    (coefficients : Stream' (Fin 3329)) :
    fillBytes n ⟨b.val ++ₛ entropy, coefficients⟩ = (b, ⟨entropy, coefficients⟩) := by
  obtain ⟨b, rfl⟩ := b
  refine Prod.ext (Subtype.ext ?_) (congrArg (OsRng.mk · coefficients) ?_)
  · show (b ++ₛ entropy).take b.length = b
    rw [Stream'.take_append_of_le_length _ _ _ (Nat.le_refl _), List.take_length]
  · exact Stream'.drop_append_stream b entropy

/-- Five bytes that draw a given set. -/
def GreaseSet.entropy (grease : GreaseSet) : ByteArr 5 :=
  let spell (v : GreaseValue) : UInt8 := UInt8.ofNat (v.val.toNat / 4096)
  ⟨[spell grease.cipher, spell grease.group, spell grease.extFirst, spell grease.extLast,
    spell grease.version], rfl⟩

theorem GreaseSet.random_append (grease : GreaseSet) (entropy : Entropy)
    (coefficients : Stream' (Fin 3329)) :
    random ⟨grease.entropy.val ++ₛ entropy, coefficients⟩ = (grease, ⟨entropy, coefficients⟩) := by
  have hdrawn : GreaseSet.mk
      greaseValues[(UInt8.ofNat (grease.cipher.val.toNat / 4096)).toNat % 16]
      greaseValues[(UInt8.ofNat (grease.group.val.toNat / 4096)).toNat % 16]
      greaseValues[(UInt8.ofNat (grease.extFirst.val.toNat / 4096)).toNat % 16]
      greaseValues[(UInt8.ofNat (grease.extLast.val.toNat / 4096)).toNat % 16]
      greaseValues[(UInt8.ofNat (grease.version.val.toNat / 4096)).toNat % 16] = grease := by
    simp only [greaseValues_getElem]
  exact congrArg (·, (⟨entropy, coefficients⟩ : OsRng)) hdrawn

/-- Some entropy puts the middle of an order into a given order. -/
theorem exists_entropy {order middle : List UInt16} (hfour : 4 ≤ order.length)
    (hlen : order.length ≤ 65536) (hperm : middle.Perm (middleOf order)) :
    ∃ entropy : Entropy, ∀ coefficients,
      (shuffleMiddle order ⟨entropy, coefficients⟩).1
        = order.take 1 ++ middle ++ order.drop (order.length - 1) := by
  have hshort : ¬order.length < 4 := Nat.not_lt.mpr hfour
  have hlength := length_middleOf hshort
  have hsize : (middleOf order).toArray.size = (middleOf order).length := List.size_toArray
  obtain ⟨pick, hpick, hrun⟩ := FisherYates.exists_shuffle_eq (a := (middleOf order).toArray)
    (b := middle.toArray) (by omega) (Array.perm_iff_toList_perm.mpr hperm.symm)
  refine ⟨entropyOf pick, fun coefficients ↦ ?_⟩
  have hpicks : ∀ j ≤ (middleOf order).length - 1,
      pickOf ((entropyOf pick).take ((middleOf order).length * 2)) j = pick j :=
    fun j hj ↦ pickOf_entropyOf hpick (by omega) (by omega)
  rw [hsize] at hrun
  rw [shuffleMiddle_eq hshort, FisherYates.shuffle_congr hpicks, hrun]

/-- **No JA3 of a profile is out of reach.** For all GREASE values and every arrangement of the
extensions between the first and the last, there is randomness with which a hello has the JA3 of
these, whoever asks and when. -/
theorem every_ja3_drawn {profile : BrowserProfile} (hfits : profile.Fits)
    (hshuffle : profile.shuffleExtensions = true) (hfour : 4 ≤ profile.extensionOrder.length)
    (hlen : profile.extensionOrder.length ≤ 65536) {host : String}
    (hhost : (utf8 host).length ≤ 253) (grease : GreaseSet) {middle : List UInt16}
    (hperm : middle.Perm (middleOf profile.extensionOrder)) :
    let order := profile.extensionOrder
    ∃ rng, ∀ (hmac : HmacSha256) (now : UInt64) (keys : SessionKeys), ∃ hello stack,
      observe (ClientHello.makeClientHello hmac now profile host keys rng).1
        = some (hello, stack) ∧
      Ja3.ofHello hello stack = profile.ja3 (utf8 host).length grease
        (order.take 1 ++ middle ++ order.drop (order.length - 1)) := by
  intro order
  obtain ⟨entropy, hshuffled⟩ := exists_entropy hfour hlen hperm
  let noise : ByteArr 15 := .zero 15
  let rng : OsRng := ⟨noise.val ++ₛ (grease.entropy.val ++ₛ entropy), Stream'.const 0⟩
  have hnoise : OsRng.fillBytes 15 rng
      = (noise, ⟨grease.entropy.val ++ₛ entropy, Stream'.const 0⟩) :=
    OsRng.fillBytes_append noise _ _
  have hgrease : ClientHello.drawnGrease rng = grease := by
    rw [ClientHello.drawnGrease, hnoise, GreaseSet.random_append]
  have horder : drawnOrder profile (ClientHello.extensionRng rng)
      = order.take 1 ++ middle ++ order.drop (order.length - 1) := by
    rw [ClientHello.extensionRng, hnoise, GreaseSet.random_append, drawnOrder, if_pos hshuffle]
    exact hshuffled _
  refine ⟨rng, fun hmac now keys ↦ ?_⟩
  obtain ⟨hello, es, hread, hversion, -, hsuites, -, hblock, hfinds⟩ :=
    ClientHello.exists_observed hfits hhost hmac now keys rng
  rw [hgrease] at hsuites hblock hfinds
  exact ⟨hello, .ofEntries es, hread,
    horder ▸ Ja3.ofHello_eq hblock hfinds hversion hsuites⟩

/-- The profile in use, with its extensions turned around and one GREASE value throughout. -/
theorem every_ja3_drawn_chrome140 :
    let v : GreaseValue := ⟨0x0a0a, rfl⟩
    let order := BrowserProfile.chrome140.extensionOrder
    ∃ rng, ∀ (hmac : HmacSha256) (now : UInt64) (keys : SessionKeys), ∃ hello stack,
      observe (ClientHello.makeClientHello hmac now .chrome140 "example.com" keys rng).1
        = some (hello, stack) ∧
      Ja3.ofHello hello stack = BrowserProfile.chrome140.ja3 11 ⟨v, v, v, v, v⟩
        (order.take 1 ++ (middleOf order).reverse ++ order.drop (order.length - 1)) :=
  @every_ja3_drawn .chrome140 (BrowserProfile.shipped_fits .chrome140 List.mem_cons_self) rfl
    (by decide) (by decide) "example.com" (by decide) _ _ (List.reverse_perm _)
