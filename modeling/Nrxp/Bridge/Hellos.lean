import Nrxp.Bridge.Handshake
import Nrxp.Tls.BlockRoundTrip
import Nrxp.Tls.HelloRoundTrip
import Mathlib.Algebra.Order.BigOperators.Group.List

/-!
# Hellos that were written are read

What one side makes with `makeClientHello` or `makeServerHello`, the other takes off with
`unpackHandshake`: the salt, the session id and the public key arrive. For a server's hello this
holds of every profile; a client's must fit into a record, and a profile `Fits` when that is so for
every draw.
-/

open TlsBridge

/-! ### Records and headers -/

/-- A handshake record is taken off and its payload parsed. -/
theorem unpackHandshake_ofPayload {payload : Bytes} (hlen : payload.length < 2 ^ 16)
    (version : ProtocolVersion) (rest : Bytes) :
    unpackHandshake ((TlsRecord.new .handshake version payload).serialize ++ rest)
      = ((parseHello payload).1 >>= fun message ↦ .ok (some message), rest) := by
  have hparse := TlsRecord.parse_serialize .handshake version hlen (fun h ↦ by cases h) rest
  rw [unpackHandshake, startProcess, Exec.bind_ok hparse]
  rfl

theorem parseExtensions_encode {es : List Tlv.Entry} (hfits : ∀ e ∈ es, e.Fits) :
    parseExtensions (Tlv.encode es) = .ok (.ofEntries es) := by
  rw [parseExtensions, ExtensionStack.parse_encode hfits]
  rfl

/-- The entries of a block that fits a length field fit one each. -/
theorem fits_of_mem {es : List Tlv.Entry} (hlen : (Tlv.encode es).length < 2 ^ 16) :
    ∀ e ∈ es, e.Fits := by
  induction es with
  | nil => simp
  | cons e es ih =>
    rw [Tlv.encode_cons, List.length_append, Tlv.Entry.length_bytes] at hlen
    rintro e' (_ | ⟨_, he'⟩)
    · show e.data.length < 2 ^ 16
      omega
    · exact ih (by omega) e' he'

/-! ### The client's hello -/

namespace ClientHello

/-- The length of a message without its extensions and its cipher suites, for a session id of 32
bytes. -/
def fixedLen : ℕ := 4 + (2 + 32 + 1 + 32 + 2 + 2 + 2)

theorem length_serialize {hello : ClientHello} (hsid : hello.sessionId.length = 32) :
    hello.serialize.length
      = fixedLen + 2 * hello.cipherSuites.length + hello.extensions.length := by
  rw [length_serialize_eq, hsid, fixedLen]

/-- **A client's hello that fits is read back.** -/
theorem unpackHandshake_serialize {hello : ClientHello} {es : List Tlv.Entry}
    (hversion : hello.version = .tls12) (hsid : hello.sessionId.length = 32)
    (hext : hello.extensions = Tlv.encode es) (hlen : hello.serialize.length < 2 ^ 16)
    (version : ProtocolVersion) (rest : Bytes) :
    unpackHandshake ((TlsRecord.new .handshake version hello.serialize).serialize ++ rest)
      = (.ok (some (.client hello (.ofEntries es))), rest) := by
  have htotal := hlen
  rw [length_serialize hsid] at htotal
  have hblock : hello.extensions.length < 2 ^ 16 := by omega
  obtain ⟨body, hserialize, hparse⟩ := exists_body (by omega) hlen
  obtain ⟨n1, n2, n3, hbytes, -⟩ := exists_handshakeBytes .client body
  rw [unpackHandshake_ofPayload hlen version rest, hserialize, hbytes, parseHello_client, hparse,
    Outcome.ok_bind, Outcome.ofOption_some, Outcome.ok_bind, hext,
    parseExtensions_encode (fits_of_mem (hext ▸ hblock)), ← hversion, ← hext]
  rfl

/-- The most bytes a hello of a profile takes, with a host name of a given length. -/
def mostLen (profile : BrowserProfile) (hostLen : ℕ) : ℕ :=
  fixedLen + 2 * (profile.cipherSuites.length + 1)
    + (profile.extensionOrder.map (ExtensionBuilder.slotLen profile hostLen)).sum

/-- A hello takes at most the most bytes of its profile, whatever is drawn. -/
theorem serialize_le_mostLen {profile : BrowserProfile} {host : String} {key : Bytes}
    {grease : GreaseSet} {rng : OsRng} {es : List Tlv.Entry} {hello : ClientHello}
    (hblock : ExtensionBuilder.Block profile host key grease (totalOverhead profile)
      (ExtensionBuilder.drawnOrder profile rng) es)
    (hlen : hello.serialize.length = totalOverhead profile + (Tlv.encode es).length) :
    hello.serialize.length ≤ mostLen profile (utf8 host).length := by
  have hslots := hblock.length_le
  rw [((ExtensionBuilder.drawnOrder_perm profile rng).map _).sum_nat] at hslots
  have hgrease : profile.hasGrease.toNat ≤ 1 := Bool.toNat_le profile.hasGrease
  rw [hlen, mostLen, fixedLen, totalOverhead]
  omega

end ClientHello

/-- Every client hello of the profile fits into a record, for every host name that has at most 253
bytes; then no length field in it is too short for its list. -/
def BrowserProfile.Fits (profile : BrowserProfile) : Prop :=
  ∀ (hmac : HmacSha256) (now : UInt64) (host : String) (keys : SessionKeys) (rng : OsRng),
    (utf8 host).length ≤ 253 →
      (ClientHello.makeClientHello hmac now profile host keys rng).1.length < 5 + 2 ^ 16

theorem ExtensionBuilder.slotLen_mono (profile : BrowserProfile) {n m : ℕ} (h : n ≤ m)
    (extId : UInt16) : slotLen profile n extId ≤ slotLen profile m extId := by
  unfold slotLen
  split
  all_goals omega

theorem ClientHello.mostLen_mono (profile : BrowserProfile) {n m : ℕ} (h : n ≤ m) :
    mostLen profile n ≤ mostLen profile m :=
  Nat.add_le_add_left
    (List.sum_le_sum fun extId _ ↦ ExtensionBuilder.slotLen_mono profile h extId) _

/-- A profile fits if the slots of its order do. -/
theorem BrowserProfile.fits_of_mostLen {profile : BrowserProfile}
    (h : ClientHello.mostLen profile 253 < 2 ^ 16) : profile.Fits := by
  intro hmac now host keys rng hhost
  obtain ⟨hello, _, _, es, hrecord, -, -, -, -, -, hblock, hlen⟩ :=
    ClientHello.makeClientHello_block hmac now profile host keys rng
  have hmost := ClientHello.serialize_le_mostLen hblock hlen
  have hmono := ClientHello.mostLen_mono profile hhost
  rw [hrecord, TlsRecord.length_serialize]
  show 5 + hello.serialize.length < _
  omega

/-- The profiles of the repository fit. -/
theorem BrowserProfile.shipped_fits : ∀ profile ∈ BrowserProfile.shipped, profile.Fits := by
  have hmost : ∀ profile ∈ BrowserProfile.shipped, ClientHello.mostLen profile 253 < 2 ^ 16 := by
    decide
  exact fun profile hmem ↦ fits_of_mostLen (hmost profile hmem)

/-- **A client's hello arrives**: the salt, the claimed version, the tag and the key. -/
theorem unpackHandshake_makeClientHello (hmac : HmacSha256) (now : UInt64)
    {profile : BrowserProfile} (hfits : profile.Fits)
    (hshare : TlsExtensions.keyShare ∈ profile.extensionOrder) {host : String}
    (hhost : (utf8 host).length ≤ 253) {keys : SessionKeys}
    (hne : keys.ecdh.publicKey ≠ .zero 32) (rng : OsRng) (rest : Bytes) :
    ∃ base extensions noise,
      unpackHandshake ((wrapClientHello hmac now profile host keys rng).1 ++ rest)
        = (.ok (some (.client base extensions)), rest) ∧
      base.random = keys.salt.localSalt ∧ noise.length = 15 ∧
      base.sessionId = keys.claimedVersion
        :: (noise ++ (keys.handshakeTag hmac now base.random).val) ∧
      SessionKeys.extractPeerPublic extensions true = .ok keys.ecdh.publicKey := by
  obtain ⟨hello, noise, _, es, hrecord, hversion, hrandom, hnoise, hsid, hext, hblock, -⟩ :=
    ClientHello.makeClientHello_block hmac now profile host keys rng
  have hmem : TlsExtensions.keyShare ∈
      ExtensionBuilder.drawnOrder profile (ClientHello.extensionRng rng) :=
    (ExtensionBuilder.drawnOrder_perm profile (ClientHello.extensionRng rng)).mem_iff.mpr hshare
  have hexists : ∃ e ∈ es, e.tag = TlsExtensions.keyShare := by
    obtain ⟨e, he, _, hslot⟩ := hblock.exists_of_mem hmem fun _ ↦ rfl
    exact ⟨e, he, hslot.tag⟩
  have hsidLen : hello.sessionId.length = 32 := by rw [hsid]; simp [hnoise]
  have hlen : hello.serialize.length < 2 ^ 16 := by
    have hrun := hfits hmac now host keys rng hhost
    rw [hrecord, TlsRecord.length_serialize] at hrun
    exact Nat.lt_of_add_lt_add_left hrun
  refine ⟨hello, .ofEntries es, noise, ?_, hrandom, hnoise, by rw [hrandom]; exact hsid,
    extractPeerPublic_ofEntries (hblock.isClientShare keys.ecdh.publicKey.property) hexists hne⟩
  show unpackHandshake ((ClientHello.makeClientHello hmac now profile host keys rng).1 ++ rest) = _
  rw [hrecord, ClientHello.unpackHandshake_serialize hversion hsidLen hext hlen]

/-! ### The server's hello -/

namespace ServerHello

/-- The extensions a server writes. -/
def entriesOf (profile : ServerProfile) (key : ByteArr 32) : List Tlv.Entry :=
  [⟨0x002b, beBytes 2 profile.versions.max.toU16.toNat⟩,
    ⟨SessionKeys.extKeyShare,
      beBytes 2 SessionKeys.groupX25519.toNat ++ beBytes 2 32 ++ key.val⟩]

theorem extensions_fromClientHello (base : ClientHello) (key salt : ByteArr 32)
    (profile : ServerProfile) :
    (fromClientHello base key.val salt profile).extensions
      = Tlv.encode (entriesOf profile key) := by
  have hkey : UInt16.ofNat key.val.length = 32 := by rw [key.property]; rfl
  have hlen : (beBytes 2 SessionKeys.groupX25519.toNat ++ beBytes 2 32 ++ key.val).length = 36 := by
    simp
  have hshare : (Tlv.Entry.mk SessionKeys.extKeyShare
      (beBytes 2 SessionKeys.groupX25519.toNat ++ beBytes 2 32 ++ key.val)).bytes
      = beBytes 2 0x0033 ++ beBytes 2 36
        ++ (beBytes 2 SessionKeys.groupX25519.toNat ++ beBytes 2 32 ++ key.val) := by
    rw [Tlv.Entry.bytes_eq, hlen]
    rfl
  rw [entriesOf, Tlv.encode_cons, Tlv.encode_cons, Tlv.encode_nil, List.append_nil, hshare]
  simp only [fromClientHello, hkey, List.append_assoc]
  rfl

theorem length_extensions_fromClientHello (base : ClientHello) (key salt : ByteArr 32)
    (profile : ServerProfile) :
    (fromClientHello base key.val salt profile).extensions.length = 46 := by
  rw [extensions_fromClientHello]
  simp [entriesOf, Tlv.encode, Tlv.Entry.length_bytes]

end ServerHello

/-- **A server's hello is read back.** -/
theorem unpackHandshake_fromClientHello {base : ClientHello} (hsid : base.sessionId.length = 32)
    (key salt : ByteArr 32) (profile : ServerProfile) (rest : Bytes) :
    unpackHandshake (ServerHello.makeServerHello base key.val salt profile ++ rest)
      = (.ok (some (.server (ServerHello.fromClientHello base key.val salt profile)
          (.ofEntries (ServerHello.entriesOf profile key)))), rest) := by
  let hello := ServerHello.fromClientHello base key.val salt profile
  let es := ServerHello.entriesOf profile key
  have hext : hello.extensions = Tlv.encode es :=
    ServerHello.extensions_fromClientHello base key salt profile
  have hblock : hello.extensions.length = 46 :=
    ServerHello.length_extensions_fromClientHello base key salt profile
  have hlt : hello.extensions.length < 2 ^ 16 := by rw [hblock]; decide
  have hlen : hello.serialize.length < 2 ^ 16 := by
    rw [ServerHello.length_serialize_eq, hblock]
    show 4 + (2 + 32 + 1 + base.sessionId.length + 2 + 1 + 2) + 46 < 2 ^ 16
    rw [hsid]
    decide
  have hsidLe : hello.sessionId.length ≤ 255 := by
    show base.sessionId.length ≤ 255
    rw [hsid]
    decide
  obtain ⟨body, hserialize, hparse⟩ := ServerHello.exists_body hsidLe hlen
  obtain ⟨n1, n2, n3, hbytes, -⟩ := exists_handshakeBytes .server body
  show unpackHandshake ((TlsRecord.new .handshake profile.recordLayerVersion
    hello.serialize).serialize ++ rest) = _
  rw [unpackHandshake_ofPayload hlen, hserialize, hbytes, parseHello_server, hparse,
    Outcome.ok_bind, Outcome.ofOption_some, Outcome.ok_bind, hext,
    parseExtensions_encode (fits_of_mem (hext ▸ hlt))]
  rfl

/-- **A server's hello arrives**: the salt and the key. -/
theorem unpackHandshake_makeServerHello {base : ClientHello} (hsid : base.sessionId.length = 32)
    (key salt : ByteArr 32) (hne : key ≠ .zero 32) (profile : ServerProfile) (rest : Bytes) :
    ∃ hello extensions,
      unpackHandshake (ServerHello.makeServerHello base key.val salt profile ++ rest)
        = (.ok (some (.server hello extensions)), rest) ∧
      hello.random = salt ∧ SessionKeys.extractPeerPublic extensions false = .ok key :=
  ⟨_, _, unpackHandshake_fromClientHello hsid key salt profile rest, rfl,
    SessionKeys.extractPeerPublic_of_share rfl (SessionKeys.keyInShare_server key) hne⟩
