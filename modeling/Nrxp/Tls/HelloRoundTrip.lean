import Nrxp.Tls.ExtensionBlock
import Nrxp.Tls.Handshake

/-!
# Hellos round trip

Writing a hello, wrapping it in a record and reading it back: the record layer gives the message,
the header of the message gives its type and the length of its body, and the parser of the body
gives the hello and leaves nothing. A hello that fits has a `Layout`, so that what reading makes of
it is read off `parse_of_split` and `parse_eq`.
-/

/-! ### Records and headers -/

/-- **A record is read back**, whatever follows. -/
theorem TlsRecord.parse_serialize (c : ContentType) (version : ProtocolVersion) {payload : Bytes}
    (hlen : payload.length < 2 ^ 16) (h17 : c = .applicationData → 17 ≤ payload.length)
    (rest : Bytes) :
    parse ((new c version payload).serialize ++ rest)
      = (.ok (some (new c version payload)), rest) := by
  obtain ⟨l1, l2, hl, htoNat⟩ := exists_beBytes_two hlen
  have hversion : ProtocolVersion.tryFrom (be16 (UInt8.ofNat (version.toU16.toNat / 256 ^ 1))
      (UInt8.ofNat (version.toU16.toNat / 256 ^ 0))) = .ok version := by
    rw [be16_beBytes, ProtocolVersion.tryFrom_toU16]
  have hbytes : (new c version payload).serialize ++ rest
      = c.toByte :: UInt8.ofNat (version.toU16.toNat / 256 ^ 1)
        :: UInt8.ofNat (version.toU16.toNat / 256 ^ 0) :: l1 :: l2 :: (payload ++ rest) := by
    simp only [serialize, new, beBytes_two_ofNat, hl, List.cons_append, List.append_assoc,
      List.nil_append]
    rfl
  rw [hbytes, parse_record c hversion htoNat.symm h17]

theorem TlsRecord.length_serialize (r : TlsRecord) : r.serialize.length = 5 + r.payload.length := by
  simp only [serialize, List.length_cons, List.length_append, length_beBytes]
  omega

theorem exists_handshakeBytes (type : HelloType) (body : Bytes) :
    ∃ n1 n2 n3, handshakeBytes type body = type.toByte :: n1 :: n2 :: n3 :: body ∧
      beVal [n1, n2, n3] = body.length % 2 ^ 24 :=
  ⟨_, _, _, rfl, beVal_beBytes 3 body.length⟩

theorem length_handshakeBytes (type : HelloType) (body : Bytes) :
    (handshakeBytes type body).length = 4 + body.length := by
  obtain ⟨n1, n2, n3, h, -⟩ := exists_handshakeBytes type body
  rw [h]
  simp only [List.length_cons]
  omega

/-- The header of a message tells its type and the length of its body. -/
theorem HelloHeader.parse_handshakeBytes (type : HelloType) {body : Bytes}
    (hlen : body.length < 2 ^ 24) :
    parse (handshakeBytes type body) = (.ok (some ⟨type, body.length⟩), body) := by
  obtain ⟨n1, n2, n3, h, hval⟩ := exists_handshakeBytes type body
  rw [h, parse_cons, hval, Nat.mod_eq_of_lt hlen]

/-! ### The client's hello -/

namespace ClientHello

theorem readSuites_u16s (suites : List UInt16) : readSuites (u16s suites) = .ok suites := by
  induction suites with
  | nil => rfl
  | cons v suites ih =>
    show readSuites (UInt8.ofNat (v.toNat / 256 ^ 1) :: UInt8.ofNat (v.toNat / 256 ^ 0)
      :: u16s suites) = _
    rw [readSuites, ih, be16_beBytes]
    rfl

theorem splitExtensions_block {extensions : Bytes} (hlen : extensions.length < 2 ^ 16) :
    splitExtensions (beBytes 2 extensions.length ++ extensions) = some (extensions, []) := by
  obtain ⟨l1, l2, hl, htoNat⟩ := exists_beBytes_two hlen
  rw [hl, List.cons_append, List.cons_append, List.nil_append, splitExtensions,
    if_pos htoNat.le, htoNat, List.take_length, List.drop_length]

theorem length_serialize_eq (hello : ClientHello) :
    hello.serialize.length = 4 + (2 + 32 + 1 + hello.sessionId.length + 2 + 2 + 2)
      + 2 * hello.cipherSuites.length + hello.extensions.length := by
  rw [serialize, length_handshakeBytes]
  simp only [List.length_append, length_beBytes, ByteArr.length_val,
    ExtensionBuilder.length_u16s, List.length_cons, List.length_nil]
  omega

/-- **The layout of a hello** that was written: its fields, with the version of TLS 1.2 and one
compression method, are read back and nothing is left. -/
theorem exists_body {hello : ClientHello} (hsid : hello.sessionId.length ≤ 255)
    (hlen : hello.serialize.length < 2 ^ 16) :
    ∃ body, hello.serialize = handshakeBytes .client body ∧
      parse body = (.ok (some { hello with version := .tls12 }), []) := by
  have htotal := hlen
  rw [length_serialize_eq] at htotal
  have hsuites : (u16s hello.cipherSuites).length < 2 ^ 16 := by
    rw [ExtensionBuilder.length_u16s]
    omega
  let l : Layout :=
    { version := 0x0303
      random := hello.random
      sessionId := hello.sessionId
      ciphers := u16s hello.cipherSuites
      compression := [0x00]
      tail := beBytes 2 hello.extensions.length ++ hello.extensions
      sessionId_lt := Nat.lt_succ_of_le hsid
      ciphers_lt := hsuites
      compression_lt := by decide }
  refine ⟨l.bytes, ?_, ?_⟩
  · have hcount : hello.cipherSuites.length * 2 = (u16s hello.cipherSuites).length := by
      rw [ExtensionBuilder.length_u16s, Nat.mul_comm]
    simp only [serialize, Layout.bytes, l, hcount, List.append_assoc, List.cons_append,
      List.nil_append]
    rfl
  · have hsplit : splitExtensions l.tail = some (hello.extensions, []) :=
      splitExtensions_block (by omega)
    have hresult : l.result hello.extensions = .ok (some { hello with version := .tls12 }) := by
      have htls12 : ProtocolVersion.tryFrom l.version = .ok .tls12 := rfl
      rw [Layout.result, htls12, show l.ciphers = u16s hello.cipherSuites from rfl,
        readSuites_u16s]
      rfl
    obtain ⟨left, hparse, hleft⟩ := parse_of_split hsplit
    rw [hparse, hresult, hleft (by rw [hresult]; rfl)]

/-- The bytes a hello of a profile has around its extensions. -/
def totalOverhead (profile : BrowserProfile) : ℕ :=
  4 + (2 + 32 + 1 + 32 + 2 + (profile.cipherSuites.length + profile.hasGrease.toNat) * 2 + 2 + 2)

/-- The randomness a hello has left for its extensions. -/
def extensionRng (rng : OsRng) : OsRng := (GreaseSet.random (OsRng.fillBytes 15 rng).2).2

/-- **What a client writes**, whatever is drawn. -/
theorem makeClientHello_block (hmac : HmacSha256) (now : UInt64) (profile : BrowserProfile)
    (host : String) (keys : SessionKeys) (rng : OsRng) :
    ∃ (hello : ClientHello) (noise : Bytes) (grease : GreaseSet) (es : List Tlv.Entry),
      (makeClientHello hmac now profile host keys rng).1
        = (TlsRecord.new .handshake profile.recordLayerVersion hello.serialize).serialize ∧
      hello.version = .tls12 ∧ hello.random = keys.salt.localSalt ∧ noise.length = 15 ∧
      hello.sessionId = keys.claimedVersion
        :: (noise ++ (keys.handshakeTag hmac now keys.salt.localSalt).val) ∧
      hello.extensions = Tlv.encode es ∧
      ExtensionBuilder.Block profile host keys.ecdh.publicKey.val grease (totalOverhead profile)
        (ExtensionBuilder.drawnOrder profile (extensionRng rng)) es ∧
      hello.serialize.length = totalOverhead profile + (Tlv.encode es).length := by
  let noise := (OsRng.fillBytes 15 rng).1
  let grease := (GreaseSet.random (OsRng.fillBytes 15 rng).2).1
  let cipherSuites :=
    if profile.hasGrease then grease.cipher.val :: profile.cipherSuites else profile.cipherSuites
  let overhead := 4 + (2 + 32 + 1 + 32 + 2 + cipherSuites.length * 2 + 2 + 2)
  let sessionId := keys.claimedVersion
    :: (noise.val ++ (keys.handshakeTag hmac now keys.salt.localSalt).val)
  have hsuites : cipherSuites.length = profile.cipherSuites.length + profile.hasGrease.toNat :=
    ExtensionBuilder.length_withGreaseValue profile.hasGrease grease.cipher profile.cipherSuites
  -- the code computes the overhead by a formula of its own, which agrees with `serialize`
  have hoverhead : overhead = totalOverhead profile := by
    simp only [overhead, totalOverhead, hsuites]
  obtain ⟨es, hblock, hpayload⟩ := ExtensionBuilder.withGrease_block profile host
    keys.ecdh.publicKey overhead grease (extensionRng rng)
  let hello : ClientHello := ⟨.tls12, keys.salt.localSalt, sessionId, cipherSuites, Tlv.encode es⟩
  refine ⟨hello, noise.val, grease, es, ?_, rfl, rfl, noise.property, rfl, rfl, hoverhead ▸ hblock,
    ?_⟩
  · show (TlsRecord.new .handshake profile.recordLayerVersion
      (serialize ⟨.tls12, keys.salt.localSalt, sessionId, cipherSuites,
        (ExtensionBuilder.applyProfile profile host keys.ecdh.publicKey.val overhead
          (.withGrease grease) (extensionRng rng)).1.payload⟩)).serialize = _
    rw [hpayload]
  · have hsid : sessionId.length = 32 := by simp [sessionId]
    rw [length_serialize_eq, ← hoverhead]
    show 4 + (2 + 32 + 1 + sessionId.length + 2 + 2 + 2) + 2 * cipherSuites.length
      + (Tlv.encode es).length = overhead + (Tlv.encode es).length
    omega

end ClientHello

/-! ### The server's hello -/

namespace ServerHello

theorem length_serialize_eq (hello : ServerHello) :
    hello.serialize.length
      = 4 + (2 + 32 + 1 + hello.sessionId.length + 2 + 1 + 2) + hello.extensions.length := by
  rw [serialize, length_handshakeBytes]
  by_cases hext : hello.extensions = []
  · rw [if_neg (not_not.mpr hext), hext]
    simp only [List.length_append, length_beBytes, ByteArr.length_val, List.length_cons,
      List.length_nil]
    omega
  · rw [if_pos hext]
    simp only [List.length_append, length_beBytes, ByteArr.length_val, List.length_cons,
      List.length_nil]
    omega

/-- **The layout of a hello** that was written: its fields are read back and nothing is left. -/
theorem exists_body {hello : ServerHello} (hsid : hello.sessionId.length ≤ 255)
    (hlen : hello.serialize.length < 2 ^ 16) :
    ∃ body, hello.serialize = handshakeBytes .server body ∧
      parse body = (.ok (some hello), []) := by
  rw [length_serialize_eq] at hlen
  let l : Layout :=
    { version := hello.version.toU16
      random := hello.random
      sessionId := hello.sessionId
      cipherSuite := hello.cipherSuite
      compression := 0x00
      tail := beBytes 2 hello.extensions.length ++ hello.extensions
      sessionId_lt := Nat.lt_succ_of_le hsid }
  refine ⟨l.bytes, ?_, ?_⟩
  · -- an empty block is written as its length alone
    have hblock : (if hello.extensions ≠ [] then
        beBytes 2 hello.extensions.length ++ hello.extensions else beBytes 2 0)
        = beBytes 2 hello.extensions.length ++ hello.extensions := by
      split_ifs with hext
      · rfl
      · rw [not_not.mp hext]
        rfl
    rw [serialize, hblock]
    simp only [Layout.bytes, Layout.front, l, List.append_assoc, List.cons_append, List.nil_append]
  · have hsplit : ClientHello.splitExtensions l.tail = some (hello.extensions, []) :=
      ClientHello.splitExtensions_block (by omega)
    rw [parse_eq, hsplit]
    dsimp only
    rw [Layout.result, show l.version = hello.version.toU16 from rfl,
      ProtocolVersion.tryFrom_toU16]
    rfl

end ServerHello

/-! ### The round trip -/

/-- A message in a record of some version is read back: the record layer yields the message and
leaves what follows, the header has its type and the length of its body, and the body is read to
its end. -/
def RoundTrips {Hello : Type} (version : ProtocolVersion) (message rest : Bytes) (type : HelloType)
    (parse : Exec Bytes TlsError (Option Hello)) (hello : Hello) : Prop :=
  let record := TlsRecord.new .handshake version message
  TlsRecord.parse (record.serialize ++ rest) = (.ok (some record), rest) ∧
    ∃ body, HelloHeader.parse record.payload = (.ok (some ⟨type, body.length⟩), body) ∧
      parse body = (.ok (some hello), [])

theorem roundTrips_of_body {Hello : Type} {message : Bytes} (hlen : message.length < 2 ^ 16)
    {type : HelloType} {parse : Exec Bytes TlsError (Option Hello)} {hello : Hello}
    (h : ∃ body, message = handshakeBytes type body ∧ parse body = (.ok (some hello), []))
    (version : ProtocolVersion) (rest : Bytes) :
    RoundTrips version message rest type parse hello := by
  obtain ⟨body, rfl, hparse⟩ := h
  rw [length_handshakeBytes] at hlen
  refine ⟨TlsRecord.parse_serialize .handshake version ?_ (fun h ↦ by cases h) rest, body,
    HelloHeader.parse_handshakeBytes type (by omega), hparse⟩
  rw [length_handshakeBytes]
  exact hlen

/-- **Hellos round trip.** For every client's hello with a session id of at most 255 bytes that fits
a record, and every server's, in a record of any version, whatever follows. A client's hello is read
with the version of TLS 1.2, which is the one that is written. -/
theorem hello_round_trip (version : ProtocolVersion) (rest : Bytes) :
    (∀ hello : ClientHello, hello.sessionId.length ≤ 255 → hello.serialize.length < 2 ^ 16 →
      RoundTrips version hello.serialize rest .client ClientHello.parse
        { hello with version := .tls12 }) ∧
    (∀ hello : ServerHello, hello.sessionId.length ≤ 255 → hello.serialize.length < 2 ^ 16 →
      RoundTrips version hello.serialize rest .server ServerHello.parse hello) :=
  ⟨fun _ hsid hlen ↦ roundTrips_of_body hlen (ClientHello.exists_body hsid hlen) version rest,
    fun _ hsid hlen ↦ roundTrips_of_body hlen (ServerHello.exists_body hsid hlen) version rest⟩

/-- A client's hello without a session id and a server's without extensions. -/
theorem hello_round_trip_empty :
    RoundTrips .tls10 (ClientHello.serialize ⟨.tls13, .fill 32 7, [], [0x1301], [1, 2, 3]⟩) [9]
        .client ClientHello.parse ⟨.tls12, .fill 32 7, [], [0x1301], [1, 2, 3]⟩ ∧
      RoundTrips .tls10 (ServerHello.serialize ⟨.tls13, .fill 32 7, [5], 0x1301, []⟩) [9]
        .server ServerHello.parse ⟨.tls13, .fill 32 7, [5], 0x1301, []⟩ :=
  ⟨(hello_round_trip .tls10 [9]).1 _ (by decide) (by decide),
    (hello_round_trip .tls10 [9]).2 _ (by decide) (by decide)⟩
