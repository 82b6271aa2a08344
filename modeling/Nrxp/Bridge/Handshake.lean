import Nrxp.Bridge.AppData
import Nrxp.Tls.Handshake

/-!
# The handshake phase of the TLS bridge

Taking a hello off a read buffer and answering it. `unpackHandshake` is the third user of
`startProcess`; with `wrapClientHello` and `wrapServerHello` it carries the key exchange. A server
looks at the tag in the session id before it makes any exchange.
-/

/-- A hello, with its extensions parsed. -/
inductive HandshakeMessage where
  | client (base : ClientHello) (extensions : ExtensionStack)
  | server (base : ServerHello) (extensions : ExtensionStack)
  deriving DecidableEq

namespace HandshakeMessage

/-- The salt of the side that sent it. -/
def random : HandshakeMessage → ByteArr 32
  | client base _ => base.random
  | server base _ => base.random

def extensions : HandshakeMessage → ExtensionStack
  | client _ extensions => extensions
  | server _ extensions => extensions

end HandshakeMessage

namespace TlsBridge

/-- An error of the handshake that closes the leg. -/
def refuse (message : String) : TlsError := ⟨.handshake message, .drop, []⟩

/-- The error of a hello that is not one. The record is complete: waiting would not help. -/
def malformed : TlsError := refuse "Malformed handshake message"

/-- Parse an extension block, on a copy. -/
def parseExtensions (extensions : Bytes) : Outcome TlsError ExtensionStack := do
  .ofOption (refuse "Ext Err") (← (ExtensionStack.parse extensions).1)

/-- Parse the payload of a handshake record. -/
def parseHello : Exec Bytes TlsError HandshakeMessage := do
  let header ← Exec.lift (.ofOption malformed (← HelloHeader.parse))
  match header.headerType with
  | .client => do
    let hello ← Exec.lift (.ofOption malformed (← ClientHello.parse))
    let ext ← Exec.lift (parseExtensions hello.extensions)
    return .client hello ext
  | .server => do
    let hello ← Exec.lift (.ofOption malformed (← ServerHello.parse))
    let ext ← Exec.lift (parseExtensions hello.extensions)
    return .server hello ext

/-- Accept a hello only. -/
def handleHandshake (record : TlsRecord) : Outcome TlsError (Option HandshakeMessage) :=
  if record.contentType ≠ .handshake then
    .err ⟨.handshake "Expected Handshake record", .drop, record.serialize⟩
  else do
    return some (← (parseHello record.payload).1)

/-- Take a hello off the buffer. -/
def unpackHandshake : Exec Bytes TlsError (Option HandshakeMessage) :=
  startProcess handleHandshake

/-- Accept the empty record that middleboxes expect. -/
def handleMiddleboxCcs (record : TlsRecord) : Outcome TlsError (Option Unit) :=
  if record.contentType ≠ .changeCipherSpec then
    .err ⟨.tls "Expected ChangeCipherSpec record", .drop, record.serialize⟩
  else .ok (some ())

/-- Take that record off the buffer. -/
def unpackMiddleboxCcs : Exec Bytes TlsError (Option Unit) :=
  startProcess handleMiddleboxCcs

/-- That record, as both sides send it right after their hello. -/
def buildMiddleboxCcs : Bytes := TlsRecord.buildChangeCipherSpec

/-- The client's hello. -/
def wrapClientHello (hmac : HmacSha256) (now : UInt64) (profile : BrowserProfile) (host : String)
    (keys : SessionKeys) : StateM OsRng Bytes :=
  ClientHello.makeClientHello hmac now profile host keys

/-- Check a client's hello, derive the keys, and answer it. With the answer comes the version the
client claims. -/
def wrapServerHello (x : X25519) (hkdf : HkdfSha256) (hmac : HmacSha256) (now : UInt64)
    (clientMsg : HandshakeMessage) (profile : ServerProfile) :
    Exec SessionKeys TlsError (Bytes × UInt8) :=
  match clientMsg with
  | .client base extensions =>
    if base.sessionId.length ≠ 32 then Exec.throw (refuse "Invalid SessionID len")
    else do
      let peerVersion ← Exec.lift (.expect base.sessionId[0]?)
      Exec.modify (SessionKeys.setPeerVersion peerVersion)
      let receivedTag ← Exec.lift
        (.expect ((base.sessionId.range? 16 16).bind (ByteArr.ofBytes? 16)))
      let peerPublic ← Exec.lift
        ((SessionKeys.extractPeerPublic extensions true).mapErr fun _ ↦ refuse "Bad KeyShare")
      let keys ← Exec.get
      if !keys.verifyHandshakeTag hmac now receivedTag base.random peerPublic then
        Exec.throw (refuse "Auth Failed")
      else do
        let _ ← (SessionKeys.updateKeys x hkdf base.random extensions true).mapErr
          fun _ ↦ refuse "Key Exchange Failed"
        let keys ← Exec.get
        let hello := ServerHello.makeServerHello base keys.ecdh.publicKey.val keys.salt.localSalt
          profile
        return (hello, peerVersion)
  | .server _ _ => Exec.throw (refuse "Expected ClientHello")

/-! ### What unpacking does -/

/-- What follows the header of a hello, apart from the cursor: the body, then its extensions. -/
theorem fst_readHello {Hello : Type} (parse : Exec Bytes TlsError (Option Hello))
    (extensions : Hello → Bytes) (message : Hello → ExtensionStack → HandshakeMessage)
    (body : Bytes) :
    ((do
      let hello ← Exec.lift (.ofOption malformed (← parse))
      let ext ← Exec.lift (parseExtensions (extensions hello))
      return message hello ext : Exec Bytes TlsError HandshakeMessage) body).1 =
      ((parse body).1 >>= fun hello ↦ .ofOption malformed hello >>= fun hello ↦
        parseExtensions (extensions hello) >>= fun ext ↦ .ok (message hello ext)) := by
  rcases hparse : parse body with ⟨(- | hello) | e | _, rest⟩
  · rw [Exec.bind_ok hparse]
    rfl
  · rw [Exec.bind_ok hparse]
    exact Exec.fst_lift_bind (parseExtensions (extensions hello)) _ rest
  · rw [Exec.bind_err hparse]
    rfl
  · rw [Exec.bind_panic hparse]
    rfl

/-- The payload of a client's record. -/
theorem parseHello_client (n1 n2 n3 : UInt8) (body : Bytes) :
    (parseHello (HelloType.client.toByte :: n1 :: n2 :: n3 :: body)).1 =
      ((ClientHello.parse body).1 >>= fun hello ↦ .ofOption malformed hello >>= fun hello ↦
        parseExtensions hello.extensions >>= fun extensions ↦ .ok (.client hello extensions)) := by
  rw [parseHello, Exec.bind_ok (HelloHeader.parse_cons .client n1 n2 n3 body)]
  exact fst_readHello ClientHello.parse ClientHello.extensions .client body

/-- The payload of a server's record. -/
theorem parseHello_server (n1 n2 n3 : UInt8) (body : Bytes) :
    (parseHello (HelloType.server.toByte :: n1 :: n2 :: n3 :: body)).1 =
      ((ServerHello.parse body).1 >>= fun hello ↦ .ofOption malformed hello >>= fun hello ↦
        parseExtensions hello.extensions >>= fun extensions ↦ .ok (.server hello extensions)) := by
  rw [parseHello, Exec.bind_ok (HelloHeader.parse_cons .server n1 n2 n3 body)]
  exact fst_readHello ServerHello.parse ServerHello.extensions .server body

/-- Anything else is not a hello. -/
theorem parseHello_cases (payload : Bytes) :
    (parseHello payload).1 = .err malformed ∨
      ∃ (type : HelloType) (n1 n2 n3 : UInt8) (body : Bytes),
        payload = type.toByte :: n1 :: n2 :: n3 :: body := by
  rcases HelloHeader.parse_cases payload with hheader | hheader
  · left
    rw [parseHello, Exec.bind_ok hheader]
    rfl
  · exact Or.inr hheader

theorem parseExtensions_ne_panic (extensions : Bytes) : parseExtensions extensions ≠ .panic := by
  rw [parseExtensions, Outcome.bind_ne_panic_iff]
  refine ⟨ExtensionStack.parse_ne_panic extensions, fun stack _ ↦ ?_⟩
  cases stack <;> simp

/-- What follows the parse of a body does not panic. -/
theorem ofOption_parseExtensions_ne_panic {Hello : Type} (hello : Option Hello)
    (extensions : Hello → Bytes) (message : Hello → ExtensionStack → HandshakeMessage) :
    (Outcome.ofOption malformed hello >>= fun hello ↦ parseExtensions (extensions hello)
      >>= fun stack ↦ .ok (message hello stack)) ≠ .panic := by
  cases hello with
  | none => simp
  | some hello =>
    rw [Outcome.ofOption_some, Outcome.ok_bind, Outcome.bind_ne_panic_iff]
    exact ⟨parseExtensions_ne_panic (extensions hello), by simp⟩

/-- **A whole handshake record** is taken off and its payload parsed. -/
theorem unpackHandshake_record {v1 v2 l1 l2 : UInt8} {v : ProtocolVersion} {payload : Bytes}
    (hversion : ProtocolVersion.tryFrom (be16 v1 v2) = .ok v)
    (hlen : payload.length = (be16 l1 l2).toNat) (rest : Bytes) :
    unpackHandshake (ContentType.handshake.toByte :: v1 :: v2 :: l1 :: l2 :: (payload ++ rest))
      = ((parseHello payload).1 >>= fun message ↦ .ok (some message), rest) := by
  have hparse := TlsRecord.parse_record .handshake hversion hlen (fun h ↦ by cases h) rest
  rw [unpackHandshake, startProcess, Exec.bind_ok hparse]
  rfl

/-- Any other record is refused. -/
theorem handleHandshake_of_ne {record : TlsRecord} (h : record.contentType ≠ .handshake) :
    handleHandshake record
      = .err ⟨.handshake "Expected Handshake record", .drop, record.serialize⟩ :=
  if_pos h

/-- The record for middleboxes is taken off. -/
theorem unpackMiddleboxCcs_buildMiddleboxCcs :
    unpackMiddleboxCcs buildMiddleboxCcs = (.ok (some ()), []) := rfl

/-! ### What a server does -/

/-- **A server's answer** to a hello whose session id has the right length. -/
theorem wrapServerHello_eq {x : X25519} {hkdf : HkdfSha256} {hmac : HmacSha256} {now : UInt64}
    {base : ClientHello} {extensions : ExtensionStack} {profile : ServerProfile}
    {version : UInt8} {noise : Bytes} {tag : ByteArr 16} (hnoise : noise.length = 15)
    (hsid : base.sessionId = version :: (noise ++ tag.val)) (keys : SessionKeys) :
    wrapServerHello x hkdf hmac now (.client base extensions) profile keys =
      match SessionKeys.extractPeerPublic extensions true with
      | .ok peerPublic =>
        if (keys.setPeerVersion version).verifyHandshakeTag hmac now tag base.random peerPublic then
          match SessionKeys.updateKeys x hkdf base.random extensions true
            (keys.setPeerVersion version) with
          | (.ok _, keys') => (.ok (ServerHello.makeServerHello base keys'.ecdh.publicKey.val
              keys'.salt.localSalt profile, version), keys')
          | (.err _, keys') => (.err (refuse "Key Exchange Failed"), keys')
          | (.panic, keys') => (.panic, keys')
        else (.err (refuse "Auth Failed"), keys.setPeerVersion version)
      | .err _ => (.err (refuse "Bad KeyShare"), keys.setPeerVersion version)
      | .panic => (.panic, keys.setPeerVersion version) := by
  have hlen : base.sessionId.length = 32 := by rw [hsid]; simp [hnoise]
  have hversion : base.sessionId[0]? = some version := by rw [hsid]; rfl
  have htag : (base.sessionId.range? 16 16).bind (ByteArr.ofBytes? 16) = some tag := by
    have hrange := Bytes.range?_append (a := version :: noise) (i := 16) (by simp [hnoise])
      tag.property []
    rw [List.append_nil, List.cons_append] at hrange
    rw [hsid, hrange, Option.bind_some, ByteArr.ofBytes?_val]
  -- the version is noted before anything is verified
  rw [wrapServerHello, if_neg (by rw [hlen]; simp), hversion, Outcome.expect_some,
    Exec.lift_ok_bind, Exec.modify_bind, htag, Outcome.expect_some, Exec.lift_ok_bind]
  rcases SessionKeys.extractPeerPublic extensions true with peerPublic | e | _
  · dsimp only [Outcome.mapErr_ok]
    rw [Exec.lift_ok_bind, Exec.get_bind]
    rcases hverify : (keys.setPeerVersion version).verifyHandshakeTag hmac now tag base.random
        peerPublic with _ | _
    · rfl
    · rcases hupdate : SessionKeys.updateKeys x hkdf base.random extensions true
          (keys.setPeerVersion version) with ⟨out, keys'⟩
      have hmapped : (SessionKeys.updateKeys x hkdf base.random extensions true).mapErr
          (fun _ ↦ refuse "Key Exchange Failed") (keys.setPeerVersion version)
          = (out.mapErr fun _ ↦ refuse "Key Exchange Failed", keys') := by
        rw [Exec.mapErr_apply, hupdate]
      cases out with
      | ok aead => exact (Exec.bind_ok hmapped).trans rfl
      | err e => exact (Exec.bind_err hmapped).trans rfl
      | panic => exact (Exec.bind_panic hmapped).trans rfl
  · rfl
  · rfl

/-- A hello whose tag is accepted is answered when the keys can be derived. -/
theorem wrapServerHello_of_verified {x : X25519} {hkdf : HkdfSha256} {hmac : HmacSha256}
    {now : UInt64} {base : ClientHello} {extensions : ExtensionStack} {profile : ServerProfile}
    {version : UInt8} {noise : Bytes} {tag : ByteArr 16} {publicKey : ByteArr 32}
    {aead : DirectionalAeadKeys} {keys keys' : SessionKeys} (hnoise : noise.length = 15)
    (hsid : base.sessionId = version :: (noise ++ tag.val))
    (hkey : SessionKeys.extractPeerPublic extensions true = .ok publicKey)
    (hverify : (keys.setPeerVersion version).verifyHandshakeTag hmac now tag base.random publicKey
      = true)
    (hupdate : SessionKeys.updateKeys x hkdf base.random extensions true
      (keys.setPeerVersion version) = (.ok aead, keys')) :
    wrapServerHello x hkdf hmac now (.client base extensions) profile keys
      = (.ok (ServerHello.makeServerHello base keys'.ecdh.publicKey.val keys'.salt.localSalt
        profile, version), keys') := by
  rw [wrapServerHello_eq hnoise hsid, hkey]
  dsimp only
  rw [hverify, if_pos rfl, hupdate]

/-- A session id of the right length has three parts. -/
theorem exists_sessionId {sid : Bytes} (h : sid.length = 32) :
    ∃ version noise, ∃ tag : ByteArr 16, noise.length = 15 ∧
      sid = version :: (noise ++ tag.val) := by
  obtain ⟨front, tag, rfl, hfront⟩ := exists_split (n := 16) (b := sid) (by omega)
  obtain ⟨version, noise, rfl⟩ : ∃ version noise, front = version :: noise :=
    List.exists_cons_of_length_pos (by omega)
  rw [List.length_append, hfront] at h
  exact ⟨version, noise, ⟨tag, by omega⟩, by simpa using hfront, rfl⟩

/-- A session id of any other length is refused. -/
theorem wrapServerHello_of_length_ne {x : X25519} {hkdf : HkdfSha256} {hmac : HmacSha256}
    {now : UInt64} {base : ClientHello} {extensions : ExtensionStack} {profile : ServerProfile}
    (h : base.sessionId.length ≠ 32) (keys : SessionKeys) :
    wrapServerHello x hkdf hmac now (.client base extensions) profile keys
      = (.err (refuse "Invalid SessionID len"), keys) := by
  rw [wrapServerHello, if_pos h, Exec.throw_apply]

/-- A server does not panic, whatever hello it was given. -/
theorem wrapServerHello_ne_panic (x : X25519) (hkdf : HkdfSha256) (hmac : HmacSha256) (now : UInt64)
    (msg : HandshakeMessage) (profile : ServerProfile) (keys : SessionKeys) :
    (wrapServerHello x hkdf hmac now msg profile keys).1 ≠ .panic := by
  match msg with
  | .server base extensions =>
    rw [wrapServerHello, Exec.throw_apply]
    simp
  | .client base extensions =>
    by_cases hlen : base.sessionId.length = 32
    · obtain ⟨version, noise, tag, hnoise, hsid⟩ := exists_sessionId hlen
      rw [wrapServerHello_eq hnoise hsid]
      rcases hkey : SessionKeys.extractPeerPublic extensions true with peerPublic | e | _
      · have hupdate := SessionKeys.updateKeys_ne_panic x hkdf base.random extensions true
          (keys.setPeerVersion version)
        dsimp only
        split
        · rcases hrun : SessionKeys.updateKeys x hkdf base.random extensions true
            (keys.setPeerVersion version) with ⟨aead | e | _, keys'⟩ <;> rw [hrun] at hupdate
          · simp
          · simp
          · exact absurd rfl hupdate
        · simp
      · simp
      · exact absurd hkey (SessionKeys.extractPeerPublic_ne_panic extensions true)
    · rw [wrapServerHello_of_length_ne hlen]
      simp

end TlsBridge
