import Nrxp.Bridge.Hellos

/-!
# Agreement

Two sides that may talk to each other complete a handshake and hold mirrored keys. That both make
the same exchanges follows from `Compatible`, the list of the pairings there are, and from the
version the client claims; that the salts and the public keys arrive is what `Nrxp.Bridge.Hellos`
says of the messages.
-/

open TlsBridge

/-- Fresh keys of a side, with or without credentials. -/
def freshKeys (x : X25519) (isInitiator : Bool) : Option Identity → StateM OsRng SessionKeys
  | none => SessionKeys.new x isInitiator
  | some identity => SessionKeys.withIdentity x isInitiator identity

/-- The credentials of a client and of a node it can talk to. -/
inductive Compatible (x : X25519) : Option Identity → Option Identity → Prop
  /-- Neither has any. -/
  | anonymous : Compatible x none none
  /-- The node admits clients without. -/
  | lenient (node : LocalIdentity) (h : node.strict = false) :
      Compatible x none (some (.ofLocal node))
  /-- The client knows this node. -/
  | keyed (peer : PeerIdentity) (node : LocalIdentity) (hsecret : peer.secret = node.secret)
      (hstatic : peer.staticPublic = x.publicKey node.staticPrivate) :
      Compatible x (some (.ofPeer peer)) (some (.ofLocal node))

/-- Two sides hold the same keys, each the other way round. -/
structure Mirrored (client server : SessionKeys) : Prop where
  aead : ∃ a b, client.currentAead = some a ∧ server.currentAead = some b ∧
    a.txKey = b.rxKey ∧ a.txIv = b.rxIv ∧ a.rxKey = b.txKey ∧ a.rxIv = b.txIv
  authKey : client.authKey = server.authKey
  datagramRoot : ∃ root, client.datagramRoot = some root ∧ server.datagramRoot = some root

/-- One pseudorandom key gives mirrored keys. -/
theorem mirrored_derived (hkdf : HkdfSha256) (prk : ByteArr 32) (client server : SessionKeys) :
    Mirrored (client.derived hkdf prk false) (server.derived hkdf prk true) where
  aead := ⟨_, _, rfl, rfl, rfl, rfl, rfl, rfl⟩
  authKey := rfl
  datagramRoot := ⟨prk, rfl, rfl⟩

section Compatible

variable {x : X25519} {client server : Option Identity}

/-- Both salts, in the order of the roles. -/
theorem getTotal_freshKeys (x : X25519) (client server : Option Identity) (rng rng' : OsRng)
    (version : UInt8) :
    (((freshKeys x true client rng).1.withRemoteSalt
        (freshKeys x false server rng').1.salt.localSalt).salt.getTotal) =
      ((((freshKeys x false server rng').1.setPeerVersion version).withRemoteSalt
        (freshKeys x true client rng).1.salt.localSalt).salt.getTotal) := by
  rcases client with - | client <;> rcases server with - | server <;> rfl

/-- **Both sides make the same exchanges**, once the node has noted the version that was claimed. -/
theorem Compatible.sharedSecrets (hcompatible : Compatible x client server)
    (hcommutes : x.Commutes) (rng rng' : OsRng) :
    ∃ secrets,
      (freshKeys x true client rng).1.sharedSecrets x
          (freshKeys x false server rng').1.ecdh.publicKey = some secrets ∧
      ((freshKeys x false server rng').1.setPeerVersion
        (freshKeys x true client rng).1.claimedVersion).sharedSecrets x
          (freshKeys x true client rng).1.ecdh.publicKey = some secrets := by
  let secret := SessionKeys.freshSecret rng
  let secret' := SessionKeys.freshSecret rng'
  have hephemeral : x.diffieHellman secret' (x.publicKey secret)
      = x.diffieHellman secret (x.publicKey secret') := hcommutes secret' secret
  cases hcompatible with
  | anonymous =>
    refine ⟨⟨x.diffieHellman secret (x.publicKey secret'), none⟩, rfl, ?_⟩
    rw [← hephemeral]
    rfl
  | lenient node h =>
    -- the claimed version is 2
    refine ⟨⟨x.diffieHellman secret (x.publicKey secret'), none⟩, rfl, ?_⟩
    rw [← hephemeral]
    rfl
  | keyed peer node hsecret hstatic =>
    refine ⟨⟨x.diffieHellman secret (x.publicKey secret'),
      some (x.diffieHellman secret peer.staticPublic)⟩, rfl, ?_⟩
    rw [← hephemeral, hstatic, ← hcommutes node.staticPrivate secret]
    rfl

/-- **The tag is accepted** while the steps are near. -/
theorem Compatible.verifyHandshakeTag (hcompatible : Compatible x client server)
    (hmac : HmacSha256) {now now' : UInt64}
    (h : (now / authTimeStep).toNat ≤ (now' / authTimeStep).toNat + authWindowSize)
    (h' : (now' / authTimeStep).toNat ≤ (now / authTimeStep).toNat + authWindowSize)
    (rng rng' : OsRng) (random : ByteArr 32) :
    ((freshKeys x false server rng').1.setPeerVersion
        (freshKeys x true client rng).1.claimedVersion).verifyHandshakeTag hmac now'
      ((freshKeys x true client rng).1.handshakeTag hmac now random) random
        (freshKeys x true client rng).1.ecdh.publicKey = true := by
  cases hcompatible with
  | anonymous => exact SessionAuth.matchesWindow_of_near h h'
  | lenient node hlenient =>
    have hrejects : ((freshKeys x false (some (.ofLocal node)) rng').1.setPeerVersion
        (freshKeys x true none rng).1.claimedVersion).rejectsAnonymous = false := hlenient
    have hstatic : ((freshKeys x false (some (.ofLocal node)) rng').1.setPeerVersion
        (freshKeys x true none rng).1.claimedVersion).usesStaticDh = false := rfl
    rw [SessionKeys.verifyHandshakeTag, hstatic, hrejects]
    exact SessionAuth.matchesWindow_of_near h h'
  | keyed peer node hsecret hstatic =>
    have htag : (freshKeys x true (some (.ofPeer peer)) rng).1.handshakeTag hmac now random
        = SessionAuth.computeHandshakeTag hmac node.secret.val (now / authTimeStep) random
          (freshKeys x true (some (.ofPeer peer)) rng).1.ecdh.publicKey := by
      rw [← hsecret]
      rfl
    rw [htag]
    exact SessionAuth.matchesWindow_of_near h h'

end Compatible

/-- **Agreement.** For compatible credentials, a profile that fits and has a slot for the key share,
near clocks, and whatever is drawn: the two hellos are made, taken off and accepted, both sides
derive their keys, and these are mirrored. -/
theorem handshake_agreement {x : X25519} (hcommutes : x.Commutes) (hkdf : HkdfSha256)
    (hmac : HmacSha256) {client server : Option Identity} (hcompatible : Compatible x client server)
    {profile : BrowserProfile} (hfits : profile.Fits)
    (hshare : TlsExtensions.keyShare ∈ profile.extensionOrder) (serverProfile : ServerProfile)
    (host : String) (hhost : (utf8 host).length ≤ 253) (now now' : UInt64)
    (hnear : (now / 60).toNat ≤ (now' / 60).toNat + 2)
    (hnear' : (now' / 60).toNat ≤ (now / 60).toNat + 2) (rng rng' draws : OsRng)
    (hclient : (freshKeys x true client rng).1.ecdh.publicKey ≠ .zero 32)
    (hserver : (freshKeys x false server rng').1.ecdh.publicKey ≠ .zero 32) :
    ∃ (clientMsg serverMsg : HandshakeMessage) (answer : Bytes) (version : UInt8)
      (aead : DirectionalAeadKeys) (serverKeys clientKeys : SessionKeys),
      unpackHandshake
          (wrapClientHello hmac now profile host (freshKeys x true client rng).1 draws).1
        = (.ok (some clientMsg), []) ∧
      wrapServerHello x hkdf hmac now' clientMsg serverProfile (freshKeys x false server rng').1
        = (.ok (answer, version), serverKeys) ∧
      unpackHandshake answer = (.ok (some serverMsg), []) ∧
      SessionKeys.updateKeys x hkdf serverMsg.random serverMsg.extensions false
          (freshKeys x true client rng).1
        = (.ok aead, clientKeys) ∧
      Mirrored clientKeys serverKeys := by
  obtain ⟨base, extensions, noise, hunpack, hrandom, hnoise, hsid, hkey⟩ :=
    unpackHandshake_makeClientHello hmac now hfits hshare hhost hclient draws []
  have hsidLen : base.sessionId.length = 32 := by rw [hsid]; simp [hnoise]
  obtain ⟨hello, extensions', hunpack', hrandom', hkey'⟩ := unpackHandshake_makeServerHello hsidLen
    (freshKeys x false server rng').1.ecdh.publicKey
    (freshKeys x false server rng').1.salt.localSalt hserver serverProfile []
  rw [List.append_nil] at hunpack hunpack'
  obtain ⟨secrets, hsecrets, hsecrets'⟩ := hcompatible.sharedSecrets hcommutes rng rng'
  have hanswer : wrapServerHello x hkdf hmac now' (.client base extensions) serverProfile
      (freshKeys x false server rng').1 = (.ok _, _) := wrapServerHello_of_verified hnoise hsid hkey
    (hcompatible.verifyHandshakeTag hmac hnear hnear' rng rng' base.random)
    (SessionKeys.updateKeys_of_some hkey hsecrets')
  have hupdate : SessionKeys.updateKeys x hkdf hello.random extensions' false
      (freshKeys x true client rng).1 = (.ok _, _) := SessionKeys.updateKeys_of_some hkey' hsecrets
  refine ⟨.client base extensions, .server hello extensions', _, _, _, _, _, hunpack, hanswer,
    hunpack', hupdate, ?_⟩
  -- both sides extracted from the same input
  have hprk : SessionKeys.prkOf hkdf
      ((freshKeys x true client rng).1.withRemoteSalt hello.random) secrets
      = SessionKeys.prkOf hkdf (((freshKeys x false server rng').1.setPeerVersion
        (freshKeys x true client rng).1.claimedVersion).withRemoteSalt base.random) secrets := by
    rw [SessionKeys.prkOf, SessionKeys.prkOf, hrandom, hrandom', getTotal_freshKeys]
  rw [hprk]
  exact mirrored_derived hkdf _ _ _

/-- A client with the repository's profile of a browser and a strict node it knows, two steps
ahead. -/
theorem handshake_agreement_keyed :
    ∃ clientMsg, (unpackHandshake (wrapClientHello .sum (100 * 60) .chrome140 "example.org"
        (freshKeys .sum true (some (.ofPeer ⟨.fill 32 7, .fill 32 9⟩))
          (.repeating 1)).1 (.repeating 4)).1).1
        = .ok (some clientMsg) ∧
      (wrapServerHello .sum .repeating .sum (102 * 60) clientMsg .modern
        (freshKeys .sum false (some (.ofLocal ⟨.fill 32 7, .fill 32 9, true⟩))
          (.repeating 2)).1).1.isOk = true := by
  obtain ⟨clientMsg, -, answer, version, -, serverKeys, -, hunpack, hanswer, -⟩ :=
    handshake_agreement X25519.sum_commutes .repeating .sum
      (.keyed ⟨.fill 32 7, .fill 32 9⟩ ⟨.fill 32 7, .fill 32 9, true⟩ rfl rfl)
      (BrowserProfile.shipped_fits .chrome140 List.mem_cons_self) (by decide) .modern
      "example.org" (by decide) (100 * 60) (102 * 60) (by decide) (by decide) (.repeating 1)
      (.repeating 2) (.repeating 4) (by decide) (by decide)
  exact ⟨clientMsg, congrArg Prod.fst hunpack, by rw [hanswer]; rfl⟩
