import Nrxp.Bridge.Handshake

/-!
# Whom a strict node admits

The decision of a node about a client hello goes through the version the hello claims, the
credentials of the node and the tag. For a strict node it comes down to `Admissible`, and the key
the tag covers is the key the session is then derived with. Nothing about HMAC is assumed.
-/

open TlsBridge

/-- The session keys of a node before a handshake. -/
def nodeKeys (x : X25519) (node : LocalIdentity) (rng : OsRng) : SessionKeys :=
  (SessionKeys.withIdentity x false (.ofLocal node) rng).1

/-- The tag of a hello under the node's secret, for a step. -/
def CarriesTag (hmac : HmacSha256) (node : LocalIdentity) (base : ClientHello)
    (publicKey : ByteArr 32) (step : UInt64) : Prop :=
  base.sessionId.range? 16 16
    = some (SessionAuth.computeHandshakeTag hmac node.secret.val step base.random publicKey).val

/-- A hello a strict node admits, with the public key that is in its key share. -/
structure Admissible (hmac : HmacSha256) (node : LocalIdentity) (now : UInt64)
    (base : ClientHello) (extensions : ExtensionStack) (publicKey : ByteArr 32) : Prop where
  length_eq : base.sessionId.length = 32
  version_ge : ∃ version, base.sessionId[0]? = some version ∧ 3 ≤ version
  found : SessionKeys.extractPeerPublic extensions true = .ok publicKey
  /-- The tag is that of a step at most two away from the present one. -/
  tag_near : ∃ step, CarriesTag hmac node base publicKey step ∧
    (now / 60).toNat - 2 ≤ step.toNat ∧ step.toNat ≤ (now / 60).toNat + 2

/-- The pseudorandom key of a node's session with a client, from the salt and the key of the client:
both salts, and both exchanges with that key. -/
def nodePrk (x : X25519) (hkdf : HkdfSha256) (node : LocalIdentity) (rng : OsRng)
    (salt publicKey : ByteArr 32) : ByteArr 32 :=
  hkdf.extractKey (salt.val ++ (nodeKeys x node rng).salt.localSalt.val)
    ((x.diffieHellman (SessionKeys.freshSecret rng) publicKey).val
      ++ (x.diffieHellman node.staticPrivate publicKey).val ++ SessionKeys.ikmDomainV3)

variable {x : X25519} {hkdf : HkdfSha256} {hmac : HmacSha256} {now : UInt64}
  {node : LocalIdentity} {rng : OsRng} {profile : ServerProfile} {base : ClientHello}
  {extensions : ExtensionStack} {version : UInt8} {noise : Bytes} {publicKey : ByteArr 32}

/-- The tag of a session id that is laid out. -/
theorem carriesTag_iff {tag : ByteArr 16} (hnoise : noise.length = 15)
    (hsid : base.sessionId = version :: (noise ++ tag.val)) {step : UInt64} :
    CarriesTag hmac node base publicKey step ↔
      SessionAuth.computeHandshakeTag hmac node.secret.val step base.random publicKey = tag := by
  have hrange := Bytes.range?_append (a := version :: noise) (i := 16) (by simp [hnoise])
    tag.property []
  rw [List.append_nil, List.cons_append] at hrange
  rw [CarriesTag, hsid, hrange, Option.some.injEq, eq_comm, Subtype.ext_iff]

/-- The check of the tag by a strict node: a version below 3 is refused, from 3 on the tag must be
keyed. -/
theorem verifyHandshakeTag_iff {tag : ByteArr 16} (hstrict : node.strict = true) :
    ((nodeKeys x node rng).setPeerVersion version).verifyHandshakeTag hmac now tag base.random
        publicKey = true ↔
      3 ≤ version ∧ ∃ step ∈ stepWindow (now / authTimeStep),
        SessionAuth.computeHandshakeTag hmac node.secret.val step base.random publicKey = tag := by
  have hstatic : ((nodeKeys x node rng).setPeerVersion version).usesStaticDh
      = decide (3 ≤ version) := rfl
  rw [SessionKeys.verifyHandshakeTag, hstatic]
  by_cases hversion : 3 ≤ version
  · rw [decide_eq_true hversion, if_pos rfl]
    show (SessionAuth.mk node.secret).verifyHandshakeTag hmac now tag base.random publicKey = true
      ↔ _
    rw [SessionAuth.verifyHandshakeTag, SessionAuth.matchesWindow_iff]
    simp only [hversion, true_and]
  · -- the keyless tag is not looked at
    have hrejects : ((nodeKeys x node rng).setPeerVersion version).rejectsAnonymous = true :=
      hstrict
    rw [decide_eq_false hversion, if_neg (by simp), hrejects, if_pos rfl]
    simp only [hversion, false_and, Bool.false_eq_true]

/-- What a node derives once it has noted a version from 3 on. -/
theorem updateKeys_nodeKeys (hversion : 3 ≤ version) {salt : ByteArr 32}
    (hfound : SessionKeys.extractPeerPublic extensions true = .ok publicKey) :
    let prk := nodePrk x hkdf node rng salt publicKey
    SessionKeys.updateKeys x hkdf salt extensions true
        ((nodeKeys x node rng).setPeerVersion version)
      = (.ok (SessionKeys.aeadKeysOf hkdf prk true),
        (((nodeKeys x node rng).setPeerVersion version).withRemoteSalt salt).derived hkdf prk
          true) := by
  have hstatic : ((nodeKeys x node rng).setPeerVersion version).usesStaticDh = true :=
    decide_eq_true hversion
  have hsecrets : ((nodeKeys x node rng).setPeerVersion version).sharedSecrets x publicKey
      = some ⟨x.diffieHellman (SessionKeys.freshSecret rng) publicKey,
          some (x.diffieHellman node.staticPrivate publicKey)⟩ := by
    rw [SessionKeys.sharedSecrets, hstatic]
    rfl
  exact SessionKeys.updateKeys_of_some hfound hsecrets

/-- **An admissible hello is answered**, and the keys come from the public key its tag covers. -/
theorem wrapServerHello_of_admissible (x : X25519) (hkdf : HkdfSha256) (rng : OsRng)
    (profile : ServerProfile) (h : Admissible hmac node now base extensions publicKey) :
    let prk := nodePrk x hkdf node rng base.random publicKey
    ∃ version, base.sessionId[0]? = some version ∧
      wrapServerHello x hkdf hmac now (.client base extensions) profile (nodeKeys x node rng) =
        (.ok (ServerHello.makeServerHello base (nodeKeys x node rng).ecdh.publicKey.val
            (nodeKeys x node rng).salt.localSalt profile, version),
          (((nodeKeys x node rng).setPeerVersion version).withRemoteSalt base.random).derived hkdf
            prk true) := by
  intro prk
  obtain ⟨version, noise, tag, hnoise, hsid⟩ := exists_sessionId h.length_eq
  have hfirst : base.sessionId[0]? = some version := by rw [hsid]; rfl
  have hversion : 3 ≤ version := by
    obtain ⟨version', hfirst', hle⟩ := h.version_ge
    rw [hfirst, Option.some.injEq] at hfirst'
    rwa [hfirst']
  obtain ⟨step, hcarries, hlow, hhigh⟩ := h.tag_near
  have hstatic : ((nodeKeys x node rng).setPeerVersion version).usesStaticDh = true :=
    decide_eq_true hversion
  have hverify : ((nodeKeys x node rng).setPeerVersion version).verifyHandshakeTag hmac now tag
      base.random publicKey = true := by
    rw [SessionKeys.verifyHandshakeTag, hstatic, if_pos rfl]
    show SessionAuth.matchesWindow _ _ _ = true
    exact SessionAuth.matchesWindow_iff.mpr
      ⟨step, mem_stepWindow.mpr ⟨hlow, hhigh⟩, (carriesTag_iff hnoise hsid).mp hcarries⟩
  exact ⟨version, hfirst, wrapServerHello_of_verified hnoise hsid h.found hverify
    (updateKeys_nodeKeys hversion h.found)⟩

/-- Nothing else is answered by a strict node. -/
theorem exists_admissible_of_isOk (hstrict : node.strict = true)
    (hok : (wrapServerHello x hkdf hmac now (.client base extensions) profile
      (nodeKeys x node rng)).1.isOk = true) :
    ∃ publicKey, Admissible hmac node now base extensions publicKey := by
  by_cases hlen : base.sessionId.length = 32
  · obtain ⟨version, noise, tag, hnoise, hsid⟩ := exists_sessionId hlen
    rw [wrapServerHello_eq hnoise hsid] at hok
    rcases hfound : SessionKeys.extractPeerPublic extensions true with publicKey | e | _ <;>
      rw [hfound] at hok
    · by_cases hverify : ((nodeKeys x node rng).setPeerVersion version).verifyHandshakeTag hmac now
          tag base.random publicKey = true
      · obtain ⟨hversion, step, hstep, htag⟩ := (verifyHandshakeTag_iff hstrict).mp hverify
        obtain ⟨hlow, hhigh⟩ := mem_stepWindow.mp hstep
        exact ⟨publicKey,
          { length_eq := hlen
            version_ge := ⟨version, by rw [hsid]; rfl, hversion⟩
            found := hfound
            tag_near := ⟨step, (carriesTag_iff hnoise hsid).mpr htag, hlow, hhigh⟩ }⟩
      · dsimp only at hok
        rw [if_neg hverify] at hok
        cases hok
    · cases hok
    · cases hok
  · rw [wrapServerHello_of_length_ne hlen] at hok
    cases hok

/-- A node, and a hello keyed for it in step 100, for the ephemeral key `1, 1, ..`. -/
def strictNode : LocalIdentity := ⟨.fill 32 7, .fill 32 9, true⟩

def keyedHello : ClientHello where
  version := .tls12
  random := .fill 32 5
  sessionId := 3 :: (List.replicate 15 0 ++ (SessionAuth.computeHandshakeTag .sum
    strictNode.secret.val 100 (.fill 32 5) (.fill 32 1)).val)
  cipherSuites := [0x1301]
  extensions := []

/-- **Whom a strict node admits**: exactly the hellos with a session id of 32 bytes, a version from
3 on, a key in the key share, and the tag of a near step under the node's secret, over the salt of
the hello and that key. And the keys of the session are derived from that key. -/
theorem strict_admission (x : X25519) (hkdf : HkdfSha256) (hmac : HmacSha256) (now : UInt64)
    (node : LocalIdentity) (rng : OsRng) (profile : ServerProfile) (base : ClientHello)
    (extensions : ExtensionStack) (hstrict : node.strict = true) :
    ((wrapServerHello x hkdf hmac now (.client base extensions) profile
        (nodeKeys x node rng)).1.isOk = true ↔
      ∃ publicKey, Admissible hmac node now base extensions publicKey) ∧
    ∀ publicKey, Admissible hmac node now base extensions publicKey →
      let keys := (wrapServerHello x hkdf hmac now (.client base extensions) profile
        (nodeKeys x node rng)).2
      let prk := nodePrk x hkdf node rng base.random publicKey
      keys.datagramRoot = some prk ∧
        keys.currentAead = some (SessionKeys.aeadKeysOf hkdf prk true) ∧
        keys.authKey = hkdf.expandKey prk (utf8 "auth_key") 32 := by
  refine ⟨⟨exists_admissible_of_isOk hstrict, fun ⟨publicKey, h⟩ ↦ ?_⟩, fun publicKey h ↦ ?_⟩
  · obtain ⟨version, -, hrun⟩ := wrapServerHello_of_admissible x hkdf rng profile h
    rw [hrun]
    rfl
  · obtain ⟨version, -, hrun⟩ := wrapServerHello_of_admissible x hkdf rng profile h
    intro keys prk
    simp only [keys, hrun]
    exact ⟨rfl, rfl, rfl⟩

/-- Two steps later the hello is still admitted. -/
theorem strict_admission_two_steps_later :
    (wrapServerHello .sum .repeating .sum (102 * 60)
      (.client keyedHello (SessionKeys.clientShare (.fill 32 1))) .modern
      (nodeKeys .sum strictNode (.repeating 2))).1.isOk = true := by
  have hadmissible : Admissible .sum strictNode (102 * 60) keyedHello
      (SessionKeys.clientShare (.fill 32 1)) (.fill 32 1) :=
    { length_eq := by decide
      version_ge := ⟨3, rfl, by decide⟩
      found := SessionKeys.extractPeerPublic_clientShare (by decide)
      tag_near := ⟨100, by rw [CarriesTag]; decide +kernel, by decide, by decide⟩ }
  exact (strict_admission .sum .repeating .sum (102 * 60) strictNode (.repeating 2) .modern
    keyedHello _ rfl).1.mpr ⟨_, hadmissible⟩
