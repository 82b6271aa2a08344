import Nrxp.Handshake.Agreement

/-!
# The life of the handshake state

What the methods of the handshake state do to it, in any order of calls. A call that derives keys
uses the ephemeral private key and takes it away. Every other call, also one that fails half way,
leaves everything but what is noted of the other side: `EqApartFromPeer`.

Two results rest on this. `derived_at_most_once` is the run over arbitrary calls: after a derivation
there is no private key for a second one. `wrapServerHello_after_rejected` compares two runs: what a
rejected hello leaves behind is overwritten before the next hello is looked at.
-/

open TlsBridge

namespace SessionKeys

/-! ### What a failing call leaves behind -/

/-- The states agree but for what is noted of the other side, its version and its salt. -/
def EqApartFromPeer (keys keys' : SessionKeys) : Prop :=
  ∃ version salt, keys' = (keys.setPeerVersion version).withRemoteSalt salt

theorem EqApartFromPeer.refl (keys : SessionKeys) : keys.EqApartFromPeer keys :=
  ⟨keys.peerVersion, keys.salt.remoteSalt, rfl⟩

theorem EqApartFromPeer.trans {keys keys' keys'' : SessionKeys} (h : keys.EqApartFromPeer keys')
    (h' : keys'.EqApartFromPeer keys'') : keys.EqApartFromPeer keys'' := by
  obtain ⟨version, salt, rfl⟩ := h
  obtain ⟨version', salt', rfl⟩ := h'
  exact ⟨version', salt', rfl⟩

theorem eqApartFromPeer_setPeerVersion (keys : SessionKeys) (version : UInt8) :
    keys.EqApartFromPeer (keys.setPeerVersion version) :=
  ⟨version, keys.salt.remoteSalt, rfl⟩

theorem eqApartFromPeer_withRemoteSalt (keys : SessionKeys) (salt : ByteArr 32) :
    keys.EqApartFromPeer (keys.withRemoteSalt salt) :=
  ⟨keys.peerVersion, salt, rfl⟩

/-- The keys of the session, as far as they are there. -/
def sessionMaterial (keys : SessionKeys) :
    Option DirectionalAeadKeys × ByteArr 32 × Option (ByteArr 32) :=
  (keys.currentAead, keys.authKey, keys.datagramRoot)

theorem EqApartFromPeer.sessionMaterial_eq {keys keys' : SessionKeys}
    (h : keys.EqApartFromPeer keys') : keys'.sessionMaterial = keys.sessionMaterial := by
  obtain ⟨version, salt, rfl⟩ := h
  rfl

theorem EqApartFromPeer.privateKey_eq {keys keys' : SessionKeys} (h : keys.EqApartFromPeer keys') :
    keys'.ecdh.privateKey = keys.ecdh.privateKey := by
  obtain ⟨version, salt, rfl⟩ := h
  rfl

/-- Without a private key there is no exchange. -/
theorem sharedSecrets_of_burnt {x : X25519} {keys : SessionKeys} {publicKey : ByteArr 32}
    (h : keys.ecdh.privateKey = none) : keys.sharedSecrets x publicKey = none := by
  rw [sharedSecrets, ECDH.dh, h]
  rfl

/-- What an update does to the state: an error leaves the salt of the other side; keys are derived
with a private key, which is gone afterwards. -/
theorem updateKeys_burns (x : X25519) (hkdf : HkdfSha256) (salt : ByteArr 32)
    (extensions : ExtensionStack) (isServer : Bool) (keys : SessionKeys) :
    (∃ e keys', updateKeys x hkdf salt extensions isServer keys = (.err e, keys') ∧
      keys.EqApartFromPeer keys') ∨
    ∃ aead keys', updateKeys x hkdf salt extensions isServer keys = (.ok aead, keys') ∧
      keys.ecdh.privateKey ≠ none ∧ keys'.ecdh.privateKey = none := by
  rcases updateKeys_cases x hkdf salt extensions isServer keys with
    ⟨e, hrun⟩ | ⟨publicKey, secrets, -, hsecrets, hrun⟩
  · exact Or.inl ⟨e, _, hrun, keys.eqApartFromPeer_withRemoteSalt salt⟩
  · refine Or.inr ⟨_, _, hrun, fun hburnt ↦ ?_, rfl⟩
    rw [sharedSecrets_of_burnt hburnt] at hsecrets
    cases hsecrets

end SessionKeys

namespace TlsBridge

open SessionKeys

/-- **The two ways an answer ends.** A refused hello leaves its version, and perhaps its salt; an
answered one used the private key up. -/
theorem wrapServerHello_cases (x : X25519) (hkdf : HkdfSha256) (hmac : HmacSha256) (now : UInt64)
    (msg : HandshakeMessage) (profile : ServerProfile) (keys : SessionKeys) :
    (∃ e keys', wrapServerHello x hkdf hmac now msg profile keys = (.err e, keys') ∧
      keys.EqApartFromPeer keys') ∨
    ∃ answer keys', wrapServerHello x hkdf hmac now msg profile keys = (.ok answer, keys') ∧
      keys.ecdh.privateKey ≠ none ∧ keys'.ecdh.privateKey = none := by
  match msg with
  | .server base extensions => exact Or.inl ⟨_, keys, rfl, .refl keys⟩
  | .client base extensions =>
    by_cases hlen : base.sessionId.length = 32
    · obtain ⟨version, noise, tag, hnoise, hsid⟩ := exists_sessionId hlen
      have hversion := keys.eqApartFromPeer_setPeerVersion version
      rw [wrapServerHello_eq hnoise hsid]
      rcases hkey : extractPeerPublic extensions true with peerPublic | e | _
      · dsimp only
        split
        · rcases updateKeys_burns x hkdf base.random extensions true (keys.setPeerVersion version)
            with ⟨e, keys', hrun, heq⟩ | ⟨aead, keys', hrun, hsome, hnone⟩ <;> rw [hrun]
          · exact Or.inl ⟨_, keys', rfl, hversion.trans heq⟩
          · exact Or.inr ⟨_, keys', rfl, hsome, hnone⟩
        · exact Or.inl ⟨_, _, rfl, hversion⟩
      · exact Or.inl ⟨_, _, rfl, hversion⟩
      · exact absurd hkey (extractPeerPublic_ne_panic extensions true)
    · exact Or.inl ⟨_, keys, wrapServerHello_of_length_ne hlen keys, .refl keys⟩

end TlsBridge

/-! ### Calls in any order -/

namespace SessionKeys

/-- A call on the handshake state, with its arguments. -/
inductive Call where
  | setPeerVersion (version : UInt8)
  | handshakeTag (now : UInt64) (random : ByteArr 32)
  | verifyHandshakeTag (now : UInt64) (receivedTag : ByteArr 16) (random peerPublic : ByteArr 32)
  | updateKeys (salt : ByteArr 32) (extensions : ExtensionStack) (isServer : Bool)
  | wrapServerHello (now : UInt64) (msg : HandshakeMessage) (profile : ServerProfile)

/-- What a call returns. -/
inductive Answer where
  | unit
  | tag (tag : ByteArr 16)
  | verdict (accepted : Bool)
  | aead (result : Outcome AppError DirectionalAeadKeys)
  | hello (result : Outcome TlsError (Bytes × UInt8))

/-- Keys were derived. -/
def Answer.Derived : Answer → Prop
  | aead result => ∃ keys, result = .ok keys
  | hello result => ∃ answer, result = .ok answer
  | _ => False

/-- An error was returned. -/
def Answer.Failed : Answer → Prop
  | aead result => ∃ e, result = .err e
  | hello result => ∃ e, result = .err e
  | _ => False

/-- The call is one of those that derive keys. -/
def Call.Derives : Call → Prop
  | updateKeys _ _ _ => True
  | wrapServerHello _ _ _ => True
  | _ => False

section Calls

variable (x : X25519) (hkdf : HkdfSha256) (hmac : HmacSha256)

/-- Make a call. -/
def Call.run (keys : SessionKeys) : Call → Answer × SessionKeys
  | setPeerVersion version => (.unit, keys.setPeerVersion version)
  | handshakeTag now random => (.tag (keys.handshakeTag hmac now random), keys)
  | verifyHandshakeTag now receivedTag random peerPublic =>
    (.verdict (keys.verifyHandshakeTag hmac now receivedTag random peerPublic), keys)
  | updateKeys salt extensions isServer =>
    let (result, keys') := SessionKeys.updateKeys x hkdf salt extensions isServer keys
    (.aead result, keys')
  | wrapServerHello now msg profile =>
    let (result, keys') := TlsBridge.wrapServerHello x hkdf hmac now msg profile keys
    (.hello result, keys')

/-- The state after calls. -/
def afterCalls (calls : List Call) (keys : SessionKeys) : SessionKeys :=
  calls.foldl (fun keys call ↦ (call.run x hkdf hmac keys).2) keys

/-- **What one call does**: it derives keys and the private key is gone, or the state is the same
but for what is noted of the other side. -/
theorem Call.run_cases (call : Call) (keys : SessionKeys) :
    ((call.run x hkdf hmac keys).1.Derived ∧ keys.ecdh.privateKey ≠ none ∧
      (call.run x hkdf hmac keys).2.ecdh.privateKey = none) ∨
    (¬(call.run x hkdf hmac keys).1.Derived ∧ keys.EqApartFromPeer (call.run x hkdf hmac keys).2 ∧
      (call.Derives → (call.run x hkdf hmac keys).1.Failed)) := by
  cases call with
  | setPeerVersion version =>
    exact Or.inr ⟨False.elim, keys.eqApartFromPeer_setPeerVersion version, False.elim⟩
  | handshakeTag now random => exact Or.inr ⟨False.elim, .refl keys, False.elim⟩
  | verifyHandshakeTag now receivedTag random peerPublic =>
    exact Or.inr ⟨False.elim, .refl keys, False.elim⟩
  | updateKeys salt extensions isServer =>
    rcases updateKeys_burns x hkdf salt extensions isServer keys with
      ⟨e, keys', hrun, heq⟩ | ⟨aead, keys', hrun, hsome, hnone⟩ <;> simp only [Call.run, hrun]
    · exact Or.inr ⟨by rintro ⟨aead, ⟨⟩⟩, heq, fun _ ↦ ⟨e, rfl⟩⟩
    · exact Or.inl ⟨⟨aead, rfl⟩, hsome, hnone⟩
  | wrapServerHello now msg profile =>
    rcases wrapServerHello_cases x hkdf hmac now msg profile keys with
      ⟨e, keys', hrun, heq⟩ | ⟨answer, keys', hrun, hsome, hnone⟩ <;> simp only [Call.run, hrun]
    · exact Or.inr ⟨by rintro ⟨answer, ⟨⟩⟩, heq, fun _ ↦ ⟨e, rfl⟩⟩
    · exact Or.inl ⟨⟨answer, rfl⟩, hsome, hnone⟩

/-- The private key does not outlive the keys of the session. -/
def Burnt (keys : SessionKeys) : Prop :=
  keys.currentAead ≠ none ∨ keys.datagramRoot ≠ none → keys.ecdh.privateKey = none

theorem EqApartFromPeer.burnt {keys keys' : SessionKeys} (h : keys.EqApartFromPeer keys')
    (hburnt : keys.Burnt) : keys'.Burnt := by
  obtain ⟨version, salt, rfl⟩ := h
  exact hburnt

theorem burnt_run {keys : SessionKeys} (h : keys.Burnt) (call : Call) :
    (call.run x hkdf hmac keys).2.Burnt := by
  rcases call.run_cases x hkdf hmac keys with ⟨-, -, hnone⟩ | ⟨-, heq, -⟩
  · exact fun _ ↦ hnone
  · exact heq.burnt h

theorem burnt_afterCalls {keys : SessionKeys} (h : keys.Burnt) (calls : List Call) :
    (afterCalls x hkdf hmac calls keys).Burnt := by
  induction calls generalizing keys with
  | nil => exact h
  | cons call calls ih => exact ih (burnt_run x hkdf hmac h call)

theorem burnt_freshKeys (isInitiator : Bool) (identity : Option Identity) (rng : OsRng) :
    (freshKeys x isInitiator identity rng).1.Burnt := by
  rintro (h | h) <;> cases identity <;> exact absurd rfl h

/-- Without a private key a call leaves the keys of the session alone, and if it is one that derives
keys it fails. -/
theorem run_of_burnt {keys : SessionKeys} (h : keys.ecdh.privateKey = none) (call : Call) :
    keys.EqApartFromPeer (call.run x hkdf hmac keys).2 ∧
      (call.Derives → (call.run x hkdf hmac keys).1.Failed) := by
  rcases call.run_cases x hkdf hmac keys with ⟨-, hsome, -⟩ | ⟨-, heq, hfailed⟩
  · exact absurd h hsome
  · exact ⟨heq, hfailed⟩

theorem afterCalls_of_burnt {keys : SessionKeys} (h : keys.ecdh.privateKey = none)
    (calls : List Call) : keys.EqApartFromPeer (afterCalls x hkdf hmac calls keys) := by
  induction calls generalizing keys with
  | nil => exact .refl keys
  | cons call calls ih =>
    have heq := (run_of_burnt x hkdf hmac h call).1
    exact heq.trans (ih (heq.privateKey_eq.trans h))

/-- **Keys are derived at most once.** For fresh handshake state and any calls on it: with keys of
the session or a datagram root there is no ephemeral private key; and after a call that derived
keys, and any others, a call that would derive keys fails and leaves the keys of the session as they
were derived. -/
theorem derived_at_most_once (isInitiator : Bool) (identity : Option Identity) (rng : OsRng)
    (calls : List Call) :
    let keys := afterCalls x hkdf hmac calls (freshKeys x isInitiator identity rng).1
    (keys.currentAead ≠ none ∨ keys.datagramRoot ≠ none → keys.ecdh.privateKey = none) ∧
    ∀ call : Call, (call.run x hkdf hmac keys).1.Derived →
      ∀ (later : List Call) (last : Call), last.Derives →
        let derived := (call.run x hkdf hmac keys).2
        let reached := afterCalls x hkdf hmac later derived
        (last.run x hkdf hmac reached).1.Failed ∧
          reached.sessionMaterial = derived.sessionMaterial ∧
          (last.run x hkdf hmac reached).2.sessionMaterial = reached.sessionMaterial := by
  intro keys
  refine ⟨burnt_afterCalls x hkdf hmac (burnt_freshKeys x isInitiator identity rng) calls, ?_⟩
  intro call hderived later last hlast derived reached
  have hnone : derived.ecdh.privateKey = none := by
    rcases call.run_cases x hkdf hmac keys with ⟨-, -, hnone⟩ | ⟨hnot, -, -⟩
    · exact hnone
    · exact absurd hderived hnot
  have heq : derived.EqApartFromPeer reached := afterCalls_of_burnt x hkdf hmac hnone later
  obtain ⟨hlastEq, hfailed⟩ := run_of_burnt x hkdf hmac (heq.privateKey_eq.trans hnone) last
  exact ⟨hfailed hlast, heq.sessionMaterial_eq, hlastEq.sessionMaterial_eq⟩

end Calls

/-- A server that derived keys refuses to derive them again, for the other role too. -/
theorem derived_at_most_once_server :
    let keys := (freshKeys .sum false none (.repeating 2)).1
    let call := Call.updateKeys (.fill 32 5) (clientShare (.fill 32 9)) true
    ((Call.updateKeys (.fill 32 6) (serverShare (.fill 32 8)) false).run .sum .repeating .sum
      (afterCalls .sum .repeating .sum [.setPeerVersion 3]
        (call.run .sum .repeating .sum keys).2)).1.Failed := by
  intro keys call
  have hne : ByteArr.fill 32 9 ≠ ByteArr.zero 32 := by decide
  have hsecrets : keys.sharedSecrets .sum (.fill 32 9) = some ⟨.fill 32 11, none⟩ := rfl
  have hrun : updateKeys .sum .repeating (.fill 32 5) (clientShare (.fill 32 9)) true keys
      = (.ok _, _) := updateKeys_of_some (extractPeerPublic_clientShare hne) hsecrets
  have hderived : (call.run .sum .repeating .sum keys).1.Derived := ⟨_, congrArg Prod.fst hrun⟩
  exact ((derived_at_most_once .sum .repeating .sum false none (.repeating 2) []).2 call hderived
    [.setPeerVersion 3] (.updateKeys (.fill 32 6) (serverShare (.fill 32 8)) false) trivial).1

end SessionKeys

/-! ### Rejected hellos -/

section Rejected

variable (x : X25519) (hkdf : HkdfSha256) (hmac : HmacSha256)

/-- Messages that came in one after the other, at some times and for some profiles, and were all
refused. -/
inductive Rejected : SessionKeys → SessionKeys → Prop
  | nil (keys : SessionKeys) : Rejected keys keys
  | cons {now : UInt64} {msg : HandshakeMessage} {profile : ServerProfile} {e : TlsError}
      {keys keys' keys'' : SessionKeys}
      (h : wrapServerHello x hkdf hmac now msg profile keys = (.err e, keys'))
      (rest : Rejected keys' keys'') : Rejected keys keys''

theorem Rejected.eqApartFromPeer {keys keys' : SessionKeys} (h : Rejected x hkdf hmac keys keys') :
    keys.EqApartFromPeer keys' := by
  induction h with
  | nil keys => exact .refl keys
  | @cons now msg profile e keys keys' keys'' h rest ih =>
    rcases wrapServerHello_cases x hkdf hmac now msg profile keys with
      ⟨e', reached, hrun, heq⟩ | ⟨answer, reached, hrun, -⟩ <;> rw [hrun] at h <;> cases h
    exact heq.trans ih

/-- **A server's answer does not depend on what was noted of the other side**, nor do the keys it
derives. -/
theorem wrapServerHello_congr (now : UInt64) (msg : HandshakeMessage) (profile : ServerProfile)
    {keys keys' : SessionKeys} (h : keys.EqApartFromPeer keys') :
    (wrapServerHello x hkdf hmac now msg profile keys').1
        = (wrapServerHello x hkdf hmac now msg profile keys).1 ∧
      ((wrapServerHello x hkdf hmac now msg profile keys).1.isOk = true →
        (wrapServerHello x hkdf hmac now msg profile keys').2
          = (wrapServerHello x hkdf hmac now msg profile keys).2) := by
  obtain ⟨version', salt', rfl⟩ := h
  match msg with
  | .server base extensions => exact ⟨rfl, fun hok ↦ by cases hok⟩
  | .client base extensions =>
    by_cases hlen : base.sessionId.length = 32
    · obtain ⟨version, noise, tag, hnoise, hsid⟩ := exists_sessionId hlen
      -- the version and the salt of the hello replace the ones that were noted
      have hupdate : SessionKeys.updateKeys x hkdf base.random extensions true
          (((keys.setPeerVersion version').withRemoteSalt salt').setPeerVersion version)
          = SessionKeys.updateKeys x hkdf base.random extensions true
            (keys.setPeerVersion version) := by
        rw [SessionKeys.updateKeys, Exec.modify_bind, Exec.modify_bind]
        rfl
      have hverify (peerPublic : ByteArr 32) :
          (((keys.setPeerVersion version').withRemoteSalt salt').setPeerVersion
            version).verifyHandshakeTag hmac now tag base.random peerPublic
          = (keys.setPeerVersion version).verifyHandshakeTag hmac now tag base.random
            peerPublic := rfl
      rw [wrapServerHello_eq hnoise hsid, wrapServerHello_eq hnoise hsid, hupdate]
      rcases SessionKeys.extractPeerPublic extensions true with peerPublic | e | _
      · simp only [hverify]
        split
        · exact ⟨rfl, fun _ ↦ rfl⟩
        · exact ⟨rfl, fun hok ↦ by cases hok⟩
      · exact ⟨rfl, fun hok ↦ by cases hok⟩
      · exact ⟨rfl, fun hok ↦ by cases hok⟩
    · rw [wrapServerHello_of_length_ne hlen, wrapServerHello_of_length_ne hlen]
      exact ⟨rfl, fun hok ↦ by cases hok⟩

/-- **Rejected hellos leave no trace.** For every handshake state, whatever was refused before, at
whatever times: the result of the next hello is the one it has without them, and so are the keys of
the session; if the hello is answered, so is the whole state. -/
theorem wrapServerHello_after_rejected {keys keys' : SessionKeys}
    (h : Rejected x hkdf hmac keys keys') (now : UInt64) (msg : HandshakeMessage)
    (profile : ServerProfile) :
    (wrapServerHello x hkdf hmac now msg profile keys').1
        = (wrapServerHello x hkdf hmac now msg profile keys).1 ∧
      (wrapServerHello x hkdf hmac now msg profile keys').2.sessionMaterial
        = (wrapServerHello x hkdf hmac now msg profile keys).2.sessionMaterial ∧
      ((wrapServerHello x hkdf hmac now msg profile keys).1.isOk = true →
        (wrapServerHello x hkdf hmac now msg profile keys').2
          = (wrapServerHello x hkdf hmac now msg profile keys).2) := by
  have heq := h.eqApartFromPeer
  obtain ⟨hresult, hstate⟩ := wrapServerHello_congr x hkdf hmac now msg profile heq
  refine ⟨hresult, ?_, hstate⟩
  rcases wrapServerHello_cases x hkdf hmac now msg profile keys with
    ⟨e, reached, hrun, hreached⟩ | ⟨answer, reached, hrun, -⟩
  · -- both runs fail, and neither touches the keys
    rcases wrapServerHello_cases x hkdf hmac now msg profile keys' with
      ⟨e', reached', hrun', hreached'⟩ | ⟨answer, reached', hrun', -⟩
    · rw [hrun, hrun', hreached.sessionMaterial_eq, hreached'.sessionMaterial_eq,
        heq.sessionMaterial_eq]
    · rw [hrun, hrun'] at hresult
      cases hresult
  · rw [hstate (by rw [hrun]; rfl)]

end Rejected

/-- A strict node refuses a hello of the older version, and one of a node, before the next comes. -/
theorem wrapServerHello_after_rejected_strict :
    let keys := (freshKeys .sum false (some (.ofLocal ⟨.fill 32 7, .fill 32 9, true⟩))
      (.repeating 2)).1
    ∃ keys', Rejected .sum .repeating .sum keys keys' ∧ keys'.peerVersion ≠ keys.peerVersion ∧
      ∀ msg, (wrapServerHello .sum .repeating .sum 600 msg .modern keys').1
        = (wrapServerHello .sum .repeating .sum 600 msg .modern keys).1 := by
  intro keys
  let base : ClientHello := ⟨.tls12, .fill 32 5, List.replicate 32 2, [], []⟩
  have hsid : base.sessionId = 2 :: (List.replicate 15 2 ++ (ByteArr.fill 16 2).val) := rfl
  have hverify : (keys.setPeerVersion 2).verifyHandshakeTag .sum 100 (.fill 16 2) (.fill 32 5)
      (.fill 32 1) = false := rfl
  have hold : wrapServerHello .sum .repeating .sum 100
      (.client base (SessionKeys.clientShare (.fill 32 1))) .modern keys
      = (.err (refuse "Auth Failed"), keys.setPeerVersion 2) := by
    rw [wrapServerHello_eq rfl hsid, SessionKeys.extractPeerPublic_clientShare (by decide)]
    dsimp only
    rw [hverify]
    rfl
  have hstray : wrapServerHello .sum .repeating .sum 200
      (.server ⟨.tls12, .fill 32 5, [], 0x1301, []⟩ ⟨[]⟩) .modern (keys.setPeerVersion 2)
      = (.err (refuse "Expected ClientHello"), keys.setPeerVersion 2) := rfl
  have hrejected : Rejected .sum .repeating .sum keys (keys.setPeerVersion 2) :=
    .cons hold (.cons hstray (.nil _))
  exact ⟨_, hrejected, by decide, fun msg ↦
    (wrapServerHello_after_rejected .sum .repeating .sum hrejected 600 msg .modern).1⟩
