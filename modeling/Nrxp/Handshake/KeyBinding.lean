import Nrxp.Crypto.Session

/-!
# What equal keys say about a session

Two sides that hold the same root have put the same into the extraction: both salts in the same
order, and the results of the same exchanges. The one assumption is that HKDF-Extract does not
collide on the two inputs. Nothing is assumed about the hellos, which an adversary may have written.
-/

namespace SessionKeys

/-- What a side puts into the extraction: both salts, and the results of its exchanges. -/
structure KeyInput where
  salts : ByteArr 64
  secrets : SharedSecrets

/-- The two arguments of the extraction. -/
def KeyInput.bytes (i : KeyInput) : Bytes × Bytes := (i.salts.val, i.secrets.ikm)

/-- The input parses back uniquely. -/
theorem KeyInput.bytes_injective {i j : KeyInput} (h : i.bytes = j.bytes) : i = j := by
  rcases i with ⟨salts, secrets⟩
  rcases j with ⟨salts', secrets'⟩
  obtain ⟨hsalts, hikm⟩ := Prod.ext_iff.mp h
  obtain rfl : salts = salts' := Subtype.ext hsalts
  obtain rfl : secrets = secrets' := SharedSecrets.ikm_injective hikm
  rfl

/-- The input of a side that has received a hello, by its salt and its extensions. -/
def keyInput (x : X25519) (salt : ByteArr 32) (extensions : ExtensionStack) (isServer : Bool)
    (keys : SessionKeys) : Option KeyInput :=
  match extractPeerPublic extensions isServer with
  | .ok publicKey => (keys.sharedSecrets x publicKey).map fun secrets ↦
      ⟨(keys.withRemoteSalt salt).salt.getTotal, secrets⟩
  | _ => none

variable {x : X25519} {hkdf : HkdfSha256} {salt salt' : ByteArr 32}
  {extensions extensions' : ExtensionStack} {isServer : Bool} {keys keys' : SessionKeys}
  {aead aead' : DirectionalAeadKeys} {i j : KeyInput}

/-- The root of a side that completed an update is extracted from its input. -/
theorem exists_keyInput (h : updateKeys x hkdf salt extensions isServer keys = (.ok aead, keys')) :
    ∃ i, keys.keyInput x salt extensions isServer = some i ∧
      keys'.datagramRoot = some (hkdf.extractKey i.bytes.1 i.bytes.2) := by
  obtain ⟨publicKey, secrets, hkey, hsecrets, rfl⟩ := exists_of_updateKeys h
  refine ⟨⟨(keys.withRemoteSalt salt).salt.getTotal, secrets⟩, ?_, rfl⟩
  rw [keyInput, hkey]
  dsimp only
  rw [hsecrets, Option.map_some]

/-- Where the input of a side comes from. -/
theorem exists_of_keyInput (hi : keys.keyInput x salt extensions isServer = some i) :
    ∃ publicKey, extractPeerPublic extensions isServer = .ok publicKey ∧
      keys.sharedSecrets x publicKey = some i.secrets := by
  rw [keyInput] at hi
  rcases hkey : extractPeerPublic extensions isServer with publicKey | e | _ <;> rw [hkey] at hi
  · obtain ⟨secrets, hsecrets, rfl⟩ := Option.map_eq_some_iff.mp hi
    exact ⟨publicKey, rfl, hsecrets⟩
  · cases hi
  · cases hi

/-- A client that knows its node makes the second exchange with the node's key, whatever it
receives. -/
theorem staticDh_of_peer {p : PeerIdentity} {rng : OsRng}
    (hi : (withIdentity x true (.ofPeer p) rng).1.keyInput x salt extensions isServer = some i) :
    i.secrets.staticDh = some (x.diffieHellman (freshSecret rng) p.staticPublic) := by
  obtain ⟨publicKey, -, hsecrets⟩ := exists_of_keyInput hi
  -- its own version is 3, and no received message changes it
  have hrun : (withIdentity x true (.ofPeer p) rng).1.sharedSecrets x publicKey
      = some ⟨x.diffieHellman (freshSecret rng) publicKey,
          some (x.diffieHellman (freshSecret rng) p.staticPublic)⟩ := rfl
  rw [hrun, Option.some.injEq] at hsecrets
  rw [← hsecrets]

/-- The second result of a side is one its credentials gave it. -/
theorem exists_identity_of_staticDh {d : ByteArr 32}
    (hi : keys.keyInput x salt extensions isServer = some i) (hd : i.secrets.staticDh = some d) :
    ∃ identity publicKey, keys.identity = some identity ∧
      extractPeerPublic extensions isServer = .ok publicKey ∧
      identity.staticDh x keys.ecdh publicKey = some d := by
  obtain ⟨publicKey, hkey, hsecrets⟩ := exists_of_keyInput hi
  obtain ⟨-, ⟨-, hnone⟩ | ⟨identity, d', -, hid, hstatic, hsome⟩⟩ := sharedSecrets_eq_some hsecrets
  · rw [hd] at hnone
    cases hnone
  · obtain rfl : d = d' := by rwa [hd, Option.some.injEq] at hsome
    exact ⟨identity, publicKey, hid, hkey, hstatic⟩

/-- A client that knows its node. -/
def peerSide : SessionKeys :=
  (withIdentity .sum true (.ofPeer ⟨.fill 32 7, .fill 32 9⟩) (.repeating 1)).1

/-- The node. -/
def nodeSide : SessionKeys :=
  (withIdentity .sum false (.ofLocal ⟨.fill 32 7, .fill 32 9, true⟩) (.repeating 2)).1

/-- What both put into the extraction. -/
def sharedInput : KeyInput :=
  ⟨⟨List.replicate 32 1 ++ List.replicate 32 2, by decide⟩, ⟨.fill 32 3, some (.fill 32 10)⟩⟩

theorem keyInput_peerSide :
    peerSide.keyInput .sum (.fill 32 2) (serverShare (.fill 32 2)) false = some sharedInput := by
  rw [keyInput, extractPeerPublic_serverShare (by decide)]
  rfl

theorem keyInput_nodeSide :
    nodeSide.keyInput .sum (.fill 32 1) (clientShare (.fill 32 1)) true = some sharedInput := by
  rw [keyInput, extractPeerPublic_clientShare (by decide)]
  rfl

/-- **Matching keys bind the session.** Whatever two hellos a client and a server took in, if their
roots are equal then so are their salts, in order, and the results of their exchanges: the first,
and the second, which both made or neither. A client that knows its node has made the second
exchange with the node's static key, and shares a root only with a side whose credentials gave it
the same result. -/
theorem key_binding {x : X25519} {hkdf : HkdfSha256} {salt salt' : ByteArr 32}
    {extensions extensions' : ExtensionStack} {client client' server server' : SessionKeys}
    {aead aead' : DirectionalAeadKeys}
    (hclient : updateKeys x hkdf salt extensions false client = (.ok aead, client'))
    (hserver : updateKeys x hkdf salt' extensions' true server = (.ok aead', server'))
    (hinjective : hkdf.InjectiveOn {input | ∃ i, (client.keyInput x salt extensions false = some i ∨
      server.keyInput x salt' extensions' true = some i) ∧ input = i.bytes}) :
    ∃ i j, client.keyInput x salt extensions false = some i ∧
      server.keyInput x salt' extensions' true = some j ∧
      (client'.datagramRoot = server'.datagramRoot →
        i.salts = j.salts ∧ i.secrets.ephemeralDh = j.secrets.ephemeralDh ∧
          i.secrets.staticDh = j.secrets.staticDh) ∧
      ∀ p rng, client = (withIdentity x true (.ofPeer p) rng).1 →
        let d := x.diffieHellman (freshSecret rng) p.staticPublic
        i.secrets.staticDh = some d ∧
          (client'.datagramRoot = server'.datagramRoot →
            ∃ identity publicKey, server.identity = some identity ∧
              extractPeerPublic extensions' true = .ok publicKey ∧
              identity.staticDh x server.ecdh publicKey = some d) := by
  obtain ⟨i, hi, hroot⟩ := exists_keyInput hclient
  obtain ⟨j, hj, hroot'⟩ := exists_keyInput hserver
  have hij : client'.datagramRoot = server'.datagramRoot → i = j := by
    rw [hroot, hroot', Option.some.injEq]
    exact fun heq ↦ KeyInput.bytes_injective
      (hinjective ⟨i, Or.inl hi, rfl⟩ ⟨j, Or.inr hj, rfl⟩ heq)
  refine ⟨i, j, hi, hj, fun h ↦ by rw [hij h]; exact ⟨rfl, rfl, rfl⟩, fun p rng hp ↦ ?_⟩
  subst hp
  have hstatic := staticDh_of_peer hi
  refine ⟨hstatic, fun h ↦ exists_identity_of_staticDh hj ?_⟩
  rw [← hij h]
  exact hstatic

/-- In an undisturbed handshake the node has computed the client's second exchange. -/
theorem key_binding_undisturbed :
    ∃ i j, peerSide.keyInput .sum (.fill 32 2) (serverShare (.fill 32 2)) false = some i ∧
      nodeSide.keyInput .sum (.fill 32 1) (clientShare (.fill 32 1)) true = some j ∧
      i.secrets.staticDh = some (.fill 32 10) ∧ j.secrets.staticDh = some (.fill 32 10) := by
  have hclient : updateKeys .sum .repeating (.fill 32 2) (serverShare (.fill 32 2)) false peerSide
      = (.ok _, _) := updateKeys_of_some (extractPeerPublic_serverShare (by decide))
    (show peerSide.sharedSecrets .sum (.fill 32 2) = some sharedInput.secrets from rfl)
  have hserver : updateKeys .sum .repeating (.fill 32 1) (clientShare (.fill 32 1)) true nodeSide
      = (.ok _, _) := updateKeys_of_some (extractPeerPublic_clientShare (by decide))
    (show nodeSide.sharedSecrets .sum (.fill 32 1) = some sharedInput.secrets from rfl)
  obtain ⟨i, j, hi, hj, hbound, hpeer⟩ := key_binding hclient hserver (by
    -- there is one input
    rintro _ ⟨i, hi, rfl⟩ _ ⟨j, hj, rfl⟩ -
    rw [keyInput_peerSide, keyInput_nodeSide, or_self, Option.some.injEq] at hi hj
    rw [← hi, ← hj])
  obtain ⟨hstatic, -⟩ := hpeer _ _ rfl
  refine ⟨i, j, hi, hj, hstatic, ?_⟩
  rw [← (hbound rfl).2.2]
  exact hstatic

end SessionKeys
