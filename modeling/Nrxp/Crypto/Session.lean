import Nrxp.Crypto.ChaCha
import Nrxp.Crypto.Hkdf
import Nrxp.Crypto.Identity
import Nrxp.Crypto.SessionAuth
import Nrxp.Tls.Extension

/-!
# Session keys

One side of the handshake, from its fresh salt and ephemeral key to the keys of the session.
`updateKeys` takes in the hello of the other side: its salt, and the public key in its key-share
extension. The keys are expanded from one pseudorandom key; that key is extracted from both salts
and from the result of one exchange, or of two when the side has credentials and the version of
the other side allows it.

`SharedSecrets` collects the results of the exchanges, and `sharedSecrets` says when they exist;
`generateKeys_of_some` then is all there is to know about the derivation.
-/

/-- The version of the authenticated scheme. -/
def protocolVersion : UInt8 := 3

/-- The version of a side without credentials. -/
def protocolVersionAnonymous : UInt8 := 2

/-- The least version the second exchange is made with. -/
def minVersionForStaticDh : UInt8 := 3

/-- The salts of both sides. -/
structure SaltPair where
  localSalt : ByteArr 32
  /-- Zeros until the hello of the other side is there. -/
  remoteSalt : ByteArr 32
  isInitiator : Bool

namespace SaltPair

def new (isInitiator : Bool) : StateM OsRng SaltPair := do
  let localSalt ← OsRng.fillBytes 32
  return ⟨localSalt, .zero 32, isInitiator⟩

/-- The initiator's salt, then the responder's. -/
def getTotal (s : SaltPair) : ByteArr 64 :=
  if s.isInitiator then ⟨s.localSalt.val ++ s.remoteSalt.val, by simp⟩
  else ⟨s.remoteSalt.val ++ s.localSalt.val, by simp⟩

end SaltPair

/-- The cipher keys of a side. -/
structure DirectionalAeadKeys where
  txKey : Key
  txIv : Nonce
  rxKey : Key
  rxIv : Nonce

/-- The handshake state of one side. -/
structure SessionKeys where
  salt : SaltPair
  ecdh : ECDH
  /-- Zeros until the keys are derived. -/
  authKey : ByteArr 32
  currentAead : Option DirectionalAeadKeys
  identity : Option Identity
  /-- The version the client claims, as far as this side knows. -/
  peerVersion : UInt8
  datagramRoot : Option (ByteArr 32)

namespace SessionKeys

/-- A side without credentials. -/
def new (x : X25519) (isInitiator : Bool) : StateM OsRng SessionKeys := do
  let salt ← SaltPair.new isInitiator
  let ecdh ← ECDH.new x
  return ⟨salt, ecdh, .zero 32, none, none, protocolVersionAnonymous, none⟩

/-- A side with credentials. -/
def withIdentity (x : X25519) (isInitiator : Bool) (identity : Identity) :
    StateM OsRng SessionKeys := do
  let keys ← new x isInitiator
  return { keys with identity := some identity, peerVersion := protocolVersion }

/-- The version this side claims in its hello. -/
def claimedVersion (keys : SessionKeys) : UInt8 :=
  if keys.identity.isSome then protocolVersion else protocolVersionAnonymous

/-- Note the version the client claims. -/
def setPeerVersion (version : UInt8) (keys : SessionKeys) : SessionKeys :=
  { keys with peerVersion := version }

/-- Whether the second exchange is made. -/
def usesStaticDh (keys : SessionKeys) : Bool :=
  keys.identity.isSome && decide (keys.peerVersion ≥ minVersionForStaticDh)

/-- Whether clients of the older version are refused. -/
def rejectsAnonymous (keys : SessionKeys) : Bool := keys.identity.any Identity.strict

/-- The tag of this side's client hello. -/
def handshakeTag (hmac : HmacSha256) (keys : SessionKeys) (now : UInt64) (random : ByteArr 32) :
    ByteArr 16 :=
  match keys.identity with
  | some id => (SessionAuth.mk id.secret).generateHandshakeTag hmac now random keys.ecdh.publicKey
  | none => (SessionAuth.mk keys.authKey).generateCurrentTag hmac now

/-- Check the tag of a client hello. -/
def verifyHandshakeTag (hmac : HmacSha256) (keys : SessionKeys) (now : UInt64)
    (receivedTag : ByteArr 16) (random peerPublic : ByteArr 32) : Bool :=
  if keys.usesStaticDh then
    match keys.identity with
    | none => false
    | some id =>
      (SessionAuth.mk id.secret).verifyHandshakeTag hmac now receivedTag random peerPublic
  else if keys.rejectsAnonymous then false
  else (SessionAuth.mk keys.authKey).verifyTag hmac now receivedTag

/-! ### The key share -/

/-- The type of the key-share extension. -/
def extKeyShare : UInt16 := 0x0033

/-- The group of the exchange. -/
def groupX25519 : UInt16 := 0x001d

/-- An error of the key exchange. -/
def tamper (userMsg internalMsg : String) : AppError := ⟨errNetTlsTamper, userMsg, internalMsg⟩

/-- Look for an X25519 key in a client's list of shares, from an offset on. A share that is cut
short ends the search. -/
def scanKeyShare (list : Bytes) (off : ℕ) : Outcome AppError (Option (ByteArr 32)) :=
  if off + 4 ≤ list.length then do
    let group := be16 (← .expect list[off]?) (← .expect list[off + 1]?)
    let keyLen := (be16 (← .expect list[off + 2]?) (← .expect list[off + 3]?)).toNat
    match list.range? (off + 4) keyLen with
    | none => return none
    | some entry =>
      if group = groupX25519 ∧ keyLen = 32 then
        return some (← .expect (ByteArr.ofBytes? 32 entry))
      else scanKeyShare list (off + (4 + keyLen))
  else return none
termination_by list.length - off

/-- The key in a key share: a list of shares from a client, a single one from a server. -/
def keyInShare (dhData : Bytes) (isServer : Bool) : Outcome AppError (ByteArr 32) := do
  if isServer then
    if dhData.length < 2 then
      .err (tamper "Ошибка маскировки" s!"Client KeyShare too short: {dhData.length}")
    else
      let listLen := (be16 (← .expect dhData[0]?) (← .expect dhData[1]?)).toNat
      let list ← .ofOption
        (tamper "Ошибка маскировки" "KeyShare list_len exceeds extension body")
        (dhData.range? 2 listLen)
      .ofOption (tamper "Ошибка маскировки" "Could not find x25519 key in ClientHello")
        (← scanKeyShare list 0)
  else
    if dhData.length < 4 + 32 then
      .err (tamper "Ошибка маскировки" "Server KeyShare too short")
    else
      let keyLen := (be16 (← .expect dhData[2]?) (← .expect dhData[3]?)).toNat
      if keyLen ≠ 32 then
        .err (tamper "Ошибка маскировки" s!"Server KeyShare has unexpected key length {keyLen}")
      else .expect ((dhData.range? 4 32).bind (ByteArr.ofBytes? 32))

/-- The public key of the other side, from its extensions. -/
def extractPeerPublic (extensions : ExtensionStack) (isServer : Bool) :
    Outcome AppError (ByteArr 32) := do
  let dhData ← .ofOption
    (tamper "Ошибка маскировки" "No KeyShare extension found in handshake")
    (extensions.findByType extKeyShare)
  let keyBytes ← keyInShare dhData isServer
  if keyBytes.val.all (· == 0) then
    .err (tamper "Ошибка шифрования" "Extracted remote public key is all ZEROS!")
  else return keyBytes

/-! ### Derivation -/

/-- The label that ends the input of the scheme with two exchanges. -/
def ikmDomainV3 : Bytes := utf8 "nrxp-v3-static-dh"

/-- Derive the keys of the session with the public key of the other side. -/
def generateKeys (x : X25519) (hkdf : HkdfSha256) (publicKey : ByteArr 32) (isServer : Bool) :
    Exec SessionKeys AppError DirectionalAeadKeys := do
  let keys ← Exec.get
  let ephemeralDh ← Exec.lift
    (.ofOption (tamper "Сбой" "No shared secret") (keys.ecdh.dh x publicKey))
  let ikm ←
    if keys.usesStaticDh then do
      let identity ← Exec.lift (.expect keys.identity)
      let staticDh ← Exec.lift
        (.ofOption (tamper "Сбой" "No static secret") (identity.staticDh x keys.ecdh publicKey))
      pure (ephemeralDh.val ++ staticDh.val ++ ikmDomainV3)
    else pure ephemeralDh.val
  Exec.modify fun keys ↦ { keys with ecdh := keys.ecdh.burn }
  let prk := hkdf.extractKey keys.salt.getTotal.val ikm
  Exec.modify fun keys ↦ { keys with datagramRoot := some prk }
  let cKey := hkdf.expandKey prk (utf8 "client_aead") 32
  let cIv := hkdf.expandKey prk (utf8 "client_iv") 12
  let sKey := hkdf.expandKey prk (utf8 "server_aead") 32
  let sIv := hkdf.expandKey prk (utf8 "server_iv") 12
  Exec.modify fun keys ↦ { keys with authKey := hkdf.expandKey prk (utf8 "auth_key") 32 }
  let aead : DirectionalAeadKeys :=
    if isServer then ⟨sKey, sIv, cKey, cIv⟩ else ⟨cKey, cIv, sKey, sIv⟩
  Exec.modify fun keys ↦ { keys with currentAead := some aead }
  return aead

/-- Take in the salt and the extensions of the other side, and derive the keys. -/
def updateKeys (x : X25519) (hkdf : HkdfSha256) (salt : ByteArr 32) (extensions : ExtensionStack)
    (isServer : Bool) : Exec SessionKeys AppError DirectionalAeadKeys := do
  Exec.modify fun keys ↦ { keys with salt := { keys.salt with remoteSalt := salt } }
  let publicKey ← Exec.lift (extractPeerPublic extensions isServer)
  generateKeys x hkdf publicKey isServer

/-- The cipher keys. Panics before they are derived. -/
def getAeadParameters (keys : SessionKeys) : Outcome AppError DirectionalAeadKeys :=
  .expect keys.currentAead

/-- Whether this is the client's side. -/
def isInitiator (keys : SessionKeys) : Bool := keys.salt.isInitiator

/-- The pseudorandom key that the datagram leg starts from. Panics before it is extracted. -/
def getDatagramRoot (keys : SessionKeys) : Outcome AppError (ByteArr 32) :=
  .expect keys.datagramRoot

/-! ### What is found in a key share -/

/-- The X25519 key of a share, if it is one. -/
def keyOfShare (share : Tlv.Entry) : Option (ByteArr 32) :=
  if share.tag = groupX25519 then ByteArr.ofBytes? 32 share.data else none

theorem keyOfShare_eq_none {e : Tlv.Entry} (h : ¬(e.tag = groupX25519 ∧ e.data.length = 32)) :
    keyOfShare e = none := by
  rw [keyOfShare, ByteArr.ofBytes?]
  split_ifs with htag hlen
  · exact absurd ⟨htag, hlen⟩ h
  · rfl
  · rfl

/-- The search finds the first X25519 key among the complete shares. -/
theorem scanKeyShare_append (pre b : Bytes) :
    scanKeyShare (pre ++ b) pre.length = .ok ((Tlv.decode b).1.findSome? keyOfShare) := by
  induction b using Tlv.entryInduction generalizing pre with
  | short b h =>
    rw [scanKeyShare, if_neg (by simp; omega), Tlv.decode_of_short h]
    rfl
  | cut t1 t2 l1 l2 rest h =>
    have hrange : Bytes.range? (pre ++ t1 :: t2 :: l1 :: l2 :: rest) (pre.length + 4)
        (be16 l1 l2).toNat = none := if_neg (by simp; omega)
    rw [scanKeyShare, if_pos (by simp), Tlv.decode_of_cut h]
    simp [hrange]
  | entry e rest h ih =>
    rw [Tlv.decode_entry_append h, List.findSome?_cons]
    obtain ⟨t1, t2, l1, l2, hb, ht, hl⟩ := Tlv.Entry.exists_bytes_eq h
    have hnext := ih (pre ++ e.bytes)
    have hrange : Bytes.range? (pre ++ t1 :: t2 :: l1 :: l2 :: (e.data ++ rest)) (pre.length + 4)
        e.data.length = some e.data := by
      have happ := Bytes.range?_append (a := pre ++ [t1, t2, l1, l2]) (i := pre.length + 4)
        (m := e.data) (by simp) rfl rest
      simpa using happ
    rw [List.append_assoc, List.length_append, Tlv.Entry.length_bytes, hb] at hnext
    rw [hb]
    simp only [List.cons_append] at hnext ⊢
    rw [scanKeyShare, if_pos (by simp)]
    simp only [hl, ht, hrange, hnext, List.getElem?_append_right, Nat.le_refl, Nat.sub_self,
      Nat.le_add_right, Nat.add_sub_cancel_left, List.getElem?_cons_zero,
      List.getElem?_cons_succ, Outcome.expect_some, Outcome.ok_bind]
    by_cases hkey : e.tag = groupX25519 ∧ e.data.length = 32
    · rw [if_pos hkey, keyOfShare, if_pos hkey.1, ByteArr.ofBytes?, dif_pos hkey.2]
      rfl
    · rw [if_neg hkey, keyOfShare_eq_none hkey]

/-- A client's key share after its two length bytes. -/
theorem keyInShare_cons (l1 l2 : UInt8) (rest : Bytes) :
    keyInShare (l1 :: l2 :: rest) true =
      (Outcome.ofOption (tamper "Ошибка маскировки" "KeyShare list_len exceeds extension body")
        (Bytes.range? (l1 :: l2 :: rest) 2 (be16 l1 l2).toNat) >>= fun list ↦
          .ofOption (tamper "Ошибка маскировки" "Could not find x25519 key in ClientHello")
            ((Tlv.decode list).1.findSome? keyOfShare)) := by
  have hlong : ¬rest.length + 1 + 1 < 2 := by omega
  rcases hlist : Bytes.range? (l1 :: l2 :: rest) 2 (be16 l1 l2).toNat with _ | list
  · simp [keyInShare, hlist, hlong]
  · have hscan := scanKeyShare_append [] list
    change scanKeyShare list 0 = _ at hscan
    simp [keyInShare, hlist, hscan, hlong]

/-- No key share, however its lengths lie, makes the extraction panic. -/
theorem keyInShare_ne_panic (dhData : Bytes) (isServer : Bool) :
    keyInShare dhData isServer ≠ .panic := by
  cases isServer with
  | true =>
    match dhData with
    | [] | [_] => simp [keyInShare]
    | l1 :: l2 :: rest =>
      rw [keyInShare_cons, Outcome.bind_ne_panic_iff]
      refine ⟨?_, fun list _ ↦ ?_⟩
      · cases Bytes.range? (l1 :: l2 :: rest) 2 (be16 l1 l2).toNat <;> simp
      · cases (Tlv.decode list).1.findSome? keyOfShare <;> simp
  | false =>
    by_cases hshort : dhData.length < 4 + 32
    · simp [keyInShare, hshort]
    · have h2 : dhData[2]? = some dhData[2] := List.getElem?_eq_getElem (by omega)
      have h3 : dhData[3]? = some dhData[3] := List.getElem?_eq_getElem (by omega)
      have hrange : dhData.range? 4 32 = some ((dhData.drop 4).take 32) := if_pos (by omega)
      have hlen : ((dhData.drop 4).take 32).length = 32 := by
        rw [List.length_take, List.length_drop]
        omega
      by_cases hkey : (be16 dhData[2] dhData[3]).toNat = 32
      · simp [keyInShare, hshort, h2, h3, hkey, hrange, ByteArr.ofBytes?, hlen]
      · simp [keyInShare, hshort, h2, h3, hkey]

theorem extractPeerPublic_ne_panic (extensions : ExtensionStack) (isServer : Bool) :
    extractPeerPublic extensions isServer ≠ .panic := by
  rw [extractPeerPublic, Outcome.bind_ne_panic_iff]
  refine ⟨by cases extensions.findByType extKeyShare <;> simp, fun dhData _ ↦ ?_⟩
  rw [Outcome.bind_ne_panic_iff]
  refine ⟨keyInShare_ne_panic dhData isServer, fun key _ ↦ ?_⟩
  split_ifs <;> simp

/-- The key of a server's share is the one that was written there. -/
theorem keyInShare_server (key : ByteArr 32) :
    keyInShare (beBytes 2 groupX25519.toNat ++ beBytes 2 32 ++ key.val) false = .ok key := by
  have hrange := Bytes.range?_append (a := beBytes 2 groupX25519.toNat ++ beBytes 2 32) (i := 4)
    (m := key.val) (n := 32) (by simp) key.property []
  rw [List.append_nil] at hrange
  have hlen : (be16 0 32).toNat = 32 := rfl
  have hlong : ¬(beBytes 2 groupX25519.toNat ++ beBytes 2 32 ++ key.val).length < 4 + 32 := by simp
  have h2 : (beBytes 2 groupX25519.toNat ++ beBytes 2 32 ++ key.val)[2]? = some 0 := rfl
  have h3 : (beBytes 2 groupX25519.toNat ++ beBytes 2 32 ++ key.val)[3]? = some 32 := rfl
  simp only [keyInShare, Bool.false_eq_true, if_false, if_neg hlong, h2, h3, hrange, hlen,
    Outcome.expect_some, Outcome.ok_bind, ne_eq, not_true_eq_false, Option.bind_some,
    ByteArr.ofBytes?_val]

/-- The key of a client's list of shares is that of the first X25519 share. -/
theorem keyInShare_client {shares : List Tlv.Entry} (hfits : ∀ e ∈ shares, e.Fits)
    (hlen : (Tlv.encode shares).length < 2 ^ 16) {key : ByteArr 32}
    (hkey : shares.findSome? keyOfShare = some key) :
    keyInShare (beBytes 2 (Tlv.encode shares).length ++ Tlv.encode shares) true = .ok key := by
  obtain ⟨l1, l2, hl, htoNat⟩ := exists_beBytes_two hlen
  have hrange := Bytes.range?_two l1 l2 htoNat.symm []
  rw [List.append_nil] at hrange
  rw [hl, List.cons_append, List.cons_append, List.nil_append, keyInShare_cons, hrange,
    Outcome.ofOption_some, Outcome.ok_bind, Tlv.decode_encode hfits]
  show Outcome.ofOption _ (shares.findSome? keyOfShare) = _
  rw [hkey, Outcome.ofOption_some]

/-- A key that is found in the key share is the one that is extracted, unless it is zero. -/
theorem extractPeerPublic_of_share {extensions : ExtensionStack} {isServer : Bool}
    {dhData : Bytes} {key : ByteArr 32}
    (hext : extensions.findByType extKeyShare = some dhData)
    (hkey : keyInShare dhData isServer = .ok key) (hne : key ≠ .zero 32) :
    extractPeerPublic extensions isServer = .ok key := by
  have hzero : ¬key.val.all (· == 0) = true := by
    intro hall
    refine hne (Subtype.ext (List.eq_replicate_iff.mpr ⟨key.property, fun b hb ↦ ?_⟩))
    simpa using List.all_eq_true.mp hall b hb
  rw [extractPeerPublic, hext, Outcome.ofOption_some, Outcome.ok_bind, hkey, Outcome.ok_bind,
    if_neg hzero]
  rfl

/-- A client's extensions with a key share only, and nothing in it but the key. -/
def clientShare (key : ByteArr 32) : ExtensionStack :=
  let shares := Tlv.encode [⟨groupX25519, key.val⟩]
  ⟨[.new extKeyShare (beBytes 2 shares.length ++ shares)]⟩

theorem extractPeerPublic_clientShare {key : ByteArr 32} (hne : key ≠ .zero 32) :
    extractPeerPublic (clientShare key) true = .ok key := by
  refine extractPeerPublic_of_share rfl (keyInShare_client ?_ ?_ ?_) hne
  · intro e he
    obtain rfl := List.mem_singleton.mp he
    rw [Tlv.Entry.Fits, key.property]
    decide
  · rw [Tlv.encode_cons, Tlv.encode_nil, List.append_nil, Tlv.Entry.length_bytes, key.property]
    decide
  · rw [List.findSome?_cons, keyOfShare, if_pos rfl, ByteArr.ofBytes?_val]

/-- A server's extensions with a key share only. -/
def serverShare (key : ByteArr 32) : ExtensionStack :=
  ⟨[.new extKeyShare (beBytes 2 groupX25519.toNat ++ beBytes 2 32 ++ key.val)]⟩

theorem extractPeerPublic_serverShare {key : ByteArr 32} (hne : key ≠ .zero 32) :
    extractPeerPublic (serverShare key) false = .ok key :=
  extractPeerPublic_of_share rfl (keyInShare_server key) hne

/-! ### What is derived -/

/-- The results of the exchanges of a handshake: one, or two. -/
structure SharedSecrets where
  ephemeralDh : ByteArr 32
  staticDh : Option (ByteArr 32)

/-- The input of the extraction. -/
def SharedSecrets.ikm (secrets : SharedSecrets) : Bytes :=
  match secrets.staticDh with
  | none => secrets.ephemeralDh.val
  | some staticDh => secrets.ephemeralDh.val ++ staticDh.val ++ ikmDomainV3

/-- **The input parses back uniquely**: its length tells the schemes apart. -/
theorem SharedSecrets.ikm_injective {s s' : SharedSecrets} (h : s.ikm = s'.ikm) : s = s' := by
  have hlen := congrArg List.length h
  rcases s with ⟨e, _ | d⟩ <;> rcases s' with ⟨e', _ | d'⟩
  · rw [Subtype.ext (show e.val = e'.val from h)]
  · exact absurd hlen (by simp [ikm, ikmDomainV3])
  · exact absurd hlen (by simp [ikm, ikmDomainV3])
  · have happ : e.val ++ d.val = e'.val ++ d'.val := List.append_cancel_right h
    obtain ⟨he, hd⟩ := List.append_inj happ (by simp)
    rw [Subtype.ext he, Subtype.ext hd]

/-- The exchanges a side makes with a public key. -/
def sharedSecrets (x : X25519) (keys : SessionKeys) (publicKey : ByteArr 32) :
    Option SharedSecrets := do
  let ephemeralDh ← keys.ecdh.dh x publicKey
  if keys.usesStaticDh then
    let identity ← keys.identity
    let staticDh ← identity.staticDh x keys.ecdh publicKey
    return ⟨ephemeralDh, some staticDh⟩
  else return ⟨ephemeralDh, none⟩

/-- The ephemeral secret of fresh keys: it is drawn after the salt. -/
def freshSecret (rng : OsRng) : ByteArr 32 := (OsRng.fillBytes 32 (OsRng.fillBytes 32 rng).2).1

/-- The cipher keys expanded from a pseudorandom key, from the point of view of a role. -/
def aeadKeysOf (hkdf : HkdfSha256) (prk : ByteArr 32) (isServer : Bool) : DirectionalAeadKeys :=
  let cKey := hkdf.expandKey prk (utf8 "client_aead") 32
  let cIv := hkdf.expandKey prk (utf8 "client_iv") 12
  let sKey := hkdf.expandKey prk (utf8 "server_aead") 32
  let sIv := hkdf.expandKey prk (utf8 "server_iv") 12
  if isServer then ⟨sKey, sIv, cKey, cIv⟩ else ⟨cKey, cIv, sKey, sIv⟩

/-- The state after the keys were derived from a pseudorandom key. -/
def derived (hkdf : HkdfSha256) (prk : ByteArr 32) (isServer : Bool) (keys : SessionKeys) :
    SessionKeys :=
  { keys with
    ecdh := keys.ecdh.burn
    datagramRoot := some prk
    authKey := hkdf.expandKey prk (utf8 "auth_key") 32
    currentAead := some (aeadKeysOf hkdf prk isServer) }

/-- The state with the salt of the other side. -/
def withRemoteSalt (salt : ByteArr 32) (keys : SessionKeys) : SessionKeys :=
  { keys with salt := { keys.salt with remoteSalt := salt } }

/-- The pseudorandom key a side extracts. -/
def prkOf (hkdf : HkdfSha256) (keys : SessionKeys) (secrets : SharedSecrets) : ByteArr 32 :=
  hkdf.extractKey keys.salt.getTotal.val secrets.ikm

/-- What the exchanges yield is what the derivation takes in. -/
theorem sharedSecrets_eq_some {x : X25519} {keys : SessionKeys} {publicKey : ByteArr 32}
    {secrets : SharedSecrets} (h : keys.sharedSecrets x publicKey = some secrets) :
    keys.ecdh.dh x publicKey = some secrets.ephemeralDh ∧
      ((keys.usesStaticDh = false ∧ secrets.staticDh = none) ∨
        ∃ identity d, keys.usesStaticDh = true ∧ keys.identity = some identity ∧
          identity.staticDh x keys.ecdh publicKey = some d ∧ secrets.staticDh = some d) := by
  rcases he : keys.ecdh.dh x publicKey with _ | e
  · simp [sharedSecrets, he] at h
  rcases hu : keys.usesStaticDh with _ | _
  · simp only [sharedSecrets, he, hu, Option.bind_eq_bind, Option.bind_some, Bool.false_eq_true,
      if_false, Option.pure_def, Option.some.injEq] at h
    exact ⟨by rw [← h], Or.inl ⟨rfl, by rw [← h]⟩⟩
  · rcases hid : keys.identity with _ | identity
    · simp [sharedSecrets, he, hu, hid] at h
    rcases hd : identity.staticDh x keys.ecdh publicKey with _ | d
    · simp [sharedSecrets, he, hu, hid, hd] at h
    · simp only [sharedSecrets, he, hu, hid, hd, Option.bind_eq_bind, Option.bind_some, if_true,
        Option.pure_def, Option.some.injEq] at h
      exact ⟨by rw [← h], Or.inr ⟨identity, d, rfl, rfl, hd, by rw [← h]⟩⟩

/-- **What a derivation does** when the exchanges succeed: the keys come from their results. -/
theorem generateKeys_of_some {x : X25519} {hkdf : HkdfSha256} {publicKey : ByteArr 32}
    {isServer : Bool} {keys : SessionKeys} {secrets : SharedSecrets}
    (h : keys.sharedSecrets x publicKey = some secrets) :
    generateKeys x hkdf publicKey isServer keys
      = (.ok (aeadKeysOf hkdf (prkOf hkdf keys secrets) isServer),
          keys.derived hkdf (prkOf hkdf keys secrets) isServer) := by
  obtain ⟨he, ⟨hu, hs⟩ | ⟨identity, d, hu, hid, hd, hs⟩⟩ := sharedSecrets_eq_some h
  · have hikm : secrets.ikm = secrets.ephemeralDh.val := by rw [SharedSecrets.ikm, hs]
    rw [generateKeys, Exec.get_bind, he, Outcome.ofOption_some, Exec.lift_ok_bind, hu, prkOf, hikm]
    rfl
  · have hikm : secrets.ikm = secrets.ephemeralDh.val ++ d.val ++ ikmDomainV3 := by
      rw [SharedSecrets.ikm, hs]
    rw [generateKeys, Exec.get_bind, he, Outcome.ofOption_some, Exec.lift_ok_bind, hu, if_pos rfl,
      hid, Outcome.expect_some, Exec.lift_ok_bind, hd, Outcome.ofOption_some, Exec.lift_ok_bind,
      prkOf, hikm]
    rfl

/-- Without one of the exchanges nothing changes. -/
theorem generateKeys_of_none {x : X25519} {hkdf : HkdfSha256} {publicKey : ByteArr 32}
    {isServer : Bool} {keys : SessionKeys} (h : keys.sharedSecrets x publicKey = none) :
    ∃ e, generateKeys x hkdf publicKey isServer keys = (.err e, keys) := by
  rcases he : keys.ecdh.dh x publicKey with _ | e
  · exact ⟨_, by rw [generateKeys, Exec.get_bind, he]; rfl⟩
  rcases hu : keys.usesStaticDh with _ | _
  · simp [sharedSecrets, he, hu] at h
  · obtain ⟨identity, hid⟩ : ∃ identity, keys.identity = some identity :=
      Option.isSome_iff_exists.mp (Bool.and_eq_true_iff.mp hu).1
    rcases hd : identity.staticDh x keys.ecdh publicKey with _ | d
    · refine ⟨tamper "Сбой" "No static secret", ?_⟩
      rw [generateKeys, Exec.get_bind, he, Outcome.ofOption_some, Exec.lift_ok_bind, hu, if_pos rfl,
        hid, Outcome.expect_some, Exec.lift_ok_bind, hd]
      rfl
    · simp [sharedSecrets, he, hu, hid, hd] at h

/-- **What an update does** when the key of the other side is found and the exchanges succeed. -/
theorem updateKeys_of_some {x : X25519} {hkdf : HkdfSha256} {salt publicKey : ByteArr 32}
    {extensions : ExtensionStack} {isServer : Bool} {keys : SessionKeys} {secrets : SharedSecrets}
    (hkey : extractPeerPublic extensions isServer = .ok publicKey)
    (h : keys.sharedSecrets x publicKey = some secrets) :
    let prk := prkOf hkdf (keys.withRemoteSalt salt) secrets
    updateKeys x hkdf salt extensions isServer keys
      = (.ok (aeadKeysOf hkdf prk isServer),
          (keys.withRemoteSalt salt).derived hkdf prk isServer) := by
  intro prk
  rw [updateKeys, Exec.modify_bind, hkey, Exec.lift_ok_bind]
  exact generateKeys_of_some
    (show (keys.withRemoteSalt salt).sharedSecrets x publicKey = some secrets from h)

/-- **The two ways an update ends**: an error, which leaves the salt of the other side, or keys from
the key of the other side and the results of the exchanges. -/
theorem updateKeys_cases (x : X25519) (hkdf : HkdfSha256) (salt : ByteArr 32)
    (extensions : ExtensionStack) (isServer : Bool) (keys : SessionKeys) :
    (∃ e, updateKeys x hkdf salt extensions isServer keys = (.err e, keys.withRemoteSalt salt)) ∨
    ∃ publicKey secrets, extractPeerPublic extensions isServer = .ok publicKey ∧
      keys.sharedSecrets x publicKey = some secrets ∧
      let prk := prkOf hkdf (keys.withRemoteSalt salt) secrets
      updateKeys x hkdf salt extensions isServer keys
        = (.ok (aeadKeysOf hkdf prk isServer),
            (keys.withRemoteSalt salt).derived hkdf prk isServer) := by
  rcases hkey : extractPeerPublic extensions isServer with publicKey | e | _
  · rcases hsecrets : keys.sharedSecrets x publicKey with _ | secrets
    · obtain ⟨e, he⟩ : ∃ e, generateKeys x hkdf publicKey isServer (keys.withRemoteSalt salt)
          = (.err e, keys.withRemoteSalt salt) := generateKeys_of_none hsecrets
      refine Or.inl ⟨e, ?_⟩
      rw [updateKeys, Exec.modify_bind, hkey, Exec.lift_ok_bind]
      exact he
    · exact Or.inr ⟨publicKey, secrets, rfl, hsecrets, updateKeys_of_some hkey hsecrets⟩
  · refine Or.inl ⟨e, ?_⟩
    rw [updateKeys, Exec.modify_bind, hkey, Exec.lift_err_bind]
    rfl
  · exact absurd hkey (extractPeerPublic_ne_panic extensions isServer)

/-- **Inversion of an update that succeeded.** -/
theorem exists_of_updateKeys {x : X25519} {hkdf : HkdfSha256} {salt : ByteArr 32}
    {extensions : ExtensionStack} {isServer : Bool} {keys keys' : SessionKeys}
    {aead : DirectionalAeadKeys}
    (h : updateKeys x hkdf salt extensions isServer keys = (.ok aead, keys')) :
    ∃ publicKey secrets, extractPeerPublic extensions isServer = .ok publicKey ∧
      keys.sharedSecrets x publicKey = some secrets ∧
      keys' = (keys.withRemoteSalt salt).derived hkdf
        (prkOf hkdf (keys.withRemoteSalt salt) secrets) isServer := by
  rcases updateKeys_cases x hkdf salt extensions isServer keys with
    ⟨e, hrun⟩ | ⟨publicKey, secrets, hkey, hsecrets, hrun⟩ <;> rw [h] at hrun
  · cases hrun
  · exact ⟨publicKey, secrets, hkey, hsecrets, congrArg Prod.snd hrun⟩

theorem updateKeys_ne_panic (x : X25519) (hkdf : HkdfSha256) (salt : ByteArr 32)
    (extensions : ExtensionStack) (isServer : Bool) (keys : SessionKeys) :
    (updateKeys x hkdf salt extensions isServer keys).1 ≠ .panic := by
  rcases updateKeys_cases x hkdf salt extensions isServer keys with
    ⟨e, hrun⟩ | ⟨publicKey, secrets, -, -, hrun⟩ <;> rw [hrun] <;> simp

end SessionKeys
