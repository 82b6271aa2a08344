import Nrxp.Crypto.KeySchedule
import Nrxp.Handshake.Admission
import Nrxp.Session.Alone

/-!
# Sessions over a hostile network

Results about both sides when the network delivers whatever it likes, each from `Alone` of the sides
in question: a strict node that is probed is silent, what a side writes has one form, and what was
returned is authentic. The last is the only one that looks at both sides together, and the only one
that assumes anything of the primitives beyond functional correctness.
-/

open TlsBridge

/-! ### The keys of both sides -/

/-- The label a side's own cipher key is expanded under. -/
def Side.cipherLabel : Side → Bytes
  | client => utf8 "client_aead"
  | server => utf8 "server_aead"

/-- The derivation tells the cipher keys of these pseudorandom keys apart: by the pseudorandom key,
and by the side. -/
def HkdfSha256.Separates (hkdf : HkdfSha256) (prks : Set (ByteArr 32)) : Prop :=
  Set.InjOn (fun (i : ByteArr 32 × Side) ↦ hkdf.expandKey i.1 i.2.cipherLabel 32)
    (prks ×ˢ Set.univ)

/-- A key schedule that separates all keys tells these apart. -/
theorem HkdfSha256.SeparatesUpTo.separates {hkdf : HkdfSha256} {prks : Set (ByteArr 32)} {E : ℕ}
    (h : hkdf.SeparatesUpTo prks E) : hkdf.Separates prks := by
  have hkey (prk : ByteArr 32) (side : Side) : hkdf.expandKey prk side.cipherLabel 32
      = (KeyUse.aead !side.isServer).key hkdf prk := by
    cases side <;> rfl
  rintro ⟨prk, side⟩ ⟨hprk, -⟩ ⟨prk', side'⟩ ⟨hprk', -⟩ hsame
  simp only at hprk hprk' hsame
  rw [hkey, hkey, h.key_inj hprk hprk' _ _ (Nat.zero_le _) (Nat.zero_le _)] at hsame
  obtain ⟨rfl, hside⟩ := hsame
  cases side <;> cases side' <;> first | rfl | cases hside

/-- All encryptions a side made. -/
def Endpoint.sealings (e : Endpoint) : List (Sealing Key Nonce) :=
  match e.phase.codec with
  | none => []
  | some codec => codec.tx.crypto.log

/-- The pseudorandom keys of both sides, as far as they have any. -/
def Session.prks (s : Session) : Set (ByteArr 32) :=
  {prk | ∃ side, (s.endpoint side).keys.datagramRoot = some prk}

/-! ### A session to compute with, and to disturb -/

namespace Session

/-- What is left of a session after some events. -/
def play (P : Primitives) (events : List (Side × Event)) (s : Session) : Session :=
  events.foldl (fun s event ↦ (Session.step P event.1 event.2 s).2) s

/-- What a hostile network and the users do does not depend on the session. -/
theorem Hostile.runs_play {P : Primitives} {clock : UInt64 → Prop} {s : Session}
    {events : List (Side × Event)}
    (hadmits : ∀ event ∈ events, Hostile clock s event.1 event.2) {s₀ : Session}
    (hruns : Runs P (Hostile clock) s₀ s) : Runs P (Hostile clock) s₀ (play P events s) := by
  induction events generalizing s with
  | nil => exact hruns
  | cons event events ih =>
    refine ih (fun event' hevent' ↦ hadmits event' (List.mem_cons_of_mem _ hevent')) ?_
    exact hruns.tail ⟨event.1, event.2, hadmits event List.mem_cons_self, rfl⟩

end Session

namespace DisturbedSession

def primitives : Primitives := ⟨.clear, .sum, .mixing, .sum⟩

/-- The sample session with a shorter hello. -/
def config : SessionConfig := { SampleSession.config with profile := .safari17 }

def opening : Session := config.start primitives

/-- The hellos arrive and are read, and the client sends a frame. -/
def sent : Session :=
  let asked := opening.play primitives
    [(.server, .feed opening.client.written), (.server, .read 6000)]
  asked.play primitives [(.client, .feed asked.server.written), (.client, .read 0),
    (.client, .send 0 (.frame 7 .data [1, 2, 3]))]

/-- The record of the client. -/
def record : Bytes := sent.client.written.drop opening.client.written.length

/-- The record arrives at the server twice, and it also comes back to the client. Both read until
the buffer is empty. -/
@[irreducible] def disturbed : Session :=
  sent.play primitives [(.server, .feed (record ++ record)), (.client, .feed record),
    (.server, .read 6000), (.server, .read 6000), (.server, .read 6000), (.client, .read 0),
    (.client, .read 0)]

theorem wellFormed : config.WellFormed primitives where
  aead := ChaCha20Poly1305.clear_isCorrect
  fits := BrowserProfile.shipped_fits .safari17 (by simp [BrowserProfile.shipped])
  share := by decide
  host := by decide
  clientKey := by decide
  serverKey := by decide

theorem runs_disturbed : Session.Runs primitives (Session.Hostile (· = 6000))
    (config.start primitives) disturbed := by
  have hpayload : ∀ item ∈ (EncodeCall.frame 7 .data [1, 2, 3]).items,
      item.payload.length ≤ maxSentPayload := by decide
  unfold disturbed
  refine Session.Hostile.runs_play ?_ (Session.Hostile.runs_play ?_
    (Session.Hostile.runs_play ?_ .refl))
  · simp [Session.Hostile]
  · simpa [Session.Hostile] using hpayload
  · simp [Session.Hostile]

/-- All encryptions of both sides. -/
def log : List (Sealing Key Nonce) :=
  (disturbed.endpoint .client).sealings ++ (disturbed.endpoint .server).sealings

/-- What the run comes to, and what arrived in it. -/
theorem evaluates :
    (disturbed.endpoint .client).keys.datagramRoot.map Subtype.val = some (List.replicate 32 0) ∧
      (disturbed.endpoint .server).keys.datagramRoot.map Subtype.val
        = some (List.replicate 32 0) ∧
      (disturbed.endpoint .client).keys.currentAead.map (·.rxKey.val)
        = some (List.replicate 32 0xd1) ∧
      (disturbed.endpoint .server).keys.currentAead.map (·.rxKey.val)
        = some (List.replicate 32 0xc1) ∧
      (disturbed.endpoint .server).written ≠ [] ∧
      (disturbed.endpoint .server).returned ≠ [] ∧
      ((disturbed.endpoint .client).sealings.length < 2 ^ 64 ∧
        (disturbed.endpoint .server).sealings.length < 2 ^ 64) ∧
      ChaCha20Poly1305.LooksOnlySealed (.fill 32 0xd1) log (disturbed.endpoint .client).fed ∧
      ChaCha20Poly1305.LooksOnlySealed (.fill 32 0xc1) log (disturbed.endpoint .server).fed := by
  decide +kernel

/-- Both sides have the pseudorandom key `mixing` extracts. -/
theorem prks_subset : disturbed.prks ⊆ {ByteArr.zero 32} := by
  obtain ⟨hclient, hserver, -⟩ := evaluates
  rintro prk ⟨side, hside⟩
  refine Subtype.ext ?_
  cases side with
  | client =>
    rw [hside] at hclient
    exact Option.some.inj hclient
  | server =>
    rw [hside] at hserver
    exact Option.some.inj hserver

theorem separatesUpTo : primitives.hkdf.SeparatesUpTo disturbed.prks 2 :=
  HkdfSha256.separatesUpTo_mixing.mono prks_subset

theorem opensOnly (side : Side) (aead : DirectionalAeadKeys)
    (haead : (disturbed.endpoint side).keys.currentAead = some aead) (c : Bytes)
    (hc : c <:+: (disturbed.endpoint side).fed) (n : Nonce) :
    ChaCha20Poly1305.clear.OpensOnly log aead.rxKey n n.val c := by
  obtain ⟨-, -, hclient, hserver, -, -, -, hclientFed, hserverFed⟩ := evaluates
  cases side with
  | client =>
    rw [haead] at hclient
    rw [show aead.rxKey = .fill 32 0xd1 from Subtype.ext (Option.some.inj hclient)]
    exact hclientFed.opensOnly hc n
  | server =>
    rw [haead] at hserver
    rw [show aead.rxKey = .fill 32 0xc1 from Subtype.ext (Option.some.inj hserver)]
    exact hserverFed.opensOnly hc n

end DisturbedSession

/-! ### What the network learns from a node -/

/-- **A strict node that is probed is silent.** Whatever arrives at it, in whatever pieces, and
however often it is asked to read: it has not written a byte unless some slice of what arrived is a
hello it admits, at a time its clock showed. -/
theorem probed_node_is_silent {P : Primitives} {cfg : SessionConfig} (hA : P.aead.IsCorrect)
    {node : LocalIdentity} (hnode : cfg.serverIdentity = some (.ofLocal node))
    (hstrict : node.strict = true) {clock : UInt64 → Prop} {s : Session}
    (hruns : Session.Runs P (Session.Hostile clock) (cfg.start P) s)
    (hwrote : s.server.written ≠ []) :
    ∃ now base extensions publicKey b rest, clock now ∧ b <:+: s.server.fed ∧
      unpackHandshake b = (.ok (some (.client base extensions)), rest) ∧
      Admissible P.hmac node now base extensions publicKey := by
  have halone := Session.Hostile.alone hA hruns .server
  have hopened : s.server.phase.codec ≠ none := fun hnone ↦ hwrote (halone.waiting hnone).2.1
  obtain ⟨hello, aead, rs, tx, haccepted, -⟩ := halone.opened hopened
  cases haccepted with
  | @server now message b rest answer version keys hclock harrived hread hfresh hkeys =>
    obtain ⟨base, extensions, prk, rfl, -⟩ := exists_of_wrapServerHello hkeys
    have hfresh' : (nodeKeys P.x25519 node cfg.serverRng).EqApartFromPeer keys := by
      rw [SessionConfig.serverKeys, hnode] at hfresh
      exact hfresh
    -- what was refused before makes no difference
    have hsame := (wrapServerHello_congr P.x25519 P.hkdf P.hmac now (.client base extensions)
      cfg.serverProfile hfresh').1
    obtain ⟨publicKey, hadmissible⟩ := exists_admissible_of_isOk hstrict
      (show (wrapServerHello P.x25519 P.hkdf P.hmac now (.client base extensions)
        cfg.serverProfile (nodeKeys P.x25519 node cfg.serverRng)).1.isOk = true by
          rw [← hsame, hkeys]; rfl)
    exact ⟨now, base, extensions, publicKey, b, rest, hclock, harrived, hread, hadmissible⟩

/-- The node was asked by a client that knows it. -/
theorem probed_node_is_silent_asked :
    ∃ base extensions publicKey, Admissible .sum ⟨.fill 32 7, .fill 32 9, true⟩ 6000 base extensions
      publicKey := by
  obtain ⟨_, base, extensions, publicKey, _, _, rfl, -, -, hadmissible⟩ :=
    probed_node_is_silent ChaCha20Poly1305.clear_isCorrect
      (show DisturbedSession.config.serverIdentity
        = some (.ofLocal ⟨.fill 32 7, .fill 32 9, true⟩) from rfl) rfl
      DisturbedSession.runs_disturbed DisturbedSession.evaluates.2.2.2.2.1
  exact ⟨base, extensions, publicKey, hadmissible⟩

/-- Who sends such a message. -/
def HandshakeMessage.sender : HandshakeMessage → Side
  | client _ _ => .client
  | server _ _ => .server

/-- A record in which frames were sealed is application data with a right length field. -/
theorem Sends.length_cipher {A : ChaCha20Poly1305} (hA : A.IsCorrect) {first last : ChaChaStream}
    {rs : List Record} (h : Sends A first rs last) {r : Record} (hr : r ∈ rs)
    (hfits : r.plain.length + aeadTagLen < 2 ^ 16) :
    frameHeaderSize + aeadTagLen ≤ r.cipher.length ∧
      TlsRecord.lengthField (packAppData r.cipher) = r.cipher.length := by
  obtain ⟨hne, hlaid, k, n, aad, henc⟩ := h.forall_mem hr
  have hcipher := hA.length_encrypt henc
  obtain ⟨item, items, hitems⟩ := List.exists_cons_of_ne_nil hne
  rw [hitems] at hlaid
  have hplain := hlaid.length_le.1
  refine ⟨by omega, ?_⟩
  rw [lengthField_packAppData, Nat.mod_eq_of_lt (by omega)]

/-- **What the network sees of a side**, whatever it does: a server's silence; or, to whoever
unpacks it, a hello of that side, the record for middleboxes, and then application data in records
whose length fields are right. -/
theorem session_on_the_wire {P : Primitives} {cfg : SessionConfig} (hformed : cfg.WellFormed P)
    {clock : UInt64 → Prop} {s : Session}
    (hruns : Session.Runs P (Session.Hostile clock) (cfg.start P) s) (side : Side) :
    (side = .server ∧ s.server.written = []) ∨
      ∃ (message : HandshakeMessage) (records : List Bytes), message.sender = side ∧
        unpackHandshake (s.endpoint side).written
          = (.ok (some message), buildMiddleboxCcs ++ records.flatMap packAppData) ∧
        ∀ c ∈ records, frameHeaderSize + aeadTagLen ≤ c.length ∧
          TlsRecord.lengthField (packAppData c) = c.length := by
  have halone := Session.Hostile.alone hformed.aead hruns side
  have hclient (rest : Bytes) : ∃ base extensions, unpackHandshake (cfg.clientHello P ++ rest)
      = (.ok (some (.client base extensions)), rest) := by
    obtain ⟨base, extensions, -, hunpack, -⟩ := unpackHandshake_makeClientHello P.hmac cfg.now
      hformed.fits hformed.share hformed.host hformed.clientKey cfg.helloRng rest
    exact ⟨base, extensions, hunpack⟩
  by_cases hnone : (s.endpoint side).phase.codec = none
  · have hwritten := (halone.waiting hnone).2.1
    cases side with
    | server => exact Or.inl ⟨rfl, hwritten⟩
    | client =>
      obtain ⟨base, extensions, hunpack⟩ := hclient buildMiddleboxCcs
      refine Or.inr ⟨.client base extensions, [], rfl, ?_, by simp⟩
      rw [hwritten]
      exact hunpack
  · obtain ⟨hello, aead, rs, tx, haccepted, -, hspeaks, hne⟩ := halone.opened hnone
    have hsends := hspeaks.sends
    have hrecords : ∀ c ∈ rs.map Record.cipher, frameHeaderSize + aeadTagLen ≤ c.length ∧
        TlsRecord.lengthField (packAppData c) = c.length := by
      intro c hc
      obtain ⟨r, hr, rfl⟩ := List.mem_map.mp hc
      exact hsends.1.length_cipher hformed.aead hr (hsends.2 r hr)
    have hwritten : (s.endpoint side).written
        = hello ++ (buildMiddleboxCcs ++ (rs.map Record.cipher).flatMap packAppData) := by
      cases hspeaks with
      | silent _ hnil => exact absurd hnil hne
      | spoken hwritten =>
        rw [hwritten, List.flatMap_map]
        rfl
    rw [hwritten]
    cases haccepted with
    | client =>
      obtain ⟨base, extensions, hunpack⟩ := hclient _
      exact Or.inr ⟨.client base extensions, _, rfl, hunpack, hrecords⟩
    | server _ _ _ hfresh hkeys =>
      obtain ⟨base, extensions, prk, -, hlen, -, rfl⟩ := exists_of_wrapServerHello hkeys
      obtain ⟨version, salt, rfl⟩ := hfresh
      obtain ⟨hello, extensions', hunpack, -⟩ := unpackHandshake_makeServerHello hlen
        (cfg.serverKeys P).ecdh.publicKey (cfg.serverKeys P).salt.localSalt hformed.serverKey
        cfg.serverProfile (buildMiddleboxCcs ++ (rs.map Record.cipher).flatMap packAppData)
      exact Or.inr ⟨.server hello extensions', _, rfl, hunpack, hrecords⟩

/-- What the server wrote in the disturbed session has that form. -/
theorem session_on_the_wire_disturbed :
    ∃ (message : HandshakeMessage) (records : List Bytes), message.sender = .server ∧
      unpackHandshake (DisturbedSession.disturbed.endpoint .server).written
        = (.ok (some message), buildMiddleboxCcs ++ records.flatMap packAppData) := by
  rcases session_on_the_wire DisturbedSession.wellFormed DisturbedSession.runs_disturbed .server
    with ⟨-, hsilent⟩ | ⟨message, records, hsender, hunpack, -⟩
  · exact absurd hsilent DisturbedSession.evaluates.2.2.2.2.1
  · exact ⟨message, records, hsender, hunpack⟩

/-! ### What a hostile network cannot do -/

theorem Sends.key_of_mem_log {A : ChaCha20Poly1305} {first last : ChaChaStream} {rs : List Record}
    (h : Sends A first rs last) (hlog : first.log = []) {e : Sealing Key Nonce}
    (he : e ∈ last.log) : e.key = first.cipher := by
  rw [h.log_eq, hlog, List.nil_append] at he
  obtain ⟨i, hi⟩ := List.mem_iff_getElem?.mp he
  rw [getElem?_sealings] at hi
  obtain ⟨r, -, rfl⟩ := Option.map_eq_some_iff.mp hi
  rfl

theorem SessionKeys.txKey_aeadKeysOf (hkdf : HkdfSha256) (prk : ByteArr 32) (side : Side) :
    (aeadKeysOf hkdf prk side.isServer).txKey = hkdf.expandKey prk side.cipherLabel 32 := by
  cases side <;> rfl

theorem SessionKeys.rxKey_aeadKeysOf (hkdf : HkdfSha256) (prk : ByteArr 32) (side : Side) :
    (aeadKeysOf hkdf prk side.isServer).rxKey = hkdf.expandKey prk side.other.cipherLabel 32 := by
  cases side <;> rfl

/-- One pseudorandom key gives a side the cipher the other writes with. -/
theorem SessionKeys.tx_aeadKeysOf_other (hkdf : HkdfSha256) (prk : ByteArr 32) (side : Side) :
    let own := aeadKeysOf hkdf prk side.isServer
    let other := aeadKeysOf hkdf prk side.other.isServer
    ChaChaStream.new other.txKey other.txIv = .new own.rxKey own.rxIv := by
  cases side <;> rfl

section Alone

variable {P : Primitives} {cfg : SessionConfig} {clock : UInt64 → Prop} {side side' : Side}
  {e e' : Endpoint}

/-- The encryptions of a side, all under its own key. -/
theorem Alone.key_of_mem_sealings (h : Alone P cfg clock side e) {sealing : Sealing Key Nonce}
    (hmem : sealing ∈ e.sealings) :
    ∃ aead, e.keys.currentAead = some aead ∧ sealing.key = aead.txKey := by
  rw [Endpoint.sealings] at hmem
  rcases hcodec : e.phase.codec with - | codec <;> rw [hcodec] at hmem
  · cases hmem
  · obtain ⟨hello, aead, rs, tx, -, haead, hspeaks, -⟩ := h.opened (by rw [hcodec]; simp)
    cases hspeaks with
    | silent hnone => rw [hnone] at hcodec; cases hcodec
    | spoken _ hsends _ htx =>
      rw [← htx codec hcodec] at hsends
      exact ⟨aead, haead, hsends.key_of_mem_log rfl hmem⟩

/-- The keys of a side with codecs come from one pseudorandom key. -/
theorem Alone.exists_derived (h : Alone P cfg clock side e) (hcodec : e.phase.codec ≠ none) :
    ∃ keys prk, e.keys = SessionKeys.derived P.hkdf prk side.isServer keys := by
  obtain ⟨hello, -, -, -, haccepted, -⟩ := h.opened hcodec
  exact haccepted.exists_derived

/-- A side to which nothing opens returns nothing. -/
theorem Alone.returned_eq_nil (h : Alone P cfg clock side e) {aead : DirectionalAeadKeys}
    (haead : e.keys.currentAead = some aead)
    (hopens : ∀ c, c <:+: e.fed → ∀ n : Nonce, P.aead.OpensOnly [] aead.rxKey n n.val c) :
    e.returned = [] := by
  by_cases hcodec : e.phase.codec = none
  · exact (h.waiting hcodec).2.2.2
  have hbegins := (h.hears aead [] _ hcodec haead (.nil _) fun c hc k _ n _ p hp ↦
    absurd (hopens c hc n p hp) List.not_mem_nil).begins
  exact List.map_eq_nil_iff.mp (List.prefix_nil.mp hbegins)

/-- A side that reads with the cipher the other writes with, and to which nothing opens but what the
other sealed, returns what the other submitted, from the front. -/
theorem Alone.returned_begins (h : Alone P cfg clock side e) (h' : Alone P cfg clock side' e')
    (hcodec : e.phase.codec ≠ none) (hcodec' : e'.phase.codec ≠ none)
    {aead aead' : DirectionalAeadKeys} (haead : e.keys.currentAead = some aead)
    (haead' : e'.keys.currentAead = some aead')
    (hcipher : ChaChaStream.new aead'.txKey aead'.txIv = .new aead.rxKey aead.rxIv)
    (hfew : e'.sealings.length < 2 ^ 64)
    (hopens : ∀ c, c <:+: e.fed → ∀ n : Nonce,
      P.aead.OpensOnly e'.sealings aead.rxKey n n.val c) :
    e.returned.map Frame.item <+: e'.submitted := by
  obtain ⟨hello, aead'', rs, tx, -, haead'', hspeaks, -⟩ := h'.opened hcodec'
  obtain rfl : aead' = aead'' := Option.some.inj (haead'.symm.trans haead'')
  rw [hcipher] at hspeaks
  have hsends := hspeaks.sends.1
  have hlog : e'.sealings = tx.log := by
    cases hspeaks with
    | silent hnone => exact absurd hnone hcodec'
    | spoken _ _ _ htx =>
      obtain ⟨codec, hsome⟩ := Option.ne_none_iff_exists'.mp hcodec'
      rw [Endpoint.sealings, hsome, ← htx codec hsome]
  have hlt : rs.length < 2 ^ 64 := by
    have hlen := hsends.length_log
    rw [hlog, hlen] at hfew
    omega
  rw [hspeaks.submitted]
  exact (h.hears aead rs tx hcodec haead hsends fun c hc ↦
    hsends.opensInPlace rfl hlt fun n ↦ hlog ▸ hopens c hc n).begins

end Alone

/-- Sides with one pseudorandom key hold mirrored keys. -/
theorem Session.mirrored_of_derived {s : Session} {side : Side} {hkdf : HkdfSha256}
    {prk : ByteArr 32} {keys keys' : SessionKeys}
    (h : (s.endpoint side).keys = SessionKeys.derived hkdf prk side.isServer keys)
    (h' : (s.endpoint side.other).keys = SessionKeys.derived hkdf prk side.other.isServer keys') :
    Mirrored s.client.keys s.server.keys := by
  cases side with
  | client =>
    rw [show s.client.keys = _ from h, show s.server.keys = _ from h']
    exact mirrored_derived hkdf prk keys keys'
  | server =>
    rw [show s.server.keys = _ from h, show s.client.keys = _ from h']
    exact mirrored_derived hkdf prk keys' keys

/-- The key of an encryption says which side made it, and under which pseudorandom key. -/
theorem Session.eq_of_sealing_key {P : Primitives} {cfg : SessionConfig} {clock : UInt64 → Prop}
    {s : Session} (halone : ∀ side : Side, Alone P cfg clock side (s.endpoint side))
    (hseparates : P.hkdf.Separates s.prks) {sealing : Sealing Key Nonce} {side side' : Side}
    {prk : ByteArr 32} (hprk : prk ∈ s.prks) (hmem : sealing ∈ (s.endpoint side').sealings)
    (hkey : sealing.key = P.hkdf.expandKey prk side.cipherLabel 32) :
    side' = side ∧ (s.endpoint side').keys.datagramRoot = some prk := by
  obtain ⟨aead, haead, hsealing⟩ := (halone side').key_of_mem_sealings hmem
  have hcodec : (s.endpoint side').phase.codec ≠ none := fun hnone ↦ by
    rw [Endpoint.sealings, hnone] at hmem
    cases hmem
  obtain ⟨keys, prk', hkeys⟩ := (halone side').exists_derived hcodec
  have hroot : (s.endpoint side').keys.datagramRoot = some prk' := by rw [hkeys]; rfl
  obtain rfl : SessionKeys.aeadKeysOf P.hkdf prk' side'.isServer = aead := by
    rw [hkeys] at haead
    exact Option.some.inj haead
  rw [hsealing, SessionKeys.txKey_aeadKeysOf] at hkey
  have hsame : (prk', side') = (prk, side) :=
    hseparates ⟨⟨side', hroot⟩, trivial⟩ ⟨hprk, trivial⟩ hkey
  cases hsame
  exact ⟨rfl, hroot⟩

/-- What a side may believe it reads: what the other side wrote if they hold the same pseudorandom
key, and nothing otherwise. -/
theorem Session.Hostile.believes {P : Primitives} {cfg : SessionConfig} (hA : P.aead.IsCorrect)
    {clock : UInt64 → Prop} {s : Session}
    (hruns : Session.Runs P (Session.Hostile clock) (cfg.start P) s)
    (hseparates : P.hkdf.Separates s.prks)
    (hfew : ∀ side, (s.endpoint side).sealings.length < 2 ^ 64)
    (hopens : ∀ side aead, (s.endpoint side).keys.currentAead = some aead →
      ∀ c, c <:+: (s.endpoint side).fed → ∀ n : Nonce,
        P.aead.OpensOnly (s.client.sealings ++ s.server.sealings) aead.rxKey n n.val c)
    (side : Side) :
    (s.endpoint side).returned = [] ∨
      (s.endpoint side).returned.map Frame.item <+: (s.endpoint side.other).submitted ∧
        Mirrored s.client.keys s.server.keys := by
  have halone := Session.Hostile.alone hA hruns
  by_cases hcodec : (s.endpoint side).phase.codec = none
  · exact Or.inl ((halone side).waiting hcodec).2.2.2
  obtain ⟨keys, prk, hkeys⟩ := (halone side).exists_derived hcodec
  have haead : (s.endpoint side).keys.currentAead
      = some (SessionKeys.aeadKeysOf P.hkdf prk side.isServer) := by rw [hkeys]; rfl
  have hprk : prk ∈ s.prks := ⟨side, by rw [hkeys]; rfl⟩
  -- what opens was sealed by the other side, under a key both share
  have hsealed {sealing : Sealing Key Nonce} {side' : Side}
      (hmem : sealing ∈ (s.endpoint side').sealings)
      (hkey : sealing.key = (SessionKeys.aeadKeysOf P.hkdf prk side.isServer).rxKey) :
      side' = side.other ∧ (s.endpoint side').keys.datagramRoot = some prk :=
    Session.eq_of_sealing_key halone hseparates hprk hmem
      (hkey.trans (SessionKeys.rxKey_aeadKeysOf P.hkdf prk side))
  have hopens' : ∀ c, c <:+: (s.endpoint side).fed → ∀ n : Nonce,
      P.aead.OpensOnly (s.endpoint side.other).sealings
        (SessionKeys.aeadKeysOf P.hkdf prk side.isServer).rxKey n n.val c := by
    refine fun c hc n ↦ (hopens side _ haead c hc n).of_key fun sealing hmem hkey ↦ ?_
    obtain ⟨side', hmem'⟩ : ∃ side', sealing ∈ (s.endpoint side').sealings :=
      (List.mem_append.mp hmem).elim (⟨.client, ·⟩) (⟨.server, ·⟩)
    obtain ⟨rfl, -⟩ := hsealed hmem' hkey
    exact hmem'
  by_cases hcodec' : (s.endpoint side.other).phase.codec = none
  · refine Or.inl ((halone side).returned_eq_nil haead fun c hc n ↦ ?_)
    have hnone : (s.endpoint side.other).sealings = [] := by rw [Endpoint.sealings, hcodec']
    exact hnone ▸ hopens' c hc n
  obtain ⟨keys', prk', hkeys'⟩ := (halone side.other).exists_derived hcodec'
  by_cases hshared : prk' = prk
  · subst hshared
    refine Or.inr ⟨(halone side).returned_begins (halone side.other) hcodec hcodec' haead
      (by rw [hkeys']; rfl) (SessionKeys.tx_aeadKeysOf_other P.hkdf prk' side) (hfew side.other)
      hopens', Session.mirrored_of_derived hkeys hkeys'⟩
  · refine Or.inl ((halone side).returned_eq_nil haead fun c hc n ↦ ?_)
    refine (hopens' c hc n).of_key fun sealing hmem hkey ↦ ?_
    obtain ⟨-, hroot⟩ := hsealed hmem hkey
    rw [hkeys'] at hroot
    exact absurd (Option.some.inj hroot) hshared

/-- **Authenticity of a session over a hostile network.** Whatever arrives at both sides, in
whatever pieces and order, with callers that go on after errors: if the derivation tells the cipher
keys of the session apart, and nothing that arrived opens except as one of the two sides sealed it,
then what each side returned is the beginning of what the other submitted, neither replayed nor
reflected, dropped or reordered; and a side that returned a frame holds the keys of the other. -/
theorem session_authenticity {P : Primitives} {cfg : SessionConfig} (hA : P.aead.IsCorrect)
    {clock : UInt64 → Prop} {s : Session}
    (hruns : Session.Runs P (Session.Hostile clock) (cfg.start P) s)
    (hseparates : P.hkdf.Separates s.prks)
    (hfew : ∀ side, (s.endpoint side).sealings.length < 2 ^ 64)
    (hopens : ∀ side aead, (s.endpoint side).keys.currentAead = some aead →
      ∀ c, c <:+: (s.endpoint side).fed → ∀ n : Nonce,
        P.aead.OpensOnly (s.client.sealings ++ s.server.sealings) aead.rxKey n n.val c)
    (side : Side) :
    (s.endpoint side).returned.map Frame.item <+: (s.endpoint side.other).submitted ∧
      ((s.endpoint side).returned ≠ [] → Mirrored s.client.keys s.server.keys) := by
  rcases Session.Hostile.believes hA hruns hseparates hfew hopens side with hnil | ⟨hbegins, hkeys⟩
  · rw [hnil]
    exact ⟨List.nil_prefix, fun hne ↦ absurd rfl hne⟩
  · exact ⟨hbegins, fun _ ↦ hkeys⟩

/-- The frame that was replayed and reflected is returned by the server, once, and by nobody else:
and the keys are mirrored. -/
theorem session_authenticity_disturbed :
    (DisturbedSession.disturbed.endpoint .client).returned.map Frame.item
        <+: (DisturbedSession.disturbed.endpoint .server).submitted ∧
      (DisturbedSession.disturbed.endpoint .server).returned.map Frame.item
        <+: (DisturbedSession.disturbed.endpoint .client).submitted ∧
      Mirrored (DisturbedSession.disturbed.endpoint .client).keys
        (DisturbedSession.disturbed.endpoint .server).keys := by
  obtain ⟨-, -, -, -, -, hreturned, ⟨hclient, hserver⟩, -⟩ := DisturbedSession.evaluates
  have hsafe := session_authenticity ChaCha20Poly1305.clear_isCorrect
    DisturbedSession.runs_disturbed DisturbedSession.separatesUpTo.separates
    (fun side ↦ by cases side with
      | client => exact hclient
      | server => exact hserver)
    DisturbedSession.opensOnly
  exact ⟨(hsafe .client).1, (hsafe .server).1, (hsafe .server).2 hreturned⟩
