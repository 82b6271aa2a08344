import Nrxp.Handshake.Lifecycle
import Nrxp.Session.Safety

/-!
# A side by itself

Nothing is assumed of the network here: anything may arrive at a side, at any time. Then what the
two sides come to has nothing to do with each other, and `Alone` says what one side can come to by
its own events: it waits, having noted what others claimed and answered nothing; or it has accepted
a message that arrived, and speaks under the keys that come from it.

What such a side reads depends on what opens under its keys. `Alone.hears` states this for any list
of records: if whatever arrived opens in their places only, the side returns their frames from the
front. Which list that is remains open until both sides are looked at together.
-/

open TlsBridge

namespace TlsBridge

/-- **Inversion of an answer**: to a hello of a client, whose session id has the right length; and
the keys come from one pseudorandom key. -/
theorem exists_of_wrapServerHello {x : X25519} {hkdf : HkdfSha256} {hmac : HmacSha256}
    {now : UInt64} {message : HandshakeMessage} {profile : ServerProfile} {answer : Bytes}
    {version : UInt8} {keys keys' : SessionKeys}
    (h : wrapServerHello x hkdf hmac now message profile keys = (.ok (answer, version), keys')) :
    ∃ base extensions prk, message = .client base extensions ∧ base.sessionId.length = 32 ∧
      keys' = ((keys.setPeerVersion version).withRemoteSalt base.random).derived hkdf prk true ∧
      answer = ServerHello.makeServerHello base keys.ecdh.publicKey.val keys.salt.localSalt
        profile := by
  rcases message with ⟨base, extensions⟩ | ⟨base, extensions⟩
  · by_cases hlen : base.sessionId.length = 32
    · obtain ⟨version', noise, tag, hnoise, hsid⟩ := exists_sessionId hlen
      rw [wrapServerHello_eq hnoise hsid] at h
      rcases hkey : SessionKeys.extractPeerPublic extensions true with peerPublic | e | _ <;>
        rw [hkey] at h
      · dsimp only at h
        split at h
        · rcases SessionKeys.updateKeys_cases x hkdf base.random extensions true
            (keys.setPeerVersion version') with ⟨e, hrun⟩ | ⟨publicKey, secrets, -, -, hrun⟩ <;>
            rw [hrun] at h <;> cases h
          exact ⟨base, extensions, _, rfl, hlen, rfl, rfl⟩
        · cases h
      · cases h
      · cases h
    · rw [wrapServerHello_of_length_ne hlen] at h
      cases h
  · cases h

end TlsBridge

namespace Endpoint

variable {P : Primitives} {now : UInt64} {e : Endpoint}

/-- A hello is read, whatever has arrived: unless a message is there, only the buffer can change. -/
theorem readHello_cases (P : Primitives) (now : UInt64) {e : Endpoint} {role : Role}
    (hrole : e.role = role) :
    (∃ buffer, buffer <:+ e.buffer ∧ (readHello P now e).2 = { e with buffer }) ∨
      ∃ message buffer, unpackHandshake e.buffer = (.ok (some message), buffer) ∧
        buffer <:+ e.buffer ∧
        readHello P now e = acceptHello P now message role { e with buffer } := by
  have hsuffix : (unpackHandshake e.buffer).2 <:+ e.buffer := startProcess_suffix _ _
  rcases hrun : unpackHandshake e.buffer with ⟨(- | message) | error | _, buffer⟩ <;>
    rw [hrun] at hsuffix
  · refine Or.inl ⟨buffer, hsuffix, ?_⟩
    rw [readHello, Exec.bind_ok (onBuffer_of_eq hrun)]
    rfl
  · exact Or.inr ⟨message, buffer, rfl, hsuffix, hrole ▸ readHello_of_some hrun⟩
  · refine Or.inl ⟨buffer, hsuffix, ?_⟩
    rw [readHello, Exec.bind_err (onBuffer_of_eq hrun)]
  · refine Or.inl ⟨buffer, hsuffix, ?_⟩
    rw [readHello, Exec.bind_panic (onBuffer_of_eq hrun)]

/-- A client that takes in a message has noted its salt, or has keys. -/
theorem acceptHello_client_cases (P : Primitives) (now : UInt64) (message : HandshakeMessage)
    (e : Endpoint) :
    (∃ keys, e.keys.EqApartFromPeer keys ∧
      (acceptHello P now message .client e).2 = { e with keys }) ∨
      ∃ aead keys, SessionKeys.updateKeys P.x25519 P.hkdf message.random message.extensions false
          e.keys = (.ok aead, keys) ∧ keys.currentAead = some aead ∧
        (acceptHello P now message .client e).2
          = { e with keys, phase := .ccs (sessionCodec aead keys e) } := by
  rcases SessionKeys.updateKeys_cases P.x25519 P.hkdf message.random message.extensions false
    e.keys with ⟨error, hrun⟩ | ⟨publicKey, secrets, -, -, hrun⟩
  · refine Or.inl ⟨_, e.keys.eqApartFromPeer_withRemoteSalt message.random, ?_⟩
    rw [acceptHello, Exec.bind_err (onKeys_of_eq hrun)]
  · exact Or.inr ⟨_, _, hrun, rfl, by rw [acceptHello_client hrun rfl]⟩

/-- A server that takes in a message has refused it, or has keys and has answered. -/
theorem acceptHello_server_cases (P : Primitives) (now : UInt64) (message : HandshakeMessage)
    (profile : ServerProfile) (e : Endpoint) :
    (∃ keys, e.keys.EqApartFromPeer keys ∧
      (acceptHello P now message (.server profile) e).2 = { e with keys }) ∨
      ∃ answer version aead keys, wrapServerHello P.x25519 P.hkdf P.hmac now message profile e.keys
          = (.ok (answer, version), keys) ∧ keys.currentAead = some aead ∧
        (acceptHello P now message (.server profile) e).2 = { e with
          keys, phase := .ccs (sessionCodec aead keys e)
          written := e.written ++ (answer ++ buildMiddleboxCcs) } := by
  rcases wrapServerHello_cases P.x25519 P.hkdf P.hmac now message profile e.keys with
    ⟨error, keys, hrun, hsame⟩ | ⟨⟨answer, version⟩, keys, hrun, -⟩
  · refine Or.inl ⟨keys, hsame, ?_⟩
    rw [acceptHello, Exec.bind_err (onKeys_of_eq hrun)]
  · obtain ⟨base, extensions, prk, -, -, hkeys, -⟩ := exists_of_wrapServerHello hrun
    have haead : keys.currentAead = some (SessionKeys.aeadKeysOf P.hkdf prk true) := by
      rw [hkeys]
      rfl
    exact Or.inr ⟨answer, version, _, keys, hrun, haead, by rw [acceptHello_server hrun haead]⟩

/-- The record for middleboxes is read, whatever has arrived. -/
theorem readCcs_cases (codec : Codec) (e : Endpoint) (hphase : e.phase = .ccs codec) :
    ∃ buffer phase, buffer <:+ e.buffer ∧ (phase = .ccs codec ∨ phase = .data codec) ∧
      (readCcs codec e).2 = { e with buffer, phase } := by
  have hsuffix : (unpackMiddleboxCcs e.buffer).2 <:+ e.buffer := startProcess_suffix _ _
  rcases hrun : unpackMiddleboxCcs e.buffer with ⟨(- | ⟨⟨⟩⟩) | error | _, buffer⟩ <;>
    rw [hrun] at hsuffix
  · refine ⟨buffer, e.phase, hsuffix, Or.inl hphase, ?_⟩
    rw [readCcs, Exec.bind_ok (onBuffer_of_eq hrun)]
    rfl
  · exact ⟨buffer, _, hsuffix, Or.inr rfl, by rw [readCcs_of_some hrun]⟩
  · refine ⟨buffer, e.phase, hsuffix, Or.inl hphase, ?_⟩
    rw [readCcs, Exec.bind_err (onBuffer_of_eq hrun)]
  · refine ⟨buffer, e.phase, hsuffix, Or.inl hphase, ?_⟩
    rw [readCcs, Exec.bind_panic (onBuffer_of_eq hrun)]

end Endpoint

/-- A frame is read, whatever has arrived. -/
theorem snd_readFrame {P : Primitives} {e : Endpoint} {codec : Codec}
    {r : Outcome TlsError (Option Frame)} {rx : RxCodec} {buffer : Bytes}
    (h : codec.rx.decodeInbound P.aead e.buffer = (r, rx, buffer)) :
    (Endpoint.readFrame P codec e).2 = { e with
      phase := .data { codec with rx }, buffer
      returned := e.returned ++ (returned r).toList } := by
  rw [Endpoint.readFrame, h]
  rcases r with (- | f) | error | _
  · exact congrArg (fun returned ↦ { e with phase := .data { codec with rx }, buffer, returned })
      (List.append_nil _).symm
  · rfl
  · exact congrArg (fun returned ↦ { e with phase := .data { codec with rx }, buffer, returned })
      (List.append_nil _).symm
  · exact congrArg (fun returned ↦ { e with phase := .data { codec with rx }, buffer, returned })
      (List.append_nil _).symm

/-! ### One side alone -/

/-- The role as the handshake takes it. -/
def Side.isServer : Side → Bool
  | client => false
  | server => true

namespace SessionConfig

variable (P : Primitives) (cfg : SessionConfig)

/-- The part a side plays. -/
def roleOf : Side → Role
  | .client => .client
  | .server => .server cfg.serverProfile

/-- What a side writes before anything has arrived. -/
def openingOf : Side → Bytes
  | .client => cfg.clientHello P ++ buildMiddleboxCcs
  | .server => []

end SessionConfig

/-- The message a side accepted: some slice of what arrived was read as it, and the keys of the side
come from it. A server did so at a time its clock may show. -/
inductive Accepted (P : Primitives) (cfg : SessionConfig) (clock : UInt64 → Prop) (e : Endpoint) :
    Side → Bytes → Prop
  /-- The client wrote its hello before. -/
  | client {message : HandshakeMessage} {b rest : Bytes} {keys : SessionKeys}
      {aead : DirectionalAeadKeys} (harrived : b <:+: e.fed)
      (hread : unpackHandshake b = (.ok (some message), rest))
      (hfresh : (cfg.clientKeys P).EqApartFromPeer keys)
      (hkeys : SessionKeys.updateKeys P.x25519 P.hkdf message.random message.extensions false keys
        = (.ok aead, e.keys)) : Accepted P cfg clock e .client (cfg.clientHello P)
  /-- The server wrote an answer. -/
  | server {now : UInt64} {message : HandshakeMessage} {b rest answer : Bytes} {version : UInt8}
      {keys : SessionKeys} (hclock : clock now) (harrived : b <:+: e.fed)
      (hread : unpackHandshake b = (.ok (some message), rest))
      (hfresh : (cfg.serverKeys P).EqApartFromPeer keys)
      (hkeys : wrapServerHello P.x25519 P.hkdf P.hmac now message cfg.serverProfile keys
        = (.ok (answer, version), e.keys)) : Accepted P cfg clock e .server answer

/-- What a side believes it reads: the records `rs`, from the state `first` of its cipher on. -/
inductive Believes (first : ChaChaStream) (rs : List Record) (e : Endpoint) : Prop
  | ccs (codec : Codec) (auth : SessionAuth) (hphase : e.phase = .ccs codec)
      (hrx : codec.rx = .new first auth []) (hreturned : e.returned = [])
  | data (codec : Codec) (todo : List Item) (hphase : e.phase = .data codec)
      (hfollows : Follows first rs todo codec.rx)
      (htodo : itemsOf rs = e.returned.map Frame.item ++ todo)

/-- **What a side has come to by itself**, whatever arrived. Without codecs it has written its
opening and noted at most what others claimed. With codecs it has accepted a message; it has written
its hello and records since; and if there are records such that whatever arrived opens in their
places only, then it reads those. -/
structure Alone (P : Primitives) (cfg : SessionConfig) (clock : UInt64 → Prop) (side : Side)
    (e : Endpoint) : Prop where
  role : e.role = cfg.roleOf side
  buffer : e.buffer <:+ e.fed
  waiting : e.phase.codec = none → (cfg.freshOf P side).EqApartFromPeer e.keys ∧
    e.written = cfg.openingOf P side ∧ e.submitted = [] ∧ e.returned = []
  opened : e.phase.codec ≠ none → ∃ hello aead rs tx, Accepted P cfg clock e side hello ∧
    e.keys.currentAead = some aead ∧ Speaks P hello (.new aead.txKey aead.txIv) e rs tx ∧
      e.written ≠ []
  hears : ∀ aead rs tx, e.phase.codec ≠ none → e.keys.currentAead = some aead →
    Sends P.aead (.new aead.rxKey aead.rxIv) rs tx →
    (∀ c, c <:+: e.fed → OpensInPlace P.aead (.new aead.rxKey aead.rxIv) rs c) →
    Believes (.new aead.rxKey aead.rxIv) rs e

variable {P : Primitives} {cfg : SessionConfig} {clock : UInt64 → Prop} {side : Side}
  {e e' : Endpoint}

/-- Keys stay, and what arrived has arrived. -/
theorem Accepted.mono {hello : Bytes} (h : Accepted P cfg clock e side hello)
    (hkeys : e'.keys = e.keys) (hfed : e.fed <:+: e'.fed) :
    Accepted P cfg clock e' side hello := by
  cases h with
  | client harrived hread hfresh hderived =>
    exact .client (harrived.trans hfed) hread hfresh (hkeys ▸ hderived)
  | server hclock harrived hread hfresh hderived =>
    exact .server hclock (harrived.trans hfed) hread hfresh (hkeys ▸ hderived)

/-- The keys of a side that accepted a message come from one pseudorandom key. -/
theorem Accepted.exists_derived {hello : Bytes} (h : Accepted P cfg clock e side hello) :
    ∃ keys prk, e.keys = SessionKeys.derived P.hkdf prk side.isServer keys := by
  cases h with
  | client _ _ _ hderived =>
    obtain ⟨publicKey, secrets, -, -, hkeys⟩ := SessionKeys.exists_of_updateKeys hderived
    exact ⟨_, _, hkeys⟩
  | server _ _ _ _ hderived =>
    obtain ⟨base, extensions, prk, -, -, hkeys, -⟩ := exists_of_wrapServerHello hderived
    exact ⟨_, prk, hkeys⟩

namespace Believes

variable {first : ChaChaStream} {rs : List Record}

/-- A side reads what it believes in, from the front. -/
theorem begins (h : Believes first rs e) : e.returned.map Frame.item <+: itemsOf rs := by
  cases h with
  | ccs _ _ _ _ hreturned => rw [hreturned]; exact List.nil_prefix
  | data _ _ _ _ htodo => exact ⟨_, htodo.symm⟩

/-- Nothing that is read of a side changed. -/
theorem congr (h : Believes first rs e) (hphase : e'.phase = e.phase)
    (hreturned : e'.returned = e.returned) : Believes first rs e' := by
  cases h with
  | ccs codec auth hphase' hrx hreturned' =>
    exact .ccs codec auth (hphase.trans hphase') hrx (hreturned.trans hreturned')
  | data codec todo hphase' hfollows htodo =>
    exact .data codec todo (hphase.trans hphase') hfollows (by rw [hreturned]; exact htodo)

/-- Sending leaves alone what is read. -/
theorem putTx (h : Believes first rs e) (tx : TxCodec) (written : Bytes) (submitted : List Item) :
    Believes first rs
      { e with phase := e.phase.putTx tx, written := written, submitted := submitted } := by
  cases h with
  | ccs codec auth hphase hrx hreturned =>
    have hput : e.phase.putTx tx = .ccs { codec with tx } := by rw [hphase]; rfl
    exact .ccs _ auth hput hrx hreturned
  | data codec todo hphase hfollows htodo =>
    have hput : e.phase.putTx tx = .data { codec with tx } := by rw [hphase]; rfl
    exact .data _ todo hput hfollows htodo

end Believes

@[simp] theorem Phase.codec_putTx (tx : TxCodec) (phase : Phase) :
    (phase.putTx tx).codec = phase.codec.map fun codec ↦ { codec with tx } := by
  cases phase <;> rfl

namespace Alone

/-- More bytes arrive. -/
theorem feed (h : Alone P cfg clock side e) (bytes : Bytes) :
    Alone P cfg clock side (Endpoint.feed bytes e).2 := by
  have hfed : e.fed <:+: e.fed ++ bytes := (List.prefix_append _ _).isInfix
  obtain ⟨front, hfront⟩ := h.buffer
  exact
    { role := h.role
      buffer := ⟨front, by
        show front ++ (e.buffer ++ bytes) = e.fed ++ bytes
        rw [← hfront, List.append_assoc]⟩
      waiting := h.waiting
      opened := fun hcodec ↦ by
        obtain ⟨hello, aead, rs, tx, haccepted, haead, hspeaks, hne⟩ := h.opened hcodec
        exact ⟨hello, aead, rs, tx, haccepted.mono rfl hfed, haead, hspeaks.congr rfl rfl rfl, hne⟩
      hears := fun aead rs tx hcodec haead hsends hopens ↦
        (h.hears aead rs tx hcodec haead hsends fun c hc ↦ hopens c (hc.trans hfed)).congr rfl rfl }

/-- Frames are sent. -/
theorem send (hA : P.aead.IsCorrect) (h : Alone P cfg clock side e) {now : UInt64}
    {call : EncodeCall} (hpayload : ∀ item ∈ call.items, item.payload.length ≤ maxSentPayload) :
    Alone P cfg clock side (Endpoint.send P now call e).2 := by
  rcases hcodec : e.phase.codec with - | codec
  · rw [Endpoint.send_of_none hcodec]
    exact h
  · have hsome : e.phase.codec ≠ none := by rw [hcodec]; simp
    obtain ⟨hello, aead, rs, tx, haccepted, haead, hspeaks, hne⟩ := h.opened hsome
    obtain ⟨more, tx', e', hrun, hspeaks', -, -, hwritten, txc, he'⟩ :=
      hspeaks.send hA hcodec now hpayload
    rw [hrun]
    have hkeys : e'.keys = e.keys := by rw [he']
    have hfed : e'.fed = e.fed := by rw [he']
    have hcodec' : e'.phase.codec ≠ none := by
      rw [he']
      simp [hcodec]
    exact
      { role := by rw [he']; exact h.role
        buffer := by rw [he']; exact h.buffer
        waiting := fun hnone ↦ absurd hnone hcodec'
        opened := fun _ ↦ ⟨hello, aead, _, tx', haccepted.mono hkeys (hfed ▸ List.infix_rfl),
          hkeys ▸ haead, hspeaks', by rw [hwritten]; exact List.append_ne_nil_of_left_ne_nil hne _⟩
        hears := fun aead rs tx _ haead hsends hopens ↦ by
          rw [he']
          exact (h.hears aead rs tx hsome (hkeys ▸ haead) hsends (hfed ▸ hopens)).putTx _ _ _ }

/-- A read of something other than a hello changes the buffer, the phase and what was returned. -/
theorem put_read (h : Alone P cfg clock side e) {codec : Codec} {buffer : Bytes} {phase : Phase}
    {returned : List Frame} (hcodec : e.phase.codec = some codec)
    (hphase : phase.codec.map Codec.tx = some codec.tx) (hbuffer : buffer <:+ e.buffer)
    (hhears : ∀ {first rs tx}, Sends P.aead first rs tx →
      (∀ c, c <:+: e.buffer → OpensInPlace P.aead first rs c) → Believes first rs e →
        Believes first rs { e with buffer, phase, returned }) :
    Alone P cfg clock side { e with buffer, phase, returned } := by
  have hsome : e.phase.codec ≠ none := by rw [hcodec]; simp
  have hsome' : phase.codec ≠ none := fun hnone ↦ by rw [hnone] at hphase; cases hphase
  have hsame : phase.codec.map Codec.tx = e.phase.codec.map Codec.tx := by
    rw [hphase, hcodec, Option.map_some]
  exact
    { role := h.role
      buffer := hbuffer.trans h.buffer
      waiting := fun hnone ↦ absurd hnone hsome'
      opened := fun _ ↦ by
        obtain ⟨hello, aead, rs, tx, haccepted, haead, hspeaks, hne⟩ := h.opened hsome
        exact ⟨hello, aead, rs, tx, haccepted.mono rfl List.infix_rfl, haead,
          hspeaks.congr rfl rfl hsame, hne⟩
      hears := fun aead rs tx _ haead hsends hopens ↦
        hhears hsends (fun c hc ↦ hopens c (hc.trans h.buffer.isInfix))
          (h.hears aead rs tx hsome haead hsends hopens) }

/-- The record for middleboxes is read. -/
theorem readCcs (h : Alone P cfg clock side e) {codec : Codec} (hphase : e.phase = .ccs codec) :
    Alone P cfg clock side (Endpoint.readCcs codec e).2 := by
  obtain ⟨buffer, phase, hbuffer, hphase', hrun⟩ := Endpoint.readCcs_cases codec e hphase
  rw [hrun]
  refine h.put_read (show e.phase.codec = some codec by rw [hphase]; rfl)
    (by rcases hphase' with rfl | rfl <;> rfl) hbuffer fun {first rs tx} hsends _ hbelieves ↦ ?_
  cases hbelieves with
  | data _ _ hphase'' => rw [hphase] at hphase''; cases hphase''
  | ccs codec' auth hphase'' hrx hreturned =>
    obtain rfl : codec = codec' := by simpa [hphase] using hphase''
    rcases hphase' with rfl | rfl
    · exact .ccs codec auth rfl hrx hreturned
    · -- nothing was opened so far
      refine .data codec (itemsOf rs) rfl ⟨0, [], Nat.zero_le _, ?_, ?_, ?_, ?_, by simp⟩ ?_
      · rw [hrx]; rfl
      · rw [hrx]
        show first.state = _
        simp
      · rw [hrx]; exact .nil
      · rw [hrx]; exact Nat.two_pow_pos 16
      · show _ = e.returned.map Frame.item ++ _
        rw [hreturned]
        rfl

/-- A frame is read. -/
theorem readFrame (hA : P.aead.IsCorrect) (h : Alone P cfg clock side e) {codec : Codec}
    (hphase : e.phase = .data codec) :
    Alone P cfg clock side (Endpoint.readFrame P codec e).2 := by
  obtain ⟨r, rx, buffer, hdecode, -, hbuffer, -⟩ := codec.rx.decodeInbound_progress P.aead e.buffer
  rw [snd_readFrame hdecode]
  refine h.put_read (show e.phase.codec = some codec by rw [hphase]; rfl) rfl hbuffer
    fun {first rs tx} hsends hopens hbelieves ↦ ?_
  cases hbelieves with
  | ccs _ _ hphase' => rw [hphase] at hphase'; cases hphase'
  | data codec' todo hphase' hfollows htodo =>
    obtain rfl : codec = codec' := by simpa [hphase] using hphase'
    obtain ⟨r', rx', buffer', hdecode', hadvances⟩ := hfollows.decodeInbound hA hsends hopens
    cases hdecode.symm.trans hdecode'
    rcases hadvances with ⟨f, todo', rfl, rfl, hfollows'⟩ | ⟨hnone, hfollows'⟩
    · refine .data _ todo' rfl hfollows' ?_
      show _ = (e.returned ++ [f]).map Frame.item ++ todo'
      rw [htodo]
      simp
    · refine .data _ todo rfl hfollows' ?_
      show _ = (e.returned ++ _).map Frame.item ++ todo
      rw [hnone, htodo]
      simp

/-- Keys are there, and with them codecs. -/
theorem opens (h : Alone P cfg clock side e) (hnone : e.phase.codec = none) (more : Bytes)
    {hello : Bytes} {keys : SessionKeys} {buffer : Bytes} {aead : DirectionalAeadKeys}
    (hbuffer : buffer <:+ e.buffer) (haead : keys.currentAead = some aead)
    (haccepted : Accepted P cfg clock { e with keys } side hello)
    (hwritten : e.written ++ more = hello ++ buildMiddleboxCcs) :
    Alone P cfg clock side { e with
      keys, buffer, phase := .ccs (Endpoint.sessionCodec aead keys e)
      written := e.written ++ more } := by
  obtain ⟨-, -, hsubmitted, hreturned⟩ := h.waiting hnone
  refine
    { role := h.role
      buffer := hbuffer.trans h.buffer
      waiting := fun h ↦ by cases h
      opened := fun _ ↦ ⟨hello, aead, [], .new aead.txKey aead.txIv,
        haccepted.mono rfl List.infix_rfl, haead, ?_, ?_⟩
      hears := fun aead' rs tx _ haead' _ _ ↦ ?_ }
  · refine .spoken ?_ (.nil _) (by simp) (fun codec hcodec ↦ ?_) (fun _ ↦ rfl) hsubmitted
    · rw [hwritten]
      simp [wireOf]
    · cases hcodec
      rfl
  · rw [hwritten]
    exact List.append_ne_nil_of_right_ne_nil _ (by decide)
  · rw [haead] at haead'
    cases haead'
    exact .ccs _ _ rfl rfl hreturned

/-- A message is not accepted. -/
theorem refuses (h : Alone P cfg clock side e) (hnone : e.phase.codec = none)
    {keys : SessionKeys} {buffer : Bytes} (hkeys : e.keys.EqApartFromPeer keys)
    (hbuffer : buffer <:+ e.buffer) : Alone P cfg clock side { e with keys, buffer } := by
  obtain ⟨hfresh, hwritten, hsubmitted, hreturned⟩ := h.waiting hnone
  exact
    { role := h.role
      buffer := hbuffer.trans h.buffer
      waiting := fun _ ↦ ⟨hfresh.trans hkeys, hwritten, hsubmitted, hreturned⟩
      opened := fun hsome ↦ absurd hnone hsome
      hears := fun _ _ _ hsome ↦ absurd hnone hsome }

/-- A hello is read. -/
theorem readHello (h : Alone P cfg clock side e) (hphase : e.phase = .hello) {now : UInt64}
    (hclock : side = .server → clock now) :
    Alone P cfg clock side (Endpoint.readHello P now e).2 := by
  have hnone : e.phase.codec = none := by rw [hphase]; rfl
  have hfresh := (h.waiting hnone).1
  rcases Endpoint.readHello_cases P now h.role with ⟨buffer, hbuffer, hrun⟩ |
    ⟨message, buffer, hunpack, hbuffer, hrun⟩ <;> rw [hrun]
  · exact h.refuses hnone (.refl e.keys) hbuffer
  · have hwritten := (h.waiting hnone).2.1
    have harrived : e.buffer <:+: e.fed := h.buffer.isInfix
    cases side with
    | client =>
      rcases Endpoint.acceptHello_client_cases P now message { e with buffer } with
        ⟨keys, hkeys, hrun⟩ | ⟨aead, keys, hupdate, haead, hrun⟩ <;>
        rw [SessionConfig.roleOf, hrun]
      · exact h.refuses hnone hkeys hbuffer
      · have hopens := h.opens hnone [] hbuffer haead
          (.client harrived hunpack hfresh hupdate) (by rw [hwritten, List.append_nil]; rfl)
        rw [List.append_nil] at hopens
        exact hopens
    | server =>
      rcases Endpoint.acceptHello_server_cases P now message cfg.serverProfile { e with buffer }
        with ⟨keys, hkeys, hrun⟩ | ⟨answer, version, aead, keys, hwrap, haead, hrun⟩ <;>
        rw [SessionConfig.roleOf, hrun]
      · exact h.refuses hnone hkeys hbuffer
      · exact h.opens hnone _ hbuffer haead
          (.server (hclock rfl) harrived hunpack hfresh hwrap) (by rw [hwritten]; rfl)

/-- A side reads. -/
theorem read (hA : P.aead.IsCorrect) (h : Alone P cfg clock side e) {now : UInt64}
    (hclock : side = .server → clock now) :
    Alone P cfg clock side (Endpoint.read P now e).2 := by
  rcases hphase : e.phase with - | codec | codec
  · rw [Endpoint.read_of_hello P now hphase]
    exact h.readHello hphase hclock
  · rw [Endpoint.read_of_ccs P now hphase]
    exact h.readCcs hphase
  · rw [Endpoint.read_of_data P now hphase]
    exact h.readFrame hA hphase

end Alone

namespace Session

/-- What a hostile network and the users of both sides do: anything arrives, and is read at any time
the clock of the server may show; the payloads fit. -/
def Hostile (clock : UInt64 → Prop) (_ : Session) (side : Side) : Event → Prop
  | .feed _ => True
  | .read now => side = .server → clock now
  | .send _ call => ∀ item ∈ call.items, item.payload.length ≤ maxSentPayload

theorem alone_start (P : Primitives) (cfg : SessionConfig) (clock : UInt64 → Prop) (side : Side) :
    Alone P cfg clock side ((cfg.start P).endpoint side) := by
  cases side with
  | client =>
    exact
      { role := rfl
        buffer := List.suffix_rfl
        waiting := fun _ ↦ ⟨.refl _, rfl, rfl, rfl⟩
        opened := fun h ↦ absurd rfl h
        hears := fun _ _ _ h ↦ absurd rfl h }
  | server =>
    exact
      { role := rfl
        buffer := List.suffix_rfl
        waiting := fun _ ↦ ⟨.refl _, rfl, rfl, rfl⟩
        opened := fun h ↦ absurd rfl h
        hears := fun _ _ _ h ↦ absurd rfl h }

/-- An event happens at one side. -/
theorem endpoint_step (P : Primitives) (side : Side) (event : Event) (s : Session) (side' : Side) :
    (Session.step P side event s).2.endpoint side'
      = if side' = side then (event.run P (s.endpoint side)).2 else s.endpoint side' := by
  cases side <;> cases side' <;> rfl

/-- **Both sides, each by itself**, in every session that a hostile network leads to. -/
theorem Hostile.alone (hA : P.aead.IsCorrect) {s : Session}
    (hruns : Runs P (Hostile clock) (cfg.start P) s) (side : Side) :
    Alone P cfg clock side (s.endpoint side) := by
  induction hruns with
  | refl => exact alone_start P cfg clock side
  | tail _ hstep ih =>
    obtain ⟨side', event, hadmits, rfl⟩ := hstep
    rw [endpoint_step]
    split
    case isTrue heq =>
      subst heq
      cases event with
      | feed bytes => exact ih.feed bytes
      | read now => exact ih.read hA hadmits
      | send now call => exact ih.send hA hadmits
    case isFalse => exact ih

end Session
