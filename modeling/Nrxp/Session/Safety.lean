import Nrxp.Session.Flow

/-!
# Sessions over a faithful network

Whatever the order of events and however the bytes are cut, two sides that may talk to each other
and whose network delivers what was written come to mirrored keys and lose, duplicate and reorder no
frame: `session_safety` says that nothing fails and nothing wrong is returned,
`session_completes` that everything is returned once the network and the readers have caught up.
-/

open TlsBridge

/-- Two clock readings that are at most two steps apart. -/
def Near (now now' : UInt64) : Prop :=
  (now / 60).toNat ≤ (now' / 60).toNat + 2 ∧ (now' / 60).toNat ≤ (now / 60).toNat + 2

namespace SessionConfig

/-- The assumptions on what each side starts from, by itself. -/
structure WellFormed (P : Primitives) (cfg : SessionConfig) : Prop where
  aead : P.aead.IsCorrect
  fits : cfg.profile.Fits
  share : TlsExtensions.keyShare ∈ cfg.profile.extensionOrder
  host : (utf8 cfg.host).length ≤ 253
  clientKey : (cfg.clientKeys P).ecdh.publicKey ≠ .zero 32
  serverKey : (cfg.serverKeys P).ecdh.publicKey ≠ .zero 32

/-- And that the two may talk to each other. -/
structure Sound (P : Primitives) (cfg : SessionConfig) : Prop extends cfg.WellFormed P where
  commutes : P.x25519.Commutes
  compatible : Compatible P.x25519 cfg.clientIdentity cfg.serverIdentity

/-- The keys of a side before it has read anything. -/
def freshOf (P : Primitives) (cfg : SessionConfig) : Side → SessionKeys
  | .client => cfg.clientKeys P
  | .server => cfg.serverKeys P

/-- The hello of a side, given the server's. -/
def helloOf (P : Primitives) (cfg : SessionConfig) (answer : Bytes) : Side → Bytes
  | .client => cfg.clientHello P
  | .server => answer

/-- **What the two sides come to**: each hello is read as some message, whatever the clock of the
server within its window, and the keys of both sides load mirrored ciphers. -/
structure Agreed (P : Primitives) (cfg : SessionConfig) (answer : Bytes)
    (keys : Side → SessionKeys) (first : Side → ChaChaStream) : Prop where
  clientHello : ∃ message,
    unpackHandshake (cfg.clientHello P) = (.ok (some message), []) ∧
    ∀ now, Near cfg.now now → ∃ version,
      wrapServerHello P.x25519 P.hkdf P.hmac now message cfg.serverProfile (cfg.serverKeys P)
        = (.ok (answer, version), keys .server)
  serverHello : ∃ message aead, unpackHandshake answer = (.ok (some message), []) ∧
    SessionKeys.updateKeys P.x25519 P.hkdf message.random message.extensions false
      (cfg.clientKeys P) = (.ok aead, keys .client)
  ciphers : ∀ side : Side, ∃ aead, (keys side).currentAead = some aead ∧
    first side = .new aead.txKey aead.txIv ∧ first side.other = .new aead.rxKey aead.rxIv
  mirrored : Mirrored (keys .client) (keys .server)

/-- Two sides that may talk to each other agree. -/
theorem Sound.exists_agreed {P : Primitives} {cfg : SessionConfig} (h : cfg.Sound P) :
    ∃ answer keys first, cfg.Agreed P answer keys first := by
  obtain ⟨base, extensions, noise, hunpack, hrandom, hnoise, hsid, hkey⟩ :=
    unpackHandshake_makeClientHello P.hmac cfg.now h.fits h.share h.host h.clientKey cfg.helloRng []
  have hsidLen : base.sessionId.length = 32 := by rw [hsid]; simp [hnoise]
  obtain ⟨hello, extensions', hunpack', hrandom', hkey'⟩ := unpackHandshake_makeServerHello hsidLen
    (cfg.serverKeys P).ecdh.publicKey (cfg.serverKeys P).salt.localSalt h.serverKey
    cfg.serverProfile []
  rw [List.append_nil] at hunpack hunpack'
  obtain ⟨secrets, hsecrets, hsecrets'⟩ :=
    h.compatible.sharedSecrets h.commutes cfg.clientRng cfg.serverRng
  let version := (cfg.clientKeys P).claimedVersion
  let noted := ((cfg.serverKeys P).setPeerVersion version).withRemoteSalt base.random
  let prk := SessionKeys.prkOf P.hkdf ((cfg.clientKeys P).withRemoteSalt hello.random) secrets
  -- both sides extracted from the same input
  have hprk : SessionKeys.prkOf P.hkdf noted secrets = prk := by
    have htotal := getTotal_freshKeys P.x25519 cfg.clientIdentity cfg.serverIdentity cfg.clientRng
      cfg.serverRng version
    show P.hkdf.extractKey noted.salt.getTotal.val _ = P.hkdf.extractKey _ _
    simp only [noted, hrandom, hrandom']
    exact congrArg (fun salts : ByteArr 64 ↦ P.hkdf.extractKey salts.val secrets.ikm) htotal.symm
  have hupdate : SessionKeys.updateKeys P.x25519 P.hkdf base.random extensions true
      ((cfg.serverKeys P).setPeerVersion version)
      = (.ok (SessionKeys.aeadKeysOf P.hkdf prk true), noted.derived P.hkdf prk true) := by
    rw [← hprk]
    exact SessionKeys.updateKeys_of_some hkey hsecrets'
  have hupdate' : SessionKeys.updateKeys P.x25519 P.hkdf hello.random extensions' false
      (cfg.clientKeys P) = (.ok (SessionKeys.aeadKeysOf P.hkdf prk false),
        ((cfg.clientKeys P).withRemoteSalt hello.random).derived P.hkdf prk false) :=
    SessionKeys.updateKeys_of_some hkey' hsecrets
  let clientAead := SessionKeys.aeadKeysOf P.hkdf prk false
  let keys : Side → SessionKeys
    | .client => ((cfg.clientKeys P).withRemoteSalt hello.random).derived P.hkdf prk false
    | .server => noted.derived P.hkdf prk true
  let first : Side → ChaChaStream
    | .client => .new clientAead.txKey clientAead.txIv
    | .server => .new clientAead.rxKey clientAead.rxIv
  refine ⟨_, keys, first,
    { clientHello := ⟨.client base extensions, hunpack, fun now hnear ↦ ⟨version, ?_⟩⟩
      serverHello := ⟨_, _, hunpack', hupdate'⟩
      ciphers := fun side ↦ ?_
      mirrored := mirrored_derived P.hkdf prk _ _ }⟩
  · have hverify := h.compatible.verifyHandshakeTag P.hmac hnear.1 hnear.2 cfg.clientRng
      cfg.serverRng base.random
    exact wrapServerHello_of_verified hnoise hsid hkey hverify hupdate
  · cases side with
    | client => exact ⟨clientAead, rfl, rfl, rfl⟩
    | server => exact ⟨SessionKeys.aeadKeysOf P.hkdf prk true, rfl, rfl, rfl⟩

end SessionConfig

namespace Session

@[simp] theorem endpoint_put (side : Side) (e : Endpoint) (s : Session) :
    (s.put side e).endpoint side = e := by
  cases side <;> rfl

@[simp] theorem endpoint_put_other (side : Side) (e : Endpoint) (s : Session) :
    (s.put side e).endpoint side.other = s.endpoint side.other := by
  cases side <;> rfl

@[simp] theorem put_endpoint (side : Side) (s : Session) : s.put side (s.endpoint side) = s := by
  cases side <;> rfl

theorem step_of_run {P : Primitives} {side : Side} {event : Event} {s : Session}
    {r : Outcome SessionError Unit} {e : Endpoint}
    (h : event.run P (s.endpoint side) = (r, e)) : step P side event s = (r, s.put side e) :=
  Exec.zoom_of_eq h

/-- What a faithful network and the users of both sides do: the bytes that arrive are those the
other side wrote, in order; the server reads the hello while the clocks are near; the payloads
fit. -/
def Faithful (cfg : SessionConfig) (s : Session) (side : Side) : Event → Prop
  | .feed bytes => (s.endpoint side).fed ++ bytes <+: (s.endpoint side.other).written
  | .read now => side = .server → s.server.phase.codec = none → Near cfg.now now
  | .send _ call => ∀ item ∈ call.items, item.payload.length ≤ maxSentPayload

/-- **The invariant of a session**: both directions, and the keys of each side as far as it has
come. -/
structure Joined (P : Primitives) (cfg : SessionConfig) (answer : Bytes)
    (keys : Side → SessionKeys) (first : Side → ChaChaStream) (s : Session) : Prop where
  direction : ∀ side : Side, ∃ rs tx unread,
    Direction P (cfg.helloOf P answer side) (first side) (s.endpoint side)
      (s.endpoint side.other) rs tx unread
  clientRole : s.client.role = .client
  serverRole : s.server.role = .server cfg.serverProfile
  fresh : ∀ side, (s.endpoint side).phase.codec = none →
    (s.endpoint side).keys = cfg.freshOf P side
  derived : ∀ side, (s.endpoint side).phase.codec ≠ none → (s.endpoint side).keys = keys side
  clientWrote : s.client.written ≠ []
  /-- The server is the first to have codecs. -/
  serverFirst : s.server.phase.codec = none →
    s.server.written = [] ∧ s.client.phase.codec = none

variable {P : Primitives} {cfg : SessionConfig} {answer : Bytes} {keys : Side → SessionKeys}
  {first : Side → ChaChaStream} {s : Session}

theorem joined_start (P : Primitives) (cfg : SessionConfig) (answer : Bytes)
    (keys : Side → SessionKeys) (first : Side → ChaChaStream) :
    Joined P cfg answer keys first (cfg.start P) where
  direction side := by
    cases side with
    | client =>
      exact ⟨[], _, _, .spoken (by rfl) (.nil _) (by simp) (fun _ h ↦ by cases h) (fun _ ↦ rfl) rfl,
        rfl, .hello rfl rfl rfl⟩
    | server => exact ⟨[], _, [], .silent rfl rfl rfl, rfl, .hello rfl rfl rfl⟩
  clientRole := rfl
  serverRole := rfl
  fresh side _ := by cases side <;> rfl
  derived side h := by cases side <;> exact absurd rfl h
  clientWrote := List.append_ne_nil_of_right_ne_nil _ (by decide)
  serverFirst _ := ⟨rfl, rfl⟩

namespace Joined

/-- An event that changes one side keeps the invariant if both directions are kept there. -/
theorem put (h : Joined P cfg answer keys first s) {side : Side} {e : Endpoint}
    (hout : ∃ rs tx unread, Direction P (cfg.helloOf P answer side) (first side) e
      (s.endpoint side.other) rs tx unread)
    (hin : ∃ rs tx unread, Direction P (cfg.helloOf P answer side.other) (first side.other)
      (s.endpoint side.other) e rs tx unread)
    (hrole : e.role = (s.endpoint side).role)
    (hkeys : e.keys = (s.endpoint side).keys)
    (hcodec : e.phase.codec = none ↔ (s.endpoint side).phase.codec = none)
    (hwrote : ∃ more, e.written = (s.endpoint side).written ++ more)
    (hsilent : e.phase.codec = none → e.written = (s.endpoint side).written) :
    Joined P cfg answer keys first (s.put side e) := by
  obtain ⟨more, hmore⟩ := hwrote
  cases side with
  | client =>
    exact
      { direction := fun side ↦ by cases side with
          | client => exact hout
          | server => exact hin
        clientRole := hrole.trans h.clientRole
        serverRole := h.serverRole
        fresh := fun side hnone ↦ by cases side with
          | client => exact hkeys.trans (h.fresh .client (hcodec.mp hnone))
          | server => exact h.fresh .server hnone
        derived := fun side hsome ↦ by cases side with
          | client => exact hkeys.trans (h.derived .client fun hnone ↦ hsome (hcodec.mpr hnone))
          | server => exact h.derived .server hsome
        clientWrote := by
          show e.written ≠ []
          rw [hmore]
          exact List.append_ne_nil_of_left_ne_nil h.clientWrote _
        serverFirst := fun hnone ↦ ⟨(h.serverFirst hnone).1, hcodec.mpr (h.serverFirst hnone).2⟩ }
  | server =>
    exact
      { direction := fun side ↦ by cases side with
          | client => exact hin
          | server => exact hout
        clientRole := h.clientRole
        serverRole := hrole.trans h.serverRole
        fresh := fun side hnone ↦ by cases side with
          | client => exact h.fresh .client hnone
          | server => exact hkeys.trans (h.fresh .server (hcodec.mp hnone))
        derived := fun side hsome ↦ by cases side with
          | client => exact h.derived .client hsome
          | server => exact hkeys.trans (h.derived .server fun hnone ↦ hsome (hcodec.mpr hnone))
        clientWrote := h.clientWrote
        serverFirst := fun hnone ↦
          have hold := h.serverFirst (hcodec.mp hnone)
          ⟨(hsilent hnone).trans hold.1, hold.2⟩ }

/-- The direction a side reads from. -/
theorem incoming (h : Joined P cfg answer keys first s) (side : Side) :
    ∃ rs tx unread, Direction P (cfg.helloOf P answer side.other) (first side.other)
      (s.endpoint side.other) (s.endpoint side) rs tx unread := by
  cases side with
  | client => exact h.direction .server
  | server => exact h.direction .client

/-- Bytes that the other side wrote arrive. -/
theorem feed (h : Joined P cfg answer keys first s) {side : Side} {bytes : Bytes}
    (hfaithful : (s.endpoint side).fed ++ bytes <+: (s.endpoint side.other).written) :
    ∃ s', Session.step P side (.feed bytes) s = (.ok (), s') ∧
      Joined P cfg answer keys first s' := by
  refine ⟨_, rfl, ?_⟩
  obtain ⟨rs, tx, unread, hout⟩ := h.direction side
  obtain ⟨rs', tx', unread', hin⟩ := h.incoming side
  obtain ⟨later, hlater⟩ := hfaithful
  obtain rfl : unread' = bytes ++ later := by
    have hwire := hin.wire
    rw [← hlater, List.append_assoc] at hwire
    exact (List.append_cancel_left hwire).symm
  refine h.put ⟨rs, tx, unread, hout.speaks.congr rfl rfl rfl, hout.wire, hout.hears⟩
    ⟨rs', tx', later, hin.speaks, hlater.symm, hin.hears.feed⟩ rfl rfl Iff.rfl
    ⟨[], (List.append_nil _).symm⟩ (fun _ ↦ rfl)

/-- A side sends frames whose payloads fit. -/
theorem send (hA : P.aead.IsCorrect) (h : Joined P cfg answer keys first s) {side : Side}
    {now : UInt64} {call : EncodeCall}
    (hpayload : ∀ item ∈ call.items, item.payload.length ≤ maxSentPayload) :
    ∃ s', Session.step P side (.send now call) s = (.ok (), s') ∧
      Joined P cfg answer keys first s' := by
  obtain ⟨rs, tx, unread, hout⟩ := h.direction side
  obtain ⟨rs', tx', unread', hin⟩ := h.incoming side
  rcases hcodec : (s.endpoint side).phase.codec with - | codec
  · refine ⟨s, ?_, h⟩
    have hrun : Event.run P (.send now call) (s.endpoint side) = (.ok (), s.endpoint side) :=
      Endpoint.send_of_none hcodec
    rw [step_of_run hrun, put_endpoint]
  · obtain ⟨more, tx'', e', hrun, hspeaks, hmore, hfits, hwritten, txc, he'⟩ :=
      hout.speaks.send hA hcodec now hpayload
    refine ⟨_, step_of_run hrun, ?_⟩
    have hcodec' : e'.phase.codec ≠ none := by
      rw [he']
      rcases hphase : (s.endpoint side).phase with - | c | c
      · rw [hphase] at hcodec
        cases hcodec
      · simp [Phase.putTx, Phase.codec]
      · simp [Phase.putTx, Phase.codec]
    refine h.put ⟨_, _, unread ++ wireOf more, hspeaks, ?_, hout.hears.extend hmore hfits⟩
      ⟨rs', tx', unread', hin.speaks, ?_, ?_⟩ (by rw [he']) (by rw [he'])
      ⟨fun hnone ↦ absurd hnone hcodec', fun hnone ↦ by rw [hcodec] at hnone; cases hnone⟩
      ⟨_, hwritten⟩ (fun hnone ↦ absurd hnone hcodec')
    · rw [hwritten, hout.wire, List.append_assoc]
    · rw [he']
      exact hin.wire
    · rw [he']
      exact hin.hears.putTx txc _ _

/-- A read of something other than a hello changes the buffer, the phase and what was returned. -/
theorem put_read (h : Joined P cfg answer keys first s) {side : Side} {codec : Codec}
    {buffer : Bytes} {phase : Phase} {returned : List Frame}
    (hcodec : (s.endpoint side).phase.codec = some codec)
    (hphase : phase.codec.map Codec.tx = some codec.tx)
    (hhears : ∀ {rs tx unread}, Direction P (cfg.helloOf P answer side.other) (first side.other)
        (s.endpoint side.other) (s.endpoint side) rs tx unread →
      Hears P (cfg.helloOf P answer side.other) (first side.other) rs tx
        { s.endpoint side with buffer, phase, returned } unread) :
    Joined P cfg answer keys first
      (s.put side { s.endpoint side with buffer, phase, returned }) := by
  obtain ⟨rs, tx, unread, hout⟩ := h.direction side
  obtain ⟨rs', tx', unread', hin⟩ := h.incoming side
  have hsame : phase.codec.map Codec.tx = (s.endpoint side).phase.codec.map Codec.tx := by
    rw [hphase, hcodec, Option.map_some]
  refine h.put ⟨rs, tx, unread, hout.speaks.congr rfl rfl hsame, hout.wire, hout.hears⟩
    ⟨rs', tx', unread', hin.speaks, hin.wire, hhears hin⟩ rfl rfl ?_ ⟨[], (List.append_nil _).symm⟩
    (fun _ ↦ rfl)
  rw [← Option.map_eq_none_iff (f := Codec.tx), hsame, Option.map_eq_none_iff]

/-- The client reads the hello of the server. -/
theorem readHello_client (hagreed : cfg.Agreed P answer keys first)
    (h : Joined P cfg answer keys first s) (now : UInt64)
    (hcodec : s.client.phase.codec = none) :
    ∃ e, Endpoint.readHello P now s.client = (.ok (), e) ∧
      Joined P cfg answer keys first (s.put .client e) ∧ e.submitted = s.client.submitted ∧
      (s.server.written ≠ [] → s.client.fed = s.server.written →
        ∃ codec, e.phase = .ccs codec) := by
  obtain ⟨message, aead', hwhole, hupdate⟩ := hagreed.serverHello
  obtain ⟨rs, tx, unread, hout⟩ := h.direction .client
  obtain ⟨rs', tx', unread', hin⟩ := h.direction .server
  rcases hin.unpackHandshake hcodec hwhole with ⟨hwrote, rest, hunpack, hrest⟩ | ⟨hwait, hlater⟩
  · obtain ⟨aead, haead, htx, hrx⟩ := hagreed.ciphers .client
    have hkeys : s.client.keys = cfg.clientKeys P := h.fresh .client hcodec
    rw [← hkeys] at hupdate
    have hserver : s.server.phase.codec ≠ none := fun hnone ↦ hwrote (h.serverFirst hnone).1
    change unpackHandshake s.client.buffer = _ at hunpack
    let e : Endpoint := { s.client with buffer := rest }
    have hrun : Endpoint.readHello P now s.client = (.ok (), { e with
        keys := keys .client, phase := .ccs (e.sessionCodec aead (keys .client)) }) := by
      rw [Endpoint.readHello_of_some hunpack, h.clientRole]
      exact Endpoint.acceptHello_client hupdate haead
    refine ⟨_, hrun, ?_, rfl, fun _ _ ↦ ⟨_, rfl⟩⟩
    · exact
        { direction := fun side ↦ by cases side with
            | client => exact ⟨rs, tx, unread,
                hout.speaks.openCodec hcodec h.clientWrote rfl htx.symm rfl rfl, hout.wire,
                hout.hears⟩
            | server => exact ⟨rs', tx', unread', hin.speaks, hin.wire,
                .ccs rfl (by rw [show first .server = _ from hrx]; rfl) hrest
                  (hin.hears.of_none hcodec).2.2⟩
          clientRole := h.clientRole
          serverRole := h.serverRole
          fresh := fun side hnone ↦ by cases side with
            | client => cases hnone
            | server => exact absurd hnone hserver
          derived := fun side hsome ↦ by cases side with
            | client => rfl
            | server => exact h.derived .server hsome
          clientWrote := h.clientWrote
          serverFirst := fun hnone ↦ absurd hnone hserver }
  · refine ⟨_, Endpoint.readHello_of_none hwait, ?_, rfl, fun hne hall ↦ ?_⟩
    · rwa [show s.client = s.endpoint .client from rfl, put_endpoint]
    · exact absurd (hin.unread_eq_nil hall) (hlater hne)

/-- The server reads the hello of the client, and answers. -/
theorem readHello_server (hagreed : cfg.Agreed P answer keys first)
    (h : Joined P cfg answer keys first s) {now : UInt64} (hnear : Near cfg.now now)
    (hcodec : s.server.phase.codec = none) :
    ∃ e, Endpoint.readHello P now s.server = (.ok (), e) ∧
      Joined P cfg answer keys first (s.put .server e) ∧ e.submitted = s.server.submitted ∧
      (s.server.fed = s.client.written → ∃ codec, e.phase = .ccs codec) := by
  obtain ⟨message, hwhole, hanswers⟩ := hagreed.clientHello
  obtain ⟨version, hwrap⟩ := hanswers now hnear
  obtain ⟨rs, tx, unread, hout⟩ := h.direction .server
  obtain ⟨rs', tx', unread', hin⟩ := h.direction .client
  rcases hin.unpackHandshake hcodec hwhole with ⟨-, rest, hunpack, hrest⟩ | ⟨hwait, hlater⟩
  · obtain ⟨aead, haead, htx, hrx⟩ := hagreed.ciphers .server
    have hkeys : s.server.keys = cfg.serverKeys P := h.fresh .server hcodec
    rw [← hkeys] at hwrap
    obtain ⟨hsilent, hclient⟩ := h.serverFirst hcodec
    have hclientHears := hout.hears.of_none hclient
    have hfed : s.client.fed = [] := (List.append_eq_nil_iff.mp (hout.wire.symm.trans hsilent)).1
    have hsubmitted : s.server.submitted = [] := by
      cases hout.speaks with
      | silent _ _ hsubmitted => exact hsubmitted
      | spoken _ _ _ _ hnone hsubmitted =>
        obtain rfl := hnone hcodec
        exact hsubmitted
    change unpackHandshake s.server.buffer = _ at hunpack
    let e : Endpoint := { s.server with buffer := rest }
    have hrun : Endpoint.readHello P now s.server = (.ok (), { e with
        keys := keys .server, phase := .ccs (e.sessionCodec aead (keys .server))
        written := e.written ++ (answer ++ buildMiddleboxCcs) }) := by
      rw [Endpoint.readHello_of_some hunpack, h.serverRole]
      exact Endpoint.acceptHello_server hwrap haead
    refine ⟨_, hrun, ?_, rfl, fun _ ↦ ⟨_, rfl⟩⟩
    · have hwritten : s.server.written ++ (answer ++ buildMiddleboxCcs)
          = answer ++ (buildMiddleboxCcs ++ wireOf []) := by
        rw [hsilent, List.nil_append]
        rfl
      exact
        { direction := fun side ↦ by cases side with
            | client => exact ⟨rs', tx', unread', hin.speaks, hin.wire,
                .ccs rfl (by rw [show first .client = _ from hrx]; rfl) hrest
                  (hin.hears.of_none hcodec).2.2⟩
            | server => exact ⟨[], first .server, answer ++ (buildMiddleboxCcs ++ wireOf []),
                .spoken hwritten (.nil _) (by simp)
                  (fun codec hsome ↦ by cases hsome; exact htx.symm) (fun _ ↦ rfl) hsubmitted,
                by show _ = s.client.fed ++ _; rw [hfed]; exact hwritten,
                .hello hclientHears.1 hclientHears.2.1 hclientHears.2.2⟩
          clientRole := h.clientRole
          serverRole := h.serverRole
          fresh := fun side hnone ↦ by cases side with
            | client => exact h.fresh .client hnone
            | server => cases hnone
          derived := fun side hsome ↦ by cases side with
            | client => exact absurd hclient hsome
            | server => rfl
          clientWrote := h.clientWrote
          serverFirst := fun hnone ↦ by cases hnone }
  · refine ⟨_, Endpoint.readHello_of_none hwait, ?_, rfl, fun hall ↦ ?_⟩
    · rwa [show s.server = s.endpoint .server from rfl, put_endpoint]
    · exact absurd (hin.unread_eq_nil hall) (hlater h.clientWrote)

/-- A side reads. -/
theorem read (hA : P.aead.IsCorrect) (hagreed : cfg.Agreed P answer keys first)
    (h : Joined P cfg answer keys first s) {side : Side} {now : UInt64}
    (hnear : side = .server → s.server.phase.codec = none → Near cfg.now now) :
    ∃ s', Session.step P side (.read now) s = (.ok (), s') ∧
      Joined P cfg answer keys first s' := by
  rcases hphase : (s.endpoint side).phase with - | codec | codec
  · have hcodec : (s.endpoint side).phase.codec = none := by rw [hphase]; rfl
    cases side with
    | client =>
      obtain ⟨e, hrun, h', -⟩ := h.readHello_client hagreed now hcodec
      exact ⟨_, step_of_run ((Endpoint.read_of_hello P now hphase).trans hrun), h'⟩
    | server =>
      obtain ⟨e, hrun, h', -⟩ := h.readHello_server hagreed (hnear rfl hcodec) hcodec
      exact ⟨_, step_of_run ((Endpoint.read_of_hello P now hphase).trans hrun), h'⟩
  · have hcodec : (s.endpoint side).phase.codec = some codec := by rw [hphase]; rfl
    obtain ⟨rs, tx, unread, hin⟩ := h.incoming side
    obtain ⟨hsends, hfits⟩ := hin.speaks.sends
    obtain ⟨buffer, phase, hrun, hsame, -⟩ := hin.hears.readCcs hsends hfits hphase
    refine ⟨_, step_of_run ((Endpoint.read_of_ccs P now hphase).trans hrun),
      h.put_read hcodec hsame fun {rs tx unread} hin ↦ ?_⟩
    obtain ⟨hsends, hfits⟩ := hin.speaks.sends
    obtain ⟨buffer', phase', hrun', -, hhears⟩ := hin.hears.readCcs hsends hfits hphase
    cases hrun.symm.trans hrun'
    exact hhears
  · have hcodec : (s.endpoint side).phase.codec = some codec := by rw [hphase]; rfl
    obtain ⟨rs, tx, unread, hin⟩ := h.incoming side
    obtain ⟨buffer, phase, returned, hrun, hsame, -⟩ := hin.hears.readFrame hA hphase
    refine ⟨_, step_of_run ((Endpoint.read_of_data P now hphase).trans hrun),
      h.put_read hcodec hsame fun {rs tx unread} hin ↦ ?_⟩
    obtain ⟨buffer', phase', returned', hrun', -, hhears⟩ := hin.hears.readFrame hA hphase
    cases hrun.symm.trans hrun'
    exact hhears

end Joined

theorem Faithful.step (hA : P.aead.IsCorrect) (hagreed : cfg.Agreed P answer keys first)
    (h : Joined P cfg answer keys first s) {side : Side} {event : Event}
    (hfaithful : Faithful cfg s side event) :
    ∃ s', Session.step P side event s = (.ok (), s') ∧ Joined P cfg answer keys first s' := by
  cases event with
  | feed bytes => exact h.feed hfaithful
  | read now => exact h.read hA hagreed hfaithful
  | send now call => exact h.send hA hfaithful

/-- **The invariant holds in every session** that a faithful network leads to. -/
theorem Joined.of_runs (hA : P.aead.IsCorrect) (hagreed : cfg.Agreed P answer keys first)
    (hruns : Runs P (Faithful cfg) (cfg.start P) s) : Joined P cfg answer keys first s := by
  induction hruns with
  | refl => exact joined_start P cfg answer keys first
  | tail _ hstep ih =>
    obtain ⟨side, event, hfaithful, rfl⟩ := hstep
    obtain ⟨s', hrun, h'⟩ := hfaithful.step hA hagreed ih
    rw [hrun]
    exact h'

/-- What a side returned is the beginning of what the other submitted. -/
theorem Joined.begins (h : Joined P cfg answer keys first s) (side : Side) :
    (s.endpoint side).returned.map Frame.item <+: (s.endpoint side.other).submitted := by
  obtain ⟨rs, tx, unread, hin⟩ := h.incoming side
  rw [hin.speaks.submitted]
  exact hin.hears.begins

end Session

/-- **Safety of a session.** Take two sides whose credentials are compatible, a profile that fits
and has a slot for the key share, and a network that delivers what was written. Let bytes be cut and
events ordered in any way: both sides may send as soon as they have keys, and the server must read
the hello while the clocks are near. Then in every session that can be reached nothing fails, what
each side returned is the beginning of what the other submitted, and once both sides have codecs
their keys are mirrored. -/
theorem session_safety {P : Primitives} {cfg : SessionConfig} (hsound : cfg.Sound P) {s : Session}
    (hruns : Session.Runs P (Session.Faithful cfg) (cfg.start P) s) :
    (∀ side event, Session.Faithful cfg s side event → (Session.step P side event s).1 = .ok ()) ∧
      (∀ side : Side, (s.endpoint side).returned.map Frame.item
        <+: (s.endpoint side.other).submitted) ∧
      (s.client.phase.codec ≠ none → s.server.phase.codec ≠ none →
        Mirrored s.client.keys s.server.keys) := by
  obtain ⟨answer, keys, first, hagreed⟩ := hsound.exists_agreed
  have hjoined := Session.Joined.of_runs hsound.aead hagreed hruns
  refine ⟨fun side event hfaithful ↦ ?_, hjoined.begins, fun hclient hserver ↦ ?_⟩
  · obtain ⟨s', hrun, -⟩ := hfaithful.step hsound.aead hagreed hjoined
    rw [hrun]
  · rw [show s.client.keys = _ from hjoined.derived .client hclient,
      show s.server.keys = _ from hjoined.derived .server hserver]
    exact hagreed.mirrored

/-! ### A session to compute with -/

namespace SampleSession

def primitives : Primitives := ⟨.clear, .sum, .repeating, .sum⟩

/-- Shapers that draw the least. -/
def draws : ShaperDraws where
  floor := 64
  le_floor := by decide
  floor_le := by decide
  gaps := Stream'.const ⟨0, 128, by decide, by decide⟩

/-- A client with a profile of the repository and a strict node it knows. -/
def config : SessionConfig where
  clientIdentity := some (.ofPeer ⟨.fill 32 7, .fill 32 9⟩)
  serverIdentity := some (.ofLocal ⟨.fill 32 7, .fill 32 9, true⟩)
  profile := .chrome140
  serverProfile := .modern
  host := "example.org"
  now := 100 * 60
  clientRng := .repeating 1
  serverRng := .repeating 2
  helloRng := .repeating 4
  clientDraws := draws
  serverDraws := draws
  clientPadding := Stream'.const 0
  serverPadding := Stream'.const 0

theorem sound : config.Sound primitives where
  aead := ChaCha20Poly1305.clear_isCorrect
  commutes := X25519.sum_commutes
  compatible := .keyed ⟨.fill 32 7, .fill 32 9⟩ ⟨.fill 32 7, .fill 32 9, true⟩ rfl rfl
  fits := BrowserProfile.shipped_fits .chrome140 List.mem_cons_self
  share := by decide
  host := by decide
  clientKey := by decide
  serverKey := by decide

/-- The hello of the client arrives at the server. -/
def arrived : Session :=
  (Session.step primitives .server (.feed (config.start primitives).client.written)
    (config.start primitives)).2

/-- And the server reads it, two steps later. -/
def answered : Session := (Session.step primitives .server (.read (102 * 60)) arrived).2

theorem runs_answered :
    Session.Runs primitives (Session.Faithful config) (config.start primitives) answered := by
  have harrived : Session.Runs primitives (Session.Faithful config) (config.start primitives)
      arrived := .single ⟨.server, .feed _, List.prefix_rfl, rfl⟩
  exact harrived.tail ⟨.server, .read (102 * 60), fun _ _ ↦ ⟨by decide, by decide⟩, rfl⟩

end SampleSession

/-- In the sample session the client can read whatever has arrived, and has returned nothing yet. -/
theorem session_safety_answered :
    (Session.step SampleSession.primitives .client (.read 0) SampleSession.answered).1 = .ok () ∧
      (SampleSession.answered.endpoint .client).returned.map Frame.item
        <+: (SampleSession.answered.endpoint .server).submitted :=
  have hsafe := session_safety SampleSession.sound SampleSession.runs_answered
  ⟨hsafe.1 .client (.read 0) (fun hside ↦ by cases hside), hsafe.2.1 .client⟩
