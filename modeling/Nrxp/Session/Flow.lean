import Nrxp.Session.Endpoint

/-!
# What holds throughout a session

`Direction` describes one of the two directions of a session, from the side that writes to the side
that reads: what was written is the hello, the record for middleboxes and the records of the cipher;
what was read of it is where the phase of the reader says. Each event of a side is checked once
against the direction it writes to and once against the direction it reads from, and since the two
sides only meet in the bytes between them, `Joined` is no more than both directions and the state of
the keys.
-/

open TlsBridge

/-! ### What the operations of a side do -/

namespace Endpoint

variable {P : Primitives} {now : UInt64} {e : Endpoint}

/-- The codecs a side makes from its keys. -/
def sessionCodec (aead : DirectionalAeadKeys) (keys : SessionKeys) (e : Endpoint) : Codec :=
  .new (ChaChaCipher.new.setKeys aead.txKey aead.txIv aead.rxKey aead.rxIv) keys.authKey e.draws
    e.rng

theorem onBuffer_of_eq {α : Type} {m : Exec Bytes TlsError α} {r : Outcome TlsError α}
    {rest : Bytes} (h : m e.buffer = (r, rest)) :
    onBuffer m e = (r.mapErr .tls, { e with buffer := rest }) := by
  refine Exec.zoom_of_eq ?_
  rw [Exec.mapErr_apply, h]

theorem onKeys_of_eq {ε α : Type} {error : ε → SessionError} {m : Exec SessionKeys ε α}
    {r : Outcome ε α} {keys : SessionKeys} (h : m e.keys = (r, keys)) :
    onKeys error m e = (r.mapErr error, { e with keys }) := by
  refine Exec.zoom_of_eq ?_
  rw [Exec.mapErr_apply, h]

theorem openCodec_of_some {aead : DirectionalAeadKeys} (h : e.keys.currentAead = some aead) :
    openCodec e = (.ok (), { e with phase := .ccs (sessionCodec aead e.keys e) }) := by
  rw [openCodec, Exec.get_bind, SessionKeys.getAeadParameters, h]
  rfl

theorem readHello_of_none (h : unpackHandshake e.buffer = (.ok none, e.buffer)) :
    readHello P now e = (.ok (), e) := by
  rw [readHello, Exec.bind_ok (onBuffer_of_eq h)]
  rfl

/-- A client derives its keys. -/
theorem acceptHello_client {message : HandshakeMessage} {aead aead' : DirectionalAeadKeys}
    {keys : SessionKeys}
    (hkeys : SessionKeys.updateKeys P.x25519 P.hkdf message.random message.extensions false e.keys
      = (.ok aead', keys)) (haead : keys.currentAead = some aead) :
    acceptHello P now message .client e
      = (.ok (), { e with keys := keys, phase := .ccs (sessionCodec aead keys e) }) := by
  rw [acceptHello, Exec.bind_ok (onKeys_of_eq hkeys)]
  exact openCodec_of_some haead

/-- A server answers. -/
theorem acceptHello_server {profile : ServerProfile} {message : HandshakeMessage} {answer : Bytes}
    {version : UInt8} {aead : DirectionalAeadKeys} {keys : SessionKeys}
    (hkeys : wrapServerHello P.x25519 P.hkdf P.hmac now message profile e.keys
      = (.ok (answer, version), keys)) (haead : keys.currentAead = some aead) :
    acceptHello P now message (.server profile) e = (.ok (), { e with
      keys := keys, phase := .ccs (sessionCodec aead keys e)
      written := e.written ++ (answer ++ buildMiddleboxCcs) }) := by
  rw [acceptHello, Exec.bind_ok (onKeys_of_eq hkeys)]
  exact Exec.bind_ok (openCodec_of_some (e := { e with keys }) haead)

/-- A hello that has arrived is taken in. -/
theorem readHello_of_some {message : HandshakeMessage} {rest : Bytes}
    (h : unpackHandshake e.buffer = (.ok (some message), rest)) :
    readHello P now e = acceptHello P now message e.role { e with buffer := rest } := by
  rw [readHello, Exec.bind_ok (onBuffer_of_eq h)]
  rfl

theorem readCcs_of_none {codec : Codec} (h : unpackMiddleboxCcs e.buffer = (.ok none, e.buffer)) :
    readCcs codec e = (.ok (), e) := by
  rw [readCcs, Exec.bind_ok (onBuffer_of_eq h)]
  rfl

theorem readCcs_of_some {codec : Codec} {rest : Bytes}
    (h : unpackMiddleboxCcs e.buffer = (.ok (some ()), rest)) :
    readCcs codec e = (.ok (), { e with buffer := rest, phase := .data codec }) := by
  rw [readCcs, Exec.bind_ok (onBuffer_of_eq h)]
  rfl

theorem readFrame_of_none {codec : Codec} {rx : RxCodec} {buffer : Bytes}
    (h : codec.rx.decodeInbound P.aead e.buffer = (.ok none, rx, buffer)) :
    readFrame P codec e = (.ok (), { e with phase := .data { codec with rx }, buffer }) := by
  rw [readFrame, h]

theorem readFrame_of_some {codec : Codec} {rx : RxCodec} {buffer : Bytes} {f : Frame}
    (h : codec.rx.decodeInbound P.aead e.buffer = (.ok (some f), rx, buffer)) :
    readFrame P codec e = (.ok (), { e with
      phase := .data { codec with rx }, buffer, returned := e.returned ++ [f] }) := by
  rw [readFrame, h]

/-- What is read depends on the phase. -/
theorem read_eq (e : Endpoint) : read P now e = (match e.phase with
    | .hello => readHello P now
    | .ccs codec => readCcs codec
    | .data codec => readFrame P codec) e := rfl

theorem read_of_hello (P : Primitives) (now : UInt64) (h : e.phase = .hello) :
    read P now e = readHello P now e := by
  rw [read_eq, h]

theorem read_of_ccs (P : Primitives) (now : UInt64) {codec : Codec} (h : e.phase = .ccs codec) :
    read P now e = readCcs codec e := by
  rw [read_eq, h]

theorem read_of_data (P : Primitives) (now : UInt64) {codec : Codec} (h : e.phase = .data codec) :
    read P now e = readFrame P codec e := by
  rw [read_eq, h]

theorem send_of_none {call : EncodeCall} (h : e.phase.codec = none) :
    send P now call e = (.ok (), e) := by
  rw [send, h]

theorem send_of_ok {call : EncodeCall} {codec : Codec} {out : Bytes} {tx : TxCodec}
    (hcodec : e.phase.codec = some codec)
    (h : call.run P.aead P.hmac now codec.tx = (.ok out, tx)) :
    send P now call e = (.ok (), { e with
      phase := e.phase.putTx tx
      written := e.written ++ out
      submitted := e.submitted ++ call.items }) := by
  rw [send, hcodec]
  dsimp only
  rw [h]

end Endpoint

/-! ### One direction -/

/-- What a side has written, of which the stream of its cipher has come to `tx`. -/
inductive Speaks (P : Primitives) (hello : Bytes) (first : ChaChaStream) :
    Endpoint → List Record → ChaChaStream → Prop
  /-- Nothing yet. -/
  | silent {e : Endpoint} (hcodec : e.phase.codec = none) (hwritten : e.written = [])
      (hsubmitted : e.submitted = []) : Speaks P hello first e [] first
  /-- The hello, the record for middleboxes, and records. -/
  | spoken {e : Endpoint} {rs : List Record} {tx : ChaChaStream}
      (hwritten : e.written = hello ++ (buildMiddleboxCcs ++ wireOf rs))
      (hsends : Sends P.aead first rs tx)
      (hfits : ∀ r ∈ rs, r.plain.length + aeadTagLen < 2 ^ 16)
      (htx : ∀ codec, e.phase.codec = some codec → codec.tx.crypto = tx)
      (hnone : e.phase.codec = none → rs = []) (hsubmitted : e.submitted = itemsOf rs) :
      Speaks P hello first e rs tx

/-- How much of the records `rs` a side has read, with `unread` still on its way. -/
inductive Hears (P : Primitives) (hello : Bytes) (first : ChaChaStream) (rs : List Record)
    (tx : ChaChaStream) : Endpoint → Bytes → Prop
  | hello {e : Endpoint} {unread : Bytes} (hphase : e.phase = .hello) (hfed : e.fed = e.buffer)
      (hreturned : e.returned = []) : Hears P hello first rs tx e unread
  | ccs {e : Endpoint} {unread : Bytes} {codec : Codec} {auth : SessionAuth}
      (hphase : e.phase = .ccs codec) (hrx : codec.rx = .new first auth [])
      (hwire : e.buffer ++ unread = buildMiddleboxCcs ++ wireOf rs) (hreturned : e.returned = []) :
      Hears P hello first rs tx e unread
  | data {e : Endpoint} {unread : Bytes} {codec : Codec} {pend : List Item}
      {segments : List Segment} (hphase : e.phase = .data codec)
      (hflows : Flows P.aead pend segments tx codec.rx e.buffer unread)
      (hown : segments.countP Segment.isForeign = 0)
      (htodo : itemsOf rs = e.returned.map Frame.item ++ (pend ++ framesOf segments)) :
      Hears P hello first rs tx e unread

/-- One direction of a session. -/
structure Direction (P : Primitives) (hello : Bytes) (first : ChaChaStream)
    (source target : Endpoint) (rs : List Record) (tx : ChaChaStream) (unread : Bytes) :
    Prop where
  speaks : Speaks P hello first source rs tx
  wire : source.written = target.fed ++ unread
  hears : Hears P hello first rs tx target unread

variable {P : Primitives} {hello : Bytes} {first tx tx' : ChaChaStream} {e e' : Endpoint}
  {rs : List Record} {unread : Bytes}

/-! ### The writer of a direction -/

namespace Speaks

/-- What it wrote after its hello went through its cipher. -/
theorem sends (h : Speaks P hello first e rs tx) :
    Sends P.aead first rs tx ∧ ∀ r ∈ rs, r.plain.length + aeadTagLen < 2 ^ 16 := by
  cases h with
  | silent => exact ⟨.nil _, by simp⟩
  | spoken _ hsends hfits => exact ⟨hsends, hfits⟩

theorem submitted (h : Speaks P hello first e rs tx) : e.submitted = itemsOf rs := by
  cases h with
  | silent _ _ hsubmitted => exact hsubmitted
  | spoken _ _ _ _ _ hsubmitted => exact hsubmitted

/-- A side with codecs has written its hello. -/
theorem written_ne_nil (h : Speaks P hello first e rs tx) (hcodec : e.phase.codec ≠ none) :
    e.written ≠ [] := by
  cases h with
  | silent hnone => exact absurd hnone hcodec
  | spoken hwritten =>
    rw [hwritten]
    exact List.append_ne_nil_of_right_ne_nil _ (List.append_ne_nil_of_left_ne_nil (by decide) _)

/-- A side that writes nothing and keeps its sending codec has said what it had. -/
theorem congr (h : Speaks P hello first e rs tx) (hwritten : e'.written = e.written)
    (hsubmitted : e'.submitted = e.submitted)
    (hcodec : e'.phase.codec.map Codec.tx = e.phase.codec.map Codec.tx) :
    Speaks P hello first e' rs tx := by
  have hnone : e'.phase.codec = none ↔ e.phase.codec = none := by
    rw [← Option.map_eq_none_iff (f := Codec.tx), hcodec, Option.map_eq_none_iff]
  cases h with
  | silent hcodec' hwritten' hsubmitted' =>
    exact .silent (hnone.mpr hcodec') (hwritten.trans hwritten') (hsubmitted.trans hsubmitted')
  | spoken hwritten' hsends hfits htx hnone' hsubmitted' =>
    refine .spoken (hwritten.trans hwritten') hsends hfits (fun codec' h' ↦ ?_)
      (fun h' ↦ hnone' (hnone.mp h')) (hsubmitted.trans hsubmitted')
    rw [h', Option.map_some, eq_comm, Option.map_eq_some_iff] at hcodec
    obtain ⟨codec, h, hsame⟩ := hcodec
    rw [← hsame]
    exact htx codec h

/-- A side that had only written its hello opens its codecs. -/
theorem openCodec (h : Speaks P hello first e rs tx) (hnone : e.phase.codec = none)
    (hne : e.written ≠ []) {codec : Codec} (hcodec : e'.phase.codec = some codec)
    (htx : codec.tx.crypto = first) (hwritten : e'.written = e.written)
    (hsubmitted : e'.submitted = e.submitted) : Speaks P hello first e' rs tx := by
  cases h with
  | silent _ hwritten' => exact absurd hwritten' hne
  | spoken hwritten' hsends hfits _ hempty hsubmitted' =>
    obtain rfl := hempty hnone
    cases hsends
    refine .spoken (hwritten.trans hwritten') (.nil _) hfits (fun codec' h' ↦ ?_) (fun _ ↦ rfl)
      (hsubmitted.trans hsubmitted')
    obtain rfl : codec = codec' := Option.some.inj (hcodec.symm.trans h')
    exact htx

/-- **Sending** adds records, and the frames of the call. -/
theorem send (hA : P.aead.IsCorrect) (h : Speaks P hello first e rs tx) {codec : Codec}
    (hcodec : e.phase.codec = some codec) (now : UInt64) {call : EncodeCall}
    (hpayload : ∀ item ∈ call.items, item.payload.length ≤ maxSentPayload) :
    ∃ more tx' e', Endpoint.send P now call e = (.ok (), e') ∧
      Speaks P hello first e' (rs ++ more) tx' ∧ Sends P.aead tx more tx' ∧
      (∀ r ∈ more, r.plain.length + aeadTagLen < 2 ^ 16) ∧
      e'.written = e.written ++ wireOf more ∧
      ∃ tx, e' = { e with
        phase := e.phase.putTx tx, written := e'.written, submitted := e'.submitted } := by
  cases h with
  | silent hnone => rw [hnone] at hcodec; cases hcodec
  | spoken hwritten hsends hfits htx _ hsubmitted =>
    let M := frameHeaderSize + maxSentPayload
    have hM : M = 65519 := rfl
    have hitems : ∀ item ∈ call.items, item.wireLen ≤ M := fun item hitem ↦ by
      have := hpayload item hitem
      simp only [Item.wireLen, Frame.wireLen, M, UInt16.toNat_zero]
      omega
    have hrule : TxCodec.SendRule P.aead (·.wireLen ≤ M) (Sent P.aead M codec.tx)
        (fun _ _ ↦ Refused P.aead M) := TxCodec.sendRule_sent (by decide)
    have hrun := hrule.run P.hmac now call hitems [] []
    have hstart := Sent.refl (A := P.aead) (M := M) codec.tx
    rcases hout : call.run P.aead P.hmac now codec.tx with ⟨out | error | _, txc⟩
    · obtain ⟨more, hmore, hdone, hwire, hlen⟩ := hrun.of_ok hstart hout
      rw [List.nil_append] at hdone hwire
      rw [htx codec hcodec] at hmore
      have hfits' : ∀ r ∈ more, r.plain.length + aeadTagLen < 2 ^ 16 := fun r hr ↦ by
        have := hlen r hr
        simp only [aeadTagLen]
        omega
      refine ⟨more, txc.crypto, _, Endpoint.send_of_ok hcodec hout, ?_, hmore, hfits',
        by rw [hwire], txc, rfl⟩
      refine .spoken ?_ (hsends.append hmore) ?_ (fun codec' h' ↦ ?_) (fun h' ↦ ?_) ?_
      · show e.written ++ out = _
        rw [hwritten, wireOf_append, hwire, List.append_assoc, List.append_assoc]
      · intro r hr
        exact (List.mem_append.mp hr).elim (hfits r) (hfits' r)
      · rcases hphase : e.phase with _ | c | c <;> simp only [hphase] at hcodec h'
        · cases hcodec
        · cases h'; rfl
        · cases h'; rfl
      · rcases hphase : e.phase with _ | c | c <;> simp only [hphase] at hcodec h'
        · cases hcodec
        · cases h'
        · cases h'
      · show e.submitted ++ call.items = _
        rw [hsubmitted, itemsOf_append, hdone]
    · exact absurd (hrun.of_err hstart hout) (not_refused hA (by rw [hM]; decide))
    · exact absurd (congrArg Prod.fst hout) (hrun.ne_panic hstart)

end Speaks

/-! ### The reader of a direction -/

namespace Hears

/-- More bytes arrive. -/
theorem feed {bytes : Bytes} (h : Hears P hello first rs tx e (bytes ++ unread)) :
    Hears P hello first rs tx
      { e with buffer := e.buffer ++ bytes, fed := e.fed ++ bytes } unread := by
  cases h with
  | hello hphase hfed hreturned => exact .hello hphase (by rw [hfed]) hreturned
  | ccs hphase hrx hwire hreturned =>
    exact .ccs hphase hrx (by rw [List.append_assoc]; exact hwire) hreturned
  | data hphase hflows hown htodo => exact .data hphase hflows.read hown htodo

/-- The writer goes on. -/
theorem extend (h : Hears P hello first rs tx e unread) {more : List Record}
    (hmore : Sends P.aead tx more tx')
    (hfits : ∀ r ∈ more, r.plain.length + aeadTagLen < 2 ^ 16) :
    Hears P hello first (rs ++ more) tx' e (unread ++ wireOf more) := by
  cases h with
  | hello hphase hfed hreturned => exact .hello hphase hfed hreturned
  | ccs hphase hrx hwire hreturned =>
    refine .ccs hphase hrx ?_ hreturned
    rw [← List.append_assoc, hwire, wireOf_append, List.append_assoc]
  | data hphase hflows hown htodo =>
    have hflows' := hflows.send (hmore.travels hfits)
    rw [bytes_map_own] at hflows'
    refine .data hphase hflows' ?_ ?_
    · rw [List.countP_append, hown, List.countP_map]
      exact (Nat.zero_add _).trans (List.countP_eq_zero.mpr fun r _ ↦ by simp [Segment.isForeign])
    · rw [itemsOf_append, htodo, framesOf_append, framesOf_map_own, List.append_assoc,
        List.append_assoc]

/-- The reader sends: what it has read stays. -/
theorem putTx (h : Hears P hello first rs tx e unread) (txc : TxCodec) (written : Bytes)
    (submitted : List Item) :
    Hears P hello first rs tx
      { e with phase := e.phase.putTx txc, written := written, submitted := submitted }
      unread := by
  cases h with
  | hello hphase hfed hreturned => exact .hello (by rw [hphase]; rfl) hfed hreturned
  | @ccs codec _ hphase hrx hwire hreturned =>
    have hput : e.phase.putTx txc = .ccs { codec with tx := txc } := by rw [hphase]; rfl
    exact .ccs hput hrx hwire hreturned
  | @data codec _ _ hphase hflows hown htodo =>
    have hput : e.phase.putTx txc = .data { codec with tx := txc } := by rw [hphase]; rfl
    exact .data hput hflows hown htodo

/-- **The record for middleboxes is read**: it is waited for, or taken off. -/
theorem readCcs (h : Hears P hello first rs tx e unread) (hsends : Sends P.aead first rs tx)
    (hfits : ∀ r ∈ rs, r.plain.length + aeadTagLen < 2 ^ 16) {codec : Codec}
    (hphase : e.phase = .ccs codec) :
    ∃ buffer phase, Endpoint.readCcs codec e = (.ok (), { e with buffer, phase }) ∧
      phase.codec.map Codec.tx = some codec.tx ∧
      Hears P hello first rs tx { e with buffer, phase } unread := by
  cases h with
  | hello hphase' => rw [hphase] at hphase'; cases hphase'
  | data hphase' => rw [hphase] at hphase'; cases hphase'
  | @ccs codec' auth hphase' hrx hwire hreturned =>
    obtain rfl : codec = codec' := by simpa [hphase] using hphase'
    rcases unpackMiddleboxCcs_incremental.arrived unpackMiddleboxCcs_buildMiddleboxCcs (by simp)
        hwire with ⟨rest, -, hunread, hrun⟩ | ⟨-, hrun⟩
    · have hflows : Flows P.aead [] (rs.map .own) tx codec.rx rest unread :=
        { travels := ⟨first, hsends.travels hfits, by rw [hrx]; exact ⟨rfl, rfl⟩⟩
          staged := by rw [hrx]; exact .nil
          small := by rw [hrx]; exact Nat.two_pow_pos 16
          wire := by rw [bytes_map_own]; exact hunread }
      refine ⟨rest, .data codec, Endpoint.readCcs_of_some hrun, rfl, .data rfl hflows ?_ ?_⟩
      · rw [List.countP_map]
        exact List.countP_eq_zero.mpr fun r _ ↦ by simp [Segment.isForeign]
      · show _ = e.returned.map Frame.item ++ _
        rw [hreturned, framesOf_map_own]
        rfl
    · exact ⟨e.buffer, e.phase, Endpoint.readCcs_of_none hrun, by rw [hphase]; rfl,
        .ccs hphase hrx hwire hreturned⟩

/-- **A frame is read**, if one has arrived. -/
theorem readFrame (hA : P.aead.IsCorrect) (h : Hears P hello first rs tx e unread)
    {codec : Codec} (hphase : e.phase = .data codec) :
    ∃ buffer phase returned, Endpoint.readFrame P codec e
        = (.ok (), { e with buffer, phase, returned }) ∧
      phase.codec.map Codec.tx = some codec.tx ∧
      Hears P hello first rs tx { e with buffer, phase, returned } unread := by
  cases h with
  | hello hphase' => rw [hphase] at hphase'; cases hphase'
  | ccs hphase' => rw [hphase] at hphase'; cases hphase'
  | @data codec' pend segments hphase' hflows hown htodo =>
    obtain rfl : codec = codec' := by simpa [hphase] using hphase'
    rcases hflows.decodeInbound hA with
      ⟨f, rx, buffer, pend', segments', hrun, htodo', hcount, h'⟩ |
      ⟨_, _, _, bytes, segments', -, -, rfl, -⟩ | ⟨hrun, -⟩
    · refine ⟨buffer, _, e.returned ++ [f], Endpoint.readFrame_of_some hrun, rfl,
        .data rfl h' (hcount ▸ hown) ?_⟩
      show _ = (e.returned ++ [f]).map Frame.item ++ _
      rw [htodo, htodo']
      simp
    · -- there are no records of others
      rw [List.countP_cons_of_pos (by rfl)] at hown
      omega
    · exact ⟨e.buffer, _, e.returned, Endpoint.readFrame_of_none hrun, rfl,
        .data rfl hflows hown htodo⟩

end Hears

/-! ### The hello of a direction -/

/-- A reader without codecs has taken nothing off. -/
theorem Hears.of_none (h : Hears P hello first rs tx e unread) (hcodec : e.phase.codec = none) :
    e.phase = .hello ∧ e.fed = e.buffer ∧ e.returned = [] := by
  cases h with
  | hello hphase hfed hreturned => exact ⟨hphase, hfed, hreturned⟩
  | ccs hphase => rw [hphase] at hcodec; cases hcodec
  | data hphase => rw [hphase] at hcodec; cases hcodec

/-- **The hello is read**: it has arrived in full and is taken off; or it is waited for, since it
was not written yet or is still on its way. -/
theorem Direction.unpackHandshake {message : HandshakeMessage}
    (h : Direction P hello first e' e rs tx unread) (hcodec : e.phase.codec = none)
    (hwhole : TlsBridge.unpackHandshake hello = (.ok (some message), [])) :
    (e'.written ≠ [] ∧ ∃ rest,
      TlsBridge.unpackHandshake e.buffer = (.ok (some message), rest) ∧
        rest ++ unread = buildMiddleboxCcs ++ wireOf rs) ∨
      (TlsBridge.unpackHandshake e.buffer = (.ok none, e.buffer) ∧
        (e'.written ≠ [] → unread ≠ [])) := by
  obtain ⟨hspeaks, hwire, hhears⟩ := h
  obtain ⟨-, hfed, -⟩ := hhears.of_none hcodec
  rw [hfed] at hwire
  cases hspeaks with
  | silent _ hwritten =>
    obtain ⟨hbuffer, -⟩ := List.append_eq_nil_iff.mp (hwire.symm.trans hwritten)
    rw [hbuffer]
    exact Or.inr ⟨rfl, fun hne ↦ absurd hwritten hne⟩
  | spoken hwritten =>
    have hne : e'.written ≠ [] := by
      rw [hwritten]
      exact List.append_ne_nil_of_right_ne_nil _ (List.append_ne_nil_of_left_ne_nil (by decide) _)
    have hstream := hwire.symm.trans hwritten
    rcases unpackHandshake_incremental.arrived hwhole (by simp) hstream with
      ⟨rest, -, hunread, hrun⟩ | ⟨hshort, hrun⟩
    · exact Or.inl ⟨hne, rest, hrun, hunread⟩
    · refine Or.inr ⟨hrun, fun _ hnil ↦ ?_⟩
      have hlen := congrArg List.length hstream
      rw [hnil, List.append_nil, List.length_append] at hlen
      omega

/-! ### With everything read -/

theorem Direction.unread_eq_nil (h : Direction P hello first e' e rs tx unread)
    (hall : e.fed = e'.written) : unread = [] := by
  have hwire := h.wire
  rw [hall] at hwire
  exact List.self_eq_append_right.mp hwire

namespace Hears

/-- With everything there, the record for middleboxes is taken off. -/
theorem readCcs_of_all (h : Hears P hello first rs tx e []) {codec : Codec}
    (hphase : e.phase = .ccs codec) :
    ∃ rest, Endpoint.readCcs codec e
      = (.ok (), { e with buffer := rest, phase := .data codec }) := by
  cases h with
  | hello hphase' => rw [hphase] at hphase'; cases hphase'
  | data hphase' => rw [hphase] at hphase'; cases hphase'
  | ccs _ _ hwire =>
    rcases unpackMiddleboxCcs_incremental.arrived unpackMiddleboxCcs_buildMiddleboxCcs (by simp)
        hwire with ⟨rest, -, -, hrun⟩ | ⟨hshort, -⟩
    · exact ⟨rest, Endpoint.readCcs_of_some hrun⟩
    · have hlen := congrArg List.length hwire
      rw [List.append_nil, List.length_append] at hlen
      omega

/-- With everything there, a frame is returned, or all frames were. -/
theorem readFrame_of_all (hA : P.aead.IsCorrect) (h : Hears P hello first rs tx e [])
    {codec : Codec} (hphase : e.phase = .data codec) :
    (e.returned.length < (itemsOf rs).length ∧ ∃ f rx buffer,
      Endpoint.readFrame P codec e = (.ok (), { e with
        phase := .data { codec with rx }, buffer, returned := e.returned ++ [f] })) ∨
      itemsOf rs = e.returned.map Frame.item := by
  cases h with
  | hello hphase' => rw [hphase] at hphase'; cases hphase'
  | ccs hphase' => rw [hphase] at hphase'; cases hphase'
  | @data codec' pend segments hphase' hflows hown htodo =>
    obtain rfl : codec = codec' := by simpa [hphase] using hphase'
    rcases hflows.decodeInbound hA with ⟨f, rx, buffer, _, _, hrun, hfirst, -⟩ |
      ⟨_, _, _, bytes, segments', -, -, rfl, -⟩ | ⟨-, rfl, hshort⟩
    · refine Or.inl ⟨?_, f, rx, buffer, Endpoint.readFrame_of_some hrun⟩
      rw [htodo, hfirst, List.length_append, List.length_map, List.length_cons]
      omega
    · -- there are no records of others
      rw [List.countP_cons_of_pos (by rfl)] at hown
      omega
    · obtain ⟨rfl, -⟩ := hflows.eq_nil_of_short hshort
      exact Or.inr (htodo.trans (List.append_nil _))

/-- What was returned is the beginning of what was submitted. -/
theorem begins (h : Hears P hello first rs tx e unread) :
    e.returned.map Frame.item <+: itemsOf rs := by
  cases h with
  | hello _ _ hreturned => rw [hreturned]; exact List.nil_prefix
  | ccs _ _ _ hreturned => rw [hreturned]; exact List.nil_prefix
  | data _ _ _ htodo => exact ⟨_, htodo.symm⟩

end Hears
