import Nrxp.Bridge.Stalls
import Nrxp.Session.Hostile

/-!
# What a side holds

A side keeps bytes in two places: those that arrived and were not taken off, and those its receiving
codec has decrypted and not parsed. Both are in the hands of the network, or of the other side. The
second is bounded in every session, because a record is decrypted only when no frame is staged in
full. The first is bounded whenever the side has nothing to read, unless what it holds begins like
no record; then it holds on to that, and to whatever arrives after it.
-/

open TlsBridge

/-- The most bytes of a frame: its header, a payload and padding. -/
def maxFrameLen : ℕ := frameHeaderSize + 65535 + 65535

/-- The most bytes of a record: its header and a payload. -/
def maxRecordBytes : ℕ := 5 + 65535

/-! ### What is waited for -/

/-- A buffer on which the record parser waits is short, or begins like no record. -/
theorem TlsRecord.short_or_dead {b : Bytes} (h : (parse b).1 = .ok none) :
    b.length < maxRecordBytes ∨ TlsBridge.Dead b := by
  by_cases hshort : b.length < 5
  · exact Or.inl (hshort.trans (by decide))
  obtain ⟨t, v1, v2, l1, l2, rest, rfl⟩ := exists_header (Nat.not_lt.mp hshort)
  by_cases htype : ∃ c, ContentType.tryFrom t = .ok c
  · by_cases h17 : t = 0x17 → 17 ≤ (be16 l1 l2).toNat
    · -- only the payload can be missing
      refine Or.inl ?_
      have hlong : ¬(be16 l1 l2).toNat ≤ rest.length := fun hle ↦ by
        rw [parse_of_fits v1 v2 ⟨htype, h17, hle⟩] at h
        obtain ⟨c, hc⟩ := htype
        rw [hc] at h
        rcases hv : ProtocolVersion.tryFrom (be16 v1 v2) with m | v <;> rw [hv] at h <;> cases h
      have hlt := (be16 l1 l2).toNat_lt
      simp only [List.length_cons, maxRecordBytes]
      omega
    · obtain ⟨rfl, hlt⟩ := Classical.not_imp.mp h17
      exact Or.inr (.shortData v1 v2 (Nat.not_le.mp hlt))
  · exact Or.inr (.unknownType fun c hc ↦ htype ⟨c, hc⟩)

/-- Bytes on which the frame parser waits are fewer than a frame may have. -/
theorem Frame.length_lt_of_none {b : Bytes} (h : (Frame.parse b).1 = .ok none) :
    b.length < maxFrameLen := by
  by_cases hshort : b.length < frameHeaderSize
  · exact hshort.trans_le (Nat.le_add_right_of_le (Nat.le_add_right _ _))
  obtain ⟨tag, streamId, type, payloadLen, paddingLen, rest, rfl⟩ :=
    exists_headerBytes (Nat.le_of_not_lt hshort)
  rw [Frame.parse_headerBytes] at h
  split at h
  · rcases htype : FrameType.ofByte type with e | frameType <;> rw [htype] at h <;> cases h
  · next hlong =>
    have hrest : rest.length < 65535 + 65535 := by
      have hpayload := payloadLen.toNat_lt
      have hpadding := paddingLen.toNat_lt
      omega
    have hlen := Nat.add_lt_add_left hrest frameHeaderSize
    rwa [← length_headerBytes tag streamId type payloadLen paddingLen, ← List.length_append,
      length_headerBytes, ← Nat.add_assoc] at hlen

namespace TlsBridge

/-- A handler that leaves the buffer alone waits. -/
theorem short_or_dead_of_snd_eq {Output : Type}
    {handleRecord : TlsRecord → Outcome TlsError (Option Output)} {b : Bytes}
    (h : (startProcess handleRecord b).2 = b) : b.length < maxRecordBytes ∨ Dead b := by
  rcases TlsRecord.parse_cases b with hparse | ⟨m, header, rest, hparse, hb, hlen⟩ |
      ⟨c, v1, v2, l1, l2, v, payload, rest, hparse, hb, -⟩
  · exact TlsRecord.short_or_dead (congrArg Prod.fst hparse)
  · rw [startProcess, Exec.bind_err hparse] at h
    have hlength := congrArg List.length (h.trans hb)
    simp only [List.length_append] at hlength
    omega
  · rw [startProcess, Exec.bind_ok hparse] at h
    change rest = b at h
    have hlength := congrArg List.length (h.trans hb)
    simp only [List.length_append, List.length_cons] at hlength
    omega

end TlsBridge

/-! ### What is staged -/

namespace RxCodec

variable {A : ChaCha20Poly1305}

/-- More bytes than are ever staged: a frame that is not there in full, and one more record. -/
def maxStaged : ℕ := maxFrameLen + (65535 - aeadTagLen)

theorem length_lt_of_tryParseFrame {rx rx' : RxCodec} (h : rx.tryParseFrame = (.ok none, rx')) :
    rx.staging.length < maxFrameLen := by
  refine Frame.length_lt_of_none ?_
  rcases Frame.parse_cases rx.staging with hp | ⟨e, hp⟩ | ⟨f, staging, hp, -⟩
  · rw [hp]
  · rw [tryParseFrame, hp] at h
    cases h
  · rw [tryParseFrame, hp] at h
    cases h

/-- What a call leaves staged, and what it leaves in the buffer if it found no frame. -/
def Leaves (r : Outcome TlsError (Option Frame)) (rx : RxCodec) (rest : Bytes) : Prop :=
  rx.staging.length < maxStaged ∧
    (r = .ok none → rx.staging.length < maxFrameLen ∧
      (TlsBridge.unpackAppData rest).1 = .ok none)

theorem leaves_of_err (e : TlsError) {rx : RxCodec} (h : rx.staging = []) (rest : Bytes) :
    Leaves (.err e) rx rest :=
  ⟨by rw [h]; decide, fun h ↦ by cases h⟩

/-- The loop over records, begun when no frame is staged in full. -/
theorem decodeRecords_leaves (hA : A.Shortens aeadTagLen) (rx : RxCodec) (buffer : Bytes)
    (hwaits : rx.staging.length < maxFrameLen) :
    let out := rx.decodeRecords A buffer
    Leaves out.1 out.2.1 out.2.2 := by
  induction rx, buffer using recordInduction A with
  | waiting rx buffer h =>
    rw [decodeRecords_of_none A h]
    exact ⟨Nat.lt_add_right _ hwaits, fun _ ↦ ⟨hwaits, congrArg Prod.fst h⟩⟩
  | refused rx buffer e rest h =>
    rw [decodeRecords_of_err A h]
    exact ⟨Nat.lt_add_right _ hwaits, fun h ↦ by cases h⟩
  | forged rx buffer d rest h hdec =>
    rw [decodeRecords_of_forged A h hdec]
    exact leaves_of_err _ rfl rest
  | opened rx buffer d rest plain h hdec ih =>
    have hrecord : d.payload.length ≤ 65535 := by
      rcases TlsBridge.unpackAppData_cases buffer with hu | ⟨_, payload, _, hu, -, -, -, hlt⟩ |
        ⟨_, _, hu, -⟩ <;> rw [h] at hu <;> cases hu
      exact Nat.le_of_lt_succ hlt
    have hlen : (rx.staging ++ plain).length < maxStaged := by
      have hplain := hA _ _ _ _ _ hdec
      rw [List.length_append, maxStaged]
      omega
    rw [decodeRecords_of_opened A h hdec]
    rcases tryParseFrame_cases { rx with
        crypto := rx.crypto.afterOpening, staging := rx.staging ++ plain } with
      hp | ⟨e, hp⟩ | ⟨f, staging, hp, hlt⟩
    · have hrest := ih (length_lt_of_tryParseFrame hp)
      rw [hp]
      exact hrest
    · rw [hp]
      exact leaves_of_err _ rfl rest
    · rw [hp]
      exact ⟨hlt.trans hlen, fun h ↦ by cases h⟩

/-- **What a call leaves**: if the staging area was bounded, it stays so. -/
theorem decodeInbound_leaves (hA : A.Shortens aeadTagLen) (rx : RxCodec) (buffer : Bytes)
    (hbound : rx.staging.length < maxStaged) :
    let out := rx.decodeInbound A buffer
    Leaves out.1 out.2.1 out.2.2 := by
  rw [decodeInbound]
  split
  · next hempty =>
    rw [List.isEmpty_iff] at hempty
    exact decodeRecords_leaves hA rx buffer (by rw [hempty]; decide)
  · rcases tryParseFrame_cases rx with hp | ⟨e, hp⟩ | ⟨f, staging, hp, hlt⟩
    · have hrest := decodeRecords_leaves hA rx buffer (length_lt_of_tryParseFrame hp)
      rw [hp]
      exact hrest
    · rw [hp]
      exact leaves_of_err _ rfl buffer
    · rw [hp]
      exact ⟨hlt.trans hbound, fun h ↦ by cases h⟩

end RxCodec

/-! ### One side -/

namespace Endpoint

variable {P : Primitives} {now : UInt64} {e : Endpoint}

/-- What a side has staged is bounded. -/
def Bounded (e : Endpoint) : Prop :=
  ∀ codec, e.phase.codec = some codec → codec.rx.staging.length < RxCodec.maxStaged

theorem Bounded.congr {e' : Endpoint} (h : Bounded e) (hphase : e'.phase = e.phase) :
    Bounded e' := fun codec hcodec ↦ h codec (hphase ▸ hcodec)

theorem Bounded.send (h : Bounded e) (call : EncodeCall) :
    Bounded (Endpoint.send P now call e).2 := by
  have hput (tx : TxCodec) (codec : Codec) (hcodec : (e.phase.putTx tx).codec = some codec) :
      codec.rx.staging.length < RxCodec.maxStaged := by
    rcases hphase : e.phase with _ | before | before <;> rw [hphase] at hcodec <;> cases hcodec <;>
      exact h before (by rw [hphase]; rfl)
  rw [Endpoint.send]
  rcases hcodec : e.phase.codec with _ | codec
  · exact h
  · dsimp only
    rcases call.run P.aead P.hmac now codec.tx with ⟨out | error | _, tx⟩ <;> exact hput tx

theorem Bounded.acceptHello (h : Bounded e) (message : HandshakeMessage) (role : Role) :
    Bounded (Endpoint.acceptHello P now message role e).2 := by
  cases role with
  | client =>
    rcases acceptHello_client_cases P now message e with ⟨keys, -, hrun⟩ | ⟨aead, keys, -, -, hrun⟩
    · rw [hrun]
      exact h.congr rfl
    · rw [hrun]
      rintro codec ⟨⟩
      exact (by decide : 0 < RxCodec.maxStaged)
  | server profile =>
    rcases acceptHello_server_cases P now message profile e with
      ⟨keys, -, hrun⟩ | ⟨answer, version, aead, keys, -, -, hrun⟩
    · rw [hrun]
      exact h.congr rfl
    · rw [hrun]
      rintro codec ⟨⟩
      exact (by decide : 0 < RxCodec.maxStaged)

theorem Bounded.read (hA : P.aead.Shortens aeadTagLen) (h : Bounded e) :
    Bounded (Endpoint.read P now e).2 := by
  rcases hphase : e.phase with _ | codec | codec
  · rw [read_of_hello P now hphase]
    rcases readHello_cases P now rfl with ⟨buffer, -, hrun⟩ | ⟨message, buffer, -, -, hrun⟩ <;>
      rw [hrun]
    · exact h.congr rfl
    · have hbuffer : Bounded { e with buffer } := h.congr rfl
      exact hbuffer.acceptHello message e.role
  · rw [read_of_ccs P now hphase]
    obtain ⟨buffer, phase, -, hnext, hrun⟩ := readCcs_cases codec e hphase
    have hcodec : phase.codec = some codec := by rcases hnext with rfl | rfl <;> rfl
    rw [hrun]
    exact fun codec' hcodec' ↦ h codec' (by rw [hphase]; exact hcodec.symm.trans hcodec')
  · rw [read_of_data P now hphase]
    rcases hdecode : codec.rx.decodeInbound P.aead e.buffer with ⟨r, rx, buffer⟩
    have hleaves := RxCodec.decodeInbound_leaves hA codec.rx e.buffer
      (h codec (by rw [hphase]; rfl))
    rw [hdecode] at hleaves
    rw [snd_readFrame hdecode]
    rintro _ ⟨⟩
    exact hleaves.1

theorem Bounded.run (hA : P.aead.Shortens aeadTagLen) (h : Bounded e) (event : Event) :
    Bounded (event.run P e).2 := by
  cases event with
  | feed bytes => exact h.congr rfl
  | read now => exact h.read hA
  | send now call => exact h.send call

/-- **What a side holds that has nothing to read.** -/
structure Idle (e : Endpoint) : Prop where
  buffer : e.buffer.length < maxRecordBytes ∨ TlsBridge.Dead e.buffer
  staging : ∀ codec, e.phase = .data codec → codec.rx.staging.length < maxFrameLen

theorem buffer_acceptHello (message : HandshakeMessage) (role : Role) :
    (acceptHello P now message role e).2.buffer = e.buffer := by
  cases role with
  | client =>
    rcases acceptHello_client_cases P now message e with ⟨keys, -, hrun⟩ | ⟨_, keys, -, -, hrun⟩ <;>
      rw [hrun]
  | server profile =>
    rcases acceptHello_server_cases P now message profile e with
      ⟨keys, -, hrun⟩ | ⟨_, _, _, keys, -, -, hrun⟩ <;> rw [hrun]

theorem buffer_readHello : (readHello P now e).2.buffer = (unpackHandshake e.buffer).2 := by
  rcases hrun : unpackHandshake e.buffer with ⟨(- | message) | error | _, buffer⟩
  · rw [readHello, Exec.bind_ok (onBuffer_of_eq hrun)]
    rfl
  · rw [readHello_of_some hrun, buffer_acceptHello]
  · rw [readHello, Exec.bind_err (onBuffer_of_eq hrun)]
  · rw [readHello, Exec.bind_panic (onBuffer_of_eq hrun)]

theorem buffer_readCcs (codec : Codec) :
    (readCcs codec e).2.buffer = (unpackMiddleboxCcs e.buffer).2 := by
  rcases hrun : unpackMiddleboxCcs e.buffer with ⟨(- | ⟨⟨⟩⟩) | error | _, buffer⟩
  · rw [readCcs, Exec.bind_ok (onBuffer_of_eq hrun)]
    rfl
  · rw [readCcs_of_some hrun]
  · rw [readCcs, Exec.bind_err (onBuffer_of_eq hrun)]
  · rw [readCcs, Exec.bind_panic (onBuffer_of_eq hrun)]

theorem Bounded.idle (hA : P.aead.Shortens aeadTagLen) (h : Bounded e)
    (hread : Endpoint.read P now e = (.ok (), e)) : Idle e := by
  have hsame : (Endpoint.read P now e).2.buffer = e.buffer := by rw [hread]
  rcases hphase : e.phase with _ | codec | codec
  · rw [read_of_hello P now hphase, buffer_readHello] at hsame
    exact ⟨short_or_dead_of_snd_eq hsame, fun _ hdata ↦ by rw [hphase] at hdata; cases hdata⟩
  · rw [read_of_ccs P now hphase, buffer_readCcs] at hsame
    exact ⟨short_or_dead_of_snd_eq hsame, fun _ hdata ↦ by rw [hphase] at hdata; cases hdata⟩
  · rw [read_of_data P now hphase] at hread
    have hleaves := RxCodec.decodeInbound_leaves hA codec.rx e.buffer
      (h codec (by rw [hphase]; rfl))
    rcases hrun : codec.rx.decodeInbound P.aead e.buffer with ⟨(- | f) | error | _, rx, buffer⟩ <;>
      rw [hrun] at hleaves
    · rw [readFrame_of_none hrun] at hread
      have he := congrArg Prod.snd hread
      have hbuffer : buffer = e.buffer := congrArg Endpoint.buffer he
      have hdata : Phase.data { codec with rx } = e.phase := congrArg Endpoint.phase he
      obtain ⟨hstaged, hwaits⟩ := hleaves.2 rfl
      refine ⟨TlsRecord.short_or_dead ?_, fun codec' hcodec' ↦ ?_⟩
      · rw [← hbuffer]
        exact (startProcess_eq_none_iff handleAppData_ne_none buffer).mp hwaits
      · cases hdata.trans hcodec'
        exact hstaged
    · -- a frame would have been returned
      rw [readFrame_of_some hrun] at hread
      have hreturned := congrArg (fun out ↦ out.2.returned.length) hread
      simp only [List.length_append, List.length_singleton] at hreturned
      omega
    · rw [readFrame, hrun] at hread
      cases congrArg Prod.fst hread
    · rw [readFrame, hrun] at hread
      cases congrArg Prod.fst hread

/-- A side that reads frames, has none staged and less than a record to open, has nothing to
read. -/
theorem read_of_waits (P : Primitives) (now : UInt64) {codec : Codec}
    (hphase : e.phase = .data codec) (hstaging : codec.rx.staging = [])
    (hwaits : TlsBridge.unpackAppData e.buffer = (.ok none, e.buffer)) :
    Endpoint.read P now e = (.ok (), e) := by
  have hrun : codec.rx.decodeInbound P.aead e.buffer = (.ok none, codec.rx, e.buffer) := by
    rw [RxCodec.decodeInbound_of_empty _ hstaging, RxCodec.decodeRecords_of_none P.aead hwaits]
  rw [read_of_data P now hphase, readFrame_of_none hrun, ← hphase]

end Endpoint

/-- **What the network can make a side hold**, in any session, whatever arrives and whatever is
asked of the sides: never more than a record beyond a frame in the clear; and a side that has
nothing to read holds less than a frame in the clear, and of the rest less than a record, unless
what it holds begins like no record. -/
theorem session_memory {P : Primitives} (hA : P.aead.Shortens aeadTagLen) {cfg : SessionConfig}
    {s : Session} (hruns : Session.Runs P (fun _ _ _ ↦ True) (cfg.start P) s) (side : Side) :
    (s.endpoint side).Bounded ∧
      ∀ now, Endpoint.read P now (s.endpoint side) = (.ok (), s.endpoint side) →
        (s.endpoint side).Idle := by
  have hbounded : (s.endpoint side).Bounded := by
    induction hruns with
    | refl =>
      cases side with
      | client => rintro _ ⟨⟩
      | server => rintro _ ⟨⟩
    | tail _ hstep ih =>
      obtain ⟨side', event, -, rfl⟩ := hstep
      rw [Session.endpoint_step]
      split
      case isTrue heq =>
        subst heq
        exact ih.run hA event
      case isFalse => exact ih
  exact ⟨hbounded, fun now hread ↦ hbounded.idle hA hread⟩

namespace DisturbedSession

/-- Ten bytes of one more record reach the server. -/
@[irreducible] def waiting : Session :=
  disturbed.play primitives [(.server, .feed (record.take 10))]

theorem runs_waiting :
    Session.Runs primitives (Session.Hostile (· = 6000)) (config.start primitives) waiting := by
  unfold waiting
  exact Session.Hostile.runs_play (by simp [Session.Hostile]) runs_disturbed

theorem waiting_evaluates :
    let e := waiting.endpoint .server
    (e.phase matches .data _) ∧ (∀ codec ∈ e.phase.codec, codec.rx.staging = []) ∧
      e.buffer.length = 10 ∧ TlsBridge.unpackAppData e.buffer = (.ok none, e.buffer) := by
  decide +kernel

end DisturbedSession

/-- A server that has opened a record and refused another waits for the rest of one more. -/
theorem session_memory_waiting :
    let e := DisturbedSession.waiting.endpoint .server
    e.Bounded ∧ e.Idle ∧ e.buffer.length = 10 := by
  obtain ⟨hdata, hstaging, hlength, hwaits⟩ := DisturbedSession.waiting_evaluates
  obtain ⟨hbounded, hidle⟩ := session_memory ChaCha20Poly1305.clear_shortens
    (DisturbedSession.runs_waiting.mono fun _ _ _ _ ↦ trivial) .server
  refine ⟨hbounded, hidle 0 ?_, hlength⟩
  rcases hphase : (DisturbedSession.waiting.endpoint .server).phase with _ | codec | codec
  · rw [hphase] at hdata
    cases hdata
  · rw [hphase] at hdata
    cases hdata
  · exact Endpoint.read_of_waits DisturbedSession.primitives 0 hphase
      (hstaging codec (by rw [hphase]; rfl)) hwaits
