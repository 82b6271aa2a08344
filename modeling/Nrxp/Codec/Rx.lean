import Nrxp.Bridge.AppData
import Nrxp.Crypto.ChaCha
import Nrxp.Crypto.SessionAuth
import Nrxp.Frame

/-!
# The receiving codec

`decodeInbound` returns one frame a call. What a record holds beyond the first frame waits in
`staging`, in the clear, and is drained before the next record is decrypted. The read buffer is the
caller's: it may hold part of a record, and it may hold anything at all.

The loop over records stops because each turn takes a record off the buffer; what holds of every
call is proved by `recordInduction` along these turns. `drain`, the reader's loop around it, stops
because each frame shortens the buffer or the staging area.
-/

/-- The receiving direction. `staging` is decrypted and not yet parsed. -/
structure RxCodec where
  crypto : ChaChaStream
  auth : SessionAuth
  staging : Bytes

namespace RxCodec

variable (A : ChaCha20Poly1305)

def new (crypto : ChaChaStream) (auth : SessionAuth) (staging : Bytes) : RxCodec :=
  ⟨crypto, auth, staging⟩

/-- Parse a frame out of the staging area, which an error clears. -/
def tryParseFrame : Exec RxCodec TlsError (Option Frame) := fun rx ↦
  match Frame.parse rx.staging with
  | (.ok frame, staging) => (.ok frame, { rx with staging })
  | (.err _, _) => (.err ⟨.tls "Frame parse error", .drop, []⟩, { rx with staging := [] })
  | (.panic, staging) => (.panic, { rx with staging })

/-- Decrypt records off the buffer until one yields a frame. -/
def decodeRecords (rx : RxCodec) (buffer : Bytes) :
    Outcome TlsError (Option Frame) × RxCodec × Bytes :=
  match _h : TlsBridge.unpackAppData buffer with
  | (.ok (some appData), rest) =>
    match rx.crypto.decrypt A appData.payload with
    | (.ok plain, crypto) =>
      match tryParseFrame { rx with crypto, staging := rx.staging ++ plain } with
      | (.ok (some frame), rx) => (.ok (some frame), rx, rest)
      | (.ok none, rx) => decodeRecords rx rest
      | (.err e, rx) => (.err e, rx, rest)
      | (.panic, rx) => (.panic, rx, rest)
    | (.err _, crypto) =>
      (.err ⟨.tls "AEAD Decrypt Failed", .drop, []⟩, { rx with crypto, staging := [] }, rest)
    | (.panic, crypto) => (.panic, { rx with crypto }, rest)
  | (.ok none, rest) => (.ok none, rx, rest)
  | (.err e, rest) => (.err e, rx, rest)
  | (.panic, rest) => (.panic, rx, rest)
termination_by buffer.length
decreasing_by exact TlsBridge.length_lt_of_unpackAppData _h

/-- Extract the next frame, if the data received so far holds one. -/
def decodeInbound (rx : RxCodec) (buffer : Bytes) :
    Outcome TlsError (Option Frame) × RxCodec × Bytes :=
  if rx.staging.isEmpty then decodeRecords A rx buffer
  else
    match rx.tryParseFrame with
    | (.ok (some frame), rx) => (.ok (some frame), rx, buffer)
    | (.ok none, rx) => decodeRecords A rx buffer
    | (.err e, rx) => (.err e, rx, buffer)
    | (.panic, rx) => (.panic, rx, buffer)

/-! ### What a parse of the staging area does -/

/-- The four ways a parse of the staging area ends. -/
theorem tryParseFrame_cases (rx : RxCodec) :
    rx.tryParseFrame = (.ok none, rx) ∨
    (∃ e, rx.tryParseFrame = (.err e, { rx with staging := [] })) ∨
    ∃ f staging, rx.tryParseFrame = (.ok (some f), { rx with staging }) ∧
      staging.length < rx.staging.length := by
  rcases Frame.parse_cases rx.staging with h | ⟨e, h⟩ | ⟨f, staging, h, -, hlen⟩
  · exact Or.inl (by rw [tryParseFrame, h])
  · exact Or.inr (Or.inl ⟨_, by rw [tryParseFrame, h]⟩)
  · exact Or.inr (Or.inr ⟨f, staging, by rw [tryParseFrame, h], by
      simp [frameHeaderSize] at hlen; omega⟩)

/-! ### What one turn of the record loop does -/

theorem decodeRecords_of_none {rx : RxCodec} {buffer rest : Bytes}
    (h : TlsBridge.unpackAppData buffer = (.ok none, rest)) :
    decodeRecords A rx buffer = (.ok none, rx, rest) := by
  rw [decodeRecords]
  split <;> rename_i heq <;> rw [h] at heq <;> cases heq
  rfl

theorem decodeRecords_of_err {rx : RxCodec} {buffer rest : Bytes} {e : TlsError}
    (h : TlsBridge.unpackAppData buffer = (.err e, rest)) :
    decodeRecords A rx buffer = (.err e, rx, rest) := by
  rw [decodeRecords]
  split <;> rename_i heq <;> rw [h] at heq <;> cases heq
  rfl

/-- A record that does not open: the counter stays, the staging area is cleared. -/
theorem decodeRecords_of_forged {rx : RxCodec} {buffer rest : Bytes} {d : ApplicationData}
    (h : TlsBridge.unpackAppData buffer = (.ok (some d), rest))
    (hdec : A.decrypt rx.crypto.cipher rx.crypto.currentNonce rx.crypto.currentNonce.val d.payload
      = none) :
    decodeRecords A rx buffer
      = (.err ⟨.tls "AEAD Decrypt Failed", .drop, []⟩, { rx with staging := [] }, rest) := by
  rw [decodeRecords]
  split <;> rename_i heq <;> rw [h] at heq <;> cases heq
  simp only [ChaChaStream.decrypt_of_none A hdec]

/-- A record that opens: the turn ends as the parse of the longer staging area does. -/
theorem decodeRecords_of_opened {rx : RxCodec} {buffer rest plain : Bytes} {d : ApplicationData}
    (h : TlsBridge.unpackAppData buffer = (.ok (some d), rest))
    (hdec : A.decrypt rx.crypto.cipher rx.crypto.currentNonce rx.crypto.currentNonce.val d.payload
      = some plain) :
    decodeRecords A rx buffer =
      match tryParseFrame { rx with
        crypto := rx.crypto.afterOpening, staging := rx.staging ++ plain } with
      | (.ok (some frame), rx) => (.ok (some frame), rx, rest)
      | (.ok none, rx) => decodeRecords A rx rest
      | (.err e, rx) => (.err e, rx, rest)
      | (.panic, rx) => (.panic, rx, rest) := by
  rw [decodeRecords]
  split <;> rename_i heq <;> rw [h] at heq <;> cases heq
  simp only [ChaChaStream.decrypt_of_some A hdec]

/-- **Induction along the records of a call.** It stops at the first record that is not there in
full, is no application data, or does not open. Otherwise what the record held joins the staging
area, and there are the records behind it. -/
@[elab_as_elim]
theorem recordInduction {motive : RxCodec → Bytes → Prop}
    (waiting : ∀ rx buffer, TlsBridge.unpackAppData buffer = (.ok none, buffer) → motive rx buffer)
    (refused : ∀ rx buffer e rest, TlsBridge.unpackAppData buffer = (.err e, rest) →
      motive rx buffer)
    (forged : ∀ rx buffer d rest, TlsBridge.unpackAppData buffer = (.ok (some d), rest) →
      A.decrypt rx.crypto.cipher rx.crypto.currentNonce rx.crypto.currentNonce.val d.payload
        = none → motive rx buffer)
    (opened : ∀ rx buffer d rest plain, TlsBridge.unpackAppData buffer = (.ok (some d), rest) →
      A.decrypt rx.crypto.cipher rx.crypto.currentNonce rx.crypto.currentNonce.val d.payload
        = some plain →
      motive { rx with crypto := rx.crypto.afterOpening, staging := rx.staging ++ plain } rest →
      motive rx buffer)
    (rx : RxCodec) (buffer : Bytes) : motive rx buffer := by
  induction buffer using (measure List.length).wf.induction generalizing rx with
  | _ buffer ih =>
    rcases TlsBridge.unpackAppData_cases buffer with h | ⟨_, payload, rest, h, -⟩ | ⟨e, rest, h, -⟩
    · exact waiting rx buffer h
    · rcases hdec : A.decrypt rx.crypto.cipher rx.crypto.currentNonce rx.crypto.currentNonce.val
          payload with - | plain
      · exact forged rx buffer _ rest h hdec
      · exact opened rx buffer _ rest plain h hdec
          (ih rest (TlsBridge.length_lt_of_unpackAppData h) _)
    · exact refused rx buffer e rest h

/-! ### Every call ends, and without a panic -/

/-- The record loop never panics; a frame it returns cost the buffer a record. -/
theorem decodeRecords_progress (rx : RxCodec) (buffer : Bytes) :
    ∃ r rx' rest, decodeRecords A rx buffer = (r, rx', rest) ∧ r ≠ .panic ∧ rest <:+ buffer ∧
      ∀ f, r = .ok (some f) → rest.length < buffer.length := by
  induction rx, buffer using recordInduction A with
  | waiting rx buffer h =>
    exact ⟨_, _, _, decodeRecords_of_none A h, by simp, List.suffix_rfl, by simp⟩
  | refused rx buffer e rest h =>
    exact ⟨_, _, _, decodeRecords_of_err A h, by simp, TlsBridge.suffix_of_unpackAppData h, by simp⟩
  | forged rx buffer d rest h hdec =>
    exact ⟨_, _, _, decodeRecords_of_forged A h hdec, by simp, TlsBridge.suffix_of_unpackAppData h,
      by simp⟩
  | opened rx buffer d rest plain h hdec ih =>
    have hsuffix := TlsBridge.suffix_of_unpackAppData h
    have hlt := TlsBridge.length_lt_of_unpackAppData h
    rw [decodeRecords_of_opened A h hdec]
    rcases tryParseFrame_cases { rx with
        crypto := rx.crypto.afterOpening, staging := rx.staging ++ plain } with
      hp | ⟨e, hp⟩ | ⟨f, staging, hp, -⟩ <;> rw [hp]
    · obtain ⟨r, rx', rest', hr, hne, hs, hf⟩ := ih
      exact ⟨r, rx', rest', hr, hne, hs.trans hsuffix, fun f h ↦ Nat.lt_trans (hf f h) hlt⟩
    · exact ⟨_, _, _, rfl, by simp, hsuffix, by simp⟩
    · exact ⟨_, _, _, rfl, by simp, hsuffix, fun _ _ ↦ hlt⟩

/-- **A call of the receiving codec** never panics, leaves a suffix of the buffer, and a frame it
returns shortened the buffer, or the staging area with the buffer unchanged. -/
theorem decodeInbound_progress (rx : RxCodec) (buffer : Bytes) :
    ∃ r rx' rest, decodeInbound A rx buffer = (r, rx', rest) ∧ r ≠ .panic ∧ rest <:+ buffer ∧
      ∀ f, r = .ok (some f) → rest.length < buffer.length ∨
        rest.length = buffer.length ∧ rx'.staging.length < rx.staging.length := by
  have hrecords : ∀ rx : RxCodec, ∃ r rx' rest, decodeRecords A rx buffer = (r, rx', rest) ∧
      r ≠ .panic ∧ rest <:+ buffer ∧ ∀ f, r = .ok (some f) → rest.length < buffer.length :=
    fun rx ↦ decodeRecords_progress A rx buffer
  rw [decodeInbound]
  split
  · obtain ⟨r, rx', rest, hr, hne, hs, hf⟩ := hrecords rx
    exact ⟨r, rx', rest, hr, hne, hs, fun f h ↦ Or.inl (hf f h)⟩
  · rcases tryParseFrame_cases rx with hp | ⟨e, hp⟩ | ⟨f, staging, hp, hlen⟩ <;> rw [hp]
    · obtain ⟨r, rx', rest, hr, hne, hs, hf⟩ := hrecords rx
      exact ⟨r, rx', rest, hr, hne, hs, fun f h ↦ Or.inl (hf f h)⟩
    · exact ⟨_, _, _, rfl, by simp, List.suffix_rfl, by simp⟩
    · exact ⟨_, _, _, rfl, by simp, List.suffix_rfl, fun _ _ ↦ Or.inr ⟨rfl, hlen⟩⟩

end RxCodec

/-! ### The reader -/

/-- What a reader has seen when it stops, and the state it stops in. -/
structure ReadResult where
  frames : List Frame
  outcome : Outcome TlsError Unit
  rx : RxCodec
  buffer : Bytes

/-- The same result with one more frame in front. -/
def ReadResult.cons (f : Frame) (r : ReadResult) : ReadResult := { r with frames := f :: r.frames }

/-- Call `decodeInbound` until it has nothing to give, or fails. -/
def drain (A : ChaCha20Poly1305) (rx : RxCodec) (buffer : Bytes) : ReadResult :=
  match _h : rx.decodeInbound A buffer with
  | (.ok (some frame), rx', buffer') => (drain A rx' buffer').cons frame
  | (.ok none, rx', buffer') => ⟨[], .ok (), rx', buffer'⟩
  | (.err e, rx', buffer') => ⟨[], .err e, rx', buffer'⟩
  | (.panic, rx', buffer') => ⟨[], .panic, rx', buffer'⟩
termination_by (buffer.length, rx.staging.length)
decreasing_by
  obtain ⟨r, rx'', rest, hr, -, -, hf⟩ := rx.decodeInbound_progress A buffer
  rw [_h] at hr
  cases hr
  rcases hf _ rfl with hlt | ⟨heq, hlt⟩
  · exact Prod.Lex.left _ _ hlt
  · exact heq ▸ Prod.Lex.right _ hlt

/-- Read the socket: append each read to the buffer and drain it; stop at the first failure. -/
def readAll (A : ChaCha20Poly1305) : List Bytes → RxCodec → Bytes → ReadResult
  | [], rx, buffer => ⟨[], .ok (), rx, buffer⟩
  | read :: reads, rx, buffer =>
    let first := drain A rx (buffer ++ read)
    match first.outcome with
    | .ok () =>
      let more := readAll A reads first.rx first.buffer
      { more with frames := first.frames ++ more.frames }
    | _ => first

theorem drain_of_some {A : ChaCha20Poly1305} {rx rx' : RxCodec} {buffer buffer' : Bytes} {f : Frame}
    (h : rx.decodeInbound A buffer = (.ok (some f), rx', buffer')) :
    drain A rx buffer = (drain A rx' buffer').cons f := by
  rw [drain]
  split <;> rename_i heq <;> rw [h] at heq <;> cases heq
  rfl

theorem drain_of_none {A : ChaCha20Poly1305} {rx rx' : RxCodec} {buffer buffer' : Bytes}
    (h : rx.decodeInbound A buffer = (.ok none, rx', buffer')) :
    drain A rx buffer = ⟨[], .ok (), rx', buffer'⟩ := by
  rw [drain]
  split <;> rename_i heq <;> rw [h] at heq <;> cases heq
  rfl

theorem drain_of_err {A : ChaCha20Poly1305} {rx rx' : RxCodec} {buffer buffer' : Bytes}
    {e : TlsError} (h : rx.decodeInbound A buffer = (.err e, rx', buffer')) :
    drain A rx buffer = ⟨[], .err e, rx', buffer'⟩ := by
  rw [drain]
  split <;> rename_i heq <;> rw [h] at heq <;> cases heq
  rfl

theorem drain_of_panic {A : ChaCha20Poly1305} {rx rx' : RxCodec} {buffer buffer' : Bytes}
    (h : rx.decodeInbound A buffer = (.panic, rx', buffer')) :
    drain A rx buffer = ⟨[], .panic, rx', buffer'⟩ := by
  rw [drain]
  split <;> rename_i heq <;> rw [h] at heq <;> cases heq
  rfl

/-- The first call decides the rest. -/
theorem drain_congr {A : ChaCha20Poly1305} {rx₁ rx₂ : RxCodec} {buffer₁ buffer₂ : Bytes}
    (h : rx₁.decodeInbound A buffer₁ = rx₂.decodeInbound A buffer₂) :
    drain A rx₁ buffer₁ = drain A rx₂ buffer₂ := by
  rcases hrun : rx₂.decodeInbound A buffer₂ with ⟨(- | f) | e | _, rx, buffer⟩ <;> rw [hrun] at h
  · rw [drain_of_none h, drain_of_none hrun]
  · rw [drain_of_some h, drain_of_some hrun]
  · rw [drain_of_err h, drain_of_err hrun]
  · rw [drain_of_panic h, drain_of_panic hrun]
