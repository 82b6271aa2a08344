import Nrxp.Codec.Rx

/-!
# Segmentation

How a byte stream is cut into reads does not matter to the reader, whatever the stream and whatever
the codec has in its staging area.

The reason is one fact at each layer: an answer that was given on some bytes, a record, a frame or
an error, is given again when more bytes follow, and takes nothing of them; and where no answer was
given, a later call takes up from the state this one left, as if it had not returned. From
`TlsRecord.parse_append` at the bottom this is carried up to `drain_append`, and `readAll_eq` then
compares any cut with the stream read at once.
-/

namespace RxCodec

variable (A : ChaCha20Poly1305)

/-- Nothing in the staging area can be parsed yet. -/
def Waiting (rx : RxCodec) : Prop := rx.tryParseFrame = (.ok none, rx)

theorem waiting_of_isEmpty {rx : RxCodec} (h : rx.staging.isEmpty) : rx.Waiting := by
  have hparse : Frame.parse rx.staging = (.ok none, rx.staging) :=
    Frame.parse_of_short (by rw [List.isEmpty_iff.mp h]; decide)
  rw [Waiting, tryParseFrame, hparse]

/-- A codec with nothing to parse goes straight to the records. -/
theorem Waiting.decodeInbound {rx : RxCodec} (h : rx.Waiting) (buffer : Bytes) :
    rx.decodeInbound A buffer = decodeRecords A rx buffer := by
  rw [RxCodec.decodeInbound]
  split
  · rfl
  · rw [show rx.tryParseFrame = _ from h]

/-- How a run on `buffer ++ more` ends, if the one on `buffer` ended as `short`: alike, with `more`
left over; or, if there was no answer, as a run from where that one stopped. -/
def Continues (more : Bytes) (short long : Outcome TlsError (Option Frame) × RxCodec × Bytes) :
    Prop :=
  match short with
  | (.ok none, rx, rest) => rx.Waiting ∧ long = decodeRecords A rx (rest ++ more)
  | (r, rx, rest) => long = (r, rx, rest ++ more)

/-- **The record loop** on a longer buffer. -/
theorem decodeRecords_append {rx : RxCodec} (h : rx.Waiting) (buffer more : Bytes) :
    Continues A more (decodeRecords A rx buffer) (decodeRecords A rx (buffer ++ more)) := by
  induction rx, buffer using recordInduction A with
  | waiting rx buffer hu =>
    rw [decodeRecords_of_none A hu]
    exact ⟨h, rfl⟩
  | refused rx buffer e rest hu =>
    have hlonger := TlsBridge.unpackAppData_append hu (by simp) more
    rw [decodeRecords_of_err A hu, decodeRecords_of_err A hlonger]
    rfl
  | forged rx buffer d rest hu hdec =>
    have hlonger := TlsBridge.unpackAppData_append hu (by simp) more
    rw [decodeRecords_of_forged A hu hdec, decodeRecords_of_forged A hlonger hdec]
    rfl
  | opened rx buffer d rest plain hu hdec ih =>
    have hlonger := TlsBridge.unpackAppData_append hu (by simp) more
    rw [decodeRecords_of_opened A hu hdec, decodeRecords_of_opened A hlonger hdec]
    rcases tryParseFrame_cases { rx with
        crypto := rx.crypto.afterOpening, staging := rx.staging ++ plain } with
      hp | ⟨e, hp⟩ | ⟨f, staging, hp, -⟩ <;> rw [hp]
    · -- the loop goes on with what is left
      exact ih hp
    · rfl
    · rfl

/-- **A call** on a longer buffer. -/
theorem decodeInbound_append (rx : RxCodec) (buffer more : Bytes) :
    Continues A more (rx.decodeInbound A buffer) (rx.decodeInbound A (buffer ++ more)) := by
  by_cases hwaiting : rx.Waiting
  · rw [hwaiting.decodeInbound, hwaiting.decodeInbound]
    exact decodeRecords_append A hwaiting buffer more
  · have hstaged : rx.staging.isEmpty ≠ true := fun hempty ↦ hwaiting (waiting_of_isEmpty hempty)
    rw [decodeInbound, decodeInbound, if_neg hstaged, if_neg hstaged]
    rcases tryParseFrame_cases rx with hp | ⟨e, hp⟩ | ⟨f, staging, hp, -⟩
    · exact absurd hp hwaiting
    · rw [hp]
      rfl
    · rw [hp]
      rfl

end RxCodec

/-! ### The reader -/

/-- Read on from where a reader stopped, if it did not fail. -/
def ReadResult.resume (A : ChaCha20Poly1305) (first : ReadResult) (more : Bytes) : ReadResult :=
  match first.outcome with
  | .ok () =>
    let next := drain A first.rx (first.buffer ++ more)
    { next with frames := first.frames ++ next.frames }
  | _ => { first with buffer := first.buffer ++ more }

@[simp] theorem ReadResult.resume_cons (A : ChaCha20Poly1305) (f : Frame) (first : ReadResult)
    (more : Bytes) : (first.cons f).resume A more = (first.resume A more).cons f := by
  rcases first with ⟨frames, ⟨⟩ | e | _, rx, buffer⟩
  · rfl
  · rfl
  · rfl

/-- **Draining a longer buffer** is draining the buffer and reading on. -/
theorem drain_append (A : ChaCha20Poly1305) (rx : RxCodec) (buffer more : Bytes) :
    drain A rx (buffer ++ more) = (drain A rx buffer).resume A more := by
  fun_induction drain A rx buffer with
  | case1 rx buffer f rx' buffer' hrun ih =>
    have hcont := rx.decodeInbound_append A buffer more
    rw [hrun] at hcont
    rw [ReadResult.resume_cons, ← ih]
    exact drain_of_some hcont
  | case2 rx buffer rx' buffer' hrun =>
    have hcont := rx.decodeInbound_append A buffer more
    rw [hrun] at hcont
    obtain ⟨hwaiting, hcont⟩ := hcont
    -- the long run goes on as one that starts where the short one stopped
    rw [← hwaiting.decodeInbound] at hcont
    rw [drain_congr hcont]
    rfl
  | case3 rx buffer e rx' buffer' hrun =>
    have hcont := rx.decodeInbound_append A buffer more
    rw [hrun] at hcont
    exact drain_of_err hcont
  | case4 rx buffer rx' buffer' hrun =>
    have hcont := rx.decodeInbound_append A buffer more
    rw [hrun] at hcont
    exact drain_of_panic hcont

/-- Two readers saw the same: the same frames and the same outcome and, unless they failed, they
stopped in the same state. -/
structure SameReading (r r' : ReadResult) : Prop where
  frames : r.frames = r'.frames
  outcome : r.outcome = r'.outcome
  rx : r.outcome = .ok () → r.rx = r'.rx
  buffer : r.outcome = .ok () → r.buffer = r'.buffer

/-- **Any cut is like none.** -/
theorem readAll_eq (A : ChaCha20Poly1305) {reads : List Bytes} (hne : reads ≠ []) (rx : RxCodec)
    (buffer : Bytes) :
    SameReading (readAll A reads rx buffer) (drain A rx (buffer ++ reads.flatten)) := by
  induction reads generalizing rx buffer with
  | nil => exact absurd rfl hne
  | cons read reads ih =>
    rw [List.flatten_cons, ← List.append_assoc]
    by_cases hlast : reads = []
    · subst hlast
      rw [List.flatten_nil, List.append_nil, readAll]
      rcases drain A rx (buffer ++ read) with ⟨frames, ⟨⟩ | e | _, rx', buffer'⟩
      · exact ⟨List.append_nil _, rfl, fun _ ↦ rfl, fun _ ↦ rfl⟩
      · exact ⟨rfl, rfl, fun _ ↦ rfl, fun _ ↦ rfl⟩
      · exact ⟨rfl, rfl, fun _ ↦ rfl, fun _ ↦ rfl⟩
    · rw [drain_append, readAll]
      rcases drain A rx (buffer ++ read) with ⟨frames, ⟨⟩ | e | _, rx', buffer'⟩
      · obtain ⟨hframes, houtcome, hrx, hbuffer⟩ := ih hlast rx' buffer'
        exact ⟨congrArg (frames ++ ·) hframes, houtcome, hrx, hbuffer⟩
      -- a failure is final: what is left over differs, and only that
      · exact ⟨rfl, rfl, by simp, by simp⟩
      · exact ⟨rfl, rfl, by simp, by simp⟩

theorem SameReading.refl (r : ReadResult) : SameReading r r :=
  ⟨rfl, rfl, fun _ ↦ rfl, fun _ ↦ rfl⟩

/-- **Segmentation does not matter.** Two ways of cutting one byte stream into reads give the reader
the same frames and the same outcome, errors included; and unless there is an error it stops with
the same read buffer and the same codec. Reads may be empty, but no read at all is not a cut: what
is in the staging area is looked at when something has been read. -/
theorem segmentation_independence (A : ChaCha20Poly1305) (rx : RxCodec) (buffer : Bytes)
    (reads reads' : List Bytes) (hreads : reads = [] ↔ reads' = [])
    (hsame : reads.flatten = reads'.flatten) :
    SameReading (readAll A reads rx buffer) (readAll A reads' rx buffer) := by
  by_cases hnone : reads = []
  · rw [hnone, hreads.mp hnone]
    exact SameReading.refl _
  · have h := readAll_eq A hnone rx buffer
    have h' := readAll_eq A (hnone ∘ hreads.mpr) rx buffer
    rw [← hsame] at h'
    have houtcome := h.outcome.trans h'.outcome.symm
    refine ⟨h.frames.trans h'.frames.symm, houtcome, fun hok ↦ ?_, fun hok ↦ ?_⟩
    · exact (h.rx hok).trans (h'.rx (houtcome ▸ hok)).symm
    · exact (h.buffer hok).trans (h'.buffer (houtcome ▸ hok)).symm

/-- A header that comes byte by byte, with part of a frame already staged. -/
theorem segmentation_independence_byte_by_byte :
    SameReading
      (readAll .clear [[0x17], [0x03], [0x03], [0x00], [0x11]]
        (.new (.new (ByteArr.zero 32) (ByteArr.zero 12)) ⟨ByteArr.zero 32⟩ [1, 2, 3]) [])
      (readAll .clear [[0x17, 0x03], [], [0x03, 0x00, 0x11]]
        (.new (.new (ByteArr.zero 32) (ByteArr.zero 12)) ⟨ByteArr.zero 32⟩ [1, 2, 3]) []) :=
  segmentation_independence .clear _ [] _ _ (by simp) (by decide)
