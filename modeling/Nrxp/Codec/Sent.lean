import Nrxp.Codec.Tx
import Nrxp.Lib.Packing

/-!
# What the sending codec emits

A description of the output that does not mention batching, shaping or randomness: a list of
records, each holding at least one frame, laid out and encrypted under the next nonce. `Sends`
follows the cipher through such a list; `Sent` says that a codec's output since a given moment is
one. Every method of `TxCodec` is specified by the frames it adds, up to `encodeAll_triple`, which
is what the round trip and the integrity of the stream rest on.
-/

/-- Frames laid out one after another, under any tags and with any padding. -/
inductive Laid : List Item → Bytes → Prop
  | nil : Laid [] []
  | cons (tag : ByteArr 16) (item : Item) {padding : Bytes} {items : List Item} {plain : Bytes}
      (hpad : padding.length < 2 ^ 16) (rest : Laid items plain) :
      Laid (item :: items)
        (frameBytes tag item.streamId item.frameType item.payload padding ++ plain)

/-- What went into a record and what came out. -/
structure Record where
  items : List Item
  plain : Bytes
  cipher : Bytes

/-- The bytes of records on the wire. -/
def wireOf (rs : List Record) : Bytes := rs.flatMap fun r ↦ TlsBridge.packAppData r.cipher

/-- The frames of records, in order. -/
def itemsOf (rs : List Record) : List Item := rs.flatMap Record.items

/-- The cipher goes from one state to another by encrypting these records, in order. -/
inductive Sends (A : ChaCha20Poly1305) : ChaChaStream → List Record → ChaChaStream → Prop
  | nil (s : ChaChaStream) : Sends A s [] s
  | cons {s s' : ChaChaStream} {r : Record} {rs : List Record} (hne : r.items ≠ [])
      (hlaid : Laid r.items r.plain)
      (henc : A.encrypt s.cipher s.currentNonce s.currentNonce.val r.plain = some r.cipher)
      (rest : Sends A (s.afterSealing r.plain r.cipher) rs s') : Sends A s (r :: rs) s'

/-- Some plaintext of at most `M` bytes was refused by the cipher. -/
def Refused (A : ChaCha20Poly1305) (M : ℕ) : Prop :=
  ∃ (k : Key) (n : Nonce) (plain : Bytes), plain.length ≤ M ∧ A.encrypt k n n.val plain = none

/-- Between `tx₀` and `tx` the codec emitted `out`, carrying the frames `done` in records of at most
`M` bytes of plaintext. -/
def Sent (A : ChaCha20Poly1305) (M : ℕ) (tx₀ : TxCodec) (done : List Item) (out : Bytes)
    (tx : TxCodec) : Prop :=
  ∃ rs, Sends A tx₀.crypto rs tx.crypto ∧ itemsOf rs = done ∧ wireOf rs = out ∧
    ∀ r ∈ rs, r.plain.length ≤ M

section

variable {A : ChaCha20Poly1305} {M : ℕ} {tx₀ tx : TxCodec} {done : List Item} {out : Bytes}

@[simp] theorem wireOf_append (rs rs' : List Record) :
    wireOf (rs ++ rs') = wireOf rs ++ wireOf rs' :=
  List.flatMap_append

@[simp] theorem itemsOf_append (rs rs' : List Record) :
    itemsOf (rs ++ rs') = itemsOf rs ++ itemsOf rs' :=
  List.flatMap_append

@[simp] theorem wireOf_singleton (r : Record) : wireOf [r] = TlsBridge.packAppData r.cipher := by
  simp [wireOf]

@[simp] theorem itemsOf_singleton (r : Record) : itemsOf [r] = r.items := by
  simp [itemsOf]

/-! ### Following the cipher -/

theorem Sends.append {s s' s'' : ChaChaStream} {rs rs' : List Record} (h : Sends A s rs s')
    (h' : Sends A s' rs' s'') : Sends A s (rs ++ rs') s'' := by
  induction h with
  | nil s => exact h'
  | cons hne hlaid henc _ ih => exact .cons hne hlaid henc (ih h')

/-- The key and the IV stay; the counter moves on by one a record. -/
theorem Sends.state {s s' : ChaChaStream} {rs : List Record} (h : Sends A s rs s') :
    s'.cipher = s.cipher ∧ s'.state.baseIv = s.state.baseIv ∧
      s'.state.counter = s.state.counter + UInt64.ofNat rs.length := by
  induction h with
  | nil s => simp
  | cons _ _ _ _ ih =>
    obtain ⟨hk, hiv, hc⟩ := ih
    refine ⟨hk, hiv, hc.trans ?_⟩
    simp only [ChaChaStream.afterSealing, List.length_cons, UInt64.ofNat_add, UInt64.add_assoc]
    congr 1
    exact UInt64.add_comm _ _

/-- The history gained by sending records from the counter `n` on. -/
def sealings (key : Key) (iv : Nonce) (n : UInt64) : List Record → List (Sealing Key Nonce)
  | [] => []
  | r :: rs =>
    ⟨key, nonceAt iv n, (nonceAt iv n).val, r.plain, r.cipher⟩ :: sealings key iv (n + 1) rs

@[simp] theorem length_sealings (key : Key) (iv : Nonce) (n : UInt64) (rs : List Record) :
    (sealings key iv n rs).length = rs.length := by
  induction rs generalizing n with
  | nil => rfl
  | cons r rs ih => rw [sealings, List.length_cons, ih, List.length_cons]

theorem map_cipher_sealings (key : Key) (iv : Nonce) (n : UInt64) (rs : List Record) :
    (sealings key iv n rs).map Sealing.cipher = rs.map Record.cipher := by
  induction rs generalizing n with
  | nil => rfl
  | cons r rs ih => rw [sealings, List.map_cons, List.map_cons, ih]

/-- Record `i` was sealed under the `i`-th next nonce. -/
theorem getElem?_sealings (key : Key) (iv : Nonce) (n : UInt64) (rs : List Record) (i : ℕ) :
    (sealings key iv n rs)[i]? = rs[i]?.map fun r ↦
      ⟨key, nonceAt iv (n + UInt64.ofNat i), (nonceAt iv (n + UInt64.ofNat i)).val, r.plain,
        r.cipher⟩ := by
  induction rs generalizing n i with
  | nil => rfl
  | cons r rs ih =>
    cases i with
    | zero => simp [sealings]
    | succ i =>
      have hnext : n + 1 + UInt64.ofNat i = n + UInt64.ofNat (i + 1) := by
        rw [UInt64.ofNat_add, UInt64.add_assoc, UInt64.add_comm 1]
        rfl
      rw [sealings, List.getElem?_cons_succ, ih, hnext, List.getElem?_cons_succ]

/-- **The history of the cipher**: what was there, and the records. -/
theorem Sends.log_eq {s s' : ChaChaStream} {rs : List Record} (h : Sends A s rs s') :
    s'.log = s.log ++ sealings s.cipher s.state.baseIv s.state.counter rs := by
  induction h with
  | nil s => rw [sealings, List.append_nil]
  | cons _ _ _ _ ih =>
    rw [ih, ChaChaStream.afterSealing, List.append_assoc]
    rfl

theorem Sends.length_log {s s' : ChaChaStream} {rs : List Record} (h : Sends A s rs s') :
    s'.log.length = s.log.length + rs.length := by
  rw [h.log_eq, List.length_append, length_sealings]

theorem Sends.mem_log {s s' : ChaChaStream} {rs : List Record} (h : Sends A s rs s')
    {e : Sealing Key Nonce} (he : e ∈ s'.log) :
    e ∈ s.log ∨ ∃ i r, rs[i]? = some r ∧ e.plain = r.plain ∧ e.cipher = r.cipher ∧
      e.nonce = nonceAt s.state.baseIv (s.state.counter + UInt64.ofNat i) := by
  rw [h.log_eq] at he
  refine (List.mem_append.mp he).imp_right fun hnew ↦ ?_
  obtain ⟨i, hi⟩ := List.mem_iff_getElem?.mp hnew
  rw [getElem?_sealings] at hi
  obtain ⟨r, hr, rfl⟩ := Option.map_eq_some_iff.mp hi
  exact ⟨i, r, hr, rfl, rfl, rfl⟩

/-- What each record went through. -/
theorem Sends.forall_mem {s s' : ChaChaStream} {rs : List Record} (h : Sends A s rs s')
    {r : Record} (hr : r ∈ rs) :
    r.items ≠ [] ∧ Laid r.items r.plain ∧
      ∃ k n aad, A.encrypt k n aad r.plain = some r.cipher := by
  induction h with
  | nil s => simp at hr
  | cons hne hlaid henc _ ih =>
    rcases List.mem_cons.mp hr with rfl | hr
    · exact ⟨hne, hlaid, _, _, _, henc⟩
    · exact ih hr

/-! ### The methods -/

/-- The frames of a record, laid out. -/
theorem TxCodec.laid_putFrames (tag : ByteArr 16) (pad : ℕ) (frames : List Item) (rng : Entropy) :
    Laid frames (TxCodec.putFrames tag pad frames rng).1 := by
  induction frames generalizing rng with
  | nil => exact .nil
  | cons item rest ih =>
    simp only [putFrames, Frame.intoBytes_new]
    refine .cons tag item ?_ (ih _)
    rw [Stream'.length_take]
    exact UInt16.toNat_lt _

/-- The length of a record's plaintext: the frames, and the padding of the last. -/
theorem TxCodec.length_putFrames (tag : ByteArr 16) (pad : ℕ) {frames : List Item}
    (hne : frames ≠ []) (rng : Entropy) :
    (TxCodec.putFrames tag pad frames rng).1.length
      = (frames.map Item.wireLen).sum + (UInt16.ofNat pad).toNat := by
  induction frames generalizing rng with
  | nil => exact absurd rfl hne
  | cons item rest ih =>
    simp only [putFrames, Frame.intoBytes_new, List.length_append, length_frameBytes,
      Stream'.length_take, List.map_cons, List.sum_cons, Item.wireLen, Frame.wireLen]
    cases rest with
    | nil => simp [putFrames]
    | cons next rest =>
      rw [ih (by simp)]
      simp [Item.wireLen, Frame.wireLen]
      omega

/-- **What a flush does.** It sends one record, of the frames and their padding; or the cipher
refuses, and what is left of it in the codec is not in the history. -/
theorem TxCodec.flushRecord_cases (tag : ByteArr 16) {frames : List Item} (hne : frames ≠ [])
    (pad : ℕ) (tx : TxCodec) :
    (∃ r tx', flushRecord A tag frames pad tx = (.ok (TlsBridge.packAppData r.cipher), tx') ∧
      Sends A tx.crypto [r] tx'.crypto ∧ tx'.shaper = tx.shaper ∧ r.items = frames ∧
      r.plain.length = (frames.map Item.wireLen).sum + pad % 2 ^ 16) ∨
    (∃ plain tx', flushRecord A tag frames pad tx
        = (.err ⟨.tls "Encryption failed", .drop, []⟩, tx') ∧ tx'.crypto.log = tx.crypto.log ∧
      A.encrypt tx.crypto.cipher tx.crypto.currentNonce tx.crypto.currentNonce.val plain = none ∧
      plain.length = (frames.map Item.wireLen).sum + pad % 2 ^ 16) := by
  have hnonempty : frames.isEmpty = false := by simpa using hne
  have hlaid := laid_putFrames tag pad frames tx.rng
  have hlength := length_putFrames tag pad hne tx.rng
  rw [UInt16.toNat_ofNat'] at hlength
  simp only [flushRecord, hnonempty, Bool.false_eq_true, if_false]
  set plain := (putFrames tag pad frames tx.rng).1
  rcases henc : A.encrypt tx.crypto.cipher tx.crypto.currentNonce tx.crypto.currentNonce.val plain
    with - | cipher
  · rw [ChaChaStream.encrypt_of_none A henc]
    exact Or.inr ⟨plain, _, rfl, rfl, henc, hlength⟩
  · rw [ChaChaStream.encrypt_of_some A henc]
    exact Or.inl ⟨⟨frames, plain, cipher⟩, _, rfl, .cons hne hlaid henc (.nil _), rfl, rfl, hlength⟩

/-- The same, for a record padded to the shaper's target. -/
theorem TxCodec.flushShaped_eq (tag : ByteArr 16) (frames : List Item) {plainLen : ℕ}
    (hmax : plainLen ≤ maxRecordPlaintext) (tx : TxCodec) :
    flushShaped A tag frames plainLen tx = flushRecord A tag frames
      (min (tx.shaper.targetRecordLen plainLen - (plainLen + aeadTagLen))
        (maxRecordPlaintext - plainLen)) tx := by
  rw [flushShaped, Exec.get_bind, if_pos hmax, Outcome.expect_some, Exec.lift_ok_bind]

/-! ### Batching is packing -/

namespace TxCodec

/-- A group of frames in a record, padded by the shaper unless it is too large. -/
def flushGroup (A : ChaCha20Poly1305) (tag : ByteArr 16) (frames : List Item) :
    Exec TxCodec TlsError Bytes :=
  let plainLen := Packing.total Item.wireLen frames
  if maxRecordPlaintext < plainLen then flushRecord A tag frames 0
  else flushShaped A tag frames plainLen

/-- Groups of frames, each in a record, after what was emitted. -/
def flushGroups (A : ChaCha20Poly1305) (tag : ByteArr 16) :
    List (List Item) → Bytes → Exec TxCodec TlsError Bytes
  | [], out => pure out
  | frames :: groups, out => do
    let record ← flushGroup A tag frames
    flushGroups A tag groups (out ++ record)

theorem flushGroups_pending (tag : ByteArr 16) (batch : List Item) (groups : List (List Item))
    (out : Bytes) :
    flushGroups A tag (Packing.pending batch ++ groups) out =
      if batch.isEmpty then flushGroups A tag groups out
      else flushGroup A tag batch >>= fun record ↦ flushGroups A tag groups (out ++ record) := by
  rw [Packing.pending]
  split <;> rfl

/-- **The batching loop packs greedily**: the running length is the weight of the batch, and what
the loop flushes are the groups of the packing. -/
theorem batchLoop_eq (tag : ByteArr 16) (items batch : List Item)
    (hbatch : Packing.total Item.wireLen batch ≤ maxRecordPlaintext) (out : Bytes) :
    batchLoop A tag items batch (Packing.total Item.wireLen batch) out
      = flushGroups A tag (Packing.packFrom Item.wireLen maxRecordPlaintext batch items) out := by
  have hshaped (frames : List Item)
      (h : Packing.total Item.wireLen frames ≤ maxRecordPlaintext) :
      flushGroup A tag frames
        = flushShaped A tag frames (Packing.total Item.wireLen frames) :=
    if_neg (by omega)
  induction items generalizing batch out with
  | nil =>
    have hpending := flushGroups_pending (A := A) tag batch [] out
    rw [List.append_nil, hshaped batch hbatch] at hpending
    rw [batchLoop, Packing.packFrom_nil, hpending]
    rfl
  | cons item items ih =>
    have hneed : Frame.wireLen item.payload.length 0 = item.wireLen := rfl
    rw [batchLoop]
    simp only [hneed]
    by_cases hlarge : maxRecordPlaintext < item.wireLen
    · -- a frame with a record of its own: what is pending goes out first
      have hown : flushGroup A tag [item] = flushRecord A tag [item] 0 :=
        if_pos (by rw [Packing.total_singleton]; exact hlarge)
      have hrest (out : Bytes) := ih [] (Nat.zero_le _) out
      rw [if_pos hlarge, Packing.packFrom_of_large hlarge, flushGroups_pending]
      split
      · rename_i hempty
        obtain rfl := List.isEmpty_iff.mp hempty
        rw [flushGroups, hown]
        exact congrArg _ (funext fun own ↦ hrest _)
      · rw [hshaped batch hbatch]
        simp only [flushGroups, hown]
        exact congrArg _ (funext fun record ↦ congrArg _ (funext fun own ↦ hrest _))
    · rw [if_neg hlarge]
      by_cases hfull : maxRecordPlaintext < Packing.total Item.wireLen batch + item.wireLen
      · -- the record is full, and the frame begins the next
        rw [if_pos hfull, Packing.packFrom_of_full hlarge hfull, flushGroups, hshaped batch hbatch]
        have hsingle : Packing.total Item.wireLen [item] = item.wireLen := Packing.total_singleton _
        refine congrArg _ (funext fun record ↦ ?_)
        rw [← hsingle]
        exact ih [item] (by omega) _
      · rw [if_neg hfull, Packing.packFrom_of_room hlarge hfull]
        have hsum : Packing.total Item.wireLen (batch ++ [item])
            = Packing.total Item.wireLen batch + item.wireLen := by simp
        rw [← hsum]
        exact ih (batch ++ [item]) (by omega) out

/-- A batch is packed and the groups are flushed. -/
theorem encodeBatch_eq (hmac : HmacSha256) (now : UInt64) (items : List Item) (tx : TxCodec) :
    encodeBatch A hmac now items tx
      = flushGroups A (tx.auth.generateCurrentTag hmac now)
          (Packing.pack Item.wireLen maxRecordPlaintext items) [] tx := by
  by_cases hempty : items = []
  · subst hempty
    rfl
  · rw [encodeBatch, if_neg (by simpa using hempty), Exec.get_bind]
    exact congrFun (batchLoop_eq _ items [] (Nat.zero_le _) []) tx

/-- What flushing one group adds, flushing the groups adds up. -/
theorem flushGroups_triple (tag : ByteArr 16) {J : List (List Item) → Bytes → TxCodec → Prop}
    {E : TlsError → TxCodec → Prop} (groups : List (List Item))
    (h : ∀ frames ∈ groups, ∀ done out, Exec.Triple (J done out) (flushGroup A tag frames)
      (fun record ↦ J (done ++ [frames]) (out ++ record)) E) (done : List (List Item))
    (out : Bytes) :
    Exec.Triple (J done out) (flushGroups A tag groups out) (J (done ++ groups)) E := by
  induction groups generalizing done out with
  | nil => exact Exec.Triple.pure fun _ hs ↦ by rwa [List.append_nil]
  | cons frames groups ih =>
    obtain ⟨hframes, hgroups⟩ := List.forall_mem_cons.mp h
    refine (hframes done out).bind fun record ↦ ?_
    have hrest := ih hgroups (done ++ [frames]) (out ++ record)
    rwa [List.append_assoc, List.singleton_append] at hrest

end TxCodec

/-! ### Rules for whole calls -/

namespace TxCodec

/-- `I done out tx` is an invariant of batching: `done` was submitted, `out` was emitted and `tx` is
the codec. Both ways the loop flushes a record keep it; a failure ends in `E`. -/
structure BatchRule (A : ChaCha20Poly1305) (P : Item → Prop)
    (I : List Item → Bytes → TxCodec → Prop) (E : TlsError → TxCodec → Prop) : Prop where
  shaped : ∀ tag {frames} done out, frames ≠ [] → (∀ item ∈ frames, P item) →
    (frames.map Item.wireLen).sum ≤ maxRecordPlaintext →
    Exec.Triple (I done out) (flushShaped A tag frames (frames.map Item.wireLen).sum)
      (fun record ↦ I (done ++ frames) (out ++ record)) E
  own : ∀ tag {item} done out, P item → maxRecordPlaintext < item.wireLen →
    Exec.Triple (I done out) (flushRecord A tag [item] 0)
      (fun record ↦ I (done ++ [item]) (out ++ record)) E

/-- An invariant of sending: a cover frame keeps it as well. -/
structure SendRule (A : ChaCha20Poly1305) (P : Item → Prop)
    (I : List Item → Bytes → TxCodec → Prop) (E : TlsError → TxCodec → Prop) : Prop
    extends BatchRule A P I E where
  cover : ∀ tag {pad} done out, frameHeaderSize + pad ≤ maxRecordPlaintext →
    Exec.Triple (I done out) (flushRecord A tag [⟨0, .cover, []⟩] pad)
      (fun record ↦ I (done ++ [⟨0, .cover, []⟩]) (out ++ record)) E

variable {P : Item → Prop} {I : List Item → Bytes → TxCodec → Prop} {E : TlsError → TxCodec → Prop}

/-- A group of a packing is flushed in one of the two ways. -/
theorem BatchRule.flushGroup (h : BatchRule A P I E) (tag : ByteArr 16) {frames : List Item}
    (hfits : Packing.Fits Item.wireLen maxRecordPlaintext frames)
    (hframes : ∀ item ∈ frames, P item) (done : List Item) (out : Bytes) :
    Exec.Triple (I done out) (TxCodec.flushGroup A tag frames)
      (fun record ↦ I (done ++ frames) (out ++ record)) E := by
  rw [TxCodec.flushGroup]
  cases hfits with
  | @single item hlarge =>
    rw [if_pos (by rw [Packing.total_singleton]; exact hlarge)]
    exact h.own tag done out (hframes item List.mem_cons_self) hlarge
  | within hne hmax =>
    rw [if_neg (by omega)]
    exact h.shaped tag done out hne hframes hmax

/-- **A batch** emits the frames it is given, in order. -/
theorem BatchRule.encodeBatch (h : BatchRule A P I E) (hmac : HmacSha256) (now : UInt64)
    {items : List Item} (hitems : ∀ item ∈ items, P item) (done : List Item) (out : Bytes) :
    Exec.Triple (I done out) (TxCodec.encodeBatch A hmac now items)
      (fun more ↦ I (done ++ items) (out ++ more)) E := by
  have hsplit : Packing.IsSplit Item.wireLen maxRecordPlaintext items _ :=
    Packing.pack_isSplit items
  intro tx htx
  rw [encodeBatch_eq]
  let tag := tx.auth.generateCurrentTag hmac now
  let J := fun groups more ↦ I (done ++ List.flatten groups) (out ++ more)
  have hstep : ∀ frames ∈ Packing.pack Item.wireLen maxRecordPlaintext items, ∀ groups more,
      Exec.Triple (J groups more) (TxCodec.flushGroup A tag frames)
        (fun record ↦ J (groups ++ [frames]) (more ++ record)) E := by
    intro frames hframes groups more
    have hmem : ∀ item ∈ frames, P item := fun item hitem ↦ hitems item
      (hsplit.flatten_eq ▸ List.mem_flatten_of_mem hframes hitem)
    have hflush := h.flushGroup tag (hsplit.fits frames hframes) hmem (done ++ groups.flatten)
      (out ++ more)
    simpa [J] using hflush
  have hrun := flushGroups_triple tag _ hstep [] []
  simp only [J, List.nil_append, hsplit.flatten_eq, List.flatten_nil, List.append_nil] at hrun
  exact hrun tx htx

theorem SendRule.encodeCover (h : SendRule A P I E) (hmac : HmacSha256) (now : UInt64)
    (targetRecordLen : ℕ) (done : List Item) (out : Bytes) :
    Exec.Triple (I done out) (TxCodec.encodeCover A hmac now targetRecordLen)
      (fun more ↦ I (done ++ [⟨0, .cover, []⟩]) (out ++ more)) E := by
  intro tx htx
  rw [TxCodec.encodeCover, Exec.get_bind]
  refine h.cover (tx.auth.generateCurrentTag hmac now) done out ?_ tx htx
  simp only [emptyCoverRecord, maxRecordLen, maxRecordPlaintext, frameHeaderSize, aeadTagLen]
  omega

theorem SendRule.run (h : SendRule A P I E) (hmac : HmacSha256) (now : UInt64) (call : EncodeCall)
    (hitems : ∀ item ∈ call.items, P item) (done : List Item) (out : Bytes) :
    Exec.Triple (I done out) (call.run A hmac now)
      (fun more ↦ I (done ++ call.items) (out ++ more)) E := by
  cases call with
  | batch items => exact h.encodeBatch hmac now hitems done out
  | frame streamId frameType payload => exact h.encodeBatch hmac now hitems done out
  | cover targetRecordLen => exact h.encodeCover hmac now targetRecordLen done out

/-- **A run of the sending codec** keeps every invariant of sending. -/
theorem SendRule.calls (h : SendRule A P I E) (hmac : HmacSha256)
    (calls : List (UInt64 × EncodeCall))
    (hitems : ∀ call ∈ calls, ∀ item ∈ call.2.items, P item) (done : List Item) (out : Bytes) :
    Exec.Triple (I done out) (encodeAll A hmac calls)
      (fun more ↦ I (done ++ calls.flatMap (·.2.items)) (out ++ more)) E := by
  induction calls generalizing done out with
  | nil => exact Exec.Triple.pure fun _ hs ↦ by simpa using hs
  | cons call calls ih =>
    refine (h.run hmac call.1 call.2 (hitems call List.mem_cons_self) done out).bind
      fun first ↦ ?_
    refine (ih (fun c hc ↦ hitems c (List.mem_cons_of_mem _ hc)) _ _).bind fun more ↦ ?_
    exact Exec.Triple.pure fun tx hs ↦ by simpa using hs

end TxCodec

/-! ### What is sent -/

theorem Sent.refl (tx : TxCodec) : Sent A M tx [] [] tx :=
  ⟨[], .nil _, rfl, rfl, by simp⟩

/-- A correct cipher refuses nothing below its limit. -/
theorem not_refused (hA : A.IsCorrect) (hM : M < aeadPlainLimit) : ¬Refused A M := by
  rintro ⟨k, n, plain, hle, hnone⟩
  have hsome := hA.encrypt_isSome k n n.val (p := plain) (by omega)
  simp [hnone] at hsome

/-- Between `tx₀` and `tx` the codec emitted `out`, one record for each group of frames. -/
def SentGroups (A : ChaCha20Poly1305) (M : ℕ) (tx₀ : TxCodec) (groups : List (List Item))
    (out : Bytes) (tx : TxCodec) : Prop :=
  ∃ rs, Sends A tx₀.crypto rs tx.crypto ∧ rs.map Record.items = groups ∧ wireOf rs = out ∧
    ∀ r ∈ rs, r.plain.length ≤ M

/-- One record is added. -/
theorem TxCodec.flushRecord_sentGroups (tag : ByteArr 16) {frames : List Item} {pad : ℕ}
    (hne : frames ≠ []) (hM : (frames.map Item.wireLen).sum + pad ≤ M)
    (groups : List (List Item)) (out : Bytes) :
    Exec.Triple (SentGroups A M tx₀ groups out) (TxCodec.flushRecord A tag frames pad)
      (fun record ↦ SentGroups A M tx₀ (groups ++ [frames]) (out ++ record))
      (fun _ _ ↦ Refused A M) := by
  rintro tx ⟨rs, hsends, hitems, hwire, hlen⟩
  have hpad := Nat.mod_le pad (2 ^ 16)
  rcases flushRecord_cases (A := A) tag hne pad tx with
    ⟨r, tx', hrun, hsent, -, rfl, hplain⟩ | ⟨plain, tx', hrun, -, henc, hplain⟩ <;> rw [hrun]
  · refine ⟨rs ++ [r], hsends.append hsent, ?_, ?_, ?_⟩
    · rw [List.map_append, hitems, List.map_singleton]
    · rw [wireOf_append, hwire, wireOf_singleton]
    · intro r' hr'
      rcases List.mem_append.mp hr' with hr' | hr'
      · exact hlen r' hr'
      · obtain rfl := List.mem_singleton.mp hr'
        omega
  · exact ⟨_, _, plain, by omega, henc⟩

/-- A group of a packing is added. -/
theorem TxCodec.flushGroup_sentGroups (hmax : maxRecordPlaintext ≤ M) (tag : ByteArr 16)
    {frames : List Item} (hfits : Packing.Fits Item.wireLen maxRecordPlaintext frames)
    (hframes : ∀ item ∈ frames, item.wireLen ≤ M) (groups : List (List Item)) (out : Bytes) :
    Exec.Triple (SentGroups A M tx₀ groups out) (TxCodec.flushGroup A tag frames)
      (fun record ↦ SentGroups A M tx₀ (groups ++ [frames]) (out ++ record))
      (fun _ _ ↦ Refused A M) := by
  rw [flushGroup]
  cases hfits with
  | @single item hlarge =>
    rw [if_pos (by rw [Packing.total_singleton]; exact hlarge)]
    exact flushRecord_sentGroups tag (by simp) (by simpa using hframes) groups out
  | within hne hle =>
    rw [if_neg (by omega)]
    intro tx htx
    rw [flushShaped_eq tag frames hle]
    rw [Packing.total] at hle
    exact flushRecord_sentGroups tag hne (by rw [Packing.total]; omega) groups out tx htx

theorem TxCodec.flushRecord_triple (tag : ByteArr 16) {frames : List Item} {pad : ℕ}
    (hne : frames ≠ []) (hM : (frames.map Item.wireLen).sum + pad ≤ M) (done : List Item)
    (out : Bytes) :
    Exec.Triple (Sent A M tx₀ done out) (TxCodec.flushRecord A tag frames pad)
      (fun record ↦ Sent A M tx₀ (done ++ frames) (out ++ record)) (fun _ _ ↦ Refused A M) := by
  rintro tx ⟨rs, hsends, hitems, hwire, hlen⟩
  refine (flushRecord_sentGroups tag hne hM (rs.map Record.items) out).conseq (fun _ h ↦ h) ?_
    (fun _ _ h ↦ h) tx ⟨rs, hsends, rfl, hwire, hlen⟩
  rintro record tx' ⟨rs', hsends', hgroups, hwire', hlen'⟩
  refine ⟨rs', hsends', ?_, hwire', hlen'⟩
  rw [itemsOf, List.flatMap_def] at hitems ⊢
  rw [hgroups, List.flatten_append, hitems, List.flatten_singleton]

/-- `Sent` is an invariant of sending. -/
theorem TxCodec.sendRule_sent (hM : maxRecordPlaintext ≤ M) :
    SendRule A (·.wireLen ≤ M) (Sent A M tx₀) (fun _ _ ↦ Refused A M) where
  shaped tag frames done out hne _ hmax := by
    intro tx htx
    rw [flushShaped_eq tag frames hmax]
    exact flushRecord_triple tag hne (by omega) done out tx htx
  own tag item done out hitem _ := flushRecord_triple tag (by simp) (by simpa using hitem) done out
  cover tag pad done out hpad := by
    refine flushRecord_triple tag (by simp) ?_ done out
    simp only [List.map_cons, List.map_nil, List.sum_cons, List.sum_nil, Item.wireLen,
      Frame.wireLen, List.length_nil, UInt16.toNat_zero]
    omega

/-- **A run of the sending codec** emits the frames submitted, in order, and nothing else. It does
not panic, and it fails only if the cipher refuses a plaintext. -/
theorem encodeAll_triple (hmac : HmacSha256) (hM : maxRecordPlaintext ≤ M)
    (calls : List (UInt64 × EncodeCall))
    (hitems : ∀ call ∈ calls, ∀ item ∈ call.2.items, item.wireLen ≤ M) (tx : TxCodec) :
    Exec.Triple (· = tx) (encodeAll A hmac calls) (Sent A M tx (calls.flatMap (·.2.items)))
      (fun _ _ ↦ Refused A M) := by
  have hrule : TxCodec.SendRule A (·.wireLen ≤ M) (Sent A M tx) (fun _ _ ↦ Refused A M) :=
    TxCodec.sendRule_sent hM
  have hrun := hrule.calls hmac calls hitems [] []
  exact hrun.conseq (by rintro s rfl; exact Sent.refl s) (fun _ _ hs ↦ hs) fun _ _ hs ↦ hs

end
