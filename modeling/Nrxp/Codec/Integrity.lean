import Mathlib.Algebra.Order.BigOperators.Group.List
import Mathlib.Data.List.Infix
import Nrxp.Codec.RoundTrip

/-!
# Integrity of the TCP leg

The receiver against an adversary who chooses every byte it reads, and against a caller who goes on
after errors. What protects the stream is the nonce: a ciphertext opens only as the record it was,
and only when the receiver has counted up to it, so what was returned so far and what is still to
come always add up to what was sent.

`Follows` is that invariant. It survives every way a call can end: an error moves neither the
counter nor the frames to come, because a record is only decrypted once the staging area is empty,
so the staging area an error clears held nothing.

The counter is a `u64`. The guarantee is about fewer than `2 ^ 64` records; past that the nonces
start over, and `tcp_integrity_fails_after_wrap` exhibits a run in which a record is accepted out of
place.
-/

/-- What happens at the receiver: bytes arrive, or the caller asks for a frame. -/
inductive RxAction where
  | feed (bytes : Bytes)
  | decode

/-- All bytes that arrive. -/
def fedBytes : List RxAction → Bytes
  | [] => []
  | .feed bytes :: actions => bytes ++ fedBytes actions
  | .decode :: actions => fedBytes actions

/-- The results of the calls, in order. The caller goes on after errors. -/
def decodeRun (A : ChaCha20Poly1305) :
    List RxAction → RxCodec → Bytes → List (Outcome TlsError (Option Frame))
  | [], _, _ => []
  | .feed bytes :: actions, rx, buffer => decodeRun A actions rx (buffer ++ bytes)
  | .decode :: actions, rx, buffer =>
    let (r, rx', buffer') := rx.decodeInbound A buffer
    r :: decodeRun A actions rx' buffer'

/-- The frame a call returned, if it returned one. -/
def returned : Outcome TlsError (Option Frame) → Option Frame
  | .ok (some f) => some f
  | _ => none

variable {A : ChaCha20Poly1305}

/-! ### Ciphertexts open in place -/

/-- If the receiver, `k` records on from `s`, can open `c`, then `c` is record `k`. -/
def OpensInPlace (A : ChaCha20Poly1305) (s : ChaChaStream) (rs : List Record) (c : Bytes) : Prop :=
  ∀ k ≤ rs.length, ∀ n, n = nonceAt s.state.baseIv (s.state.counter + UInt64.ofNat k) →
    ∀ p, A.decrypt s.cipher n n.val c = some p → ∃ r, rs[k]? = some r ∧ r.plain = p ∧ r.cipher = c

/-- **Authenticity becomes order.** With fewer than `2 ^ 64` records no two share a nonce, so a
ciphertext that opens only as the log says opens only in its place. -/
theorem Sends.opensInPlace {s s' : ChaChaStream} {rs : List Record} (h : Sends A s rs s')
    (hlog : s.log = []) (hlt : rs.length < 2 ^ 64) {c : Bytes}
    (hopens : ∀ n : Nonce, A.OpensOnly s'.log s.cipher n n.val c) : OpensInPlace A s rs c := by
  rintro k hk n rfl p hp
  rcases h.mem_log (hopens _ p hp) with hold | ⟨i, r, hr, hplain, hcipher, hnonce⟩
  · rw [hlog] at hold
    cases hold
  · have hi : i < rs.length := (List.getElem?_eq_some_iff.mp hr).1
    have hcount : UInt64.ofNat k = UInt64.ofNat i :=
      (UInt64.add_right_inj _).mp (nonceAt_injective _ hnonce)
    have hki : k = i := by
      have := congrArg UInt64.toNat hcount
      rwa [UInt64.toNat_ofNat', UInt64.toNat_ofNat', Nat.mod_eq_of_lt (by omega),
        Nat.mod_eq_of_lt (by omega)] at this
    subst hki
    exact ⟨r, hr, hplain.symm, hcipher.symm⟩

/-! ### The invariant -/

/-- The receiver has opened the first `k` records after `s`; what waits in its staging area and the
records after these are the frames `todo`. -/
def Follows (s : ChaChaStream) (rs : List Record) (todo : List Item) (rx : RxCodec) : Prop :=
  ∃ k pend, k ≤ rs.length ∧ rx.crypto.cipher = s.cipher ∧
    rx.crypto.state = ⟨s.state.counter + UInt64.ofNat k, s.state.baseIv⟩ ∧
    Laid pend rx.staging ∧ rx.staging.length < 2 ^ 16 ∧ todo = pend ++ itemsOf (rs.drop k)

/-- What a call may do to the frames to come: return the first, or leave them alone. -/
def Advances (s : ChaChaStream) (rs : List Record) (todo : List Item)
    (r : Outcome TlsError (Option Frame)) (rx' : RxCodec) : Prop :=
  (∃ f todo', r = .ok (some f) ∧ todo = f.item :: todo' ∧ Follows s rs todo' rx') ∨
    (returned r = none ∧ Follows s rs todo rx')

/-- **One turn over the wire**, with nothing staged. -/
theorem Follows.decodeRecords {s s' : ChaChaStream} {rs : List Record} {todo : List Item}
    {rx : RxCodec} {buffer : Bytes} (hA : A.IsCorrect) (hsends : Sends A s rs s')
    (h : Follows s rs todo rx) (hempty : rx.staging = [])
    (hopens : ∀ c, c <:+: buffer → OpensInPlace A s rs c) :
    ∃ r rx' rest, rx.decodeRecords A buffer = (r, rx', rest) ∧ Advances s rs todo r rx' := by
  obtain ⟨k, pend, hk, hkey, hstate, hstaged, hsmall, htodo⟩ := h
  rw [hempty] at hstaged
  obtain rfl : pend = [] := by
    cases pend with
    | nil => rfl
    | cons item pend => exact absurd rfl hstaged.ne_nil
  rcases TlsBridge.unpackAppData_cases buffer with hu | ⟨header, payload, rest, hu, hb, -, -, hlt⟩ |
      ⟨e, rest, hu, -⟩
  · exact ⟨_, _, _, RxCodec.decodeRecords_of_none A hu,
      Or.inr ⟨rfl, k, [], hk, hkey, hstate, hempty ▸ .nil, hsmall, htodo⟩⟩
  · rcases hdec : A.decrypt rx.crypto.cipher rx.crypto.currentNonce rx.crypto.currentNonce.val
        payload with - | plain
    · exact ⟨_, _, _, RxCodec.decodeRecords_of_forged A hu hdec,
        Or.inr ⟨rfl, k, [], hk, hkey, hstate, .nil, by simp, htodo⟩⟩
    · -- the record opened, so it is record `k`
      have hnonce : rx.crypto.currentNonce
          = nonceAt s.state.baseIv (s.state.counter + UInt64.ofNat k) := by
        rw [ChaChaStream.currentNonce, hstate]
      have hslice : payload <:+: buffer := ⟨header, rest, hb.symm⟩
      obtain ⟨r, hr, rfl, rfl⟩ := hopens payload hslice k hk _ hnonce plain (hkey ▸ hdec)
      obtain ⟨hlen, hget⟩ := List.getElem?_eq_some_iff.mp hr
      obtain ⟨hne, hlaid, _, _, _, henc⟩ := hsends.forall_mem (List.mem_of_getElem? hr)
      obtain ⟨item, items, hitems⟩ := List.exists_cons_of_ne_nil hne
      rw [hitems] at hlaid
      have hcipher := hA.length_encrypt henc
      obtain ⟨f, staging, hd, hf, hl, hs⟩ :=
        RxCodec.decodeRecords_of_laid hempty hu hdec hlaid (by simp at hlt; omega)
      refine ⟨_, _, _, hd, Or.inl ⟨f, items ++ itemsOf (rs.drop (k + 1)), rfl, ?_,
        k + 1, items, hlen, hkey, ?_, hl, hs, rfl⟩⟩
      · rw [htodo, List.drop_eq_getElem_cons hlen, hget]
        simp [itemsOf, hitems, hf]
      · simp only [ChaChaStream.afterOpening, hstate, UInt64.ofNat_add, UInt64.add_assoc]
        rfl
  · exact ⟨_, _, _, RxCodec.decodeRecords_of_err A hu,
      Or.inr ⟨rfl, k, [], hk, hkey, hstate, hempty ▸ .nil, hsmall, htodo⟩⟩

/-- **One call** returns the first frame to come, or none, and keeps the invariant. -/
theorem Follows.decodeInbound {s s' : ChaChaStream} {rs : List Record} {todo : List Item}
    {rx : RxCodec} {buffer : Bytes} (hA : A.IsCorrect) (hsends : Sends A s rs s')
    (h : Follows s rs todo rx) (hopens : ∀ c, c <:+: buffer → OpensInPlace A s rs c) :
    ∃ r rx' rest, rx.decodeInbound A buffer = (r, rx', rest) ∧ Advances s rs todo r rx' := by
  by_cases hempty : rx.staging = []
  · rw [RxCodec.decodeInbound_of_empty buffer hempty]
    exact h.decodeRecords hA hsends hempty hopens
  · obtain ⟨k, pend, hk, hkey, hstate, hstaged, hsmall, htodo⟩ := h
    cases pend with
    | nil => exact absurd hstaged.eq_nil hempty
    | cons item pend =>
      obtain ⟨f, staging, hd, hf, hl, hs⟩ :=
        RxCodec.decodeInbound_of_staged (A := A) buffer hstaged hsmall
      refine ⟨_, _, _, hd, Or.inl ⟨f, pend ++ itemsOf (rs.drop k), rfl, by simp [htodo, hf],
        k, pend, hk, hkey, hstate, hl, hs, rfl⟩⟩

/-- **A whole run**: what is returned is a run of the frames to come from the front, and no call
panics. -/
theorem Follows.of_run {s s' : ChaChaStream} {rs : List Record} (hA : A.IsCorrect)
    (hsends : Sends A s rs s') {actions : List RxAction} {todo : List Item} {rx : RxCodec}
    {buffer : Bytes} (h : Follows s rs todo rx)
    (hopens : ∀ c, c <:+: buffer ++ fedBytes actions → OpensInPlace A s rs c) :
    ((decodeRun A actions rx buffer).filterMap returned).map Frame.item <+: todo ∧
      .panic ∉ decodeRun A actions rx buffer := by
  induction actions generalizing todo rx buffer with
  | nil => exact ⟨List.nil_prefix, by simp [decodeRun]⟩
  | cons action actions ih =>
    cases action with
    | feed bytes => exact ih h (by simpa [fedBytes] using hopens)
    | decode =>
      obtain ⟨r, rx', rest, hr, hadv⟩ := h.decodeInbound hA hsends fun c hc ↦
        hopens c (hc.trans (List.prefix_append _ _).isInfix)
      obtain ⟨_, _, _, hr', hne, hsuffix, -⟩ := rx.decodeInbound_progress A buffer
      cases hr.symm.trans hr'
      have hopens' : ∀ c, c <:+: rest ++ fedBytes actions → OpensInPlace A s rs c := fun c hc ↦ by
        obtain ⟨pre, rfl⟩ := hsuffix
        refine hopens c (hc.trans ?_)
        rw [fedBytes, List.append_assoc]
        exact (List.suffix_append _ _).isInfix
      have hrun : decodeRun A (.decode :: actions) rx buffer
          = r :: decodeRun A actions rx' rest := by
        rw [decodeRun, hr]
      rw [hrun]
      rcases hadv with ⟨f, todo', rfl, rfl, h'⟩ | ⟨hnone, h'⟩
      · obtain ⟨hpre, hpanic⟩ := ih h' hopens'
        refine ⟨?_, by simpa using hpanic⟩
        simpa [returned] using hpre
      · obtain ⟨hpre, hpanic⟩ := ih h' hopens'
        refine ⟨?_, by simpa [Ne.symm hne] using hpanic⟩
        simpa [hnone] using hpre

/-- **Integrity of the TCP leg.** Let a fresh sending codec encode fewer than `2 ^ 64` records. Feed
the fresh receiving codec with the same key and IV any bytes in any pieces, and let it be called at
any time, also after errors. If no ciphertext in these bytes opens except as the sender's cipher
sealed it, then the frames returned are the first of those encoded, in order, and no call panics. -/
theorem tcp_integrity (A : ChaCha20Poly1305) (hmac : HmacSha256) (hA : A.IsCorrect) (key : Key)
    (iv : Nonce) (txAuth rxAuth : SessionAuth) (shaper : PadShaper) (rng : Entropy)
    (calls : List (UInt64 × EncodeCall)) (wire : Bytes) (tx' : TxCodec)
    (hencode : encodeAll A hmac calls (TxCodec.new (ChaChaStream.new key iv) txAuth shaper rng)
      = (.ok wire, tx'))
    (hrecords : tx'.crypto.log.length < 2 ^ 64) (actions : List RxAction)
    (hopens : ∀ c, c <:+: fedBytes actions → ∀ n : Nonce,
      A.OpensOnly tx'.crypto.log key n n.val c) :
    ((decodeRun A actions (RxCodec.new (ChaChaStream.new key iv) rxAuth []) []).filterMap
        returned).map Frame.item <+: calls.flatMap (·.2.items) ∧
      .panic ∉ decodeRun A actions (RxCodec.new (ChaChaStream.new key iv) rxAuth []) [] := by
  set tx := TxCodec.new (ChaChaStream.new key iv) txAuth shaper rng
  let M := maxRecordPlaintext + ((calls.flatMap (·.2.items)).map Item.wireLen).sum
  have hitems : ∀ call ∈ calls, ∀ item ∈ call.2.items, item.wireLen ≤ M :=
    fun call hcall item hitem ↦ by
      have hmem : item ∈ calls.flatMap (·.2.items) := List.mem_flatMap.mpr ⟨call, hcall, hitem⟩
      have := List.le_sum_of_mem (List.mem_map_of_mem (f := Item.wireLen) hmem)
      omega
  have hrun := encodeAll_triple (A := A) hmac (M := M) (by omega) calls hitems tx
  obtain ⟨rs, hsends, hrs, -, -⟩ := hrun.of_ok rfl hencode
  have hlt : rs.length < 2 ^ 64 := by
    have hlen := hsends.length_log
    simp [tx, TxCodec.new, ChaChaStream.new] at hlen
    omega
  have hfollows : Follows tx.crypto rs (itemsOf rs)
      (RxCodec.new (ChaChaStream.new key iv) rxAuth []) :=
    ⟨0, [], Nat.zero_le _, rfl, rfl, .nil, by simp [RxCodec.new], by simp⟩
  rw [← hrs]
  exact hfollows.of_run hA hsends fun c hc ↦
    hsends.opensInPlace rfl hlt fun n ↦ hopens c (by simpa using hc) n

/-! ### A record on its own, and the wrap of the counter -/

namespace Sample

/-- A key whose bytes occur nowhere else below. -/
def key : Key := ⟨List.replicate 32 0xaa, List.length_replicate⟩

/-- The IV, and the nonce of record 0. -/
def iv : Nonce := ByteArr.zero 12

/-- Tags with no zero byte. -/
def hmac : HmacSha256 := fun _ _ ↦ ⟨List.replicate 32 0x55, List.length_replicate⟩

/-- A shaper that never pads. -/
def shaper : PadShaper := ⟨[], .nil⟩

/-- A fresh sender. -/
def tx : TxCodec := .new (.new key iv) ⟨key⟩ shaper (Stream'.const 0)

/-- A fresh receiver. -/
def rx : RxCodec := .new (.new key iv) ⟨key⟩ []

/-- An empty frame on stream `streamId`, laid out. -/
def plain (streamId : UInt32) : Bytes :=
  frameBytes (truncateTag (hmac [] [])) streamId .close [] []

/-- What `clear` makes of it in a given state. -/
def cipher (crypto : ChaChaStream) (streamId : UInt32) : Bytes :=
  plain streamId ++ ChaCha20Poly1305.clearTag crypto.cipher crypto.currentNonce
    crypto.currentNonce.val 25

/-- The call that sends it. -/
def call (streamId : UInt32) : UInt64 × EncodeCall := (0, .frame streamId .close [])

theorem length_plain (streamId : UInt32) : (plain streamId).length = 25 := by
  simp [plain, frameHeaderSize]

theorem encrypt_plain (crypto : ChaChaStream) (streamId : UInt32) :
    ChaCha20Poly1305.clear.encrypt crypto.cipher crypto.currentNonce crypto.currentNonce.val
      (plain streamId) = some (cipher crypto streamId) := by
  rw [ChaCha20Poly1305.clear_encrypt _ _ _ (by rw [length_plain]; decide), length_plain]
  rfl

/-- One call, from any state of the sender that differs from the fresh one in its cipher only. -/
theorem run_call (crypto : ChaChaStream) (streamId : UInt32) :
    (call streamId).2.run .clear hmac (call streamId).1 { tx with crypto } =
      (.ok (TlsBridge.packAppData (cipher crypto streamId)),
        { tx with crypto := crypto.afterSealing (plain streamId) (cipher crypto streamId) }) := by
  have hflush : (call streamId).2.run .clear hmac (call streamId).1 { tx with crypto }
      = TxCodec.flushRecord .clear (truncateTag (hmac [] [])) [⟨streamId, .close, []⟩] 0
        { tx with crypto } := rfl
  have hput : TxCodec.putFrames (truncateTag (hmac [] [])) 0 [⟨streamId, .close, []⟩]
      (Stream'.const 0) = (plain streamId, Stream'.const 0) := by
    simp [TxCodec.putFrames, Frame.intoBytes_new, plain]
  rw [hflush, TxCodec.flushRecord, if_neg (by simp)]
  simp only [tx, TxCodec.new, hput, ChaChaStream.encrypt_of_some _ (encrypt_plain crypto streamId)]

/-- Many calls move the counter on by their number. -/
theorem run_calls (streamId : UInt32) (n : ℕ) (crypto : ChaChaStream) :
    ∃ out crypto', encodeAll .clear hmac (List.replicate n (call streamId)) { tx with crypto }
        = (.ok out, { tx with crypto := crypto' }) ∧ crypto'.cipher = crypto.cipher ∧
      crypto'.state = ⟨crypto.state.counter + UInt64.ofNat n, crypto.state.baseIv⟩ := by
  induction n generalizing crypto with
  | zero => exact ⟨[], crypto, rfl, rfl, by simp⟩
  | succ n ih =>
    obtain ⟨out, crypto', hrest, hkey, hstate⟩ :=
      ih (crypto.afterSealing (plain streamId) (cipher crypto streamId))
    refine ⟨TlsBridge.packAppData (cipher crypto streamId) ++ out, crypto', ?_, hkey,
      hstate.trans ?_⟩
    · rw [List.replicate_succ, encodeAll]
      exact (Exec.bind_ok (run_call crypto streamId)).trans (Exec.bind_ok hrest)
    · simp only [ChaChaStream.afterSealing, UInt64.ofNat_add, UInt64.add_assoc]
      congr 2
      exact UInt64.add_comm _ _

/-- The first record of a stream, carrying an empty frame of stream 9. -/
def record : Bytes := TlsBridge.packAppData (cipher (.new key iv) 9)

/-- Of all slices of that record, only its ciphertext looks sealed. -/
theorem eq_of_looksSealed {c : Bytes} (hc : c <:+: record)
    (h : ChaCha20Poly1305.looksSealed key c = true) : c = cipher (.new key iv) 9 := by
  have hall : ∀ t ∈ record.tails, ∀ c ∈ t.inits,
      ChaCha20Poly1305.looksSealed key c = true → c = cipher (.new key iv) 9 := by decide +kernel
  obtain ⟨t, hct, ht⟩ := List.infix_iff_prefix_suffix.mp hc
  exact hall t ((List.mem_tails _ _).mpr ht) c ((List.mem_inits _ _).mpr hct) h

/-- With the record's encryption in the log, its slices open only as the log says. -/
theorem opensOnly {log : List (Sealing Key Nonce)}
    (hlog : ⟨key, iv, iv.val, plain 9, cipher (.new key iv) 9⟩ ∈ log) {c : Bytes}
    (hc : c <:+: record) (n : Nonce) : ChaCha20Poly1305.clear.OpensOnly log key n n.val c := by
  intro p hp
  obtain rfl := eq_of_looksSealed hc (ChaCha20Poly1305.looksSealed_of_clear_decrypt hp)
  have hsplit := ChaCha20Poly1305.eq_of_clear_decrypt hp
  have hlen : p.length = (plain 9).length := by
    have := congrArg List.length hsplit
    simpa [cipher] using this.symm
  obtain ⟨rfl, htag⟩ := List.append_inj hsplit hlen.symm
  obtain ⟨hn, -⟩ := List.append_inj htag (by simp)
  have hiv : (ChaChaStream.new key iv).currentNonce = iv := by decide
  obtain rfl : iv = n := Subtype.ext (hiv ▸ hn)
  exact hlog

/-- Calls in two groups. -/
theorem encodeAll_append (calls calls' : List (UInt64 × EncodeCall)) (A : ChaCha20Poly1305)
    (hmac : HmacSha256) {tx tx' tx'' : TxCodec} {out out' : Bytes}
    (h : encodeAll A hmac calls tx = (.ok out, tx'))
    (h' : encodeAll A hmac calls' tx' = (.ok out', tx'')) :
    encodeAll A hmac (calls ++ calls') tx = (.ok (out ++ out'), tx'') := by
  induction calls generalizing tx out with
  | nil => cases h; exact h'
  | cons call calls ih =>
    obtain ⟨first, tx₁, hfirst, hrest⟩ := Exec.bind_eq_ok h
    obtain ⟨more, tx₂, hmore, hout⟩ := Exec.bind_eq_ok hrest
    cases hout
    rw [List.cons_append, encodeAll, List.append_assoc]
    exact (Exec.bind_ok hfirst).trans (Exec.bind_ok (ih hmore))

/-- **After the counter has wrapped** the sender's next record is the first record of a stream
again, and is in the log. -/
theorem exists_wrapped_run {n : ℕ} (hn : UInt64.ofNat n = 0) :
    ∃ wire tx', encodeAll .clear hmac (List.replicate n (call 7) ++ [call 9]) tx
        = (.ok wire, tx') ∧
      ⟨key, iv, iv.val, plain 9, cipher (.new key iv) 9⟩ ∈ tx'.crypto.log := by
  obtain ⟨out, crypto, hmany, hkey, hstate⟩ := run_calls 7 n (.new key iv)
  have hstate' : crypto.state = (ChaChaStream.new key iv).state := by
    rw [hstate, hn]
    rfl
  have hnonce : crypto.currentNonce = iv := by
    rw [ChaChaStream.currentNonce, hstate']
    decide
  have hcipher : cipher crypto 9 = cipher (.new key iv) 9 := by
    rw [cipher, cipher, hkey, ChaChaStream.currentNonce, hstate', ← ChaChaStream.currentNonce]
  have hlast := (Exec.bind_ok (f := fun out ↦ do
    let more ← encodeAll .clear hmac []
    pure (out ++ more)) (run_call crypto 9))
  refine ⟨_, _, encodeAll_append _ _ _ _ hmany hlast, ?_⟩
  simp only [ChaChaStream.afterSealing, hnonce, hkey, hcipher, ChaChaStream.new]
  exact List.mem_append_right _ List.mem_cons_self

/-- A fresh receiver that is fed the record returns its frame. -/
theorem returned_of_feed :
    ((decodeRun .clear [.feed record, .decode] rx []).filterMap returned).map Frame.item
      = [⟨9, .close, []⟩] := by
  have hlen : (cipher (.new key iv) 9).length = 41 := by decide
  have hunpack := TlsBridge.unpackAppData_packAppData (c := cipher (.new key iv) 9)
    (by rw [hlen]; decide) (by rw [hlen]; decide) []
  have hlaid : Laid [⟨9, .close, []⟩] (plain 9) := by
    simpa [plain] using Laid.cons (truncateTag (hmac [] [])) ⟨9, .close, []⟩
      (show ([] : Bytes).length < 2 ^ 16 by decide) .nil
  obtain ⟨f, staging, hd, hf, -⟩ := RxCodec.decodeRecords_of_laid
    (show rx.staging = [] from rfl) hunpack
    (ChaCha20Poly1305.clear_isCorrect.decrypt_encrypt (encrypt_plain (.new key iv) 9)) hlaid
    (by rw [length_plain]; decide)
  rw [List.append_nil] at hd
  have hrun : decodeRun .clear [.feed record, .decode] rx [] = [.ok (some f)] := by
    rw [decodeRun, decodeRun, List.nil_append, RxCodec.decodeInbound_of_empty _ rfl]
    show (rx.decodeRecords _ (TlsBridge.packAppData _)).1 :: [] = _
    rw [hd]
  simp [hrun, returned, hf]

/-- Two calls that have something to carry. -/
def calls : List (UInt64 × EncodeCall) := [(0, .frame 9 .data [1, 2, 3]), (0, .frame 7 .data [4])]

/-- What they come to, and what is left of the sender. -/
def sent : Outcome TlsError Bytes × TxCodec := encodeAll .clear hmac calls tx

def wire : Bytes :=
  match sent.1 with
  | .ok wire => wire
  | _ => []

/-- The first record arrives in two pieces, and then again. The second arrives with its last byte
changed, and then as it was sent. -/
def disturbed : List RxAction :=
  let first := wire.take 49
  let second := wire.drop 49
  [.feed (first.take 10), .decode, .feed (first.drop 10), .decode, .feed first, .decode,
    .feed (second.set 46 255), .decode, .feed second, .decode]

theorem evaluates :
    sent.1 = .ok wire ∧ sent.2.crypto.log.length < 2 ^ 64 ∧
      ChaCha20Poly1305.LooksOnlySealed key sent.2.crypto.log (fedBytes disturbed) ∧
      (decodeRun .clear disturbed rx []).map (fun r ↦ (returned r).map Frame.item)
        = [none, some ⟨9, .data, [1, 2, 3]⟩, none, none, some ⟨7, .data, [4]⟩] := by
  decide +kernel

end Sample

/-- A record that was replayed and one that was changed do no harm: what is returned is the
beginning of what was sent, and in the end all of it. -/
theorem tcp_integrity_disturbed :
    let results := decodeRun .clear Sample.disturbed Sample.rx []
    (results.filterMap returned).map Frame.item <+: [⟨9, .data, [1, 2, 3]⟩, ⟨7, .data, [4]⟩] ∧
      .panic ∉ results ∧
      results.map (fun r ↦ (returned r).map Frame.item)
        = [none, some ⟨9, .data, [1, 2, 3]⟩, none, none, some ⟨7, .data, [4]⟩] := by
  obtain ⟨hok, hfew, hsealed, hresults⟩ := Sample.evaluates
  obtain ⟨hbegins, hpanic⟩ := tcp_integrity .clear Sample.hmac ChaCha20Poly1305.clear_isCorrect
    Sample.key Sample.iv ⟨Sample.key⟩ ⟨Sample.key⟩ Sample.shaper (Stream'.const 0) Sample.calls
    Sample.wire Sample.sent.2 (Prod.ext hok rfl) hfew Sample.disturbed
    fun c hc n ↦ hsealed.opensOnly hc n
  exact ⟨hbegins, hpanic, hresults⟩

/-- **Without the bound on records integrity fails.** After `2 ^ 64` records the sender's nonces
start over. The record it sends then is a valid first record: a fresh receiver that is given it
alone returns its frame, which is not the first frame sent. -/
theorem tcp_integrity_fails_after_wrap :
    ∃ wire tx', encodeAll .clear Sample.hmac
        (List.replicate (2 ^ 64) (Sample.call 7) ++ [Sample.call 9]) Sample.tx = (.ok wire, tx') ∧
      ChaCha20Poly1305.clear.IsCorrect ∧
      (∀ c, c <:+: fedBytes [.feed Sample.record, .decode] → ∀ n : Nonce,
        ChaCha20Poly1305.clear.OpensOnly tx'.crypto.log Sample.key n n.val c) ∧
      ¬((decodeRun .clear [.feed Sample.record, .decode] Sample.rx []).filterMap
          returned).map Frame.item <+:
        (List.replicate (2 ^ 64) (Sample.call 7) ++ [Sample.call 9]).flatMap (·.2.items) := by
  have hfirst : ∀ n, 0 < n → ¬[(⟨9, .close, []⟩ : Item)] <+:
      (List.replicate n (Sample.call 7) ++ [Sample.call 9]).flatMap (·.2.items) := by
    intro n hn
    obtain ⟨m, rfl⟩ := Nat.exists_eq_add_of_lt hn
    rw [Nat.zero_add, List.replicate_succ, List.cons_append, List.flatMap_cons]
    simp [Sample.call, EncodeCall.items]
  obtain ⟨wire, tx', hrun, hlog⟩ := Sample.exists_wrapped_run (n := 2 ^ 64) (by decide)
  refine ⟨wire, tx', hrun, ChaCha20Poly1305.clear_isCorrect, fun c hc n ↦
    Sample.opensOnly hlog (by simpa [fedBytes] using hc) n, ?_⟩
  rw [Sample.returned_of_feed]
  exact hfirst (2 ^ 64) (by decide)
