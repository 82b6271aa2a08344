import Nrxp.Bridge.Contract
import Nrxp.Codec.Integrity

/-!
# Records of others on the wire

What becomes of the stream when somebody puts whole TLS records of their own between those of the
sender: alerts, handshake records, application data that does not open, replays. Each costs the
receiver one error, which moves neither its counter nor what it has staged, so a caller that goes on
after errors misses no frame.

The wire is described as a list of segments, the sender's and the others'. `Flows` ties such a list
to the state of the receiver, and to the state of the sender's cipher, so that the description can
also be extended while the sender goes on. Without foreign segments it describes an undisturbed
channel.
-/

variable {A : ChaCha20Poly1305}

/-! ### Segments -/

/-- A whole record that the receiver, about to use nonce `n`, will refuse: it is not application
data, or it does not open. -/
def Foreign (A : ChaCha20Poly1305) (key : Key) (n : Nonce) (bytes : Bytes) : Prop :=
  ∃ c v payload, TlsRecord.parse bytes = (.ok (some (TlsRecord.new c v payload)), []) ∧
    (c = .applicationData → A.decrypt key n n.val payload = none)

/-- A part of the wire. -/
inductive Segment where
  /-- A record of the sender. -/
  | own (r : Record)
  /-- A record of someone else. -/
  | foreign (bytes : Bytes)

namespace Segment

/-- The bytes on the wire. -/
def bytes : Segment → Bytes
  | own r => TlsBridge.packAppData r.cipher
  | foreign bytes => bytes

/-- The frames it carries. -/
def items : Segment → List Item
  | own r => r.items
  | foreign _ => []

def isForeign : Segment → Bool
  | own _ => false
  | foreign _ => true

end Segment

/-- The frames of segments, in order. -/
def framesOf (segments : List Segment) : List Item := segments.flatMap Segment.items

/-- The cipher of the sender goes from one state to another over these segments: it seals its own,
and the others are refused where they stand. -/
inductive Travels (A : ChaCha20Poly1305) : ChaChaStream → List Segment → ChaChaStream → Prop
  | nil (s : ChaChaStream) : Travels A s [] s
  | own {s s' : ChaChaStream} {r : Record} {segments : List Segment} (hne : r.items ≠ [])
      (hlaid : Laid r.items r.plain)
      (henc : A.encrypt s.cipher s.currentNonce s.currentNonce.val r.plain = some r.cipher)
      (hfits : r.plain.length + aeadTagLen < 2 ^ 16)
      (rest : Travels A (s.afterSealing r.plain r.cipher) segments s') :
      Travels A s (.own r :: segments) s'
  | foreign {s s' : ChaChaStream} {bytes : Bytes} {segments : List Segment}
      (h : Foreign A s.cipher s.currentNonce bytes) (rest : Travels A s segments s') :
      Travels A s (.foreign bytes :: segments) s'

theorem Travels.append {s s' s'' : ChaChaStream} {segments segments' : List Segment}
    (h : Travels A s segments s') (h' : Travels A s' segments' s'') :
    Travels A s (segments ++ segments') s'' := by
  induction h with
  | nil s => exact h'
  | own hne hlaid henc hfits _ ih => exact .own hne hlaid henc hfits (ih h')
  | foreign hforeign _ ih => exact .foreign hforeign (ih h')

/-- The records of the sender alone. -/
theorem Sends.travels {s s' : ChaChaStream} {rs : List Record} (h : Sends A s rs s')
    (hfits : ∀ r ∈ rs, r.plain.length + aeadTagLen < 2 ^ 16) :
    Travels A s (rs.map .own) s' := by
  induction h with
  | nil s => exact .nil s
  | @cons _ _ r _ hne hlaid henc _ ih =>
    exact .own hne hlaid henc (hfits r List.mem_cons_self)
      (ih fun r' hr' ↦ hfits r' (List.mem_cons_of_mem _ hr'))

@[simp] theorem framesOf_append (segments segments' : List Segment) :
    framesOf (segments ++ segments') = framesOf segments ++ framesOf segments' :=
  List.flatMap_append

theorem framesOf_map_own (rs : List Record) : framesOf (rs.map .own) = itemsOf rs := by
  rw [framesOf, List.flatMap_map]
  rfl

theorem bytes_map_own (rs : List Record) :
    (rs.map Segment.own).flatMap Segment.bytes = wireOf rs := by
  rw [List.flatMap_map]
  rfl

/-! ### One call -/

/-- A foreign record is unpacked to something that does not open, or refused. -/
theorem Foreign.unpackAppData {key : Key} {n : Nonce} {bytes : Bytes} (h : Foreign A key n bytes) :
    (∃ e, TlsBridge.unpackAppData bytes = (.err e, [])) ∨
      ∃ payload, TlsBridge.unpackAppData bytes = (.ok (some ⟨payload.length, payload⟩), []) ∧
        A.decrypt key n n.val payload = none := by
  obtain ⟨c, v, payload, hparse, hdec⟩ := h
  have hrun : TlsBridge.unpackAppData bytes
      = (TlsBridge.handleAppData (TlsRecord.new c v payload), []) := Exec.bind_ok hparse
  rw [hrun]
  by_cases hc : c = .applicationData
  · subst hc
    exact Or.inr ⟨payload, rfl, hdec rfl⟩
  · exact Or.inl ⟨_, congrArg (·, []) (if_pos hc)⟩

/-- What is still to come: the frames `pend` of the staging area, then the segments on the wire, of
which the receiver has a part in its buffer. The cipher of the sender has come to `tx`. -/
structure Flows (A : ChaCha20Poly1305) (pend : List Item) (segments : List Segment)
    (tx : ChaChaStream) (rx : RxCodec) (buffer unread : Bytes) : Prop where
  travels : ∃ s, Travels A s segments tx ∧ rx.crypto.Matches s
  staged : Laid pend rx.staging
  small : rx.staging.length < 2 ^ 16
  wire : buffer ++ unread = segments.flatMap Segment.bytes

namespace Flows

variable {pend : List Item} {segments : List Segment} {tx tx' : ChaChaStream} {rx : RxCodec}
  {buffer unread : Bytes}

/-- What one call can do to what is still to come: return its first frame; or fail over a foreign
record, and take it off; or find that the next segment has not arrived in full. -/
inductive Call (A : ChaCha20Poly1305) (pend : List Item) (segments : List Segment)
    (tx : ChaChaStream) (rx : RxCodec) (buffer unread : Bytes) : Prop
  | returned (f : Frame) (rx' : RxCodec) (buffer' : Bytes) (pend' : List Item)
      (segments' : List Segment)
      (hrun : rx.decodeInbound A buffer = (.ok (some f), rx', buffer'))
      (htodo : pend ++ framesOf segments = f.item :: (pend' ++ framesOf segments'))
      (hcount : segments.countP Segment.isForeign = segments'.countP Segment.isForeign)
      (h : Flows A pend' segments' tx rx' buffer' unread)
  | failed (e : TlsError) (rx' : RxCodec) (buffer' bytes : Bytes) (segments' : List Segment)
      (hrun : rx.decodeInbound A buffer = (.err e, rx', buffer')) (hpend : pend = [])
      (hsegments : segments = .foreign bytes :: segments')
      (h : Flows A [] segments' tx rx' buffer' unread)
  | waited (hrun : rx.decodeInbound A buffer = (.ok none, rx, buffer)) (hpend : pend = [])
      (hshort : ∀ segment ∈ segments.head?, buffer.length < segment.bytes.length)

/-- **One call.** -/
theorem decodeInbound (hA : A.IsCorrect) (h : Flows A pend segments tx rx buffer unread) :
    Call A pend segments tx rx buffer unread := by
  obtain ⟨⟨s, htravels, hmatch⟩, hstaged, hsmall, hwire⟩ := h
  cases pend with
  | cons item pend =>
    obtain ⟨f, staging, hd, hf, hl, hs⟩ :=
      RxCodec.decodeInbound_of_staged (A := A) buffer hstaged hsmall
    exact .returned f _ buffer pend segments hd (by rw [hf]; rfl) rfl
      ⟨⟨s, htravels, hmatch⟩, hl, hs, hwire⟩
  | nil =>
    have hempty := hstaged.eq_nil
    have hdecode := RxCodec.decodeInbound_of_empty (A := A) buffer hempty
    cases htravels with
    | nil =>
      obtain ⟨rfl, -⟩ := List.append_eq_nil_iff.mp hwire
      exact .waited (hdecode.trans
        (RxCodec.decodeRecords_of_none A (TlsBridge.unpackAppData_of_short (by simp)))) rfl
        (by simp)
    | @own _ _ r segments hne hlaid henc hfits hrest =>
      have hcipher : r.cipher.length = r.plain.length + aeadTagLen := hA.length_encrypt henc
      obtain ⟨item, items, hitems⟩ := List.exists_cons_of_ne_nil hne
      rw [hitems] at hlaid
      have hmin := hlaid.length_le.1
      have htag : aeadTagLen = 16 := rfl
      have hheader : frameHeaderSize = 25 := rfl
      have hwhole := TlsBridge.unpackAppData_packAppData (c := r.cipher) (by omega) (by omega) []
      rw [List.append_nil] at hwhole
      rw [List.flatMap_cons] at hwire
      rcases TlsBridge.unpackAppData_incremental.arrived hwhole (by simp) hwire with
        ⟨rest, rfl, hunread, -⟩ | ⟨hshort, hwait⟩
      · obtain ⟨f, staging, hd, hf, hl, hs⟩ :=
          RxCodec.decodeRecords_of_arrived hA hmatch hempty henc hlaid hfits rest
        exact .returned f _ rest items segments (hdecode.trans hd)
          (by simp [framesOf, Segment.items, hitems, hf]) (List.countP_cons_of_neg (by simp
            [Segment.isForeign])) ⟨⟨_, hrest, hmatch.afterOpening _ _⟩, hl, hs, hunread⟩
      · exact .waited (hdecode.trans (RxCodec.decodeRecords_of_none A hwait)) rfl
          (by rintro _ ⟨⟩; exact hshort)
    | @foreign _ _ bytes segments hforeign hrest =>
      rw [List.flatMap_cons] at hwire
      rcases hforeign.unpackAppData with ⟨e, hwhole⟩ | ⟨payload, hwhole, hdec⟩
      · rcases TlsBridge.unpackAppData_incremental.arrived hwhole (by simp) hwire with
          ⟨rest, rfl, hunread, hrun⟩ | ⟨hshort, hwait⟩
        · exact .failed e rx rest bytes segments
            (hdecode.trans (RxCodec.decodeRecords_of_err A hrun)) rfl rfl
            ⟨⟨s, hrest, hmatch⟩, hstaged, hsmall, hunread⟩
        · exact .waited (hdecode.trans (RxCodec.decodeRecords_of_none A hwait)) rfl
            (by rintro _ ⟨⟩; exact hshort)
      · rcases TlsBridge.unpackAppData_incremental.arrived hwhole (by simp) hwire with
          ⟨rest, rfl, hunread, hrun⟩ | ⟨hshort, hwait⟩
        · rw [← hmatch.1, ← hmatch.currentNonce] at hdec
          exact .failed _ _ rest bytes segments
            (hdecode.trans (RxCodec.decodeRecords_of_forged A hrun hdec)) rfl rfl
            ⟨⟨s, hrest, hmatch⟩, .nil, by simp, hunread⟩
        · exact .waited (hdecode.trans (RxCodec.decodeRecords_of_none A hwait)) rfl
            (by rintro _ ⟨⟩; exact hshort)

/-- More bytes are read. -/
theorem read {read : Bytes} (h : Flows A pend segments tx rx buffer (read ++ unread)) :
    Flows A pend segments tx rx (buffer ++ read) unread :=
  { h with wire := by rw [List.append_assoc]; exact h.wire }

/-- The sender goes on. -/
theorem send {segments' : List Segment} (h : Flows A pend segments tx rx buffer unread)
    (hmore : Travels A tx segments' tx') :
    Flows A pend (segments ++ segments') tx' rx buffer
      (unread ++ segments'.flatMap Segment.bytes) :=
  { h with
    travels := by
      obtain ⟨s, htravels, hmatch⟩ := h.travels
      exact ⟨s, htravels.append hmore, hmatch⟩
    wire := by rw [← List.append_assoc, h.wire, List.flatMap_append] }

/-- With everything read, a buffer that is short of the next segment is the end. -/
theorem eq_nil_of_short (h : Flows A [] segments tx rx buffer [])
    (hshort : ∀ segment ∈ segments.head?, buffer.length < segment.bytes.length) :
    segments = [] ∧ buffer = [] := by
  have hwire : buffer = segments.flatMap Segment.bytes := by simpa using h.wire
  rcases segments with - | ⟨segment, segments⟩
  · exact ⟨rfl, hwire⟩
  · have hlt := hshort segment rfl
    rw [hwire, List.flatMap_cons, List.length_append] at hlt
    omega

end Flows

/-! ### A whole run -/

/-- Whether a call failed. -/
def failed : Outcome TlsError (Option Frame) → Bool
  | .err _ => true
  | _ => false

theorem decodeRun_decode {actions : List RxAction} {rx rx' : RxCodec} {buffer buffer' : Bytes}
    {r : Outcome TlsError (Option Frame)} (h : rx.decodeInbound A buffer = (r, rx', buffer')) :
    decodeRun A (.decode :: actions) rx buffer = r :: decodeRun A actions rx' buffer' := by
  rw [decodeRun, h]

/-- **A run of the receiver**, with the state it ends in: what was returned and what is still to
come are what was to come, and every failure took a foreign record off. -/
theorem Flows.of_run (hA : A.IsCorrect) {actions : List RxAction} {pend : List Item}
    {segments : List Segment} {tx : ChaChaStream} {rx : RxCodec} {buffer later : Bytes}
    (h : Flows A pend segments tx rx buffer (fedBytes actions ++ later)) :
    ∃ pend' segments' rx' buffer',
      (∀ more, decodeRun A (actions ++ more) rx buffer
        = decodeRun A actions rx buffer ++ decodeRun A more rx' buffer') ∧
      Flows A pend' segments' tx rx' buffer' later ∧
      pend ++ framesOf segments
        = ((decodeRun A actions rx buffer).filterMap returned).map Frame.item
          ++ (pend' ++ framesOf segments') ∧
      segments.countP Segment.isForeign
        = (decodeRun A actions rx buffer).countP failed + segments'.countP Segment.isForeign ∧
      .panic ∉ decodeRun A actions rx buffer := by
  induction actions generalizing pend segments rx buffer with
  | nil => exact ⟨pend, segments, rx, buffer, fun _ ↦ rfl, h, rfl, by simp [decodeRun],
      by simp [decodeRun]⟩
  | cons action actions ih =>
    cases action with
    | feed bytes =>
      rw [fedBytes, List.append_assoc] at h
      exact ih h.read
    | decode =>
      rcases h.decodeInbound hA with ⟨f, rx₁, buffer₁, pend₁, segments₁, hrun, htodo, hcount, h₁⟩ |
        ⟨e, rx₁, buffer₁, bytes, segments₁, hrun, rfl, rfl, h₁⟩ | ⟨hrun, rfl, -⟩
      · obtain ⟨pend', segments', rx', buffer', happ, h', htodo', hcount', hpanic⟩ := ih h₁
        rw [decodeRun_decode hrun]
        refine ⟨pend', segments', rx', buffer', fun more ↦ ?_, h', ?_, ?_, ?_⟩
        · rw [List.cons_append, decodeRun_decode hrun, happ, List.cons_append]
        · rw [List.filterMap_cons_some (show returned (.ok (some f)) = some f from rfl), htodo,
            htodo']
          rfl
        · rw [List.countP_cons_of_neg (by simp [failed]), hcount, hcount']
        · simpa using hpanic
      · obtain ⟨pend', segments', rx', buffer', happ, h', htodo', hcount', hpanic⟩ := ih h₁
        rw [decodeRun_decode hrun]
        refine ⟨pend', segments', rx', buffer', fun more ↦ ?_, h', ?_, ?_, ?_⟩
        · rw [List.cons_append, decodeRun_decode hrun, happ, List.cons_append]
        · rw [List.filterMap_cons_none (show returned (.err e) = none from rfl), ← htodo']
          rfl
        · rw [List.countP_cons_of_pos (by rfl), List.countP_cons_of_pos (by rfl), hcount']
          omega
        · simpa using hpanic
      · obtain ⟨pend', segments', rx', buffer', happ, h', htodo', hcount', hpanic⟩ := ih h
        rw [decodeRun_decode hrun]
        refine ⟨pend', segments', rx', buffer', fun more ↦ ?_, h', ?_, ?_, ?_⟩
        · rw [List.cons_append, decodeRun_decode hrun, happ, List.cons_append]
        · rwa [List.filterMap_cons_none (show returned (.ok none) = none from rfl)]
        · rwa [List.countP_cons_of_neg (by simp [failed])]
        · simpa using hpanic

/-! ### Records of others between the sender's -/

/-- The segments with the records `gap i` of others before record `i`, counting from `k`. -/
def inject (gap : ℕ → List Bytes) : ℕ → List Record → List Segment
  | k, [] => (gap k).map .foreign
  | k, r :: rs => (gap k).map .foreign ++ .own r :: inject gap (k + 1) rs

/-- The bytes with the records `gap i` of others before ciphertext `i`. -/
def injectedBytes (gap : ℕ → List Bytes) : ℕ → List Bytes → Bytes
  | k, [] => (gap k).flatten
  | k, c :: cs => (gap k).flatten ++ (TlsBridge.packAppData c ++ injectedBytes gap (k + 1) cs)

theorem bytes_inject (gap : ℕ → List Bytes) (k : ℕ) (rs : List Record) :
    (inject gap k rs).flatMap Segment.bytes = injectedBytes gap k (rs.map Record.cipher) := by
  have hgap (k : ℕ) : ((gap k).map Segment.foreign).flatMap Segment.bytes = (gap k).flatten := by
    rw [List.flatMap_map]
    exact List.flatMap_id
  induction rs generalizing k with
  | nil => exact hgap k
  | cons r rs ih =>
    rw [inject, List.flatMap_append, hgap, List.flatMap_cons, ih]
    rfl

theorem framesOf_inject (gap : ℕ → List Bytes) (k : ℕ) (rs : List Record) :
    framesOf (inject gap k rs) = itemsOf rs := by
  have hgap (k : ℕ) : framesOf ((gap k).map Segment.foreign) = [] := by
    simp [framesOf, Segment.items, List.flatMap_map]
  induction rs generalizing k with
  | nil => exact hgap k
  | cons r rs ih =>
    rw [inject, framesOf_append, hgap, List.nil_append, framesOf, List.flatMap_cons, ← framesOf, ih]
    rfl

/-- The foreign records of an injection: those of every gap, also the one at the end. -/
theorem countP_inject (gap : ℕ → List Bytes) (k : ℕ) (rs : List Record) :
    (inject gap k rs).countP Segment.isForeign
      = ((List.range' k (rs.length + 1)).map fun i ↦ (gap i).length).sum := by
  have hgap (k : ℕ) : ((gap k).map Segment.foreign).countP Segment.isForeign = (gap k).length := by
    rw [List.countP_map]
    exact List.countP_eq_length.mpr fun _ _ ↦ rfl
  induction rs generalizing k with
  | nil => simp [inject, hgap]
  | cons r rs ih =>
    have hown : Segment.isForeign (.own r) = false := rfl
    rw [inject, List.countP_append, hgap, List.countP_cons, ih, hown, List.length_cons,
      List.range'_succ (s := k)]
    simp

/-- Records of others that are refused where they stand travel with the sender's. -/
theorem Sends.travels_inject {s s' : ChaChaStream} {rs : List Record} (h : Sends A s rs s')
    (hfits : ∀ r ∈ rs, r.plain.length + aeadTagLen < 2 ^ 16) {gap : ℕ → List Bytes} {key : Key}
    {iv : Nonce}
    (hforeign : ∀ i, ∀ bytes ∈ gap i, Foreign A key (nonceAt iv (UInt64.ofNat i)) bytes) {k : ℕ}
    (hkey : s.cipher = key) (hstate : s.state = ⟨UInt64.ofNat k, iv⟩) :
    Travels A s (inject gap k rs) s' := by
  have hgap {s : ChaChaStream} {k : ℕ} (hkey : s.cipher = key)
      (hstate : s.state = ⟨UInt64.ofNat k, iv⟩) : Travels A s ((gap k).map .foreign) s := by
    have hnonce : s.currentNonce = nonceAt iv (UInt64.ofNat k) := by
      rw [ChaChaStream.currentNonce, hstate]
    have hall : ∀ bytes ∈ gap k, Foreign A s.cipher s.currentNonce bytes := by
      rw [hkey, hnonce]
      exact hforeign k
    generalize gap k = more at hall
    induction more with
    | nil => exact .nil s
    | cons bytes more ih =>
      exact .foreign (hall bytes List.mem_cons_self) (ih fun b hb ↦
        hall b (List.mem_cons_of_mem _ hb))
  induction h generalizing k with
  | nil s => exact hgap hkey hstate
  | @cons s _ r _ hne hlaid henc _ ih =>
    refine (hgap hkey hstate).append (.own hne hlaid henc (hfits r List.mem_cons_self)
      (ih (fun r' hr' ↦ hfits r' (List.mem_cons_of_mem _ hr')) hkey ?_))
    rw [ChaChaStream.afterSealing, hstate, UInt64.ofNat_add]
    rfl

/-- **Records put between the sender's cost an error each, and nothing else.** A fresh sending codec
serves calls with payloads of at most `maxSentPayload` bytes. Somebody puts whole TLS records of
known versions anywhere between its records: not application data, or application data that does
not open at the place where it stands. The bytes arrive in any pieces, and the caller calls at any
time and goes on after errors. Then the frames returned are the first of those submitted, in order;
no more calls fail than records were put in; and once a call finds nothing more, every frame was
returned and exactly as many calls failed as records were put in. -/
theorem injected_records (A : ChaCha20Poly1305) (hmac : HmacSha256) (hA : A.IsCorrect) (key : Key)
    (iv : Nonce) (txAuth rxAuth : SessionAuth) (shaper : PadShaper) (rng : Entropy)
    (calls : List (UInt64 × EncodeCall)) (wire : Bytes) (tx' : TxCodec)
    (hencode : encodeAll A hmac calls (TxCodec.new (ChaChaStream.new key iv) txAuth shaper rng)
      = (.ok wire, tx'))
    (hpayload : ∀ call ∈ calls, ∀ item ∈ call.2.items, item.payload.length ≤ maxSentPayload)
    (gap : ℕ → List Bytes)
    (hforeign : ∀ i, ∀ bytes ∈ gap i, Foreign A key (nonceAt iv (UInt64.ofNat i)) bytes)
    (actions : List RxAction)
    (hfed : fedBytes actions = injectedBytes gap 0 (tx'.crypto.log.map Sealing.cipher)) :
    let results := decodeRun A actions (RxCodec.new (ChaChaStream.new key iv) rxAuth []) []
    let put := ((List.range (tx'.crypto.log.length + 1)).map fun i ↦ (gap i).length).sum
    (results.filterMap returned).map Frame.item <+: calls.flatMap (·.2.items) ∧
      results.countP failed ≤ put ∧ .panic ∉ results ∧
      ((decodeRun A (actions ++ [.decode])
          (RxCodec.new (ChaChaStream.new key iv) rxAuth []) []).getLast? = some (.ok none) →
        (results.filterMap returned).map Frame.item = calls.flatMap (·.2.items) ∧
          results.countP failed = put) := by
  intro results put
  set tx := TxCodec.new (ChaChaStream.new key iv) txAuth shaper rng
  let M := frameHeaderSize + maxSentPayload
  have hM : M = 65519 := rfl
  have hitems : ∀ call ∈ calls, ∀ item ∈ call.2.items, item.wireLen ≤ M :=
    fun call hcall item hitem ↦ by
      have := hpayload call hcall item hitem
      simp only [Item.wireLen, Frame.wireLen, M, UInt16.toNat_zero]
      omega
  obtain ⟨rs, hsends, hrs, -, hlen⟩ :=
    (encodeAll_triple (A := A) hmac (M := M) (by decide) calls hitems tx).of_ok rfl hencode
  have hfits : ∀ r ∈ rs, r.plain.length + aeadTagLen < 2 ^ 16 := fun r hr ↦ by
    have := hlen r hr
    simp only [aeadTagLen]
    omega
  have hlog : tx'.crypto.log = sealings key iv 0 rs := hsends.log_eq
  have hput : put = (inject gap 0 rs).countP Segment.isForeign := by
    rw [countP_inject, ← List.range_eq_range']
    show ((List.range (tx'.crypto.log.length + 1)).map fun i ↦ (gap i).length).sum = _
    rw [hlog, length_sealings]
  have hflows : Flows A [] (inject gap 0 rs) tx'.crypto
      (RxCodec.new (ChaChaStream.new key iv) rxAuth []) [] (fedBytes actions ++ []) :=
    { travels := ⟨_, hsends.travels_inject hfits hforeign rfl rfl, rfl, rfl⟩
      staged := .nil
      small := by simp [RxCodec.new]
      wire := by
        rw [List.nil_append, List.append_nil, hfed, hlog, map_cipher_sealings, bytes_inject] }
  obtain ⟨pend, segments, rx, buffer, happ, hend, htodo, hcount, hpanic⟩ := hflows.of_run hA
  rw [List.nil_append, framesOf_inject, hrs] at htodo
  rw [← hput] at hcount
  refine ⟨⟨_, htodo.symm⟩, hcount ▸ Nat.le_add_right _ _, hpanic, fun hlast ↦ ?_⟩
  -- the last call finds nothing, so nothing is left
  rw [happ] at hlast
  have hcall := hend.decodeInbound hA
  rcases hcall with ⟨f, rx₁, buffer₁, _, _, hrun, -⟩ | ⟨e, rx₁, buffer₁, _, _, hrun, -⟩ |
    ⟨hrun, rfl, hshort⟩
  · rw [decodeRun_decode hrun] at hlast
    simp [decodeRun] at hlast
  · rw [decodeRun_decode hrun] at hlast
    simp [decodeRun] at hlast
  · obtain ⟨rfl, -⟩ := hend.eq_nil_of_short hshort
    rw [List.nil_append, framesOf, List.flatMap_nil, List.append_nil] at htodo
    exact ⟨htodo.symm, by simpa using hcount.symm⟩

namespace Sample

/-- A closing alert before the first record, and that record once more behind it. -/
def gap (i : ℕ) : List Bytes :=
  if i = 0 then [[0x15, 0x03, 0x03, 0x00, 0x02, 0x01, 0x00]] else if i = 1 then [record] else []

theorem foreign_gap (i : ℕ) :
    ∀ bytes ∈ gap i, Foreign .clear key (nonceAt iv (UInt64.ofNat i)) bytes := by
  intro bytes hbytes
  rcases i with - | - | i
  · obtain rfl := List.mem_singleton.mp hbytes
    exact ⟨.alert, .tls12, [0x01, 0x00], rfl, fun h ↦ by cases h⟩
  · -- the replay stands where nonce 1 is due
    obtain rfl := List.mem_singleton.mp hbytes
    exact ⟨.applicationData, .tls12, cipher (.new key iv) 9, by decide +kernel,
      fun _ ↦ by decide +kernel⟩
  · simp [gap] at hbytes

end Sample

/-- An alert, the record, and the record again: one frame, and at most two errors. -/
theorem injected_records_alert_and_replay :
    let stream := injectedBytes Sample.gap 0 [Sample.cipher (.new Sample.key Sample.iv) 9]
    let results := decodeRun .clear [.feed (stream.take 10), .decode, .decode,
      .feed (stream.drop 10), .decode, .decode] Sample.rx []
    (results.filterMap returned).map Frame.item <+: [⟨9, .close, []⟩] ∧
      results.countP failed ≤ 2 := by
  have hrun := injected_records .clear Sample.hmac ChaCha20Poly1305.clear_isCorrect Sample.key
    Sample.iv ⟨Sample.key⟩ ⟨Sample.key⟩ Sample.shaper (Stream'.const 0) [Sample.call 9] _ _
    (Exec.bind_ok (Sample.run_call (.new Sample.key Sample.iv) 9)) (by decide) Sample.gap
    Sample.foreign_gap
    [.feed ((injectedBytes Sample.gap 0 [Sample.cipher (.new Sample.key Sample.iv) 9]).take 10),
      .decode, .decode,
      .feed ((injectedBytes Sample.gap 0 [Sample.cipher (.new Sample.key Sample.iv) 9]).drop 10),
      .decode, .decode]
    (by simp [fedBytes, ChaChaStream.afterSealing, ChaChaStream.new])
  exact ⟨hrun.1, hrun.2.1⟩
