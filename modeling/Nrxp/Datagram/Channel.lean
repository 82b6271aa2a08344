import Mathlib.Data.List.Induction
import Nrxp.Datagram.Leg

/-!
# One direction of the datagram leg

A `Channel` is a sender, the receiver at the other end, and what was sealed so far, over a network
that loses, delays, reorders and repeats datagrams but does not change them. Sealing never fails
(`Channel.Sealed`), and each delivery is decided as an `EpochFilter` decides it
(`Channel.Received`).

The label of an epoch is a `u8`. A datagram from 256 epochs away is therefore tried under the keys
of another epoch than its own, and nothing about HKDF as a function says that it does not open
there. That it does not is `Channel.RunApart`: it is about the openings that are tried, and no
others.
-/

/-- A sealed datagram, with what it carries. `number` and `epoch` say when it was sealed: the call
and the sender's absolute epoch. -/
structure SentDatagram where
  number : ℕ
  epoch : ℕ
  item : Item
  aad : Bytes
  sealed : SealedDatagram
  deriving DecidableEq

/-- What a delivery came to. -/
structure Delivery where
  datagram : SentDatagram
  result : Outcome TlsError Frame
  deriving DecidableEq

/-- Whether the datagram opened. -/
def Delivery.opened (d : Delivery) : Bool :=
  match d.result with
  | .ok _ => true
  | _ => false

theorem Delivery.opened_iff (d : Delivery) : d.opened = true ↔ ∃ f, d.result = .ok f := by
  rw [Delivery.opened]
  rcases d.result with f | e | _ <;> simp

/-- One direction of the leg, and the datagrams sealed so far. -/
structure Channel where
  tx : DatagramTx
  rx : DatagramRx
  sent : List SentDatagram

/-- What happens: a frame is sealed, or the `i`-th datagram arrives, with so many bits of its
counter. -/
inductive ChannelEvent where
  | send (item : Item) (aad : Bytes)
  | deliver (i wireBits : ℕ)
  deriving DecidableEq

namespace Channel

variable (A : ChaCha20Poly1305) (hkdf : HkdfSha256)

/-- Sender and receiver over one root, in opposite roles. -/
def new (root : ByteArr 32) (isInitiator : Bool) : Channel where
  tx := .new (.deriveFromRoot hkdf root isInitiator)
  rx := .new hkdf (.deriveFromRoot hkdf root (!isInitiator))
  sent := []

/-- Nothing arrives before it was sealed. -/
def step (ch : Channel) : ChannelEvent → Option Delivery × Channel
  | .send item aad =>
    match ch.tx.seal A hkdf item.streamId item.frameType item.payload aad with
    | (.ok sealed, tx) =>
      (none, { ch with
        tx := tx
        sent := ch.sent ++ [⟨ch.sent.length, tx.keys.tx.steps, item, aad, sealed⟩] })
    | (_, tx) => (none, { ch with tx })
  | .deliver i wireBits =>
    match ch.sent[i]? with
    | some s =>
      let (result, rx) := ch.rx.open A hkdf s.sealed.epochId
        (truncateCounter s.sealed.counter wireBits) wireBits s.sealed.ciphertext s.aad
      (some ⟨s, result⟩, { ch with rx })
    | none => (none, ch)

/-- A run: the deliveries, in order, and the state reached. -/
def run (ch : Channel) (events : List ChannelEvent) : List Delivery × Channel :=
  events.foldl (fun (deliveries, ch) event ↦
    let (delivery, ch') := ch.step A hkdf event
    (deliveries ++ delivery.toList, ch')) ([], ch)

theorem run_concat (ch : Channel) (events : List ChannelEvent) (event : ChannelEvent) :
    ch.run A hkdf (events ++ [event]) =
      ((ch.run A hkdf events).1 ++ ((ch.run A hkdf events).2.step A hkdf event).1.toList,
        ((ch.run A hkdf events).2.step A hkdf event).2) := by
  rw [run, List.foldl_append]
  rfl

end Channel

/-- The payload fits its length field, and enough of the counter travels for an epoch. -/
def ChannelEvent.WellFormed : ChannelEvent → Prop
  | .send item _ => item.payload.length ≤ 65535
  | .deliver _ wireBits => 15 ≤ wireBits ∧ wireBits ≤ 63

def ChannelEvent.isSend : ChannelEvent → Bool
  | .send _ _ => true
  | .deliver _ _ => false

/-- The frame given to the sender. -/
def ChannelEvent.item? : ChannelEvent → Option Item
  | .send item _ => some item
  | .deliver _ _ => none

/-! ### The sender -/

/-- What the `n`-th datagram is. -/
structure SentDatagram.At (A : ChaCha20Poly1305) (hkdf : HkdfSha256) (chain0 : ByteArr 32) (n : ℕ)
    (s : SentDatagram) : Prop where
  number : s.number = n
  epoch : s.epoch = epochOf n
  epochId : s.sealed.epochId = UInt8.ofNat (epochOf n)
  counter : s.sealed.counter = UInt64.ofNat (counterOf n)
  payload : s.item.payload.length < 2 ^ 16
  ciphertext : DatagramTx.sealNth A hkdf chain0 n s.aad
    (DatagramTx.plaintext s.item.streamId s.item.frameType s.item.payload)
      = some s.sealed.ciphertext

/-- The sender's half of a state: every call has sealed its datagram. -/
structure Channel.Sealed (A : ChaCha20Poly1305) (hkdf : HkdfSha256) (chain0 : ByteArr 32)
    (ch : Channel) : Prop where
  tx : ch.tx.At hkdf chain0 ch.sent.length
  sent : ∀ n s, ch.sent[n]? = some s → SentDatagram.At A hkdf chain0 n s

namespace Channel

variable {A : ChaCha20Poly1305} {hkdf : HkdfSha256} {root : ByteArr 32} {isInitiator : Bool}
  {chain0 : ByteArr 32} {ch : Channel}

/-- The sender is in the epoch of its last datagram. -/
theorem Sealed.steps (h : ch.Sealed A hkdf chain0) :
    ch.tx.keys.tx.steps = epochOf (ch.sent.length - 1) := by
  rw [h.tx.keys, KeyRatchet.after_steps]

theorem Sealed.epoch_le (h : ch.Sealed A hkdf chain0) {n : ℕ} {s : SentDatagram}
    (hs : ch.sent[n]? = some s) : s.epoch ≤ ch.tx.keys.tx.steps := by
  have hlt : n < ch.sent.length := (List.getElem?_eq_some_iff.mp hs).1
  rw [(h.sent n s hs).epoch, h.steps]
  exact epochOf_mono (by omega)

/-- **Sealing does not fail**, and adds the next datagram. -/
theorem Sealed.send (hA : A.IsCorrect) (h : ch.Sealed A hkdf chain0) {item : Item} (aad : Bytes)
    (hpay : item.payload.length ≤ 65535) :
    ∃ tx' s, s.item = item ∧
      ch.step A hkdf (.send item aad) = (none, { ch with tx := tx', sent := ch.sent ++ [s] }) ∧
      Sealed A hkdf chain0 { ch with tx := tx', sent := ch.sent ++ [s] } := by
  obtain ⟨tx', hat, hcase⟩ := h.tx.seal_spec (A := A) item.streamId item.frameType item.payload aad
  have hlen : (DatagramTx.plaintext item.streamId item.frameType item.payload).length
      < aeadPlainLimit := by
    rw [plaintext_eq, length_frameBytes]
    simp only [frameHeaderSize, aeadPlainLimit, List.length_nil]
    omega
  obtain ⟨c, hc, -⟩ := hA.exists_encrypt (epochKeys hkdf chain0 (epochOf ch.sent.length)).key
    (buildNonce (epochKeys hkdf chain0 (epochOf ch.sent.length)).salt
      (UInt64.ofNat (counterOf ch.sent.length))) aad hlen
  have hseal : DatagramTx.sealNth A hkdf chain0 ch.sent.length aad
      (DatagramTx.plaintext item.streamId item.frameType item.payload) = some c := hc
  rw [hseal] at hcase
  refine ⟨tx', ⟨ch.sent.length, tx'.keys.tx.steps, item, aad, _⟩, rfl, by rw [step, hcase.1],
    ?_, ?_⟩
  · rw [List.length_append]
    exact hat
  · intro n s hs
    rcases Nat.lt_trichotomy n ch.sent.length with hlt | rfl | hgt
    · rw [List.getElem?_append_left hlt] at hs
      exact h.sent n s hs
    · rw [List.getElem?_concat_length] at hs
      cases hs
      have hsteps : tx'.keys.tx.steps = epochOf ch.sent.length := by
        rw [hat.keys]
        rfl
      exact ⟨rfl, hsteps, rfl, rfl, Nat.lt_succ_of_le hpay, hseal⟩
    · rw [List.getElem?_eq_none (by simp; omega)] at hs
      cases hs

/-- A delivery leaves the sender alone. -/
theorem step_deliver (A : ChaCha20Poly1305) (hkdf : HkdfSha256) (ch : Channel) (i wireBits : ℕ) :
    (ch.step A hkdf (.deliver i wireBits)).2.tx = ch.tx ∧
      (ch.step A hkdf (.deliver i wireBits)).2.sent = ch.sent := by
  rw [step]
  split <;> exact ⟨rfl, rfl⟩

end Channel

/-! ### The receiver -/

/-- What a delivery offers to the receiver, and whether it was taken. -/
def Delivery.offer (d : Delivery) : (ℕ × ℕ) × Bool :=
  ((d.datagram.epoch, d.datagram.sealed.counter.toNat), d.opened)

/-- The one opening that the receiver tries of a datagram does not succeed under the keys of another
epoch. Labels repeat after 256 epochs, so that the epoch listened to need not be the datagram's. -/
def Channel.Apart (A : ChaCha20Poly1305) (hkdf : HkdfSha256) (chain0 : ByteArr 32) (ch : Channel)
    (s : SentDatagram) : Prop :=
  ∀ t ≤ ch.rx.keys.rx.steps + 1, ch.rx.keys.rx.steps ≤ t + 1 →
    s.sealed.epochId = UInt8.ofNat t → t ≠ s.epoch →
      openAs A hkdf chain0 t s.sealed.counter s.aad s.sealed.ciphertext = none

/-- So it is with every delivery of a run. -/
def Channel.RunApart (A : ChaCha20Poly1305) (hkdf : HkdfSha256) (chain0 : ByteArr 32)
    (ch : Channel) (events : List ChannelEvent) : Prop :=
  ∀ past i wireBits, past ++ [.deliver i wireBits] <+: events →
    ∀ s, (ch.run A hkdf past).2.sent[i]? = some s → (ch.run A hkdf past).2.Apart A hkdf chain0 s

/-- The receiver's half of a state: it has decided each delivery as the filter has. -/
structure Channel.Received (hkdf : HkdfSha256) (chain0 : ByteArr 32) (deliveries : List Delivery)
    (ch : Channel) (F : EpochFilter) : Prop where
  rx : ch.rx.Represents hkdf chain0 F
  epoch_le : F.epoch ≤ ch.tx.keys.tx.steps
  runs : F.Runs 1024 (deliveries.map Delivery.offer)
  sent : ∀ d ∈ deliveries, ch.sent[d.datagram.number]? = some d.datagram
  /-- What opened was right. -/
  item : ∀ d ∈ deliveries, ∀ f, d.result = .ok f → f.item = d.datagram.item

/-- Datagrams are numbered by epoch, and by counter within an epoch. -/
theorem before_of_lt {n m : ℕ} (h : n < m) :
    EpochFilter.Before (epochOf n, counterOf n) (epochOf m, counterOf m) := by
  rcases Nat.eq_or_lt_of_le (epochOf_mono h.le) with heq | hlt
  · refine Or.inr ⟨heq, ?_⟩
    have hn : epochOf n = n / 2 ^ 14 := rfl
    have hm : epochOf m = m / 2 ^ 14 := rfl
    simp only [counterOf, toNat_rekeyAfterDatagrams]
    omega
  · exact Or.inl hlt

namespace Channel

variable {A : ChaCha20Poly1305} {hkdf : HkdfSha256} {root : ByteArr 32} {isInitiator : Bool}
  {chain0 : ByteArr 32} {ch : Channel} {deliveries : List Delivery} {F : EpochFilter}

/-- A datagram opens under its own keys and counter. -/
theorem Sealed.openAs_sent (hA : A.IsCorrect) (h : ch.Sealed A hkdf chain0) {i : ℕ}
    {s : SentDatagram} (hs : ch.sent[i]? = some s) :
    openAs A hkdf chain0 s.epoch s.sealed.counter s.aad s.sealed.ciphertext
      = some (DatagramTx.plaintext s.item.streamId s.item.frameType s.item.payload) := by
  have hat := h.sent i s hs
  rw [openAs, hat.epoch, hat.counter]
  exact hA.decrypt_encrypt hat.ciphertext

/-- **One opening**: what opens is taken from an epoch listened to that the label names. What does
not, does not decrypt in such an epoch, or is not admitted there; then nothing changes. -/
theorem Sealed.open_cases (h : ch.Sealed A hkdf chain0) (hrx : ch.rx.Represents hkdf chain0 F)
    {i : ℕ} {s : SentDatagram} (hs : ch.sent[i]? = some s) {wireBits : ℕ} (hb : 15 ≤ wireBits)
    (hb' : wireBits ≤ 63) :
    (∃ t p rx', s.sealed.epochId = UInt8.ofNat t ∧
      openAs A hkdf chain0 t s.sealed.counter s.aad s.sealed.ciphertext = some p ∧
      F.Takes 1024 t s.sealed.counter.toNat ∧
      ch.rx.open A hkdf s.sealed.epochId (truncateCounter s.sealed.counter wireBits) wireBits
        s.sealed.ciphertext s.aad = (DatagramRx.parsePlaintext p, rx') ∧
      rx'.Represents hkdf chain0 (F.take t s.sealed.counter.toNat)) ∨
    ((∃ e, ch.rx.open A hkdf s.sealed.epochId (truncateCounter s.sealed.counter wireBits) wireBits
        s.sealed.ciphertext s.aad = (.err e, ch.rx)) ∧
      ∀ t p, s.sealed.epochId = UInt8.ofNat t →
        openAs A hkdf chain0 t s.sealed.counter s.aad s.sealed.ciphertext = some p →
        ¬F.Takes 1024 t s.sealed.counter.toNat) := by
  have hat := h.sent i s hs
  have hcounter : s.sealed.counter.toNat = counterOf i := by rw [hat.counter, toNat_counterOf]
  have hrecovers : ∀ c, Recovers (truncateCounter s.sealed.counter wireBits) wireBits c →
      c = s.sealed.counter :=
    fun c hc ↦ hc.eq hb (by omega) (by rw [hcounter]; exact counterOf_lt i)
  have hdecrypts : DatagramRx.Decrypts A hkdf chain0 F ch.rx s.sealed.epochId
      (truncateCounter s.sealed.counter wireBits) wireBits s.sealed.ciphertext s.aad _ :=
    hrx.decryptDatagram _ _ (by omega) (by omega) fun t _ c _ hc _ ↦ by
      rw [hrecovers c hc, hcounter]
      exact counterOf_lt i
  rcases hdecrypts with
    ⟨t, c, p, rx', hlabel, hc, hp, htakes, hrun, hrepresents⟩ | ⟨e, hrun, hrefused⟩
  · obtain rfl := hrecovers c hc
    exact Or.inl ⟨t, p, rx', hlabel, hp, htakes, DatagramRx.open_of_ok hrun, hrepresents⟩
  · refine Or.inr ⟨⟨e, DatagramRx.open_of_err hrun⟩, fun t p hlabel hp htakes ↦ ?_⟩
    obtain ⟨c, hc, hno⟩ := hrefused t hlabel htakes.1
    obtain rfl := hrecovers c hc
    exact hno p hp htakes.2

/-- The epochs the receiver listens to are those around the number of its steps. -/
theorem listens_iff (hrx : ch.rx.Represents hkdf chain0 F) (t : ℕ) :
    F.Listens t ↔ t ≤ ch.rx.keys.rx.steps + 1 ∧ ch.rx.keys.rx.steps ≤ t + 1 := by
  rw [hrx.keys, KeyRatchet.after_steps]
  exact Iff.rfl

/-- A datagram of an epoch listened to is tried under its own keys. -/
theorem Apart.of_listens (hrx : ch.rx.Represents hkdf chain0 F) (h : ch.Sealed A hkdf chain0)
    {i : ℕ} {s : SentDatagram} (hs : ch.sent[i]? = some s) (hlistens : F.Listens s.epoch) :
    ch.Apart A hkdf chain0 s := by
  intro t hle hge hlabel hne
  have hat := h.sent i s hs
  refine absurd (((listens_iff hrx t).mpr ⟨hle, hge⟩).eq_of_label hlistens ?_) hne
  rw [← hlabel, hat.epochId, hat.epoch]

/-- **One delivery**: if it does not open under the keys of another epoch, the datagram opens, to
its frame, exactly if the filter takes its number. Otherwise nothing changes. -/
theorem Sealed.open_sent (hA : A.IsCorrect) (h : ch.Sealed A hkdf chain0)
    (hrx : ch.rx.Represents hkdf chain0 F) {i : ℕ} {s : SentDatagram} (hs : ch.sent[i]? = some s)
    (hapart : ch.Apart A hkdf chain0 s) {wireBits : ℕ} (hb : 15 ≤ wireBits)
    (hb' : wireBits ≤ 63) :
    (F.Takes 1024 s.epoch s.sealed.counter.toNat ∧ ∃ f rx', f.item = s.item ∧
      ch.rx.open A hkdf s.sealed.epochId (truncateCounter s.sealed.counter wireBits) wireBits
        s.sealed.ciphertext s.aad = (.ok f, rx') ∧
      rx'.Represents hkdf chain0 (F.take s.epoch s.sealed.counter.toNat)) ∨
    (¬F.Takes 1024 s.epoch s.sealed.counter.toNat ∧ ∃ e,
      ch.rx.open A hkdf s.sealed.epochId (truncateCounter s.sealed.counter wireBits) wireBits
        s.sealed.ciphertext s.aad = (.err e, ch.rx)) := by
  have hat := h.sent i s hs
  have hopen := h.openAs_sent hA hs
  have hlabel : s.sealed.epochId = UInt8.ofNat s.epoch := by rw [hat.epochId, hat.epoch]
  rcases h.open_cases hrx hs hb hb' with
    ⟨t, p, rx', hnames, hp, htakes, hrun, hrepresents⟩ | ⟨hrun, hno⟩
  · have hown : t = s.epoch := by
      by_contra hne
      obtain ⟨hle, hge⟩ := (listens_iff hrx t).mp htakes.1
      rw [hapart t hle hge hnames hne] at hp
      cases hp
    subst hown
    cases hp.symm.trans hopen
    obtain ⟨f, hparse, hitem⟩ := DatagramRx.parsePlaintext_plaintext s.item hat.payload
    exact Or.inl ⟨htakes, f, rx', hitem, by rw [hrun, hparse], hrepresents⟩
  · exact Or.inr ⟨hno s.epoch _ hlabel hopen, hrun⟩

theorem Received.start (hkdf : HkdfSha256) (root : ByteArr 32) (isInitiator : Bool) :
    (new hkdf root isInitiator).Received hkdf (txChain0 hkdf root isInitiator) [] .fresh where
  rx := by
    have h := DatagramRx.represents_new hkdf root (!isInitiator)
    rwa [Bool.not_not] at h
  epoch_le := Nat.zero_le _
  runs := .fresh
  sent := by simp
  item := by simp

/-- Sealing leaves the receiver alone. -/
theorem Received.send (h : ch.Received hkdf chain0 deliveries F) {tx' : DatagramTx}
    (hsteps : ch.tx.keys.tx.steps ≤ tx'.keys.tx.steps) (s : SentDatagram) :
    Received hkdf chain0 deliveries { ch with tx := tx', sent := ch.sent ++ [s] } F where
  rx := h.rx
  epoch_le := h.epoch_le.trans hsteps
  runs := h.runs
  sent d hd := by
    have hold := h.sent d hd
    rw [← hold]
    exact List.getElem?_append_left (List.getElem?_eq_some_iff.mp hold).1
  item := h.item

/-- A delivery is decided as the filter decides it. -/
theorem Received.deliver (hA : A.IsCorrect) (hsealed : ch.Sealed A hkdf chain0)
    (h : ch.Received hkdf chain0 deliveries F) (i : ℕ)
    (hapart : ∀ s, ch.sent[i]? = some s → ch.Apart A hkdf chain0 s) {wireBits : ℕ}
    (hb : 15 ≤ wireBits) (hb' : wireBits ≤ 63) :
    ∃ F', (ch.step A hkdf (.deliver i wireBits)).2.Received hkdf chain0
      (deliveries ++ (ch.step A hkdf (.deliver i wireBits)).1.toList) F' := by
  rcases hs : ch.sent[i]? with - | s
  · refine ⟨F, ?_⟩
    rw [step, hs]
    simpa using h
  have hat := hsealed.sent i s hs
  have hnumber : ch.sent[s.number]? = some s := by rw [hat.number, hs]
  rcases hsealed.open_sent hA h.rx hs (hapart s hs) hb hb' with
    ⟨htakes, f, rx', hitem, hrun, hrepresents⟩ | ⟨hno, e, hrun⟩
  · refine ⟨F.take s.epoch s.sealed.counter.toNat, ?_⟩
    simp only [step, hs, hrun, Option.toList_some]
    exact
      { rx := hrepresents
        epoch_le := max_le h.epoch_le (hsealed.epoch_le hs)
        runs := by
          rw [List.map_append]
          exact h.runs.take htakes
        sent := List.forall_mem_append.mpr ⟨h.sent, List.forall_mem_singleton.mpr hnumber⟩
        item := List.forall_mem_append.mpr
          ⟨h.item, List.forall_mem_singleton.mpr (by rintro _ ⟨⟩; exact hitem)⟩ }
  · refine ⟨F, ?_⟩
    simp only [step, hs, hrun, Option.toList_some]
    exact
      { rx := h.rx
        epoch_le := h.epoch_le
        runs := by
          rw [List.map_append]
          exact h.runs.refuse hno
        sent := List.forall_mem_append.mpr ⟨h.sent, List.forall_mem_singleton.mpr hnumber⟩
        item := List.forall_mem_append.mpr
          ⟨h.item, List.forall_mem_singleton.mpr (by rintro _ ⟨⟩)⟩ }

/-- **The sender in a whole run**: nothing fails, and deliveries do not matter. -/
theorem Sealed.of_run (hA : A.IsCorrect) (hkdf : HkdfSha256) (root : ByteArr 32)
    (isInitiator : Bool) {events : List ChannelEvent}
    (hwell : ∀ event ∈ events, event.WellFormed) :
    ((new hkdf root isInitiator).run A hkdf events).2.Sealed A hkdf
        (txChain0 hkdf root isInitiator) ∧
      ((new hkdf root isInitiator).run A hkdf events).2.sent.length
        = events.countP ChannelEvent.isSend := by
  induction events using List.reverseRecOn with
  | nil => exact ⟨⟨DatagramTx.at_new root isInitiator, by simp [run, new]⟩, rfl⟩
  | append_singleton events event ih =>
    obtain ⟨h, hlen⟩ := ih fun e he ↦ hwell e (List.mem_append_left _ he)
    rw [run_concat, List.countP_append]
    cases event with
    | send item aad =>
      have hpay := hwell _ (List.mem_append_right _ (List.mem_singleton_self _))
      obtain ⟨tx', s, -, hstep, h'⟩ := h.send hA aad hpay
      rw [hstep]
      exact ⟨h', by rw [← hlen]; simp [ChannelEvent.isSend]⟩
    | deliver i wireBits =>
      obtain ⟨htx, hsent⟩ := step_deliver A hkdf
        ((new hkdf root isInitiator).run A hkdf events).2 i wireBits
      refine ⟨⟨?_, ?_⟩, ?_⟩
      · rw [htx, hsent]
        exact h.tx
      · rw [hsent]
        exact h.sent
      · rw [hsent, hlen]
        rfl

/-- Every frame given to the sender was sealed. -/
theorem sent_items (hA : A.IsCorrect) (hkdf : HkdfSha256) (root : ByteArr 32) (isInitiator : Bool)
    {events : List ChannelEvent} (hwell : ∀ event ∈ events, event.WellFormed) :
    ((new hkdf root isInitiator).run A hkdf events).2.sent.map (·.item)
      = events.filterMap ChannelEvent.item? := by
  induction events using List.reverseRecOn with
  | nil => rfl
  | append_singleton events event ih =>
    have hwell' : ∀ e ∈ events, e.WellFormed := fun e he ↦ hwell e (List.mem_append_left _ he)
    have hsealed := (Sealed.of_run hA hkdf root isInitiator hwell').1
    rw [run_concat, List.filterMap_append, ← ih hwell']
    cases event with
    | send item aad =>
      have hpay := hwell _ (List.mem_append_right _ (List.mem_singleton_self _))
      obtain ⟨tx', s, hitem, hstep, -⟩ := hsealed.send hA aad hpay
      rw [hstep, List.map_append, List.map_singleton, hitem]
      rfl
    | deliver i wireBits =>
      rw [(step_deliver A hkdf _ i wireBits).2]
      exact (List.append_nil _).symm

/-- One event more. -/
theorem runApart_concat {events : List ChannelEvent} {event : ChannelEvent} :
    ch.RunApart A hkdf chain0 (events ++ [event]) ↔
      ch.RunApart A hkdf chain0 events ∧ ∀ i wireBits, event = .deliver i wireBits →
        ∀ s, (ch.run A hkdf events).2.sent[i]? = some s →
          (ch.run A hkdf events).2.Apart A hkdf chain0 s := by
  constructor
  · intro h
    refine ⟨fun past i wireBits hpast ↦ h past i wireBits
      (hpast.trans (List.prefix_append _ _)), ?_⟩
    rintro i wireBits rfl
    exact h events i wireBits (List.prefix_refl _)
  · rintro ⟨h, hlast⟩ past i wireBits hpast
    rcases List.prefix_concat_iff.mp hpast with heq | hpast'
    · obtain ⟨rfl, hevent⟩ := List.append_inj' heq rfl
      exact hlast i wireBits (List.cons.inj hevent).1.symm
    · exact h past i wireBits hpast'

/-- **The receiver in a whole run** decides every delivery as the filter does. -/
theorem Received.of_run (hA : A.IsCorrect) {events : List ChannelEvent}
    (hwell : ∀ event ∈ events, event.WellFormed)
    (hapart : (new hkdf root isInitiator).RunApart A hkdf (txChain0 hkdf root isInitiator)
      events) :
    ∃ F, ((new hkdf root isInitiator).run A hkdf events).2.Received hkdf
      (txChain0 hkdf root isInitiator) ((new hkdf root isInitiator).run A hkdf events).1 F := by
  induction events using List.reverseRecOn with
  | nil => exact ⟨.fresh, start hkdf root isInitiator⟩
  | append_singleton events event ih =>
    have hwell' : ∀ e ∈ events, e.WellFormed := fun e he ↦ hwell e (List.mem_append_left _ he)
    have hevent := hwell event (List.mem_append_right _ (List.mem_singleton_self _))
    have hsealed := (Sealed.of_run hA hkdf root isInitiator hwell').1
    obtain ⟨hpast, hlast⟩ := runApart_concat.mp hapart
    obtain ⟨F, h⟩ := ih hwell' hpast
    rw [run_concat]
    cases event with
    | send item aad =>
      obtain ⟨tx', s, -, hstep, h'⟩ := hsealed.send hA aad hevent
      have hsteps := h'.steps
      rw [List.length_append] at hsteps
      refine ⟨F, ?_⟩
      rw [hstep, Option.toList_none, List.append_nil]
      refine h.send ?_ s
      rw [hsealed.steps, hsteps]
      exact epochOf_mono (by omega)
    | deliver i wireBits =>
      exact h.deliver hA hsealed i (hlast i wireBits rfl) hevent.1 hevent.2

/-- A delivery was decided for what it delivered. -/
theorem Received.opened_iff (h : ch.Received hkdf chain0 deliveries F) {d : Delivery}
    (hd : d ∈ deliveries) :
    d.opened = true ↔ ∃ f, d.result = .ok f ∧ f.item = d.datagram.item := by
  rw [Delivery.opened_iff]
  exact exists_congr fun f ↦ (and_iff_left_of_imp (h.item d hd f)).symm

end Channel
