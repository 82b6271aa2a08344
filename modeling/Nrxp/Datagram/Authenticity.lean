import Mathlib.Data.List.Induction
import Mathlib.Data.Set.Function
import Nrxp.Datagram.Leg

/-!
# Authenticity of the datagram leg

Both directions of the leg against a network that delivers what it likes: datagrams of either
direction, of any age and under any label, as often as it likes, and byte strings of its own.

A datagram is named by the number of the call that sealed it, which its absolute epoch and its
counter determine and its label and what travels of its counter do not. What protects the receiver
is that a ciphertext opens only under the key and the nonce it was sealed with: so what opens, opens
as what it is, and the replay windows, which go by epoch and counter, see a datagram that comes
again as the same one. `Leg.Inv` is the invariant; `Attributed` is the part that becomes the
theorem.
-/

/-- What happens: a frame is sealed in this direction or on the way back, or the receiver of this
direction is given a datagram. -/
inductive LegEvent where
  | send (item : Item) (aad : Bytes)
  | sendBack (item : Item) (aad : Bytes)
  | deliver (epochId : UInt8) (wireCounter : UInt64) (wireBits : ℕ) (ciphertext aad : Bytes)
  deriving DecidableEq

/-- What a call returned. -/
inductive LegResult where
  | sealed (r : Outcome TlsError SealedDatagram)
  | opened (r : Outcome TlsError Frame)
  deriving DecidableEq

/-- An event and what came of it. -/
structure Turn where
  event : LegEvent
  result : LegResult
  deriving DecidableEq

/-- One direction of the leg, and the receiver's own sender. -/
structure Leg where
  tx : DatagramTx
  rx : DatagramRx
  back : DatagramTx

namespace Leg

variable (A : ChaCha20Poly1305) (hkdf : HkdfSha256)

/-- Sender and receiver over one root, in opposite roles. -/
def new (root : ByteArr 32) (isInitiator : Bool) : Leg where
  tx := .new (.deriveFromRoot hkdf root isInitiator)
  rx := .new hkdf (.deriveFromRoot hkdf root (!isInitiator))
  back := .new (.deriveFromRoot hkdf root (!isInitiator))

/-- Every encryption made over the root. -/
def log (leg : Leg) : List (Sealing Key Nonce) := leg.tx.log ++ leg.back.log

def step (leg : Leg) : LegEvent → LegResult × Leg
  | .send item aad =>
    let (r, tx) := leg.tx.seal A hkdf item.streamId item.frameType item.payload aad
    (.sealed r, { leg with tx })
  | .sendBack item aad =>
    let (r, back) := leg.back.seal A hkdf item.streamId item.frameType item.payload aad
    (.sealed r, { leg with back })
  | .deliver epochId wireCounter wireBits ciphertext aad =>
    let (r, rx) := leg.rx.open A hkdf epochId wireCounter wireBits ciphertext aad
    (.opened r, { leg with rx })

/-- A run: the turns, oldest first, and the state reached. -/
def run (leg : Leg) (events : List LegEvent) : List Turn × Leg :=
  events.foldl (fun (turns, leg) event ↦
    let (result, leg') := leg.step A hkdf event
    (turns ++ [⟨event, result⟩], leg')) ([], leg)

theorem run_concat (leg : Leg) (events : List LegEvent) (event : LegEvent) :
    leg.run A hkdf (events ++ [event]) =
      ((leg.run A hkdf events).1 ++ [⟨event, ((leg.run A hkdf events).2.step A hkdf event).1⟩],
        ((leg.run A hkdf events).2.step A hkdf event).2) := by
  rw [run, List.foldl_append]
  rfl

theorem length_run (leg : Leg) (events : List LegEvent) :
    (leg.run A hkdf events).1.length = events.length := by
  induction events using List.reverseRecOn with
  | nil => rfl
  | append_singleton events event ih => rw [run_concat]; simp [ih]

end Leg

/-! ### Numbering -/

def LegEvent.isSend : LegEvent → Bool
  | .send _ _ => true
  | _ => false

def LegEvent.isSendBack : LegEvent → Bool
  | .sendBack _ _ => true
  | _ => false

/-- How many times the sender was called. -/
def sends (turns : List Turn) : ℕ := turns.countP (·.event.isSend)

/-- How many times the receiver's own sender was. -/
def sendsBack (turns : List Turn) : ℕ := turns.countP (·.event.isSendBack)

/-- Turn `m` sealed a frame, as the `n`-th call of the sender, to the ciphertext `c`. -/
def SealedAt (turns : List Turn) (m n : ℕ) (item : Item) (aad c : Bytes) : Prop :=
  n = sends (turns.take m) ∧ ∃ epochId counter,
    turns[m]? = some ⟨.send item aad, .sealed (.ok ⟨epochId, counter, c⟩)⟩

/-- Turn `j` opened the ciphertext `c` to the frame `f`. -/
def OpenedAt (turns : List Turn) (j : ℕ) (f : Frame) (aad c : Bytes) : Prop :=
  ∃ epochId wireCounter wireBits,
    turns[j]? = some ⟨.deliver epochId wireCounter wireBits c aad, .opened (.ok f)⟩

section Concat

variable {turns : List Turn} {turn : Turn} {m n j : ℕ} {item : Item} {f : Frame} {aad c : Bytes}

theorem SealedAt.lt (h : SealedAt turns m n item aad c) : m < turns.length := by
  obtain ⟨-, _, _, hm⟩ := h
  exact (List.getElem?_eq_some_iff.mp hm).1

theorem OpenedAt.lt (h : OpenedAt turns j f aad c) : j < turns.length := by
  obtain ⟨_, _, _, hj⟩ := h
  exact (List.getElem?_eq_some_iff.mp hj).1

/-- The number of a call is less than the number of calls. -/
theorem SealedAt.lt_sends (h : SealedAt turns m n item aad c) : n < sends turns := by
  obtain ⟨rfl, _, _, hm⟩ := h
  obtain ⟨hlt, hget⟩ := List.getElem?_eq_some_iff.mp hm
  have hsplit : sends turns = sends (turns.take m) + sends (turns.drop m) := by
    rw [sends, sends, sends, ← List.countP_append, List.take_append_drop]
  have hdrop : 0 < sends (turns.drop m) := by
    rw [List.drop_eq_getElem_cons hlt, hget]
    simp [sends, LegEvent.isSend]
  omega

/-- Later turns change nothing about earlier ones. -/
theorem SealedAt.concat (h : SealedAt turns m n item aad c) :
    SealedAt (turns ++ [turn]) m n item aad c := by
  have hlt := h.lt
  obtain ⟨rfl, epochId, counter, hm⟩ := h
  refine ⟨by rw [List.take_append_of_le_length hlt.le], epochId, counter, ?_⟩
  rw [List.getElem?_append_left hlt, hm]

/-- An opening is in the past, or is the last turn. -/
theorem openedAt_concat : OpenedAt (turns ++ [turn]) j f aad c ↔
    OpenedAt turns j f aad c ∨ (j = turns.length ∧ OpenedAt [turn] 0 f aad c) := by
  rcases Nat.lt_trichotomy j turns.length with hlt | rfl | hgt
  · simp [OpenedAt, List.getElem?_append_left hlt, hlt.ne]
  · simp [OpenedAt]
  · have hnone : (turns ++ [turn])[j]? = none := by
      rw [List.getElem?_eq_none_iff, List.length_append, List.length_singleton]
      omega
    have hnone' : turns[j]? = none := by
      rw [List.getElem?_eq_none_iff]
      omega
    simp [OpenedAt, hnone, hnone', hgt.ne']

end Concat

/-! ### The invariant -/

/-- Every opening has its own, earlier sealing of the same frame under the same associated data, and
the counter it was taken by is in the filter. -/
def Attributed (turns : List Turn) (F : EpochFilter) (origin : ℕ → ℕ) : Prop :=
  (∀ j f aad c, OpenedAt turns j f aad c → origin j < j ∧
    ∃ n, SealedAt turns (origin j) n f.item aad c ∧ counterOf n ∈ F.seen (epochOf n)) ∧
  Set.InjOn origin {j | ∃ f aad c, OpenedAt turns j f aad c}

/-- A turn that opens nothing needs no origin. -/
theorem Attributed.concat {turns : List Turn} {F : EpochFilter} {origin : ℕ → ℕ}
    (h : Attributed turns F origin) {turn : Turn} (hturn : ∀ f aad c, ¬OpenedAt [turn] 0 f aad c) :
    Attributed (turns ++ [turn]) F origin := by
  have hold : ∀ {j f aad c}, OpenedAt (turns ++ [turn]) j f aad c → OpenedAt turns j f aad c :=
    fun hj ↦ (openedAt_concat.mp hj).resolve_right fun hlast ↦ hturn _ _ _ hlast.2
  refine ⟨fun j f aad c hj ↦ ?_, h.2.mono ?_⟩
  swap
  · rintro j ⟨f, aad, c, hj⟩
    exact ⟨f, aad, c, hold hj⟩
  obtain ⟨hlt, n, hsealed, hseen⟩ := h.1 j f aad c (hold hj)
  exact ⟨hlt, n, hsealed.concat, hseen⟩

/-- A turn that opens the `n`-th datagram, not taken before, has that datagram's sealing for its
origin. -/
theorem Attributed.concat_opened {turns : List Turn} {F : EpochFilter} {origin : ℕ → ℕ}
    (h : Attributed turns F origin) {turn : Turn} {f : Frame} {aad c : Bytes}
    (hturn : OpenedAt [turn] 0 f aad c) {m n : ℕ} (hsealed : SealedAt turns m n f.item aad c)
    (hnew : counterOf n ∉ F.seen (epochOf n)) :
    Attributed (turns ++ [turn]) (F.take (epochOf n) (counterOf n))
      (Function.update origin turns.length m) := by
  have hold : ∀ {j f aad c}, OpenedAt turns j f aad c →
      Function.update origin turns.length m j = origin j ∧ origin j ≠ m := by
    intro j f aad c hj
    refine ⟨Function.update_of_ne hj.lt.ne _ _, fun hm ↦ hnew ?_⟩
    obtain ⟨-, n', hsealed', hseen⟩ := h.1 j f aad c hj
    have hn : n' = n := by rw [hsealed'.1, hsealed.1, hm]
    rwa [← hn]
  constructor
  · intro j f' aad' c' hj
    rcases openedAt_concat.mp hj with hj | ⟨rfl, hj'⟩
    · obtain ⟨hlt, n', hsealed', hseen⟩ := h.1 j f' aad' c' hj
      rw [(hold hj).1]
      exact ⟨hlt, n', hsealed'.concat, EpochFilter.seen_subset_take hseen⟩
    · obtain ⟨_, _, _, hlast⟩ := hturn
      obtain ⟨_, _, _, hlast'⟩ := hj'
      cases hlast.symm.trans hlast'
      rw [Function.update_self]
      exact ⟨hsealed.lt, n, hsealed.concat, EpochFilter.mem_seen_take.mpr (Or.inl ⟨rfl, rfl⟩)⟩
  · rintro j ⟨f₁, aad₁, c₁, hj⟩ j' ⟨f₂, aad₂, c₂, hj'⟩ heq
    rcases openedAt_concat.mp hj with hj | ⟨rfl, -⟩ <;>
      rcases openedAt_concat.mp hj' with hj' | ⟨rfl, -⟩
    · rw [(hold hj).1, (hold hj').1] at heq
      exact h.2 ⟨_, _, _, hj⟩ ⟨_, _, _, hj'⟩ heq
    · rw [(hold hj).1, Function.update_self] at heq
      exact absurd heq (hold hj).2
    · rw [(hold hj').1, Function.update_self] at heq
      exact absurd heq.symm (hold hj').2
    · rfl

/-- What holds after every run. -/
structure Leg.Inv (hkdf : HkdfSha256) (root : ByteArr 32) (isInitiator : Bool)
    (turns : List Turn) (leg : Leg) (F : EpochFilter) (origin : ℕ → ℕ) : Prop where
  tx : leg.tx.At hkdf (txChain0 hkdf root isInitiator) (sends turns)
  back : leg.back.At hkdf (txChain0 hkdf root (!isInitiator)) (sendsBack turns)
  rx : leg.rx.Represents hkdf (txChain0 hkdf root isInitiator) F
  /-- The receiver is not ahead of the sender. -/
  epoch_le : F.epoch ≤ epochOf (sends turns)
  txLog : ∀ s ∈ leg.tx.log, ∃ m n item, SealedAt turns m n item s.aad s.cipher ∧
    s = DatagramTx.sealingOf hkdf (txChain0 hkdf root isInitiator) n s.aad
      (DatagramTx.plaintext item.streamId item.frameType item.payload) s.cipher
  backLog : ∀ s ∈ leg.back.log, ∃ n < sendsBack turns,
    s.key = (epochKeys hkdf (txChain0 hkdf root (!isInitiator)) (epochOf n)).key
  attributed : Attributed turns F origin

/-- The keys of the first epochs of the two directions are all different. -/
def KeysDistinct (hkdf : HkdfSha256) (root : ByteArr 32) (E : ℕ) : Prop :=
  ∀ d d' e e', e ≤ E → e' ≤ E → (epochKeys hkdf (txChain0 hkdf root d) e).key
    = (epochKeys hkdf (txChain0 hkdf root d') e').key → d = d' ∧ e = e'

/-- Under the keys of these epochs a ciphertext opens, if at all, to what the log says it is. -/
def Leg.Authentic (A : ChaCha20Poly1305) (hkdf : HkdfSha256) (root : ByteArr 32) (E : ℕ)
    (leg : Leg) (aad c : Bytes) : Prop :=
  ∀ d e, e ≤ E → ∀ nonce,
    A.OpensOnly leg.log (epochKeys hkdf (txChain0 hkdf root d) e).key nonce aad c

namespace Leg.Inv

variable {A : ChaCha20Poly1305} {hkdf : HkdfSha256} {root : ByteArr 32} {isInitiator : Bool}
  {turns : List Turn} {leg : Leg} {F : EpochFilter} {origin : ℕ → ℕ} {E : ℕ}

theorem start (root : ByteArr 32) (isInitiator : Bool) :
    (new hkdf root isInitiator).Inv hkdf root isInitiator [] .fresh id where
  tx := DatagramTx.at_new root isInitiator
  back := DatagramTx.at_new root (!isInitiator)
  rx := by
    have h := DatagramRx.represents_new hkdf root (!isInitiator)
    rwa [Bool.not_not] at h
  epoch_le := Nat.zero_le _
  txLog := by simp [new, DatagramTx.new]
  backLog := by simp [new, DatagramTx.new]
  attributed := ⟨by rintro j f aad c ⟨_, _, _, h⟩; simp at h, by simp [OpenedAt]⟩

/-- **What opens was sealed as what it opens as.** -/
theorem exists_sealedAt (h : leg.Inv hkdf root isInitiator turns F origin)
    (hE : epochOf turns.length ≤ E) (hkeys : KeysDistinct hkdf root E) {aad c : Bytes}
    (hauth : leg.Authentic A hkdf root E aad c) {t : ℕ} (ht : t ≤ E) {counter : UInt64} {p : Bytes}
    (hopen : openAs A hkdf (txChain0 hkdf root isInitiator) t counter aad c = some p) :
    ∃ m n item, SealedAt turns m n item aad c ∧ epochOf n = t ∧ counter.toNat = counterOf n ∧
      p = DatagramTx.plaintext item.streamId item.frameType item.payload := by
  have hlog := hauth isInitiator t ht _ p hopen
  rcases List.mem_append.mp hlog with htx | hback
  · obtain ⟨m, n, item, hsealed, heq⟩ := h.txLog _ htx
    have hle : epochOf n ≤ E :=
      (epochOf_mono (hsealed.lt_sends.le.trans (List.countP_le_length ..))).trans hE
    obtain ⟨-, rfl⟩ := hkeys _ _ _ _ ht hle (congrArg Sealing.key heq)
    have hnonce := nonceAt_injective _ (congrArg Sealing.nonce heq)
    refine ⟨m, n, item, hsealed, rfl, ?_, congrArg Sealing.plain heq⟩
    rw [hnonce, toNat_counterOf]
  · obtain ⟨n, hn, hkey⟩ := h.backLog _ hback
    have hle : epochOf n ≤ E :=
      (epochOf_mono (hn.le.trans (List.countP_le_length ..))).trans hE
    obtain ⟨hdir, -⟩ := hkeys _ _ _ _ ht hle hkey
    simp at hdir

/-- The sender was called. -/
theorem send (h : leg.Inv hkdf root isInitiator turns F origin) (item : Item) (aad : Bytes) :
    (leg.step A hkdf (.send item aad)).2.Inv hkdf root isInitiator
      (turns ++ [⟨.send item aad, (leg.step A hkdf (.send item aad)).1⟩]) F origin := by
  obtain ⟨tx', hat, hcase⟩ :=
    h.tx.seal_spec (A := A) item.streamId item.frameType item.payload aad
  have hstep : (leg.step A hkdf (.send item aad)).2 = { leg with tx := tx' } ∧
      ∀ s ∈ tx'.log, s ∈ leg.tx.log ∨ ∃ epochId counter c,
        (leg.step A hkdf (.send item aad)).1 = .sealed (.ok ⟨epochId, counter, c⟩) ∧
        s = DatagramTx.sealingOf hkdf (txChain0 hkdf root isInitiator) (sends turns) aad
          (DatagramTx.plaintext item.streamId item.frameType item.payload) c := by
    split at hcase <;> obtain ⟨hrun, hlog⟩ := hcase <;> rw [step, hrun, hlog]
    · refine ⟨rfl, fun s hs ↦ (List.mem_append.mp hs).imp_right fun hs ↦ ?_⟩
      exact ⟨_, _, _, rfl, List.mem_singleton.mp hs⟩
    · exact ⟨rfl, fun s hs ↦ Or.inl hs⟩
  generalize (leg.step A hkdf (.send item aad)).1 = r at hstep ⊢
  have hsends : sends (turns ++ [⟨.send item aad, r⟩]) = sends turns + 1 := by
    simp [sends, LegEvent.isSend]
  have hback : sendsBack (turns ++ [⟨.send item aad, r⟩]) = sendsBack turns := by
    simp [sendsBack, LegEvent.isSendBack]
  rw [hstep.1]
  refine
    { tx := by rw [hsends]; exact hat
      back := by rw [hback]; exact h.back
      rx := h.rx
      epoch_le := by rw [hsends]; exact h.epoch_le.trans (epochOf_mono (Nat.le_succ _))
      txLog := fun s hs ↦ ?_
      backLog := by rw [hback]; exact h.backLog
      attributed := h.attributed.concat (by simp [OpenedAt]) }
  rcases hstep.2 s hs with hold | ⟨epochId, counter, c, hr, rfl⟩
  · obtain ⟨m, n, item', hsealed, heq⟩ := h.txLog s hold
    exact ⟨m, n, item', hsealed.concat, heq⟩
  · refine ⟨turns.length, sends turns, item, ⟨by simp, epochId, counter, ?_⟩, rfl⟩
    simp [hr, DatagramTx.sealingOf]

/-- The receiver's own sender was. -/
theorem sendBack (h : leg.Inv hkdf root isInitiator turns F origin) (item : Item) (aad : Bytes) :
    (leg.step A hkdf (.sendBack item aad)).2.Inv hkdf root isInitiator
      (turns ++ [⟨.sendBack item aad, (leg.step A hkdf (.sendBack item aad)).1⟩]) F origin := by
  obtain ⟨back', hat, hcase⟩ :=
    h.back.seal_spec (A := A) item.streamId item.frameType item.payload aad
  generalize hr : (leg.step A hkdf (.sendBack item aad)).1 = r
  have hback : sendsBack (turns ++ [⟨.sendBack item aad, r⟩]) = sendsBack turns + 1 := by
    simp [sendsBack, LegEvent.isSendBack]
  have hsends : sends (turns ++ [⟨.sendBack item aad, r⟩]) = sends turns := by
    simp [sends, LegEvent.isSend]
  have hstate : (leg.step A hkdf (.sendBack item aad)).2 = { leg with back := back' } ∧
      ∀ s ∈ back'.log, s ∈ leg.back.log ∨
        s.key = (epochKeys hkdf (txChain0 hkdf root (!isInitiator)) (epochOf (sendsBack turns))).key
      := by
    split at hcase <;> obtain ⟨hrun, hlog⟩ := hcase <;> rw [step, hrun, hlog]
    · refine ⟨rfl, fun s hs ↦ (List.mem_append.mp hs).imp_right fun hs ↦ ?_⟩
      rw [List.mem_singleton.mp hs]
      rfl
    · exact ⟨rfl, fun s hs ↦ Or.inl hs⟩
  rw [hstate.1]
  refine
    { tx := by rw [hsends]; exact h.tx
      back := by rw [hback]; exact hat
      rx := h.rx
      epoch_le := by rw [hsends]; exact h.epoch_le
      txLog := ?_
      backLog := ?_
      attributed := h.attributed.concat (by simp [OpenedAt]) }
  · intro s hs
    obtain ⟨m, n, item', hsealed, heq⟩ := h.txLog s hs
    exact ⟨m, n, item', hsealed.concat, heq⟩
  · intro s hs
    rw [hback]
    rcases hstate.2 s hs with hs | hs
    · obtain ⟨n, hn, hkey⟩ := h.backLog s hs
      exact ⟨n, hn.trans (Nat.lt_succ_self _), hkey⟩
    · exact ⟨sendsBack turns, Nat.lt_succ_self _, hs⟩

/-- A turn of the receiver leaves the senders alone. -/
theorem concat_deliver (h : leg.Inv hkdf root isInitiator turns F origin) {epochId : UInt8}
    {wireCounter : UInt64} {wireBits : ℕ} {aad c : Bytes} {r : LegResult} {rx' : DatagramRx}
    {F' : EpochFilter} {origin' : ℕ → ℕ}
    (hrx : rx'.Represents hkdf (txChain0 hkdf root isInitiator) F')
    (hle : F'.epoch ≤ epochOf (sends turns))
    (hattributed : Attributed (turns ++ [⟨.deliver epochId wireCounter wireBits c aad, r⟩]) F'
      origin') :
    Inv hkdf root isInitiator (turns ++ [⟨.deliver epochId wireCounter wireBits c aad, r⟩])
      { leg with rx := rx' } F' origin' := by
  have hsends : sends (turns ++ [⟨.deliver epochId wireCounter wireBits c aad, r⟩])
      = sends turns := by
    simp [sends, LegEvent.isSend]
  have hback : sendsBack (turns ++ [⟨.deliver epochId wireCounter wireBits c aad, r⟩])
      = sendsBack turns := by
    simp [sendsBack, LegEvent.isSendBack]
  refine
    { tx := by rw [hsends]; exact h.tx
      back := by rw [hback]; exact h.back
      rx := hrx
      epoch_le := by rw [hsends]; exact hle
      txLog := fun s hs ↦ ?_
      backLog := by rw [hback]; exact h.backLog
      attributed := hattributed }
  obtain ⟨m, n, item, hsealed, heq⟩ := h.txLog s hs
  exact ⟨m, n, item, hsealed.concat, heq⟩

/-- The receiver was given a datagram. -/
theorem deliver (h : leg.Inv hkdf root isInitiator turns F origin)
    (hE : epochOf turns.length + 1 ≤ E) (hkeys : KeysDistinct hkdf root E)
    (hpay : ∀ turn ∈ turns, ∀ item aad, turn.event = .send item aad → item.payload.length < 2 ^ 16)
    {epochId : UInt8} {wireCounter : UInt64} {wireBits : ℕ} (hb : 1 ≤ wireBits)
    (hb' : wireBits < 64) {aad c : Bytes} (hauth : leg.Authentic A hkdf root E aad c) :
    ∃ F' origin',
      (leg.step A hkdf (.deliver epochId wireCounter wireBits c aad)).2.Inv hkdf root isInitiator
        (turns ++ [⟨.deliver epochId wireCounter wireBits c aad,
          (leg.step A hkdf (.deliver epochId wireCounter wireBits c aad)).1⟩]) F' origin' := by
  have hle : F.epoch ≤ epochOf turns.length :=
    h.epoch_le.trans (epochOf_mono (List.countP_le_length ..))
  have hlistens : ∀ {t}, F.Listens t → t ≤ E := fun ht ↦ by
    have := ht.1
    omega
  -- what opens was sealed, under a counter of its epoch
  have hsmall : ∀ t, F.Listens t → ∀ counter p, Recovers wireCounter wireBits counter →
      openAs A hkdf (txChain0 hkdf root isInitiator) t counter aad c = some p →
      counter.toNat < 2 ^ 14 := fun t ht counter p _ hopen ↦ by
    obtain ⟨m, n, item, -, -, hcounter, -⟩ :=
      h.exists_sealedAt (by omega) hkeys hauth (hlistens ht) hopen
    rw [hcounter]
    exact counterOf_lt n
  rcases h.rx.decryptDatagram epochId wireCounter hb hb' hsmall with
    ⟨t, counter, p, rx', rfl, -, hopen, htakes, hrun, hrepresents⟩ | ⟨e, hrun, -⟩
  · obtain ⟨m, n, item, hm, rfl, hcounter, rfl⟩ :=
      h.exists_sealedAt (by omega) hkeys hauth (hlistens htakes.1) hopen
    obtain ⟨-, _, _, hturn⟩ := id hm
    obtain ⟨f, hparse, rfl⟩ := DatagramRx.parsePlaintext_plaintext item
      (hpay _ (List.mem_of_getElem? hturn) _ _ rfl)
    rw [hcounter] at hrepresents
    refine ⟨F.take (epochOf n) (counterOf n), Function.update origin turns.length m, ?_⟩
    rw [step, DatagramRx.open_of_ok hrun, hparse]
    exact h.concat_deliver hrepresents
      (max_le h.epoch_le (epochOf_mono hm.lt_sends.le))
      (h.attributed.concat_opened ⟨_, _, _, rfl⟩ hm (hcounter ▸ htakes.not_mem))
  · refine ⟨F, origin, ?_⟩
    rw [step, DatagramRx.open_of_err hrun]
    exact h.concat_deliver h.rx h.epoch_le (h.attributed.concat (by simp [OpenedAt]))

end Leg.Inv

/-! ### Runs -/

/-- The payload of a sealed frame fits its length field, and a delivered counter has a width that
leaves room for reconstruction. -/
def LegEvent.WellFormed : LegEvent → Prop
  | .send item _ => item.payload.length ≤ 65535
  | .sendBack item _ => item.payload.length ≤ 65535
  | .deliver _ _ wireBits _ _ => 1 ≤ wireBits ∧ wireBits ≤ 63

/-- The events of a run are those it was given. -/
theorem Leg.map_event_run (A : ChaCha20Poly1305) (hkdf : HkdfSha256) (leg : Leg)
    (events : List LegEvent) : (leg.run A hkdf events).1.map Turn.event = events := by
  induction events using List.reverseRecOn with
  | nil => rfl
  | append_singleton events event ih => simp [run_concat, ih]

/-- **A whole run** keeps the invariant. -/
theorem Leg.Inv.of_run {A : ChaCha20Poly1305} {hkdf : HkdfSha256} {root : ByteArr 32}
    {isInitiator : Bool} {E : ℕ} (events : List LegEvent) (hE : epochOf events.length + 1 ≤ E)
    (hwell : ∀ event ∈ events, event.WellFormed) (hkeys : KeysDistinct hkdf root E)
    (hauth : ∀ past epochId wireCounter wireBits c aad,
      past ++ [.deliver epochId wireCounter wireBits c aad] <+: events →
      ((new hkdf root isInitiator).run A hkdf past).2.Authentic A hkdf root E aad c) :
    ∃ F origin, ((new hkdf root isInitiator).run A hkdf events).2.Inv hkdf root isInitiator
      ((new hkdf root isInitiator).run A hkdf events).1 F origin := by
  induction events using List.reverseRecOn with
  | nil => exact ⟨_, _, start root isInitiator⟩
  | append_singleton events event ih =>
    have hmono : epochOf events.length ≤ epochOf (events ++ [event]).length :=
      epochOf_mono (by simp)
    obtain ⟨F, origin, h⟩ := ih (by omega) (fun e he ↦ hwell e (List.mem_append_left _ he))
      fun past _ _ _ _ _ hpast ↦ hauth past _ _ _ _ _ (hpast.trans (List.prefix_append _ _))
    rw [run_concat]
    cases event with
    | send item aad => exact ⟨F, origin, h.send item aad⟩
    | sendBack item aad => exact ⟨F, origin, h.sendBack item aad⟩
    | deliver epochId wireCounter wireBits c aad =>
      obtain ⟨hb, hb'⟩ := hwell _ (List.mem_append_right _ (List.mem_singleton_self _))
      refine h.deliver (E := E) ?_ hkeys ?_ hb (by omega) (hauth events _ _ _ _ _ List.prefix_rfl)
      · rw [length_run]
        omega
      · intro turn hturn item aad' hevent
        have hmem : turn.event ∈ events := by
          rw [← map_event_run A hkdf (new hkdf root isInitiator) events]
          exact List.mem_map_of_mem hturn
        have hitem := hwell _ (List.mem_append_left _ hmem)
        rw [hevent] at hitem
        exact Nat.lt_succ_of_le hitem

/-! ### A run of three events -/

theorem keysDistinct_repeating {E : ℕ} (hE : E < 128) :
    KeysDistinct .repeating (ByteArr.zero 32) E := by
  intro d d' e e' he he' h
  rw [HkdfSha256.repeating_epochKey, HkdfSha256.repeating_epochKey] at h
  have hnat := congrArg UInt8.toNat (List.cons.inj (congrArg Subtype.val h)).1
  rw [UInt8.toNat_add, UInt8.toNat_add, UInt8.toNat_ofNat', UInt8.toNat_ofNat'] at hnat
  cases d <;> cases d' <;> simp at hnat ⊢ <;> omega

namespace Replayed

def item : Item := ⟨9, .udpData, [1, 2, 3]⟩

def aad : Bytes := [7, 7]

/-- The keys of the first epoch. -/
def keys : DatagramEpochKeys :=
  epochKeys .repeating (txChain0 .repeating (ByteArr.zero 32) true) 0

def plain : Bytes := DatagramTx.plaintext item.streamId item.frameType item.payload

/-- The first datagram. -/
def cipher : Bytes :=
  plain ++ ChaCha20Poly1305.clearTag keys.key (buildNonce keys.salt 0) aad 28

/-- It is delivered twice. -/
def events : List LegEvent :=
  [.send item aad, .deliver 0 0 16 cipher aad, .deliver 0 0 16 cipher aad]

def leg : Leg := .new .repeating (ByteArr.zero 32) true

/-- The state both deliveries find the log in. -/
theorem authentic {past : List LegEvent}
    (hlog : (leg.run .clear .repeating past).2.log
      = [⟨keys.key, buildNonce keys.salt 0, aad, plain, cipher⟩]) :
    (leg.run .clear .repeating past).2.Authentic .clear .repeating (ByteArr.zero 32) 1 aad
      cipher := by
  intro d e _ nonce p hp
  have henc : ChaCha20Poly1305.clear.encrypt keys.key (buildNonce keys.salt 0) aad plain
      = some cipher := by decide +kernel
  obtain ⟨rfl, rfl, hkey⟩ := ChaCha20Poly1305.clear_decrypt_of_encrypt henc hp
  rw [HkdfSha256.eq_of_take_one_repeating hkey, hlog]
  exact List.mem_singleton_self _

end Replayed

/-! ### The theorem -/

/-- **Authenticity and at-most-once delivery.** Run the leg on any events: frames are sealed in both
directions, and the receiver is given anything at any time. If the keys of the epochs in reach are
different, and what is delivered opens under them only as it was sealed, then every turn that opens
a frame has a turn of its own, earlier, that sealed this frame to this ciphertext under this
associated data. -/
theorem datagram_authenticity (A : ChaCha20Poly1305) (hkdf : HkdfSha256) (root : ByteArr 32)
    (isInitiator : Bool) (events : List LegEvent) (hwell : ∀ event ∈ events, event.WellFormed)
    (hkeys : KeysDistinct hkdf root (epochOf events.length + 1))
    (hauth : ∀ past epochId wireCounter wireBits c aad,
      past ++ [.deliver epochId wireCounter wireBits c aad] <+: events →
      ((Leg.new hkdf root isInitiator).run A hkdf past).2.Authentic A hkdf root
        (epochOf events.length + 1) aad c) :
    let turns := ((Leg.new hkdf root isInitiator).run A hkdf events).1
    ∃ origin : ℕ → ℕ,
      (∀ j f aad c, OpenedAt turns j f aad c →
        origin j < j ∧ ∃ n, SealedAt turns (origin j) n f.item aad c) ∧
      Set.InjOn origin {j | ∃ f aad c, OpenedAt turns j f aad c} := by
  obtain ⟨F, origin, h⟩ := Leg.Inv.of_run events (Nat.le_refl _) hwell hkeys hauth
  refine ⟨origin, fun j f aad c hj ↦ ?_, h.attributed.2⟩
  obtain ⟨hlt, n, hsealed, -⟩ := h.attributed.1 j f aad c hj
  exact ⟨hlt, n, hsealed⟩

/-- The first delivery opens, the second does not, and the theorem applies to the run. -/
theorem datagram_authenticity_replayed :
    let turns := (Replayed.leg.run .clear .repeating Replayed.events).1
    (∃ f, OpenedAt turns 1 f Replayed.aad Replayed.cipher) ∧
      ∃ origin : ℕ → ℕ,
        (∀ j f aad c, OpenedAt turns j f aad c →
          origin j < j ∧ ∃ n, SealedAt turns (origin j) n f.item aad c) ∧
        Set.InjOn origin {j | ∃ f aad c, OpenedAt turns j f aad c} := by
  refine ⟨⟨.received (ByteArr.zero 16) 9 .udpData [1, 2, 3] [], 0, 0, 16, by decide +kernel⟩, ?_⟩
  refine datagram_authenticity .clear .repeating (ByteArr.zero 32) true Replayed.events ?_
    (keysDistinct_repeating (by decide)) ?_
  · intro event hevent
    simp only [Replayed.events, List.mem_cons, List.not_mem_nil, or_false] at hevent
    rcases hevent with rfl | rfl | rfl <;> simp [LegEvent.WellFormed, Replayed.item]
  · intro past epochId wireCounter wireBits c aad hpast
    rcases past with - | ⟨e₁, - | ⟨e₂, - | ⟨e₃, past⟩⟩⟩ <;>
      simp [Replayed.events, List.cons_prefix_cons] at hpast
    · obtain ⟨rfl, -, -, -, rfl, rfl⟩ := hpast
      exact Replayed.authentic (by decide +kernel)
    · obtain ⟨rfl, rfl, -, -, -, rfl, rfl⟩ := hpast
      exact Replayed.authentic (by decide +kernel)
