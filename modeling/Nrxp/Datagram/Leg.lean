import Nrxp.Crypto.DatagramKeys
import Nrxp.Datagram.Window
import Nrxp.Frame
import Nrxp.Lib.EpochFilter

/-!
# The datagram leg

One frame is one datagram, sealed under the keys of an epoch and a counter that starts at 0 in each
of them. The sender moves to the next epoch by its own count; the receiver follows when a datagram
of the next epoch has opened, and keeps the epoch before.

The first half is the code. The second half says what it does in terms of absolute epochs:
`DatagramTx.At.seal_spec` for the sender, and for the receiver `Represents`, which ties it to an
`EpochFilter`, with `DatagramRx.open_spec` for one call.

`DatagramTx.log` is a history variable: the encryptions made so far, oldest first.
-/

/-- The nonce of a datagram: made like that of a record, from a counter given from outside. -/
def buildNonce (salt : Nonce) (counter : UInt64) : Nonce := nonceAt salt counter

def authFail (what : String) : TlsError := ⟨.tls what, .drop, []⟩

/-- A sealed datagram, and what the receiver has to be told of it. -/
structure SealedDatagram where
  epochId : UInt8
  counter : UInt64
  ciphertext : Bytes
  deriving DecidableEq, Repr

/-- The sending side. -/
structure DatagramTx where
  keys : DatagramKeyMaterial
  counter : UInt64
  /-- History: every encryption made. -/
  log : List (Sealing Key Nonce)

/-- The keys and the replay window of one epoch, at the receiver. -/
structure EpochSlot where
  epochId : UInt8
  keys : DatagramEpochKeys
  window : ReplayWindow

/-- The receiving side: the current epoch, and the one before it. -/
structure DatagramRx where
  keys : DatagramKeyMaterial
  current : EpochSlot
  previous : Option EpochSlot

section Code

variable (A : ChaCha20Poly1305) (hkdf : HkdfSha256)

namespace DatagramTx

def new (keys : DatagramKeyMaterial) : DatagramTx := ⟨keys, 0, []⟩

/-- The epoch and the counter the next `seal` uses. -/
def peekNextEpochAndCounter (tx : DatagramTx) : UInt8 × UInt64 :=
  if tx.counter ≥ rekeyAfterDatagrams then (tx.keys.txEpochId + 1, 0)
  else (tx.keys.txEpochId, tx.counter)

/-- The plaintext of a datagram: a frame with a zero tag and no padding. -/
def plaintext (streamId : UInt32) (frameType : FrameType) (payload : Bytes) : Bytes :=
  -- no padding, so nothing is drawn from the generator
  ((Frame.new streamId frameType payload).intoBytes (ByteArr.zero 16) 0 (Stream'.const 0)).1

end DatagramTx

/-- Seal one frame, in the next epoch if this one is used up. -/
def DatagramTx.seal (streamId : UInt32) (frameType : FrameType) (payload aad : Bytes) :
    Exec DatagramTx TlsError SealedDatagram := do
  Exec.modify fun tx ↦
    if tx.counter ≥ rekeyAfterDatagrams then
      { tx with keys := tx.keys.txAdvance hkdf, counter := 0 }
    else tx
  let tx ← Exec.get
  let epoch := tx.keys.txCurrent hkdf
  let counter := tx.counter
  let next ← Exec.lift (checkedAdd counter 1)
  Exec.set { tx with counter := next }
  let buf := plaintext streamId frameType payload
  let nonce := buildNonce epoch.salt counter
  match A.encrypt epoch.key nonce aad buf with
  | some c =>
    Exec.modify fun tx ↦ { tx with log := tx.log ++ [⟨epoch.key, nonce, aad, buf, c⟩] }
    return ⟨epoch.epochId, counter, c⟩
  | none => Exec.throw (authFail "Datagram AEAD seal failed")

namespace EpochSlot

def fresh (keys : DatagramEpochKeys) : EpochSlot := ⟨keys.epochId, keys, .new⟩

/-- Decrypt, then ask the window. A forgery and a replay look the same to the caller. -/
def tryOpen (wireCounter : UInt64) (wireBits : ℕ) (ciphertext aad : Bytes) :
    Exec EpochSlot TlsError (Option Bytes) := do
  let slot ← Exec.get
  let fullCounter ← Exec.lift (expandCounter slot.window.highest wireCounter wireBits)
  match A.decrypt slot.keys.key (buildNonce slot.keys.salt fullCounter) aad ciphertext with
  | none => return none
  | some buf =>
    let accepted ← Exec.zoom (·.window) (fun window slot ↦ { slot with window })
      (ReplayWindow.accept fullCounter)
    return if accepted then some buf else none

end EpochSlot

namespace DatagramRx

def new (keys : DatagramKeyMaterial) : DatagramRx := ⟨keys, .fresh (keys.rxCurrent hkdf), none⟩

/-- `tryOpen`, with `what` as the error. -/
def openSlot (what : String) (wireCounter : UInt64) (wireBits : ℕ) (ciphertext aad : Bytes) :
    Exec EpochSlot TlsError Bytes := do
  let plain ← EpochSlot.tryOpen A wireCounter wireBits ciphertext aad
  Exec.lift (.ofOption (authFail what) plain)

/-- The plaintext of a datagram, from the slot its label names. -/
def decryptDatagram (epochId : UInt8) (wireCounter : UInt64) (wireBits : ℕ)
    (ciphertext aad : Bytes) : Exec DatagramRx TlsError Bytes := do
  let rx ← Exec.get
  if epochId = rx.current.epochId then
    Exec.zoom (·.current) (fun current rx ↦ { rx with current })
      (openSlot A "Datagram AEAD open failed (current epoch)" wireCounter wireBits ciphertext aad)
  else
    match rx.previous.filter (·.epochId = epochId) with
    | some previous =>
      Exec.zoom (fun _ ↦ previous) (fun slot rx ↦ { rx with previous := some slot })
        (openSlot A "Datagram AEAD open failed (previous epoch)" wireCounter wireBits ciphertext
          aad)
    | none =>
      if epochId = rx.current.epochId + 1 then
        let candidate := EpochSlot.fresh (rx.keys.rxPeekNext hkdf)
        let (opened, candidate) :=
          openSlot A "Datagram AEAD open failed (candidate next epoch)" wireCounter wireBits
            ciphertext aad candidate
        let plain ← Exec.lift opened
        -- only an authenticated datagram moves the ratchet
        Exec.set ⟨rx.keys.rxAdvance hkdf, candidate, some rx.current⟩
        return plain
      else Exec.throw (authFail "Datagram epoch_id out of acceptable range")

/-- The frame in a plaintext. -/
def parsePlaintext (plaintext : Bytes) : Outcome TlsError Frame := do
  let frame ← (Frame.parse plaintext).1.mapErr fun _ ↦ authFail "Datagram frame parse error"
  Outcome.ofOption (authFail "Datagram plaintext did not contain a full frame") frame

end DatagramRx

/-- Open one datagram. -/
def DatagramRx.open (epochId : UInt8) (wireCounter : UInt64) (wireBits : ℕ)
    (ciphertext aad : Bytes) : Exec DatagramRx TlsError Frame := do
  let plaintext ← DatagramRx.decryptDatagram A hkdf epochId wireCounter wireBits ciphertext aad
  Exec.lift (DatagramRx.parsePlaintext plaintext)

end Code

/-! ### The sender -/

/-- The absolute epoch of the `n`-th datagram of a sender. -/
def epochOf (n : ℕ) : ℕ := n / rekeyAfterDatagrams.toNat

/-- Its counter. -/
def counterOf (n : ℕ) : ℕ := n % rekeyAfterDatagrams.toNat

theorem toNat_rekeyAfterDatagrams : rekeyAfterDatagrams.toNat = 2 ^ 14 := by decide

theorem counterOf_lt (n : ℕ) : counterOf n < 2 ^ 14 := Nat.mod_lt _ (by decide)

theorem toNat_counterOf (n : ℕ) : (UInt64.ofNat (counterOf n)).toNat = counterOf n :=
  UInt64.toNat_ofNat_of_lt' ((counterOf_lt n).trans (by decide))

/-- A datagram is determined by its epoch and its counter. -/
theorem eq_of_epochOf_counterOf {n m : ℕ} (he : epochOf n = epochOf m)
    (hc : counterOf n = counterOf m) : n = m := by
  rw [← Nat.div_add_mod n rekeyAfterDatagrams.toNat, ← Nat.div_add_mod m rekeyAfterDatagrams.toNat]
  exact congrArg₂ (rekeyAfterDatagrams.toNat * · + ·) he hc

theorem epochOf_mono {n m : ℕ} (h : n ≤ m) : epochOf n ≤ epochOf m := Nat.div_le_div_right h

theorem plaintext_eq (streamId : UInt32) (frameType : FrameType) (payload : Bytes) :
    DatagramTx.plaintext streamId frameType payload
      = frameBytes (ByteArr.zero 16) streamId frameType payload [] := by
  rw [DatagramTx.plaintext, Frame.intoBytes_new]
  rfl

namespace DatagramTx

/-- The sender has sealed `n` datagrams under the chain, or tried to. The step to a new epoch waits
for the first datagram of it. -/
structure At (hkdf : HkdfSha256) (chain0 : ByteArr 32) (n : ℕ) (tx : DatagramTx) : Prop where
  keys : tx.keys.tx = .after hkdf chain0 (epochOf (n - 1))
  counter : tx.counter.toNat = n - epochOf (n - 1) * 2 ^ 14

/-- What the cipher makes of the `n`-th datagram. -/
def sealNth (A : ChaCha20Poly1305) (hkdf : HkdfSha256) (chain0 : ByteArr 32) (n : ℕ)
    (aad plain : Bytes) : Option Bytes :=
  let keys := epochKeys hkdf chain0 (epochOf n)
  A.encrypt keys.key (buildNonce keys.salt (UInt64.ofNat (counterOf n))) aad plain

/-- The record of sealing the `n`-th datagram. -/
def sealingOf (hkdf : HkdfSha256) (chain0 : ByteArr 32) (n : ℕ) (aad plain c : Bytes) :
    Sealing Key Nonce :=
  let keys := epochKeys hkdf chain0 (epochOf n)
  ⟨keys.key, buildNonce keys.salt (UInt64.ofNat (counterOf n)), aad, plain, c⟩

variable {A : ChaCha20Poly1305} {hkdf : HkdfSha256} {chain0 : ByteArr 32} {n : ℕ} {tx : DatagramTx}

theorem at_new (root : ByteArr 32) (isInitiator : Bool) :
    (new (.deriveFromRoot hkdf root isInitiator)).At hkdf (txChain0 hkdf root isInitiator) 0 :=
  ⟨DatagramKeyMaterial.deriveFromRoot_tx _ _ _, rfl⟩

/-- The state `seal` works in: rekeyed, if that was due. -/
theorem At.rekeyed (h : tx.At hkdf chain0 n) :
    ∃ tx' : DatagramTx, (if tx.counter ≥ rekeyAfterDatagrams then
        { tx with keys := tx.keys.txAdvance hkdf, counter := 0 } else tx) = tx' ∧
      tx'.keys.tx = .after hkdf chain0 (epochOf n) ∧ tx'.counter = UInt64.ofNat (counterOf n) ∧
      tx'.log = tx.log := by
  have hcounter := h.counter
  have hdiv : epochOf (n - 1) = (n - 1) / 2 ^ 14 := rfl
  have hepoch : epochOf n = n / 2 ^ 14 := rfl
  have hmod : counterOf n = n % 2 ^ 14 := rfl
  by_cases hdue : tx.counter ≥ rekeyAfterDatagrams
  · have hdue' : 2 ^ 14 ≤ tx.counter.toNat := by
      rw [← toNat_rekeyAfterDatagrams]
      exact UInt64.le_iff_toNat_le.mp hdue
    have hnext : epochOf n = epochOf (n - 1) + 1 := by omega
    have hzero : counterOf n = 0 := by omega
    refine ⟨_, if_pos hdue, ?_, by rw [hzero]; rfl, rfl⟩
    rw [hnext, ← KeyRatchet.advance_after, ← h.keys]
    rfl
  · have hdue' : tx.counter.toNat < 2 ^ 14 := by
      rw [← toNat_rekeyAfterDatagrams]
      exact UInt64.lt_iff_toNat_lt.mp (UInt64.not_le.mp hdue)
    have hsame : epochOf n = epochOf (n - 1) := by omega
    refine ⟨tx, if_neg hdue, by rw [hsame]; exact h.keys, ?_, rfl⟩
    apply UInt64.toNat_inj.mp
    rw [toNat_counterOf, hcounter]
    omega

/-- What is announced is what the next call uses: both decide on the new epoch alike. -/
theorem At.peekNextEpochAndCounter (h : tx.At hkdf chain0 n) :
    tx.peekNextEpochAndCounter = (UInt8.ofNat (epochOf n), UInt64.ofNat (counterOf n)) := by
  obtain ⟨tx', hrekey, hkeys, hcounter, -⟩ := h.rekeyed
  have hepochId : tx'.keys.txEpochId = UInt8.ofNat (epochOf n) := by
    rw [DatagramKeyMaterial.txEpochId, hkeys, KeyRatchet.after_epochId]
  rw [← hepochId, ← hcounter, ← hrekey, DatagramTx.peekNextEpochAndCounter]
  split
  · rfl
  · rfl

/-- **One call of the sender**: the `n`-th datagram is sealed under the keys of its epoch and the
nonce of its counter. A refusal of the cipher uses the number up all the same. -/
theorem At.seal_spec (h : tx.At hkdf chain0 n) (streamId : UInt32) (frameType : FrameType)
    (payload aad : Bytes) :
    ∃ tx', tx'.At hkdf chain0 (n + 1) ∧
      match sealNth A hkdf chain0 n aad (plaintext streamId frameType payload) with
      | some c =>
        tx.seal A hkdf streamId frameType payload aad
            = (.ok ⟨UInt8.ofNat (epochOf n), UInt64.ofNat (counterOf n), c⟩, tx') ∧
          tx'.log = tx.log ++
            [sealingOf hkdf chain0 n aad (plaintext streamId frameType payload) c]
      | none =>
        tx.seal A hkdf streamId frameType payload aad
            = (.err (authFail "Datagram AEAD seal failed"), tx') ∧ tx'.log = tx.log := by
  obtain ⟨tx₁, hrekey, hkeys, hcounter, hlog⟩ := h.rekeyed
  have hlt := counterOf_lt n
  have hnat : tx₁.counter.toNat = counterOf n := by rw [hcounter, toNat_counterOf]
  obtain ⟨hadd, haddNat⟩ := checkedAdd_of_lt (a := tx₁.counter) (b := 1) (by
    rw [hnat, UInt64.toNat_one]
    omega)
  have hcurrent : tx₁.keys.txCurrent hkdf = epochKeys hkdf chain0 (epochOf n) := by
    rw [DatagramKeyMaterial.txCurrent, hkeys, KeyRatchet.current_after]
  -- the counter goes on whether or not the cipher accepts
  have hat : ∀ log, At hkdf chain0 (n + 1) ⟨tx₁.keys, tx₁.counter + 1, log⟩ := fun log ↦ by
    refine ⟨hkeys, ?_⟩
    show (tx₁.counter + 1).toNat = _
    rw [haddNat, hnat, UInt64.toNat_one]
    simp only [Nat.add_sub_cancel, epochOf, counterOf, toNat_rekeyAfterDatagrams]
    omega
  rw [DatagramTx.seal, Exec.modify_bind, hrekey, Exec.get_bind, hadd, Exec.lift_ok_bind,
    Exec.set_bind, hcurrent, hcounter]
  rcases hsealed : sealNth A hkdf chain0 n aad (plaintext streamId frameType payload) with - | c
  all_goals rw [sealNth] at hsealed
  all_goals rw [hsealed]
  · exact ⟨⟨tx₁.keys, tx₁.counter + 1, tx₁.log⟩, hat _, by rw [hcounter]; rfl, hlog⟩
  · exact ⟨⟨tx₁.keys, tx₁.counter + 1, _⟩, hat _, by rw [hcounter]; rfl,
      congrArg (· ++ [_]) hlog⟩

end DatagramTx

/-! ### The receiver -/

/-- `c` is the counter that a slot recovers from what travels. -/
def Recovers (wireCounter : UInt64) (wireBits : ℕ) (c : UInt64) : Prop :=
  ∃ highest, expandCounter highest wireCounter wireBits = .ok c ∧ highest.toNat < 2 ^ 14

/-- With 15 bits or more, a counter of an epoch is recovered exactly. -/
theorem Recovers.eq {full c : UInt64} {bits : ℕ} (hb : 15 ≤ bits) (hb' : bits < 64)
    (hfull : full.toNat < 2 ^ 14) (h : Recovers (truncateCounter full bits) bits c) : c = full := by
  obtain ⟨highest, hc, hhighest⟩ := h
  have hhalf : 2 ^ 14 ≤ 2 ^ (bits - 1) := Nat.pow_le_pow_right (by decide) (by omega)
  have hexact : expandCounter highest (truncateCounter full bits) bits = .ok full :=
    expandCounter_truncateCounter (by omega) hb' (by omega) (by omega) (by omega)
  cases hc.symm.trans hexact
  rfl

variable {A : ChaCha20Poly1305} {hkdf : HkdfSha256} {chain0 : ByteArr 32}

/-- What decrypting as counter `c` of the absolute epoch `t` gives. -/
def openAs (A : ChaCha20Poly1305) (hkdf : HkdfSha256) (chain0 : ByteArr 32) (t : ℕ) (c : UInt64)
    (aad ciphertext : Bytes) : Option Bytes :=
  let keys := epochKeys hkdf chain0 t
  A.decrypt keys.key (buildNonce keys.salt c) aad ciphertext

namespace EpochSlot

/-- The slot is that of the absolute epoch `t`, and has accepted the counters `s`. -/
structure At (hkdf : HkdfSha256) (chain0 : ByteArr 32) (t : ℕ) (s : Set ℕ) (slot : EpochSlot) :
    Prop where
  keys : slot.keys = epochKeys hkdf chain0 t
  epochId : slot.epochId = UInt8.ofNat t
  window : slot.window.Holds s
  /-- Only counters of an epoch were. -/
  lt : ∀ c ∈ s, c < 2 ^ 14

theorem at_fresh (t : ℕ) : (fresh (epochKeys hkdf chain0 t)).At hkdf chain0 t ∅ :=
  ⟨rfl, rfl, .fresh, by simp⟩

theorem At.highest_lt {t : ℕ} {s : Set ℕ} {slot : EpochSlot} (h : slot.At hkdf chain0 t s) :
    slot.window.highest.toNat < 2 ^ 14 := by
  rcases h.window.highest_mem with hmem | ⟨hzero, -⟩
  · exact h.lt _ hmem
  · rw [hzero]
    decide

/-- A try runs as the counter recovered says: the window is asked only if the datagram decrypts. -/
theorem At.tryOpen_run {t : ℕ} {s : Set ℕ} {slot : EpochSlot} (h : slot.At hkdf chain0 t s)
    {wireCounter c : UInt64} {wireBits : ℕ}
    (hc : expandCounter slot.window.highest wireCounter wireBits = .ok c) (ciphertext aad : Bytes) :
    EpochSlot.tryOpen A wireCounter wireBits ciphertext aad slot =
      match openAs A hkdf chain0 t c aad ciphertext with
      | none => (.ok none, slot)
      | some p => (Exec.zoom (·.window) (fun window slot ↦ { slot with window })
          (ReplayWindow.accept c) >>= fun accepted ↦ pure (if accepted then some p else none))
          slot := by
  have hdecrypt : A.decrypt slot.keys.key (buildNonce slot.keys.salt c) aad ciphertext
      = openAs A hkdf chain0 t c aad ciphertext := by
    rw [h.keys]
    rfl
  rw [EpochSlot.tryOpen, Exec.get_bind, hc, Exec.lift_ok_bind, hdecrypt]
  rcases openAs A hkdf chain0 t c aad ciphertext with - | p <;> rfl

/-- **One try at a slot**: the datagram opens if it decrypts under the counter recovered and the
window admits that counter. Otherwise the slot is as it was. -/
theorem At.tryOpen {t : ℕ} {s : Set ℕ} {slot : EpochSlot} (h : slot.At hkdf chain0 t s)
    (wireCounter : UInt64) {wireBits : ℕ} (hb : 1 ≤ wireBits) (hb' : wireBits < 64)
    {ciphertext aad : Bytes}
    (hsmall : ∀ c p, Recovers wireCounter wireBits c →
      openAs A hkdf chain0 t c aad ciphertext = some p → c.toNat < 2 ^ 14) :
    ∃ c, Recovers wireCounter wireBits c ∧
      ((∃ p slot', openAs A hkdf chain0 t c aad ciphertext = some p ∧ Admits 1024 s c.toNat ∧
          EpochSlot.tryOpen A wireCounter wireBits ciphertext aad slot = (.ok (some p), slot') ∧
          slot'.At hkdf chain0 t (insert c.toNat s)) ∨
        (EpochSlot.tryOpen A wireCounter wireBits ciphertext aad slot = (.ok none, slot) ∧
          ∀ p, openAs A hkdf chain0 t c aad ciphertext = some p → ¬Admits 1024 s c.toNat)) := by
  have hhighest := h.highest_lt
  obtain ⟨c, hc, -⟩ := toNat_expandCounter wireCounter hb hb' (hhighest.trans (by decide))
  refine ⟨c, ⟨_, hc, hhighest⟩, ?_⟩
  have hrun := h.tryOpen_run (A := A) hc ciphertext aad
  rcases hopen : openAs A hkdf chain0 t c aad ciphertext with - | p
  · rw [hopen] at hrun
    exact Or.inr ⟨hrun, by simp⟩
  · rw [hopen] at hrun
    have hlt := hsmall c p ⟨_, hc, hhighest⟩ hopen
    obtain ⟨b, w', haccept, hiff, hholds, hsame⟩ :=
      ReplayWindow.accept_spec h.window (show c.toNat < 2 ^ 64 - 1 by omega)
    have hzoom : Exec.zoom (·.window) (fun window slot ↦ { slot with window })
        (ReplayWindow.accept c) slot = (.ok b, { slot with window := w' }) :=
      Exec.zoom_of_eq haccept
    dsimp only at hrun
    rw [Exec.bind_ok hzoom] at hrun
    cases b with
    | true =>
      -- the counter is new, and small because the cipher opened it
      refine Or.inl ⟨p, _, rfl, hiff.mp rfl, hrun, h.keys, h.epochId, hholds rfl, ?_⟩
      rintro n (rfl | hn)
      · exact hlt
      · exact h.lt n hn
    | false =>
      obtain rfl := hsame rfl
      refine Or.inr ⟨hrun, fun q _ hadmits ↦ ?_⟩
      exact Bool.false_ne_true (hiff.mpr hadmits)

/-- The same, with the slot's error in place of nothing. -/
theorem At.openSlot {t : ℕ} {s : Set ℕ} {slot : EpochSlot} (h : slot.At hkdf chain0 t s)
    (what : String) (wireCounter : UInt64) {wireBits : ℕ} (hb : 1 ≤ wireBits) (hb' : wireBits < 64)
    {ciphertext aad : Bytes}
    (hsmall : ∀ c p, Recovers wireCounter wireBits c →
      openAs A hkdf chain0 t c aad ciphertext = some p → c.toNat < 2 ^ 14) :
    ∃ c, Recovers wireCounter wireBits c ∧
      ((∃ p slot', openAs A hkdf chain0 t c aad ciphertext = some p ∧ Admits 1024 s c.toNat ∧
          DatagramRx.openSlot A what wireCounter wireBits ciphertext aad slot = (.ok p, slot') ∧
          slot'.At hkdf chain0 t (insert c.toNat s)) ∨
        (DatagramRx.openSlot A what wireCounter wireBits ciphertext aad slot
            = (.err (authFail what), slot) ∧
          ∀ p, openAs A hkdf chain0 t c aad ciphertext = some p → ¬Admits 1024 s c.toNat)) := by
  obtain ⟨c, hrecovers, ⟨p, slot', hopen, hadmits, hrun, hat⟩ | ⟨hrun, hno⟩⟩ :=
    h.tryOpen wireCounter hb hb' hsmall
  · refine ⟨c, hrecovers, Or.inl ⟨p, slot', hopen, hadmits, ?_, hat⟩⟩
    rw [DatagramRx.openSlot, Exec.bind_ok hrun]
    rfl
  · refine ⟨c, hrecovers, Or.inr ⟨?_, hno⟩⟩
    rw [DatagramRx.openSlot, Exec.bind_ok hrun]
    rfl

end EpochSlot

/-- The epochs listened to have different labels. -/
theorem EpochFilter.Listens.eq_of_label {F : EpochFilter} {t t' : ℕ} (h : F.Listens t)
    (h' : F.Listens t') (hlabel : UInt8.ofNat t = UInt8.ofNat t') : t = t' := by
  obtain ⟨h₁, h₂⟩ := h
  obtain ⟨h₁', h₂'⟩ := h'
  rcases Nat.lt_trichotomy t t' with hlt | heq | hgt
  · exact absurd hlabel (epochLabel_ne hlt (by omega))
  · exact heq
  · exact absurd hlabel.symm (epochLabel_ne hgt (by omega))

namespace DatagramRx

/-- The receiver listens to the chain and has taken from it what the filter has taken. -/
structure Represents (hkdf : HkdfSha256) (chain0 : ByteArr 32) (F : EpochFilter)
    (rx : DatagramRx) : Prop where
  keys : rx.keys.rx = .after hkdf chain0 F.epoch
  current : rx.current.At hkdf chain0 F.epoch (F.seen F.epoch)
  previous : ∀ slot, rx.previous = some slot →
    ∃ t, F.epoch = t + 1 ∧ slot.At hkdf chain0 t (F.seen t)
  /-- There is an epoch before, except at the start. -/
  epoch_eq_zero : rx.previous = none → F.epoch = 0

theorem represents_new (hkdf : HkdfSha256) (root : ByteArr 32) (isInitiator : Bool) :
    Represents hkdf (txChain0 hkdf root (!isInitiator)) .fresh
      (new hkdf (.deriveFromRoot hkdf root isInitiator)) := by
  have hrx := DatagramKeyMaterial.deriveFromRoot_rx hkdf root isInitiator
  refine ⟨hrx, ?_, by simp [new], fun _ ↦ rfl⟩
  have hcurrent : (DatagramKeyMaterial.deriveFromRoot hkdf root isInitiator).rxCurrent hkdf
      = epochKeys hkdf (txChain0 hkdf root (!isInitiator)) 0 := by
    rw [DatagramKeyMaterial.rxCurrent, hrx, KeyRatchet.current_after]
  show EpochSlot.At _ _ _ _ (EpochSlot.fresh _)
  rw [hcurrent]
  exact EpochSlot.at_fresh 0

/-- A counter of the current epoch was taken. -/
theorem Represents.take_current {F : EpochFilter} {rx : DatagramRx}
    (h : Represents hkdf chain0 F rx) {c : ℕ} {slot : EpochSlot}
    (hslot : slot.At hkdf chain0 F.epoch (insert c (F.seen F.epoch))) :
    Represents hkdf chain0 (F.take F.epoch c) { rx with current := slot } where
  keys := by
    rw [EpochFilter.take_epoch, Nat.max_self]
    exact h.keys
  current := by
    rw [EpochFilter.take_epoch, Nat.max_self, EpochFilter.take_seen_self]
    exact hslot
  previous previous hprevious := by
    obtain ⟨t, ht, hat⟩ := h.previous previous hprevious
    rw [EpochFilter.take_epoch, Nat.max_self]
    refine ⟨t, ht, ?_⟩
    rwa [EpochFilter.take_seen_of_ne (by omega)]
  epoch_eq_zero hnone := by
    rw [EpochFilter.take_epoch, Nat.max_self]
    exact h.epoch_eq_zero hnone

/-- A counter of the epoch before was taken. -/
theorem Represents.take_previous {F : EpochFilter} {rx : DatagramRx}
    (h : Represents hkdf chain0 F rx) {t c : ℕ} (ht : F.epoch = t + 1) {slot : EpochSlot}
    (hslot : slot.At hkdf chain0 t (insert c (F.seen t))) :
    Represents hkdf chain0 (F.take t c) { rx with previous := some slot } := by
  have hmax : max F.epoch t = F.epoch := by omega
  refine ⟨?_, ?_, ?_, by simp⟩
  · rw [EpochFilter.take_epoch, hmax]
    exact h.keys
  · rw [EpochFilter.take_epoch, hmax, EpochFilter.take_seen_of_ne (by omega)]
    exact h.current
  · rintro _ ⟨⟩
    refine ⟨t, by rw [EpochFilter.take_epoch, hmax, ht], ?_⟩
    rwa [EpochFilter.take_seen_self]

/-- A counter of the next epoch was taken, which is current from now on. -/
theorem Represents.take_next {F : EpochFilter} {rx : DatagramRx}
    (h : Represents hkdf chain0 F rx) {c : ℕ} {slot : EpochSlot}
    (hslot : slot.At hkdf chain0 (F.epoch + 1) (insert c (F.seen (F.epoch + 1)))) :
    Represents hkdf chain0 (F.take (F.epoch + 1) c)
      ⟨rx.keys.rxAdvance hkdf, slot, some rx.current⟩ := by
  have hmax : max F.epoch (F.epoch + 1) = F.epoch + 1 := by omega
  refine ⟨?_, ?_, ?_, by simp⟩
  · rw [EpochFilter.take_epoch, hmax, ← KeyRatchet.advance_after, ← h.keys]
    rfl
  · rw [EpochFilter.take_epoch, hmax, EpochFilter.take_seen_self]
    exact hslot
  · rintro _ ⟨⟩
    refine ⟨F.epoch, by rw [EpochFilter.take_epoch, hmax], ?_⟩
    rw [EpochFilter.take_seen_of_ne (by omega)]
    exact h.current

/-- How decrypting one datagram may end. What opens is taken from the epoch its label names, by the
counter recovered; otherwise the receiver is as it was, and in an epoch that its label names the
datagram does not decrypt or is not admitted. -/
def Decrypts (A : ChaCha20Poly1305) (hkdf : HkdfSha256) (chain0 : ByteArr 32) (F : EpochFilter)
    (rx : DatagramRx) (epochId : UInt8) (wireCounter : UInt64) (wireBits : ℕ)
    (ciphertext aad : Bytes) (result : Outcome TlsError Bytes × DatagramRx) : Prop :=
  (∃ t c p rx', epochId = UInt8.ofNat t ∧ Recovers wireCounter wireBits c ∧
    openAs A hkdf chain0 t c aad ciphertext = some p ∧ F.Takes 1024 t c.toNat ∧
    result = (.ok p, rx') ∧ Represents hkdf chain0 (F.take t c.toNat) rx') ∨
  (∃ e, result = (.err e, rx) ∧ ∀ t, epochId = UInt8.ofNat t → F.Listens t →
    ∃ c, Recovers wireCounter wireBits c ∧
      ∀ p, openAs A hkdf chain0 t c aad ciphertext = some p → ¬Admits 1024 (F.seen t) c.toNat)

section

variable {F : EpochFilter} {rx : DatagramRx} {epochId : UInt8} {wireCounter : UInt64}
  {wireBits : ℕ} {ciphertext aad : Bytes}

/-- A datagram whose label names the epoch `t` is a try at that epoch's slot; `put` is what becomes
of the receiver if the try succeeds. -/
theorem Decrypts.of_slot {t : ℕ} (hlistens : F.Listens t) {slot : EpochSlot}
    (hat : slot.At hkdf chain0 t (F.seen t)) (hb : 1 ≤ wireBits) (hb' : wireBits < 64)
    (hsmall : ∀ c p, Recovers wireCounter wireBits c →
      openAs A hkdf chain0 t c aad ciphertext = some p → c.toNat < 2 ^ 14)
    (what : String) (put : EpochSlot → DatagramRx)
    (hput : ∀ c slot', EpochSlot.At hkdf chain0 t (insert c (F.seen t)) slot' →
      Represents hkdf chain0 (F.take t c) (put slot'))
    {result : Outcome TlsError Bytes × DatagramRx}
    (hok : ∀ p slot', openSlot A what wireCounter wireBits ciphertext aad slot = (.ok p, slot') →
      result = (.ok p, put slot'))
    (herr : openSlot A what wireCounter wireBits ciphertext aad slot
      = (.err (authFail what), slot) → result = (.err (authFail what), rx)) :
    Decrypts A hkdf chain0 F rx (UInt8.ofNat t) wireCounter wireBits ciphertext aad result := by
  obtain ⟨c, hrecovers, ⟨p, slot', hopen, hadmits, hrun, hat'⟩ | ⟨hrun, hno⟩⟩ :=
    hat.openSlot what wireCounter hb hb' hsmall
  · exact Or.inl ⟨t, c, p, _, rfl, hrecovers, hopen, ⟨hlistens, hadmits⟩, hok p slot' hrun,
      hput _ _ hat'⟩
  · refine Or.inr ⟨_, herr hrun, fun t' hlabel hlistens' ↦ ?_⟩
    obtain rfl := hlistens.eq_of_label hlistens' hlabel
    exact ⟨c, hrecovers, hno⟩

/-- The label of the epoch after the current one. -/
theorem Represents.nextLabel (h : Represents hkdf chain0 F rx) :
    rx.current.epochId + 1 = UInt8.ofNat (F.epoch + 1) := by
  rw [h.current.epochId, UInt8.ofNat_add]
  rfl

/-- The slot made for a datagram of the next epoch. -/
theorem Represents.at_candidate (h : Represents hkdf chain0 F rx) :
    EpochSlot.At hkdf chain0 (F.epoch + 1) (F.seen (F.epoch + 1))
      (.fresh (rx.keys.rxPeekNext hkdf)) := by
  rw [F.seen_of_lt _ (Nat.lt_succ_self _), DatagramKeyMaterial.rxPeekNext, h.keys,
    KeyRatchet.peekNext_after]
  exact EpochSlot.at_fresh _

/-- A label that no slot answers to names no epoch listened to. -/
theorem Represents.not_listens (h : Represents hkdf chain0 F rx) {t : ℕ}
    (hcurrent : UInt8.ofNat t ≠ rx.current.epochId)
    (hprevious : rx.previous.filter (·.epochId = UInt8.ofNat t) = none)
    (hnext : UInt8.ofNat t ≠ rx.current.epochId + 1) : ¬F.Listens t := by
  rintro ⟨hle, hge⟩
  rcases Nat.lt_trichotomy t F.epoch with hlt | heq | hgt
  · have hsome : rx.previous ≠ none := fun hnone ↦ by
      have := h.epoch_eq_zero hnone
      omega
    obtain ⟨slot, hslot⟩ := Option.ne_none_iff_exists'.mp hsome
    obtain ⟨t', ht', hat⟩ := h.previous slot hslot
    obtain rfl : t' = t := by omega
    simp [hslot, hat.epochId] at hprevious
  · exact hcurrent (by rw [h.current.epochId, heq])
  · obtain rfl : t = F.epoch + 1 := by omega
    exact hnext h.nextLabel.symm

/-- **One decryption.** -/
theorem Represents.decryptDatagram (h : Represents hkdf chain0 F rx) (epochId : UInt8)
    (wireCounter : UInt64) (hb : 1 ≤ wireBits) (hb' : wireBits < 64)
    (hsmall : ∀ t, F.Listens t → ∀ c p, Recovers wireCounter wireBits c →
      openAs A hkdf chain0 t c aad ciphertext = some p → c.toNat < 2 ^ 14) :
    Decrypts A hkdf chain0 F rx epochId wireCounter wireBits ciphertext aad
      (decryptDatagram A hkdf epochId wireCounter wireBits ciphertext aad rx) := by
  have hlistens : F.Listens F.epoch := ⟨by omega, by omega⟩
  have hlistens' : F.Listens (F.epoch + 1) := ⟨by omega, by omega⟩
  rw [DatagramRx.decryptDatagram, Exec.get_bind]
  -- the label picks the slot: the current epoch, the one before, or the next
  by_cases hcurrent : epochId = rx.current.epochId
  · rw [if_pos hcurrent, hcurrent, h.current.epochId]
    exact .of_slot hlistens h.current hb hb' (hsmall _ hlistens) _ _
      (fun _ _ hat ↦ h.take_current hat) (fun _ _ hrun ↦ Exec.zoom_of_eq hrun)
      fun hrun ↦ Exec.zoom_of_eq hrun
  rw [if_neg hcurrent]
  rcases hfilter : rx.previous.filter (·.epochId = epochId) with - | previous <;> rw [hfilter] <;>
    dsimp only
  · by_cases hnext : epochId = rx.current.epochId + 1
    · rw [if_pos hnext, hnext, h.nextLabel]
      exact .of_slot hlistens' h.at_candidate hb hb' (hsmall _ hlistens') _ _
        (fun _ _ hat ↦ h.take_next hat) (fun _ _ hrun ↦ by rw [hrun]; rfl)
        fun hrun ↦ by rw [hrun]; rfl
    · rw [if_neg hnext]
      refine Or.inr ⟨_, rfl, ?_⟩
      rintro t rfl hlisten
      exact absurd hlisten (h.not_listens hcurrent hfilter hnext)
  · obtain ⟨hprevious, hmatch⟩ := Option.filter_eq_some_iff.mp hfilter
    obtain ⟨t, ht, hat⟩ := h.previous previous hprevious
    have hlistens'' : F.Listens t := ⟨by omega, by omega⟩
    rw [← of_decide_eq_true hmatch, hat.epochId]
    refine .of_slot hlistens'' hat hb hb' (hsmall _ hlistens'') _
      (fun slot ↦ { rx with previous := some slot }) (fun _ _ hat' ↦ h.take_previous ht hat')
      (fun _ _ hrun ↦ Exec.zoom_of_eq hrun) fun hrun ↦ (Exec.zoom_of_eq hrun).trans ?_
    rw [← hprevious]

end

/-! ### From plaintexts to frames -/

theorem open_of_ok {rx rx' : DatagramRx} {epochId : UInt8} {wireCounter : UInt64} {wireBits : ℕ}
    {ciphertext aad p : Bytes}
    (h : decryptDatagram A hkdf epochId wireCounter wireBits ciphertext aad rx = (.ok p, rx')) :
    DatagramRx.open A hkdf epochId wireCounter wireBits ciphertext aad rx
      = (parsePlaintext p, rx') := by
  rw [DatagramRx.open, Exec.bind_ok h]
  rfl

theorem open_of_err {rx rx' : DatagramRx} {epochId : UInt8} {wireCounter : UInt64} {wireBits : ℕ}
    {ciphertext aad : Bytes} {e : TlsError}
    (h : decryptDatagram A hkdf epochId wireCounter wireBits ciphertext aad rx = (.err e, rx')) :
    DatagramRx.open A hkdf epochId wireCounter wireBits ciphertext aad rx = (.err e, rx') :=
  Exec.bind_err h

/-- What a sender sealed is read back. -/
theorem parsePlaintext_plaintext (item : Item) (h : item.payload.length < 2 ^ 16) :
    ∃ f, parsePlaintext (DatagramTx.plaintext item.streamId item.frameType item.payload) = .ok f ∧
      f.item = item := by
  have hpad : ([] : Bytes).length < 2 ^ 16 := by decide
  have hparse := Frame.parse_frameBytes (ByteArr.zero 16) item.streamId item.frameType h hpad []
  rw [List.append_nil] at hparse
  refine ⟨Frame.received (ByteArr.zero 16) item.streamId item.frameType item.payload [], ?_, rfl⟩
  rw [parsePlaintext, plaintext_eq, hparse]
  rfl

end DatagramRx
