import Mathlib.Data.Nat.Count
import Mathlib.Order.Interval.Finset.Nat
import Nrxp.Datagram.Leg

/-!
# Nonces of the datagram leg

The counter of the leg starts at 0 in every epoch and the label of an epoch comes round after 256 of
them, so neither tells two datagrams apart. What does is the absolute epoch: `seal` works in the
epoch and under the counter that the number of the call determines, and a call is determined by the
two.

`epoch` of a turn is read off the history variable of the ratchet, which no computation looks at.
-/

/-- What there is to see of a call of `seal`. -/
structure SealTurn where
  /-- What `peekNextEpochAndCounter` said just before. -/
  announced : UInt8 × UInt64
  /-- The absolute epoch the call worked in. -/
  epoch : ℕ
  /-- What it returned. -/
  result : Outcome TlsError SealedDatagram

namespace DatagramTx

/-- Seal frames in order, each under its associated data. -/
def sealAll (A : ChaCha20Poly1305) (hkdf : HkdfSha256) :
    List (Item × Bytes) → DatagramTx → List SealTurn × DatagramTx
  | [], tx => ([], tx)
  | (item, aad) :: calls, tx =>
    let announced := tx.peekNextEpochAndCounter
    let (result, tx) := tx.seal A hkdf item.streamId item.frameType item.payload aad
    let (turns, last) := sealAll A hkdf calls tx
    (⟨announced, tx.keys.tx.steps, result⟩ :: turns, last)

/-- The nonce of the `n`-th datagram. -/
def sealNonce (hkdf : HkdfSha256) (chain0 : ByteArr 32) (n : ℕ) : Nonce :=
  buildNonce (epochKeys hkdf chain0 (epochOf n)).salt (UInt64.ofNat (counterOf n))

/-- What the `n`-th call is to look like. -/
def turnOf (A : ChaCha20Poly1305) (hkdf : HkdfSha256) (chain0 : ByteArr 32) (n : ℕ) (item : Item)
    (aad : Bytes) : SealTurn where
  announced := (UInt8.ofNat (epochOf n), UInt64.ofNat (counterOf n))
  epoch := epochOf n
  result :=
    match A.encrypt (epochKeys hkdf chain0 (epochOf n)).key (sealNonce hkdf chain0 n) aad
        (plaintext item.streamId item.frameType item.payload) with
    | some c => .ok ⟨UInt8.ofNat (epochOf n), UInt64.ofNat (counterOf n), c⟩
    | none => .err (authFail "Datagram AEAD seal failed")

variable {A : ChaCha20Poly1305} {hkdf : HkdfSha256} {chain0 : ByteArr 32} {n : ℕ} {tx : DatagramTx}

/-- **A run of the sender**: every call is what its number says. -/
theorem At.sealAll (h : tx.At hkdf chain0 n) (calls : List (Item × Bytes)) :
    (tx.sealAll A hkdf calls).1
      = calls.mapIdx fun i call ↦ turnOf A hkdf chain0 (n + i) call.1 call.2 := by
  induction calls generalizing n tx with
  | nil => rfl
  | cons call calls ih =>
    obtain ⟨item, aad⟩ := call
    obtain ⟨tx', hat, hcase⟩ :=
      h.seal_spec (A := A) item.streamId item.frameType item.payload aad
    have hresult : tx.seal A hkdf item.streamId item.frameType item.payload aad
        = ((turnOf A hkdf chain0 n item aad).result, tx') := by
      have hsame : A.encrypt (epochKeys hkdf chain0 (epochOf n)).key (sealNonce hkdf chain0 n) aad
          (plaintext item.streamId item.frameType item.payload)
          = sealNth A hkdf chain0 n aad (plaintext item.streamId item.frameType item.payload) := rfl
      rcases hseal : sealNth A hkdf chain0 n aad
          (plaintext item.streamId item.frameType item.payload) with - | c <;>
        rw [hseal] at hcase <;> rw [turnOf, hsame, hseal, hcase.1]
    have hsteps : tx'.keys.tx.steps = epochOf n := by
      rw [hat.keys, KeyRatchet.after_steps, Nat.add_sub_cancel]
    have hrest := ih hat
    rw [DatagramTx.sealAll, hresult]
    simp only [List.mapIdx_cons, Nat.add_zero]
    rw [hrest, hsteps, h.peekNextEpochAndCounter]
    congr 1
    refine congrArg (List.mapIdx · calls) (funext fun i ↦ ?_)
    rw [Nat.add_right_comm, Nat.add_assoc]

end DatagramTx

/-- An epoch has as many numbers as it may seal datagrams. -/
theorem count_epochOf_le (e N : ℕ) :
    N.count (epochOf · = e) ≤ rekeyAfterDatagrams.toNat := by
  have hsubset : (Finset.range N).filter (epochOf · = e)
      ⊆ Finset.Ico (e * rekeyAfterDatagrams.toNat) ((e + 1) * rekeyAfterDatagrams.toNat) := by
    intro i hi
    obtain ⟨-, rfl⟩ := Finset.mem_filter.mp hi
    rw [Finset.mem_Ico]
    refine ⟨Nat.div_mul_le_self _ _, ?_⟩
    rw [Nat.succ_mul]
    exact Nat.lt_div_mul_add (by decide)
  calc N.count (epochOf · = e)
      = ((Finset.range N).filter (epochOf · = e)).card := Nat.count_eq_card_filter_range _ _
    _ ≤ (Finset.Ico (e * rekeyAfterDatagrams.toNat)
          ((e + 1) * rekeyAfterDatagrams.toNat)).card := Finset.card_le_card hsubset
    _ = rekeyAfterDatagrams.toNat := by rw [Nat.card_Ico, Nat.succ_mul, Nat.add_sub_cancel_left]

/-- **Nonces of the datagram leg.** In any sequence of calls on a new sender, the `i`-th works in
the absolute epoch `i / R` under the counter `i % R`, where `R` is `rekeyAfterDatagrams`; it
announced just that, and it returns what the cipher makes of its frame under the key of that epoch
and the nonce of that counter, with no sum overflowing. Two calls never share both epoch and nonce,
and no epoch seals more than `R` datagrams. -/
theorem datagram_nonces (A : ChaCha20Poly1305) (hkdf : HkdfSha256) (root : ByteArr 32)
    (isInitiator : Bool) (calls : List (Item × Bytes)) :
    let chain0 := txChain0 hkdf root isInitiator
    let turns := (DatagramTx.sealAll A hkdf calls
      (.new (.deriveFromRoot hkdf root isInitiator))).1
    turns = calls.mapIdx (fun i call ↦ DatagramTx.turnOf A hkdf chain0 i call.1 call.2) ∧
    (∀ i j, (epochOf i, DatagramTx.sealNonce hkdf chain0 i)
      = (epochOf j, DatagramTx.sealNonce hkdf chain0 j) → i = j) ∧
    ∀ e, turns.countP (·.epoch = e) ≤ rekeyAfterDatagrams.toNat := by
  intro chain0 turns
  have hturns : turns = calls.mapIdx
      (fun i call ↦ DatagramTx.turnOf A hkdf chain0 i call.1 call.2) := by
    have hrun : turns = calls.mapIdx
        (fun i call ↦ DatagramTx.turnOf A hkdf chain0 (0 + i) call.1 call.2) :=
      (DatagramTx.at_new root isInitiator).sealAll calls
    simpa only [Nat.zero_add] using hrun
  refine ⟨hturns, fun i j heq ↦ ?_, fun e ↦ ?_⟩
  · obtain ⟨hepoch, hnonce⟩ := Prod.mk.inj heq
    rw [DatagramTx.sealNonce, DatagramTx.sealNonce, hepoch] at hnonce
    have hcounter := congrArg UInt64.toNat (nonceAt_injective _ hnonce)
    rw [toNat_counterOf, toNat_counterOf] at hcounter
    exact eq_of_epochOf_counterOf hepoch hcounter
  · -- the epochs of the turns are those of their numbers
    have hepochs : turns.map SealTurn.epoch = (List.range calls.length).map epochOf := by
      rw [hturns]
      apply List.ext_getElem
      · simp
      · intro i hi hi'
        simp [DatagramTx.turnOf]
    calc turns.countP (·.epoch = e) = (turns.map SealTurn.epoch).countP (· = e) := by
          rw [List.countP_map]
          rfl
      _ = (List.range calls.length).countP (epochOf · = e) := by
          rw [hepochs, List.countP_map]
          rfl
      _ = calls.length.count (epochOf · = e) := rfl
      _ ≤ rekeyAfterDatagrams.toNat := count_epochOf_le e calls.length
