import Nrxp.Crypto.ChaCha
import Nrxp.Crypto.Hkdf

/-!
# Keys of the datagram leg

The two directions of the leg have a ratchet each: a chain value that is stepped forward once an
epoch and that the keys of the epoch are expanded from. The chains start from the root that the
handshake left behind, the same on both sides.

Epochs are numbered by a `u8`, which wraps. `steps` is a history variable: how often the ratchet has
advanced, which is the number the `u8` has forgotten. No computation reads it. `KeyRatchet.after`
is the ratchet of an absolute epoch and `epochKeys` are its keys; the lemmas at the end say that
this is all a ratchet ever is.
-/

/-- The keys of one epoch. -/
structure DatagramEpochKeys where
  epochId : UInt8
  key : Key
  salt : Nonce
  deriving DecidableEq

/-- The chain of one direction. -/
structure KeyRatchet where
  chain : ByteArr 32
  epochId : UInt8
  /-- History: how often the chain was stepped. -/
  steps : ℕ
  deriving DecidableEq

namespace KeyRatchet

variable (hkdf : HkdfSha256)

def fromRoot (chain0 : ByteArr 32) : KeyRatchet := ⟨chain0, 0, 0⟩

def deriveEpoch (chain : ByteArr 32) (epochId : UInt8) : DatagramEpochKeys where
  epochId := epochId
  key := hkdf.expandKey chain (utf8 "dgram-epoch-key") 32
  salt := hkdf.expandKey chain (utf8 "dgram-epoch-salt") 12

def stepChain (chain : ByteArr 32) : ByteArr 32 :=
  hkdf.expandKey chain (utf8 "dgram-epoch-next") 32

/-- The keys of the current epoch. -/
def current (r : KeyRatchet) : DatagramEpochKeys := deriveEpoch hkdf r.chain r.epochId

/-- The keys the next epoch will have; the ratchet stays where it is. -/
def peekNext (r : KeyRatchet) : DatagramEpochKeys :=
  deriveEpoch hkdf (stepChain hkdf r.chain) (r.epochId + 1)

/-- Step the chain. -/
def advance (r : KeyRatchet) : KeyRatchet :=
  ⟨stepChain hkdf r.chain, r.epochId + 1, r.steps + 1⟩

end KeyRatchet

/-- The key material of one side of the leg. -/
structure DatagramKeyMaterial where
  legToken : ByteArr 16
  tx : KeyRatchet
  rx : KeyRatchet
  hpKeyTx : ByteArr 32
  hpKeyRx : ByteArr 32
  deriving DecidableEq

namespace DatagramKeyMaterial

variable (hkdf : HkdfSha256)

/-- Expand the root. What one role sends under, the other listens to. -/
def deriveFromRoot (root : ByteArr 32) (isInitiator : Bool) : DatagramKeyMaterial :=
  let legToken := hkdf.expandKey root (utf8 "dgram-leg-token") 16
  let c2s0 := hkdf.expandKey root (utf8 "dgram-chain-c2s") 32
  let s2c0 := hkdf.expandKey root (utf8 "dgram-chain-s2c") 32
  let hpC2s := hkdf.expandKey root (utf8 "dgram-hp-c2s") 32
  let hpS2c := hkdf.expandKey root (utf8 "dgram-hp-s2c") 32
  let (tx0, rx0) := if isInitiator then (c2s0, s2c0) else (s2c0, c2s0)
  let (hpKeyTx, hpKeyRx) := if isInitiator then (hpC2s, hpS2c) else (hpS2c, hpC2s)
  { legToken, tx := .fromRoot tx0, rx := .fromRoot rx0, hpKeyTx, hpKeyRx }

def txEpochId (m : DatagramKeyMaterial) : UInt8 := m.tx.epochId

def txCurrent (m : DatagramKeyMaterial) : DatagramEpochKeys := m.tx.current hkdf

def txAdvance (m : DatagramKeyMaterial) : DatagramKeyMaterial :=
  { m with tx := m.tx.advance hkdf }

def rxCurrent (m : DatagramKeyMaterial) : DatagramEpochKeys := m.rx.current hkdf

def rxPeekNext (m : DatagramKeyMaterial) : DatagramEpochKeys := m.rx.peekNext hkdf

def rxAdvance (m : DatagramKeyMaterial) : DatagramKeyMaterial :=
  { m with rx := m.rx.advance hkdf }

end DatagramKeyMaterial

/-! ### Absolute epochs -/

/-- The first chain value of the direction a side sends in. -/
def txChain0 (hkdf : HkdfSha256) (root : ByteArr 32) (isInitiator : Bool) : ByteArr 32 :=
  hkdf.expandKey root (utf8 (if isInitiator then "dgram-chain-c2s" else "dgram-chain-s2c")) 32

/-- The keys of the absolute epoch `e` of a chain. -/
def epochKeys (hkdf : HkdfSha256) (chain0 : ByteArr 32) (e : ℕ) : DatagramEpochKeys :=
  KeyRatchet.deriveEpoch hkdf ((KeyRatchet.stepChain hkdf)^[e] chain0) (UInt8.ofNat e)

namespace KeyRatchet

variable (hkdf : HkdfSha256) (chain0 : ByteArr 32) (e : ℕ)

/-- The ratchet in the absolute epoch `e`. -/
def after : KeyRatchet := ⟨(stepChain hkdf)^[e] chain0, UInt8.ofNat e, e⟩

@[simp] theorem after_steps : (after hkdf chain0 e).steps = e := rfl

@[simp] theorem after_epochId : (after hkdf chain0 e).epochId = UInt8.ofNat e := rfl

@[simp] theorem current_after : (after hkdf chain0 e).current hkdf = epochKeys hkdf chain0 e := rfl

@[simp] theorem advance_after :
    (after hkdf chain0 e).advance hkdf = after hkdf chain0 (e + 1) := by
  simp only [advance, after, Function.iterate_succ_apply', UInt8.ofNat_add]
  rfl

/-- What is peeked at is what advancing brings. -/
@[simp] theorem peekNext_after :
    (after hkdf chain0 e).peekNext hkdf = epochKeys hkdf chain0 (e + 1) := by
  rw [← current_after, ← advance_after]
  rfl

end KeyRatchet

namespace DatagramKeyMaterial

variable (hkdf : HkdfSha256) (root : ByteArr 32) (isInitiator : Bool)

theorem deriveFromRoot_tx :
    (deriveFromRoot hkdf root isInitiator).tx = .after hkdf (txChain0 hkdf root isInitiator) 0 := by
  cases isInitiator <;> rfl

/-- A side listens to the chain the opposite role sends under. -/
theorem deriveFromRoot_rx :
    (deriveFromRoot hkdf root isInitiator).rx
      = .after hkdf (txChain0 hkdf root (!isInitiator)) 0 := by
  cases isInitiator <;> rfl

/-- Opposite roles share the token, and have each other's header-protection keys. -/
theorem deriveFromRoot_mirrored :
    (deriveFromRoot hkdf root isInitiator).legToken
        = (deriveFromRoot hkdf root (!isInitiator)).legToken ∧
      (deriveFromRoot hkdf root isInitiator).hpKeyTx
        = (deriveFromRoot hkdf root (!isInitiator)).hpKeyRx := by
  cases isInitiator <;> exact ⟨rfl, rfl⟩

end DatagramKeyMaterial

/-- Epochs less than 256 apart have different labels. -/
theorem epochLabel_ne {t t' : ℕ} (hlt : t < t') (hnear : t' < t + 256) :
    UInt8.ofNat t ≠ UInt8.ofNat t' := by
  intro h
  have hmod := congrArg UInt8.toNat h
  rw [UInt8.toNat_ofNat', UInt8.toNat_ofNat'] at hmod
  omega

/-! ### With the derivation that repeats one byte -/

namespace HkdfSha256

theorem repeating_epochKeys (b : UInt8) (e : ℕ) :
    epochKeys repeating (.fill 32 b) e
      = ⟨UInt8.ofNat e, .fill 32 (b + UInt8.ofNat e), .fill 12 (b + UInt8.ofNat e)⟩ := by
  have hchain : (KeyRatchet.stepChain repeating)^[e] (.fill 32 b)
      = .fill 32 (b + UInt8.ofNat e) := by
    induction e with
    | zero => simp
    | succ e ih =>
      rw [Function.iterate_succ_apply', ih, UInt8.ofNat_add, ← UInt8.add_assoc]
      rfl
  rw [epochKeys, hchain]
  rfl

/-- With one byte repeated, the keys of the two directions are counted up from 0 and from 128. -/
theorem repeating_epochKey (d : Bool) (e : ℕ) :
    (epochKeys repeating (txChain0 repeating (ByteArr.zero 32) d) e).key
      = .fill 32 ((if d then 0 else 128) + UInt8.ofNat e) := by
  have hchain : txChain0 repeating (ByteArr.zero 32) d = .fill 32 (if d then 0 else 128) := by
    cases d <;> rfl
  rw [hchain, repeating_epochKeys]

/-- A key of the two directions is known by its first byte. -/
theorem eq_of_take_one_repeating {d d' : Bool} {e e' : ℕ}
    (h : (epochKeys repeating (txChain0 repeating (ByteArr.zero 32) d) e).key.val.take 1
      = (epochKeys repeating (txChain0 repeating (ByteArr.zero 32) d') e').key.val.take 1) :
    (epochKeys repeating (txChain0 repeating (ByteArr.zero 32) d) e).key
      = (epochKeys repeating (txChain0 repeating (ByteArr.zero 32) d') e').key := by
  rw [repeating_epochKey, repeating_epochKey] at h ⊢
  rw [(List.cons.inj h).1]

end HkdfSha256
