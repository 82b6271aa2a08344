import Nrxp.Lib.Bytes
import Mathlib.Data.Set.Function

/-!
# Key derivation

HKDF-SHA256 in its two phases. Every length asked for is a constant of the code, so the one error of
the expand phase, an output of more than 255 blocks, is excluded where `expandKey` is called and not
where it runs.
-/

/-- HKDF-SHA256 of the `hkdf` crate, as a parameter. -/
structure HkdfSha256 where
  /-- `extract salt ikm`: the pseudorandom key. -/
  extract : Bytes → Bytes → ByteArr 32
  /-- `expand prk mark n`: `n` bytes under a label. -/
  expand : ByteArr 32 → Bytes → (n : ℕ) → ByteArr n

namespace HkdfSha256

/-- The longest output of an expansion: 255 blocks of the hash. -/
def maxOutput : ℕ := 255 * 32

/-- Bind a salt and the input key material into a pseudorandom key. -/
def extractKey (hkdf : HkdfSha256) (salt ikm : Bytes) : ByteArr 32 := hkdf.extract salt ikm

/-- No two of these salts and input keys are extracted to one pseudorandom key. -/
def InjectiveOn (hkdf : HkdfSha256) (inputs : Set (Bytes × Bytes)) : Prop :=
  Set.InjOn (fun i ↦ hkdf.extractKey i.1 i.2) inputs

theorem key_fits : 32 ≤ maxOutput := by decide

theorem token_fits : 16 ≤ maxOutput := by decide

theorem iv_fits : 12 ≤ maxOutput := by decide

/-- A key of `n` bytes under a label. -/
def expandKey (hkdf : HkdfSha256) (prk : ByteArr 32) (mark : Bytes) (n : ℕ)
    (_fits : n ≤ maxOutput := by
      first | exact HkdfSha256.key_fits | exact HkdfSha256.token_fits | exact HkdfSha256.iv_fits) :
    ByteArr n :=
  hkdf.expand prk mark n

/-! ### A key derivation to compute with -/

/-- The byte `repeating` derives from a byte, under the labels that tell keys apart. -/
def derivedByte (mark : Bytes) (b : UInt8) : UInt8 :=
  if mark = utf8 "dgram-epoch-next" then b + 1
  else if mark = utf8 "dgram-chain-s2c" then b + 128
  else b

/-- A derivation that repeats one byte: it tells the first epochs of the two directions of a
datagram leg apart, so results below can be run. -/
def repeating : HkdfSha256 where
  extract _ ikm := ByteArr.fill 32 (ikm.headD 0)
  expand prk mark n := ByteArr.fill n (derivedByte mark (prk.val.headD 0))

end HkdfSha256
