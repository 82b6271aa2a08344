import Nrxp.Lib.Bytes

/-!
# Authenticated encryption with associated data

`Aead K N` is a pair of functions and nothing more: what a cipher promises is stated separately, so
that a development can say which promise each of its results rests on.

* `Aead.Correct` — functional correctness: decryption undoes encryption, ciphertexts are longer by a
  fixed tag, and encryption succeeds below a length limit.
* `Aead.OpensOnly` — authenticity **relative to a log** of what was sealed: the given query opens,
  if at all, to a plaintext the log records under the same key, nonce and associated data. It is
  stated of one query at a time: quantified over every byte string it would contradict correctness,
  since a key that never sealed anything still opens what encryption under it would produce.
* `Aead.Shortens` — a plaintext is shorter than its ciphertext, by the tag.
-/

/-- An authenticated cipher with keys in `K` and nonces in `N`. Neither direction need succeed. -/
structure Aead (K N : Type) where
  /-- `encrypt key nonce aad plain`. -/
  encrypt : K → N → Bytes → Bytes → Option Bytes
  /-- `decrypt key nonce aad cipher`. -/
  decrypt : K → N → Bytes → Bytes → Option Bytes

/-- The record of one successful encryption. -/
structure Sealing (K N : Type) where
  /-- The key it was made under. -/
  key : K
  /-- The nonce it was made under. -/
  nonce : N
  /-- The associated data. -/
  aad : Bytes
  /-- What was encrypted. -/
  plain : Bytes
  /-- What came out. -/
  cipher : Bytes
  deriving DecidableEq

namespace Aead

variable {K N : Type}

/-- **Functional correctness** of a cipher with a tag of `tagLen` bytes and plaintexts of fewer than
`limit` bytes. -/
structure Correct (A : Aead K N) (tagLen limit : ℕ) : Prop where
  /-- Encryption succeeds below the length limit. -/
  encrypt_isSome : ∀ k n aad {p}, p.length < limit → (A.encrypt k n aad p).isSome
  /-- A ciphertext is its plaintext's length and a tag. -/
  length_encrypt : ∀ {k n aad p c}, A.encrypt k n aad p = some c → c.length = p.length + tagLen
  /-- Decrypting with the same key, nonce and associated data undoes encrypting. -/
  decrypt_encrypt : ∀ {k n aad p c}, A.encrypt k n aad p = some c → A.decrypt k n aad c = some p

/-- **Authenticity of one query relative to a log**: it opens only to what the log records under the
same key, nonce and associated data. -/
def OpensOnly (A : Aead K N) (log : List (Sealing K N)) (k : K) (n : N) (aad c : Bytes) : Prop :=
  ∀ p, A.decrypt k n aad c = some p → ⟨k, n, aad, p, c⟩ ∈ log

/-- What opens is longer than what comes out of it, by the tag. -/
def Shortens (A : Aead K N) (tagLen : ℕ) : Prop :=
  ∀ k n aad c p, A.decrypt k n aad c = some p → p.length + tagLen = c.length

/-- Encryptions under other keys are no help with what opens under this one. -/
theorem OpensOnly.of_key {A : Aead K N} {log log' : List (Sealing K N)} {k : K} {n : N}
    {aad c : Bytes} (h : A.OpensOnly log k n aad c) (hlog : ∀ e ∈ log, e.key = k → e ∈ log') :
    A.OpensOnly log' k n aad c :=
  fun p hp ↦ hlog _ (h p hp) rfl

theorem Correct.exists_encrypt {A : Aead K N} {tagLen limit : ℕ} (hA : A.Correct tagLen limit)
    (k : K) (n : N) (aad : Bytes) {p : Bytes} (h : p.length < limit) :
    ∃ c, A.encrypt k n aad p = some c ∧ c.length = p.length + tagLen ∧
      A.decrypt k n aad c = some p := by
  obtain ⟨c, hc⟩ := Option.isSome_iff_exists.mp (hA.encrypt_isSome k n aad h)
  exact ⟨c, hc, hA.length_encrypt hc, hA.decrypt_encrypt hc⟩

end Aead
