import Mathlib.Data.List.Infix
import Nrxp.Lib.Aead

/-!
# The stream cipher of one direction

`ChaChaStream` is a key and a nonce counter. Nonces do not travel: both ends count, and the nonce of
record `c` is the base IV with `c` folded into its last eight bytes. The nonce is its own associated
data.

The counter is a `u64` and `+= 1` on it wraps, as it does in an optimised build.

`log` is a history variable: the encryptions made so far, oldest first. No computation
reads it; it is there so that authenticity can be stated relative to what was really encrypted.
-/

/-- A cipher key. -/
abbrev Key : Type := ByteArr 32

/-- A cipher nonce, and the base IV nonces are made from. -/
abbrev Nonce : Type := ByteArr 12

/-- The cipher of the `chacha20poly1305` crate, as a parameter. -/
abbrev ChaCha20Poly1305 : Type := Aead Key Nonce

/-- How much longer a ciphertext is than its plaintext. -/
def aeadTagLen : ℕ := 16

/-- The crate refuses plaintexts of `64 * (2^32 - 1)` bytes and more. -/
def aeadPlainLimit : ℕ := 64 * (2 ^ 32 - 1)

/-- The promise of the crate that round trips rest on. -/
abbrev ChaCha20Poly1305.IsCorrect (A : ChaCha20Poly1305) : Prop :=
  A.Correct aeadTagLen aeadPlainLimit

/-- The opaque error of the cipher. -/
inductive AeadError where
  | error
  deriving DecidableEq, Repr

/-- The nonce of record `counter`: the counter, big-endian, xored into bytes `4..12` of the IV. -/
def nonceAt (iv : Nonce) (counter : UInt64) : Nonce :=
  ⟨iv.val.take 4 ++ List.zipWith (· ^^^ ·) (iv.val.drop 4) (beBytes 8 counter.toNat), by simp⟩

/-- The nonce generator of one direction. -/
structure NonceState where
  /-- Records so far. -/
  counter : UInt64
  /-- The IV from the key schedule. -/
  baseIv : Nonce

namespace NonceState

def new (baseIv : Nonce) : NonceState := ⟨0, baseIv⟩

/-- The nonce of the current record; the counter moves on. -/
def nextNonce (s : NonceState) : Nonce × NonceState :=
  (nonceAt s.baseIv s.counter, { s with counter := s.counter + 1 })

end NonceState

/-- The cipher of one direction: a key and its nonce counter. -/
structure ChaChaStream where
  cipher : Key
  state : NonceState
  /-- History: every encryption made by this stream. -/
  log : List (Sealing Key Nonce)

namespace ChaChaStream

variable (A : ChaCha20Poly1305)

def new (key : Key) (iv : Nonce) : ChaChaStream := ⟨key, NonceState.new iv, []⟩

/-- The nonce the next record uses. -/
def currentNonce (s : ChaChaStream) : Nonce := nonceAt s.state.baseIv s.state.counter

/-- Encrypt one record. The counter moves on even when the cipher refuses. -/
def encrypt (data : Bytes) : Exec ChaChaStream AeadError Bytes := fun s ↦
  let (nonce, state) := s.state.nextNonce
  match A.encrypt s.cipher nonce nonce.val data with
  | some c => (.ok c, { s with state, log := s.log ++ [⟨s.cipher, nonce, nonce.val, data, c⟩] })
  | none => (.err .error, { s with state })

/-- Decrypt one record. On failure the counter is put back. -/
def decrypt (data : Bytes) : Exec ChaChaStream AeadError Bytes := fun s ↦
  let savedCounter := s.state.counter
  let (nonce, state) := s.state.nextNonce
  match A.decrypt s.cipher nonce nonce.val data with
  | some p => (.ok p, { s with state })
  | none => (.err .error, { s with state := { state with counter := savedCounter } })

/-! ### What one call does -/

/-- The stream after `data` was encrypted to `c`. -/
def afterSealing (s : ChaChaStream) (data c : Bytes) : ChaChaStream :=
  { s with
    state := { s.state with counter := s.state.counter + 1 }
    log := s.log ++ [⟨s.cipher, s.currentNonce, s.currentNonce.val, data, c⟩] }

/-- The stream after a record was opened. -/
def afterOpening (s : ChaChaStream) : ChaChaStream :=
  { s with state := { s.state with counter := s.state.counter + 1 } }

theorem encrypt_of_some {s : ChaChaStream} {data c : Bytes}
    (h : A.encrypt s.cipher s.currentNonce s.currentNonce.val data = some c) :
    encrypt A data s = (.ok c, s.afterSealing data c) := by
  unfold currentNonce at h
  simp only [encrypt, NonceState.nextNonce, h, currentNonce, afterSealing]

theorem encrypt_of_none {s : ChaChaStream} {data : Bytes}
    (h : A.encrypt s.cipher s.currentNonce s.currentNonce.val data = none) :
    encrypt A data s
      = (.err .error, { s with state := { s.state with counter := s.state.counter + 1 } }) := by
  unfold currentNonce at h
  simp only [encrypt, NonceState.nextNonce, h]

theorem decrypt_of_some {s : ChaChaStream} {data p : Bytes}
    (h : A.decrypt s.cipher s.currentNonce s.currentNonce.val data = some p) :
    decrypt A data s = (.ok p, s.afterOpening) := by
  unfold currentNonce at h
  simp only [decrypt, NonceState.nextNonce, h, afterOpening]

/-- A failed decryption leaves the stream as it was. -/
theorem decrypt_of_none {s : ChaChaStream} {data : Bytes}
    (h : A.decrypt s.cipher s.currentNonce s.currentNonce.val data = none) :
    decrypt A data s = (.err .error, s) := by
  unfold currentNonce at h
  simp only [decrypt, NonceState.nextNonce, h]

end ChaChaStream

/-- The cipher of a session: a stream for each direction. -/
structure ChaChaCipher where
  tx : ChaChaStream
  rx : ChaChaStream

namespace ChaChaCipher

/-- Before the handshake: zero keys on both sides. -/
def new : ChaChaCipher := ⟨.new (.zero 32) (.zero 12), .new (.zero 32) (.zero 12)⟩

/-- Put the keys of the session in: for writing, then for reading. The counters start over. -/
def setKeys (wKey : Key) (wIv : Nonce) (rKey : Key) (rIv : Nonce) (cipher : ChaChaCipher) :
    ChaChaCipher :=
  { cipher with tx := .new wKey wIv, rx := .new rKey rIv }

/-- The two directions, the one that is read first. -/
def split (cipher : ChaChaCipher) : ChaChaStream × ChaChaStream := (cipher.rx, cipher.tx)

end ChaChaCipher

/-- Different records use different nonces. -/
theorem nonceAt_injective (iv : Nonce) : Function.Injective (nonceAt iv) := by
  intro c c' h
  have hz : List.zipWith (· ^^^ ·) (iv.val.drop 4) (beBytes 8 c.toNat)
      = List.zipWith (· ^^^ ·) (iv.val.drop 4) (beBytes 8 c'.toNat) :=
    List.append_cancel_left (Subtype.ext_iff.mp h)
  have hb : beBytes 8 c.toNat = beBytes 8 c'.toNat := by
    apply List.ext_getElem (by simp)
    intro i hi hi'
    rw [length_beBytes] at hi
    have hiv : i < (iv.val.drop 4).length := by simpa using hi
    have hx := congrArg (·[i]?) hz
    simpa [List.getElem?_zipWith, List.getElem?_eq_getElem, hi, hiv, UInt8.xor_right_inj] using hx
  exact UInt64.toNat_inj.mp (beBytes_injective c.toNat_lt c'.toNat_lt hb)

/-! ### A cipher to compute with -/

namespace ChaCha20Poly1305

/-- The tag of `clear`: the nonce, a byte of the key, a checksum of the associated data, the
length. -/
def clearTag (k : Key) (n : Nonce) (aad : Bytes) (len : ℕ) : Bytes :=
  n.val ++ (k.val.take 1 ++ ([aad.foldl (· ^^^ ·) 0] ++ beBytes 2 len))

/-- A cipher that hides nothing and names in its tag what it was called with. It meets the
promises results below assume, so they can be run. -/
def clear : ChaCha20Poly1305 where
  encrypt k n aad p :=
    if p.length < aeadPlainLimit then some (p ++ clearTag k n aad p.length) else none
  decrypt k n aad c :=
    let len := c.length - aeadTagLen
    if aeadTagLen ≤ c.length ∧ c.drop len = clearTag k n aad len then some (c.take len) else none

@[simp] theorem length_clearTag (k : Key) (n : Nonce) (aad : Bytes) (len : ℕ) :
    (clearTag k n aad len).length = aeadTagLen := by
  simp [clearTag, aeadTagLen]

theorem clear_isCorrect : clear.IsCorrect where
  encrypt_isSome _ _ _ _ h := by simp [clear, h]
  length_encrypt {k n aad p c} h := by
    simp only [clear, Option.ite_none_right_eq_some, Option.some.injEq] at h
    simp [← h.2]
  decrypt_encrypt {k n aad p c} h := by
    simp only [clear, Option.ite_none_right_eq_some, Option.some.injEq] at h
    obtain ⟨-, rfl⟩ := h
    simp [clear]

theorem clear_encrypt (k : Key) (n : Nonce) (aad : Bytes) {p : Bytes}
    (h : p.length < aeadPlainLimit) :
    clear.encrypt k n aad p = some (p ++ clearTag k n aad p.length) :=
  if_pos h

theorem eq_of_clear_decrypt {k : Key} {n : Nonce} {aad p c : Bytes}
    (h : clear.decrypt k n aad c = some p) : c = p ++ clearTag k n aad p.length := by
  simp only [clear, Option.ite_none_right_eq_some, Option.some.injEq] at h
  obtain ⟨⟨hle, htag⟩, rfl⟩ := h
  rw [List.length_take_of_le (Nat.sub_le _ _), ← htag, List.take_append_drop]

theorem clear_shortens : clear.Shortens aeadTagLen := by
  intro k n aad c p h
  rw [eq_of_clear_decrypt h, List.length_append, length_clearTag]

/-- What `clear` sealed it opens under the same nonce only, and under keys with the same first
byte. -/
theorem clear_decrypt_of_encrypt {k k' : Key} {n n' : Nonce} {aad aad' p p' c : Bytes}
    (h : clear.encrypt k n aad p = some c) (h' : clear.decrypt k' n' aad' c = some p') :
    p' = p ∧ n' = n ∧ k'.val.take 1 = k.val.take 1 := by
  have hc : p ++ clearTag k n aad p.length = c := by
    simp only [clear, Option.ite_none_right_eq_some, Option.some.injEq] at h
    exact h.2
  have hsplit := hc.trans (eq_of_clear_decrypt h')
  have hlen : p.length = p'.length := by
    have := congrArg List.length hsplit
    simpa using this
  obtain ⟨rfl, htag⟩ := List.append_inj hsplit hlen
  obtain ⟨hn, htag'⟩ := List.append_inj htag (by simp)
  exact ⟨rfl, (Subtype.ext hn).symm, (List.append_inj htag' (by simp)).1.symm⟩

/-- A test every byte string `clear` opens under the key passes, whatever the nonce. -/
def looksSealed (k : Key) (c : Bytes) : Bool :=
  decide (aeadTagLen ≤ c.length) && (c.drop (c.length - 4)).take 1 == k.val.take 1
    && c.drop (c.length - 2) == beBytes 2 (c.length - aeadTagLen)

theorem looksSealed_of_clear_decrypt {k : Key} {n : Nonce} {aad p c : Bytes}
    (h : clear.decrypt k n aad c = some p) : looksSealed k c = true := by
  obtain rfl := eq_of_clear_decrypt h
  have h4 : (p ++ clearTag k n aad p.length).length - 4 = p.length + 12 := by
    simp [aeadTagLen]
  have h2 : (p ++ clearTag k n aad p.length).length - 2 = p.length + 14 := by
    simp [aeadTagLen]
  simp only [looksSealed, h4, h2, Bool.and_eq_true, decide_eq_true_iff, beq_iff_eq]
  refine ⟨⟨by simp, ?_⟩, ?_⟩
  · simp [clearTag, List.drop_append, List.take_append]
  · have hp : p.drop (p.length + 14) = [] := List.drop_eq_nil_of_le (by omega)
    have hn : n.val.drop 14 = [] := List.drop_eq_nil_of_le (by simp)
    have hk' : (k.val.take 1).drop 2 = [] := List.drop_eq_nil_of_le (by simp)
    simp [clearTag, List.drop_append, hp, hn, hk', aeadTagLen]

/-- Every slice of some bytes that looks sealed was sealed. -/
def LooksOnlySealed (k : Key) (log : List (Sealing Key Nonce)) (b : Bytes) : Prop :=
  ∀ f ∈ b.inits, (f.drop (f.length - 4)).take 1 = k.val.take 1 →
    ∀ c ∈ f.tails, looksSealed k c = true → ∃ e ∈ log, e.cipher = c ∧ e.key = k ∧
      e.aad = e.nonce.val ∧ clear.encrypt e.key e.nonce e.aad e.plain = some e.cipher

instance (k : Key) (log : List (Sealing Key Nonce)) (b : Bytes) :
    Decidable (LooksOnlySealed k log b) :=
  inferInstanceAs (Decidable (∀ f ∈ b.inits, _))

/-- Then `clear` opens what was sealed only. -/
theorem LooksOnlySealed.opensOnly {k : Key} {b : Bytes}
    {log : List (Sealing Key Nonce)} (hlog : LooksOnlySealed k log b) {c : Bytes} (hc : c <:+: b)
    (n : Nonce) : clear.OpensOnly log k n n.val c := by
  intro p hp
  have hlooks := looksSealed_of_clear_decrypt hp
  obtain ⟨f, ⟨g, rfl⟩, hf⟩ := List.infix_iff_suffix_prefix.mp hc
  have hsealed := hlooks
  simp only [looksSealed, Bool.and_eq_true, decide_eq_true_iff, beq_iff_eq] at hsealed
  have hlong : aeadTagLen ≤ c.length := hsealed.1.1
  have hkey : ((g ++ c).drop ((g ++ c).length - 4)).take 1 = k.val.take 1 := by
    have hdrop : (g ++ c).length - 4 = g.length + (c.length - 4) := by
      rw [List.length_append]
      simp only [aeadTagLen] at hlong
      omega
    rw [hdrop, List.drop_length_add_append]
    exact hsealed.1.2
  obtain ⟨e, he, rfl, rfl, haad, henc⟩ := hlog (g ++ c) ((List.mem_inits _ _).mpr hf) hkey c
    ((List.mem_tails _ _).mpr (List.suffix_append _ _)) hlooks
  obtain ⟨rfl, rfl, -⟩ := clear_decrypt_of_encrypt henc hp
  rw [← haad]
  exact he

end ChaCha20Poly1305
