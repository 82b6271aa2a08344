import Nrxp.Lib.Exec
import Mathlib.Algebra.Order.Ring.Nat
import Mathlib.Data.List.Basic
import Mathlib.Data.Stream.Init

/-!
# Byte strings, big-endian fields and a panicking read cursor

Three layers, each used by the next.

* **Byte strings.** `Bytes` is a list of bytes and `ByteArr n` a byte string of length `n`; the
  length is part of the value, so a 32-byte key that is not 32 bytes long cannot be built.
* **Big-endian fields.** `beBytes n v` writes the low `n` bytes of `v`, `beVal` reads a byte string
  of any length, and each undoes the other.
* **The cursor.** `Buf` reads fields off the front of a byte string. Each accessor panics when too
  few bytes remain, so "this walk never over-reads" is the statement that it does not panic. The
  `_append` lemmas rewrite a read of a field that was just written.
-/

/-- A byte string. -/
abbrev Bytes : Type := List UInt8

/-- The `n` bytes at offset `i`, if they are all there. -/
def Bytes.range? (b : Bytes) (i n : ℕ) : Option Bytes :=
  if i + n ≤ b.length then some ((b.drop i).take n) else none

theorem Bytes.range?_append {a m : Bytes} {i n : ℕ} (ha : a.length = i) (hm : m.length = n)
    (rest : Bytes) : range? (a ++ (m ++ rest)) i n = some m := by
  subst ha hm
  rw [range?, if_pos (by simp), List.drop_left, List.take_left]

/-- The bytes behind a length field of two bytes. -/
theorem Bytes.range?_two {m : Bytes} {n : ℕ} (x y : UInt8) (hm : m.length = n) (rest : Bytes) :
    range? (x :: y :: (m ++ rest)) 2 n = some m :=
  range?_append (a := [x, y]) rfl hm rest

/-- A byte string of length `n`. -/
abbrev ByteArr (n : ℕ) : Type := { b : Bytes // b.length = n }

/-- Random bytes, drawn from the front. -/
abbrev Entropy : Type := Stream' UInt8

/-- The bytes of a string. -/
def utf8 (s : String) : Bytes := s.toUTF8.data.toList

theorem fromUTF8?_utf8 (s : String) : String.fromUTF8? ⟨(utf8 s).toArray⟩ = some s := by
  show String.fromUTF8? s.toByteArray = some s
  rw [String.fromUTF8?, dif_pos s.isValidUTF8]
  rfl

namespace ByteArr

/-- The same byte `n` times. -/
def fill (n : ℕ) (b : UInt8) : ByteArr n := ⟨List.replicate n b, List.length_replicate⟩

/-- All bytes zero. -/
def zero (n : ℕ) : ByteArr n := ⟨List.replicate n 0, List.length_replicate⟩

/-- Check the length of a byte string, as a conversion of a slice to an array does. -/
def ofBytes? (n : ℕ) (b : Bytes) : Option (ByteArr n) :=
  if h : b.length = n then some ⟨b, h⟩ else none

@[simp] theorem length_val {n : ℕ} (a : ByteArr n) : a.val.length = n := a.property

@[simp] theorem ofBytes?_val {n : ℕ} (a : ByteArr n) : ofBytes? n a.val = some a := by
  simp [ofBytes?]

end ByteArr

/-! ### Big-endian fields -/

/-- The low `n` bytes of `v`, most significant first. -/
def beBytes : ℕ → ℕ → Bytes
  | 0, _ => []
  | n + 1, v => UInt8.ofNat (v / 256 ^ n) :: beBytes n v

/-- The number a byte string spells, most significant byte first. -/
def beVal : Bytes → ℕ
  | [] => 0
  | b :: bs => b.toNat * 256 ^ bs.length + beVal bs

@[simp] theorem length_beBytes (n v : ℕ) : (beBytes n v).length = n := by
  induction n with
  | zero => rfl
  | succ n ih => simp [beBytes, ih]

theorem beVal_lt (b : Bytes) : beVal b < 256 ^ b.length := by
  induction b with
  | nil => simp [beVal]
  | cons x xs ih =>
    have hx : x.toNat + 1 ≤ 256 := x.toNat_lt
    calc beVal (x :: xs) = x.toNat * 256 ^ xs.length + beVal xs := rfl
      _ < (x.toNat + 1) * 256 ^ xs.length := by rw [Nat.add_one_mul]; omega
      _ ≤ 256 * 256 ^ xs.length := Nat.mul_le_mul_right _ hx
      _ = 256 ^ (x :: xs).length := by rw [List.length_cons, Nat.pow_succ, Nat.mul_comm]

/-- Reading undoes writing, up to truncation to the width of the field. -/
theorem beVal_beBytes (n v : ℕ) : beVal (beBytes n v) = v % 256 ^ n := by
  induction n with
  | zero => simp [beBytes, beVal, Nat.mod_one]
  | succ n ih =>
    have h : (UInt8.ofNat (v / 256 ^ n)).toNat = v / 256 ^ n % 256 := UInt8.toNat_ofNat'
    rw [beBytes, beVal, length_beBytes, ih, h, Nat.pow_succ, Nat.mod_mul]
    rw [Nat.mul_comm, Nat.add_comm]

theorem beVal_beBytes_of_lt {n v : ℕ} (h : v < 256 ^ n) : beVal (beBytes n v) = v := by
  rw [beVal_beBytes, Nat.mod_eq_of_lt h]

/-- Only the low `n` bytes of the number are written. -/
theorem beBytes_mod (n v : ℕ) : ∀ {m : ℕ}, n ≤ m → beBytes n (v % 256 ^ m) = beBytes n v := by
  induction n with
  | zero => intro m _; rfl
  | succ n ih =>
    intro m hm
    rw [beBytes, beBytes, ih (by omega)]
    congr 1
    apply UInt8.toNat_inj.mp
    rw [UInt8.toNat_ofNat', UInt8.toNat_ofNat']
    obtain ⟨k, rfl⟩ : ∃ k, m = n + (k + 1) := ⟨m - n - 1, by omega⟩
    have h : v % 256 ^ (n + (k + 1)) / 256 ^ n = v / 256 ^ n % 256 ^ (k + 1) := by
      rw [Nat.pow_add, Nat.mod_mul_right_div_self]
    rw [h, Nat.pow_succ]
    exact Nat.mod_mul_left_mod _ _ _

/-- Writing undoes reading. -/
theorem beBytes_beVal (b : Bytes) : beBytes b.length (beVal b) = b := by
  induction b with
  | nil => rfl
  | cons x xs ih =>
    have hlt := beVal_lt xs
    have hdiv : beVal (x :: xs) / 256 ^ xs.length = x.toNat := by
      rw [beVal, Nat.mul_comm, Nat.mul_add_div (Nat.pow_pos (by decide)), Nat.div_eq_of_lt hlt,
        Nat.add_zero]
    have hmod : beVal (x :: xs) % 256 ^ xs.length = beVal xs := by
      rw [beVal, Nat.mul_comm, Nat.mul_add_mod, Nat.mod_eq_of_lt hlt]
    rw [List.length_cons, beBytes, hdiv, ← beBytes_mod xs.length _ (Nat.le_refl _), hmod, ih]
    simp

/-- A length that is written as a `u16` is written the same whether truncated before or not. -/
theorem beBytes_two_ofNat (v : ℕ) : beBytes 2 (UInt16.ofNat v).toNat = beBytes 2 v := by
  rw [UInt16.toNat_ofNat']
  exact beBytes_mod 2 v (Nat.le_refl 2)

theorem beBytes_injective {n v w : ℕ} (hv : v < 256 ^ n) (hw : w < 256 ^ n)
    (h : beBytes n v = beBytes n w) : v = w := by
  rw [← beVal_beBytes_of_lt hv, h, beVal_beBytes_of_lt hw]

/-- A byte string cut at an offset. -/
theorem exists_split {b : Bytes} {n : ℕ} (h : n ≤ b.length) :
    ∃ a rest, b = a ++ rest ∧ a.length = n :=
  ⟨b.take n, b.drop n, (List.take_append_drop n b).symm, List.length_take_of_le h⟩

theorem exists_cons_cons {b : Bytes} (h : 2 ≤ b.length) : ∃ x y rest, b = x :: y :: rest := by
  match b, h with
  | x :: y :: rest, _ => exact ⟨x, y, rest, rfl⟩

/-- A big-endian `u16` from its two bytes. -/
def be16 (hi lo : UInt8) : UInt16 := UInt16.ofNat (beVal [hi, lo])

/-- The field `beBytes 2` writes is read back byte by byte. -/
theorem be16_beBytes (v : UInt16) :
    be16 (UInt8.ofNat (v.toNat / 256 ^ 1)) (UInt8.ofNat (v.toNat / 256 ^ 0)) = v := by
  show UInt16.ofNat (beVal (beBytes 2 v.toNat)) = v
  rw [beVal_beBytes_of_lt (n := 2) v.toNat_lt, UInt16.ofNat_toNat]

/-- The two bytes a `u16` was read from are the ones it is written as. -/
theorem beBytes_be16 (hi lo : UInt8) : beBytes 2 (be16 hi lo).toNat = [hi, lo] := by
  have hlt : beVal [hi, lo] < 2 ^ 16 := by simpa using beVal_lt [hi, lo]
  rw [be16, UInt16.toNat_ofNat', Nat.mod_eq_of_lt hlt]
  exact beBytes_beVal [hi, lo]

theorem le_toNat_be16 (hi lo : UInt8) : lo.toNat ≤ (be16 hi lo).toNat := by
  have hlt : beVal [hi, lo] < 2 ^ 16 := by simpa using beVal_lt [hi, lo]
  rw [be16, UInt16.toNat_ofNat', Nat.mod_eq_of_lt hlt]
  simp only [beVal, List.length_nil, Nat.pow_zero, Nat.mul_one, Nat.add_zero]
  exact Nat.le_add_left _ _

/-- The two bytes of a 16-bit field. -/
theorem exists_beBytes_two {n : ℕ} (h : n < 2 ^ 16) :
    ∃ hi lo, beBytes 2 n = [hi, lo] ∧ (be16 hi lo).toNat = n := by
  refine ⟨UInt8.ofNat (n / 256 ^ 1), UInt8.ofNat (n / 256 ^ 0), rfl, ?_⟩
  show (UInt16.ofNat (beVal (beBytes 2 n))).toNat = n
  rw [beVal_beBytes_of_lt (n := 2) h, UInt16.toNat_ofNat_of_lt' h]

/-! ### The read cursor -/

namespace Buf

variable {ε : Type}

/-- How many bytes are left. -/
def remaining : Exec Bytes ε ℕ := fun b ↦ (.ok b.length, b)

/-- Whether a byte is left. -/
def hasRemaining : Exec Bytes ε Bool := fun b ↦ (.ok !b.isEmpty, b)

/-- The byte at an offset, without moving the cursor. Panics out of range, as indexing does. -/
def byteAt (i : ℕ) : Exec Bytes ε UInt8 := fun b ↦ (.expect b[i]?, b)

/-- The `n` bytes at offset `i`, without moving the cursor. Panics out of range. -/
def slice (i n : ℕ) : Exec Bytes ε Bytes := fun b ↦
  if i + n ≤ b.length then (.ok ((b.drop i).take n), b) else (.panic, b)

/-- Run a walk on a copy of the cursor. -/
def peek {α : Type} (walk : Exec Bytes ε α) : Exec Bytes ε α := fun b ↦ ((walk b).1, b)

/-- Take the first `n` bytes off. Panics when fewer are left. -/
def splitTo (n : ℕ) : Exec Bytes ε Bytes := fun b ↦
  if n ≤ b.length then (.ok (b.take n), b.drop n) else (.panic, b)

/-- Skip `n` bytes. Panics when fewer are left. -/
def advance (n : ℕ) : Exec Bytes ε Unit := do
  let _ ← splitTo n
  pure ()

/-- Read `n` bytes into an array of that size. Panics when fewer are left. -/
def copyToSlice (n : ℕ) : Exec Bytes ε (ByteArr n) := do
  let b ← splitTo n
  Exec.lift (.expect (ByteArr.ofBytes? n b))

/-- Read one byte. -/
def getU8 : Exec Bytes ε UInt8 := fun b ↦
  match b with
  | [] => (.panic, [])
  | x :: xs => (.ok x, xs)

/-- Read a big-endian 16-bit field. -/
def getU16 : Exec Bytes ε UInt16 := do
  let b ← splitTo 2
  pure (UInt16.ofNat (beVal b))

/-- Read a big-endian 24-bit field, byte by byte. -/
def getU24 : Exec Bytes ε ℕ := do
  let b1 ← getU8
  let b2 ← getU8
  let b3 ← getU8
  pure (beVal [b1, b2, b3])

/-! ### Reads with enough bytes left -/

@[simp] theorem remaining_apply (b : Bytes) :
    (remaining : Exec Bytes ε ℕ) b = (.ok b.length, b) := rfl

theorem byteAt_of_lt {b : Bytes} {i : ℕ} (h : i < b.length) :
    (byteAt i : Exec Bytes ε UInt8) b = (.ok b[i], b) := by
  rw [byteAt, List.getElem?_eq_getElem h, Outcome.expect_some]

theorem slice_of_le {b : Bytes} {i n : ℕ} (h : i + n ≤ b.length) :
    (slice i n : Exec Bytes ε Bytes) b = (.ok ((b.drop i).take n), b) := by
  rw [slice, if_pos h]

theorem splitTo_of_le {b : Bytes} {n : ℕ} (h : n ≤ b.length) :
    (splitTo n : Exec Bytes ε Bytes) b = (.ok (b.take n), b.drop n) := by
  rw [splitTo, if_pos h]

theorem advance_of_le {b : Bytes} {n : ℕ} (h : n ≤ b.length) :
    (advance n : Exec Bytes ε Unit) b = (.ok (), b.drop n) := by
  rw [advance, Exec.bind_ok (splitTo_of_le h)]
  rfl

@[simp] theorem getU8_cons (x : UInt8) (xs : Bytes) :
    (getU8 : Exec Bytes ε UInt8) (x :: xs) = (.ok x, xs) := rfl

theorem getU16_of_le {b : Bytes} (h : 2 ≤ b.length) :
    (getU16 : Exec Bytes ε UInt16) b = (.ok (UInt16.ofNat (beVal (b.take 2))), b.drop 2) := by
  rw [getU16, Exec.bind_ok (splitTo_of_le h)]
  rfl

theorem getU16_cons (x y : UInt8) (rest : Bytes) :
    (getU16 : Exec Bytes ε UInt16) (x :: y :: rest) = (.ok (be16 x y), rest) := by
  rw [getU16_of_le (by simp)]
  rfl

/-! ### Reads of a field that was just written -/

theorem splitTo_append {a : Bytes} {n : ℕ} (h : a.length = n) (rest : Bytes) :
    (splitTo n : Exec Bytes ε Bytes) (a ++ rest) = (.ok a, rest) := by
  subst h
  rw [splitTo_of_le (by simp)]
  simp

theorem slice_append {a m : Bytes} {i n : ℕ} (ha : a.length = i) (hm : m.length = n)
    (rest : Bytes) :
    (slice i n : Exec Bytes ε Bytes) (a ++ (m ++ rest)) = (.ok m, a ++ (m ++ rest)) := by
  subst ha hm
  rw [slice_of_le (by simp)]
  simp

theorem byteAt_append {a : Bytes} {i : ℕ} (ha : a.length = i) (x : UInt8) (rest : Bytes) :
    (byteAt i : Exec Bytes ε UInt8) (a ++ x :: rest) = (.ok x, a ++ x :: rest) := by
  subst ha
  rw [byteAt_of_lt (by simp)]
  simp

theorem advance_append {a : Bytes} {n : ℕ} (h : a.length = n) (rest : Bytes) :
    (advance n : Exec Bytes ε Unit) (a ++ rest) = (.ok (), rest) := by
  rw [advance, Exec.bind_ok (splitTo_append h rest)]
  rfl

@[simp] theorem byteAt_zero_cons (x : UInt8) (rest : Bytes) :
    (byteAt 0 : Exec Bytes ε UInt8) (x :: rest) = (.ok x, x :: rest) := rfl

@[simp] theorem byteAt_one_cons (x y : UInt8) (rest : Bytes) :
    (byteAt 1 : Exec Bytes ε UInt8) (x :: y :: rest) = (.ok y, x :: y :: rest) := rfl

@[simp] theorem advance_one_cons (x : UInt8) (rest : Bytes) :
    (advance 1 : Exec Bytes ε Unit) (x :: rest) = (.ok (), rest) :=
  advance_append (a := [x]) rfl rest

@[simp] theorem advance_two_cons (x y : UInt8) (rest : Bytes) :
    (advance 2 : Exec Bytes ε Unit) (x :: y :: rest) = (.ok (), rest) :=
  advance_append (a := [x, y]) rfl rest

theorem copyToSlice_append {n : ℕ} (a : ByteArr n) (rest : Bytes) :
    (copyToSlice n : Exec Bytes ε (ByteArr n)) (a.val ++ rest) = (.ok a, rest) := by
  rw [copyToSlice, Exec.bind_ok (splitTo_append a.property rest), ByteArr.ofBytes?_val,
    Exec.lift_apply, Outcome.expect_some]

theorem getU16_append (v : UInt16) (rest : Bytes) :
    (getU16 : Exec Bytes ε UInt16) (beBytes 2 v.toNat ++ rest) = (.ok v, rest) := by
  rw [getU16, Exec.bind_ok (splitTo_append (length_beBytes 2 _) rest), Exec.pure_apply,
    beVal_beBytes_of_lt (n := 2) v.toNat_lt, UInt16.ofNat_toNat]

theorem getU16_append_ofNat (n : ℕ) (rest : Bytes) :
    (getU16 : Exec Bytes ε UInt16) (beBytes 2 n ++ rest) = (.ok (UInt16.ofNat n), rest) := by
  rw [← beBytes_two_ofNat]
  exact getU16_append _ rest

end Buf
