import Nrxp.Lib.Bytes

/-!
# Lists of tagged, length-prefixed entries

An entry is a 16-bit tag, a 16-bit length and that many bytes. `encode` lays entries out one after
the other; `decode` reads complete entries off the front for as long as there is one and returns
them with what is left.

Code that handles such a list walks it, to measure it, to read it or to search it, and every such
walk makes the same three-way choice: fewer than four bytes are left, or the entry at the front is
cut short, or it is complete. `entryInduction` is the induction along that choice, and each walk is
described by what it makes of `decode`.
-/

namespace Tlv

/-- A tag and the bytes under it. -/
structure Entry where
  tag : UInt16
  data : Bytes
  deriving DecidableEq, Repr

namespace Entry

/-- The length field holds the length of the data. -/
def Fits (e : Entry) : Prop := e.data.length < 2 ^ 16

/-- The wire form of an entry. -/
def bytes (e : Entry) : Bytes :=
  beBytes 2 e.tag.toNat ++ beBytes 2 (UInt16.ofNat e.data.length).toNat ++ e.data

theorem length_bytes (e : Entry) : e.bytes.length = 4 + e.data.length := by
  simp only [bytes, List.length_append, length_beBytes]

theorem bytes_eq (e : Entry) :
    e.bytes = beBytes 2 e.tag.toNat ++ beBytes 2 e.data.length ++ e.data := by
  rw [bytes, beBytes_two_ofNat]

/-- An entry that fits is its four header bytes and its data. -/
theorem exists_bytes_eq {e : Entry} (h : e.Fits) :
    ∃ t1 t2 l1 l2, e.bytes = t1 :: t2 :: l1 :: l2 :: e.data ∧ be16 t1 t2 = e.tag ∧
      (be16 l1 l2).toNat = e.data.length := by
  refine ⟨_, _, _, _, rfl, be16_beBytes e.tag, ?_⟩
  rw [be16_beBytes, UInt16.toNat_ofNat', Nat.mod_eq_of_lt h]

end Entry

/-- Entries one after the other. -/
def encode (es : List Entry) : Bytes := es.flatMap Entry.bytes

@[simp] theorem encode_nil : encode [] = [] := rfl

@[simp] theorem encode_cons (e : Entry) (es : List Entry) :
    encode (e :: es) = e.bytes ++ encode es := rfl

theorem encode_append (es es' : List Entry) : encode (es ++ es') = encode es ++ encode es' :=
  List.flatMap_append

/-- An entry that depends on a condition. -/
theorem encode_ite (c : Prop) [Decidable c] (e : Entry) :
    encode (if c then [e] else []) = if c then e.bytes else [] := by
  split
  · exact List.append_nil e.bytes
  · rfl

theorem length_le_length_encode (es : List Entry) : es.length ≤ (encode es).length := by
  induction es with
  | nil => exact Nat.le_refl _
  | cons e es ih =>
    rw [encode_cons, List.length_append, Entry.length_bytes, List.length_cons]
    omega

/-- The complete entries at the front, and what is left. -/
def decode : Bytes → List Entry × Bytes
  | t1 :: t2 :: l1 :: l2 :: rest =>
    if (be16 l1 l2).toNat ≤ rest.length then
      let (es, left) := decode (rest.drop (be16 l1 l2).toNat)
      (⟨be16 t1 t2, rest.take (be16 l1 l2).toNat⟩ :: es, left)
    else ([], t1 :: t2 :: l1 :: l2 :: rest)
  | b => ([], b)
termination_by b => b.length
decreasing_by
  simp only [List.length_drop, List.length_cons]
  omega

/-- **Induction along a walk**: too short for a header, an entry cut short, a complete entry. -/
@[elab_as_elim]
theorem entryInduction {motive : Bytes → Prop} (short : ∀ b, b.length < 4 → motive b)
    (cut : ∀ t1 t2 l1 l2 rest, rest.length < (be16 l1 l2).toNat →
      motive (t1 :: t2 :: l1 :: l2 :: rest))
    (entry : ∀ (e : Entry) rest, e.Fits → motive rest → motive (e.bytes ++ rest)) (b : Bytes) :
    motive b := by
  induction hn : b.length using Nat.strong_induction_on generalizing b with
  | _ n ih =>
    match b with
    | t1 :: t2 :: l1 :: l2 :: rest =>
      rcases Nat.lt_or_ge rest.length (be16 l1 l2).toNat with hcut | hle
      · exact cut t1 t2 l1 l2 rest hcut
      · let e : Entry := ⟨be16 t1 t2, rest.take (be16 l1 l2).toNat⟩
        have hlen : e.data.length = (be16 l1 l2).toNat := List.length_take_of_le hle
        have hbytes : e.bytes ++ rest.drop (be16 l1 l2).toNat = t1 :: t2 :: l1 :: l2 :: rest := by
          rw [Entry.bytes, hlen, UInt16.ofNat_toNat, beBytes_be16, beBytes_be16]
          simp [e]
        have hfits : e.Fits := by
          rw [Entry.Fits, hlen]
          exact UInt16.toNat_lt _
        have hshorter : (rest.drop (be16 l1 l2).toNat).length < n := by
          rw [← hn, List.length_drop]
          simp only [List.length_cons]
          omega
        rw [← hbytes]
        exact entry e _ hfits (ih _ hshorter _ rfl)
    | [] | [_] | [_, _] | [_, _, _] => exact short _ (by simp)

theorem decode_of_short {b : Bytes} (h : b.length < 4) : decode b = ([], b) := by
  rw [decode.eq_2]
  rintro t1 t2 l1 l2 rest rfl
  simp only [List.length_cons] at h
  omega

theorem decode_of_cut {t1 t2 l1 l2 : UInt8} {rest : Bytes} (h : rest.length < (be16 l1 l2).toNat) :
    decode (t1 :: t2 :: l1 :: l2 :: rest) = ([], t1 :: t2 :: l1 :: l2 :: rest) := by
  rw [decode.eq_1, if_neg (by omega)]

theorem decode_entry_append {e : Entry} (h : e.Fits) (rest : Bytes) :
    decode (e.bytes ++ rest) = (e :: (decode rest).1, (decode rest).2) := by
  obtain ⟨t1, t2, l1, l2, hb, ht, hl⟩ := Entry.exists_bytes_eq h
  rw [hb]
  show decode (t1 :: t2 :: l1 :: l2 :: (e.data ++ rest)) = _
  rw [decode.eq_1, if_pos (by simp [hl]), ht, hl, List.take_left, List.drop_left]

/-- The entry at the front of a byte string is unique. -/
theorem Entry.eq_of_bytes_append {e e' : Entry} (h : e.Fits) (h' : e'.Fits) {rest rest' : Bytes}
    (heq : e.bytes ++ rest = e'.bytes ++ rest') : e = e' := by
  have hdecode := congrArg (fun b ↦ (decode b).1) heq
  simp only [decode_entry_append h, decode_entry_append h'] at hdecode
  exact (List.cons.inj hdecode).1

/-- Reading undoes writing, whatever follows. -/
theorem decode_encode_append {es : List Entry} (h : ∀ e ∈ es, e.Fits) (rest : Bytes) :
    decode (encode es ++ rest) = (es ++ (decode rest).1, (decode rest).2) := by
  induction es with
  | nil => rfl
  | cons e es ih =>
    rw [encode_cons, List.append_assoc, decode_entry_append (h e List.mem_cons_self),
      ih fun e' he' ↦ h e' (List.mem_cons_of_mem e he')]
    rfl

theorem decode_encode {es : List Entry} (h : ∀ e ∈ es, e.Fits) : decode (encode es) = (es, []) := by
  have happ := decode_encode_append h []
  rwa [List.append_nil, decode_of_short (b := []) (by simp), List.append_nil] at happ

/-- Writing undoes reading: nothing is lost. -/
theorem encode_decode (b : Bytes) : encode (decode b).1 ++ (decode b).2 = b := by
  induction b using entryInduction with
  | short b h => simp [decode_of_short h]
  | cut t1 t2 l1 l2 rest h => simp [decode_of_cut h]
  | entry e rest h ih => rw [decode_entry_append h, encode_cons, List.append_assoc, ih]

theorem fits_of_mem_decode (b : Bytes) : ∀ e ∈ (decode b).1, e.Fits := by
  induction b using entryInduction with
  | short b h => simp [decode_of_short h]
  | cut t1 t2 l1 l2 rest h => simp [decode_of_cut h]
  | entry e rest h ih =>
    rw [decode_entry_append h]
    rintro e' (_ | ⟨_, he'⟩)
    · exact h
    · exact ih e' he'

end Tlv
