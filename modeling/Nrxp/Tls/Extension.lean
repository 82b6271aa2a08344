import Nrxp.Errors
import Nrxp.Lib.Tlv
import Nrxp.Tls.Profile

/-!
# Reading extension blocks

The extension block of a hello message, as it is read. A first pass, `skim`, only adds lengths up
and compares the sum with the size of the block; a second pass takes the entries off with accessors
that panic. What both make of a block is said in terms of `Tlv.decode`: the block is accepted
exactly when complete entries cover it.
-/

/-- One parsed extension. -/
structure Extension where
  etype : UInt16
  elen : UInt16
  data : Bytes
  deriving DecidableEq, Repr

/-- Build an extension; the length field is the data's length as a `u16`. -/
def Extension.new (etype : UInt16) (data : Bytes) : Extension :=
  ⟨etype, UInt16.ofNat data.length, data⟩

/-- The extensions of a hello, in order. -/
structure ExtensionStack where
  extensions : List Extension
  deriving DecidableEq, Repr

/-- The type of a host name in a list of names. -/
def typeHostName : UInt8 := 0x00

namespace ExtensionStack

/-- The data of the first extension of a type. -/
def findByType (stack : ExtensionStack) (etype : UInt16) : Option Bytes :=
  (stack.extensions.find? fun e ↦ e.etype == etype).map Extension.data

/-- The host a client asks for: behind the length of its list comes the type of the entry, the
length of the name and the name. -/
def serverName (stack : ExtensionStack) : Option String := do
  let data ← stack.findByType TlsExtensions.sni
  match data with
  | l1 :: l2 :: _ =>
    let list ← data.range? 2 (be16 l1 l2).toNat
    match list with
    | type :: n1 :: n2 :: _ =>
      if type ≠ typeHostName then none
      else
        let nameBytes ← list.range? 3 (be16 n1 n2).toNat
        String.fromUTF8? ⟨nameBytes.toArray⟩
    | _ => none
  | _ => none

/-- Add up the lengths of the extensions from an offset on, without taking anything off. -/
def skim (bytes : Bytes) (offset : ℕ) : Outcome TlsError ℕ :=
  if offset + 4 ≤ bytes.length then do
    let hi ← .expect bytes[offset + 2]?
    let lo ← .expect bytes[offset + 3]?
    skim bytes (offset + (4 + (be16 hi lo).toNat))
  else .ok offset
termination_by bytes.length - offset

/-- Take extensions off while four bytes are left, at most `fuel` of them. -/
def readAll : ℕ → Exec Bytes TlsError (List Extension)
  | 0 => pure []
  | fuel + 1 => do
    if (← Buf.remaining) < 4 then return []
    let etype ← Buf.getU16
    let elen ← Buf.getU16
    let data ← Buf.splitTo elen.toNat
    return .new etype data :: (← readAll fuel)

/-- Whether no extension reaches beyond the end of the block. -/
def canParse : Exec Bytes TlsError Bool := do
  let dataLen ← Buf.remaining
  let offset ← Exec.lift (skim (← Exec.get) 0)
  return decide (offset ≤ dataLen)

/-- Read a block that must be covered exactly. -/
def parse : Exec Bytes TlsError (Option ExtensionStack) := do
  let dataLen ← Buf.remaining
  let offset ← Exec.lift (skim (← Exec.get) 0)
  if offset > dataLen then return none
  if offset ≠ dataLen then
    Exec.throw ⟨.tls "Malformed extension stack: trailing data", .drop, []⟩
  else
    -- An extension takes four bytes or more, so there are fewer of them than bytes.
    return some ⟨← readAll dataLen⟩

/-! ### What the passes make of a block -/

/-- The stack of the entries of a block. -/
def ofEntries (es : List Tlv.Entry) : ExtensionStack := ⟨es.map fun e ↦ .new e.tag e.data⟩

theorem findByType_ofEntries (es : List Tlv.Entry) (etype : UInt16) :
    (ofEntries es).findByType etype = (es.find? fun e ↦ e.tag == etype).map Tlv.Entry.data := by
  rw [findByType, ofEntries, List.find?_map, Option.map_map]
  rfl

theorem skim_of_short {pre b : Bytes} (h : b.length < 4) :
    skim (pre ++ b) pre.length = .ok pre.length := by
  rw [skim, if_neg (by simp; omega)]

/-- One step of the first pass: it goes to where the header says the next extension begins. -/
theorem skim_cons (pre : Bytes) (t1 t2 l1 l2 : UInt8) (rest : Bytes) :
    skim (pre ++ t1 :: t2 :: l1 :: l2 :: rest) pre.length
      = skim (pre ++ t1 :: t2 :: l1 :: l2 :: rest)
          (pre.length + (4 + (be16 l1 l2).toNat)) := by
  rw [skim, if_pos (by simp)]
  simp

/-- The first pass reaches the end of a block exactly when its entries cover it; otherwise it stops
short of the end, or beyond. -/
theorem skim_append (pre b : Bytes) :
    ∃ n, skim (pre ++ b) pre.length = .ok n ∧
      (n = (pre ++ b).length ↔ (Tlv.decode b).2 = []) := by
  induction b using Tlv.entryInduction generalizing pre with
  | short b h =>
    refine ⟨pre.length, skim_of_short h, ?_⟩
    rw [Tlv.decode_of_short h]
    show _ ↔ b = []
    rw [List.length_append, ← List.length_eq_zero_iff]
    omega
  | cut t1 t2 l1 l2 rest h =>
    refine ⟨pre.length + (4 + (be16 l1 l2).toNat), ?_, ?_⟩
    · rw [skim_cons, skim, if_neg (by simp; omega)]
    · rw [Tlv.decode_of_cut h]
      simp only [List.length_append, List.length_cons, reduceCtorEq, iff_false]
      omega
  | entry e rest h ih =>
    obtain ⟨t1, t2, l1, l2, hb, -, hl⟩ := Tlv.Entry.exists_bytes_eq h
    obtain ⟨n, hn, hiff⟩ := ih (pre ++ e.bytes)
    refine ⟨n, ?_, ?_⟩
    · rw [← hn, List.append_assoc, List.length_append, Tlv.Entry.length_bytes, hb]
      rw [List.cons_append, List.cons_append, List.cons_append, List.cons_append, skim_cons, hl]
    · rw [← List.append_assoc, hiff, Tlv.decode_entry_append h]

/-- The second pass reads back entries that were written. -/
theorem readAll_encode {es : List Tlv.Entry} (h : ∀ e ∈ es, e.Fits) :
    ∀ {fuel : ℕ}, es.length ≤ fuel →
      readAll fuel (Tlv.encode es) = (.ok (ofEntries es).extensions, []) := by
  induction es with
  | nil =>
    rintro (_ | fuel) -
    · rfl
    · rw [readAll, Exec.bind_ok (Buf.remaining_apply _), if_pos (by simp)]
      rfl
  | cons e es ih =>
    rintro (_ | fuel) hfuel
    · simp at hfuel
    · have hrec := ih (fun e' he' ↦ h e' (List.mem_cons_of_mem e he'))
        (Nat.le_of_succ_le_succ hfuel)
      have hsplit := Buf.splitTo_append (ε := TlsError) (a := e.data)
        (n := (UInt16.ofNat e.data.length).toNat)
        (by rw [UInt16.toNat_ofNat', Nat.mod_eq_of_lt (h e List.mem_cons_self)]) (Tlv.encode es)
      have hlong : ¬(Tlv.encode (e :: es)).length < 4 := by
        rw [Tlv.encode_cons, List.length_append, Tlv.Entry.length_bytes]
        omega
      rw [readAll, Exec.bind_ok (Buf.remaining_apply _), if_neg hlong, Tlv.encode_cons,
        Tlv.Entry.bytes, List.append_assoc, List.append_assoc,
        Exec.bind_ok (Buf.getU16_append e.tag _), Exec.bind_ok (Buf.getU16_append _ _),
        Exec.bind_ok hsplit, Exec.bind_ok hrec]
      rfl

/-- **How a parse ends**: the block is covered by entries and these are returned, or nothing was
taken and there is no result, or an error. -/
theorem parse_eq (b : Bytes) :
    (∃ es, b = Tlv.encode es ∧ (∀ e ∈ es, e.Fits) ∧
      parse b = (.ok (some (ofEntries es)), [])) ∨
    ((Tlv.decode b).2 ≠ [] ∧
      (parse b = (.ok none, b) ∨ ∃ m, parse b = (.err ⟨.tls m, .drop, []⟩, b))) := by
  obtain ⟨n, hn, hiff⟩ := skim_append [] b
  rw [List.nil_append] at hn hiff
  change skim b 0 = _ at hn
  have hskim : (Exec.lift (skim b 0) : Exec Bytes TlsError ℕ) b = (.ok n, b) := by
    rw [hn, Exec.lift_apply]
  by_cases hcov : (Tlv.decode b).2 = []
  · -- the first pass reached the end, and the second one reads along the same entries
    left
    have henc := Tlv.encode_decode b
    rw [hcov, List.append_nil] at henc
    refine ⟨(Tlv.decode b).1, henc.symm, Tlv.fits_of_mem_decode b, ?_⟩
    have hlen : (Tlv.decode b).1.length ≤ b.length := by
      conv_rhs => rw [← henc]
      exact Tlv.length_le_length_encode _
    have hread := readAll_encode (Tlv.fits_of_mem_decode b) hlen
    rw [henc] at hread
    rw [parse, Exec.bind_ok (Buf.remaining_apply _), Exec.bind_ok (Exec.get_apply _),
      Exec.bind_ok hskim, if_neg (by rw [hiff.mpr hcov]; omega),
      if_neg (by rw [not_not]; exact hiff.mpr hcov), Exec.bind_ok hread]
    rfl
  · right
    refine ⟨hcov, ?_⟩
    rw [parse, Exec.bind_ok (Buf.remaining_apply _), Exec.bind_ok (Exec.get_apply _),
      Exec.bind_ok hskim]
    by_cases hgt : n > b.length
    · left
      rw [if_pos hgt]
      rfl
    · right
      rw [if_neg hgt, if_pos (by rwa [ne_eq, hiff])]
      exact ⟨_, rfl⟩

/-- Reading undoes writing. -/
theorem parse_encode {es : List Tlv.Entry} (h : ∀ e ∈ es, e.Fits) :
    parse (Tlv.encode es) = (.ok (some (ofEntries es)), []) := by
  rcases parse_eq (Tlv.encode es) with ⟨es', henc, hfits, hparse⟩ | ⟨hcov, -⟩
  · have hdec := congrArg Tlv.decode henc
    rw [Tlv.decode_encode h, Tlv.decode_encode hfits] at hdec
    obtain rfl : es = es' := (Prod.ext_iff.mp hdec).1
    exact hparse
  · rw [Tlv.decode_encode h] at hcov
    exact absurd rfl hcov

theorem parse_ne_panic (b : Bytes) : (parse b).1 ≠ .panic := by
  rcases parse_eq b with ⟨es, -, -, h⟩ | ⟨-, h | ⟨e, h⟩⟩ <;> rw [h] <;> simp

end ExtensionStack
