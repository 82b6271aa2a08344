import Nrxp.Tls.Record

/-!
# The data phase of the TLS bridge

Packing a finished ciphertext into an application-data record, and taking one off a read buffer.
`unpackAppData_cases` is the inversion everything above uses: it says what the read buffer loses in
each of the three ways a call can end.
-/

/-- The payload of an application-data record. -/
structure ApplicationData where
  len : ℕ
  payload : Bytes
  deriving DecidableEq, Repr

namespace ApplicationData

/-- Whether anything is there. -/
def canParse : Exec Bytes TlsError Bool := Buf.hasRemaining

/-- Take all that is there, as one payload. -/
def parse : Exec Bytes TlsError (Option ApplicationData) := do
  let len ← Buf.remaining
  if len = 0 then return none
  let payload ← Buf.splitTo len
  return some ⟨len, payload⟩

end ApplicationData

namespace TlsBridge

/-- Parse a record and hand it to the handler of the expected type. -/
def startProcess {Output : Type} (handleRecord : TlsRecord → Outcome TlsError (Option Output)) :
    Exec Bytes TlsError (Option Output) := do
  match ← TlsRecord.parse with
  | some record => Exec.lift (handleRecord record)
  | none => pure none

/-- Accept application data only. -/
def handleAppData (record : TlsRecord) : Outcome TlsError (Option ApplicationData) :=
  if record.contentType ≠ .applicationData then
    .err ⟨.applicationData "Expected AppData record", .drop, record.serialize⟩
  else
    .ok (some ⟨record.payload.length, record.payload⟩)

/-- Take one application-data record off the buffer. -/
def unpackAppData : Exec Bytes TlsError (Option ApplicationData) :=
  startProcess handleAppData

/-- Wrap a finished ciphertext in an application-data record. -/
def packAppData (buffer : Bytes) : Bytes :=
  TlsRecord.buildApplicationData buffer

/-! ### Unpacking -/

/-- An answer stands when more bytes have arrived, and leaves them alone. -/
theorem startProcess_append {Output : Type}
    {handleRecord : TlsRecord → Outcome TlsError (Option Output)} {b : Bytes}
    (h : (startProcess handleRecord b).1 ≠ .ok none) (more : Bytes) :
    startProcess handleRecord (b ++ more)
      = ((startProcess handleRecord b).1, (startProcess handleRecord b).2 ++ more) := by
  have hanswer : (TlsRecord.parse b).1 ≠ .ok none := fun hnone ↦ h <| by
    rw [startProcess, Exec.bind_ok (Prod.ext hnone rfl)]
    rfl
  have happend := TlsRecord.parse_append hanswer more
  rcases hparse : TlsRecord.parse b with ⟨record | e | _, rest⟩ <;> rw [hparse] at happend
  · rw [startProcess, Exec.bind_ok hparse, Exec.bind_ok happend]
    cases record with
    | some record => rfl
    | none => rfl
  · rw [startProcess, Exec.bind_err hparse, Exec.bind_err happend]
  · rw [startProcess, Exec.bind_panic hparse, Exec.bind_panic happend]

/-- The same of application data, with the run spelled out. -/
theorem unpackAppData_append {b rest : Bytes} {r : Outcome TlsError (Option ApplicationData)}
    (h : unpackAppData b = (r, rest)) (hr : r ≠ .ok none) (more : Bytes) :
    unpackAppData (b ++ more) = (r, rest ++ more) := by
  change startProcess handleAppData b = (r, rest) at h
  have hanswer : (startProcess handleAppData b).1 ≠ .ok none := by
    rw [h]
    exact hr
  have happend := startProcess_append hanswer more
  rwa [h] at happend

theorem unpackAppData_of_short {b : Bytes} (h : b.length < 5) :
    unpackAppData b = (.ok none, b) := by
  rw [unpackAppData, startProcess, Exec.bind_ok (TlsRecord.parse_of_short h)]
  rfl

/-- **The three ways an unpack ends.** Nothing was taken; or a record was taken off whole, its
payload a slice of the buffer of at least a tag and a byte; or an error left a shorter buffer. -/
theorem unpackAppData_cases (b : Bytes) :
    (unpackAppData b = (.ok none, b)) ∨
    (∃ header payload rest, unpackAppData b = (.ok (some ⟨payload.length, payload⟩), rest) ∧
      b = header ++ payload ++ rest ∧ header.length = 5 ∧ 17 ≤ payload.length ∧
      payload.length < 2 ^ 16) ∨
    (∃ e rest, unpackAppData b = (.err e, rest) ∧ rest <:+ b ∧ rest.length < b.length) := by
  rcases TlsRecord.parse_cases b with hparse | ⟨m, header, rest, hparse, rfl, hlen⟩ |
      ⟨c, v1, v2, l1, l2, v, payload, rest, hparse, rfl, -, hlen, h17⟩
  · left
    rw [unpackAppData, startProcess, Exec.bind_ok hparse]
    rfl
  · refine Or.inr (Or.inr ⟨_, rest, Exec.bind_err hparse, List.suffix_append _ _, ?_⟩)
    rw [List.length_append]
    omega
  · rw [unpackAppData, startProcess, Exec.bind_ok hparse]
    by_cases happ : c = .applicationData
    · subst happ
      exact Or.inr (Or.inl ⟨[0x17, v1, v2, l1, l2], payload, rest, rfl, rfl, rfl, h17 rfl,
        hlen ▸ (be16 l1 l2).toNat_lt⟩)
    · obtain ⟨e, he⟩ : ∃ e, handleAppData (TlsRecord.new c v payload) = .err e := ⟨_, if_pos happ⟩
      refine Or.inr (Or.inr ⟨e, rest, ?_, ⟨c.toByte :: v1 :: v2 :: l1 :: l2 :: payload, by simp⟩,
        by simp; omega⟩)
      simp only [Exec.lift_apply, he]

theorem length_lt_of_unpackAppData {b rest : Bytes} {d : ApplicationData}
    (h : unpackAppData b = (.ok (some d), rest)) : rest.length < b.length := by
  rcases unpackAppData_cases b with h' | ⟨header, payload, _, h', hb, hlen, -⟩ | ⟨e, r, h', -⟩
    <;> rw [h] at h' <;> cases h'
  rw [hb]
  simp
  omega

/-- An unpack takes from the front of the buffer only. -/
theorem suffix_of_unpackAppData {b rest : Bytes} {r : Outcome TlsError (Option ApplicationData)}
    (h : unpackAppData b = (r, rest)) : rest <:+ b := by
  rcases unpackAppData_cases b with h' | ⟨header, payload, _, h', hb, -⟩ | ⟨e, _, h', hsuffix, -⟩
    <;> rw [h] at h' <;> cases h'
  · exact List.suffix_rfl
  · exact ⟨header ++ payload, hb.symm⟩
  · exact hsuffix

/-! ### Packing -/

/-- The wire form of a packed ciphertext. -/
theorem packAppData_eq (cipher : Bytes) :
    ∃ l1 l2, packAppData cipher = 0x17 :: 0x03 :: 0x03 :: l1 :: l2 :: cipher ∧
      (be16 l1 l2).toNat = cipher.length % 2 ^ 16 := by
  let n := (UInt16.ofNat cipher.length).toNat
  refine ⟨UInt8.ofNat (n / 256 ^ 1), UInt8.ofNat (n / 256 ^ 0), ?_, ?_⟩
  · simp [packAppData, TlsRecord.buildApplicationData, TlsRecord.new, TlsRecord.serialize, beBytes,
      ContentType.toByte, ProtocolVersion.toU16, n]
  show (UInt16.ofNat (beVal (beBytes 2 (UInt16.ofNat cipher.length).toNat))).toNat = _
  rw [beVal_beBytes_of_lt (n := 2) (UInt16.toNat_lt _), UInt16.ofNat_toNat, UInt16.toNat_ofNat']

/-- The length field is the length as a `u16`. -/
theorem lengthField_packAppData (cipher : Bytes) :
    TlsRecord.lengthField (packAppData cipher) = cipher.length % 2 ^ 16 := by
  obtain ⟨l1, l2, hbytes, hlen⟩ := packAppData_eq cipher
  have hlt : beVal [l1, l2] < 2 ^ 16 := by simpa using beVal_lt [l1, l2]
  rw [be16, UInt16.toNat_ofNat', Nat.mod_eq_of_lt hlt] at hlen
  rw [hbytes, ← hlen]
  rfl

@[simp] theorem length_packAppData (cipher : Bytes) :
    (packAppData cipher).length = cipher.length + 5 := by
  obtain ⟨l1, l2, h, -⟩ := packAppData_eq cipher
  simp [h]

/-- **Unpacking undoes packing**, whatever follows. -/
theorem unpackAppData_packAppData {c : Bytes} (h17 : 17 ≤ c.length)
    (hlt : c.length < 2 ^ 16) (rest : Bytes) :
    unpackAppData (packAppData c ++ rest) = (.ok (some ⟨c.length, c⟩), rest) := by
  obtain ⟨l1, l2, h, hlen⟩ := packAppData_eq c
  rw [Nat.mod_eq_of_lt hlt] at hlen
  have hversion : ProtocolVersion.tryFrom (be16 0x03 0x03) = .ok .tls12 := rfl
  have hparse := TlsRecord.parse_record .applicationData hversion hlen.symm (fun _ ↦ h17) rest
  rw [h, unpackAppData, startProcess]
  exact (Exec.bind_ok hparse).trans rfl

/-- A packed ctext that has not arrived in full is waited for. -/
theorem unpackAppData_of_strict_take {c : Bytes} (hlt : c.length < 2 ^ 16) {n : ℕ}
    (hn : n < c.length + 5) :
    unpackAppData ((packAppData c).take n) = (.ok none, (packAppData c).take n) := by
  obtain ⟨l1, l2, h, hlen⟩ := packAppData_eq c
  rw [Nat.mod_eq_of_lt hlt] at hlen
  rcases Nat.lt_or_ge n 5 with h5 | h5
  · exact unpackAppData_of_short (by simp; omega)
  · obtain ⟨m, rfl⟩ := Nat.exists_eq_add_of_le' h5
    have hnot : ¬TlsRecord.Fits 0x17 (be16 l1 l2).toNat (c.take m).length := by
      rintro ⟨-, -, hle⟩
      rw [hlen, List.length_take] at hle
      omega
    rw [h, unpackAppData, startProcess]
    exact Exec.bind_ok (TlsRecord.parse_of_not_fits hnot)

end TlsBridge
