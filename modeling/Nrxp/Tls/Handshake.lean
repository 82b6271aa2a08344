import Nrxp.Crypto.Session
import Nrxp.Tls.ExtensionBuilder
import Nrxp.Tls.Record

/-!
# Hello messages

The bodies of the two handshake messages, read and written. Each is a version and 32 random bytes
and then fields of variable length. `ClientHello.canParse` walks over the fields on a copy of the
cursor before `parse` takes them off; `ServerHello.parse` adds up an offset and cuts the message out
first. A `Layout` is stated once for each: every body that is long enough has one, writing produces
it, and `parse_bytes` says what reading makes of it.
-/

/-- The header of a handshake message: its type, and a length that nothing reads. -/
structure HelloHeader where
  headerType : HelloType
  len : ℕ
  deriving DecidableEq, Repr

namespace HelloHeader

/-- Whether there are four bytes, of a known type. -/
def canParse : Exec Bytes TlsError Bool := do
  if (← Buf.remaining) < 4 then return false
  let type ← Buf.byteAt 0
  return type == HelloType.client.toByte || type == HelloType.server.toByte

/-- Take the header off. -/
def parse : Exec Bytes TlsError (Option HelloHeader) := do
  if !(← canParse) then return none
  let rawType ← Buf.getU8
  let headerType ← Exec.lift ((Outcome.ofExcept (HelloType.tryFrom rawType)).mapErr
    fun e ↦ ⟨.handshake e, .drop, []⟩)
  let len ← Buf.getU24
  return some ⟨headerType, len⟩

theorem parse_cons (type : HelloType) (n1 n2 n3 : UInt8) (body : Bytes) :
    parse (type.toByte :: n1 :: n2 :: n3 :: body)
      = (.ok (some ⟨type, beVal [n1, n2, n3]⟩), body) := by
  have hcan : canParse (type.toByte :: n1 :: n2 :: n3 :: body)
      = (.ok true, type.toByte :: n1 :: n2 :: n3 :: body) := by
    rw [canParse, Exec.bind_ok (Buf.remaining_apply _), if_neg (by simp),
      Exec.bind_ok (Buf.byteAt_zero_cons _ _)]
    cases type <;> rfl
  rw [parse, Exec.bind_ok hcan]
  simp only [Bool.not_true, Bool.false_eq_true, if_false, Exec.bind_ok (Buf.getU8_cons _ _),
    HelloType.tryFrom_toByte, Outcome.ofExcept_ok, Outcome.mapErr_ok, Exec.lift_ok_bind]
  rfl

/-- A header of a known type is there, or there is no answer. -/
theorem parse_cases (b : Bytes) :
    parse b = (.ok none, b) ∨
      ∃ (type : HelloType) (n1 n2 n3 : UInt8) (body : Bytes),
        b = type.toByte :: n1 :: n2 :: n3 :: body := by
  match b with
  | [] | [_] | [_, _] | [_, _, _] => exact Or.inl rfl
  | t :: n1 :: n2 :: n3 :: body =>
    by_cases htype : ∃ type : HelloType, t = type.toByte
    · obtain ⟨type, rfl⟩ := htype
      exact Or.inr ⟨type, n1, n2, n3, body, rfl⟩
    · have hclient : (t == HelloType.client.toByte) = false :=
        beq_eq_false_iff_ne.mpr fun h ↦ htype ⟨.client, h⟩
      have hserver : (t == HelloType.server.toByte) = false :=
        beq_eq_false_iff_ne.mpr fun h ↦ htype ⟨.server, h⟩
      have hcan : canParse (t :: n1 :: n2 :: n3 :: body)
          = (.ok false, t :: n1 :: n2 :: n3 :: body) := by
        rw [canParse, Exec.bind_ok (Buf.remaining_apply _), if_neg (by simp),
          Exec.bind_ok (Buf.byteAt_zero_cons _ _), hclient, hserver]
        rfl
      left
      rw [parse, Exec.bind_ok hcan]
      rfl

end HelloHeader

/-- An error of a hello's version. -/
def badVersion (message : String) : TlsError := ⟨.tls message, .drop, []⟩

/-- The body of a handshake message behind its type and its length, which is the low 24 bits. -/
def handshakeBytes (type : HelloType) (body : Bytes) : Bytes :=
  type.toByte :: (beBytes 3 body.length ++ body)

/-! ### Client hellos -/

/-- A client hello. -/
structure ClientHello where
  version : ProtocolVersion
  /-- The client's salt. -/
  random : ByteArr 32
  /-- The claimed version, 15 random bytes and the tag. -/
  sessionId : Bytes
  cipherSuites : List UInt16
  extensions : Bytes
  deriving DecidableEq

namespace ClientHello

/-- The message, ready for a record. -/
def serialize (hello : ClientHello) : Bytes :=
  handshakeBytes .client (beBytes 2 0x0303 ++ hello.random.val
    ++ [UInt8.ofNat hello.sessionId.length] ++ hello.sessionId
    ++ beBytes 2 (hello.cipherSuites.length * 2) ++ u16s hello.cipherSuites ++ [1] ++ [0x00]
    ++ beBytes 2 hello.extensions.length ++ hello.extensions)

/-- A hello in the shape of a profile, in a record. The salt goes out as the random bytes; the
session id holds the claimed version, 15 random bytes and the tag. -/
def makeClientHello (hmac : HmacSha256) (now : UInt64) (profile : BrowserProfile) (host : String)
    (keys : SessionKeys) : StateM OsRng Bytes := do
  let tlsRandom := keys.salt.localSalt
  let noise ← OsRng.fillBytes 15
  let sessionId := keys.claimedVersion :: (noise.val ++ (keys.handshakeTag hmac now tlsRandom).val)
  let grease ← GreaseSet.random
  let cipherSuites :=
    if profile.hasGrease then grease.cipher.val :: profile.cipherSuites else profile.cipherSuites
  let handshakeHeader := 4
  let clientHelloFixed := 2 + 32 + 1 + 32 + 2 + cipherSuites.length * 2 + 2 + 2
  let totalOverhead := handshakeHeader + clientHelloFixed
  let extBuilder ← (ExtensionBuilder.withGrease grease).applyProfile profile host
    keys.ecdh.publicKey.val totalOverhead
  let clientHello : ClientHello :=
    { version := .tls12
      random := tlsRandom
      sessionId := sessionId
      cipherSuites := cipherSuites
      extensions := extBuilder.payload }
  return (TlsRecord.new .handshake profile.recordLayerVersion clientHello.serialize).serialize

/-- The extension block, if there is room for its length. -/
def skipExtensions : Exec Bytes TlsError Bool := do
  if 2 ≤ (← Buf.remaining) then
    let extLen := (be16 (← Buf.byteAt 0) (← Buf.byteAt 1)).toNat
    Buf.advance 2
    if (← Buf.remaining) < extLen then return false else return true
  else return true

/-- The compression methods, and what follows them. -/
def skipCompression : Exec Bytes TlsError Bool := do
  let compLen := (← Buf.byteAt 0).toNat
  Buf.advance 1
  if (← Buf.remaining) < compLen then return false
  Buf.advance compLen
  skipExtensions

/-- The cipher suites, and what follows them. -/
def skipCiphers : Exec Bytes TlsError Bool := do
  let ciphersLen := (be16 (← Buf.byteAt 0) (← Buf.byteAt 1)).toNat
  Buf.advance 2
  if (← Buf.remaining) < ciphersLen + 1 then return false
  Buf.advance ciphersLen
  skipCompression

/-- The session id, and what follows it. -/
def skipSessionId : Exec Bytes TlsError Bool := do
  let sidLen := (← Buf.byteAt 0).toNat
  Buf.advance 1
  if (← Buf.remaining) < sidLen + 2 then return false
  Buf.advance sidLen
  skipCiphers

/-- Whether a whole hello is there, found out by jumping from field to field. -/
def canParse : Exec Bytes TlsError Bool := Buf.peek do
  if (← Buf.remaining) < 35 then return false
  Buf.advance 34
  skipSessionId

/-- Read 16-bit values until nothing remains. A byte left over makes the last read panic. -/
def readSuites : Bytes → Outcome TlsError (List UInt16)
  | [] => .ok []
  | [_] => .panic
  | hi :: lo :: rest => do return be16 hi lo :: (← readSuites rest)

/-- The extension block, if a length field is there. -/
def readExtensions : Exec Bytes TlsError Bytes := do
  if 2 ≤ (← Buf.remaining) then
    let extLen := (← Buf.getU16).toNat
    Buf.splitTo extLen
  else return []

/-- Take a hello off. -/
def parse : Exec Bytes TlsError (Option ClientHello) := do
  if !(← canParse) then return none
  let rawVersion ← Buf.getU16
  let version ← Exec.lift
    ((Outcome.ofExcept (ProtocolVersion.tryFrom rawVersion)).mapErr badVersion)
  let random ← Buf.copyToSlice 32
  let sidLen := (← Buf.getU8).toNat
  let sessionId ← Buf.splitTo sidLen
  let cLen := (← Buf.getU16).toNat
  let ciphersData ← Buf.splitTo cLen
  let cipherSuites ← Exec.lift (readSuites ciphersData)
  let cmpLen := (← Buf.getU8).toNat
  Buf.advance cmpLen
  let extensions ← readExtensions
  return some { version, random, sessionId, cipherSuites, extensions }

end ClientHello

/-! ### Server hellos -/

/-- A server hello. -/
structure ServerHello where
  version : ProtocolVersion
  /-- The server's salt. -/
  random : ByteArr 32
  /-- The client's, echoed. -/
  sessionId : Bytes
  cipherSuite : UInt16
  extensions : Bytes
  deriving DecidableEq

namespace ServerHello

/-- The message, ready for a record. -/
def serialize (hello : ServerHello) : Bytes :=
  handshakeBytes .server (beBytes 2 hello.version.toU16.toNat ++ hello.random.val
    ++ [UInt8.ofNat hello.sessionId.length] ++ hello.sessionId
    ++ beBytes 2 hello.cipherSuite.toNat ++ [0x00]
    ++ (if hello.extensions ≠ [] then beBytes 2 hello.extensions.length ++ hello.extensions
      else beBytes 2 0))

/-- The answer to a client hello: a cipher suite both sides have, the version of the profile and the
server's public key. -/
def fromClientHello (clientHello : ClientHello) (serverPublicKey : Bytes) (salt : ByteArr 32)
    (profile : ServerProfile) : ServerHello :=
  let selectedSuite :=
    if profile.honorCipherOrder then
      (profile.cipherSuites.find? fun suite ↦ clientHello.cipherSuites.contains suite).getD 0x1301
    else
      (clientHello.cipherSuites.find? fun suite ↦ profile.cipherSuites.contains suite).getD 0x1301
  let selectedVersion := profile.versions.max
  let keyLen := UInt16.ofNat serverPublicKey.length
  { version := .tls12
    random := salt
    sessionId := clientHello.sessionId
    cipherSuite := selectedSuite
    extensions :=
      beBytes 2 0x002b ++ beBytes 2 2 ++ beBytes 2 selectedVersion.toU16.toNat
        ++ beBytes 2 0x0033 ++ beBytes 2 (keyLen + 4).toNat ++ beBytes 2 0x001d
        ++ beBytes 2 keyLen.toNat ++ serverPublicKey }

/-- The answer, in a record. -/
def makeServerHello (clientHello : ClientHello) (serverPublicKey : Bytes) (salt : ByteArr 32)
    (profile : ServerProfile) : Bytes :=
  let hello := fromClientHello clientHello serverPublicKey salt profile
  (TlsRecord.new .handshake profile.recordLayerVersion hello.serialize).serialize

/-- Whether a whole hello is there, with its extensions if it has a length for them. -/
def canParse : Exec Bytes TlsError Bool := do
  if (← Buf.remaining) < 34 + 1 then return false
  let offset := 34 + (1 + (← Buf.byteAt 34).toNat) + 3
  let offset ←
    if offset + 2 ≤ (← Buf.remaining) then do
      let extLen := (be16 (← Buf.byteAt offset) (← Buf.byteAt (offset + 1))).toNat
      pure (offset + (2 + extLen))
    else pure offset
  return decide (offset ≤ (← Buf.remaining))

/-- Take a hello off. The whole message is cut out before a field is read. -/
def parse : Exec Bytes TlsError (Option ServerHello) := do
  if (← Buf.remaining) < 34 + 1 then return none
  let offset := 34 + (1 + (← Buf.byteAt 34).toNat) + 3
  let offset ←
    if offset + 2 ≤ (← Buf.remaining) then do
      let extLen := (be16 (← Buf.byteAt offset) (← Buf.byteAt (offset + 1))).toNat
      pure (offset + (2 + extLen))
    else pure offset
  if (← Buf.remaining) < offset then return none
  let msg ← Buf.splitTo offset
  Exec.lift (readMessage msg).1
where
  /-- Read the fields of a message that was cut out. -/
  readMessage : Exec Bytes TlsError (Option ServerHello) := do
    let rawVersion ← Buf.getU16
    let version ← Exec.lift
      ((Outcome.ofExcept (ProtocolVersion.tryFrom rawVersion)).mapErr badVersion)
    let random ← Buf.copyToSlice 32
    let sidLen := (← Buf.getU8).toNat
    let sessionId ← Buf.splitTo sidLen
    let cipherSuite ← Buf.getU16
    Buf.advance 1
    let extensions ← ClientHello.readExtensions
    return some { version, random, sessionId, cipherSuite, extensions }

end ServerHello

/-! ### The layout of a client hello -/

namespace ClientHello

/-- The fields of a body, as they lie on the wire. -/
structure Layout where
  version : UInt16
  random : ByteArr 32
  sessionId : Bytes
  ciphers : Bytes
  compression : Bytes
  /-- The extension block with its length, and whatever follows. -/
  tail : Bytes
  sessionId_lt : sessionId.length < 2 ^ 8
  ciphers_lt : ciphers.length < 2 ^ 16
  compression_lt : compression.length < 2 ^ 8

/-- The body itself. -/
def Layout.bytes (l : Layout) : Bytes :=
  (beBytes 2 l.version.toNat ++ l.random.val) ++ UInt8.ofNat l.sessionId.length
    :: (l.sessionId ++ (beBytes 2 l.ciphers.length ++ (l.ciphers ++ UInt8.ofNat l.compression.length
      :: (l.compression ++ l.tail))))

/-- The extension block at the front of a tail, and what is left over. -/
def splitExtensions : Bytes → Option (Bytes × Bytes)
  | l1 :: l2 :: rest =>
    let extLen := (be16 l1 l2).toNat
    if extLen ≤ rest.length then some (rest.take extLen, rest.drop extLen) else none
  | tail => some ([], tail)

theorem readExtensions_of_split {tail ext rest : Bytes}
    (h : splitExtensions tail = some (ext, rest)) : readExtensions tail = (.ok ext, rest) := by
  match tail with
  | [] | [_] =>
    cases h
    rw [readExtensions, Exec.bind_ok (Buf.remaining_apply _), if_neg (by simp)]
    rfl
  | l1 :: l2 :: rest' =>
    rw [splitExtensions, Option.ite_none_right_eq_some] at h
    obtain ⟨hle, h⟩ := h
    cases h
    rw [readExtensions, Exec.bind_ok (Buf.remaining_apply _), if_pos (by simp),
      Exec.bind_ok (Buf.getU16_cons l1 l2 rest'), Buf.splitTo_of_le hle]

theorem skipExtensions_eq (tail : Bytes) :
    (skipExtensions tail).1 = .ok (splitExtensions tail).isSome := by
  match tail with
  | [] | [_] =>
    rw [skipExtensions, Exec.bind_ok (Buf.remaining_apply _), if_neg (by simp)]
    rfl
  | l1 :: l2 :: rest =>
    rw [skipExtensions, Exec.bind_ok (Buf.remaining_apply _), if_pos (by simp),
      Exec.bind_ok (Buf.byteAt_zero_cons _ _),
      Exec.bind_ok (Buf.byteAt_one_cons _ _ _),
      Exec.bind_ok (Buf.advance_two_cons _ _ _),
      Exec.bind_ok (Buf.remaining_apply _), splitExtensions]
    by_cases hle : (be16 l1 l2).toNat ≤ rest.length
    · rw [if_neg (by omega), if_pos hle]
      rfl
    · rw [if_pos (by omega), if_neg hle]
      rfl

theorem skipCompression_cons (c : UInt8) (rest : Bytes) :
    skipCompression (c :: rest)
      = if rest.length < c.toNat then (.ok false, rest)
        else skipExtensions (rest.drop c.toNat) := by
  rw [skipCompression, Exec.bind_ok (Buf.byteAt_zero_cons _ _),
    Exec.bind_ok (Buf.advance_one_cons _ _), Exec.bind_ok (Buf.remaining_apply _)]
  by_cases hlt : rest.length < c.toNat
  · rw [if_pos hlt, if_pos hlt]
    rfl
  · rw [if_neg hlt, if_neg hlt, Exec.bind_ok (Buf.advance_of_le (Nat.not_lt.mp hlt))]

theorem skipCiphers_cons (c1 c2 : UInt8) (rest : Bytes) :
    skipCiphers (c1 :: c2 :: rest)
      = if rest.length < (be16 c1 c2).toNat + 1 then (.ok false, rest)
        else skipCompression (rest.drop (be16 c1 c2).toNat) := by
  rw [skipCiphers, Exec.bind_ok (Buf.byteAt_zero_cons _ _),
    Exec.bind_ok (Buf.byteAt_one_cons _ _ _),
    Exec.bind_ok (Buf.advance_two_cons _ _ _),
    Exec.bind_ok (Buf.remaining_apply _)]
  by_cases hlt : rest.length < (be16 c1 c2).toNat + 1
  · rw [if_pos hlt, if_pos hlt]
    rfl
  · rw [if_neg hlt, if_neg hlt, Exec.bind_ok (Buf.advance_of_le (by omega))]

theorem skipSessionId_cons (s : UInt8) (rest : Bytes) :
    skipSessionId (s :: rest)
      = if rest.length < s.toNat + 2 then (.ok false, rest)
        else skipCiphers (rest.drop s.toNat) := by
  rw [skipSessionId, Exec.bind_ok (Buf.byteAt_zero_cons _ _),
    Exec.bind_ok (Buf.advance_one_cons _ _), Exec.bind_ok (Buf.remaining_apply _)]
  by_cases hlt : rest.length < s.toNat + 2
  · rw [if_pos hlt, if_pos hlt]
    rfl
  · rw [if_neg hlt, if_neg hlt, Exec.bind_ok (Buf.advance_of_le (by omega))]

/-- Every body long enough for the fields before the extensions has a layout. -/
theorem exists_layout (b : Bytes) :
    canParse b = (.ok false, b) ∨ ∃ l : Layout, b = l.bytes := by
  by_cases h35 : b.length < 35
  · left
    rw [canParse, Buf.peek, Exec.bind_ok (Buf.remaining_apply b), if_pos h35]
    rfl
  obtain ⟨head, r₀, rfl, hhead⟩ := exists_split (n := 34) (b := b) (by omega)
  have hcan : canParse (head ++ r₀) = ((skipSessionId r₀).1, head ++ r₀) := by
    rw [canParse, Buf.peek, Exec.bind_ok (Buf.remaining_apply _), if_neg h35,
      Exec.bind_ok (Buf.advance_append hhead r₀)]
  obtain ⟨v1, v2, random, rfl⟩ := exists_cons_cons (b := head) (by omega)
  obtain ⟨s, r₁, rfl⟩ : ∃ s r₁, r₀ = s :: r₁ :=
    List.exists_cons_of_length_pos (by rw [List.length_append] at h35; omega)
  rw [skipSessionId_cons] at hcan
  -- each field is there in full, or the walk ends before it
  by_cases h₁ : r₁.length < s.toNat + 2
  · exact Or.inl (by rw [hcan, if_pos h₁])
  obtain ⟨sid, r₁, rfl, hsid⟩ := exists_split (n := s.toNat) (b := r₁) (by omega)
  rw [if_neg h₁, List.drop_left' hsid] at hcan
  rw [List.length_append] at h₁
  obtain ⟨c1, c2, r₂, rfl⟩ := exists_cons_cons (b := r₁) (by omega)
  rw [skipCiphers_cons] at hcan
  by_cases h₂ : r₂.length < (be16 c1 c2).toNat + 1
  · exact Or.inl (by rw [hcan, if_pos h₂])
  obtain ⟨ciphers, r₂, rfl, hciphers⟩ := exists_split (n := (be16 c1 c2).toNat) (b := r₂) (by omega)
  rw [if_neg h₂, List.drop_left' hciphers] at hcan
  rw [List.length_append] at h₂
  obtain ⟨m, r₃, rfl⟩ : ∃ m r₃, r₂ = m :: r₃ := List.exists_cons_of_length_pos (by omega)
  rw [skipCompression_cons] at hcan
  by_cases h₃ : r₃.length < m.toNat
  · exact Or.inl (by rw [hcan, if_pos h₃])
  obtain ⟨comp, tail, rfl, hcomp⟩ := exists_split (n := m.toNat) (b := r₃) (by omega)
  refine Or.inr ⟨
    { version := be16 v1 v2
      random := ⟨random, by simpa using hhead⟩
      sessionId := sid
      ciphers := ciphers
      compression := comp
      tail := tail
      sessionId_lt := by rw [hsid]; exact s.toNat_lt
      ciphers_lt := by rw [hciphers]; exact (be16 c1 c2).toNat_lt
      compression_lt := by rw [hcomp]; exact m.toNat_lt }, ?_⟩
  simp only [Layout.bytes, beBytes_be16, hsid, hciphers, hcomp, UInt8.ofNat_toNat,
    List.cons_append, List.nil_append]

/-- The walk over a body with a layout comes down to the extensions. -/
theorem canParse_bytes (l : Layout) :
    canParse l.bytes = (.ok (splitExtensions l.tail).isSome, l.bytes) := by
  have hhead : (beBytes 2 l.version.toNat ++ l.random.val).length = 34 := by simp
  have hsid : (UInt8.ofNat l.sessionId.length).toNat = l.sessionId.length :=
    UInt8.toNat_ofNat_of_lt' l.sessionId_lt
  have hcomp : (UInt8.ofNat l.compression.length).toNat = l.compression.length :=
    UInt8.toNat_ofNat_of_lt' l.compression_lt
  obtain ⟨c1, c2, hc, hciphers⟩ := exists_beBytes_two l.ciphers_lt
  have hlen : l.bytes.length = 34 + (1 + (l.sessionId.length + (2 + (l.ciphers.length
      + (1 + (l.compression.length + l.tail.length)))))) := by
    simp only [Layout.bytes, List.length_append, List.length_cons, length_beBytes,
      ByteArr.length_val]
    omega
  rw [canParse, Buf.peek, Exec.bind_ok (Buf.remaining_apply _), if_neg (by rw [hlen]; omega),
    Layout.bytes, Exec.bind_ok (Buf.advance_append hhead _), skipSessionId_cons, hsid,
    if_neg (by simp only [List.length_append, length_beBytes]; omega), List.drop_left, hc,
    List.cons_append, List.cons_append, List.nil_append, skipCiphers_cons, hciphers,
    if_neg (by simp only [List.length_append, List.length_cons]; omega), List.drop_left,
    skipCompression_cons, hcomp, if_neg (by rw [List.length_append]; omega), List.drop_left,
    skipExtensions_eq]

/-- What a parse returns of a body whose extensions are there: the version can be unknown, and the
cipher suites can make it panic. -/
def Layout.result (l : Layout) (extensions : Bytes) : Outcome TlsError (Option ClientHello) :=
  (Outcome.ofExcept (ProtocolVersion.tryFrom l.version)).mapErr badVersion >>= fun version ↦
    readSuites l.ciphers >>= fun cipherSuites ↦
      .ok (some ⟨version, l.random, l.sessionId, cipherSuites, extensions⟩)

/-- A body whose extensions are there is read; a hello leaves what follows them. -/
theorem parse_of_split {l : Layout} {extensions rest : Bytes}
    (hsplit : splitExtensions l.tail = some (extensions, rest)) :
    ∃ left, parse l.bytes = (l.result extensions, left) ∧
      ((l.result extensions).isOk = true → left = rest) := by
  have hcan := canParse_bytes l
  rw [hsplit] at hcan
  have hsid : (UInt8.ofNat l.sessionId.length).toNat = l.sessionId.length :=
    UInt8.toNat_ofNat_of_lt' l.sessionId_lt
  have hcomp : (UInt8.ofNat l.compression.length).toNat = l.compression.length :=
    UInt8.toNat_ofNat_of_lt' l.compression_lt
  have hciphers : (UInt16.ofNat l.ciphers.length).toNat = l.ciphers.length :=
    UInt16.toNat_ofNat_of_lt' l.ciphers_lt
  rw [parse, Exec.bind_ok hcan, Layout.bytes, List.append_assoc, Layout.result]
  simp only [Option.isSome_some, Bool.not_true, Bool.false_eq_true, if_false,
    Exec.bind_ok (Buf.getU16_append l.version _)]
  rcases ProtocolVersion.tryFrom l.version with e | version
  · exact ⟨_, rfl, fun hok ↦ by cases hok⟩
  simp only [Outcome.ofExcept_ok, Outcome.mapErr_ok, Outcome.ok_bind, Exec.lift_ok_bind,
    Exec.bind_ok (Buf.copyToSlice_append l.random _), Exec.bind_ok (Buf.getU8_cons _ _), hsid,
    Exec.bind_ok (Buf.splitTo_append rfl _),
    Exec.bind_ok (Buf.getU16_append_ofNat _ _), hciphers]
  rcases readSuites l.ciphers with cipherSuites | e | _
  · simp only [Outcome.ok_bind, Exec.lift_ok_bind, Exec.bind_ok (Buf.getU8_cons _ _), hcomp,
      Exec.bind_ok (Buf.advance_append rfl _),
      Exec.bind_ok (readExtensions_of_split hsplit), Exec.pure_apply]
    exact ⟨rest, rfl, fun _ ↦ rfl⟩
  · exact ⟨_, rfl, fun hok ↦ by cases hok⟩
  · exact ⟨_, rfl, fun hok ↦ by cases hok⟩

/-- **What a parse does** with a body that has a layout. It waits for the extensions; then it can
fail over the version, and over the cipher suites it can panic. -/
theorem parse_bytes (l : Layout) :
    (parse l.bytes).1 =
      match splitExtensions l.tail with
      | none => .ok none
      | some (extensions, _) =>
        (Outcome.ofExcept (ProtocolVersion.tryFrom l.version)).mapErr badVersion >>= fun version ↦
          readSuites l.ciphers >>= fun cipherSuites ↦
            .ok (some ⟨version, l.random, l.sessionId, cipherSuites, extensions⟩) := by
  rcases hsplit : splitExtensions l.tail with - | ⟨extensions, rest⟩
  · have hcan := canParse_bytes l
    rw [hsplit] at hcan
    rw [parse, Exec.bind_ok hcan]
    rfl
  · obtain ⟨left, hparse, -⟩ := parse_of_split hsplit
    rw [hparse]
    rfl

/-- An even number of bytes is read as values. -/
theorem exists_readSuites {ciphers : Bytes} (h : ciphers.length % 2 = 0) :
    ∃ suites, readSuites ciphers = .ok suites := by
  induction ciphers using readSuites.induct with
  | case1 => exact ⟨[], rfl⟩
  | case2 => simp at h
  | case3 hi lo rest ih =>
    obtain ⟨suites, hsuites⟩ := ih (by rw [List.length_cons, List.length_cons] at h; omega)
    exact ⟨be16 hi lo :: suites, by rw [readSuites, hsuites]; rfl⟩

/-- With a byte too many the last read panics. -/
theorem readSuites_of_odd {ciphers : Bytes} (h : ciphers.length % 2 = 1) :
    readSuites ciphers = .panic := by
  induction ciphers using readSuites.induct with
  | case1 => simp at h
  | case2 => rfl
  | case3 hi lo rest ih =>
    rw [readSuites, ih (by rw [List.length_cons, List.length_cons] at h; omega)]
    rfl

/-- **Where a parse panics**: at a cipher list of odd length, once the whole hello is there and its
version is known. -/
theorem parse_eq_panic_iff (b : Bytes) :
    (parse b).1 = .panic ↔ ∃ l : Layout, b = l.bytes ∧ (splitExtensions l.tail).isSome ∧
      (∃ v, ProtocolVersion.tryFrom l.version = .ok v) ∧ l.ciphers.length % 2 = 1 := by
  constructor
  · intro hpanic
    rcases exists_layout b with hwait | ⟨l, rfl⟩
    · rw [parse, Exec.bind_ok hwait] at hpanic
      cases hpanic
    refine ⟨l, rfl, ?_⟩
    rw [parse_bytes] at hpanic
    rcases hsplit : splitExtensions l.tail with - | ⟨extensions, rest⟩ <;> rw [hsplit] at hpanic
    · cases hpanic
    rcases hversion : ProtocolVersion.tryFrom l.version with e | v <;> rw [hversion] at hpanic
    · cases hpanic
    refine ⟨rfl, ⟨v, rfl⟩, ?_⟩
    by_contra hodd
    obtain ⟨suites, hsuites⟩ := exists_readSuites (show l.ciphers.length % 2 = 0 by omega)
    rw [hsuites] at hpanic
    cases hpanic
  · rintro ⟨l, rfl, hsplit, ⟨v, hversion⟩, hodd⟩
    obtain ⟨⟨extensions, rest⟩, hsplit⟩ := Option.isSome_iff_exists.mp hsplit
    rw [parse_bytes, hsplit, hversion, readSuites_of_odd hodd]
    rfl

end ClientHello

/-! ### The layout of a server hello -/

namespace ServerHello

/-- The fields of a body, as they lie on the wire. -/
structure Layout where
  version : UInt16
  random : ByteArr 32
  sessionId : Bytes
  cipherSuite : UInt16
  compression : UInt8
  /-- The extension block with its length, and whatever follows. -/
  tail : Bytes
  sessionId_lt : sessionId.length < 2 ^ 8

/-- The fields in front of the extensions. -/
def Layout.front (l : Layout) : Bytes :=
  (beBytes 2 l.version.toNat ++ l.random.val) ++ UInt8.ofNat l.sessionId.length
    :: (l.sessionId ++ (beBytes 2 l.cipherSuite.toNat ++ [l.compression]))

/-- The body itself. -/
def Layout.bytes (l : Layout) : Bytes := l.front ++ l.tail

theorem Layout.length_front (l : Layout) : l.front.length = 34 + (1 + l.sessionId.length) + 3 := by
  simp only [front, List.length_append, List.length_cons, length_beBytes, ByteArr.length_val,
    List.length_nil]
  omega

/-- The fields of a message that was cut out. -/
theorem readMessage_front (l : Layout) {t extensions rest : Bytes}
    (h : ClientHello.readExtensions t = (.ok extensions, rest)) :
    (parse.readMessage (l.front ++ t)).1 =
      ((Outcome.ofExcept (ProtocolVersion.tryFrom l.version)).mapErr badVersion >>= fun version ↦
        .ok (some ⟨version, l.random, l.sessionId, l.cipherSuite, extensions⟩)) := by
  have hsid : (UInt8.ofNat l.sessionId.length).toNat = l.sessionId.length :=
    UInt8.toNat_ofNat_of_lt' l.sessionId_lt
  have hbytes : l.front ++ t = beBytes 2 l.version.toNat ++ (l.random.val
      ++ UInt8.ofNat l.sessionId.length :: (l.sessionId ++ (beBytes 2 l.cipherSuite.toNat
        ++ l.compression :: t))) := by
    simp [Layout.front]
  rw [hbytes, parse.readMessage, Exec.bind_ok (Buf.getU16_append l.version _)]
  rcases ProtocolVersion.tryFrom l.version with e | version
  · rfl
  simp only [Outcome.ofExcept_ok, Outcome.mapErr_ok, Outcome.ok_bind, Exec.lift_ok_bind,
    Exec.bind_ok (Buf.copyToSlice_append l.random _), Exec.bind_ok (Buf.getU8_cons _ _), hsid,
    Exec.bind_ok (Buf.splitTo_append rfl _), Exec.bind_ok (Buf.getU16_append l.cipherSuite _),
    Exec.bind_ok (Buf.advance_one_cons _ _), Exec.bind_ok h, Exec.pure_apply]

/-- The length of the extensions is looked up behind the front. -/
theorem byteAt_front (l : Layout) {l1 l2 : UInt8} {rest : Bytes} (h : l.tail = l1 :: l2 :: rest) :
    (Buf.byteAt l.front.length : Exec Bytes TlsError UInt8) l.bytes = (.ok l1, l.bytes) ∧
      (Buf.byteAt (l.front.length + 1) : Exec Bytes TlsError UInt8) l.bytes
        = (.ok l2, l.bytes) := by
  rw [Layout.bytes, h]
  refine ⟨Buf.byteAt_append rfl l1 (l2 :: rest), ?_⟩
  have happ := Buf.byteAt_append (ε := TlsError) (a := l.front ++ [l1]) (i := l.front.length + 1)
    (by simp) l2 rest
  rwa [List.append_assoc, List.singleton_append] at happ

/-- The message is cut out behind the extensions. -/
theorem splitTo_front (l : Layout) {l1 l2 : UInt8} {extensions rest : Bytes}
    (h : l.tail = l1 :: l2 :: (extensions ++ rest)) :
    (Buf.splitTo (l.front.length + (2 + extensions.length)) : Exec Bytes TlsError Bytes) l.bytes
      = (.ok (l.front ++ l1 :: l2 :: extensions), rest) := by
  have happ := Buf.splitTo_append (ε := TlsError) (a := l.front ++ l1 :: l2 :: extensions)
    (n := l.front.length + (2 + extensions.length)) (by simp; omega) rest
  rw [Layout.bytes, h]
  rwa [List.append_assoc, List.cons_append, List.cons_append] at happ

/-- What a parse returns of a body whose extensions are there: the version can be unknown. -/
def Layout.result (l : Layout) (extensions : Bytes) : Outcome TlsError (Option ServerHello) :=
  (Outcome.ofExcept (ProtocolVersion.tryFrom l.version)).mapErr badVersion >>= fun version ↦
    .ok (some ⟨version, l.random, l.sessionId, l.cipherSuite, extensions⟩)

/-- The length of the session id is looked up in its place. -/
theorem byteAt_sessionId (l : Layout) :
    (Buf.byteAt 34 : Exec Bytes TlsError UInt8) l.bytes
      = (.ok (UInt8.ofNat l.sessionId.length), l.bytes) := by
  have hhead : (beBytes 2 l.version.toNat ++ l.random.val).length = 34 := by simp
  simpa only [Layout.bytes, Layout.front, List.append_assoc, List.cons_append] using
    Buf.byteAt_append (ε := TlsError) hhead (UInt8.ofNat l.sessionId.length) _

/-- The message is cut out when its extensions are there, and waited for otherwise. -/
theorem parse_eq (l : Layout) :
    parse l.bytes =
      match ClientHello.splitExtensions l.tail with
      | none => (.ok none, l.bytes)
      | some (extensions, rest) => (l.result extensions, rest) := by
  have hsid : (UInt8.ofNat l.sessionId.length).toNat = l.sessionId.length :=
    UInt8.toNat_ofNat_of_lt' l.sessionId_lt
  have hlen : l.bytes.length = l.front.length + l.tail.length := by
    rw [Layout.bytes, List.length_append]
  have hfront := l.length_front
  rw [parse, Exec.bind_ok (Buf.remaining_apply _), if_neg (by omega),
    Exec.bind_ok (byteAt_sessionId l)]
  simp only [hsid, ← hfront]
  rcases Nat.lt_or_ge l.tail.length 2 with hshort | hlong
  · -- no room for a length: there are no extensions
    have hsplit : ClientHello.splitExtensions l.tail = some ([], l.tail) := by
      match l.tail, hshort with
      | [], _ | [_], _ => rfl
    have hsplitTo : (Buf.splitTo l.front.length : Exec Bytes TlsError Bytes) l.bytes
        = (.ok l.front, l.tail) := Buf.splitTo_append rfl _
    have hread : ClientHello.readExtensions [] = (.ok [], []) := rfl
    have hmsg := readMessage_front l hread
    rw [List.append_nil] at hmsg
    rw [hsplit, Exec.bind_ok (Buf.remaining_apply _), if_neg (by omega),
      Exec.pure_bind_apply, Exec.bind_ok (Buf.remaining_apply _), if_neg (by omega),
      Exec.bind_ok hsplitTo, Exec.lift_apply, hmsg]
    rfl
  · obtain ⟨l1, l2, rest, htail⟩ := exists_cons_cons hlong
    obtain ⟨h₀, h₁⟩ := byteAt_front l htail
    have hlenTail : l.tail.length = 2 + rest.length := by
      rw [htail, List.length_cons, List.length_cons]
      omega
    rw [Exec.bind_ok (Buf.remaining_apply _), if_pos (by omega), Exec.bind_ok h₀,
      Exec.bind_ok h₁, Exec.pure_bind_apply, Exec.bind_ok (Buf.remaining_apply _), htail,
      ClientHello.splitExtensions]
    by_cases hle : (be16 l1 l2).toNat ≤ rest.length
    · obtain ⟨extensions, rest, rfl, hext⟩ := exists_split hle
      have hread : ClientHello.readExtensions (l1 :: l2 :: extensions) = (.ok extensions, []) :=
        ClientHello.readExtensions_of_split (by
          rw [ClientHello.splitExtensions, if_pos hext.ge, ← hext, List.take_length,
            List.drop_length])
      have hsplitTo := splitTo_front l htail
      rw [hext] at hsplitTo
      rw [if_neg (by omega), if_pos hle, Exec.bind_ok hsplitTo, Exec.lift_apply,
        readMessage_front l hread, List.take_left' hext, List.drop_left' hext]
      rfl
    · rw [if_pos (by omega), if_neg hle]
      rfl

/-- **What a parse does** with a body that has a layout: it waits for the extensions, and then can
only fail over the version. -/
theorem parse_bytes (l : Layout) :
    (parse l.bytes).1 =
      match ClientHello.splitExtensions l.tail with
      | none => .ok none
      | some (extensions, _) =>
        (Outcome.ofExcept (ProtocolVersion.tryFrom l.version)).mapErr badVersion >>= fun version ↦
          .ok (some ⟨version, l.random, l.sessionId, l.cipherSuite, extensions⟩) := by
  rw [parse_eq]
  rcases ClientHello.splitExtensions l.tail with - | ⟨extensions, rest⟩ <;> rfl

/-- Every body has a layout, or is too short for one. -/
theorem exists_layout (b : Bytes) : (parse b).1 = .ok none ∨ ∃ l : Layout, b = l.bytes := by
  by_cases h35 : b.length < 34 + 1
  · left
    rw [parse, Exec.bind_ok (Buf.remaining_apply b), if_pos h35]
    rfl
  obtain ⟨head, r₀, rfl, hhead⟩ := exists_split (n := 34) (b := b) (by omega)
  obtain ⟨v1, v2, random, rfl⟩ := exists_cons_cons (b := head) (by omega)
  obtain ⟨s, r₁, rfl⟩ : ∃ s r₁, r₀ = s :: r₁ :=
    List.exists_cons_of_length_pos (by rw [List.length_append] at h35; omega)
  by_cases h₁ : r₁.length < s.toNat + 3
  · left
    have hlen : (v1 :: v2 :: random ++ s :: r₁).length = 34 + (1 + r₁.length) := by
      rw [List.length_append, hhead, List.length_cons, Nat.add_comm 1]
    rw [parse, Exec.bind_ok (Buf.remaining_apply _), if_neg h35,
      Exec.bind_ok (Buf.byteAt_append hhead s r₁)]
    rw [Exec.bind_ok (Buf.remaining_apply _), if_neg (by rw [hlen]; omega), Exec.pure_bind_apply]
    dsimp only
    rw [Exec.bind_ok (Buf.remaining_apply _), if_pos (by rw [hlen]; omega)]
    rfl
  obtain ⟨sid, r₁, rfl, hsid⟩ := exists_split (n := s.toNat) (b := r₁) (by omega)
  rw [List.length_append] at h₁
  obtain ⟨c1, c2, r₂, rfl⟩ := exists_cons_cons (b := r₁) (by omega)
  obtain ⟨m, tail, rfl⟩ : ∃ m tail, r₂ = m :: tail := by
    rw [List.length_cons, List.length_cons] at h₁
    exact List.exists_cons_of_length_pos (by omega)
  refine Or.inr ⟨
    { version := be16 v1 v2
      random := ⟨random, by simpa using hhead⟩
      sessionId := sid
      cipherSuite := be16 c1 c2
      compression := m
      tail := tail
      sessionId_lt := by rw [hsid]; exact s.toNat_lt }, ?_⟩
  simp only [Layout.bytes, Layout.front, beBytes_be16, hsid, UInt8.ofNat_toNat, List.append_assoc,
    List.cons_append, List.nil_append]

/-- No body makes this parse panic. -/
theorem parse_ne_panic (b : Bytes) : (parse b).1 ≠ .panic := by
  rcases exists_layout b with hwait | ⟨l, rfl⟩
  · rw [hwait]
    simp
  · rw [parse_bytes]
    rcases ClientHello.splitExtensions l.tail with - | ⟨extensions, rest⟩
    · simp
    · rcases ProtocolVersion.tryFrom l.version with e | v <;> simp

end ServerHello
