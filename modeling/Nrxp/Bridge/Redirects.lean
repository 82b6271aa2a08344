import Nrxp.Bridge.Handshake

/-!
# Bytes of a redirected connection

An error that asks for a redirect hands the connection on as ordinary TLS, so that what was taken
off the buffer has to come back with it. There is one such error, the unknown version of a complete
record, and it comes after the header was taken off. `keepsBytes_iff` says that the bytes of the
header are lost there and nowhere else; every other error closes the connection.
-/

open TlsBridge

/-- The buffer begins with a complete record of a known type whose version is unknown. -/
inductive UnknownVersion : Bytes → Prop
  | intro {t v1 v2 l1 l2 : UInt8} {rest : Bytes} {m : String}
      (hfits : TlsRecord.Fits t (be16 l1 l2).toNat rest.length)
      (hversion : ProtocolVersion.tryFrom (be16 v1 v2) = .error m) :
      UnknownVersion (t :: v1 :: v2 :: l1 :: l2 :: rest)

/-- An error that asks for a redirect carries what was taken off the buffer. -/
def KeepsBytes {α : Type} (read : Exec Bytes TlsError α) (b : Bytes) : Prop :=
  ∀ e rest, read b = (.err e, rest) → e.action = .redirect → e.data ++ rest = b

/-- The error closes the connection. -/
def Drops (e : TlsError) : Prop := e.action = .drop

/-! ### The record layer -/

/-- The header is gone before the version is looked at. -/
theorem UnknownVersion.parse_eq {b : Bytes} (h : UnknownVersion b) :
    ∃ m header rest, TlsRecord.parse b = (.err (TlsRecord.redirect m), rest) ∧ b = header ++ rest ∧
      header.length = 5 := by
  obtain @⟨t, v1, v2, l1, l2, rest, m, hfits, hversion⟩ := h
  refine ⟨m, [t, v1, v2, l1, l2], rest, ?_, rfl, rfl⟩
  obtain ⟨c, hc⟩ := hfits.1
  rw [TlsRecord.parse_of_fits v1 v2 hfits, hc, hversion]

/-- The record layer has no other error. -/
theorem unknownVersion_of_parse {b rest : Bytes} {e : TlsError}
    (h : TlsRecord.parse b = (.err e, rest)) : UnknownVersion b := by
  by_cases hshort : b.length < 5
  · rw [TlsRecord.parse_of_short hshort] at h
    cases h
  obtain ⟨t, v1, v2, l1, l2, body, rfl⟩ := TlsRecord.exists_header (Nat.not_lt.mp hshort)
  by_cases hfits : TlsRecord.Fits t (be16 l1 l2).toNat body.length
  · rcases hversion : ProtocolVersion.tryFrom (be16 v1 v2) with m | v
    · exact .intro hfits hversion
    · obtain ⟨c, hc⟩ := hfits.1
      rw [TlsRecord.parse_of_fits v1 v2 hfits, hc, hversion] at h
      cases h
  · rw [TlsRecord.parse_of_not_fits hfits] at h
    cases h

/-- Five bytes are lost by every read that fails as the record layer does. -/
theorem UnknownVersion.not_keepsBytes {α : Type} {b : Bytes} (h : UnknownVersion b)
    {read : Exec Bytes TlsError α}
    (hread : ∀ e rest, TlsRecord.parse b = (.err e, rest) → read b = (.err e, rest)) :
    ¬KeepsBytes read b := by
  obtain ⟨m, header, rest, hparse, rfl, hlen⟩ := h.parse_eq
  intro hkeeps
  have hback : rest = header ++ rest := hkeeps _ rest (hread _ rest hparse) rfl
  have hlength := congrArg List.length hback
  rw [List.length_append, hlen] at hlength
  omega

theorem keepsBytes_parse_iff (b : Bytes) : KeepsBytes TlsRecord.parse b ↔ ¬UnknownVersion b := by
  constructor
  · exact fun hkeeps hunknown ↦ hunknown.not_keepsBytes (fun _ _ hparse ↦ hparse) hkeeps
  · exact fun hknown e rest hparse _ ↦ absurd (unknownVersion_of_parse hparse) hknown

/-- Where the handler of a record only closes connections, the record layer decides. -/
theorem keepsBytes_startProcess_iff {Output : Type}
    {handleRecord : TlsRecord → Outcome TlsError (Option Output)}
    (hdrops : ∀ record, (handleRecord record).Errs Drops) (b : Bytes) :
    KeepsBytes (startProcess handleRecord) b ↔ ¬UnknownVersion b := by
  constructor
  · exact fun hkeeps hunknown ↦
      hunknown.not_keepsBytes (fun _ _ hparse ↦ Exec.bind_err hparse) hkeeps
  · intro hknown e rest hrun hredirect
    rcases hparse : TlsRecord.parse b with ⟨record | e' | _, rest'⟩
    · rw [startProcess, Exec.bind_ok hparse] at hrun
      cases record with
      | none => cases hrun
      | some record =>
        have hdrop : e.action = .drop := hdrops record e (congrArg Prod.fst hrun)
        rw [hdrop] at hredirect
        cases hredirect
    · exact absurd (unknownVersion_of_parse hparse) hknown
    · rw [startProcess, Exec.bind_panic hparse] at hrun
      cases hrun

/-! ### The handlers -/

theorem handleAppData_errs (record : TlsRecord) : (handleAppData record).Errs Drops := by
  rw [handleAppData]
  split
  · exact Outcome.errs_err rfl
  · exact Outcome.errs_ok _ _

theorem drops_refuse (m : String) : Drops (refuse m) := rfl

theorem drops_badVersion (m : String) : Drops (badVersion m) := rfl

/-- Cipher suites are read, or the read panics. -/
theorem ClientHello.readSuites_errs (ciphers : Bytes) :
    (ClientHello.readSuites ciphers).Errs Drops := by
  induction ciphers using ClientHello.readSuites.induct with
  | case1 => exact Outcome.errs_ok _ _
  | case2 => exact Outcome.errs_panic _
  | case3 hi lo rest ih => exact ih.bind fun suites ↦ Outcome.errs_ok _ _

theorem ClientHello.parse_errs (body : Bytes) : (ClientHello.parse body).1.Errs Drops := by
  rcases ClientHello.exists_layout body with hwait | ⟨l, rfl⟩
  · rw [ClientHello.parse, Exec.bind_ok hwait]
    exact Outcome.errs_ok _ _
  · rw [ClientHello.parse_bytes]
    split
    · exact Outcome.errs_ok _ _
    · exact (Outcome.errs_mapErr drops_badVersion _).bind fun version ↦
        (ClientHello.readSuites_errs l.ciphers).bind fun suites ↦ Outcome.errs_ok _ _

theorem ServerHello.parse_errs (body : Bytes) : (ServerHello.parse body).1.Errs Drops := by
  rcases ServerHello.exists_layout body with hwait | ⟨l, rfl⟩
  · rw [hwait]
    exact Outcome.errs_ok _ _
  · rw [ServerHello.parse_bytes]
    split
    · exact Outcome.errs_ok _ _
    · exact (Outcome.errs_mapErr drops_badVersion _).bind fun version ↦ Outcome.errs_ok _ _

theorem parseExtensions_errs (extensions : Bytes) : (parseExtensions extensions).Errs Drops := by
  refine Outcome.Errs.bind ?_ fun stack ↦ Outcome.errs_ofOption (drops_refuse _) stack
  rcases ExtensionStack.parse_eq extensions with ⟨es, -, -, hparse⟩ | ⟨-, hparse | ⟨m, hparse⟩⟩ <;>
    rw [hparse]
  · exact Outcome.errs_ok _ _
  · exact Outcome.errs_ok _ _
  · exact Outcome.errs_err rfl

/-- What follows the parse of a body closes the connection if it fails. -/
theorem ofOption_parseExtensions_errs {Hello : Type} (hello : Option Hello)
    (extensions : Hello → Bytes) (message : Hello → ExtensionStack → HandshakeMessage) :
    (Outcome.ofOption malformed hello >>= fun hello ↦ parseExtensions (extensions hello)
      >>= fun stack ↦ .ok (message hello stack)).Errs Drops :=
  (Outcome.errs_ofOption (drops_refuse _) hello).bind fun hello ↦
    (parseExtensions_errs (extensions hello)).bind fun _ ↦ Outcome.errs_ok _ _

theorem parseHello_errs (payload : Bytes) : (parseHello payload).1.Errs Drops := by
  rcases parseHello_cases payload with herr | ⟨type, n1, n2, n3, body, rfl⟩
  · rw [herr]
    exact Outcome.errs_err (drops_refuse _)
  cases type with
  | client =>
    rw [parseHello_client]
    exact (ClientHello.parse_errs body).bind fun hello ↦ ofOption_parseExtensions_errs hello _ _
  | server =>
    rw [parseHello_server]
    exact (ServerHello.parse_errs body).bind fun hello ↦ ofOption_parseExtensions_errs hello _ _

theorem handleHandshake_errs (record : TlsRecord) : (handleHandshake record).Errs Drops := by
  rw [handleHandshake]
  split
  · exact Outcome.errs_err rfl
  · exact (parseHello_errs record.payload).bind fun _ ↦ Outcome.errs_ok _ _

/-! ### What a redirect brings back -/

/-- **A redirect loses no bytes**, exactly if the buffer does not begin with a complete record of an
unknown version: of a record, of a hello and of application data alike. -/
theorem keepsBytes_iff (b : Bytes) :
    (KeepsBytes TlsRecord.parse b ↔ ¬UnknownVersion b) ∧
      (KeepsBytes unpackHandshake b ↔ ¬UnknownVersion b) ∧
      (KeepsBytes unpackAppData b ↔ ¬UnknownVersion b) :=
  ⟨keepsBytes_parse_iff b, keepsBytes_startProcess_iff handleHandshake_errs b,
    keepsBytes_startProcess_iff handleAppData_errs b⟩

/-- **The header is lost.** A handshake record of version 0x0505 with one byte in it: that byte is
left, and the error carries nothing. -/
theorem keepsBytes_unknown :
    let b : Bytes := [0x16, 0x05, 0x05, 0x00, 0x01, 0x00]
    unpackHandshake b = (.err (TlsRecord.redirect "This is not Protocol Version"), [0x00]) ∧
      ¬(KeepsBytes TlsRecord.parse b ∧ KeepsBytes unpackHandshake b ∧
        KeepsBytes unpackAppData b) := by
  intro b
  have hrun : unpackHandshake b
      = (.err (TlsRecord.redirect "This is not Protocol Version"), [0x00]) := by decide
  refine ⟨hrun, fun hkeeps ↦ ?_⟩
  have hback : [0x00] = b := hkeeps.2.1 _ _ hrun rfl
  exact absurd hback (by decide)
