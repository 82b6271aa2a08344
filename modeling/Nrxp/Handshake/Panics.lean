import Nrxp.Bridge.Handshake

/-!
# Panics before authentication

Everything that is read before the tag of a hello is checked, by a server or a client, from bytes
anyone may have sent. The walks that test whether the fields are there agree with the reads that
take them off, whatever the length fields say, with one exception: nothing tests that the cipher
list of a client hello is a list of 16-bit values. `handshake_panics` says that this is all.
-/

open TlsBridge

/-- The buffer begins with a client hello that is there in full, in versions that are known, and its
cipher list is an odd number of bytes long. -/
inductive OddCipherList : Bytes → Prop
  | intro {v1 v2 l1 l2 n1 n2 n3 : UInt8} {recordVersion version : ProtocolVersion}
      {l : ClientHello.Layout} {extensions left rest : Bytes}
      (hrecord : ProtocolVersion.tryFrom (be16 v1 v2) = .ok recordVersion)
      (hlen : l.bytes.length + 4 = (be16 l1 l2).toNat)
      (hversion : ProtocolVersion.tryFrom l.version = .ok version)
      (hextensions : ClientHello.splitExtensions l.tail = some (extensions, left))
      (hodd : l.ciphers.length % 2 = 1) :
      OddCipherList (ContentType.handshake.toByte :: v1 :: v2 :: l1 :: l2
        :: (HelloType.client.toByte :: n1 :: n2 :: n3 :: l.bytes ++ rest))

/-- The payload of a handshake record makes the parse panic only by its cipher list. -/
theorem parseHello_eq_panic_iff (payload : Bytes) :
    (parseHello payload).1 = .panic ↔ ∃ n1 n2 n3 body,
      payload = HelloType.client.toByte :: n1 :: n2 :: n3 :: body ∧
        (ClientHello.parse body).1 = .panic := by
  constructor
  · intro hpanic
    rcases parseHello_cases payload with herr | ⟨type, n1, n2, n3, body, rfl⟩
    · rw [herr] at hpanic
      cases hpanic
    cases type with
    | client =>
      refine ⟨n1, n2, n3, body, rfl, ?_⟩
      by_contra hne
      rw [parseHello_client] at hpanic
      exact Outcome.bind_ne_panic_iff.mpr
        ⟨hne, fun hello _ ↦ ofOption_parseExtensions_ne_panic hello _ _⟩ hpanic
    | server =>
      rw [parseHello_server] at hpanic
      exact absurd hpanic (Outcome.bind_ne_panic_iff.mpr ⟨ServerHello.parse_ne_panic body,
        fun hello _ ↦ ofOption_parseExtensions_ne_panic hello _ _⟩)
  · rintro ⟨n1, n2, n3, body, rfl, hpanic⟩
    rw [parseHello_client, hpanic]
    rfl

/-- Unpacking panics on such a list and on nothing else. -/
theorem unpackHandshake_eq_panic_iff (b : Bytes) :
    (unpackHandshake b).1 = .panic ↔ OddCipherList b := by
  constructor
  · intro hpanic
    rcases TlsRecord.parse_cases b with hparse | ⟨m, header, rest, hparse, -⟩ |
        ⟨c, v1, v2, l1, l2, v, payload, rest, hparse, rfl, hrecord, hlen, -⟩
    · rw [unpackHandshake, startProcess, Exec.bind_ok hparse] at hpanic
      cases hpanic
    · rw [unpackHandshake, startProcess, Exec.bind_err hparse] at hpanic
      cases hpanic
    by_cases hc : c = .handshake
    · subst hc
      rw [unpackHandshake_record hrecord hlen] at hpanic
      have hhello : (parseHello payload).1 = .panic := by
        by_contra hne
        exact Outcome.bind_ne_panic_iff.mpr ⟨hne, fun _ _ ↦ by simp⟩ hpanic
      obtain ⟨n1, n2, n3, body, rfl, hbody⟩ := (parseHello_eq_panic_iff payload).mp hhello
      obtain ⟨l, rfl, hsplit, ⟨version, hversion⟩, hodd⟩ :=
        (ClientHello.parse_eq_panic_iff body).mp hbody
      obtain ⟨⟨extensions, left⟩, hextensions⟩ := Option.isSome_iff_exists.mp hsplit
      exact .intro hrecord (by simpa using hlen) hversion hextensions hodd
    · rw [unpackHandshake, startProcess, Exec.bind_ok hparse] at hpanic
      change handleHandshake (TlsRecord.new c v payload) = .panic at hpanic
      rw [handleHandshake_of_ne hc] at hpanic
      cases hpanic
  · rintro ⟨hrecord, hlen, hversion, hextensions, hodd⟩
    have hbody := (ClientHello.parse_eq_panic_iff _).mpr
      ⟨_, rfl, by rw [hextensions]; rfl, ⟨_, hversion⟩, hodd⟩
    rw [unpackHandshake_record hrecord (by simpa using hlen),
      (parseHello_eq_panic_iff _).mpr ⟨_, _, _, _, rfl, hbody⟩]
    rfl

/-- **Panics on input that is not authenticated yet.** For every buffer: unpacking a hello does not
panic, nor does a server that is given what was unpacked, whatever its keys, its clock and its
profile; exactly unless the buffer begins with a client hello whose cipher list has odd length. -/
theorem handshake_panics (b : Bytes) :
    ((unpackHandshake b).1 ≠ .panic ∧
      ∀ msg rest, unpackHandshake b = (.ok (some msg), rest) →
        ∀ x hkdf hmac now profile keys,
          (wrapServerHello x hkdf hmac now msg profile keys).1 ≠ .panic) ↔
    ¬OddCipherList b := by
  rw [← unpackHandshake_eq_panic_iff]
  exact ⟨And.left, fun hne ↦ ⟨hne, fun msg _ _ x hkdf hmac now profile keys ↦
    wrapServerHello_ne_panic x hkdf hmac now msg profile keys⟩⟩

/-- A client hello of 48 bytes, with one byte of cipher suites. -/
def oddHello : Bytes :=
  [0x16, 0x03, 0x01, 0x00, 0x2b, 0x01, 0x00, 0x00, 0x27, 0x03, 0x03] ++ List.replicate 32 0
    ++ [0x00, 0x00, 0x01, 0x00, 0x00]

/-- **A byte of cipher suites is read as two.** Unpacking this hello panics. -/
theorem handshake_panics_odd : (unpackHandshake oddHello).1 = .panic := by
  decide
