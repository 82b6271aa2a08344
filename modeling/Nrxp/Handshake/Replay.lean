import Nrxp.Bridge.Hellos
import Nrxp.Handshake.Admission

/-!
# Recorded hellos

A strict node keeps nothing about the hellos it has admitted, so what it makes of one depends on the
bytes and the clock. A recorded hello is refused exactly when the clock has left the window of
every step whose tag it carries.
-/

open TlsBridge

variable {x : X25519} {hkdf : HkdfSha256} {hmac : HmacSha256} {node : LocalIdentity}

/-- What a node makes of bytes from a new connection: a hello is taken off, and answered with fresh
keys. -/
def receiveHello (x : X25519) (hkdf : HkdfSha256) (hmac : HmacSha256) (node : LocalIdentity)
    (profile : ServerProfile) (b : Bytes) (now : UInt64) (rng : OsRng) :
    Outcome TlsError (Option (Bytes × UInt8)) :=
  (unpackHandshake b).1 >>= fun msg ↦
    match msg with
    | none => .ok none
    | some msg =>
      (wrapServerHello x hkdf hmac now msg profile (nodeKeys x node rng)).1 >>= fun answer ↦
        .ok (some answer)

/-- The bytes hold a hello with the tag of a step. -/
def HoldsTag (hmac : HmacSha256) (node : LocalIdentity) (b : Bytes) (step : UInt64) : Prop :=
  ∃ base extensions publicKey, (unpackHandshake b).1 = .ok (some (.client base extensions)) ∧
    SessionKeys.extractPeerPublic extensions true = .ok publicKey ∧
    CarriesTag hmac node base publicKey step

theorem receiveHello_client {b : Bytes} {base : ClientHello} {extensions : ExtensionStack}
    (h : (unpackHandshake b).1 = .ok (some (.client base extensions))) (profile : ServerProfile)
    (now : UInt64) (rng : OsRng) :
    receiveHello x hkdf hmac node profile b now rng =
      ((wrapServerHello x hkdf hmac now (.client base extensions) profile (nodeKeys x node rng)).1
        >>= fun answer ↦ .ok (some answer)) := by
  rw [receiveHello, h]
  rfl

/-- What was answered was a client's hello, and admissible. -/
theorem exists_admissible_of_receiveHello (hstrict : node.strict = true)
    {profile : ServerProfile} {b : Bytes} {now : UInt64} {rng : OsRng} {answer : Bytes × UInt8}
    (h : receiveHello x hkdf hmac node profile b now rng = .ok (some answer)) :
    ∃ base extensions publicKey, (unpackHandshake b).1 = .ok (some (.client base extensions)) ∧
      Admissible hmac node now base extensions publicKey := by
  rw [receiveHello, Outcome.bind_eq_ok_iff] at h
  obtain ⟨msg, hunpack, h⟩ := h
  rcases msg with - | ⟨base, extensions⟩ | ⟨base, extensions⟩
  · cases h
  · obtain ⟨answer', hrun, -⟩ := Outcome.bind_eq_ok_iff.mp h
    obtain ⟨publicKey, hadmissible⟩ := exists_admissible_of_isOk hstrict
      (show (wrapServerHello x hkdf hmac now (.client base extensions) profile
        (nodeKeys x node rng)).1.isOk = true by rw [hrun]; rfl)
    exact ⟨base, extensions, publicKey, hunpack, hadmissible⟩
  · cases h

/-- A hello of a client that knows the node, in step 100. -/
def recordedHello : Bytes :=
  (wrapClientHello .sum (100 * 60) .chrome140 "example.org"
    (SessionKeys.withIdentity .sum true (.ofPeer ⟨strictNode.secret, .fill 32 9⟩) (.repeating 1)).1
    (.repeating 4)).1

/-- The node answers it in every step of the window. -/
theorem receiveHello_recordedHello (now : UInt64) (hlow : (now / 60).toNat - 2 ≤ 100)
    (hhigh : 100 ≤ (now / 60).toNat + 2) (rng : OsRng) :
    ∃ answer, receiveHello .sum .repeating .sum strictNode .modern recordedHello now rng
      = .ok (some answer) := by
  obtain ⟨base, extensions, noise, hunpack, -, hnoise, hsid, hkey⟩ :=
    unpackHandshake_makeClientHello .sum (100 * 60)
      (BrowserProfile.shipped_fits .chrome140 List.mem_cons_self) (by decide)
      (show (utf8 "example.org").length ≤ 253 by decide)
      (show (SessionKeys.withIdentity .sum true (.ofPeer ⟨strictNode.secret, .fill 32 9⟩)
        (.repeating 1)).1.ecdh.publicKey ≠ .zero 32 by decide)
      (.repeating 4) []
  rw [List.append_nil] at hunpack
  obtain ⟨version, -, hrun⟩ := wrapServerHello_of_admissible .sum .repeating rng .modern
    { length_eq := by rw [hsid]; simp [hnoise]
      version_ge := ⟨3, by rw [hsid]; rfl, by decide⟩
      found := hkey
      tag_near := ⟨100, (carriesTag_iff hnoise hsid).mpr rfl, hlow, hhigh⟩ :
      Admissible .sum strictNode now base extensions _ }
  have hclient : (unpackHandshake recordedHello).1 = .ok (some (.client base extensions)) :=
    congrArg Prod.fst hunpack
  exact ⟨_, by rw [receiveHello_client hclient, hrun, Outcome.ok_bind]⟩

/-- **A recorded hello is refused exactly outside its window.** For a hello that a strict node has
answered, at any other time, with any other draws: the node refuses the same bytes if and only if
its clock is more than two steps away from every step whose tag they hold. -/
theorem recorded_hello (x : X25519) (hkdf : HkdfSha256) (hmac : HmacSha256) (node : LocalIdentity)
    (hstrict : node.strict = true) (profile profile' : ServerProfile) (b : Bytes)
    (now now' : UInt64) (rng rng' : OsRng)
    (hanswered : ∃ answer, receiveHello x hkdf hmac node profile b now rng = .ok (some answer)) :
    (∃ e, receiveHello x hkdf hmac node profile' b now' rng' = .err e) ↔
      ∀ step, HoldsTag hmac node b step →
        step.toNat + 2 < (now' / 60).toNat ∨ (now' / 60).toNat + 2 < step.toNat := by
  obtain ⟨answer, hanswer⟩ := hanswered
  obtain ⟨base, extensions, publicKey, hunpack, hfirst⟩ :=
    exists_admissible_of_receiveHello hstrict hanswer
  rw [receiveHello_client hunpack]
  constructor
  · rintro ⟨e, herr⟩ step ⟨base', extensions', publicKey', hunpack', hfound, hcarries⟩
    rw [hunpack, Outcome.ok.injEq, Option.some.injEq, HandshakeMessage.client.injEq] at hunpack'
    obtain ⟨rfl, rfl⟩ := hunpack'
    rw [hfirst.found, Outcome.ok.injEq] at hfound
    subst hfound
    -- a step of the window would have the hello answered
    by_contra hnear
    obtain ⟨version, -, hrun⟩ := wrapServerHello_of_admissible x hkdf rng' profile'
      { hfirst with tag_near := ⟨step, hcarries, by omega, by omega⟩ :
        Admissible hmac node now' base extensions publicKey }
    rw [hrun] at herr
    cases herr
  · intro hfar
    rcases hrun : (wrapServerHello x hkdf hmac now' (.client base extensions) profile'
        (nodeKeys x node rng')).1 with answer' | e | _
    · obtain ⟨publicKey', hagain⟩ := exists_admissible_of_isOk hstrict (by rw [hrun]; rfl)
      obtain ⟨step, hcarries, hlow, hhigh⟩ := hagain.tag_near
      have := hfar step ⟨base, extensions, publicKey', hunpack, hagain.found, hcarries⟩
      omega
    · exact ⟨e, rfl⟩
    · exact absurd hrun (wrapServerHello_ne_panic x hkdf hmac now' _ profile' _)

/-- The hello holds the tag of a step that is near a minute later. -/
theorem recorded_hello_a_minute_later :
    ¬∀ step, HoldsTag .sum strictNode recordedHello step →
      step.toNat + 2 < (101 * 60 / 60 : UInt64).toNat ∨
        (101 * 60 / 60 : UInt64).toNat + 2 < step.toNat := by
  intro hfar
  obtain ⟨e, hrefused⟩ := (recorded_hello .sum .repeating .sum strictNode rfl .modern .modern
    recordedHello (100 * 60) (101 * 60) (.repeating 2) (.repeating 3)
    (receiveHello_recordedHello _ (by decide) (by decide) _)).mpr hfar
  obtain ⟨answer, hanswer⟩ := receiveHello_recordedHello (101 * 60) (by decide) (by decide)
    (.repeating 3)
  rw [hanswer] at hrefused
  cases hrefused

/-- **A recorded hello is answered again** a minute later, to fresh keys. -/
theorem recorded_hello_answered_again :
    strictNode.strict = true ∧
      (∃ answer, receiveHello .sum .repeating .sum strictNode .modern recordedHello (100 * 60)
        (.repeating 2) = .ok (some answer)) ∧
      ∃ answer, receiveHello .sum .repeating .sum strictNode .modern recordedHello (101 * 60)
        (.repeating 3) = .ok (some answer) :=
  ⟨rfl, receiveHello_recordedHello _ (by decide) (by decide) _,
    receiveHello_recordedHello _ (by decide) (by decide) _⟩
