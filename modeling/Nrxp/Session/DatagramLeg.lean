import Nrxp.Crypto.KeySchedule
import Nrxp.Datagram.Authenticity
import Nrxp.Session.Hostile

/-!
# The datagram leg of a session

The leg makes no handshake of its own: each side derives its material from the pseudorandom key its
session was left with. So what is known of the leg, which is about two sides over one root, has to
be joined to what is known of the session, which is how two sides come to one root.

The records and the datagrams are encrypted by one cipher under keys of one schedule, and a network
may give any ciphertext of either kind to any receiver of either kind. `session_leg_authenticity` is
about all of them together: the log in its hypotheses has every encryption of the session and of the
leg in it, and that no receiver takes one kind for the other follows from the key schedule.
-/

open TlsBridge

namespace Leg

/-- What the first side sends over the leg, the other opens. -/
def between (hkdf : HkdfSha256) (own other : DatagramKeyMaterial) : Leg where
  tx := .new own
  rx := .new hkdf other
  back := .new other

end Leg

/-- Under the keys the leg can listen with, this opens only as it was sealed, in a record of the
session or in a datagram. -/
def Session.AuthenticLeg (P : Primitives) (s : Session) (E : ℕ) (leg : Leg) (aad c : Bytes) :
    Prop :=
  ∀ prk ∈ s.prks, ∀ isInitiator e, e ≤ E → ∀ nonce,
    P.aead.OpensOnly (s.client.sealings ++ s.server.sealings ++ leg.log)
      ((KeyUse.epoch isInitiator e).key P.hkdf prk) nonce aad c

/-! ### Keys of one schedule -/

namespace HkdfSha256.SeparatesUpTo

variable {hkdf : HkdfSha256} {prks : Set (ByteArr 32)} {E : ℕ}

/-- The keys of the datagrams of one leg are separate. -/
theorem keysDistinct (h : hkdf.SeparatesUpTo prks E) {root : ByteArr 32} (hroot : root ∈ prks) :
    KeysDistinct hkdf root E := by
  intro d d' e e' he he' hsame
  obtain ⟨-, huse⟩ := (h.key_inj hroot hroot (.epoch d e) (.epoch d' e') he he').mp hsame
  exact KeyUse.epoch.inj huse

/-- No key of a record is a key of a datagram. -/
theorem aead_ne_epoch (h : hkdf.SeparatesUpTo prks E) {prk prk' : ByteArr 32} (hprk : prk ∈ prks)
    (hprk' : prk' ∈ prks) (isServer isInitiator : Bool) {e : ℕ} (he : e ≤ E) :
    (SessionKeys.aeadKeysOf hkdf prk isServer).txKey
        ≠ (KeyUse.epoch isInitiator e).key hkdf prk' ∧
      (SessionKeys.aeadKeysOf hkdf prk isServer).rxKey
        ≠ (KeyUse.epoch isInitiator e).key hkdf prk' := by
  have hne (isInitiator' : Bool) : (KeyUse.aead isInitiator').key hkdf prk
      ≠ (KeyUse.epoch isInitiator e).key hkdf prk' := fun hsame ↦ by
    obtain ⟨-, huse⟩ := (h.key_inj hprk hprk' (.aead isInitiator') (.epoch isInitiator e)
      (Nat.zero_le _) he).mp hsame
    cases huse
  cases isServer with
  | false => exact ⟨hne true, hne false⟩
  | true => exact ⟨hne false, hne true⟩

end HkdfSha256.SeparatesUpTo

/-! ### Material -/

theorem freshKeys_unkeyed (x : X25519) (isInitiator : Bool) (identity : Option Identity)
    (rng : OsRng) :
    (freshKeys x isInitiator identity rng).1.isInitiator = isInitiator ∧
      (freshKeys x isInitiator identity rng).1.currentAead = none := by
  cases identity <;> exact ⟨rfl, rfl⟩

section Alone

variable {P : Primitives} {cfg : SessionConfig} {clock : UInt64 → Prop} {side : Side}
  {e : Endpoint}

/-- A side with keys plays the part it was made for. -/
theorem Accepted.isInitiator {hello : Bytes} (h : Accepted P cfg clock e side hello) :
    e.keys.isInitiator = !side.isServer := by
  cases h with
  | client _ _ hfresh hderived =>
    obtain ⟨publicKey, secrets, -, -, hkeys⟩ := SessionKeys.exists_of_updateKeys hderived
    obtain ⟨version, salt, rfl⟩ := hfresh
    rw [hkeys]
    exact (freshKeys_unkeyed P.x25519 true _ _).1
  | server _ _ _ hfresh hderived =>
    obtain ⟨base, extensions, prk, -, -, hkeys, -⟩ := exists_of_wrapServerHello hderived
    obtain ⟨version, salt, rfl⟩ := hfresh
    rw [hkeys]
    exact (freshKeys_unkeyed P.x25519 false _ _).1

/-- A side with cipher keys has accepted a message. -/
theorem Alone.accepted (h : Alone P cfg clock side e) {aead : DirectionalAeadKeys}
    (haead : e.keys.currentAead = some aead) : ∃ hello, Accepted P cfg clock e side hello := by
  by_cases hnone : e.phase.codec = none
  · -- without codecs there are no keys
    obtain ⟨⟨version, salt, hkeys⟩, -⟩ := h.waiting hnone
    have hfresh : e.keys.currentAead = none := by
      rw [hkeys]
      cases side with
      | client => exact (freshKeys_unkeyed P.x25519 true _ _).2
      | server => exact (freshKeys_unkeyed P.x25519 false _ _).2
    rw [hfresh] at haead
    cases haead
  · obtain ⟨hello, -, -, -, haccepted, -⟩ := h.opened hnone
    exact ⟨hello, haccepted⟩

/-- Its cipher keys come from its pseudorandom key. -/
theorem Alone.exists_prk (h : Alone P cfg clock side e) {aead : DirectionalAeadKeys}
    (haead : e.keys.currentAead = some aead) :
    ∃ prk, e.keys.datagramRoot = some prk ∧
      aead = SessionKeys.aeadKeysOf P.hkdf prk side.isServer := by
  obtain ⟨hello, haccepted⟩ := h.accepted haead
  obtain ⟨keys, prk, hkeys⟩ := haccepted.exists_derived
  rw [hkeys] at haead
  exact ⟨prk, by rw [hkeys]; rfl, (Option.some.inj haead).symm⟩

/-- And so does its material for the leg. -/
theorem Alone.derive (h : Alone P cfg clock side e) {aead : DirectionalAeadKeys}
    (haead : e.keys.currentAead = some aead) {root : ByteArr 32}
    (hroot : e.keys.datagramRoot = some root) :
    DatagramKeyMaterial.derive P.hkdf e.keys
      = .ok (.deriveFromRoot P.hkdf root !side.isServer) := by
  obtain ⟨hello, haccepted⟩ := h.accepted haead
  rw [DatagramKeyMaterial.derive, SessionKeys.getDatagramRoot, hroot, haccepted.isInitiator]
  rfl

end Alone

/-! ### The theorem -/

/-- **A session and its datagram leg over a hostile network.** Whatever arrives at both sides, in
records and in datagrams: if the key schedule separates the keys of the session, up to the epochs
the leg can reach, and nothing opens except as it was sealed, in a record or in a datagram, then
what each side returned is the beginning of what the other submitted. If anything was returned, both
sides derive the material of one leg, each with the token and the header keys of the other; and over
this leg, in either direction, every frame that opens was sealed by the other side, earlier, as it
opens, and no two open from one. -/
theorem session_leg_authenticity {P : Primitives} {cfg : SessionConfig} (hA : P.aead.IsCorrect)
    {clock : UInt64 → Prop} {s : Session}
    (hruns : Session.Runs P (Session.Hostile clock) (cfg.start P) s) {E : ℕ}
    (hseparates : P.hkdf.SeparatesUpTo s.prks E)
    (hfew : ∀ side, (s.endpoint side).sealings.length < 2 ^ 64)
    (datagrams : List (Sealing Key Nonce))
    (hdatagrams : ∀ sealing ∈ datagrams, ∃ prk ∈ s.prks, ∃ isInitiator, ∃ e ≤ E,
      sealing.key = (KeyUse.epoch isInitiator e).key P.hkdf prk)
    (hopens : ∀ side aead, (s.endpoint side).keys.currentAead = some aead →
      ∀ c, c <:+: (s.endpoint side).fed → ∀ n : Nonce,
        P.aead.OpensOnly (s.client.sealings ++ s.server.sealings ++ datagrams) aead.rxKey n n.val c)
    (side : Side) :
    (s.endpoint side).returned.map Frame.item <+: (s.endpoint side.other).submitted ∧
      ((s.endpoint side).returned ≠ [] →
        ∃ m : Side → DatagramKeyMaterial,
          (∀ side, DatagramKeyMaterial.derive P.hkdf (s.endpoint side).keys = .ok (m side) ∧
            (m side).legToken = (m side.other).legToken ∧
            (m side).hpKeyTx = (m side.other).hpKeyRx) ∧
          ∀ (sender : Side) (events : List LegEvent),
            let leg := Leg.between P.hkdf (m sender) (m sender.other)
            (∀ event ∈ events, event.WellFormed) → epochOf events.length + 1 ≤ E →
            (∀ past epochId wireCounter wireBits c aad,
              past ++ [.deliver epochId wireCounter wireBits c aad] <+: events →
              s.AuthenticLeg P E (leg.run P.aead P.hkdf past).2 aad c) →
            let turns := (leg.run P.aead P.hkdf events).1
            ∃ origin : ℕ → ℕ,
              (∀ j f aad c, OpenedAt turns j f aad c →
                origin j < j ∧ ∃ n, SealedAt turns (origin j) n f.item aad c) ∧
              Set.InjOn origin {j | ∃ f aad c, OpenedAt turns j f aad c}) := by
  have halone := Session.Hostile.alone hA hruns
  -- no datagram was sealed under a key of the records
  have hopens' : ∀ side aead, (s.endpoint side).keys.currentAead = some aead →
      ∀ c, c <:+: (s.endpoint side).fed → ∀ n : Nonce,
        P.aead.OpensOnly (s.client.sealings ++ s.server.sealings) aead.rxKey n n.val c := by
    intro side aead haead c hc n
    obtain ⟨prk, hprk, rfl⟩ := (halone side).exists_prk haead
    refine (hopens side _ haead c hc n).of_key fun sealing hmem hkey ↦ ?_
    refine (List.mem_append.mp hmem).resolve_right fun hmem ↦ ?_
    obtain ⟨prk', hprk', isInitiator, e, he, hsealing⟩ := hdatagrams sealing hmem
    exact (hseparates.aead_ne_epoch ⟨side, hprk⟩ hprk' side.isServer isInitiator he).2
      (hkey.symm.trans hsealing)
  rcases Session.Hostile.believes hA hruns hseparates.separates hfew hopens' side with
    hnil | ⟨hbegins, hkeys⟩
  · rw [hnil]
    exact ⟨List.nil_prefix, fun hne ↦ absurd rfl hne⟩
  refine ⟨hbegins, fun hne ↦ ?_⟩
  obtain ⟨root, hclient, hserver⟩ := hkeys.datagramRoot
  obtain ⟨a, b, ha, hb, -⟩ := hkeys.aead
  have hroot : root ∈ s.prks := ⟨.client, hclient⟩
  refine ⟨fun side ↦ .deriveFromRoot P.hkdf root !side.isServer, fun side ↦ ?_, ?_⟩
  · cases side with
    | client => exact ⟨(halone .client).derive ha hclient, rfl, rfl⟩
    | server => exact ⟨(halone .server).derive hb hserver, rfl, rfl⟩
  intro sender events leg hwell hE hauth
  have hleg : leg = .new P.hkdf root !sender.isServer := by
    cases sender <;> rfl
  clear_value leg
  subst hleg
  -- and no record under a key of the datagrams
  have hauth' : ∀ past epochId wireCounter wireBits c aad,
      past ++ [.deliver epochId wireCounter wireBits c aad] <+: events →
      ((Leg.new P.hkdf root !sender.isServer).run P.aead P.hkdf past).2.Authentic P.aead P.hkdf
        root E aad c := by
    intro past epochId wireCounter wireBits c aad hpast d e he nonce
    refine (hauth past epochId wireCounter wireBits c aad hpast root hroot d e he nonce).of_key
      fun sealing hmem hkey ↦ ?_
    refine (List.mem_append.mp hmem).resolve_left fun hmem ↦ ?_
    obtain ⟨side', hmem'⟩ : ∃ side', sealing ∈ (s.endpoint side').sealings :=
      (List.mem_append.mp hmem).elim (⟨.client, ·⟩) (⟨.server, ·⟩)
    obtain ⟨aead, haead, hsealing⟩ := (halone side').key_of_mem_sealings hmem'
    obtain ⟨prk, hprk, rfl⟩ := (halone side').exists_prk haead
    exact (hseparates.aead_ne_epoch ⟨side', hprk⟩ hroot side'.isServer d he).1
      (hsealing.symm.trans hkey)
  obtain ⟨F, origin, hinv⟩ :=
    Leg.Inv.of_run events hE hwell (hseparates.keysDistinct hroot) hauth'
  refine ⟨origin, fun j f aad c hj ↦ ?_, hinv.attributed.2⟩
  obtain ⟨hlt, n, hsealed, -⟩ := hinv.attributed.1 j f aad c hj
  exact ⟨hlt, n, hsealed⟩

namespace DisturbedSession

def item : Item := ⟨9, .udpData, [1, 2, 3]⟩

def aad : Bytes := [7, 7]

def plain : Bytes := DatagramTx.plaintext item.streamId item.frameType item.payload

/-- The first keys of the client. -/
def legKeys : DatagramEpochKeys := epochKeys .mixing (txChain0 .mixing (.zero 32) true) 0

/-- Its first datagram. -/
def datagram : Bytes :=
  plain ++ ChaCha20Poly1305.clearTag legKeys.key (buildNonce legKeys.salt 0) aad 28

/-- The datagram arrives. -/
def legEvents : List LegEvent := [.send item aad, .deliver 0 0 16 datagram aad]

theorem derive (side : Side) : DatagramKeyMaterial.derive .mixing (disturbed.endpoint side).keys
    = .ok (.deriveFromRoot .mixing (.zero 32) !side.isServer) := by
  have halone := Session.Hostile.alone (P := primitives) ChaCha20Poly1305.clear_isCorrect
    runs_disturbed side
  obtain ⟨hclient, hserver, hclient', hserver', -⟩ := evaluates
  have hroot : ∀ {root : Option (ByteArr 32)}, root.map Subtype.val = some (List.replicate 32 0) →
      root = some (.zero 32) := fun {root} h ↦ by
    obtain ⟨prk, rfl, hprk⟩ := Option.map_eq_some_iff.mp h
    exact congrArg some (Subtype.ext hprk)
  cases side with
  | client =>
    obtain ⟨aead, haead, -⟩ := Option.map_eq_some_iff.mp hclient'
    exact halone.derive haead (hroot hclient)
  | server =>
    obtain ⟨aead, haead, -⟩ := Option.map_eq_some_iff.mp hserver'
    exact halone.derive haead (hroot hserver)

/-- The state the datagram arrives in. -/
theorem authenticLeg {leg : Leg}
    (hlog : leg.log = [⟨legKeys.key, buildNonce legKeys.salt 0, aad, plain, datagram⟩]) :
    disturbed.AuthenticLeg primitives 2 leg aad datagram := by
  have henc : ChaCha20Poly1305.clear.encrypt legKeys.key (buildNonce legKeys.salt 0) aad plain
      = some datagram := by decide +kernel
  intro prk hprk isInitiator e he nonce p hp
  obtain rfl : prk = .zero 32 := prks_subset hprk
  obtain ⟨rfl, rfl, hkey⟩ := ChaCha20Poly1305.clear_decrypt_of_encrypt henc hp
  cases HkdfSha256.mixing_inj (.epoch isInitiator e) (.epoch true 0) he (Nat.zero_le _) hkey
  rw [hlog]
  exact List.mem_append_right _ (List.mem_singleton_self _)

end DisturbedSession

/-- Over the leg of the disturbed session, a datagram opens, and as what it is. -/
theorem session_leg_authenticity_disturbed :
    ∃ m : Side → DatagramKeyMaterial,
      (∀ side, DatagramKeyMaterial.derive .mixing
        (DisturbedSession.disturbed.endpoint side).keys = .ok (m side)) ∧
      let turns := ((Leg.between .mixing (m .client) (m .server)).run .clear .mixing
        DisturbedSession.legEvents).1
      (∃ f, OpenedAt turns 1 f DisturbedSession.aad DisturbedSession.datagram) ∧
        ∃ origin : ℕ → ℕ, ∀ j f aad c, OpenedAt turns j f aad c →
          origin j < j ∧ ∃ n, SealedAt turns (origin j) n f.item aad c := by
  obtain ⟨-, -, -, -, -, hreturned, ⟨hclient, hserver⟩, -⟩ := DisturbedSession.evaluates
  obtain ⟨m, hm, hleg⟩ := (session_leg_authenticity ChaCha20Poly1305.clear_isCorrect
    DisturbedSession.runs_disturbed DisturbedSession.separatesUpTo
    (fun side ↦ by cases side with
      | client => exact hclient
      | server => exact hserver)
    [] (by simp)
    (fun side aead haead c hc n ↦ by
      rw [List.append_nil]
      exact DisturbedSession.opensOnly side aead haead c hc n) .server).2 hreturned
  have hmaterial : ∀ side, m side = .deriveFromRoot .mixing (.zero 32) !side.isServer :=
    fun side ↦ Outcome.ok.inj ((hm side).1.symm.trans (DisturbedSession.derive side))
  refine ⟨m, fun side ↦ (hm side).1, ?_⟩
  have hbetween : Leg.between .mixing (m .client) (m .server) = .new .mixing (.zero 32) true := by
    rw [hmaterial .client, hmaterial .server]
    rfl
  have hwell : ∀ event ∈ DisturbedSession.legEvents, event.WellFormed := by
    intro event hevent
    simp only [DisturbedSession.legEvents, List.mem_cons, List.not_mem_nil, or_false] at hevent
    rcases hevent with rfl | rfl <;> simp [LegEvent.WellFormed, DisturbedSession.item]
  obtain ⟨origin, horigin, -⟩ := hleg .client DisturbedSession.legEvents hwell (by decide) (by
    intro past epochId wireCounter wireBits c aad hpast
    rcases past with - | ⟨e₁, - | ⟨e₂, past⟩⟩ <;>
      simp [DisturbedSession.legEvents, List.cons_prefix_cons] at hpast
    obtain ⟨rfl, -, -, -, rfl, rfl⟩ := hpast
    refine DisturbedSession.authenticLeg ?_
    rw [show Leg.between DisturbedSession.primitives.hkdf (m .client) (m Side.client.other) = _
      from hbetween]
    decide +kernel)
  refine ⟨?_, origin, horigin⟩
  rw [hbetween]
  exact ⟨.received (.zero 16) 9 .udpData [1, 2, 3] [], 0, 0, 16, by decide +kernel⟩
