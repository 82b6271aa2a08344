import Nrxp.Errors
import Nrxp.Lib.Hex
import Nrxp.Session.Safety

/-!
# Provisioning

Credentials come as text: the secret and the private key into the configuration of the node, the
secret and the public key, which the node prints, into that of its clients. `provisioned_agree` says
that copying the text is enough for a handshake, and that no other text will do unless it denotes
the same bytes.
-/

/-- The code of credentials that cannot be used. -/
def errAuthFailed : String := "AUTH_FAILED"

/-- A 32-byte value of the configuration. -/
def parseKeyHex (hex : Hex) (what value : String) : Outcome AppError (ByteArr 32) :=
  match hex.decode (Text.trim value) with
  | .error e => .err ⟨errAuthFailed, "Ошибка конфигурации", s!"{what}: ожидался hex, {e}"⟩
  | .ok raw =>
    if h : raw.length = 32 then .ok ⟨raw, h⟩
    else
      .err ⟨errAuthFailed, "Ошибка конфигурации",
        s!"{what}: ожидалось 32 байта (64 hex-символа), получено {raw.length}"⟩

/-- What a client is given. -/
def PeerIdentity.fromHex (hex : Hex) (secretHex publicHex : String) :
    Outcome AppError PeerIdentity := do
  let secret ← parseKeyHex hex "nrxp_secret" secretHex
  let staticPublic ← parseKeyHex hex "nrxp_static_public" publicHex
  return { secret, staticPublic }

namespace LocalIdentity

/-- What a node is given. -/
def fromHex (hex : Hex) (secretHex privateHex : String) (strict : Bool) :
    Outcome AppError LocalIdentity := do
  let secret ← parseKeyHex hex "nrxp_secret" secretHex
  let staticPrivate ← parseKeyHex hex "nrxp_static_private" privateHex
  return { secret, staticPrivate, strict }

/-- What a node prints when it starts. -/
def publicKeyHex (hex : Hex) (x : X25519) (node : LocalIdentity) : String :=
  hex.encode (x.publicKey node.staticPrivate).val

end LocalIdentity

/-! ### What is accepted -/

/-- A text denotes a key. -/
def Hex.Denotes (hex : Hex) (text : String) (key : ByteArr 32) : Prop :=
  hex.decode (Text.trim text) = .ok key.val

/-- What is written denotes what it was written for. -/
theorem Hex.IsLawful.denotes_encode {hex : Hex} (h : hex.IsLawful) (key : ByteArr 32) :
    hex.Denotes (hex.encode key.val) key := h.decode_trim_encode key.val

theorem Hex.Denotes.unique {hex : Hex} {text : String} {key key' : ByteArr 32}
    (h : hex.Denotes text key) (h' : hex.Denotes text key') : key = key' :=
  Subtype.ext (Except.ok.inj (h.symm.trans h'))

/-- The error is about one field of the configuration, and begins with its name. -/
def AppError.Names (what : String) (e : AppError) : Prop :=
  e.code = errAuthFailed ∧ ∃ reason, e.internalMsg = what ++ reason

section Accepted

variable {hex : Hex} {what value what' value' : String}

/-- Accepted is what denotes a key. -/
theorem parseKeyHex_eq_ok_iff {key : ByteArr 32} :
    parseKeyHex hex what value = .ok key ↔ hex.Denotes value key := by
  rw [parseKeyHex, Hex.Denotes]
  constructor
  · intro h
    split at h
    · cases h
    · split at h
      · cases h
        assumption
      · cases h
  · intro h
    rw [h]
    exact dif_pos key.property

/-- What denotes no key is refused, by the name of its field. -/
theorem parseKeyHex_refused (h : ∀ key, ¬ hex.Denotes value key) :
    ∃ e, parseKeyHex hex what value = .err e ∧ e.Names what := by
  rw [parseKeyHex]
  split
  · exact ⟨_, rfl, rfl, _, String.append_assoc ..⟩
  · rename_i raw hdecode
    have hlen : ¬ raw.length = 32 := fun hlen ↦ h ⟨raw, hlen⟩ hdecode
    rw [dif_neg hlen]
    exact ⟨_, rfl, rfl, _, String.append_assoc ..⟩

/-- Two fields are accepted together if both are. -/
theorem parseKeyHex_both {α : Type} {f : ByteArr 32 → ByteArr 32 → α} {a : α} :
    (do
      let key ← parseKeyHex hex what value
      let key' ← parseKeyHex hex what' value'
      return f key key') = Outcome.ok a ↔
      ∃ key key', hex.Denotes value key ∧ hex.Denotes value' key' ∧ f key key' = a := by
  rw [Outcome.bind_eq_ok_iff]
  constructor
  · rintro ⟨key, hkey, h⟩
    obtain ⟨key', hkey', h⟩ := Outcome.bind_eq_ok_iff.mp h
    cases h
    exact ⟨key, key', parseKeyHex_eq_ok_iff.mp hkey, parseKeyHex_eq_ok_iff.mp hkey', rfl⟩
  · rintro ⟨key, key', hkey, hkey', rfl⟩
    exact ⟨key, parseKeyHex_eq_ok_iff.mpr hkey,
      Outcome.bind_eq_ok_iff.mpr ⟨key', parseKeyHex_eq_ok_iff.mpr hkey', rfl⟩⟩

/-- Of two fields, the first that denotes no key is named. -/
theorem parseKeyHex_both_refused {α : Type} {f : ByteArr 32 → ByteArr 32 → α} :
    ((∀ key, ¬ hex.Denotes value key) →
      ∃ e, (do
        let key ← parseKeyHex hex what value
        let key' ← parseKeyHex hex what' value'
        return f key key') = Outcome.err e ∧ e.Names what) ∧
    (∀ key, hex.Denotes value key → (∀ key', ¬ hex.Denotes value' key') →
      ∃ e, (do
        let key ← parseKeyHex hex what value
        let key' ← parseKeyHex hex what' value'
        return f key key') = Outcome.err e ∧ e.Names what') := by
  refine ⟨fun h ↦ ?_, fun key hkey h ↦ ?_⟩
  · obtain ⟨e, hrefused, hnames⟩ := @parseKeyHex_refused hex what value h
    exact ⟨e, by rw [hrefused]; rfl, hnames⟩
  · obtain ⟨e, hrefused, hnames⟩ := @parseKeyHex_refused hex what' value' h
    exact ⟨e, by rw [parseKeyHex_eq_ok_iff.mpr hkey, Outcome.ok_bind, hrefused]; rfl, hnames⟩

end Accepted

/-! ### Both sides of one node -/

section Provisioned

variable {P : Primitives} {hex : Hex} {secretHex privateHex : String} {strict : Bool}
  {node : LocalIdentity}

theorem PeerIdentity.fromHex_eq_ok_iff {publicHex : String} {peer : PeerIdentity} :
    PeerIdentity.fromHex hex secretHex publicHex = .ok peer ↔
      hex.Denotes secretHex peer.secret ∧ hex.Denotes publicHex peer.staticPublic := by
  rw [PeerIdentity.fromHex, parseKeyHex_both]
  constructor
  · rintro ⟨secret, staticPublic, hsecret, hpublic, rfl⟩
    exact ⟨hsecret, hpublic⟩
  · exact fun ⟨hsecret, hpublic⟩ ↦ ⟨_, _, hsecret, hpublic, rfl⟩

theorem LocalIdentity.fromHex_eq_ok_iff :
    LocalIdentity.fromHex hex secretHex privateHex strict = .ok node ↔
      hex.Denotes secretHex node.secret ∧ hex.Denotes privateHex node.staticPrivate ∧
      node.strict = strict := by
  rw [LocalIdentity.fromHex, parseKeyHex_both]
  constructor
  · rintro ⟨secret, staticPrivate, hsecret, hprivate, rfl⟩
    exact ⟨hsecret, hprivate, rfl⟩
  · rintro ⟨hsecret, hprivate, rfl⟩
    exact ⟨_, _, hsecret, hprivate, rfl⟩

/-- A client's text is refused by the name of the first field that denotes no key. -/
theorem PeerIdentity.fromHex_refused {publicHex : String} :
    ((∀ key, ¬ hex.Denotes secretHex key) →
      ∃ e, PeerIdentity.fromHex hex secretHex publicHex = .err e ∧ e.Names "nrxp_secret") ∧
    (∀ key, hex.Denotes secretHex key → (∀ key', ¬ hex.Denotes publicHex key') →
      ∃ e, PeerIdentity.fromHex hex secretHex publicHex = .err e ∧ e.Names "nrxp_static_public") :=
  parseKeyHex_both_refused

/-- And so is a node's. -/
theorem LocalIdentity.fromHex_refused :
    ((∀ key, ¬ hex.Denotes secretHex key) →
      ∃ e, LocalIdentity.fromHex hex secretHex privateHex strict = .err e ∧
        e.Names "nrxp_secret") ∧
    (∀ key, hex.Denotes secretHex key → (∀ key', ¬ hex.Denotes privateHex key') →
      ∃ e, LocalIdentity.fromHex hex secretHex privateHex strict = .err e ∧
        e.Names "nrxp_static_private") :=
  parseKeyHex_both_refused

/-- **The printed key and the secret are what a client needs**: with them it is accepted and comes
to mirrored keys with the node. What any text is accepted as are credentials that match the node's,
the premise of that agreement, exactly if the text denotes the secret and the public key of the
node. -/
theorem provisioned_agree (hlaw : hex.IsLawful) (hcommutes : P.x25519.Commutes)
    (hnode : LocalIdentity.fromHex hex secretHex privateHex strict = .ok node) :
    (∃ peer, PeerIdentity.fromHex hex secretHex (node.publicKeyHex hex P.x25519) = .ok peer ∧
      ∀ cfg : SessionConfig, cfg.WellFormed P → cfg.clientIdentity = some (.ofPeer peer) →
        cfg.serverIdentity = some (.ofLocal node) →
          ∃ answer keys first, cfg.Agreed P answer keys first) ∧
    ∀ secretHex' publicHex peer, PeerIdentity.fromHex hex secretHex' publicHex = .ok peer →
      (Compatible P.x25519 (some (.ofPeer peer)) (some (.ofLocal node)) ↔
        hex.Denotes secretHex' node.secret ∧
          hex.Denotes publicHex (P.x25519.publicKey node.staticPrivate)) := by
  obtain ⟨hsecret, -, -⟩ := LocalIdentity.fromHex_eq_ok_iff.mp hnode
  have hpublic := hlaw.denotes_encode (P.x25519.publicKey node.staticPrivate)
  refine ⟨⟨⟨node.secret, P.x25519.publicKey node.staticPrivate⟩,
    PeerIdentity.fromHex_eq_ok_iff.mpr ⟨hsecret, hpublic⟩, fun cfg hwf hclient hserver ↦ ?_⟩,
    fun secretHex' publicHex peer hpeer ↦ ?_⟩
  · have hcompatible : Compatible P.x25519 cfg.clientIdentity cfg.serverIdentity := by
      rw [hclient, hserver]
      exact .keyed _ node rfl rfl
    exact SessionConfig.Sound.exists_agreed ⟨hwf, hcommutes, hcompatible⟩
  · obtain ⟨hsecret', hpublic'⟩ := PeerIdentity.fromHex_eq_ok_iff.mp hpeer
    constructor
    · rintro ⟨⟩
      rename_i hsame hstatic
      exact ⟨hsame ▸ hsecret', hstatic ▸ hpublic'⟩
    · rintro ⟨hsame, hstatic⟩
      exact .keyed peer node (hsecret'.unique hsame) (hpublic'.unique hstatic)

end Provisioned

/-- A node and a client provisioned with text, some white space in it. -/
theorem provisioned_agree_sample :
    ∃ node peer,
      LocalIdentity.fromHex .plain
        " 0707070707070707070707070707070707070707070707070707070707070707\n"
        "0909090909090909090909090909090909090909090909090909090909090909" true = .ok node ∧
      PeerIdentity.fromHex .plain
        " 0707070707070707070707070707070707070707070707070707070707070707\n"
        (node.publicKeyHex .plain .sum) = .ok peer ∧
      ∃ answer keys first,
        SampleSession.config.Agreed SampleSession.primitives answer keys first := by
  have hsecret : Hex.Denotes .plain
      " 0707070707070707070707070707070707070707070707070707070707070707\n"
      (.fill 32 7) := by
    unfold Hex.Denotes
    decide +kernel
  have hprivate : Hex.Denotes .plain
      "0909090909090909090909090909090909090909090909090909090909090909" (.fill 32 9) := by
    unfold Hex.Denotes
    decide +kernel
  have hnode := LocalIdentity.fromHex_eq_ok_iff.mpr
    ⟨hsecret, hprivate, (rfl : (LocalIdentity.mk _ _ true).strict = true)⟩
  obtain ⟨peer, hpeer, hagree⟩ := (@provisioned_agree SampleSession.primitives _ _ _ _ _
    Hex.plain_isLawful X25519.sum_commutes hnode).1
  obtain ⟨hsecret', hpublic⟩ := PeerIdentity.fromHex_eq_ok_iff.mp hpeer
  have hsame : peer = ⟨.fill 32 7, .fill 32 9⟩ := by
    cases peer
    congr
    · exact hsecret'.unique hsecret
    · exact hpublic.unique (Hex.plain_isLawful.denotes_encode _)
  exact ⟨_, peer, hnode, hpeer,
    hagree SampleSession.config SampleSession.sound.toWellFormed (by rw [hsame]; rfl) rfl⟩
