import Mathlib.Data.List.Induction
import Mathlib.Data.List.Nodup
import Nrxp.Crypto.DatagramKeys
import Nrxp.Crypto.Session
import Nrxp.Lib.KeyTree

/-!
# The key schedule

All keys of a session and of its datagram leg come from one pseudorandom key. The keys of the
records and the tags, the header-protection keys and the first chain values are expanded from it;
each chain value is expanded to the next one and to the key of its epoch. As a `KeyTree` the
schedule has two levels of labels, those under the pseudorandom key and those under a chain value,
and the two have no label in common.

`KeyUse.key` speaks of the functions the code has for each of its keys, and `derives_key` says that
these are the keys of the tree. `RatchetOp` is what the leg does to its material: the two ratchets
advance, in any order.
-/

/-- The material of the leg of a session. Panics before the session has its keys. -/
def DatagramKeyMaterial.derive (hkdf : HkdfSha256) (keys : SessionKeys) :
    Outcome AppError DatagramKeyMaterial := do
  let root ← keys.getDatagramRoot
  return deriveFromRoot hkdf root keys.isInitiator

/-! ### Uses -/

/-- What a key is for. `isInitiator` is the role that sends under it. -/
inductive KeyUse where
  /-- The records. -/
  | aead (isInitiator : Bool)
  /-- The frame tags. -/
  | auth
  /-- The headers of the datagrams. -/
  | headerProtection (isInitiator : Bool)
  /-- The value of a chain in an epoch. -/
  | chain (isInitiator : Bool) (epoch : ℕ)
  /-- The datagrams of an epoch. -/
  | epoch (isInitiator : Bool) (epoch : ℕ)
  deriving DecidableEq

namespace KeyUse

/-- The epoch a key belongs to, the first one if it belongs to none. -/
def epochNumber : KeyUse → ℕ
  | chain _ e => e
  | epoch _ e => e
  | _ => 0

/-- The key, from the pseudorandom key of the session. -/
def key (hkdf : HkdfSha256) (prk : ByteArr 32) : KeyUse → ByteArr 32
  | aead isInitiator => (SessionKeys.aeadKeysOf hkdf prk !isInitiator).txKey
  | auth => hkdf.expandKey prk (utf8 "auth_key") 32
  | headerProtection isInitiator =>
    (DatagramKeyMaterial.deriveFromRoot hkdf prk isInitiator).hpKeyTx
  | chain isInitiator e => (KeyRatchet.stepChain hkdf)^[e] (txChain0 hkdf prk isInitiator)
  | epoch isInitiator e => (epochKeys hkdf (txChain0 hkdf prk isInitiator) e).key

/-- The label a key is expanded under. -/
def label : KeyUse → Bytes
  | aead isInitiator => utf8 (if isInitiator then "client_aead" else "server_aead")
  | auth => utf8 "auth_key"
  | headerProtection isInitiator => utf8 (if isInitiator then "dgram-hp-c2s" else "dgram-hp-s2c")
  | chain isInitiator 0 => utf8 (if isInitiator then "dgram-chain-c2s" else "dgram-chain-s2c")
  | chain _ (_ + 1) => utf8 "dgram-epoch-next"
  | epoch _ _ => utf8 "dgram-epoch-key"

/-- What a key is expanded from. -/
def parent : KeyUse → Option KeyUse
  | chain isInitiator (e + 1) => some (chain isInitiator e)
  | epoch isInitiator e => some (chain isInitiator e)
  | _ => none

/-- The distance from the pseudorandom key. -/
def depth : KeyUse → ℕ
  | chain _ e => e
  | epoch _ e => e + 1
  | _ => 0

/-- All labels, and no two are the same. -/
def labels : List Bytes :=
  [utf8 "client_aead", utf8 "server_aead", utf8 "auth_key", utf8 "dgram-hp-c2s",
    utf8 "dgram-hp-s2c", utf8 "dgram-chain-c2s", utf8 "dgram-chain-s2c", utf8 "dgram-epoch-next",
    utf8 "dgram-epoch-key"]

theorem nodup_labels : labels.Nodup := by decide +kernel

/-- Where a label stands. -/
def labelIndex : KeyUse → ℕ
  | aead isInitiator => if isInitiator then 0 else 1
  | auth => 2
  | headerProtection isInitiator => if isInitiator then 3 else 4
  | chain isInitiator 0 => if isInitiator then 5 else 6
  | chain _ (_ + 1) => 7
  | epoch _ _ => 8

theorem getElem?_labels : ∀ u : KeyUse, labels[u.labelIndex]? = some u.label
  | aead true | aead false | auth | headerProtection true | headerProtection false
  | chain true 0 | chain false 0 | chain _ (_ + 1) | epoch _ _ => rfl

theorem labelIndex_of_label {u u' : KeyUse} (h : u.label = u'.label) :
    u.labelIndex = u'.labelIndex := by
  refine (List.getElem?_inj ?_ nodup_labels).mp ?_
  · exact (List.getElem?_eq_some_iff.mp (getElem?_labels u)).1
  · rw [getElem?_labels, getElem?_labels, h]

theorem depth_lt_of_parent {u p : KeyUse} (h : u.parent = some p) : p.depth < u.depth := by
  rcases u with _ | _ | _ | ⟨i, _ | e⟩ | ⟨i, e⟩ <;> cases h <;> exact Nat.lt_succ_self _

/-- A label tells what it is a label of, up to the role and the epoch of a chain. -/
theorem eq_of_step {u u' : KeyUse} (hparent : u.parent = u'.parent) (hlabel : u.label = u'.label) :
    u = u' := by
  have hindex := labelIndex_of_label hlabel
  rcases u with ⟨- | -⟩ | - | ⟨- | -⟩ | ⟨- | -, - | e⟩ | ⟨i, e⟩ <;>
    rcases u' with ⟨- | -⟩ | - | ⟨- | -⟩ | ⟨- | -, - | e'⟩ | ⟨i', e'⟩ <;>
    first
    | rfl
    | (cases hparent; done)
    | (cases hparent; rfl)
    | exact absurd hindex (by simp [labelIndex])

theorem isSome_parent_of_label {u u' : KeyUse} (hlabel : u.label = u'.label) :
    u.parent.isSome = u'.parent.isSome := by
  have hindex := labelIndex_of_label hlabel
  rcases u with ⟨- | -⟩ | - | ⟨- | -⟩ | ⟨- | -, - | e⟩ | ⟨i, e⟩ <;>
    rcases u' with ⟨- | -⟩ | - | ⟨- | -⟩ | ⟨- | -, - | e'⟩ | ⟨i', e'⟩ <;>
    first
    | rfl
    | exact absurd hindex (by simp [labelIndex])

/-- The uses as a tree. -/
def tree : KeyTree KeyUse Bytes where
  parent := parent
  label := label
  depth := depth
  depth_lt := depth_lt_of_parent
  eq_of_step := eq_of_step
  isSome_of_label := isSome_parent_of_label

variable (hkdf : HkdfSha256)

/-- **The keys of the schedule are derived as the tree says.** -/
theorem derives_key : tree.Derives (hkdf.expandKey · · 32) (key hkdf) := by
  rintro prk (⟨- | -⟩ | - | ⟨- | -⟩ | ⟨- | -, - | e⟩ | ⟨i, e⟩)
  case chain.false.succ => exact Function.iterate_succ_apply' _ _ _
  case chain.true.succ => exact Function.iterate_succ_apply' _ _ _
  all_goals rfl

/-- The uses up to an epoch. -/
def upTo (E : ℕ) : Set KeyUse := {u | u.epochNumber ≤ E}

theorem mem_upTo_of_parent {E : ℕ} {u p : KeyUse} (hu : u ∈ upTo E) (hp : u.parent = some p) :
    p ∈ upTo E := by
  rcases u with _ | _ | _ | ⟨i, _ | e⟩ | ⟨i, e⟩ <;> cases hp
  · exact (Nat.le_succ e).trans hu
  · exact hu

end KeyUse

/-! ### Ratchets -/

/-- What a side of the leg does to its material: it begins the next epoch of a direction. -/
inductive RatchetOp where
  | tx
  | rx
  deriving DecidableEq

namespace DatagramKeyMaterial

variable (hkdf : HkdfSha256) (root : ByteArr 32) (isInitiator : Bool)

def ratchet (m : DatagramKeyMaterial) : RatchetOp → DatagramKeyMaterial
  | .tx => m.txAdvance hkdf
  | .rx => m.rxAdvance hkdf

/-- The material of a side after some epochs. -/
def ratcheted (ops : List RatchetOp) : DatagramKeyMaterial :=
  ops.foldl (ratchet hkdf) (deriveFromRoot hkdf root isInitiator)

/-- The two directions advance independently. -/
theorem ratcheted_eq (ops : List RatchetOp) :
    (ratcheted hkdf root isInitiator ops).tx
        = .after hkdf (txChain0 hkdf root isInitiator) (ops.count .tx) ∧
      (ratcheted hkdf root isInitiator ops).rx
        = .after hkdf (txChain0 hkdf root !isInitiator) (ops.count .rx) := by
  induction ops using List.reverseRecOn with
  | nil => exact ⟨deriveFromRoot_tx hkdf root isInitiator, deriveFromRoot_rx hkdf root isInitiator⟩
  | append_singleton ops op ih =>
    obtain ⟨htx, hrx⟩ := ih
    rw [ratcheted, List.foldl_append, ← ratcheted]
    cases op with
    | tx =>
      rw [show List.count RatchetOp.tx (ops ++ [.tx]) = ops.count .tx + 1 by simp,
        show List.count RatchetOp.rx (ops ++ [.tx]) = ops.count .rx by simp,
        ← KeyRatchet.advance_after, ← htx, ← hrx]
      exact ⟨rfl, rfl⟩
    | rx =>
      rw [show List.count RatchetOp.tx (ops ++ [.rx]) = ops.count .tx by simp,
        show List.count RatchetOp.rx (ops ++ [.rx]) = ops.count .rx + 1 by simp,
        ← KeyRatchet.advance_after, ← htx, ← hrx]
      exact ⟨rfl, rfl⟩

theorem txCurrent_ratcheted (ops : List RatchetOp) :
    (ratcheted hkdf root isInitiator ops).txCurrent hkdf
      = epochKeys hkdf (txChain0 hkdf root isInitiator) (ops.count .tx) := by
  rw [txCurrent, (ratcheted_eq hkdf root isInitiator ops).1, KeyRatchet.current_after]

theorem rxCurrent_ratcheted (ops : List RatchetOp) :
    (ratcheted hkdf root isInitiator ops).rxCurrent hkdf
      = epochKeys hkdf (txChain0 hkdf root !isInitiator) (ops.count .rx) := by
  rw [rxCurrent, (ratcheted_eq hkdf root isInitiator ops).2, KeyRatchet.current_after]

theorem rxPeekNext_ratcheted (ops : List RatchetOp) :
    (ratcheted hkdf root isInitiator ops).rxPeekNext hkdf
      = epochKeys hkdf (txChain0 hkdf root !isInitiator) (ops.count .rx + 1) := by
  rw [rxPeekNext, (ratcheted_eq hkdf root isInitiator ops).2, KeyRatchet.peekNext_after]

end DatagramKeyMaterial

/-! ### Separation -/

/-- No two expansions that lead to keys of these sessions, up to an epoch, have one result. -/
def HkdfSha256.SeparatesUpTo (hkdf : HkdfSha256) (prks : Set (ByteArr 32)) (E : ℕ) : Prop :=
  KeyUse.tree.Separates (hkdf.expandKey · · 32) (KeyUse.key hkdf) prks (KeyUse.upTo E)

namespace HkdfSha256.SeparatesUpTo

variable {hkdf : HkdfSha256} {prks : Set (ByteArr 32)} {E : ℕ}

/-- A key tells its session and its use. -/
theorem key_inj (h : hkdf.SeparatesUpTo prks E) {prk prk' : ByteArr 32} (hprk : prk ∈ prks)
    (hprk' : prk' ∈ prks) (u u' : KeyUse) (hu : u.epochNumber ≤ E) (hu' : u'.epochNumber ≤ E) :
    u.key hkdf prk = u'.key hkdf prk' ↔ prk = prk' ∧ u = u' := by
  refine ⟨fun hkey ↦ ?_, fun ⟨hprk, hu⟩ ↦ by rw [hprk, hu]⟩
  exact Prod.ext_iff.mp (KeyTree.injOn_key (KeyUse.derives_key hkdf)
    (fun hu hp ↦ KeyUse.mem_upTo_of_parent hu hp) h
    (show (prk, u) ∈ prks ×ˢ KeyUse.upTo E from ⟨hprk, hu⟩)
    (show (prk', u') ∈ prks ×ˢ KeyUse.upTo E from ⟨hprk', hu'⟩) hkey)

/-- The keys of an epoch are known by the one they encrypt with. -/
theorem epochKeys_inj (h : hkdf.SeparatesUpTo prks E) {prk prk' : ByteArr 32} (hprk : prk ∈ prks)
    (hprk' : prk' ∈ prks) {isInitiator isInitiator' : Bool} {e e' : ℕ} (he : e ≤ E)
    (he' : e' ≤ E) :
    epochKeys hkdf (txChain0 hkdf prk isInitiator) e
        = epochKeys hkdf (txChain0 hkdf prk' isInitiator') e' ↔
      prk = prk' ∧ isInitiator = isInitiator' ∧ e = e' := by
  constructor
  · intro heq
    obtain ⟨hprk, huse⟩ := (h.key_inj hprk hprk' (.epoch isInitiator e) (.epoch isInitiator' e') he
      he').mp (congrArg DatagramEpochKeys.key heq)
    exact ⟨hprk, KeyUse.epoch.inj huse⟩
  · rintro ⟨rfl, rfl, rfl⟩
    rfl

end HkdfSha256.SeparatesUpTo

namespace KeyUse

/-- The uses up to an epoch, one by one. -/
def listUpTo (E : ℕ) : List KeyUse :=
  [aead true, aead false, auth, headerProtection true, headerProtection false] ++
    (List.range (E + 1)).flatMap fun e ↦ [chain true e, chain false e, epoch true e, epoch false e]

theorem mem_listUpTo {E : ℕ} {u : KeyUse} (hu : u.epochNumber ≤ E) : u ∈ listUpTo E := by
  have hlater {e : ℕ} (he : e ≤ E)
      (hmem : u ∈ [chain true e, chain false e, epoch true e, epoch false e]) : u ∈ listUpTo E :=
    List.mem_append_right _ (List.mem_flatMap.mpr
      ⟨e, List.mem_range.mpr (Nat.lt_succ_of_le he), hmem⟩)
  rcases u with ⟨- | -⟩ | - | ⟨- | -⟩ | ⟨- | -, e⟩ | ⟨- | -, e⟩
  case chain.false | chain.true | epoch.false | epoch.true =>
    exact hlater hu (by simp [epochNumber])
  all_goals exact List.mem_append_left _ (by simp)

end KeyUse

namespace HkdfSha256

theorem SeparatesUpTo.mono {hkdf : HkdfSha256} {prks prks' : Set (ByteArr 32)} {E : ℕ}
    (h : hkdf.SeparatesUpTo prks' E) (hprks : prks ⊆ prks') : hkdf.SeparatesUpTo prks E :=
  Set.InjOn.mono (Set.image_mono (Set.prod_mono_left hprks)) h

/-- A derivation that repeats one byte, into which it mixes the label. -/
def mixing : HkdfSha256 where
  extract _ _ := .zero 32
  expand prk mark n :=
    .fill n (UInt8.ofNat (0xc1 + 16 * KeyUse.labels.idxOf mark) + 2 * prk.val.headD 0)

/-- It tells all keys of the first three epochs apart, by their first byte. -/
theorem mixing_inj (u u' : KeyUse) (hu : u.epochNumber ≤ 2) (hu' : u'.epochNumber ≤ 2)
    (hsame : (u.key mixing (.zero 32)).val.take 1 = (u'.key mixing (.zero 32)).val.take 1) :
    u = u' := by
  have hnodup : ((KeyUse.listUpTo 2).map fun u ↦ (u.key mixing (.zero 32)).val.take 1).Nodup := by
    decide +kernel
  exact List.inj_on_of_nodup_map hnodup (KeyUse.mem_listUpTo hu) (KeyUse.mem_listUpTo hu') hsame

theorem separatesUpTo_mixing : mixing.SeparatesUpTo {ByteArr.zero 32} 2 := by
  rintro - ⟨⟨prk, u⟩, ⟨rfl, hu⟩, rfl⟩ - ⟨⟨prk', u'⟩, ⟨rfl, hu'⟩, rfl⟩ hkey
  have hsame : u.key mixing (ByteArr.zero 32) = u'.key mixing (ByteArr.zero 32) :=
    (KeyUse.derives_key mixing _ u).trans (hkey.trans (KeyUse.derives_key mixing _ u').symm)
  obtain rfl : u = u' := mixing_inj u u' hu hu' (congrArg (fun k : ByteArr 32 ↦ k.val.take 1) hsame)
  rfl

end HkdfSha256

/-! ### The theorem -/

/-- **Key separation.** Take the datagram material of any two sides, of one session or of two, and
let each ratchet advance in any order. If the expansions made so far do not collide, then what the
one side seals under is what the other opens with exactly if they are opposite roles of one session
in one epoch, and what the other tries next exactly if it is one epoch behind; two sides seal under
one key only if they are one role of one session in one epoch; and no key of any session that is for
anything else is among the keys datagrams are sealed under. -/
theorem datagram_keys_separate {hkdf : HkdfSha256} {prks : Set (ByteArr 32)} {E : ℕ}
    (hseparates : hkdf.SeparatesUpTo prks E) {root root' : ByteArr 32} (hroot : root ∈ prks)
    (hroot' : root' ∈ prks) (isInitiator isInitiator' : Bool) (ops ops' : List RatchetOp)
    (hops : ops.length < E) (hops' : ops'.length < E) :
    let m := DatagramKeyMaterial.ratcheted hkdf root isInitiator ops
    let m' := DatagramKeyMaterial.ratcheted hkdf root' isInitiator' ops'
    (m.txCurrent hkdf = m'.rxCurrent hkdf ↔
        root = root' ∧ isInitiator = !isInitiator' ∧ ops.count .tx = ops'.count .rx) ∧
      (m.txCurrent hkdf = m'.rxPeekNext hkdf ↔
        root = root' ∧ isInitiator = !isInitiator' ∧ ops.count .tx = ops'.count .rx + 1) ∧
      ((m.txCurrent hkdf).key = (m'.txCurrent hkdf).key ↔
        root = root' ∧ isInitiator = isInitiator' ∧ ops.count .tx = ops'.count .tx) ∧
      ∀ prk ∈ prks, ∀ u : KeyUse, u.epochNumber ≤ E → u.key hkdf prk = (m.txCurrent hkdf).key →
        prk = root ∧ u = .epoch isInitiator (ops.count .tx) := by
  intro m m'
  have htx : ops.count .tx ≤ E := (List.count_le_length ..).trans hops.le
  have htx' : ops'.count .tx ≤ E := (List.count_le_length ..).trans hops'.le
  have hrx' : ops'.count .rx + 1 ≤ E := Nat.succ_le_of_lt ((List.count_le_length ..).trans_lt hops')
  rw [DatagramKeyMaterial.txCurrent_ratcheted, DatagramKeyMaterial.txCurrent_ratcheted,
    DatagramKeyMaterial.rxCurrent_ratcheted, DatagramKeyMaterial.rxPeekNext_ratcheted]
  refine ⟨hseparates.epochKeys_inj hroot hroot' htx (Nat.le_of_succ_le hrx'),
    hseparates.epochKeys_inj hroot hroot' htx hrx', ?_, fun prk hprk u hu hkey ↦ ?_⟩
  · refine (hseparates.key_inj hroot hroot' (.epoch isInitiator (ops.count RatchetOp.tx))
      (.epoch isInitiator' (ops'.count RatchetOp.tx)) htx htx').trans ?_
    rw [KeyUse.epoch.injEq]
  · exact (hseparates.key_inj hprk hroot u (.epoch isInitiator (ops.count RatchetOp.tx)) hu
      htx).mp hkey

/-- A client that has begun an epoch seals under the keys its server tries next. -/
theorem datagram_keys_separate_ahead :
    (DatagramKeyMaterial.ratcheted .mixing (ByteArr.zero 32) true [.tx]).txCurrent .mixing
      = (DatagramKeyMaterial.ratcheted .mixing (ByteArr.zero 32) false []).rxPeekNext .mixing :=
  (datagram_keys_separate HkdfSha256.separatesUpTo_mixing rfl rfl true false [.tx] [] (by decide)
    (by decide)).2.1.mpr ⟨rfl, rfl, rfl⟩
