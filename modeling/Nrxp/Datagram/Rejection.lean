import Nrxp.Datagram.Leg

/-!
# Rejected datagrams

Anybody can send the receiver a datagram. One that names no epoch it listens to, does not decrypt,
or is refused by the replay window, leaves it as it was: the ratchet, both slots and both windows.
This is so in every state and not only in those a run reaches, so no invariant is needed.

It is what `open` was written for in this order: a new epoch is tried on a candidate slot and a
copy of the ratchet, and the window is asked last.
-/

/-- The arguments of a call of `open`. -/
structure Datagram where
  epochId : UInt8
  wireCounter : UInt64
  wireBits : ℕ
  ciphertext : Bytes
  aad : Bytes

variable (A : ChaCha20Poly1305) (hkdf : HkdfSha256)

/-- Give a datagram to the receiver. -/
def Datagram.deliver (d : Datagram) : Exec DatagramRx TlsError Frame :=
  DatagramRx.open A hkdf d.epochId d.wireCounter d.wireBits d.ciphertext d.aad

/-- The slot a label names: that of the current epoch, of the one before, or a new one for the
next. -/
def DatagramRx.slotOf (rx : DatagramRx) (epochId : UInt8) : Option EpochSlot :=
  if epochId = rx.current.epochId then some rx.current
  else
    match rx.previous.filter (·.epochId = epochId) with
    | some previous => some previous
    | none =>
      if epochId = rx.current.epochId + 1 then some (.fresh (rx.keys.rxPeekNext hkdf)) else none

/-- A slot has no use for a datagram: it does not decrypt under the counter recovered, or it does
and the window refuses the counter. -/
inductive EpochSlot.Refuses (slot : EpochSlot) (d : Datagram) : Prop
  | aead {c : UInt64}
      (hcounter : expandCounter slot.window.highest d.wireCounter d.wireBits = .ok c)
      (hopen : A.decrypt slot.keys.key (buildNonce slot.keys.salt c) d.aad d.ciphertext = none)
  | replay {c : UInt64} {plain : Bytes}
      (hcounter : expandCounter slot.window.highest d.wireCounter d.wireBits = .ok c)
      (hopen : A.decrypt slot.keys.key (buildNonce slot.keys.salt c) d.aad d.ciphertext
        = some plain)
      (hwindow : (slot.window.accept c).1 = .ok false)

/-- The receiver has no use for it: its label names no acceptable epoch, or the slot of its epoch
refuses it. -/
def DatagramRx.Rejects (rx : DatagramRx) (d : Datagram) : Prop :=
  ∀ slot, rx.slotOf hkdf d.epochId = some slot → slot.Refuses A d

/-- Deliver datagrams in order, each with a mark that is handed on to its result. -/
def deliverAll : List (Bool × Datagram) → DatagramRx →
    List (Bool × Outcome TlsError Frame) × DatagramRx
  | [], rx => ([], rx)
  | (mark, d) :: arrivals, rx =>
    let (result, rx) := d.deliver A hkdf rx
    let (results, rx) := deliverAll arrivals rx
    ((mark, result) :: results, rx)

/-- Every marked datagram is rejected in the state it finds. -/
def MarkedRejected : List (Bool × Datagram) → DatagramRx → Prop
  | [], _ => True
  | (mark, d) :: arrivals, rx =>
    (mark = true → rx.Rejects A hkdf d) ∧ MarkedRejected arrivals (d.deliver A hkdf rx).2

variable {A : ChaCha20Poly1305} {hkdf : HkdfSha256}

/-! ### One datagram -/

theorem EpochSlot.Refuses.tryOpen {slot : EpochSlot} {d : Datagram} (h : slot.Refuses A d) :
    EpochSlot.tryOpen A d.wireCounter d.wireBits d.ciphertext d.aad slot = (.ok none, slot) := by
  cases h with
  | aead hcounter hopen =>
    rw [EpochSlot.tryOpen, Exec.get_bind, hcounter, Exec.lift_ok_bind, hopen]
    rfl
  | @replay c plain hcounter hopen hwindow =>
    have hzoom : Exec.zoom (·.window) (fun window slot ↦ { slot with window })
        (ReplayWindow.accept c) slot = (.ok false, slot) :=
      Exec.zoom_of_eq (ReplayWindow.accept_of_refused hwindow)
    rw [EpochSlot.tryOpen, Exec.get_bind, hcounter, Exec.lift_ok_bind, hopen]
    exact Exec.bind_ok hzoom

theorem EpochSlot.Refuses.openSlot {slot : EpochSlot} {d : Datagram} (h : slot.Refuses A d)
    (what : String) :
    DatagramRx.openSlot A what d.wireCounter d.wireBits d.ciphertext d.aad slot
      = (.err (authFail what), slot) := by
  rw [DatagramRx.openSlot, Exec.bind_ok h.tryOpen]
  rfl

/-- **A rejected datagram** is answered with an error, and the receiver is as it was. -/
theorem DatagramRx.Rejects.deliver {rx : DatagramRx} {d : Datagram} (h : rx.Rejects A hkdf d) :
    ∃ e, d.deliver A hkdf rx = (.err e, rx) := by
  suffices hdecrypt : ∃ e, rx.decryptDatagram A hkdf d.epochId d.wireCounter d.wireBits
      d.ciphertext d.aad = (.err e, rx) by
    obtain ⟨e, he⟩ := hdecrypt
    exact ⟨e, DatagramRx.open_of_err he⟩
  rw [DatagramRx.decryptDatagram, Exec.get_bind]
  by_cases hcurrent : d.epochId = rx.current.epochId
  · have hrefuses := h rx.current (if_pos hcurrent)
    rw [if_pos hcurrent]
    exact ⟨_, Exec.zoom_of_eq (hrefuses.openSlot _)⟩
  rw [if_neg hcurrent]
  rcases hfilter : rx.previous.filter (·.epochId = d.epochId) with - | previous <;>
    rw [hfilter] <;> dsimp only
  · by_cases hnext : d.epochId = rx.current.epochId + 1
    · have hslot : rx.slotOf hkdf d.epochId = some (.fresh (rx.keys.rxPeekNext hkdf)) := by
        rw [DatagramRx.slotOf, if_neg hcurrent, hfilter]
        exact if_pos hnext
      rw [if_pos hnext, (h _ hslot).openSlot]
      exact ⟨_, rfl⟩
    · rw [if_neg hnext]
      exact ⟨_, rfl⟩
  · have hslot : rx.slotOf hkdf d.epochId = some previous := by
      rw [DatagramRx.slotOf, if_neg hcurrent, hfilter]
    obtain ⟨hprevious, -⟩ := Option.filter_eq_some_iff.mp hfilter
    have hopen := (h _ hslot).openSlot "Datagram AEAD open failed (previous epoch)"
    rw [Exec.zoom, hopen, ← hprevious]
    exact ⟨_, rfl⟩

/-! ### Among others -/

/-- **Rejected datagrams change nothing.** One leaves every receiver as it was; and any number of
them, put anywhere among other datagrams, changes neither the results of those nor the state
reached. -/
theorem rejected_datagrams (A : ChaCha20Poly1305) (hkdf : HkdfSha256) (rx : DatagramRx) :
    (∀ d : Datagram, rx.Rejects A hkdf d → ∃ e, d.deliver A hkdf rx = (.err e, rx)) ∧
    ∀ arrivals, MarkedRejected A hkdf arrivals rx →
      (deliverAll A hkdf arrivals rx).1.filter (!·.1)
          = (deliverAll A hkdf (arrivals.filter (!·.1)) rx).1 ∧
        (deliverAll A hkdf arrivals rx).2 = (deliverAll A hkdf (arrivals.filter (!·.1)) rx).2 := by
  refine ⟨fun d h ↦ h.deliver, fun arrivals h ↦ ?_⟩
  induction arrivals generalizing rx with
  | nil => exact ⟨rfl, rfl⟩
  | cons arrival arrivals ih =>
    obtain ⟨mark, d⟩ := arrival
    obtain ⟨hmark, hrest⟩ := h
    cases mark with
    | true =>
      obtain ⟨e, he⟩ := (hmark rfl).deliver
      rw [he] at hrest
      rw [deliverAll, he]
      exact ih rx hrest
    | false =>
      obtain ⟨hresults, hstate⟩ := ih (d.deliver A hkdf rx).2 hrest
      exact ⟨congrArg ((false, (d.deliver A hkdf rx).1) :: ·) hresults, hstate⟩

/-- A forgery that claims the next epoch does not move the ratchet. -/
theorem rejected_datagrams_next_epoch :
    ∃ e, Datagram.deliver .clear .repeating ⟨1, 0, 16, [1, 2, 3], []⟩
        (.new .repeating (.deriveFromRoot .repeating (ByteArr.zero 32) true))
      = (.err e, .new .repeating (.deriveFromRoot .repeating (ByteArr.zero 32) true)) := by
  refine (rejected_datagrams .clear .repeating _).1 _ fun slot hslot ↦ ?_
  obtain rfl : EpochSlot.fresh _ = slot := Option.some.inj hslot
  exact .aead (c := 0) (by decide) rfl
