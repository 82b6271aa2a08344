import Nrxp.Datagram.Channel

/-!
# Delivery over the datagram leg

What a channel delivers, however its network loses, delays, reorders and repeats.

* `datagram_completeness` — which datagrams are sure to open, in any state such a network leads to;
* `datagram_survival` — what it takes for all deliveries to succeed when nothing overtakes anything.

The sender moves to the next epoch by its own count and the receiver by what it opens, one epoch at
a time: a loss that spans a whole epoch cannot be made up for (`datagram_lost_epoch`).

That datagrams open under the keys of their own epoch only, where they are tried under others, is
`Channel.RunApart`. It holds by itself of a receiver that keeps up (`RunApart.of_isChain`) and in
runs of fewer than 255 epochs (`RunApart.of_few`); beyond them it has to be assumed
(`datagram_label_repeats`).
-/

/-- The deliveries come in the order of sealing, each datagram at most once. -/
def InOrder (deliveries : List Delivery) : Prop :=
  (deliveries.map (·.datagram.number)).Pairwise (· < ·)

/-- No delivery is two epochs or more above the one before it, or above epoch 0 if it is the
first. -/
def NoneSkipped (deliveries : List Delivery) : Prop :=
  (0 :: deliveries.map (·.datagram.epoch)).IsChain fun e e' ↦ e' ≤ e + 1

theorem inOrder_append_left {deliveries deliveries' : List Delivery}
    (h : InOrder (deliveries ++ deliveries')) : InOrder deliveries := by
  rw [InOrder, List.map_append] at h
  exact (List.pairwise_append.mp h).1

theorem noneSkipped_append_left {deliveries deliveries' : List Delivery}
    (h : NoneSkipped (deliveries ++ deliveries')) : NoneSkipped deliveries := by
  rw [NoneSkipped, List.map_append, ← List.cons_append] at h
  exact (List.isChain_append.mp h).1

/-- All deliveries open, to the frames that were sealed. -/
def AllDelivered (deliveries : List Delivery) : Prop :=
  ∀ d ∈ deliveries, ∃ f, d.result = .ok f ∧ f.item = d.datagram.item

namespace Channel

variable {A : ChaCha20Poly1305} {hkdf : HkdfSha256} {root : ByteArr 32} {isInitiator : Bool}
  {chain0 : ByteArr 32} {ch : Channel} {deliveries : List Delivery} {F : EpochFilter}

/-! ### In order -/

/-- The numbers of two datagrams, one sealed after the other. -/
theorem Sealed.before (hsealed : ch.Sealed A hkdf chain0) {s s' : SentDatagram}
    (hs : ch.sent[s.number]? = some s) (hs' : ch.sent[s'.number]? = some s')
    (hlt : s.number < s'.number) :
    EpochFilter.Before (s.epoch, s.sealed.counter.toNat) (s'.epoch, s'.sealed.counter.toNat) := by
  have hat := hsealed.sent _ _ hs
  have hat' := hsealed.sent _ _ hs'
  rw [hat.epoch, hat'.epoch, hat.counter, hat'.counter, toNat_counterOf, toNat_counterOf]
  exact before_of_lt hlt

theorem Received.before (h : ch.Received hkdf chain0 deliveries F)
    (hsealed : ch.Sealed A hkdf chain0) (hinOrder : InOrder deliveries) :
    ((deliveries.map Delivery.offer).map Prod.fst).Pairwise EpochFilter.Before := by
  rw [List.map_map, List.pairwise_map]
  rw [InOrder, List.pairwise_map] at hinOrder
  exact hinOrder.imp_of_mem fun hd hd' hlt ↦ hsealed.before (h.sent _ hd) (h.sent _ hd') hlt

/-- In order, all deliveries open if no whole epoch is lost between two of them. -/
theorem Received.allDelivered_iff (h : ch.Received hkdf chain0 deliveries F)
    (hsealed : ch.Sealed A hkdf chain0) (hinOrder : InOrder deliveries) :
    AllDelivered deliveries ↔ NoneSkipped deliveries := by
  have hiff := h.runs.forall_taken_iff (h.before hsealed hinOrder)
  rw [List.map_map, List.forall_mem_map] at hiff
  exact (forall₂_congr fun d hd ↦ (h.opened_iff hd).symm).trans hiff

/-- In order and with no epoch skipped, the receiver keeps up with the sender: it listens to the
epoch of the next datagram. -/
theorem Received.listens (h : ch.Received hkdf chain0 deliveries F)
    (hsealed : ch.Sealed A hkdf chain0) {d : Delivery}
    (hsent : ch.sent[d.datagram.number]? = some d.datagram) (hinOrder : InOrder (deliveries ++ [d]))
    (hchain : NoneSkipped (deliveries ++ [d])) : F.Listens d.datagram.epoch := by
  have hbefore := h.before hsealed (inOrder_append_left hinOrder)
  have hpast := noneSkipped_append_left hchain
  rw [InOrder, List.map_append] at hinOrder
  rw [NoneSkipped, List.map_append, ← List.cons_append] at hchain
  obtain ⟨-, -, hlater⟩ := List.pairwise_append.mp hinOrder
  obtain ⟨-, -, hjoin⟩ := List.isChain_append.mp hchain
  -- all that came before was taken, so that the filter is in the epoch of the last delivery
  obtain ⟨hiff, hepoch⟩ := h.runs.inOrder hbefore
  have hmap : (deliveries.map Delivery.offer).map (·.1.1) = deliveries.map (·.datagram.epoch) :=
    List.map_map
  rw [hmap] at hiff hepoch
  obtain ⟨hle, -⟩ := h.runs.takes_iff (t := d.datagram.epoch)
    (c := d.datagram.sealed.counter.toNat) fun x hx ↦ by
      obtain ⟨d', hd', rfl⟩ := List.mem_map.mp hx
      exact hsealed.before (h.sent d' hd') hsent
        (hlater _ (List.mem_map_of_mem hd') _ List.mem_cons_self)
  exact ⟨hjoin _ (hepoch (hiff.mpr hpast)) _ rfl, hle.trans (Nat.le_succ _)⟩

/-- Then no datagram is tried under any keys but its own. -/
theorem RunApart.of_isChain (hA : A.IsCorrect) {events : List ChannelEvent}
    (hwell : ∀ event ∈ events, event.WellFormed)
    (hinOrder : InOrder ((new hkdf root isInitiator).run A hkdf events).1)
    (hchain : NoneSkipped ((new hkdf root isInitiator).run A hkdf events).1) :
    (new hkdf root isInitiator).RunApart A hkdf (txChain0 hkdf root isInitiator) events := by
  induction events using List.reverseRecOn with
  | nil =>
    intro past i wireBits hpast
    simp at hpast
  | append_singleton events event ih =>
    have hwell' : ∀ e ∈ events, e.WellFormed := fun e he ↦ hwell e (List.mem_append_left _ he)
    have hsealed := (Sealed.of_run hA hkdf root isInitiator hwell').1
    rw [run_concat] at hinOrder hchain
    have hapart := ih hwell' (inOrder_append_left hinOrder) (noneSkipped_append_left hchain)
    refine runApart_concat.mpr ⟨hapart, ?_⟩
    rintro i wireBits rfl s hs
    obtain ⟨F, h⟩ := Received.of_run hA hwell' hapart
    obtain ⟨result, hstep⟩ : ∃ result, (((new hkdf root isInitiator).run A hkdf events).2.step A
        hkdf (.deliver i wireBits)).1.toList = [⟨s, result⟩] := by
      rw [step, hs]
      exact ⟨_, rfl⟩
    rw [hstep] at hinOrder hchain
    have hsent : ((new hkdf root isInitiator).run A hkdf events).2.sent[s.number]? = some s := by
      rw [(hsealed.sent i s hs).number, hs]
    exact Apart.of_listens h.rx hsealed hs (h.listens hsealed hsent hinOrder hchain)

/-- What survives, whatever the derivation. -/
theorem allDelivered_of_noneSkipped (hA : A.IsCorrect) {events : List ChannelEvent}
    (hwell : ∀ event ∈ events, event.WellFormed)
    (hinOrder : InOrder ((new hkdf root isInitiator).run A hkdf events).1)
    (hchain : NoneSkipped ((new hkdf root isInitiator).run A hkdf events).1) :
    AllDelivered ((new hkdf root isInitiator).run A hkdf events).1 := by
  obtain ⟨F, h⟩ := Received.of_run hA hwell (.of_isChain hA hwell hinOrder hchain)
  have hsealed := (Sealed.of_run hA hkdf root isInitiator hwell).1
  exact (h.allDelivered_iff hsealed hinOrder).mpr hchain

/-- Nothing else does. -/
theorem noneSkipped_of_opened (hA : A.IsCorrect) {events : List ChannelEvent}
    (hwell : ∀ event ∈ events, event.WellFormed)
    (hapart : (new hkdf root isInitiator).RunApart A hkdf (txChain0 hkdf root isInitiator) events)
    (hinOrder : InOrder ((new hkdf root isInitiator).run A hkdf events).1)
    (hopened : ∀ d ∈ ((new hkdf root isInitiator).run A hkdf events).1, ∃ f, d.result = .ok f) :
    NoneSkipped ((new hkdf root isInitiator).run A hkdf events).1 := by
  obtain ⟨F, h⟩ := Received.of_run hA hwell hapart
  have hsealed := (Sealed.of_run hA hkdf root isInitiator hwell).1
  refine (h.allDelivered_iff hsealed hinOrder).mp fun d hd ↦ ?_
  obtain ⟨f, hf⟩ := hopened d hd
  exact ⟨f, hf, h.item d hd f hf⟩

/-! ### Fewer than 255 epochs -/

/-- As long as no label repeats, no datagram is tried under any keys but its own. -/
theorem RunApart.of_few (hA : A.IsCorrect) {events : List ChannelEvent}
    (hwell : ∀ event ∈ events, event.WellFormed)
    (hfew : epochOf (events.countP ChannelEvent.isSend) < 255) :
    (new hkdf root isInitiator).RunApart A hkdf (txChain0 hkdf root isInitiator) events := by
  induction events using List.reverseRecOn with
  | nil =>
    intro past i wireBits hpast
    simp at hpast
  | append_singleton events event ih =>
    have hwell' : ∀ e ∈ events, e.WellFormed := fun e he ↦ hwell e (List.mem_append_left _ he)
    have hfew' : epochOf (events.countP ChannelEvent.isSend) < 255 := by
      rw [List.countP_append] at hfew
      exact (epochOf_mono (Nat.le_add_right _ _)).trans_lt hfew
    obtain ⟨hsealed, hlen⟩ := Sealed.of_run hA hkdf root isInitiator hwell'
    have hapart := ih hwell' hfew'
    refine runApart_concat.mpr ⟨hapart, ?_⟩
    rintro i wireBits - s hs t hle - hlabel hne
    obtain ⟨F, h⟩ := Received.of_run hA hwell' hapart
    have hat := hsealed.sent i s hs
    have hsteps := hsealed.steps
    rw [hlen] at hsteps
    have hsender := hsteps.trans_le (epochOf_mono (Nat.sub_le _ _))
    have hepoch := hsealed.epoch_le hs
    have hreceiver := h.epoch_le
    rw [h.rx.keys, KeyRatchet.after_steps] at hle
    rw [hat.epochId, ← hat.epoch] at hlabel
    rcases Nat.lt_or_gt_of_ne hne with hlt | hgt
    · exact absurd hlabel.symm (epochLabel_ne hlt (by omega))
    · exact absurd hlabel (epochLabel_ne hgt (by omega))

end Channel

/-! ### Sample runs -/

namespace Channel

variable {A : ChaCha20Poly1305}

/-- While only the sender is at work, the receiver waits. -/
theorem run_sends (A : ChaCha20Poly1305) (hkdf : HkdfSha256) (ch : Channel)
    {events : List ChannelEvent} (h : ∀ event ∈ events, event.isSend = true) :
    (ch.run A hkdf events).1 = [] ∧ (ch.run A hkdf events).2.rx = ch.rx := by
  induction events using List.reverseRecOn with
  | nil => exact ⟨rfl, rfl⟩
  | append_singleton events event ih =>
    obtain ⟨hdeliveries, hrx⟩ := ih fun e he ↦ h e (List.mem_append_left _ he)
    have hsend := h event (List.mem_append_right _ (List.mem_singleton_self _))
    rw [run_concat, hdeliveries, ← hrx]
    cases event with
    | send item aad =>
      rw [step]
      split <;> exact ⟨rfl, rfl⟩
    | deliver i wireBits => cases hsend

/-- A datagram that was sealed can be delivered: the `i`-th, of the `i`-th frame. -/
theorem exists_delivery (hA : A.IsCorrect) (hkdf : HkdfSha256) (root : ByteArr 32)
    (isInitiator : Bool) {events : List ChannelEvent}
    (hwell : ∀ event ∈ events, event.WellFormed) (i wireBits : ℕ)
    (hi : i < events.countP ChannelEvent.isSend) :
    ∃ d, ((new hkdf root isInitiator).run A hkdf (events ++ [.deliver i wireBits])).1
        = ((new hkdf root isInitiator).run A hkdf events).1 ++ [d] ∧
      SentDatagram.At A hkdf (txChain0 hkdf root isInitiator) i d.datagram ∧
      (events.filterMap ChannelEvent.item?)[i]? = some d.datagram.item := by
  obtain ⟨h, hlen⟩ := Sealed.of_run hA hkdf root isInitiator hwell
  obtain ⟨s, hs⟩ : ∃ s, ((new hkdf root isInitiator).run A hkdf events).2.sent[i]? = some s :=
    ⟨_, List.getElem?_eq_getElem (hlen ▸ hi)⟩
  rw [← sent_items hA hkdf root isInitiator hwell, List.getElem?_map, hs, run_concat, step, hs]
  exact ⟨⟨s, _⟩, rfl, h.sent i s hs, rfl⟩

end Channel

namespace SampleChannel

def item : Item := ⟨9, .udpData, [1, 2, 3]⟩

/-- A sender at work. -/
def burst (n : ℕ) : List ChannelEvent := List.replicate n (.send item [7])

/-- Two datagrams, and the second arrives. -/
def overtaken : List ChannelEvent := burst 2 ++ [.deliver 1 15]

/-- The last of `n + 1` datagrams arrives. -/
def lastOf (n : ℕ) : List ChannelEvent := burst (n + 1) ++ [.deliver n 32]

theorem wellFormed_burst (n : ℕ) : ∀ event ∈ burst n, event.WellFormed := fun event hevent ↦ by
  rw [List.eq_of_mem_replicate hevent]
  show item.payload.length ≤ 65535
  decide

@[simp] theorem countP_burst (n : ℕ) : (burst n).countP ChannelEvent.isSend = n := by
  simp [burst, List.countP_replicate, ChannelEvent.isSend]

theorem isSend_burst (n : ℕ) : ∀ event ∈ burst n, event.isSend = true := fun event hevent ↦ by
  rw [List.eq_of_mem_replicate hevent]
  rfl

/-- One arrival more. -/
theorem wellFormed_concat {events : List ChannelEvent}
    (hwell : ∀ event ∈ events, event.WellFormed) (i : ℕ) {wireBits : ℕ} (hb : 15 ≤ wireBits)
    (hb' : wireBits ≤ 63) : ∀ event ∈ events ++ [.deliver i wireBits], event.WellFormed :=
  List.forall_mem_append.mpr ⟨hwell, List.forall_mem_singleton.mpr ⟨hb, hb'⟩⟩

/-- A root of zeros, and the derivation that repeats one byte. -/
def channel : Channel := .new .repeating (ByteArr.zero 32) true

theorem runApart {events : List ChannelEvent} (hwell : ∀ event ∈ events, event.WellFormed)
    (hfew : epochOf (events.countP ChannelEvent.isSend) < 255) :
    channel.RunApart .clear .repeating (txChain0 .repeating (ByteArr.zero 32) true) events :=
  Channel.RunApart.of_few ChaCha20Poly1305.clear_isCorrect hwell hfew

end SampleChannel

/-! ### Completeness -/

/-- After a run the leg is complete: a datagram opens to the frame that was sealed if its epoch is
the receiver's, the one before or the one after, if it was not opened before, and if its counter is
less than 1024 behind those opened in its epoch. -/
def Channel.CompleteAfter (A : ChaCha20Poly1305) (hkdf : HkdfSha256) (ch : Channel)
    (events : List ChannelEvent) : Prop :=
  let run := ch.run A hkdf events
  ∀ s ∈ run.2.sent, ∀ wireBits, 15 ≤ wireBits → wireBits ≤ 63 →
    s.epoch ≤ run.2.rx.keys.rx.steps + 1 → run.2.rx.keys.rx.steps ≤ s.epoch + 1 →
    (∀ d ∈ run.1, d.opened = true → d.datagram.number ≠ s.number) →
    (∀ d ∈ run.1, d.opened = true → d.datagram.epoch = s.epoch →
      d.datagram.sealed.counter.toNat < s.sealed.counter.toNat + 1024) →
    ∃ f rx', f.item = s.item ∧
      run.2.rx.open A hkdf s.sealed.epochId (truncateCounter s.sealed.counter wireBits) wireBits
        s.sealed.ciphertext s.aad = (.ok f, rx')

/-- The filter takes a datagram of an epoch listened to that was not opened before, and whose
counter is less than 1024 behind those opened in its epoch. -/
theorem Channel.Received.takes {A : ChaCha20Poly1305} {hkdf : HkdfSha256} {chain0 : ByteArr 32}
    {ch : Channel} {deliveries : List Delivery} {F : EpochFilter}
    (h : ch.Received hkdf chain0 deliveries F) (hsealed : ch.Sealed A hkdf chain0) {i : ℕ}
    {s : SentDatagram} (hs : ch.sent[i]? = some s) (hlistens : F.Listens s.epoch)
    (hnew : ∀ d ∈ deliveries, d.opened = true → d.datagram.number ≠ s.number)
    (hnear : ∀ d ∈ deliveries, d.opened = true → d.datagram.epoch = s.epoch →
      d.datagram.sealed.counter.toNat < s.sealed.counter.toNat + 1024) :
    F.Takes 1024 s.epoch s.sealed.counter.toNat := by
  have hat := hsealed.sent i s hs
  refine ⟨hlistens, fun hc ↦ ?_, fun c hc ↦ ?_⟩
  · -- what was taken under this number is this datagram
    obtain ⟨d, hd, hoffer⟩ := List.mem_map.mp (h.runs.mem_seen.mp hc)
    have hat' := hsealed.sent _ _ (h.sent d hd)
    refine hnew d hd (congrArg Prod.snd hoffer) ?_
    rw [hat.number]
    refine eq_of_epochOf_counterOf ?_ ?_
    · rw [← hat'.epoch, ← hat.epoch]
      exact congrArg (·.1.1) hoffer
    · rw [← toNat_counterOf, ← toNat_counterOf i, ← hat'.counter, ← hat.counter]
      exact congrArg (·.1.2) hoffer
  · obtain ⟨d, hd, hoffer⟩ := List.mem_map.mp (h.runs.mem_seen.mp hc)
    have hcounter : d.datagram.sealed.counter.toNat = c := congrArg (·.1.2) hoffer
    rw [← hcounter]
    exact hnear d hd (congrArg Prod.snd hoffer) (congrArg (·.1.1) hoffer)

/-- **Completeness of the datagram leg.** Seal any frames and deliver the datagrams in any order,
over and over. If none of them opens where it is tried under the keys of another epoch, the leg is
complete in the state reached. -/
theorem datagram_completeness (A : ChaCha20Poly1305) (hA : A.IsCorrect) (hkdf : HkdfSha256)
    (root : ByteArr 32) (isInitiator : Bool) (events : List ChannelEvent)
    (hwell : ∀ event ∈ events, event.WellFormed)
    (hapart : (Channel.new hkdf root isInitiator).RunApart A hkdf (txChain0 hkdf root isInitiator)
      events) :
    (Channel.new hkdf root isInitiator).CompleteAfter A hkdf events := by
  obtain ⟨F, h⟩ := Channel.Received.of_run hA hwell hapart
  have hsealed := (Channel.Sealed.of_run hA hkdf root isInitiator hwell).1
  intro s hs wireBits hb hb' hle hle' hnew hnear
  have hlistens : F.Listens s.epoch := (Channel.listens_iff h.rx s.epoch).mpr ⟨hle, hle'⟩
  obtain ⟨i, hi⟩ := List.mem_iff_getElem?.mp hs
  have htakes := h.takes hsealed hi hlistens hnew hnear
  rcases hsealed.open_sent hA h.rx hi (.of_listens h.rx hsealed hi hlistens) hb hb' with
    ⟨-, f, rx', hitem, hopen, -⟩ | ⟨hno, -⟩
  · exact ⟨f, rx', hitem, hopen⟩
  · exact absurd htakes hno

/-- A datagram that was overtaken by the next one still opens. -/
theorem datagram_completeness_overtaken :
    let run := SampleChannel.channel.run .clear .repeating SampleChannel.overtaken
    run.2.sent.length = 2 ∧ ∀ s ∈ run.2.sent, s.number = 0 →
      ∃ f rx', f.item = s.item ∧
        run.2.rx.open .clear .repeating s.sealed.epochId (truncateCounter s.sealed.counter 16) 16
          s.sealed.ciphertext s.aad = (.ok f, rx') := by
  intro run
  have hwell : ∀ event ∈ SampleChannel.overtaken, event.WellFormed :=
    SampleChannel.wellFormed_concat (SampleChannel.wellFormed_burst 2) 1 (by decide) (by decide)
  have hstate : run.2.sent.length = 2 ∧ ∀ s ∈ run.2.sent, s.number = 0 →
      s.epoch ≤ run.2.rx.keys.rx.steps + 1 ∧ run.2.rx.keys.rx.steps ≤ s.epoch + 1 ∧
      (∀ d ∈ run.1, d.opened = true → d.datagram.number ≠ s.number) ∧
      ∀ d ∈ run.1, d.opened = true → d.datagram.epoch = s.epoch →
        d.datagram.sealed.counter.toNat < s.sealed.counter.toNat + 1024 := by decide +kernel
  refine ⟨hstate.1, fun s hs hnumber ↦ ?_⟩
  obtain ⟨hle, hle', hnew, hnear⟩ := hstate.2 s hs hnumber
  exact datagram_completeness .clear ChaCha20Poly1305.clear_isCorrect .repeating (ByteArr.zero 32)
    true SampleChannel.overtaken hwell (SampleChannel.runApart hwell (by decide)) s hs 16
    (by decide) (by decide) hle hle' hnew hnear

/-- A derivation that gives all epochs one key. -/
def HkdfSha256.zeros : HkdfSha256 := ⟨fun _ _ ↦ ByteArr.zero 32, fun _ _ n ↦ ByteArr.zero n⟩

/-- With one key for all epochs, the last of `n + 1` datagrams is opened as one of epoch 0 if its
label says so. -/
theorem exists_opened_lastOf {A : ChaCha20Poly1305} (hA : A.IsCorrect) (root : ByteArr 32)
    (isInitiator : Bool) {n : ℕ} (hlabel : UInt8.ofNat (epochOf n) = UInt8.ofNat 0) :
    let run := (Channel.new .zeros root isInitiator).run A .zeros (SampleChannel.lastOf n)
    (∃ s f, run.1 = [⟨s, .ok f⟩] ∧ s.number = n ∧ s.epoch = epochOf n) ∧
      run.2.rx.Represents .zeros (txChain0 .zeros root isInitiator)
        (EpochFilter.fresh.take 0 (counterOf n)) := by
  obtain ⟨hsealed, hlen⟩ := Channel.Sealed.of_run hA .zeros root isInitiator
    (SampleChannel.wellFormed_burst (n + 1))
  obtain ⟨hnone, hrx⟩ := Channel.run_sends A .zeros (.new .zeros root isInitiator)
    (SampleChannel.isSend_burst (n + 1))
  rw [SampleChannel.lastOf, Channel.run_concat, hnone]
  generalize ((Channel.new .zeros root isInitiator).run A .zeros
    (SampleChannel.burst (n + 1))).2 = ch at hsealed hlen hrx ⊢
  rw [SampleChannel.countP_burst] at hlen
  obtain ⟨s, hs⟩ : ∃ s, ch.sent[n]? = some s := ⟨_, List.getElem?_eq_getElem (by omega)⟩
  have hat := hsealed.sent n s hs
  have hfresh : ch.rx.Represents .zeros (txChain0 .zeros root isInitiator) .fresh := by
    rw [hrx]
    exact (Channel.Received.start .zeros root isInitiator).rx
  -- the keys of epoch 0 are those of its own epoch
  have hopen : openAs A .zeros (txChain0 .zeros root isInitiator) 0 s.sealed.counter s.aad
      s.sealed.ciphertext
        = some (DatagramTx.plaintext s.item.streamId s.item.frameType s.item.payload) :=
    hsealed.openAs_sent hA hs
  have hlistens : EpochFilter.fresh.Listens 0 := ⟨Nat.zero_le _, Nat.zero_le _⟩
  have hnames : s.sealed.epochId = UInt8.ofNat 0 := hat.epochId.trans hlabel
  rcases hsealed.open_cases hfresh hs (show 15 ≤ 32 by decide) (by decide) with
    ⟨t, p, rx', hnames', hp, htakes, hrun, hrepresents⟩ | ⟨-, hno⟩
  · obtain rfl : t = 0 := htakes.1.eq_of_label hlistens (hnames'.symm.trans hnames)
    cases hp.symm.trans hopen
    obtain ⟨f, hparse, -⟩ := DatagramRx.parsePlaintext_plaintext s.item hat.payload
    rw [hparse] at hrun
    rw [hat.counter, toNat_counterOf] at hrepresents
    simp only [Channel.step, hs, hrun]
    exact ⟨⟨s, f, rfl, hat.number, hat.epoch⟩, hrepresents⟩
  · exact absurd ⟨hlistens, fun h ↦ h.elim, fun _ h ↦ h.elim⟩ (hno 0 _ hnames hopen)

/-- The datagram of epoch 0 with the same counter is then a replay. -/
theorem not_completeAfter_lastOf {A : ChaCha20Poly1305} (hA : A.IsCorrect) (root : ByteArr 32)
    (isInitiator : Bool) {n : ℕ} (hlabel : UInt8.ofNat (epochOf n) = UInt8.ofNat 0)
    (hcounter : counterOf n = 0) (hpos : 0 < epochOf n) :
    ¬(Channel.new .zeros root isInitiator).CompleteAfter A .zeros (SampleChannel.lastOf n) := by
  intro hcomplete
  have hwell : ∀ event ∈ SampleChannel.lastOf n, event.WellFormed :=
    SampleChannel.wellFormed_concat (SampleChannel.wellFormed_burst (n + 1)) n (by decide)
      (by decide)
  obtain ⟨hsealed, hlen⟩ := Channel.Sealed.of_run hA .zeros root isInitiator hwell
  obtain ⟨⟨s, f, hdeliveries, hnumber, hepoch⟩, hrx⟩ :=
    exists_opened_lastOf hA root isInitiator hlabel
  rw [Channel.CompleteAfter, hdeliveries] at hcomplete
  generalize ((Channel.new .zeros root isInitiator).run A .zeros
    (SampleChannel.lastOf n)).2 = ch at hsealed hlen hrx hcomplete
  obtain ⟨s₀, hs₀⟩ : ∃ s, ch.sent[0]? = some s :=
    ⟨_, List.getElem?_eq_getElem (by simp [hlen, SampleChannel.lastOf, ChannelEvent.isSend])⟩
  have hat₀ := hsealed.sent 0 s₀ hs₀
  have hepoch₀ : s₀.epoch = 0 := hat₀.epoch
  have hlistens : (EpochFilter.fresh.take 0 (counterOf n)).Listens s₀.epoch := by
    rw [hepoch₀]
    exact ⟨Nat.zero_le _, Nat.zero_le _⟩
  obtain ⟨hle, hle'⟩ := (Channel.listens_iff hrx s₀.epoch).mp hlistens
  have hpos' : n ≠ 0 := by
    rintro rfl
    exact absurd hpos (by decide)
  obtain ⟨f', rx', -, hopen⟩ := hcomplete s₀ (List.mem_of_getElem? hs₀) 32 (by decide) (by decide)
    hle hle'
    (List.forall_mem_singleton.mpr fun _ ↦ by
      rw [hnumber, hat₀.number]
      exact hpos')
    (List.forall_mem_singleton.mpr fun _ heq ↦ by
      rw [hepoch, hepoch₀] at heq
      exact absurd heq hpos.ne')
  rcases hsealed.open_sent hA hrx hs₀ (.of_listens hrx hsealed hs₀ hlistens)
      (show 15 ≤ 32 by decide) (by decide) with ⟨htakes, -⟩ | ⟨-, e, hrefused⟩
  · refine htakes.not_mem ?_
    rw [hepoch₀, EpochFilter.take_seen_self, hat₀.counter, toNat_counterOf, hcounter]
    exact Set.mem_insert _ _
  · cases hopen.symm.trans hrefused

/-- **Labels repeat after 256 epochs.** The derivation is a function and the cipher is correct, but
all epochs have one key. Of `2 ^ 22 + 1` datagrams the last one, of epoch 256, arrives first. Its
label is 0, and it opens as the first datagram of epoch 0, which is refused from then on. -/
theorem datagram_label_repeats :
    ChaCha20Poly1305.clear.IsCorrect ∧
      (∀ event ∈ SampleChannel.lastOf (2 ^ 22), event.WellFormed) ∧
      ¬(Channel.new .zeros (ByteArr.zero 32) true).CompleteAfter .clear .zeros
        (SampleChannel.lastOf (2 ^ 22)) :=
  ⟨ChaCha20Poly1305.clear_isCorrect,
    SampleChannel.wellFormed_concat (SampleChannel.wellFormed_burst _) _ (by decide) (by decide),
    not_completeAfter_lastOf ChaCha20Poly1305.clear_isCorrect _ _ (by decide) (by decide)
      (by decide)⟩

/-! ### Survival -/
