import Nrxp.Tls.BlockRoundTrip
import Nrxp.Tls.HelloRoundTrip
import Nrxp.Tls.Shuffle
import Mathlib.Data.List.Nodup

/-!
# What a client hello looks like from outside

Two things a censor can check in a single packet. The types of the extensions are those of the
slots that write something, and slots stand for different types unless the two GREASE values are
equal, which independent draws do not exclude. The size of the payload is the size the slots before
the padding reach, filled up to the target if an extension with one byte or more fits below it.
-/

open ExtensionBuilder

/-! ### Types -/

/-- The order of a profile marks its GREASE extensions with the two slot markers. -/
def BrowserProfile.MarksGrease (profile : BrowserProfile) : Prop :=
  ∀ extId ∈ profile.extensionOrder, TlsExtensions.isGrease extId = true →
    extId = TlsExtensions.greaseSlotFirst ∨ extId = TlsExtensions.greaseSlotLast

/-- Both markers are replaced by the same value. -/
structure GreaseCollides (profile : BrowserProfile) (grease : GreaseSet) : Prop where
  hasGrease : profile.hasGrease = true
  first : TlsExtensions.greaseSlotFirst ∈ profile.extensionOrder
  last : TlsExtensions.greaseSlotLast ∈ profile.extensionOrder
  eq : grease.extFirst = grease.extLast

namespace ExtensionBuilder

variable {profile : BrowserProfile} {grease : GreaseSet} {hostLen : ℕ}

theorem writtenSlots_sublist (profile : BrowserProfile) (hostLen size : ℕ) (order : List UInt16) :
    (writtenSlots profile hostLen size order).Sublist order := by
  induction order generalizing size with
  | nil => exact List.Sublist.refl []
  | cons extId order ih =>
    rw [writtenSlots]
    split
    · exact (ih _).cons_cons extId
    · exact (ih _).cons extId

/-- A slot that always writes is among those that do. -/
theorem mem_writtenSlots {size : ℕ} {order : List UInt16} {extId : UInt16} (hmem : extId ∈ order)
    (hwrite : ∀ size, isWritten profile size extId = true) :
    extId ∈ writtenSlots profile hostLen size order := by
  induction order generalizing size with
  | nil => exact absurd hmem List.not_mem_nil
  | cons extId' order ih =>
    rw [writtenSlots]
    rcases List.mem_cons.mp hmem with rfl | hmem
    · rw [if_pos (hwrite size)]
      exact List.mem_cons_self
    · split
      · exact List.mem_cons_of_mem _ (ih hmem)
      · exact ih hmem

/-- A slot that never writes is not among them. -/
theorem isWritten_of_mem {size : ℕ} {order : List UInt16} {extId : UInt16}
    (hmem : extId ∈ writtenSlots profile hostLen size order) :
    ∃ size, isWritten profile size extId = true := by
  induction order generalizing size with
  | nil => exact absurd hmem List.not_mem_nil
  | cons extId' order ih =>
    rw [writtenSlots] at hmem
    split at hmem
    · next hwrite =>
      rcases List.mem_cons.mp hmem with rfl | hmem
      · exact ⟨size, hwrite⟩
      · exact ih hmem
    · exact ih hmem

/-- A slot is a marker, or stands for its own type, which is no GREASE value. -/
theorem wireType_cases (grease : GreaseSet) (hmarks : profile.MarksGrease) {extId : UInt16}
    (hmem : extId ∈ profile.extensionOrder) :
    (extId = TlsExtensions.greaseSlotFirst ∧ wireType grease extId = grease.extFirst.val) ∨
    (extId = TlsExtensions.greaseSlotLast ∧ wireType grease extId = grease.extLast.val) ∨
    (TlsExtensions.isGrease extId = false ∧ wireType grease extId = extId) := by
  rcases hgrease : TlsExtensions.isGrease extId with _ | _
  · exact .inr (.inr ⟨rfl, (wireType_eq_iff hgrease).mpr rfl⟩)
  · rcases hmarks extId hmem hgrease with rfl | rfl
    · exact .inl ⟨rfl, rfl⟩
    · exact .inr (.inl ⟨rfl, rfl⟩)

/-- Two slots stand for one type only if they are the two markers. -/
theorem eq_or_of_wireType_eq (hmarks : profile.MarksGrease) {a b : UInt16}
    (ha : a ∈ profile.extensionOrder) (hb : b ∈ profile.extensionOrder)
    (h : wireType grease a = wireType grease b) :
    a = b ∨ (TlsExtensions.greaseSlotFirst ∈ [a, b] ∧ TlsExtensions.greaseSlotLast ∈ [a, b] ∧
      grease.extFirst = grease.extLast ∧ wireType grease a = grease.extFirst.val) := by
  rcases wireType_cases grease hmarks ha with ⟨rfl, hta⟩ | ⟨rfl, hta⟩ | ⟨hna, hta⟩ <;>
    rcases wireType_cases grease hmarks hb with ⟨rfl, htb⟩ | ⟨rfl, htb⟩ | ⟨hnb, htb⟩ <;>
    replace h := hta.symm.trans (h.trans htb)
  · exact .inl rfl
  · exact .inr ⟨by simp, by simp, Subtype.ext h, hta⟩
  · -- a drawn value is never the type of a slot that is no marker
    exact absurd h (ne_of_isGrease grease.extFirst.property hnb)
  · exact .inr ⟨by simp, by simp, Subtype.ext h.symm, hta.trans h⟩
  · exact .inl rfl
  · exact absurd h (ne_of_isGrease grease.extLast.property hnb)
  · exact absurd h.symm (ne_of_isGrease grease.extFirst.property hna)
  · exact absurd h.symm (ne_of_isGrease grease.extLast.property hna)
  · exact .inl h

/-- The types of two written slots are different, but for the GREASE ones if these collide. -/
theorem pairwise_wireType (hdistinct : profile.extensionOrder.Nodup)
    (hmarks : profile.MarksGrease) {size : ℕ} {order : List UInt16}
    (hperm : order.Perm profile.extensionOrder) :
    ((writtenSlots profile hostLen size order).map (wireType grease)).Pairwise fun t t' ↦
      t = t' → GreaseCollides profile grease ∧ t = grease.extFirst.val := by
  have hsub := writtenSlots_sublist profile hostLen size order
  have hmem {extId : UInt16} (h : extId ∈ writtenSlots profile hostLen size order) :
      extId ∈ profile.extensionOrder := hperm.mem_iff.mp (hsub.subset h)
  rw [List.pairwise_map]
  refine ((hperm.nodup_iff.mpr hdistinct).sublist hsub).imp_of_mem fun {a b} ha hb hne heq ↦ ?_
  rcases eq_or_of_wireType_eq hmarks (hmem ha) (hmem hb) heq with rfl | ⟨hf, hl, hcollide, htype⟩
  · exact absurd rfl hne
  · have hboth {extId : UInt16} (h : extId ∈ [a, b]) :
        extId ∈ writtenSlots profile hostLen size order := by
      rcases List.mem_pair.mp h with rfl | rfl
      · exact ha
      · exact hb
    -- the marker was written, so the profile has GREASE
    obtain ⟨size, hwrite⟩ := isWritten_of_mem (hboth hf)
    exact ⟨⟨hwrite, hmem (hboth hf), hmem (hboth hl), hcollide⟩, htype⟩

/-- The types are distinct exactly when the GREASE values do not collide. -/
theorem nodup_wireType_iff (hdistinct : profile.extensionOrder.Nodup)
    (hmarks : profile.MarksGrease) {size : ℕ} {order : List UInt16}
    (hperm : order.Perm profile.extensionOrder) :
    ((writtenSlots profile hostLen size order).map (wireType grease)).Nodup ↔
      ¬GreaseCollides profile grease := by
  constructor
  · intro hnodup hcollides
    have hwrite (extId : UInt16) (h : ∀ size, isWritten profile size extId = profile.hasGrease) :
        ∀ size, isWritten profile size extId = true := fun size ↦ (h size).trans hcollides.hasGrease
    have hfirst : TlsExtensions.greaseSlotFirst ∈ writtenSlots profile hostLen size order :=
      mem_writtenSlots (hperm.mem_iff.mpr hcollides.first) (hwrite _ fun _ ↦ rfl)
    have hlast : TlsExtensions.greaseSlotLast ∈ writtenSlots profile hostLen size order :=
      mem_writtenSlots (hperm.mem_iff.mpr hcollides.last) (hwrite _ fun _ ↦ rfl)
    have heq := List.inj_on_of_nodup_map hnodup hfirst hlast (congrArg Subtype.val hcollides.eq)
    exact absurd heq (by decide)
  · intro hcollides
    refine (pairwise_wireType hdistinct hmarks hperm).imp fun {t t'} h heq ↦ ?_
    exact hcollides (h heq).1

end ExtensionBuilder

/-- **No two extensions of a client hello are of one type**, unless both markers are written and the
two draws are equal; then these two are, and no others. -/
theorem extensionTypes_nodup_iff {profile : BrowserProfile}
    (hdistinct : profile.extensionOrder.Nodup) (hmarks : profile.MarksGrease) (host : String)
    (key : ByteArr 32) (overhead : ℕ) (grease : GreaseSet) (rng : OsRng) :
    let payload := ((withGrease grease).applyProfile profile host key.val overhead rng).1.payload
    ∃ es : List Tlv.Entry,
      payload = Tlv.encode es ∧
      ((∀ e ∈ es, e.Fits) → ExtensionStack.parse payload = (.ok (some (.ofEntries es)), [])) ∧
      es.map Tlv.Entry.tag
        = (writtenSlots profile (utf8 host).length overhead (drawnOrder profile rng)).map
            (wireType grease) ∧
      ((es.map Tlv.Entry.tag).Nodup ↔ ¬GreaseCollides profile grease) ∧
      (es.map Tlv.Entry.tag).Pairwise fun t t' ↦ t = t' → t = grease.extFirst.val := by
  obtain ⟨es, hblock, hrun⟩ := withGrease_block profile host key overhead grease rng
  have hperm := drawnOrder_perm profile rng
  refine ⟨es, hrun, fun hfits ↦ ?_, hblock.map_tag, ?_, ?_⟩
  · rw [hrun]
    exact ExtensionStack.parse_encode hfits
  · rw [hblock.map_tag]
    exact nodup_wireType_iff hdistinct hmarks hperm
  · rw [hblock.map_tag]
    exact (pairwise_wireType hdistinct hmarks hperm).imp fun {t t'} h heq ↦ (h heq).2

theorem BrowserProfile.chrome140_nodup : chrome140.extensionOrder.Nodup := by decide +kernel

theorem BrowserProfile.chrome140_marksGrease : chrome140.MarksGrease := by
  intro extId hmem hgrease
  simp only [chrome140, ExtensionOrder.chrome140, List.mem_cons, List.not_mem_nil, or_false]
    at hmem
  rcases hmem with rfl | rfl | rfl | rfl | rfl | rfl | rfl
  · exact .inl rfl
  all_goals first | exact .inr rfl | exact absurd hgrease (by decide)

/-- The profile in use, with draws that are not equal. -/
theorem extensionTypes_nodup_iff_chrome140 :
    let grease : GreaseSet := ⟨greaseValues[0], greaseValues[1], greaseValues[2], greaseValues[3],
      greaseValues[4]⟩
    let payload := ((withGrease grease).applyProfile .chrome140 "example.com"
      (ByteArr.fill 32 1).val 85 (.repeating 0)).1.payload
    ∃ es : List Tlv.Entry,
      payload = Tlv.encode es ∧
      ((∀ e ∈ es, e.Fits) → ExtensionStack.parse payload = (.ok (some (.ofEntries es)), [])) ∧
      es.map Tlv.Entry.tag
        = (writtenSlots .chrome140 (utf8 "example.com").length 85
            (drawnOrder .chrome140 (.repeating 0))).map (wireType grease) ∧
      ((es.map Tlv.Entry.tag).Nodup ↔ ¬GreaseCollides .chrome140 grease) ∧
      (es.map Tlv.Entry.tag).Pairwise fun t t' ↦ t = t' → t = grease.extFirst.val :=
  extensionTypes_nodup_iff BrowserProfile.chrome140_nodup BrowserProfile.chrome140_marksGrease
    "example.com" _ 85 _ _

/-- With random bytes that pick one value twice, a reader finds two extensions of one type. -/
theorem chrome140_repeats_type :
    let draw := GreaseSet.random (.repeating 0)
    let payload := ((withGrease draw.1).applyProfile .chrome140 "example.com"
      (ByteArr.fill 32 1).val 85 draw.2).1.payload
    BrowserProfile.chrome140.extensionOrder.Nodup ∧ BrowserProfile.chrome140.MarksGrease ∧
      ∃ stack : ExtensionStack, ExtensionStack.parse payload = (.ok (some stack), []) ∧
        ¬(stack.extensions.map Extension.etype).Nodup := by
  intro draw payload
  obtain ⟨es, hblock, hrun⟩ := withGrease_block .chrome140 "example.com" (ByteArr.fill 32 1) 85
    draw.1 draw.2
  have hdistinct := BrowserProfile.chrome140_nodup
  have hmarks := BrowserProfile.chrome140_marksGrease
  refine ⟨hdistinct, hmarks, .ofEntries es, ?_, ?_⟩
  · show ExtensionStack.parse payload = _
    rw [show payload = Tlv.encode es from hrun]
    exact ExtensionStack.parse_encode (hblock.fits .chrome140 (by decide))
  · have hcollides : GreaseCollides .chrome140 draw.1 := ⟨rfl, by decide, by decide, rfl⟩
    rw [ExtensionStack.map_etype_ofEntries, hblock.map_tag,
      nodup_wireType_iff hdistinct hmarks (drawnOrder_perm _ _), not_not]
    exact hcollides

/-! ### Size -/

namespace ExtensionBuilder

theorem getLast?_drawnOrder (profile : BrowserProfile) (rng : OsRng) :
    (drawnOrder profile rng).getLast? = profile.extensionOrder.getLast? := by
  rw [drawnOrder]
  split
  · exact getLast?_shuffleMiddle profile.extensionOrder rng
  · rfl

/-- What a slot adds does not depend on the size so far, but for the padding. -/
theorem sizeWith_eq (profile : BrowserProfile) (hostLen size : ℕ) {extId : UInt16}
    (h : extId ≠ TlsExtensions.padding) :
    sizeWith profile hostLen size extId = size + sizeWith profile hostLen 0 extId := by
  have hwritten : isWritten profile size extId = isWritten profile 0 extId := by
    unfold isWritten
    split <;> first | rfl | contradiction
  have hsize : slotSize profile hostLen size extId = slotSize profile hostLen 0 extId := by
    unfold slotSize
    split <;> first | rfl | contradiction
  rw [sizeWith, sizeWith, hwritten, hsize]
  split <;> omega

theorem sizeAfter_eq_sum (profile : BrowserProfile) (hostLen : ℕ) {order : List UInt16}
    (h : TlsExtensions.padding ∉ order) (size : ℕ) :
    sizeAfter profile hostLen size order
      = size + (order.map (sizeWith profile hostLen 0)).sum := by
  induction order generalizing size with
  | nil => rfl
  | cons extId order ih =>
    have hne : extId ≠ TlsExtensions.padding := Ne.symm (List.ne_of_not_mem_cons h)
    show sizeAfter profile hostLen (sizeWith profile hostLen size extId) order = _
    rw [ih (List.not_mem_of_not_mem_cons h), sizeWith_eq profile hostLen size hne, List.map_cons,
      List.sum_cons, Nat.add_assoc]

end ExtensionBuilder

namespace ClientHello

/-- The size a hello reaches before its last slot. -/
def unpaddedSize (profile : BrowserProfile) (host : String) (rng : OsRng) : ℕ :=
  sizeAfter profile (utf8 host).length (totalOverhead profile)
    (drawnOrder profile (extensionRng rng)).dropLast

/-- Without a second slot for padding it is a matter of the profile and the host only. -/
theorem unpaddedSize_eq {profile : BrowserProfile} {init : List UInt16}
    (horder : profile.extensionOrder = init ++ [TlsExtensions.padding])
    (hpadding : TlsExtensions.padding ∉ init) (host : String) (rng : OsRng) :
    unpaddedSize profile host rng = totalOverhead profile
      + (init.map (sizeWith profile (utf8 host).length 0)).sum := by
  let order := drawnOrder profile (extensionRng rng)
  have hlast : order.getLast? = some TlsExtensions.padding := by
    rw [getLast?_drawnOrder, horder, List.getLast?_concat]
  have hperm : order.dropLast.Perm init := by
    have hwhole : order.Perm profile.extensionOrder := drawnOrder_perm profile (extensionRng rng)
    rw [horder, ← List.dropLast_append_getLast? _ hlast] at hwhole
    exact (List.perm_append_right_iff _).mp hwhole
  rw [unpaddedSize, sizeAfter_eq_sum _ _ (mt hperm.mem_iff.mp hpadding), (hperm.map _).sum_nat]

/-- The payload of a hello whose last slot is for padding is filled up to the target if an extension
with a byte in it fits below. -/
theorem exists_padded {profile : BrowserProfile}
    (hlast : profile.extensionOrder.getLast? = some TlsExtensions.padding) (hmac : HmacSha256)
    (now : UInt64) (host : String) (keys : SessionKeys) (rng : OsRng) :
    ∃ payload : Bytes,
      (makeClientHello hmac now profile host keys rng).1
        = (TlsRecord.new .handshake profile.recordLayerVersion payload).serialize ∧
      payload.length =
        if unpaddedSize profile host rng + 4 < profile.targetPaddingLen.toNat then
          profile.targetPaddingLen.toNat
        else unpaddedSize profile host rng := by
  obtain ⟨hello, -, grease, es, hrecord, -, -, -, -, -, hblock, hlen⟩ :=
    makeClientHello_block hmac now profile host keys rng
  refine ⟨hello.serialize, hrecord, ?_⟩
  have hsplit : (drawnOrder profile (extensionRng rng)).dropLast ++ [TlsExtensions.padding]
      = drawnOrder profile (extensionRng rng) :=
    List.dropLast_append_getLast? _ ((getLast?_drawnOrder profile _).trans hlast)
  rw [hlen, hblock.size_add_length, ← hsplit, sizeAfter, List.foldl_append]
  show sizeWith profile (utf8 host).length (unpaddedSize profile host rng) TlsExtensions.padding = _
  rw [sizeWith]
  show (if decide (unpaddedSize profile host rng + 4 < profile.targetPaddingLen.toNat) = true then
    unpaddedSize profile host rng
      + (profile.targetPaddingLen.toNat - unpaddedSize profile host rng) else _) = _
  simp only [decide_eq_true_eq]
  split <;> omega

end ClientHello

/-- **The padding keeps its promise** unless the hello before it takes 508 to 511 bytes: an empty
extension would fit there, or nothing would. -/
theorem ClientHello.padded_iff {profile : BrowserProfile}
    (hlast : profile.extensionOrder.getLast? = some TlsExtensions.padding)
    (htarget : profile.targetPaddingLen = 512) (hmac : HmacSha256) (now : UInt64) (host : String)
    (keys : SessionKeys) (rng : OsRng) :
    ∃ payload : Bytes,
      (makeClientHello hmac now profile host keys rng).1
        = (TlsRecord.new .handshake profile.recordLayerVersion payload).serialize ∧
      ((512 ≤ payload.length ∧ (unpaddedSize profile host rng + 4 ≤ 512 → payload.length = 512)) ↔
        ¬(508 ≤ unpaddedSize profile host rng ∧ unpaddedSize profile host rng ≤ 511)) := by
  obtain ⟨payload, hrecord, hlen⟩ := exists_padded hlast hmac now host keys rng
  refine ⟨payload, hrecord, ?_⟩
  have h512 : profile.targetPaddingLen.toNat = 512 := by
    rw [htarget]
    rfl
  rw [h512] at hlen
  split at hlen <;> omega

/-- Chrome's profile with a short host, whose hello is padded. -/
theorem ClientHello.padded_iff_chrome131 :
    ∃ payload : Bytes,
      (makeClientHello .sum 0 .chrome131 "example.com" (SessionKeys.new .sum true (.repeating 1)).1
          (.repeating 3)).1
        = (TlsRecord.new .handshake .tls10 payload).serialize ∧
      ((512 ≤ payload.length ∧
          (unpaddedSize .chrome131 "example.com" (.repeating 3) + 4 ≤ 512 →
            payload.length = 512)) ↔
        ¬(508 ≤ unpaddedSize .chrome131 "example.com" (.repeating 3) ∧
          unpaddedSize .chrome131 "example.com" (.repeating 3) ≤ 511)) :=
  @padded_iff .chrome131 rfl rfl .sum 0 "example.com" _ _

/-- A profile with the extensions a browser usually sends, the padding last. -/
def BrowserProfile.usual : BrowserProfile :=
  { chrome131 with
    cipherSuites := [0x1301, 0x1302, 0x1303, 0xc02b, 0xc02f, 0xc02c, 0xc030, 0xcca9, 0xcca8,
      0xc013, 0xc014, 0x009c, 0x009d, 0x002f, 0x0035]
    extensionOrder := [TlsExtensions.greaseSlotFirst, TlsExtensions.sni, TlsExtensions.ems,
      TlsExtensions.renegotiationInfo, TlsExtensions.supportedGroups,
      TlsExtensions.ecPointFormats, TlsExtensions.sessionTicket, TlsExtensions.alpn,
      TlsExtensions.statusRequest, TlsExtensions.signatureAlgorithms, TlsExtensions.sct,
      TlsExtensions.keyShare, TlsExtensions.pskModes, TlsExtensions.supportedVersions,
      TlsExtensions.compressCert, TlsExtensions.ech, TlsExtensions.alps,
      TlsExtensions.greaseSlotLast, TlsExtensions.padding] }

/-- Its hello to a host of 31 bytes takes 508 bytes before the padding, and these are all. -/
theorem ClientHello.usual_not_padded :
    BrowserProfile.usual.extensionOrder.getLast? = some TlsExtensions.padding ∧
    BrowserProfile.usual.targetPaddingLen = 512 ∧
    ∃ payload : Bytes,
      (makeClientHello .sum 0 .usual "download.mirror.example-cdn.org"
          (SessionKeys.new .sum true (.repeating 1)).1 (.repeating 3)).1
        = (TlsRecord.new .handshake .tls10 payload).serialize ∧
      unpaddedSize .usual "download.mirror.example-cdn.org" (.repeating 3) + 4 ≤ 512 ∧
      payload.length = 508 := by
  have hsize : unpaddedSize .usual "download.mirror.example-cdn.org" (.repeating 3) = 508 := by
    have hinit : BrowserProfile.usual.extensionOrder
        = BrowserProfile.usual.extensionOrder.dropLast ++ [TlsExtensions.padding] := rfl
    rw [unpaddedSize_eq hinit (by decide)]
    decide
  obtain ⟨payload, hrecord, hlen⟩ := @exists_padded .usual rfl .sum 0
    "download.mirror.example-cdn.org" (SessionKeys.new .sum true (.repeating 1)).1 (.repeating 3)
  rw [hsize] at hlen ⊢
  exact ⟨rfl, rfl, payload, hrecord, by decide, hlen.trans (by decide)⟩
