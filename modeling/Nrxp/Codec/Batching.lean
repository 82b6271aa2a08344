import Nrxp.Codec.Sent

/-!
# Batches are packed optimally

The groups of frames that `encodeBatch` puts into records are those of the greedy packing, so that
what `Nrxp.Lib.Packing` says of it holds of the wire: the groups are the batch cut into pieces, and
no other way of cutting it needs fewer records.
-/

variable {A : ChaCha20Poly1305}

/-- How a batch ends whose frames are all below a bound: the packed groups are sent, a record
each. -/
theorem TxCodec.encodeBatch_groups {M : ℕ} (hM : maxRecordPlaintext ≤ M) (hmac : HmacSha256)
    (now : UInt64) {items : List Item} (hitems : ∀ item ∈ items, item.wireLen ≤ M) (tx : TxCodec) :
    (∃ rs tx', tx.encodeBatch A hmac now items = (.ok (wireOf rs), tx') ∧
      Sends A tx.crypto rs tx'.crypto ∧
      rs.map Record.items = Packing.pack Item.wireLen maxRecordPlaintext items ∧
      ∀ r ∈ rs, r.plain.length ≤ M) ∨
    (∃ e tx', tx.encodeBatch A hmac now items = (.err e, tx')) ∧ Refused A M := by
  have hsplit : Packing.IsSplit Item.wireLen maxRecordPlaintext items _ :=
    Packing.pack_isSplit items
  have hstart : SentGroups A M tx [] [] tx := ⟨[], .nil _, rfl, rfl, by simp⟩
  let tag := tx.auth.generateCurrentTag hmac now
  have hstep : ∀ frames ∈ Packing.pack Item.wireLen maxRecordPlaintext items, ∀ groups out,
      Exec.Triple (SentGroups A M tx groups out) (flushGroup A tag frames)
        (fun record ↦ SentGroups A M tx (groups ++ [frames]) (out ++ record))
        (fun _ _ ↦ Refused A M) := by
    intro frames hframes
    exact flushGroup_sentGroups hM tag (hsplit.fits frames hframes) fun item hitem ↦
      hitems item (hsplit.flatten_eq ▸ List.mem_flatten_of_mem hframes hitem)
  have hrun := flushGroups_triple tag _ hstep [] []
  rw [encodeBatch_eq]
  rcases hout : flushGroups A (tx.auth.generateCurrentTag hmac now)
    (Packing.pack Item.wireLen maxRecordPlaintext items) [] tx with ⟨out | e | _, tx'⟩
  · obtain ⟨rs, hsends, hgroups, hwire, hlen⟩ := hrun.of_ok hstart hout
    exact Or.inl ⟨rs, tx', by rw [hwire], hsends, hgroups, hlen⟩
  · exact Or.inr ⟨⟨e, tx', rfl⟩, hrun.of_err hstart hout⟩
  · exact absurd (congrArg Prod.fst hout) (hrun.ne_panic hstart)

/-- The plaintext of a record of the batch is at most this long. -/
def largestRecord (items : List Item) : ℕ := (items.map Item.wireLen).foldr max maxRecordPlaintext

theorem maxRecordPlaintext_le_largestRecord (items : List Item) :
    maxRecordPlaintext ≤ largestRecord items := by
  induction items with
  | nil => exact Nat.le_refl _
  | cons item items ih => exact ih.trans (Nat.le_max_right _ _)

theorem wireLen_le_largestRecord {items : List Item} {item : Item} (h : item ∈ items) :
    item.wireLen ≤ largestRecord items := by
  induction items with
  | nil => cases h
  | cons first items ih =>
    rcases List.mem_cons.mp h with rfl | h
    · exact Nat.le_max_left _ _
    · exact (ih h).trans (Nat.le_max_right _ _)

/-- The batch went out in as few records as any cut of it takes: a record for each group of a cut
into single frames too large to share a record and groups that fit one, and no such cut has fewer
groups. -/
def BatchedOptimally (A : ChaCha20Poly1305) (hmac : HmacSha256) (now : UInt64) (items : List Item)
    (tx : TxCodec) : Prop :=
  ∃ rs tx', tx.encodeBatch A hmac now items = (.ok (wireOf rs), tx') ∧
    Sends A tx.crypto rs tx'.crypto ∧
    Packing.IsSplit Item.wireLen maxRecordPlaintext items (rs.map Record.items) ∧
    ∀ groups, Packing.IsSplit Item.wireLen maxRecordPlaintext items groups →
      rs.length ≤ groups.length

/-- **Batching is lossless and optimal.** For every batch: it goes out in as few records as it can;
or the cipher refused one of its records, which a correct cipher does only beyond its limit. -/
theorem encodeBatch_optimal (A : ChaCha20Poly1305) (hmac : HmacSha256) (now : UInt64)
    (items : List Item) (tx : TxCodec) :
    (BatchedOptimally A hmac now items tx ∨
      (∃ e tx', tx.encodeBatch A hmac now items = (.err e, tx')) ∧
        Refused A (largestRecord items)) ∧
    (A.IsCorrect → largestRecord items < aeadPlainLimit →
      BatchedOptimally A hmac now items tx) := by
  have hcases : BatchedOptimally A hmac now items tx ∨
      (∃ e tx', tx.encodeBatch A hmac now items = (.err e, tx')) ∧
        Refused A (largestRecord items) := by
    refine (TxCodec.encodeBatch_groups (maxRecordPlaintext_le_largestRecord items) hmac now
      (fun _ ↦ wireLen_le_largestRecord) tx).imp_left ?_
    rintro ⟨rs, tx', hrun, hsends, hgroups, -⟩
    refine ⟨rs, tx', hrun, hsends, ?_, fun groups hsplit ↦ ?_⟩
    · rw [hgroups]
      exact Packing.pack_isSplit items
    · have hlength := congrArg List.length hgroups
      rw [List.length_map] at hlength
      rw [hlength]
      exact Packing.length_pack_le hsplit
  exact ⟨hcases, fun hA hlt ↦ hcases.resolve_right fun hrefused ↦ not_refused hA hlt hrefused.2⟩
