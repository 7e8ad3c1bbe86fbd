import Arkiv.Entity.Store

/-!
# The store and its index agree

The invariant of spec §3 ties the two halves of the state together: a key is in bucket `h`
exactly when it is live and its record expires at `h` (`Arkiv.BucketsAgree`). It is what
makes every call into the index meet its precondition, and what lets the sweep at `h` find
exactly the entities that expire at `h`.

Each operation keeps it under the guard its callers give it, and one more fact is carried
along: every live word is the encoding of a record (`Arkiv.WordsWellFormed`), as
`StoreEntityMetaData` is the only writer of non-zero words. `ExtendBTL` keeps the agreement
only when the extended record is not the zero record: a zero record is written as the zero
word, which reads as absent, while the key has just been added to a bucket.
-/

namespace Arkiv

open StateAccess

/-- Spec §3: key `k` is in bucket `h` exactly when it is live and its record expires at
`h`; so no key is in two buckets and no absent key is in any. -/
def BucketsAgree (s : StateAccess) : Prop :=
  ∀ k h, k ∈ s.expiration.bucket h ↔ s.Live k ∧ (s.record k).expiresAtBlock = h

/-- Every live word is the encoding of the record it decodes to. -/
def WordsWellFormed (s : StateAccess) : Prop :=
  ∀ k, s.Live k → (s.record k).marshal = s.metaData k

/-- The invariant of the reachable stores. -/
structure Consistent (s : StateAccess) : Prop where
  agree : BucketsAgree s
  wellFormed : WordsWellFormed s

section

variable {s : StateAccess} {k : Hash}

theorem consistent_empty : Consistent StateAccess.empty :=
  ⟨fun k h => iff_of_false (by simp [StateAccess.empty]) fun hk => not_live_empty k hk.1,
    fun k hk => absurd hk (not_live_empty k)⟩

theorem BucketsAgree.mem (hs : BucketsAgree s) (hl : s.Live k) :
    k ∈ s.expiration.bucket (s.record k).expiresAtBlock :=
  (hs k _).mpr ⟨hl, rfl⟩

theorem BucketsAgree.not_mem_keys (hs : BucketsAgree s) (hl : ¬s.Live k) :
    k ∉ s.expiration.keys := by
  rw [ExpirationIndex.mem_keys]
  rintro ⟨h, hk⟩
  exact hl ((hs k h).mp hk).1

/-- The word of a record is zero only for the zero record. -/
theorem marshal_ne_zero {emd : EntityMetaData} (he : emd ≠ .zero) :
    emd.marshal ≠ Bytes.zero 32 :=
  fun h => he ((EntityMetaData.marshal_eq_zero_iff emd).mp h)

theorem live_update_iff {m : Hash → Hash} {ix : ExpirationIndex} {w : Hash} {x : Hash} :
    StateAccess.Live ⟨Function.update m k w, ix⟩ x ↔
      if x = k then w ≠ Bytes.zero 32 else m x ≠ Bytes.zero 32 := by
  by_cases hx : x = k
  · subst hx
    simp [Live]
  · simp [Live, hx]

theorem record_update {m : Hash → Hash} {ix : ExpirationIndex} {w : Hash} {x : Hash} :
    StateAccess.record ⟨Function.update m k w, ix⟩ x =
      if x = k then EntityMetaData.unmarshal w else EntityMetaData.unmarshal (m x) := by
  by_cases hx : x = k
  · subst hx
    simp [record]
  · simp [record, hx]

/-! ### Each operation keeps the agreement -/

/-- `Store` of an absent key with a non-zero record keeps the agreement. -/
theorem BucketsAgree.store {emd : EntityMetaData} (hs : BucketsAgree s) (hl : ¬s.Live k)
    (he : emd ≠ .zero) : BucketsAgree (store s k emd).2 := by
  rw [store_of_not_mem emd (hs.not_mem_keys hl)]
  intro x h
  rw [ExpirationIndex.bucket_add, live_update_iff, record_update]
  by_cases hx : x = k
  · subst hx
    have hout : x ∉ s.expiration.bucket h := fun hm => hl ((hs x h).mp hm).1
    by_cases hb : emd.expiresAtBlock = h <;> simp [hb, hout, marshal_ne_zero he]
  · have := hs x h
    split_ifs <;> simp_all [Live, record]

/-- `Delete` of a live key keeps the agreement. -/
theorem BucketsAgree.delete (hs : BucketsAgree s) (hl : s.Live k) :
    BucketsAgree (delete s k).2 := by
  rw [delete_of_mem hl (hs.mem hl)]
  intro x h
  simp only [erase, ExpirationIndex.mem_bucket_remove, live_update_iff, record_update]
  by_cases hx : x = k
  · subst hx
    simp only [if_true, ne_eq, not_true_eq_false, false_and, iff_false, not_and, not_not]
    intro hm
    rw [← ((hs x h).mp hm).2]
  · simp [hx, hs x h, Live, record]

/-- `ExtendBTL` of a live key keeps the agreement when the extended record is not the zero
record. -/
theorem BucketsAgree.extendBTL {n : UInt64} (hs : BucketsAgree s) (hl : s.Live k)
    (hne : (⟨(s.record k).owner, (s.record k).expiresAtBlock + n⟩ : EntityMetaData) ≠ .zero) :
    BucketsAgree (extendBTL s k n).2 := by
  rw [extendBTL_of_mem n hl (hs.mem hl)]
  intro x h
  rw [ExpirationIndex.bucket_add, live_update_iff, record_update]
  by_cases hx : x = k
  · subst hx
    have hout : x ∉ (s.expiration.remove (s.record x).expiresAtBlock x).bucket h := by
      rw [ExpirationIndex.mem_bucket_remove]
      rintro ⟨hm, hne'⟩
      exact hne' (by rw [((hs x h).mp hm).2])
    by_cases hb : (s.record x).expiresAtBlock + n = h
    · subst hb
      simp [hout, marshal_ne_zero hne]
    · simp [hb, hout]
  · have := hs x h
    split_ifs <;> simp_all [ExpirationIndex.mem_bucket_remove, Live, record]

/-! ### Each operation keeps the words well formed -/

theorem WordsWellFormed.store {emd : EntityMetaData} (hw : WordsWellFormed s) (hl : ¬s.Live k)
    (hs : BucketsAgree s) : WordsWellFormed (store s k emd).2 := by
  rw [store_of_not_mem emd (hs.not_mem_keys hl)]
  intro x hx
  rw [live_update_iff] at hx
  by_cases h : x = k
  · subst h
    simp [record_update]
  · simp only [h, if_false] at hx
    simpa [record_update, h] using hw x hx

theorem WordsWellFormed.delete (hw : WordsWellFormed s) (hl : s.Live k) (hs : BucketsAgree s) :
    WordsWellFormed (delete s k).2 := by
  rw [delete_of_mem hl (hs.mem hl)]
  intro x hx
  rw [erase, live_update_iff] at hx
  by_cases h : x = k
  · simp [h] at hx
  · simp only [h, if_false] at hx
    simpa [erase, record_update, h] using hw x hx

theorem WordsWellFormed.extendBTL {n : UInt64} (hw : WordsWellFormed s) (hl : s.Live k)
    (hs : BucketsAgree s) : WordsWellFormed (extendBTL s k n).2 := by
  rw [extendBTL_of_mem n hl (hs.mem hl)]
  intro x hx
  rw [live_update_iff] at hx
  by_cases h : x = k
  · subst h
    simp [record_update]
  · simp only [h, if_false] at hx
    simpa [record_update, h] using hw x hx

/-- Without overflow, extending a well-formed live record never yields the zero record. -/
theorem extended_ne_zero {n : UInt64} (hw : WordsWellFormed s) (hl : s.Live k)
    (hn : (s.record k).expiresAtBlock.toNat + n.toNat < 2 ^ 64) :
    (⟨(s.record k).owner, (s.record k).expiresAtBlock + n⟩ : EntityMetaData) ≠ .zero := by
  intro h
  obtain ⟨ho, he⟩ := EntityMetaData.mk.inj h
  have he' := congrArg UInt64.toNat he
  rw [uint64_toNat_add_of_lt hn, UInt64.toNat_zero] at he'
  have hz : s.record k = .zero := by
    have he0 : (s.record k).expiresAtBlock = 0 :=
      UInt64.toNat.inj (by rw [UInt64.toNat_zero]; omega)
    rw [EntityMetaData.zero, ← ho, ← he0]
  exact hl (by rw [← hw k hl, hz]; rfl)

end

end Arkiv
