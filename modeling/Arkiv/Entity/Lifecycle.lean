import Mathlib.Logic.Relation
import Arkiv.Housekeeping

/-!
# Whole runs of the store

The store's operations are called by the transaction processor with guards of their own:
`Store` for a key that is not live and a record that is not the zero record, `Delete` and
`ExtendBTL` for a live key, and the sweep once per block. `Arkiv.StoreStep` is one such
call; the reachable stores are those its reflexive-transitive closure reaches from the empty
store.

Along every run the store and the index agree (`Arkiv.consistent_of_reachable`), provided no
`ExtendBTL` overflows: `entity.ExpiresAtBlock += numberOfBlocks` is a wrapping `uint64`
addition, and `Arkiv.extendBTL_wraps_expiry` shows the entity it moves to a height in the
past. For an entity with the zero owner the wrapped record is the zero record, which reads
as absent while the key sits in a bucket (`Arkiv.extendBTL_leaves_dead_key_in_bucket`).

The second half of the file adds the height `next` of the next block to finalize, and
proves that no entity outlives its expiry when no extension overflows: each is swept by
exactly the block its record names (`Arkiv.expiry_is_exact`). Without that guard an
extension can wrap an expiry below the frontier, and the entity then outlives it
(`Arkiv.extendBTL_escapes_the_sweep`).
-/

namespace Arkiv

open StateAccess

/-! ### The store's invariant along every run -/

section Consistent

variable {s : StateAccess} {k : Hash} {c : Constants}

theorem Consistent.store {emd : EntityMetaData} (hs : Consistent s) (hl : ¬s.Live k)
    (he : emd ≠ .zero) : Consistent (store s k emd).2 :=
  ⟨hs.agree.store hl he, hs.wellFormed.store hl hs.agree⟩

theorem Consistent.delete (hs : Consistent s) (hl : s.Live k) : Consistent (delete s k).2 :=
  ⟨hs.agree.delete hl, hs.wellFormed.delete hl hs.agree⟩

theorem Consistent.extendBTL {n : UInt64} (hs : Consistent s) (hl : s.Live k)
    (hn : (s.record k).expiresAtBlock.toNat + n.toNat < 2 ^ 64) :
    Consistent (extendBTL s k n).2 :=
  ⟨hs.agree.extendBTL hl (extended_ne_zero hs.wellFormed hl hn),
    hs.wellFormed.extendBTL hl hs.agree⟩

theorem Consistent.executeTransaction {b : UInt64} (hs : Consistent s) :
    Consistent (executeTransaction c b s).2 :=
  ⟨hs.agree.executeTransaction, hs.wellFormed.executeTransaction hs.agree⟩

/-- In a consistent store every call into the index that an operation makes meets its
precondition, so the operation succeeds. -/
theorem calls_succeed_of_consistent (hs : Consistent s) :
    (∀ k emd, ¬s.Live k → (store s k emd).1 = .ok ()) ∧
    (∀ k, s.Live k → (delete s k).1 = .ok (s.record k).owner) ∧
    (∀ k n, s.Live k →
      (extendBTL s k n).1 = .ok ((s.record k).expiresAtBlock, (s.record k).owner)) ∧
    (∀ b, ∃ logs, (executeTransaction c b s).1 = .ok logs) :=
  ⟨fun k emd hl => by rw [store_of_not_mem emd (hs.agree.not_mem_keys hl)],
    fun k hl => by rw [delete_of_mem hl (hs.agree.mem hl)],
    fun k n hl => by rw [extendBTL_of_mem n hl (hs.agree.mem hl)],
    fun b => ⟨_, by rw [executeTransaction_eq hs.agree]⟩⟩

end Consistent

/-- One call of a store operation, with the guard its callers give it; `ExtendBTL` is taken
only where its sum does not overflow. -/
inductive StoreStep (c : Constants) : StateAccess → StateAccess → Prop
  | store {s k emd} : ¬s.Live k → emd ≠ .zero → StoreStep c s (store s k emd).2
  | delete {s k} : s.Live k → StoreStep c s (delete s k).2
  | extendBTL {s k n} : s.Live k → (s.record k).expiresAtBlock.toNat + n.toNat < 2 ^ 64 →
      StoreStep c s (extendBTL s k n).2
  | executeTransaction {s} (b : UInt64) : StoreStep c s (executeTransaction c b s).2

theorem StoreStep.consistent {c : Constants} {s s' : StateAccess} (h : StoreStep c s s')
    (hs : Consistent s) : Consistent s' := by
  cases h with
  | store hl he => exact hs.store hl he
  | delete hl => exact hs.delete hl
  | extendBTL hl hn => exact hs.extendBTL hl hn
  | executeTransaction b => exact hs.executeTransaction

/-- **Every reachable store is consistent, and every operation its callers may issue there
succeeds**: bucket `h` holds exactly the live keys that expire at `h`, and no call into the
index breaks its precondition. -/
theorem consistent_of_reachable {c : Constants} {s : StateAccess}
    (hr : Relation.ReflTransGen (StoreStep c) .empty s) :
    BucketsAgree s ∧ (∀ k emd, ¬s.Live k → (store s k emd).1 = .ok ()) ∧
      (∀ k, s.Live k → (delete s k).1 = .ok (s.record k).owner) ∧
      (∀ k n, s.Live k →
        (extendBTL s k n).1 = .ok ((s.record k).expiresAtBlock, (s.record k).owner)) ∧
      (∀ b, ∃ logs, (executeTransaction c b s).1 = .ok logs) := by
  have hs : Consistent s := by
    induction hr with
    | refl => exact consistent_empty
    | tail _ hstep ih => exact hstep.consistent ih
  exact ⟨hs.agree, calls_succeed_of_consistent hs⟩

/-- One `Store` from the empty store reaches a store whose sweeps all succeed. -/
theorem consistent_of_reachable_after_store :
    Relation.ReflTransGen (StoreStep ⟨Bytes.zero 20, Bytes.zero 32, Bytes.zero 32⟩) .empty
        (store .empty ⟨List.replicate 32 1, rfl⟩ ⟨Bytes.zero 20, 5⟩).2 ∧
      BucketsAgree (store .empty ⟨List.replicate 32 1, rfl⟩ ⟨Bytes.zero 20, 5⟩).2 ∧
      ∀ b, ∃ logs, (executeTransaction ⟨Bytes.zero 20, Bytes.zero 32, Bytes.zero 32⟩ b
        (store .empty ⟨List.replicate 32 1, rfl⟩ ⟨Bytes.zero 20, 5⟩).2).1 = .ok logs :=
  have hr : Relation.ReflTransGen (StoreStep ⟨Bytes.zero 20, Bytes.zero 32, Bytes.zero 32⟩)
      .empty (store .empty ⟨List.replicate 32 1, rfl⟩ ⟨Bytes.zero 20, 5⟩).2 :=
    .single (.store (not_live_empty _) (by decide))
  ⟨hr, (consistent_of_reachable hr).1, (consistent_of_reachable hr).2.2.2.2⟩

/-! ### What `ExtendBTL` does, overflow included -/

section Extend

variable {s : StateAccess} {k : Hash}

/-- **`ExtendBTL` in a consistent store**: it returns the old expiry and the owner, moves the
key from its bucket to the bucket of the wrapped sum `h + n`, stores the wrapped record, and
leaves every other key as it was. -/
theorem extendBTL_wraps_expiry (hs : BucketsAgree s) (hl : s.Live k) (n : UInt64) :
    (extendBTL s k n).1 = .ok ((s.record k).expiresAtBlock, (s.record k).owner) ∧
      (extendBTL s k n).2.record k = ⟨(s.record k).owner, (s.record k).expiresAtBlock + n⟩ ∧
      ((s.record k).expiresAtBlock + n).toNat =
        ((s.record k).expiresAtBlock.toNat + n.toNat) % 2 ^ 64 ∧
      (∀ h, k ∈ (extendBTL s k n).2.expiration.bucket h ↔
        h = (s.record k).expiresAtBlock + n) ∧
      ∀ x, x ≠ k → (extendBTL s k n).2.metaData x = s.metaData x ∧
        ∀ h, x ∈ (extendBTL s k n).2.expiration.bucket h ↔ x ∈ s.expiration.bucket h := by
  rw [extendBTL_of_mem n hl (hs.mem hl)]
  refine ⟨rfl, by simp [record], uint64_toNat_add _ _, fun h => ?_, fun x hx => ?_⟩
  · have hout : k ∉ (s.expiration.remove (s.record k).expiresAtBlock k).bucket h :=
      fun hm => not_mem_keys_remove (hs.mem hl) ((ExpirationIndex.mem_keys _).mpr ⟨h, hm⟩)
    rw [ExpirationIndex.bucket_add]
    split_ifs with hb
    · simp [hb]
    · simpa [hout] using Ne.symm hb
  · refine ⟨Function.update_noteq hx _ _, fun h => ?_⟩
    rw [ExpirationIndex.bucket_add]
    split_ifs <;> simp [ExpirationIndex.mem_bucket_remove, hx]

end Extend

/-- In the store holding one entity that expires at `2 ^ 64 - 1`, extending it by one block
returns its expiry and owner and wraps the stored expiry to 0. -/
theorem extendBTL_wraps_expiry_at_max :
    (BucketsAgree
        (store .empty ⟨List.replicate 32 1, rfl⟩ ⟨Bytes.zero 20, 18446744073709551615⟩).2 ∧
      (store .empty ⟨List.replicate 32 1, rfl⟩ ⟨Bytes.zero 20, 18446744073709551615⟩).2.Live
        ⟨List.replicate 32 1, rfl⟩) ∧
      ((store .empty ⟨List.replicate 32 1, rfl⟩
        ⟨Bytes.zero 20, 18446744073709551615⟩).2.record
        ⟨List.replicate 32 1, rfl⟩).expiresAtBlock + 1 = 0 ∧
      (extendBTL
        (store .empty ⟨List.replicate 32 1, rfl⟩ ⟨Bytes.zero 20, 18446744073709551615⟩).2
        ⟨List.replicate 32 1, rfl⟩ 1).2.record ⟨List.replicate 32 1, rfl⟩ =
        ⟨((store .empty ⟨List.replicate 32 1, rfl⟩
          ⟨Bytes.zero 20, 18446744073709551615⟩).2.record ⟨List.replicate 32 1, rfl⟩).owner,
        ((store .empty ⟨List.replicate 32 1, rfl⟩
          ⟨Bytes.zero 20, 18446744073709551615⟩).2.record
          ⟨List.replicate 32 1, rfl⟩).expiresAtBlock + 1⟩ :=
  have hs := consistent_empty.agree.store (not_live_empty _) (by decide)
  have hl : (store .empty ⟨List.replicate 32 1, rfl⟩
      ⟨Bytes.zero 20, 18446744073709551615⟩).2.Live ⟨List.replicate 32 1, rfl⟩ := by decide
  ⟨⟨hs, hl⟩, by decide, (extendBTL_wraps_expiry hs hl 1).2.1⟩

/-- **`ExtendBTL` can leave a dead key in a bucket.** From the empty store, `Store` an entity
with the zero owner and expiry 1, then extend it by `2 ^ 64 - 1` blocks: the sum wraps to 0,
the record written is the zero record, so the key reads as absent, yet it has been added to
bucket 0. -/
theorem extendBTL_leaves_dead_key_in_bucket :
    ¬StateAccess.empty.Live ⟨List.replicate 32 1, rfl⟩ ∧
      (⟨Bytes.zero 20, 1⟩ : EntityMetaData) ≠ .zero ∧
      (store .empty ⟨List.replicate 32 1, rfl⟩ ⟨Bytes.zero 20, 1⟩).2.Live ⟨List.replicate 32 1, rfl⟩ ∧
      ⟨List.replicate 32 1, rfl⟩ ∈ (extendBTL (store .empty ⟨List.replicate 32 1, rfl⟩
        ⟨Bytes.zero 20, 1⟩).2 ⟨List.replicate 32 1, rfl⟩ 18446744073709551615).2.expiration.bucket 0 ∧
      ¬(extendBTL (store .empty ⟨List.replicate 32 1, rfl⟩ ⟨Bytes.zero 20, 1⟩).2
        ⟨List.replicate 32 1, rfl⟩ 18446744073709551615).2.Live ⟨List.replicate 32 1, rfl⟩ := by
  decide

/-- **`ExtendBTL` at the largest expiry wraps to 0.** In the consistent store holding one
entity of owner `o` that expires at `2 ^ 64 - 1`, extending it by one block returns
`(2 ^ 64 - 1, o)` and stores the record `{o, 0}`, in bucket 0, not the exact sum `2 ^ 64`. -/
theorem extendBTL_wraps_at_max_expiry :
    BucketsAgree (store .empty ⟨List.replicate 32 1, rfl⟩ ⟨⟨List.replicate 20 2, rfl⟩,
        18446744073709551615⟩).2 ∧
      (extendBTL (store .empty ⟨List.replicate 32 1, rfl⟩ ⟨⟨List.replicate 20 2, rfl⟩,
        18446744073709551615⟩).2 ⟨List.replicate 32 1, rfl⟩ 1).1 =
        .ok (18446744073709551615, ⟨List.replicate 20 2, rfl⟩) ∧
      (extendBTL (store .empty ⟨List.replicate 32 1, rfl⟩ ⟨⟨List.replicate 20 2, rfl⟩,
        18446744073709551615⟩).2 ⟨List.replicate 32 1, rfl⟩ 1).2.record ⟨List.replicate 32 1, rfl⟩ =
        ⟨⟨List.replicate 20 2, rfl⟩, 0⟩ ∧
      ⟨List.replicate 32 1, rfl⟩ ∈ (extendBTL (store .empty ⟨List.replicate 32 1, rfl⟩
        ⟨⟨List.replicate 20 2, rfl⟩, 18446744073709551615⟩).2 ⟨List.replicate 32 1, rfl⟩
        1).2.expiration.bucket 0 :=
  ⟨(consistent_empty.store (not_live_empty _) (by decide)).agree, rfl, by decide, by decide⟩

/-! ### Blocks one after another -/

/-- The block-processing state: the store, and the height `next` of the next block to
finalize. -/
structure BlockProcessing where
  access : StateAccess
  next : UInt64

/-- Finalizing block `next`: its housekeeping sweep, then the next height. -/
def BlockProcessing.finalize (c : Constants) (p : BlockProcessing) : BlockProcessing :=
  ⟨(executeTransaction c p.next p.access).2, p.next + 1⟩

/-- One step of block processing: a store operation under its callers' guard, where a new
entity never expires before the next block and its record is not the zero record and an
extension does not overflow, or the finalization of the next block. -/
inductive ProcessingStep (c : Constants) : BlockProcessing → BlockProcessing → Prop
  | store {p k o h} :
      ¬p.access.Live k → p.next ≤ h → (⟨o, h⟩ : EntityMetaData) ≠ .zero →
      ProcessingStep c p ⟨(store p.access k ⟨o, h⟩).2, p.next⟩
  | delete {p k} : p.access.Live k → ProcessingStep c p ⟨(delete p.access k).2, p.next⟩
  | extendBTL {p k n} : p.access.Live k →
      (p.access.record k).expiresAtBlock.toNat + n.toNat < 2 ^ 64 →
      ProcessingStep c p ⟨(extendBTL p.access k n).2, p.next⟩
  | finalize {p} : ProcessingStep c p (p.finalize c)

/-- The frontier invariant: the store is consistent and no live entity expires before the
next block. -/
structure Frontier (p : BlockProcessing) : Prop where
  consistent : Consistent p.access
  ahead : ∀ k, p.access.Live k → p.next ≤ (p.access.record k).expiresAtBlock

section Frontier

variable {c : Constants} {p : BlockProcessing}

/-- The sweep of block `next` zeroes exactly the words of the keys that expire there. -/
theorem finalize_metaData (hs : BucketsAgree p.access) (k : Hash) :
    (p.finalize c).access.metaData k =
      if p.access.Live k ∧ (p.access.record k).expiresAtBlock = p.next then Bytes.zero 32
      else p.access.metaData k := by
  rw [BlockProcessing.finalize, executeTransaction_metaData hs]
  exact if_congr (hs k p.next) rfl rfl

theorem Frontier.finalize (hf : Frontier p) : Frontier (p.finalize c) := by
  refine ⟨hf.consistent.executeTransaction, fun k hk => ?_⟩
  have hw := finalize_metaData (c := c) hf.consistent.agree k
  have hne : ¬(p.access.Live k ∧ (p.access.record k).expiresAtBlock = p.next) := fun h =>
    hk (by rw [hw, if_pos h])
  have hkeep : (p.finalize c).access.metaData k = p.access.metaData k := by rw [hw, if_neg hne]
  have hl : p.access.Live k := by rwa [Live, ← hkeep]
  have hge := uint64_le_iff.mp (hf.ahead k hl)
  have hgt : p.next.toNat ≠ (p.access.record k).expiresAtBlock.toNat :=
    fun h => hne ⟨hl, (uint64_eq_iff.mpr h).symm⟩
  have hr : (p.finalize c).access.record k = p.access.record k :=
    congrArg EntityMetaData.unmarshal hkeep
  show p.next + 1 ≤ _
  rw [hr, uint64_le_iff, uint64_toNat_add, show (1 : UInt64).toNat = 1 from rfl]
  have := uint64_toNat_lt (p.access.record k).expiresAtBlock
  omega

theorem ProcessingStep.frontier {p p' : BlockProcessing} (h : ProcessingStep c p p')
    (hf : Frontier p) : Frontier p' := by
  cases h with
  | @store k o e hl hh he =>
    refine ⟨hf.consistent.store hl he, fun x hx => ?_⟩
    rw [store_of_not_mem _ (hf.consistent.agree.not_mem_keys hl)] at hx ⊢
    rw [live_update_iff] at hx
    by_cases hxk : x = k
    · subst hxk
      simpa [record_update] using hh
    · simpa [record_update, hxk] using hf.ahead x (by simpa [hxk] using hx)
  | @delete k hl =>
    refine ⟨hf.consistent.delete hl, fun x hx => ?_⟩
    rw [delete_of_mem hl (hf.consistent.agree.mem hl)] at hx ⊢
    rw [erase, live_update_iff] at hx
    by_cases hxk : x = k
    · simp [hxk] at hx
    · simpa [erase, record_update, hxk] using hf.ahead x (by simpa [hxk] using hx)
  | @extendBTL k n hl hn =>
    refine ⟨hf.consistent.extendBTL hl hn, fun x hx => ?_⟩
    rw [extendBTL_of_mem n hl (hf.consistent.agree.mem hl)] at hx ⊢
    rw [live_update_iff] at hx
    by_cases hxk : x = k
    · subst hxk
      have := uint64_le_iff.mp (hf.ahead x hl)
      simp only [record_update, if_true, EntityMetaData.unmarshal_marshal]
      rw [uint64_le_iff, uint64_toNat_add_of_lt hn]
      omega
    · simpa [record_update, hxk] using hf.ahead x (by simpa [hxk] using hx)
  | finalize => exact hf.finalize

/-- **Expiry is exact.** Along every run of block processing from the empty store, where no
extension overflows and no zero record is stored: every live entity expires at the next
block or later; finalizing the next block keeps every entity that does not expire there, and
removes every entity that does. So an entity, unless deleted, lives until the block its record
names and is swept by exactly that block. -/
theorem expiry_is_exact {n₀ : UInt64}
    (hr : Relation.ReflTransGen (ProcessingStep c) ⟨.empty, n₀⟩ p) :
    (∀ k, p.access.Live k → p.next ≤ (p.access.record k).expiresAtBlock) ∧
      (∀ k, (p.access.record k).expiresAtBlock ≠ p.next →
        (p.finalize c).access.metaData k = p.access.metaData k) ∧
      (∀ k, (p.access.record k).expiresAtBlock = p.next → ¬(p.finalize c).access.Live k) := by
  have hf : Frontier p := by
    induction hr with
    | refl => exact ⟨consistent_empty, fun k hk => absurd hk (not_live_empty k)⟩
    | tail _ hstep ih => exact hstep.frontier ih
  refine ⟨hf.ahead, fun k hk => ?_, fun k hk hl => ?_⟩
  · rw [finalize_metaData hf.consistent.agree, if_neg fun h => hk h.2]
  · rw [Live, finalize_metaData hf.consistent.agree] at hl
    split_ifs at hl with h
    · exact hl rfl
    · exact h ⟨hl, hk⟩

end Frontier

/-- After one `Store` of an entity expiring at 5, finalizing block 0 keeps it. -/
theorem expiry_is_exact_after_store :
    Relation.ReflTransGen (ProcessingStep ⟨Bytes.zero 20, Bytes.zero 32, Bytes.zero 32⟩)
        ⟨.empty, 0⟩ ⟨(store .empty ⟨List.replicate 32 1, rfl⟩ ⟨⟨List.replicate 20 1, rfl⟩, 5⟩).2, 0⟩ ∧
      (BlockProcessing.finalize ⟨Bytes.zero 20, Bytes.zero 32, Bytes.zero 32⟩
        ⟨(store .empty ⟨List.replicate 32 1, rfl⟩ ⟨⟨List.replicate 20 1, rfl⟩, 5⟩).2, 0⟩).access.metaData
          ⟨List.replicate 32 1, rfl⟩ =
        (store .empty ⟨List.replicate 32 1, rfl⟩ ⟨⟨List.replicate 20 1, rfl⟩, 5⟩).2.metaData
          ⟨List.replicate 32 1, rfl⟩ :=
  have hr : Relation.ReflTransGen (ProcessingStep ⟨Bytes.zero 20, Bytes.zero 32, Bytes.zero 32⟩)
      ⟨.empty, 0⟩ ⟨(store .empty ⟨List.replicate 32 1, rfl⟩ ⟨⟨List.replicate 20 1, rfl⟩, 5⟩).2, 0⟩ :=
    .single (.store (not_live_empty _) (by decide) (by decide))
  ⟨hr, (expiry_is_exact hr).2.1 _ (by decide)⟩

/-- **Counterexample: an extension wraps an expiry behind the frontier.** With `next = 5`,
store an entity of owner `0x0101…01` expiring at 10, then extend it by `2^64 - 8` blocks:
`entity.ExpiresAtBlock += numberOfBlocks` wraps to 2 (extend_btl.go:26-33), below the
frontier. Finalizing blocks 5, 6 and 7 keeps it live, past the height its record names, and
no later sweep reaches bucket 2 before `next` itself wraps. -/
theorem extendBTL_escapes_the_sweep :
    ¬StateAccess.empty.Live ⟨List.replicate 32 1, rfl⟩ ∧
      (store .empty ⟨List.replicate 32 1, rfl⟩ ⟨⟨List.replicate 20 1, rfl⟩, 10⟩).2.Live
        ⟨List.replicate 32 1, rfl⟩ ∧
      ((BlockProcessing.finalize ⟨Bytes.zero 20, Bytes.zero 32, Bytes.zero 32⟩)^[3]
        ⟨(extendBTL (store .empty ⟨List.replicate 32 1, rfl⟩ ⟨⟨List.replicate 20 1, rfl⟩, 10⟩).2
          ⟨List.replicate 32 1, rfl⟩ 18446744073709551608).2, 5⟩).access.Live
          ⟨List.replicate 32 1, rfl⟩ ∧
      (((BlockProcessing.finalize ⟨Bytes.zero 20, Bytes.zero 32, Bytes.zero 32⟩)^[3]
        ⟨(extendBTL (store .empty ⟨List.replicate 32 1, rfl⟩ ⟨⟨List.replicate 20 1, rfl⟩, 10⟩).2
          ⟨List.replicate 32 1, rfl⟩ 18446744073709551608).2, 5⟩).access.record
          ⟨List.replicate 32 1, rfl⟩).expiresAtBlock = 2 ∧
      ((BlockProcessing.finalize ⟨Bytes.zero 20, Bytes.zero 32, Bytes.zero 32⟩)^[3]
        ⟨(extendBTL (store .empty ⟨List.replicate 32 1, rfl⟩ ⟨⟨List.replicate 20 1, rfl⟩, 10⟩).2
          ⟨List.replicate 32 1, rfl⟩ 18446744073709551608).2, 5⟩).next = 8 := by
  decide

end Arkiv
