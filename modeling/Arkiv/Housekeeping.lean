import Arkiv.Chain
import Arkiv.Entity.Invariant

/-!
# The housekeeping sweep

`ExecuteTransaction(blockNumber)` runs once per block: it collects bucket `blockNumber` in
full, then deletes its entities one by one through `Delete`, appending one expiry log per
entity. The collected list is fixed before the first deletion, so the loop never reads a
bucket it is changing.

The loop is `Arkiv.deleteEntities`. Its lemma `Arkiv.deleteEntities_eq` is proved by
induction on the collected keys: when they are distinct, live and in the swept bucket, each
deletion succeeds and leaves the rest as they were. Under the agreement of spec §3 the
collected bucket is such a list, so the whole sweep succeeds, and
`Arkiv.executeTransaction_eq` gives its logs and its final state in closed form. Outside that
agreement, the loop stops at the first collected key that is not live, with the error that names
it, and keeps the deletions made before it (`Arkiv.deleteEntities_of_not_live`).
-/

namespace Arkiv

open StateAccess

/-- `addressToHash`: the address in the last 20 bytes of a zero word. -/
def addressToHash (a : Address) : Hash := ⟨List.replicate 12 0 ++ a.toList, by simp⟩

section Sweep

variable (c : Constants) (blockNumber : UInt64)

/-- The expiry log of `ExecuteTransaction` for `toDelete`, owned by `owner`. -/
def expiredLog (toDelete : Hash) (owner : Address) : Log :=
  { address := c.arkivProcessorAddress
    topics := [c.arkivEntityExpired, toDelete, addressToHash owner]
    data := toDelete.toList
    blockNumber := blockNumber }

/-- The closure `deleteEntity`: delete the entity, then append its expiry log. -/
def deleteEntity (toDelete : Hash) (logs : List Log) (st : StateAccess) :
    Except String (List Log) × StateAccess :=
  match delete st toDelete with
  | (.error err, st) => (.error ("failed to delete entity: " ++ err), st)
  | (.ok owner, st) => (.ok (logs ++ [expiredLog c blockNumber toDelete owner]), st)

/-- The loop of `ExecuteTransaction` over the collected keys; it stops at the first error. -/
def deleteEntities :
    List Hash → List Log → StateAccess → Except String (List Log) × StateAccess
  | [], logs, st => (.ok logs, st)
  | key :: toDelete, logs, st =>
    match deleteEntity c blockNumber key logs st with
    | (.error err, st) => (.error ("failed to delete entity " ++ key.hex ++ ": " ++ err), st)
    | (.ok logs, st) => deleteEntities toDelete logs st

/-- `ExecuteTransaction`: collect bucket `blockNumber`, then delete its entities. Creating the
processor account and updating the used-slot counter are left out. -/
def executeTransaction (db : StateAccess) : Except String (List Log) × StateAccess :=
  deleteEntities c blockNumber (iteratorOfEntitiesToExpireAtBlock db blockNumber) [] db

end Sweep

/-! ### The loop -/

section Loop

variable {c : Constants} {b : UInt64}

/-- The keys the loop may delete in `st`: live, in bucket `b` and recorded to expire at
`b`. -/
def Sweepable (st : StateAccess) (b : UInt64) (k : Hash) : Prop :=
  st.Live k ∧ k ∈ st.expiration.bucket b ∧ (st.record k).expiresAtBlock = b

/-- What the deletion of `k` from bucket `b` leaves of the other keys. -/
theorem erase_of_ne {s : StateAccess} {k x : Hash} (hx : x ≠ k) :
    (s.erase b k).metaData x = s.metaData x ∧
      (∀ h, x ∈ (s.erase b k).expiration.bucket h ↔ x ∈ s.expiration.bucket h) := by
  refine ⟨Function.update_noteq hx _ _, fun h => ?_⟩
  rw [erase, ExpirationIndex.mem_bucket_remove]
  simp [hx]

theorem sweepable_erase {st : StateAccess} {k x : Hash} (hx : x ≠ k) (h : Sweepable st b x) :
    Sweepable (st.erase b k) b x ∧ (st.erase b k).record x = st.record x := by
  obtain ⟨hm, hb⟩ := erase_of_ne (b := b) (s := st) hx
  have hr : (st.erase b k).record x = st.record x := by simp only [record, hm]
  refine ⟨?_, hr⟩
  simp only [Sweepable, Live, hm, hb b, hr]
  exact h

/-- **The sweep loop**: over distinct sweepable keys, every deletion succeeds; the logs are
the keys' expiry logs in order, and the state is the one with each key erased. -/
theorem deleteEntities_eq :
    ∀ (ks : List Hash) (logs : List Log) (st : StateAccess), ks.Nodup →
      (∀ k ∈ ks, Sweepable st b k) →
      deleteEntities c b ks logs st =
        (.ok (logs ++ ks.map fun k => expiredLog c b k (st.record k).owner),
          ks.foldl (fun s k => s.erase b k) st)
  | [], logs, st, _, _ => by simp [deleteEntities]
  | k :: ks, logs, st, hnd, hks => by
    obtain ⟨hk, hnd⟩ := List.nodup_cons.mp hnd
    obtain ⟨hl, hm, he⟩ := hks k (List.mem_cons_self k ks)
    have hdel : delete st k = (.ok (st.record k).owner, st.erase b k) := by
      rw [delete_of_mem hl (he ▸ hm), he]
    have hrest :
        ∀ x ∈ ks, Sweepable (st.erase b k) b x ∧ (st.erase b k).record x = st.record x :=
      fun x hx => sweepable_erase (ne_of_mem_of_not_mem hx hk) (hks x (List.mem_cons_of_mem k hx))
    simp only [deleteEntities, deleteEntity, hdel]
    rw [deleteEntities_eq ks _ _ hnd fun x hx => (hrest x hx).1, List.map_congr_left
      fun x hx => congrArg (fun r => expiredLog c b x r.owner) (hrest x hx).2]
    simp

theorem deleteEntities_append {pre : List Hash} (rest : List Hash) {logs logs' : List Log}
    {st st' : StateAccess} (h : deleteEntities c b pre logs st = (.ok logs', st')) :
    deleteEntities c b (pre ++ rest) logs st = deleteEntities c b rest logs' st' := by
  induction pre generalizing logs st with
  | nil =>
    obtain ⟨⟨⟩, ⟨⟩⟩ := Prod.mk.inj h
    rfl
  | cons k pre ih =>
    simp only [List.cons_append, deleteEntities] at h ⊢
    rcases hd : deleteEntity c b k logs st with ⟨_ | logs₁, st₁⟩ <;> simp only [hd] at h ⊢
    · cases h
    · exact ih h

theorem foldl_erase_metaData (ks : List Hash) (st : StateAccess) (x : Hash) :
    (ks.foldl (fun s k => s.erase b k) st).metaData x =
      if x ∈ ks then Bytes.zero 32 else st.metaData x := by
  induction ks generalizing st with
  | nil => simp
  | cons k ks ih =>
    rw [List.foldl_cons, ih]
    by_cases hx : x = k <;> simp [hx, erase]

theorem foldl_erase_bucket (ks : List Hash) (st : StateAccess) (h : UInt64) :
    (ks.foldl (fun s k => s.erase b k) st).expiration.bucket h =
      if h = b then (st.expiration.bucket h).filter (· ∉ ks) else st.expiration.bucket h := by
  induction ks generalizing st with
  | nil => simp
  | cons k ks ih =>
    rw [List.foldl_cons, ih]
    by_cases hb : h = b
    · subst hb
      simp only [if_true, erase, ExpirationIndex.bucket_remove_self, List.filter_filter,
        List.mem_cons, not_or]
      congr 1
      funext x
      by_cases hxk : x = k <;> simp [hxk]
    · simp [hb, erase, ExpirationIndex.bucket_remove_of_ne _ hb]

/-- **A sweep stops at the first key it cannot delete.** When the collected keys before `k` are
distinct and sweepable and `k` is not live, the loop fails with the error that names `k`, as
each `fmt.Errorf` on the way wraps it, and the state keeps the deletions made before `k`: none
of them is undone. -/
theorem deleteEntities_of_not_live {k : Hash} (pre post : List Hash) (logs : List Log)
    (st : StateAccess) (hpre : pre.Nodup) (hs : ∀ x ∈ pre, Sweepable st b x) (hk : k ∉ pre)
    (hl : ¬st.Live k) :
    deleteEntities c b (pre ++ k :: post) logs st =
      (.error ("failed to delete entity " ++ k.hex ++ ": " ++ ("failed to delete entity: " ++
        ("failed to get entity meta data: " ++
          ("failed to retrieve entity metadata for key " ++ k.hex)))),
        pre.foldl (fun s k => s.erase b k) st) := by
  rw [deleteEntities_append _ (deleteEntities_eq pre logs st hpre hs)]
  have hz : (pre.foldl (fun s k => s.erase b k) st).metaData k = Bytes.zero 32 := by
    rw [foldl_erase_metaData, if_neg hk]
    exact not_not.mp hl
  simp only [deleteEntities, deleteEntity, delete, getEntityMetaData, hz, if_pos]

/-- A sweep of height 5 that collected the stored key `1…1` and then the absent key `2…2`
deletes the first and fails on the second. -/
theorem deleteEntities_of_not_live_after_store :
    deleteEntities ⟨Bytes.zero 20, Bytes.zero 32, Bytes.zero 32⟩ 5
        ([⟨List.replicate 32 1, rfl⟩] ++ ⟨List.replicate 32 2, rfl⟩ :: []) []
        (store .empty ⟨List.replicate 32 1, rfl⟩ ⟨Bytes.zero 20, 5⟩).2 =
      (.error ("failed to delete entity " ++ Bytes.hex ⟨List.replicate 32 2, rfl⟩ ++ ": " ++
        ("failed to delete entity: " ++ ("failed to get entity meta data: " ++
          ("failed to retrieve entity metadata for key " ++ Bytes.hex ⟨List.replicate 32 2, rfl⟩)))),
        [⟨List.replicate 32 1, rfl⟩].foldl (fun s k => s.erase 5 k)
          (store .empty ⟨List.replicate 32 1, rfl⟩ ⟨Bytes.zero 20, 5⟩).2) :=
  deleteEntities_of_not_live _ _ _ _ (List.nodup_singleton _)
    (List.forall_mem_singleton.mpr ⟨by decide, by decide, rfl⟩) (by decide) (by decide)

end Loop

/-! ### The sweep under the agreement of spec §3 -/

section Agree

variable {s : StateAccess} {c : Constants} {b : UInt64}

theorem sweepable_of_agree (hs : BucketsAgree s) {k : Hash} (hk : k ∈ s.expiration.bucket b) :
    Sweepable s b k :=
  ⟨((hs k b).mp hk).1, hk, ((hs k b).mp hk).2⟩

/-- **The sweep in closed form**: it succeeds, logs the bucket's entities in order, and erases
each of them. -/
theorem executeTransaction_eq (hs : BucketsAgree s) :
    executeTransaction c b s =
      (.ok ((s.expiration.bucket b).map fun k => expiredLog c b k (s.record k).owner),
        (s.expiration.bucket b).foldl (fun st k => st.erase b k) s) := by
  rw [executeTransaction, iteratorOfEntitiesToExpireAtBlock,
    deleteEntities_eq _ _ _ (s.expiration.nodup_bucket b) fun k hk => sweepable_of_agree hs hk]
  rfl

/-- A key in bucket `b` after the sweep: none; elsewhere, as before. -/
theorem executeTransaction_bucket (hs : BucketsAgree s) (h : UInt64) :
    (executeTransaction c b s).2.expiration.bucket h =
      if h = b then [] else s.expiration.bucket h := by
  rw [executeTransaction_eq hs, foldl_erase_bucket]
  split_ifs with hb
  · subst hb
    exact List.filter_eq_nil_iff.mpr fun x hx => by simpa using hx
  · rfl

theorem executeTransaction_metaData (hs : BucketsAgree s) (k : Hash) :
    (executeTransaction c b s).2.metaData k =
      if k ∈ s.expiration.bucket b then Bytes.zero 32 else s.metaData k := by
  rw [executeTransaction_eq hs, foldl_erase_metaData]

/-- The sweep keeps the agreement. -/
theorem BucketsAgree.executeTransaction (hs : BucketsAgree s) :
    BucketsAgree (executeTransaction c b s).2 := by
  intro x h
  simp only [Live, record, executeTransaction_bucket hs, executeTransaction_metaData hs]
  by_cases hx : x ∈ s.expiration.bucket b
  · have hb := ((hs x b).mp hx).2
    split_ifs with hh
    · simp
    · simp only [ne_eq, not_true_eq_false, false_and, iff_false]
      intro hm
      exact hh (s.expiration.eq_of_mem_bucket hm hx)
  · have := hs x h
    split_ifs with hh
    · subst hh
      simp only [List.not_mem_nil, false_iff]
      exact fun h' => hx ((hs x h).mpr h')
    · exact this

/-- The sweep keeps the words well formed. -/
theorem WordsWellFormed.executeTransaction (hw : WordsWellFormed s) (hs : BucketsAgree s) :
    WordsWellFormed (executeTransaction c b s).2 := by
  intro x hx
  simp only [Live, record, executeTransaction_metaData hs] at hx ⊢
  split_ifs at hx ⊢ with hm
  · exact absurd rfl hx
  · exact hw x hx

end Agree

end Arkiv
