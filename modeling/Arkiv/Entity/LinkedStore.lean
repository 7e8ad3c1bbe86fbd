import Arkiv.Entity.Lifecycle
import Arkiv.Expiration.Linked

/-!
# The store over linked words

The store's runs (`Arkiv.StoreStep`) are stated over the buckets as lists. Package
`entityexpiration` keeps them as linked lists in storage words instead (spec §4.2,
`Arkiv.LinkedIndex`). `Arkiv.LinkedStep` runs the two side by side: each step is a store
operation, and the words go through the linked `Add` and `Remove` calls that operation makes:
`Store` adds its key, `Delete` removes it from the height its record names, `ExtendBTL` does
both, and the sweep collects the walk of the words from the bucket's head before it deletes
the keys one by one, in that order.

Along every such run the words are the layout of the buckets (`Arkiv.linked_of_reachable`), so
the walk of the words terminates and lists exactly what the list model's
`IteratorOfEntitiesToExpireAtBlock` lists. The one guard the words add is that no stored key is
the zero key, which the linked lists use as their null pointer.
-/

namespace Arkiv

open StateAccess

/-- One store operation with the words of the index alongside: the metadata and the buckets
as `Arkiv.StoreStep` has them, and the words of `entityexpiration` through the linked calls the
operation makes. The sweep collects the walk of bucket `b` first, bounded by a `fuel` the walk
stops short of; `Delete` then removes each key at the height its record names. -/
inductive LinkedStep (c : Constants) : StateAccess × LinkedIndex → StateAccess × LinkedIndex → Prop
  | store {s L k emd} : ¬s.Live k → emd ≠ .zero → k ≠ Bytes.zero 32 →
      LinkedStep c (s, L) ((store s k emd).2, L.add emd.expiresAtBlock k)
  | delete {s L k} : s.Live k →
      LinkedStep c (s, L) ((delete s k).2, L.remove (s.record k).expiresAtBlock k)
  | extendBTL {s L k n} : s.Live k → (s.record k).expiresAtBlock.toNat + n.toNat < 2 ^ 64 →
      LinkedStep c (s, L) ((extendBTL s k n).2,
        (L.remove (s.record k).expiresAtBlock k).add ((s.record k).expiresAtBlock + n) k)
  | executeTransaction {s L} (b : UInt64) (fuel : Nat) :
      (L.walk fuel (L.head b)).length < fuel →
      LinkedStep c (s, L) ((executeTransaction c b s).2,
        (L.walk fuel (L.head b)).foldl (fun L k => L.remove (s.record k).expiresAtBlock k) L)

/-- The invariant of the runs over words: the store is consistent, no key is the null key, and
the words are the layout of the buckets. -/
structure LinkedInv (p : StateAccess × LinkedIndex) : Prop where
  consistent : Consistent p.1
  nonNull : Bytes.zero 32 ∉ p.1.expiration.keys
  layout : p.2 = p.1.expiration.toLinked

section Step

variable {c : Constants} {s : StateAccess} {k : Hash}

theorem foldl_erase_expiration (b : UInt64) (ks : List Hash) (st : StateAccess) :
    (ks.foldl (fun s k => s.erase b k) st).expiration =
      ks.foldl (fun ix k => ix.remove b k) st.expiration := by
  induction ks generalizing st with
  | nil => rfl
  | cons k ks ih => exact ih _

theorem zero_not_mem_keys_add {ix : ExpirationIndex} {block : UInt64} (hk : k ∉ ix.keys)
    (hk0 : k ≠ Bytes.zero 32) (h0 : Bytes.zero 32 ∉ ix.keys) :
    Bytes.zero 32 ∉ (ix.add block k hk).keys := by
  simpa [ExpirationIndex.keys, ExpirationIndex.add, Ne.symm hk0] using h0

theorem zero_not_mem_keys_remove {ix : ExpirationIndex} {block : UInt64}
    (hk : k ∈ ix.bucket block) (h0 : Bytes.zero 32 ∉ ix.keys) :
    Bytes.zero 32 ∉ (ix.remove block k).keys :=
  fun hm => h0 ((ExpirationIndex.mem_keys_remove hk).mp hm).1

/-- **One step keeps the words the layout of the buckets.** -/
theorem LinkedStep.linkedInv {p p' : StateAccess × LinkedIndex} (h : LinkedStep c p p')
    (hp : LinkedInv p) : LinkedInv p' := by
  cases h <;> obtain ⟨hs, h0, (hL : _ = _)⟩ := hp <;> dsimp only at hs h0 hL
  case store s L k emd hl he hk0 =>
    have hk := hs.agree.not_mem_keys hl
    have hexp : (Arkiv.store s k emd).2.expiration = s.expiration.add emd.expiresAtBlock k hk := by
      rw [store_of_not_mem emd hk]
    refine ⟨hs.store hl he, by rw [hexp]; exact zero_not_mem_keys_add hk hk0 h0, ?_⟩
    rw [hexp, ExpirationIndex.toLinked_add hk hk0 h0, hL]
  case delete s L k hl =>
    have hm := hs.agree.mem hl
    have hexp : (Arkiv.delete s k).2.expiration = s.expiration.remove (s.record k).expiresAtBlock k := by
      rw [delete_of_mem hl hm]
      rfl
    refine ⟨hs.delete hl, by rw [hexp]; exact zero_not_mem_keys_remove hm h0, ?_⟩
    rw [hexp, ExpirationIndex.toLinked_remove hm h0, hL]
  case extendBTL s L k n hl hn =>
    have hm := hs.agree.mem hl
    have hexp : (Arkiv.extendBTL s k n).2.expiration =
        (s.expiration.remove (s.record k).expiresAtBlock k).add ((s.record k).expiresAtBlock + n) k
          (not_mem_keys_remove hm) := by
      rw [extendBTL_of_mem n hl hm]
    have h0' := zero_not_mem_keys_remove hm h0
    have hk0 : k ≠ Bytes.zero 32 := ExpirationIndex.ne_zero_of_mem h0 hm
    refine ⟨hs.extendBTL hl hn, by rw [hexp]; exact zero_not_mem_keys_add _ hk0 h0', ?_⟩
    rw [hexp, ExpirationIndex.toLinked_add _ hk0 h0', ExpirationIndex.toLinked_remove hm h0, hL]
  case executeTransaction s L b fuel hfuel =>
    subst hL
    have hwalk := s.expiration.walk_toLinked h0 b fuel
    rw [hwalk, List.length_take] at hfuel
    have hb : (s.expiration.bucket b).take fuel = s.expiration.bucket b :=
      List.take_of_length_le (by omega)
    have hexp : (Arkiv.executeTransaction c b s).2.expiration =
        (s.expiration.bucket b).foldl (fun ix k => ix.remove b k) s.expiration := by
      rw [executeTransaction_eq hs.agree, foldl_erase_expiration]
    have hrec : ∀ x ∈ s.expiration.bucket b, ∀ L : LinkedIndex,
        L.remove (s.record x).expiresAtBlock x = L.remove b x :=
      fun x hx L => by rw [((hs.agree x b).mp hx).2]
    refine ⟨hs.executeTransaction, ?_, ?_⟩
    · intro hm
      obtain ⟨h, hm⟩ := (ExpirationIndex.mem_keys _).mp hm
      rw [executeTransaction_bucket hs.agree] at hm
      split_ifs at hm
      · exact List.not_mem_nil _ hm
      · exact h0 ((ExpirationIndex.mem_keys _).mpr ⟨h, hm⟩)
    · rw [hwalk, hb, hexp, List.foldl_ext _ _ _ fun L x hx => hrec x hx L,
        ExpirationIndex.foldl_remove_toLinked (s.expiration.nodup_bucket b) (fun _ => id) h0]

end Step

/-- **The words are well-formed doubly-linked lists over the live keys** (spec §3 and §7): a
non-null head or pointer names a live key of the same height; the links go both ways; a key has
the null key before it exactly when it heads the list of its height; and the node of a key that
is not live is cleared. So `Remove`, which follows the pointers of its key, never meets a
pointer to a missing node. -/
structure LinkedWellFormed (s : StateAccess) (L : LinkedIndex) : Prop where
  head : ∀ h, L.head h ≠ Bytes.zero 32 →
    s.Live (L.head h) ∧ (s.record (L.head h)).expiresAtBlock = h
  next : ∀ k, s.Live k → (L.node k).nextKey ≠ Bytes.zero 32 →
    s.Live (L.node k).nextKey ∧
      (s.record (L.node k).nextKey).expiresAtBlock = (s.record k).expiresAtBlock ∧
      (L.node (L.node k).nextKey).prevKey = k
  prev : ∀ k, s.Live k → (L.node k).prevKey ≠ Bytes.zero 32 →
    s.Live (L.node k).prevKey ∧
      (s.record (L.node k).prevKey).expiresAtBlock = (s.record k).expiresAtBlock ∧
      (L.node (L.node k).prevKey).nextKey = k
  first : ∀ k, s.Live k →
    ((L.node k).prevKey = Bytes.zero 32 ↔ L.head (s.record k).expiresAtBlock = k)
  cleared : ∀ k, ¬s.Live k → L.node k = .cleared

/-- The layout of buckets that agree with the live keys is well formed. -/
theorem LinkedInv.wellFormed {p : StateAccess × LinkedIndex} (hp : LinkedInv p) :
    LinkedWellFormed p.1 p.2 := by
  obtain ⟨⟨hs, -⟩, h0, hL⟩ := hp
  rw [hL]
  refine ⟨fun h hx => (hs _ h).mp (ExpirationIndex.toLinked_head_mem hx), fun k hl hx => ?_,
    fun k hl hx => ?_, fun k hl => ExpirationIndex.toLinked_prev_eq_zero_iff h0 (hs.mem hl),
    fun k hl => ExpirationIndex.toLinked_node_of_not_mem (hs.not_mem_keys hl)⟩
  · obtain ⟨hm, hb⟩ := ExpirationIndex.toLinked_next h0 (hs.mem hl) hx
    exact ⟨((hs _ _).mp hm).1, ((hs _ _).mp hm).2, hb⟩
  · obtain ⟨hm, hb⟩ := ExpirationIndex.toLinked_prev h0 (hs.mem hl) hx
    exact ⟨((hs _ _).mp hm).1, ((hs _ _).mp hm).2, hb⟩

theorem linkedInv_of_reachable {c : Constants} {p : StateAccess × LinkedIndex}
    (hr : Relation.ReflTransGen (LinkedStep c) (.empty, .empty) p) : LinkedInv p := by
  induction hr with
  | refl => exact ⟨consistent_empty, List.not_mem_nil _, ExpirationIndex.toLinked_empty.symm⟩
  | tail _ hstep ih => exact hstep.linkedInv ih

/-- **The linked words follow the buckets along every run.** In every state a run of store
operations reaches from the empty store and all-zero words, where no stored key is the null key:
the store is consistent, the words are the layout of the buckets, and the sweep's walk of the
words from the head of any bucket, bounded beyond the bucket's size, stops at the null key and
lists exactly what `IteratorOfEntitiesToExpireAtBlock` lists for that height. -/
theorem linked_of_reachable {c : Constants} {p : StateAccess × LinkedIndex}
    (hr : Relation.ReflTransGen (LinkedStep c) (.empty, .empty) p) :
    LinkedInv p ∧ ∀ h fuel, (p.1.expiration.bucket h).length < fuel →
      p.2.walk fuel (p.2.head h) = iteratorOfEntitiesToExpireAtBlock p.1 h ∧
      (p.2.walk fuel (p.2.head h)).length < fuel := by
  have hp := linkedInv_of_reachable hr
  refine ⟨hp, fun h fuel hlt => ?_⟩
  rw [hp.layout, ExpirationIndex.walk_toLinked hp.nonNull, List.take_of_length_le hlt.le]
  exact ⟨rfl, hlt⟩

/-- The run of one `Store`, of the key whose bytes are all 1 and the record `{0, 5}`, from the
empty store and all-zero words. -/
theorem store_one_reachable :
    Relation.ReflTransGen (LinkedStep ⟨Bytes.zero 20, Bytes.zero 32, Bytes.zero 32⟩)
      (.empty, .empty) ((store .empty ⟨List.replicate 32 1, rfl⟩ ⟨Bytes.zero 20, 5⟩).2,
        LinkedIndex.empty.add 5 ⟨List.replicate 32 1, rfl⟩) :=
  .single (.store (not_live_empty _) (by decide) (by decide))

/-- One `Store` from the empty store and all-zero words reaches a state where the words are the
layout of the buckets and every bounded walk lists its bucket. -/
theorem linked_of_reachable_after_store :
    Relation.ReflTransGen (LinkedStep ⟨Bytes.zero 20, Bytes.zero 32, Bytes.zero 32⟩)
        (.empty, .empty) ((store .empty ⟨List.replicate 32 1, rfl⟩ ⟨Bytes.zero 20, 5⟩).2,
          LinkedIndex.empty.add 5 ⟨List.replicate 32 1, rfl⟩) ∧
      LinkedInv ((store .empty ⟨List.replicate 32 1, rfl⟩ ⟨Bytes.zero 20, 5⟩).2,
          LinkedIndex.empty.add 5 ⟨List.replicate 32 1, rfl⟩) :=
  ⟨store_one_reachable, (linked_of_reachable store_one_reachable).1⟩

/-- **No run leaves a dangling pointer.** In every state a run of store operations reaches from
the empty store and all-zero words, the words are well-formed doubly-linked lists over the live
keys, one list per height. -/
theorem linked_wellFormed_of_reachable {c : Constants} {p : StateAccess × LinkedIndex}
    (hr : Relation.ReflTransGen (LinkedStep c) (.empty, .empty) p) : LinkedWellFormed p.1 p.2 :=
  (linkedInv_of_reachable hr).wellFormed

/-- One `Store` from the empty store and all-zero words leaves well-formed words. -/
theorem linked_wellFormed_after_store :
    Relation.ReflTransGen (LinkedStep ⟨Bytes.zero 20, Bytes.zero 32, Bytes.zero 32⟩)
        (.empty, .empty) ((store .empty ⟨List.replicate 32 1, rfl⟩ ⟨Bytes.zero 20, 5⟩).2,
          LinkedIndex.empty.add 5 ⟨List.replicate 32 1, rfl⟩) ∧
      LinkedWellFormed (store .empty ⟨List.replicate 32 1, rfl⟩ ⟨Bytes.zero 20, 5⟩).2
        (LinkedIndex.empty.add 5 ⟨List.replicate 32 1, rfl⟩) :=
  ⟨store_one_reachable, linked_wellFormed_of_reachable store_one_reachable⟩

end Arkiv
