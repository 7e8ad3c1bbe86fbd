import Arkiv.Entity.MetaData
import Arkiv.Expiration.Index

/-!
# The entity store

`Store`, `Delete` and `ExtendBTL` of package `entity`, over a state that holds what they read
and write: the metadata word of every key, and the expiration index. Each is a Go function
that mutates its `StateAccess` as it goes and can return an error half-way, so each is
modelled as a function from a state to its result and the state it leaves, the state written
so far included when it fails.

The three calls into package `entityexpiration` are modelled from the spec (the package is
not part of the source): each performs its contract of §4.2 when its precondition holds. The
spec gives `Add` and `Remove` no failure path; here they fail, changing nothing, when the
precondition does not hold, a convention of this model, so that a run in which no call into
the index fails is a run in which every call met its precondition. The word-level layout of
the spec, which has no such check, is `Arkiv.LinkedIndex`.

Every operation gets one lemma for its successful path, under the conditions that make each
call inside it succeed, and one for its failing reads; everything later is derived from
these and never unfolds the operations again.
-/

namespace Arkiv

/-- `storageutil.StateAccess`, restricted to the words the entity store uses: the metadata
word of each key, and the expiration index. The metadata of `key` sits in the processor's
slot `Keccak256(EntityMetaDataSalt, key)`, a slot modelled as injective in the key, so the
words form a map from keys. -/
structure StateAccess where
  metaData : Hash → Hash
  expiration : ExpirationIndex

namespace StateAccess

/-- The state with no entity. -/
def empty : StateAccess := ⟨fun _ => Bytes.zero 32, .empty⟩

/-- A key is live when its metadata word is not zero. -/
def Live (s : StateAccess) (k : Hash) : Prop := s.metaData k ≠ Bytes.zero 32

instance (s : StateAccess) : DecidablePred s.Live := fun k =>
  inferInstanceAs (Decidable (s.metaData k ≠ Bytes.zero 32))

/-- The record that the word of `k` decodes to. -/
def record (s : StateAccess) (k : Hash) : EntityMetaData := EntityMetaData.unmarshal (s.metaData k)

theorem not_live_empty (k : Hash) : ¬empty.Live k := fun h => h rfl

/-- The state once `k` is out of bucket `block` and its word is zero: what `Delete` leaves. -/
def erase (s : StateAccess) (block : UInt64) (k : Hash) : StateAccess :=
  ⟨Function.update s.metaData k (Bytes.zero 32), s.expiration.remove block k⟩

end StateAccess

open StateAccess

section Operations

variable (access : StateAccess) (key : Hash)

/-- `GetEntityMetaData` as it ships beside `DeleteEntityMetadata` (delete_entity_metadata.go,
lines 52-63): decode the metadata word of `key`, failing on a zero word. The package also
holds a second `GetEntityMetaData` (get_entity_metadata.go, lines 11-20) that never fails, and
the two cannot be built together. The store's operations read this one because §4.1 of the spec
gives `Get(key) -> metadata | NotFound` and has `Delete` "fail NotFound if absent". -/
def getEntityMetaData : Except String EntityMetaData :=
  let value := access.metaData key
  if value = Bytes.zero 32 then .error ("failed to retrieve entity metadata for key " ++ key.hex)
  else .ok (EntityMetaData.unmarshal value)

/-- The other `GetEntityMetaData`, of get_entity_metadata.go (lines 11-20), which decodes
whatever word the slot holds and never fails: an absent key reads as the zero record. It is the
getter a stored record is read back with; the operations use `Arkiv.getEntityMetaData`. -/
def getEntityMetaDataUnchecked : Except String EntityMetaData :=
  .ok (EntityMetaData.unmarshal (access.metaData key))

/-- `StoreEntityMetaData`; its error result is always `nil`, so it is left out. -/
def storeEntityMetaData (emd : EntityMetaData) : StateAccess :=
  { access with metaData := Function.update access.metaData key emd.marshal }

/-- `DeleteEntityMetadata`: zero the metadata word of `key`. -/
def deleteEntityMetadata : StateAccess :=
  { access with metaData := Function.update access.metaData key (Bytes.zero 32) }

/-- Modelled from the spec: `entityexpiration.AddToEntitiesToExpireAtBlock`, which puts
`key` in bucket `block`. §4.2 states `Add` for a key in no bucket and gives it no failure path;
failing with the state unchanged on a key already in a bucket is this model's convention. -/
def addToEntitiesToExpireAtBlock (block : UInt64) : Except String Unit × StateAccess :=
  if hk : key ∈ access.expiration.keys then
    (.error ("entity " ++ key.hex ++ " is already scheduled to expire"), access)
  else (.ok (), { access with expiration := access.expiration.add block key hk })

/-- Modelled from the spec: `entityexpiration.RemoveFromEntitiesToExpire`, which takes `key`
out of bucket `block`. §4.2 gives `Remove` no failure path: on a key whose node is cleared it
resets the bucket's head to that node's null `next`, as `Arkiv.LinkedIndex.remove` does.
Failing with the state unchanged on a key not in the bucket is this model's convention. -/
def removeFromEntitiesToExpire (block : UInt64) : Except String Unit × StateAccess :=
  if key ∈ access.expiration.bucket block then
    (.ok (), { access with expiration := access.expiration.remove block key })
  else (.error ("entity " ++ key.hex ++ " is not scheduled to expire at block " ++ toString block),
    access)

/-- Modelled from the spec: `entityexpiration.IteratorOfEntitiesToExpireAtBlock`, collected
(`slices.Collect`): the members of bucket `block`. -/
def iteratorOfEntitiesToExpireAtBlock (block : UInt64) : List Hash :=
  access.expiration.bucket block

/-- `Store`: write the metadata, then schedule the key at its expiry. The sender and payload
arguments are not read. -/
def store (emd : EntityMetaData) : Except String Unit × StateAccess :=
  let (r, access) :=
    addToEntitiesToExpireAtBlock (storeEntityMetaData access key emd) key emd.expiresAtBlock
  (r.mapError ("failed to add entity to entities to expire: " ++ ·), access)

/-- `Delete`: read the metadata, take the key out of its bucket, zero the metadata; return the
owner. -/
def delete : Except String Address × StateAccess :=
  match getEntityMetaData access key with
  | .error err => (.error ("failed to get entity meta data: " ++ err), access)
  | .ok md =>
    match removeFromEntitiesToExpire access key md.expiresAtBlock with
    | (.error err, access) =>
      (.error ("failed to remove entity from entities to expire: " ++ err), access)
    | (.ok (), access) => (.ok md.owner, deleteEntityMetadata access key)

/-- `ExtendBTL`: move the key from its bucket to the bucket `numberOfBlocks` later, with
`uint64` wrapping addition, and store the new expiry; return the old expiry and the owner. -/
def extendBTL (numberOfBlocks : UInt64) : Except String (UInt64 × Address) × StateAccess :=
  match getEntityMetaData access key with
  | .error err => (.error err, access)
  | .ok entity =>
    match removeFromEntitiesToExpire access key entity.expiresAtBlock with
    | (.error err, access) =>
      (.error ("failed to remove from entities to expire at block " ++
        toString entity.expiresAtBlock ++ ": " ++ err), access)
    | (.ok (), access) =>
      let oldExpiresAtBlock := entity.expiresAtBlock
      let entity := { entity with expiresAtBlock := entity.expiresAtBlock + numberOfBlocks }
      match addToEntitiesToExpireAtBlock access key entity.expiresAtBlock with
      | (.error err, access) =>
        (.error ("failed to add to entities to expire at block " ++
          toString entity.expiresAtBlock ++ ": " ++ err), access)
      | (.ok (), access) =>
        (.ok (oldExpiresAtBlock, entity.owner), storeEntityMetaData access key entity)

end Operations

/-! ### What each operation does -/

section Spec

variable {s : StateAccess} {k : Hash}

theorem getEntityMetaData_of_live (h : s.Live k) : getEntityMetaData s k = .ok (s.record k) :=
  if_neg h

theorem getEntityMetaData_of_not_live (h : ¬s.Live k) :
    getEntityMetaData s k = .error ("failed to retrieve entity metadata for key " ++ k.hex) :=
  if_pos (not_not.mp h)

/-- **A stored record reads back, and only the zero record looks absent.** The codec undoes
itself and sends only `{0, 0}` to the zero word; so after `StoreEntityMetaData` of `{o, h}` at
`k`, the getter of `get_entity_metadata.go` reads `{o, h}` at `k`, the word at `k` differs
from an absent slot's exactly when `(o, h) ≠ (0, 0)`, and every other key reads as before. -/
theorem storeEntityMetaData_reads_back (s : StateAccess) (k : Hash) (o : Address) (h : UInt64) :
    EntityMetaData.unmarshal (EntityMetaData.marshal ⟨o, h⟩) = ⟨o, h⟩ ∧
      (EntityMetaData.marshal ⟨o, h⟩ = Bytes.zero 32 ↔ o = Bytes.zero 20 ∧ h = 0) ∧
      getEntityMetaDataUnchecked (storeEntityMetaData s k ⟨o, h⟩) k = .ok ⟨o, h⟩ ∧
      ((storeEntityMetaData s k ⟨o, h⟩).metaData k ≠ Bytes.zero 32 ↔
        (o, h) ≠ (Bytes.zero 20, 0)) ∧
      ∀ k', k' ≠ k → getEntityMetaDataUnchecked (storeEntityMetaData s k ⟨o, h⟩) k' =
        getEntityMetaDataUnchecked s k' := by
  have hzero : EntityMetaData.marshal ⟨o, h⟩ = Bytes.zero 32 ↔ o = Bytes.zero 20 ∧ h = 0 := by
    rw [EntityMetaData.marshal_eq_zero_iff, EntityMetaData.zero, EntityMetaData.mk.injEq]
  refine ⟨EntityMetaData.unmarshal_marshal _, hzero, ?_, ?_, fun k' hk' => ?_⟩
  · simp [getEntityMetaDataUnchecked, storeEntityMetaData]
  · simp [storeEntityMetaData, hzero]
  · simp [getEntityMetaDataUnchecked, storeEntityMetaData, Function.update_noteq hk']

theorem addToEntitiesToExpireAtBlock_of_not_mem (block : UInt64) (hk : k ∉ s.expiration.keys) :
    addToEntitiesToExpireAtBlock s k block =
      (.ok (), { s with expiration := s.expiration.add block k hk }) :=
  dif_neg hk

theorem removeFromEntitiesToExpire_of_mem {block : UInt64} (hk : k ∈ s.expiration.bucket block) :
    removeFromEntitiesToExpire s k block =
      (.ok (), { s with expiration := s.expiration.remove block k }) :=
  if_pos hk

/-- `Store` of a key in no bucket. -/
theorem store_of_not_mem (emd : EntityMetaData) (hk : k ∉ s.expiration.keys) :
    store s k emd = (.ok (), ⟨Function.update s.metaData k emd.marshal,
      s.expiration.add emd.expiresAtBlock k hk⟩) := by
  have hadd := addToEntitiesToExpireAtBlock_of_not_mem (s := storeEntityMetaData s k emd)
    emd.expiresAtBlock hk
  simp only [store, hadd]
  rfl

/-- `Delete` of a live key that sits in the bucket of its expiry. -/
theorem delete_of_mem (hl : s.Live k) (hk : k ∈ s.expiration.bucket (s.record k).expiresAtBlock) :
    delete s k = (.ok (s.record k).owner, s.erase (s.record k).expiresAtBlock k) := by
  simp only [delete, getEntityMetaData_of_live hl, removeFromEntitiesToExpire_of_mem hk]
  rfl

/-- A key that has left every bucket can be added back. -/
theorem not_mem_keys_remove {block : UInt64} (hk : k ∈ s.expiration.bucket block) :
    k ∉ (s.expiration.remove block k).keys := by
  intro h
  obtain ⟨h', hk'⟩ := (ExpirationIndex.mem_keys _).mp h
  rw [ExpirationIndex.mem_bucket_remove] at hk'
  exact hk'.2 (by rw [s.expiration.eq_of_mem_bucket hk'.1 hk])

/-- `ExtendBTL` of a live key that sits in the bucket of its expiry. -/
theorem extendBTL_of_mem (n : UInt64) (hl : s.Live k)
    (hk : k ∈ s.expiration.bucket (s.record k).expiresAtBlock) :
    extendBTL s k n = (.ok ((s.record k).expiresAtBlock, (s.record k).owner),
      ⟨Function.update s.metaData k
          (EntityMetaData.marshal ⟨(s.record k).owner, (s.record k).expiresAtBlock + n⟩),
        (s.expiration.remove (s.record k).expiresAtBlock k).add
          ((s.record k).expiresAtBlock + n) k (not_mem_keys_remove hk)⟩) := by
  simp only [extendBTL, getEntityMetaData_of_live hl, removeFromEntitiesToExpire_of_mem hk]
  rw [addToEntitiesToExpireAtBlock_of_not_mem _ (not_mem_keys_remove hk)]
  rfl

/-- **`Delete` and `ExtendBTL` of an absent key fail before they touch anything**: the read of
the metadata fails, and the state comes back as it was, so no call into the index is made
and no word is written. -/
theorem delete_extendBTL_of_zero_word (hk : s.metaData k = Bytes.zero 32) :
    delete s k = (.error ("failed to get entity meta data: " ++
      ("failed to retrieve entity metadata for key " ++ k.hex)), s) ∧
    ∀ n, extendBTL s k n = (.error ("failed to retrieve entity metadata for key " ++ k.hex), s) :=
  have hl : ¬s.Live k := not_not.mpr hk
  ⟨by simp only [delete, getEntityMetaData_of_not_live hl],
    fun n => by simp only [extendBTL, getEntityMetaData_of_not_live hl]⟩

/-- Beside a stored entity, another key still has the zero word, and both calls on it leave
the store as it was. -/
theorem delete_extendBTL_of_zero_word_beside_entity :
    (store .empty ⟨List.replicate 32 1, rfl⟩ ⟨Bytes.zero 20, 5⟩).2.metaData
        ⟨List.replicate 32 2, rfl⟩ = Bytes.zero 32 ∧
      (delete (store .empty ⟨List.replicate 32 1, rfl⟩ ⟨Bytes.zero 20, 5⟩).2
        ⟨List.replicate 32 2, rfl⟩).2 =
        (store .empty ⟨List.replicate 32 1, rfl⟩ ⟨Bytes.zero 20, 5⟩).2 ∧
      (extendBTL (store .empty ⟨List.replicate 32 1, rfl⟩ ⟨Bytes.zero 20, 5⟩).2
        ⟨List.replicate 32 2, rfl⟩ 7).2 =
        (store .empty ⟨List.replicate 32 1, rfl⟩ ⟨Bytes.zero 20, 5⟩).2 :=
  have hk : (store .empty ⟨List.replicate 32 1, rfl⟩ ⟨Bytes.zero 20, 5⟩).2.metaData
      ⟨List.replicate 32 2, rfl⟩ = Bytes.zero 32 := by decide
  ⟨hk, congrArg Prod.snd (delete_extendBTL_of_zero_word hk).1,
    congrArg Prod.snd ((delete_extendBTL_of_zero_word hk).2 7)⟩

end Spec

end Arkiv
