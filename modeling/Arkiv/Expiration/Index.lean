import Mathlib.Data.List.Nodup
import Arkiv.Bytes

/-!
# The expiration index, by its contract

Package `entityexpiration` keeps, for every block height, the set of entity keys that expire
there; the store calls it through `AddToEntitiesToExpireAtBlock`,
`RemoveFromEntitiesToExpire` and `IteratorOfEntitiesToExpireAtBlock`. The package itself is
not part of the source, so it is modelled from its contract in the spec (§4.2): `Add(h, k)`
puts `k` in bucket `h` and needs `k` to be in no bucket; `Remove(h, k)` takes `k` out of
bucket `h` and needs it to be there; `Sweep(h)` lists bucket `h`.

The index is the list of its `(height, key)` entries, newest first, which is the order the
linked lists of the spec hand their members back in. That no key is entered twice is a
field of `Arkiv.ExpirationIndex`: `Arkiv.ExpirationIndex.add` asks for it, so a sweep lists
each member of a bucket once by construction (`Arkiv.ExpirationIndex.nodup_bucket`).
-/

namespace Arkiv

/-- Modelled from the spec: the expiration buckets of package `entityexpiration`, as the
list of the scheduled `(height, key)` pairs, newest first, where no key occurs twice. -/
structure ExpirationIndex where
  entries : List (UInt64 × Hash)
  nodup : (entries.map Prod.snd).Nodup
deriving DecidableEq

namespace ExpirationIndex

variable (ix : ExpirationIndex) {block h : UInt64} {key k : Hash}

/-- The index with no bucket. -/
def empty : ExpirationIndex := ⟨[], List.nodup_nil⟩

/-- Every key the index holds, whatever its bucket. -/
def keys : List Hash := ix.entries.map Prod.snd

/-- Bucket `block`: the keys scheduled to expire at `block`, newest first. -/
def bucket (block : UInt64) : List Hash :=
  ix.entries.filterMap fun e => if e.1 = block then some e.2 else none

/-- `Add(block, key)`: put `key` in front of bucket `block`; `key` must be in no bucket. -/
def add (block : UInt64) (key : Hash) (h : key ∉ ix.keys) : ExpirationIndex :=
  ⟨(block, key) :: ix.entries, List.nodup_cons.mpr ⟨h, ix.nodup⟩⟩

/-- `Remove(block, key)`: take `key` out of bucket `block`. -/
def remove (block : UInt64) (key : Hash) : ExpirationIndex :=
  ⟨ix.entries.filter (· != (block, key)), (List.filter_sublist _).map _ |>.nodup ix.nodup⟩

@[simp] theorem empty_bucket : empty.bucket block = [] := rfl

theorem mem_bucket : k ∈ ix.bucket h ↔ (h, k) ∈ ix.entries := by
  simp [bucket]

theorem mem_keys : k ∈ ix.keys ↔ ∃ h, k ∈ ix.bucket h := by
  simp [keys, mem_bucket]

/-- **A sweep lists each member of a bucket once.** -/
theorem nodup_bucket (h : UInt64) : (ix.bucket h).Nodup := by
  refine List.Nodup.sublist ?_ ix.nodup
  simp only [bucket]
  induction ix.entries with
  | nil => exact .slnil
  | cons e es ih =>
    by_cases he : e.1 = h
    · simpa [he] using ih.cons₂ e.2
    · simpa [he] using ih.cons e.2

/-- A key lies in one bucket at most. -/
theorem eq_of_mem_bucket {h h' : UInt64} (hk : k ∈ ix.bucket h) (hk' : k ∈ ix.bucket h') :
    h = h' := by
  rw [mem_bucket] at hk hk'
  have := List.inj_on_of_nodup_map ix.nodup hk hk' rfl
  exact congrArg Prod.fst this

theorem bucket_add (hk : key ∉ ix.keys) (h : UInt64) :
    (ix.add block key hk).bucket h = if block = h then key :: ix.bucket h else ix.bucket h := by
  by_cases hb : block = h <;> simp [add, bucket, hb]

theorem mem_bucket_remove : k ∈ (ix.remove block key).bucket h ↔
    k ∈ ix.bucket h ∧ (h, k) ≠ (block, key) := by
  simp [remove, mem_bucket]

theorem bucket_remove_of_ne (hb : h ≠ block) : (ix.remove block key).bucket h = ix.bucket h := by
  simp only [remove, bucket]
  induction ix.entries with
  | nil => rfl
  | cons e es ih =>
    by_cases he : e = (block, key)
    · subst he
      simp [Ne.symm hb, ih]
    · by_cases h1 : e.1 = h <;> simp [he, h1, ih]

/-- Removing a key from its bucket keeps the order of the others. -/
theorem bucket_remove_self :
    (ix.remove block key).bucket block = (ix.bucket block).filter (· != key) := by
  simp only [remove, bucket]
  induction ix.entries with
  | nil => rfl
  | cons e es ih =>
    obtain ⟨b, k⟩ := e
    by_cases hb : b = block
    · subst hb
      by_cases hk : k = key <;> simp [hk, ih]
    · simp [hb, ih]

end ExpirationIndex

end Arkiv
