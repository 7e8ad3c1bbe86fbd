import Arkiv.Bytes

/-!
# The metadata word of an entity

An entity's owner and expiry height are packed into one storage word: the owner in bytes
0–19, four zero bytes, and the expiry, big-endian, in bytes 24–31
(`EntityMetaData.Marshal` / `Unmarshal`). The store tells a live entity from an absent one
by whether this word is zero, so two facts about the codec carry the whole storage layer:

* decoding undoes encoding (`Arkiv.EntityMetaData.unmarshal_marshal`), and
* a record encodes to the zero word only when it is the zero record
  (`Arkiv.EntityMetaData.marshal_eq_zero_iff`).

Encoding does not undo decoding: `Unmarshal` skips bytes 20–23, so a word is the encoding of
the record it decodes to exactly when those bytes are zero
(`Arkiv.EntityMetaData.marshal_unmarshal`).

The second is why a record `{0, 0}` can never be stored as a live entity.
-/

namespace Arkiv

/-- `EntityMetaData`: the owner of an entity and the height at which it expires. -/
structure EntityMetaData where
  owner : Address
  expiresAtBlock : UInt64
deriving DecidableEq, Repr

namespace EntityMetaData

/-- The zero record `EntityMetaData{}`. -/
def zero : EntityMetaData := ⟨Bytes.zero 20, 0⟩

/-- `EntityMetaData.Marshal`: copy the owner into bytes 0–19 and put the expiry big-endian
into bytes 24–31 of a zero word. -/
def marshal (emd : EntityMetaData) : Hash :=
  ⟨emd.owner.toList ++ List.replicate 4 0 ++ bigEndianPutUint64 emd.expiresAtBlock, by simp⟩

/-- `EntityMetaData.Unmarshal`: the owner from bytes 0–19, the expiry from bytes 24–31. -/
def unmarshal (hash : Hash) : EntityMetaData :=
  { owner := bytesToAddress (hash.toList.take 20)
    expiresAtBlock := bigEndianUint64 (hash.toList.drop 24) }

/-- **Decoding undoes encoding.** -/
@[simp] theorem unmarshal_marshal (emd : EntityMetaData) : unmarshal (marshal emd) = emd := by
  obtain ⟨owner, e⟩ := emd
  have hlen : (owner.toList ++ List.replicate 4 0).length = 24 := by simp
  simp only [unmarshal, marshal, List.append_assoc]
  rw [List.take_left' (by simp), ← List.append_assoc, List.drop_left' hlen]
  simp [bytesToAddress, bigEndianUint64_putUint64]

/-- **Only the zero record encodes to the zero word.** -/
theorem marshal_eq_zero_iff (emd : EntityMetaData) :
    marshal emd = Bytes.zero 32 ↔ emd = zero := by
  obtain ⟨owner, e⟩ := emd
  constructor
  · intro h
    have hl : (owner.toList ++ List.replicate 4 0) ++ bigEndianPutUint64 e =
        (List.replicate 20 0 ++ List.replicate 4 0) ++ List.replicate 8 0 := by
      rw [show owner.toList ++ _ ++ _ = (marshal ⟨owner, e⟩).toList from rfl, h]
      rfl
    obtain ⟨ho, he⟩ := List.append_inj hl (by simp)
    rw [List.append_left_inj] at ho
    rw [zero, EntityMetaData.mk.injEq, ← (bigEndianPutUint64_eq_zero_iff e)]
    exact ⟨Bytes.toList_injective ho, he⟩
  · rintro ⟨⟩
    rfl

/-- **A word is the encoding of its record exactly when its padding is zero.** -/
theorem marshal_unmarshal (hash : Hash) :
    marshal (unmarshal hash) = hash ↔ (hash.toList.drop 20).take 4 = List.replicate 4 0 := by
  have hlen := hash.length_toList
  have hword : (marshal (unmarshal hash)).toList =
      hash.toList.take 20 ++ List.replicate 4 0 ++ hash.toList.drop 24 := by
    simp only [marshal, unmarshal, bytesToAddress,
      Bytes.ofSlice_of_length (by simp [hlen] : (hash.toList.take 20).length = 20),
      bigEndianPutUint64_uint64 (by simp [hlen] : (hash.toList.drop 24).length = 8)]
  have hsplit : hash.toList =
      hash.toList.take 20 ++ (hash.toList.drop 20).take 4 ++ hash.toList.drop 24 := by
    rw [List.append_assoc, ← List.drop_drop 4 20, List.take_append_drop, List.take_append_drop]
  rw [← Bytes.toList_injective.eq_iff, hword]
  conv_lhs => rhs; rw [hsplit]
  rw [List.append_left_inj, List.append_right_inj, eq_comm]

end EntityMetaData

end Arkiv
