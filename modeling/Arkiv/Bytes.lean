import Mathlib.Algebra.Group.Nat.Basic
import Mathlib.Data.List.Basic

/-!
# Words, addresses and big-endian integers

The storage engine keeps everything in fixed-size byte arrays: a `common.Hash` is 32 bytes
(an entity key, a storage word, a log topic), a `common.Address` 20 bytes. This file models
them as `Arkiv.Bytes n`, a byte list that carries its length, together with the three
conversions the code applies to them:

| Go | model | law |
|---|---|---|
| `common.BytesToHash`, `common.BytesToAddress` | `Arkiv.Bytes.ofSlice` | `Arkiv.Bytes.ofSlice_toList` |
| `binary.BigEndian.PutUint64` | `Arkiv.bigEndianPutUint64` | `Arkiv.beNat_bigEndianPutUint64` |
| `binary.BigEndian.Uint64` | `Arkiv.bigEndianUint64` | `Arkiv.bigEndianUint64_putUint64` |

`uint64` values stay `UInt64`, with Go's wrapping arithmetic; the few facts about them that
the later files need are read off through `UInt64.toNat`.
-/

namespace Arkiv

/-! ### `uint64` arithmetic through `toNat` -/

section Word

variable {a b : UInt64}

theorem uint64_toNat_add (a b : UInt64) : (a + b).toNat = (a.toNat + b.toNat) % 2 ^ 64 := by
  simp [UInt64.add_def, UInt64.toNat, BitVec.toNat_add]

theorem uint64_toNat_lt (a : UInt64) : a.toNat < 2 ^ 64 := a.toBitVec.isLt

theorem uint64_le_iff : a ≤ b ↔ a.toNat ≤ b.toNat := by
  simp [UInt64.le_def, UInt64.toNat, BitVec.le_def]

theorem uint64_lt_iff : a < b ↔ a.toNat < b.toNat := by
  simp [UInt64.lt_def, UInt64.toNat, BitVec.lt_def]

theorem uint64_eq_iff : a = b ↔ a.toNat = b.toNat :=
  ⟨congrArg _, UInt64.toNat.inj⟩

@[simp] theorem uint64_toNat_ofNat (n : Nat) : (UInt64.ofNat n).toNat = n % 2 ^ 64 := by
  simp [UInt64.ofNat, UInt64.toNat, BitVec.toNat_ofNat]

/-- A sum that stays below `2 ^ 64` is the exact sum. -/
theorem uint64_toNat_add_of_lt (h : a.toNat + b.toNat < 2 ^ 64) :
    (a + b).toNat = a.toNat + b.toNat := by
  rw [uint64_toNat_add, Nat.mod_eq_of_lt h]

theorem uint64_toNat_min (a b : UInt64) : (min a b).toNat = min a.toNat b.toNat := by
  show (if a ≤ b then a else b).toNat = _
  split_ifs with h
  · exact (Nat.min_eq_left (uint64_le_iff.mp h)).symm
  · exact (Nat.min_eq_right (by rw [uint64_le_iff] at h; omega)).symm

@[simp] theorem uint8_toNat_ofNat (n : Nat) : (UInt8.ofNat n).toNat = n % 256 := by
  simp [UInt8.ofNat, UInt8.toNat, BitVec.toNat_ofNat]

theorem uint8_toNat_lt (b : UInt8) : b.toNat < 256 := b.toBitVec.isLt

end Word

/-! ### Fixed-width byte strings -/

/-- `n` bytes, as Go's fixed-size byte arrays hold them. -/
structure Bytes (n : Nat) where
  toList : List UInt8
  length_toList : toList.length = n
deriving DecidableEq, Repr

/-- `common.Hash`: an entity key, a storage word or a log topic. -/
abbrev Hash := Bytes 32

/-- `common.Address`. -/
abbrev Address := Bytes 20

namespace Bytes

variable {n : Nat}

attribute [simp] length_toList

theorem toList_injective : Function.Injective (toList : Bytes n → List UInt8) := by
  rintro ⟨l, hl⟩ ⟨l', hl'⟩ h
  cases h
  rfl

/-- The zero value `common.Hash{}` / `common.Address{}`. -/
def zero (n : Nat) : Bytes n := ⟨List.replicate n 0, List.length_replicate n 0⟩

@[simp] theorem zero_toList : (zero n).toList = List.replicate n 0 := rfl

/-- `SetBytes` of Go's fixed arrays, behind `common.BytesToHash` and
`common.BytesToAddress`: keep the last `n` bytes of `b`, and left-pad with zeros when `b`
is shorter. -/
def ofSlice (n : Nat) (b : List UInt8) : Bytes n :=
  ⟨List.replicate (n - b.length) 0 ++ b.drop (b.length - n), by simp; omega⟩

/-- Converting an array's own bytes back gives the array. -/
@[simp] theorem ofSlice_toList (b : Bytes n) : ofSlice n b.toList = b :=
  toList_injective (by simp [ofSlice])

theorem ofSlice_of_length {b : List UInt8} (h : b.length = n) : (ofSlice n b).toList = b := by
  simp [ofSlice, h]

/-- The lowercase hex digits of a byte. -/
def hexByte (x : UInt8) : String :=
  String.mk [Nat.digitChar (x.toNat / 16), Nat.digitChar (x.toNat % 16)]

/-- `Hash.Hex()`: `0x` followed by two lowercase hex digits per byte. -/
def hex (b : Bytes n) : String :=
  "0x" ++ String.join (b.toList.map hexByte)

end Bytes

/-- `common.BytesToHash`. -/
def bytesToHash (b : List UInt8) : Hash := Bytes.ofSlice 32 b

/-- `common.BytesToAddress`. -/
def bytesToAddress (b : List UInt8) : Address := Bytes.ofSlice 20 b

/-! ### Big-endian integers -/

/-- The number a big-endian byte string spells. -/
def beNat (l : List UInt8) : Nat :=
  l.foldl (fun acc x => 256 * acc + x.toNat) 0

/-- The `w` low bytes of `v`, most significant first. -/
def beBytes : Nat → Nat → List UInt8
  | 0, _ => []
  | w + 1, v => beBytes w (v / 256) ++ [UInt8.ofNat (v % 256)]

@[simp] theorem beNat_nil : beNat [] = 0 := rfl

@[simp] theorem beNat_append_singleton (l : List UInt8) (x : UInt8) :
    beNat (l ++ [x]) = 256 * beNat l + x.toNat := by
  simp [beNat, List.foldl_append]

@[simp] theorem length_beBytes (w v : Nat) : (beBytes w v).length = w := by
  induction w generalizing v with
  | zero => rfl
  | succ w ih => simp [beBytes, ih]

/-- Reading back `w` big-endian bytes gives the value modulo `256 ^ w`. -/
theorem beNat_beBytes (w v : Nat) : beNat (beBytes w v) = v % 256 ^ w := by
  induction w generalizing v with
  | zero => simp [beBytes, Nat.mod_one]
  | succ w ih =>
    rw [beBytes, beNat_append_singleton, ih, uint8_toNat_ofNat, Nat.mod_mod, Nat.pow_succ',
      Nat.mod_mul]
    omega

theorem beNat_replicate_zero (w : Nat) : beNat (List.replicate w 0) = 0 := by
  induction w with
  | zero => rfl
  | succ w ih => rw [List.replicate_succ', beNat_append_singleton, ih]; rfl

/-- `binary.BigEndian.PutUint64`: the eight bytes of `v`, most significant first. -/
def bigEndianPutUint64 (v : UInt64) : List UInt8 := beBytes 8 v.toNat

/-- `binary.BigEndian.Uint64`: the `uint64` spelled by the first eight bytes of `b`. -/
def bigEndianUint64 (b : List UInt8) : UInt64 := UInt64.ofNat (beNat (b.take 8))

@[simp] theorem length_bigEndianPutUint64 (v : UInt64) : (bigEndianPutUint64 v).length = 8 :=
  length_beBytes 8 _

theorem beNat_bigEndianPutUint64 (v : UInt64) : beNat (bigEndianPutUint64 v) = v.toNat := by
  rw [bigEndianPutUint64, beNat_beBytes]
  exact Nat.mod_eq_of_lt (uint64_toNat_lt v)

/-- **The codec of an expiry round-trips.** -/
theorem bigEndianUint64_putUint64 (v : UInt64) : bigEndianUint64 (bigEndianPutUint64 v) = v := by
  apply UInt64.toNat.inj
  rw [bigEndianUint64, List.take_of_length_le (by simp), beNat_bigEndianPutUint64,
    uint64_toNat_ofNat, Nat.mod_eq_of_lt (uint64_toNat_lt v)]

theorem beNat_lt (l : List UInt8) : beNat l < 256 ^ l.length := by
  induction l using List.reverseRecOn with
  | nil => simp
  | append_singleton l x ih =>
    rw [beNat_append_singleton, List.length_append, List.length_singleton, Nat.pow_succ]
    have := uint8_toNat_lt x
    omega

/-- Writing back the value of a big-endian byte string, in as many bytes, gives the string. -/
theorem beBytes_beNat (l : List UInt8) : beBytes l.length (beNat l) = l := by
  induction l using List.reverseRecOn with
  | nil => rfl
  | append_singleton l x ih =>
    have hx := uint8_toNat_lt x
    rw [List.length_append, List.length_singleton, beBytes, beNat_append_singleton,
      show (256 * beNat l + x.toNat) / 256 = beNat l by omega,
      show (256 * beNat l + x.toNat) % 256 = x.toNat by omega, ih]
    congr
    exact UInt8.toNat.inj (by rw [uint8_toNat_ofNat, Nat.mod_eq_of_lt hx])

/-- Every eight bytes are the encoding of the `uint64` they spell. -/
theorem bigEndianPutUint64_uint64 {l : List UInt8} (hl : l.length = 8) :
    bigEndianPutUint64 (bigEndianUint64 l) = l := by
  have := beNat_lt l
  rw [hl] at this
  rw [bigEndianPutUint64, bigEndianUint64, List.take_of_length_le hl.le, uint64_toNat_ofNat,
    Nat.mod_eq_of_lt (by omega), ← hl, beBytes_beNat]

/-- The encoding of `v` is all zeros exactly when `v = 0`. -/
theorem bigEndianPutUint64_eq_zero_iff (v : UInt64) :
    bigEndianPutUint64 v = List.replicate 8 0 ↔ v = 0 := by
  constructor
  · intro h
    have := beNat_bigEndianPutUint64 v
    rw [h, beNat_replicate_zero] at this
    exact UInt64.toNat.inj this.symm
  · rintro rfl
    rfl

end Arkiv
