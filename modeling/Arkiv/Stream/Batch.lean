import Arkiv.Events.BlockToEvents

/-!
# One pass of the batch iterator

After the iterator of `NewChainBatchIterator` has taken a head `newBlockNumber`, it runs one
closure: when the head is past `lastBlock`, it reads the heights `lastBlock + 1`, …, at most
100 of them and never past the head, and appends each converted block to the batch. Four
checks end the loop early: a zero canonical hash, missing receipts, a second `ReadBlock` that
finds nothing, and a conversion error. The early return leaves in the batch what the loop had
appended, so a pass yields the blocks read *before* the first such height, not nothing.

The first `ReadBlock` is not checked: its block's number and time are read to look up the
receipts, so a canonical hash without its block is a nil dereference (`Arkiv.batchBlockAt`).

The loop returns the blocks of the heights before the first early return, or panics at the
first height that panics (`Arkiv.readBatch_cases`); over heights that are all read in full a
pass returns every one of them (`Arkiv.nextBatch_of_ready`). Over a well-numbered database a
batch is a run of heights right after `lastBlock` (`Arkiv.nextBatch_numbers`), and it stops
at the head, at 100 heights, or before a height not read in full (`Arkiv.nextBatch_stops`).

| Go | Lean |
|---|---|
| the loop body at `lastBlock + i + 1` | `Arkiv.batchBlockAt` |
| `for i := range batchSize` | `Arkiv.readBatch` |
| the closure after the head is taken | `Arkiv.nextBatch` |

The database is read as one state per pass (`Arkiv.Database`), and `rawdb.ReadReceipts`
ignores the chain configuration.
-/

namespace Arkiv

open Events Outcome

/-- The three reads of `rawdb` the iterator makes, on one state of the chain database. -/
structure Database where
  /-- `rawdb.ReadCanonicalHash`: the zero hash when the height has no canonical block. -/
  readCanonicalHash : UInt64 → Hash
  /-- `rawdb.ReadBlock(db, hash, number)`: `nil` when absent. -/
  readBlock : Hash → UInt64 → Option Block
  /-- `rawdb.ReadReceipts(db, hash, number, time, config)`: `nil` when absent. -/
  readReceipts : Hash → UInt64 → UInt64 → Option (List Receipt)

/-- A database whose `ReadBlock(hash, n)` only ever returns a block numbered `n`. -/
def Database.WellNumbered (db : Database) : Prop :=
  ∀ hash n b, db.readBlock hash n = some b → b.number = n

/-- Go's message for a method call on a nil pointer. -/
def nilPointerDereference : String :=
  "runtime error: invalid memory address or nil pointer dereference"

section Pass

variable (c : Constants) (decoder : Decoder) (db : Database)

/-- The body of the batch loop at `blockNumber`: the converted block, or `none` where the loop
returns early. -/
def batchBlockAt (blockNumber : UInt64) : Outcome (Option Events.Block) :=
  let hash := db.readCanonicalHash blockNumber
  if hash = Bytes.zero 32 then ok none else
  match db.readBlock hash blockNumber with
  | none => .panic nilPointerDereference
  | some bl =>
    match db.readReceipts hash bl.number bl.time with
    | none => ok none
    | some receipts =>
      match db.readBlock bl.hash bl.number with
      | none => ok none
      | some block =>
        match blockToEvents c decoder block receipts with
        | .ok batchBlock => ok (some batchBlock)
        | .error _ => ok none
        | .panic p => .panic p

/-- The batch loop from round `i` on, with `n` rounds left: round `i` reads height
`lastBlock + i + 1`, and the first early return ends the loop. -/
def readBatch (lastBlock : UInt64) (i : Nat) : Nat → Outcome (List Events.Block)
  | 0 => ok []
  | n + 1 => do
    match ← batchBlockAt c decoder db (lastBlock + UInt64.ofNat i + 1) with
    | none => ok []
    | some batchBlock =>
      let rest ← readBatch lastBlock (i + 1) n
      return batchBlock :: rest

/-- The closure of the iterator loop after it has taken head `newBlockNumber`: nothing when
the head is not past `lastBlock`, otherwise the batch of `min(100, newBlockNumber - lastBlock)`
rounds. -/
def nextBatch (lastBlock newBlockNumber : UInt64) : Outcome (List Events.Block) :=
  if newBlockNumber ≤ lastBlock then ok [] else
  readBatch c decoder db lastBlock 0 (min 100 (newBlockNumber - lastBlock)).toNat

end Pass

/-! ### One height -/

section Height

variable {c : Constants} {decoder : Decoder} {db : Database} {blockNumber : UInt64}

/-- A height is read in full when its canonical hash, its block, its receipts and the block
again are present and the block converts. -/
theorem batchBlockAt_eq_some {b : Events.Block} :
    batchBlockAt c decoder db blockNumber = ok (some b) ↔
      db.readCanonicalHash blockNumber ≠ Bytes.zero 32 ∧
      ∃ bl receipts block,
        db.readBlock (db.readCanonicalHash blockNumber) blockNumber = some bl ∧
        db.readReceipts (db.readCanonicalHash blockNumber) bl.number bl.time = some receipts ∧
        db.readBlock bl.hash bl.number = some block ∧
        blockToEvents c decoder block receipts = ok b := by
  unfold batchBlockAt
  dsimp only
  split_ifs with hz
  · simp [hz]
  simp only [ne_eq, hz, not_false_eq_true, true_and]
  split <;> rename_i hbl
  · simp [hbl]
  split <;> rename_i hr
  · simp [hbl, hr]
  split <;> rename_i hb
  · simp [hbl, hr, hb]
  split <;> rename_i he <;> simp [hbl, hr, hb, he]

theorem batchBlockAt_ne_error (e : String) : batchBlockAt c decoder db blockNumber ≠ error e := by
  unfold batchBlockAt
  dsimp only
  split_ifs
  · nofun
  split
  · nofun
  split
  · nofun
  split
  · nofun
  split <;> nofun

/-- In a well-numbered database a height read in full is that height's block. -/
theorem batchBlockAt_number (hdb : db.WellNumbered) {b : Events.Block}
    (h : batchBlockAt c decoder db blockNumber = ok (some b)) : b.number = blockNumber := by
  obtain ⟨-, bl, receipts, block, hbl, -, hblock, hb⟩ := batchBlockAt_eq_some.mp h
  rw [blockToEvents_number hb, hdb _ _ _ hblock, hdb _ _ _ hbl]

end Height

/-! ### The batch loop -/

section Loop

variable (c : Constants) (decoder : Decoder) (db : Database) (lastBlock : UInt64)

/-- **The batch loop** from round `i`, with `n` rounds left: either it returns the blocks of
the rounds before the first early return, or it panics at the first round that panics. -/
theorem readBatch_cases : ∀ (i n : Nat),
    (∃ bs, readBatch c decoder db lastBlock i n = ok bs ∧ bs.length ≤ n ∧
      (∀ j (hj : j < bs.length),
        batchBlockAt c decoder db (lastBlock + UInt64.ofNat (i + j) + 1) = ok (some bs[j])) ∧
      (bs.length < n →
        batchBlockAt c decoder db (lastBlock + UInt64.ofNat (i + bs.length) + 1) = ok none)) ∨
    (∃ j < n, ∃ p, readBatch c decoder db lastBlock i n = .panic p ∧
      (∀ j' < j, ∃ b, batchBlockAt c decoder db (lastBlock + UInt64.ofNat (i + j') + 1) =
        ok (some b)) ∧
      batchBlockAt c decoder db (lastBlock + UInt64.ofNat (i + j) + 1) = .panic p)
  | _, 0 => .inl ⟨[], rfl, le_refl _, nofun, nofun⟩
  | i, n + 1 => by
    have hshift : ∀ j, i + 1 + j = i + (j + 1) := fun j => by omega
    cases h : batchBlockAt c decoder db (lastBlock + UInt64.ofNat i + 1) with
    | error e => exact absurd h (batchBlockAt_ne_error e)
    | panic p =>
      exact .inr ⟨0, by omega, p, by simp [readBatch, h], nofun, by simpa using h⟩
    | ok b =>
      cases b with
      | none =>
        exact .inl ⟨[], by simp [readBatch, h], by simp, nofun, fun _ => by simpa using h⟩
      | some b =>
        rcases readBatch_cases (i + 1) n with
          ⟨bs, hbs, hlen, hread, hstop⟩ | ⟨j, hj, p, hp, hread, hpanic⟩
        · refine .inl ⟨b :: bs, by simp [readBatch, h, hbs], by simpa using hlen, ?_, ?_⟩
          · rintro (_ | j) hj
            · simpa using h
            · simpa [hshift] using hread j (by simpa using hj)
          · intro hlt
            simpa [hshift] using hstop (by simpa using hlt)
        · refine .inr ⟨j + 1, by omega, p, by simp [readBatch, h, hp], ?_,
            by simpa [hshift] using hpanic⟩
          rintro (_ | j') hj'
          · exact ⟨b, by simpa using h⟩
          · simpa [hshift] using hread j' (by omega)

/-- The number of rounds of a pass past `lastBlock`. -/
theorem nextBatch_of_lt {newBlockNumber : UInt64} (hH : lastBlock < newBlockNumber) :
    nextBatch c decoder db lastBlock newBlockNumber =
      readBatch c decoder db lastBlock 0 (min 100 (newBlockNumber.toNat - lastBlock.toNat)) := by
  rw [nextBatch, if_neg (by rw [uint64_le_iff]; rw [uint64_lt_iff] at hH; omega),
    uint64_toNat_min,
    UInt64.toNat_sub_of_le _ _ (by rw [uint64_le_iff]; rw [uint64_lt_iff] at hH; omega)]
  rfl

end Loop

/-! ### Over a well-numbered database -/

section Numbers

variable {c : Constants} {decoder : Decoder} {db : Database} {lastBlock : UInt64}

theorem toNat_add_ofNat_add_one {j : Nat} (h : lastBlock.toNat + j + 1 < 2 ^ 64) :
    (lastBlock + UInt64.ofNat j + 1).toNat = lastBlock.toNat + j + 1 := by
  have hj : (UInt64.ofNat j).toNat = j := by rw [uint64_toNat_ofNat]; omega
  have hs : (lastBlock + UInt64.ofNat j).toNat = lastBlock.toNat + j := by
    rw [uint64_toNat_add_of_lt (by rw [hj]; omega), hj]
  rw [uint64_toNat_add_of_lt (by rw [hs]; exact h), hs]
  rfl

/-- A pass that returns blocks was past `lastBlock`, and its blocks are the heights read in
full before the first early return. -/
theorem nextBatch_eq_ok {newBlockNumber : UInt64} {bs : List Events.Block}
    (h : nextBatch c decoder db lastBlock newBlockNumber = ok bs) (hne : bs ≠ []) :
    lastBlock < newBlockNumber ∧
      bs.length ≤ min 100 (newBlockNumber.toNat - lastBlock.toNat) ∧
      (∀ j (hj : j < bs.length),
        batchBlockAt c decoder db (lastBlock + UInt64.ofNat j + 1) = ok (some bs[j])) ∧
      (bs.length < min 100 (newBlockNumber.toNat - lastBlock.toNat) →
        batchBlockAt c decoder db (lastBlock + UInt64.ofNat bs.length + 1) = ok none) := by
  by_cases hH : lastBlock < newBlockNumber
  · rw [nextBatch_of_lt c decoder db lastBlock hH] at h
    rcases readBatch_cases c decoder db lastBlock 0
        (min 100 (newBlockNumber.toNat - lastBlock.toNat)) with ⟨bs', h', hlen, hread, hstop⟩ | ⟨_, _, p, hp, -⟩
    · obtain rfl : bs = bs' := by rw [h'] at h; cases h; rfl
      exact ⟨hH, hlen, by simpa using hread, by simpa using hstop⟩
    · rw [hp] at h
      cases h
  · rw [nextBatch, if_pos (by rw [uint64_le_iff]; rw [uint64_lt_iff] at hH; omega)] at h
    cases h
    exact absurd rfl hne

/-- A pass past `lastBlock` over heights that are all read in full returns every one of them:
`min(100, H - lastBlock)` blocks. -/
theorem nextBatch_of_ready {newBlockNumber : UInt64} (hH : lastBlock < newBlockNumber)
    (hready : ∀ j < min 100 (newBlockNumber.toNat - lastBlock.toNat),
      ∃ b, batchBlockAt c decoder db (lastBlock + UInt64.ofNat j + 1) = ok (some b)) :
    ∃ bs, nextBatch c decoder db lastBlock newBlockNumber = ok bs ∧
      bs.length = min 100 (newBlockNumber.toNat - lastBlock.toNat) := by
  rw [nextBatch_of_lt c decoder db lastBlock hH]
  rcases readBatch_cases c decoder db lastBlock 0
      (min 100 (newBlockNumber.toNat - lastBlock.toNat)) with
    ⟨bs, hbs, hlen, -, hstop⟩ | ⟨j, hj, p, -, -, hpanic⟩
  · refine ⟨bs, hbs, le_antisymm hlen (not_lt.mp fun hlt => ?_)⟩
    obtain ⟨b, hb⟩ := hready bs.length hlt
    have hnone := hstop hlt
    rw [Nat.zero_add, hb] at hnone
    cases hnone
  · obtain ⟨b, hb⟩ := hready j hj
    rw [Nat.zero_add, hb] at hpanic
    cases hpanic

/-- **A non-empty batch of a well-numbered database** is a run of at most 100 heights right
after `lastBlock`, none past the head. -/
theorem nextBatch_numbers (hdb : db.WellNumbered) {newBlockNumber : UInt64}
    {bs : List Events.Block} (h : nextBatch c decoder db lastBlock newBlockNumber = ok bs)
    (hne : bs ≠ []) :
    bs.length ≤ 100 ∧ lastBlock.toNat + bs.length ≤ newBlockNumber.toNat ∧
      bs.map (·.number.toNat) = List.range' (lastBlock.toNat + 1) bs.length := by
  obtain ⟨hH, hlen, hread, -⟩ := nextBatch_eq_ok h hne
  have hlt := uint64_lt_iff.mp hH
  have h64 := uint64_toNat_lt newBlockNumber
  refine ⟨by omega, by omega, List.ext_getElem (by simp) fun j hj _ => ?_⟩
  have hj' : j < bs.length := by simpa using hj
  rw [List.getElem_map, List.getElem_range', batchBlockAt_number hdb (hread j hj'),
    toNat_add_ofNat_add_one (by omega)]
  omega

/-- The last block of a non-empty well-numbered batch is `lastBlock` plus its length. -/
theorem nextBatch_getLast (hdb : db.WellNumbered) {newBlockNumber : UInt64}
    {bs : List Events.Block} (h : nextBatch c decoder db lastBlock newBlockNumber = ok bs)
    (hne : bs ≠ []) : (bs.getLast hne).number.toNat = lastBlock.toNat + bs.length := by
  have hmap := (nextBatch_numbers hdb h hne).2.2
  have hpos := List.length_pos.mpr hne
  have := congrArg (·[bs.length - 1]?) hmap
  simp only [List.getElem?_map, List.getElem?_range', Nat.sub_lt hpos Nat.one_pos, if_true,
    List.getElem?_eq_getElem (Nat.sub_lt hpos Nat.one_pos), Option.map_some',
    Option.some.injEq] at this
  rw [List.getLast_eq_getElem, this]
  omega

/-- **Why a well-numbered pass stops where it does**: its last block is the head, or the
100th height, or the height after it was not read in full. -/
theorem nextBatch_stops (hdb : db.WellNumbered) {newBlockNumber : UInt64}
    {bs : List Events.Block} (h : nextBatch c decoder db lastBlock newBlockNumber = ok bs)
    (hne : bs ≠ []) :
    (bs.getLast hne).number = newBlockNumber ∨
      (bs.getLast hne).number.toNat = lastBlock.toNat + 100 ∨
      batchBlockAt c decoder db ((bs.getLast hne).number + 1) = ok none := by
  obtain ⟨hH, hlen, -, hstop⟩ := nextBatch_eq_ok h hne
  have hlast := nextBatch_getLast hdb h hne
  have hle := (nextBatch_numbers hdb h hne).2.1
  have hlt := uint64_lt_iff.mp hH
  by_cases hfull : bs.length < min 100 (newBlockNumber.toNat - lastBlock.toNat)
  · right; right
    have hsum : lastBlock + UInt64.ofNat bs.length = (bs.getLast hne).number := by
      rw [uint64_eq_iff, hlast, uint64_toNat_add_of_lt] <;>
        rw [uint64_toNat_ofNat, Nat.mod_eq_of_lt (by have := uint64_toNat_lt newBlockNumber; omega)]
      have := uint64_toNat_lt newBlockNumber
      omega
    rw [← hsum]
    exact hstop hfull
  · by_cases h100 : 100 ≤ newBlockNumber.toNat - lastBlock.toNat
    · exact .inr (.inl (by omega))
    · exact .inl (uint64_eq_iff.mpr (by omega))

end Numbers

/-! ### Two databases -/

section Databases

variable {c : Constants} {decoder : Decoder}

/-- A database with every block, empty and with no receipts, but the canonical hash of
height 1 alone. -/
def heightOneOnly : Database :=
  ⟨fun h => if h = 1 then ⟨List.replicate 32 1, rfl⟩ else Bytes.zero 32,
    fun _ n => some ⟨n, 0, ⟨List.replicate 32 1, rfl⟩, []⟩, fun _ _ _ => some []⟩

theorem heightOneOnly_wellNumbered : heightOneOnly.WellNumbered := by
  intro _ n b h
  cases h
  rfl

/-- A database in which every height has its canonical hash, its block, empty, and no
receipts. -/
def everyHeight : Database :=
  ⟨fun _ => ⟨List.replicate 32 1, rfl⟩, fun _ n => some ⟨n, 0, ⟨List.replicate 32 1, rfl⟩, []⟩,
    fun _ _ _ => some []⟩

theorem everyHeight_wellNumbered : everyHeight.WellNumbered := by
  intro _ n b h
  cases h
  rfl

/-- Every height of `Arkiv.everyHeight` is read in full, as a block with no operations. -/
theorem batchBlockAt_everyHeight (blockNumber : UInt64) :
    batchBlockAt c decoder everyHeight blockNumber = ok (some ⟨blockNumber, []⟩) :=
  rfl

end Databases

end Arkiv
