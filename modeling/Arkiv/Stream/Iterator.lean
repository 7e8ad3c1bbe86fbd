import Mathlib.Logic.Relation
import Arkiv.Stream.Batch

/-!
# The head slot and the batch iterator

`NewChainBatchIterator` joins two goroutines through one slot guarded by a condition
variable. The producer, `onNewHead`, overwrites the slot with the new head and signals. The
iterator loops: under the lock it waits until the slot holds a head, takes its number and
clears the slot; then, outside the lock, it runs one pass (`Arkiv.nextBatch`), and when the
pass returns blocks it moves `lastBlock` to the last of them and yields the batch. Heads that
arrive while a pass runs coalesce in the slot: only the latest is taken.

`Arkiv.StreamStep` has one transition per atomic section of that code: the producer's
critical section, the iterator finding the slot empty, the iterator taking the head, one pass
(against the database the environment offers at that moment, from a class `Admissible`), and
the consumer's answer to `yield`. Three ghost fields record what the properties speak of: the
latest head the producer was given, the batches yielded so far, and the last pass that
yielded.

Over a well-numbered database two facts hold along every interleaving:

* the yielded batches, concatenated, are exactly the heights after the checkpoint, each
  batch 1 to 100 of them, `lastBlock` the last height yielded
  (`Arkiv.yielded_heights_contiguous`);
* when the iterator blocks right after the consumer continued past a yield, the latest head
  is the one that pass took, and the pass reached it, or was cut at 100 heights, or stopped
  at a height it could not read in full (`Arkiv.waits_only_after_complete_or_cut_pass`).

The last two reasons leave the iterator blocked with a head ahead of `lastBlock`. A batch
capped at 100 heights does so from every checkpoint, with no data missing
(`Arkiv.capped_pass_then_wait`, `Arkiv.iterator_waits_after_capped_batch`). A pass cut short
yields the blocks read before the missing height and advances `lastBlock` past them, and a
canonical hash whose block the first `ReadBlock` does not find crashes the goroutine
(`Arkiv.pass_keeps_partial_batch_or_dereferences_nil`).
-/

namespace Arkiv

open Events Outcome Relation

/-- Where the iterator goroutine is in its loop. -/
inductive Pc
  /-- At the top of the `for` loop, about to take the lock. -/
  | top
  /-- In `cond.Wait`, the slot found empty. -/
  | waiting
  /-- The head `newBlockNumber` taken and the slot cleared; the pass is next. -/
  | took (newBlockNumber : UInt64)
  /-- Inside `yield(batch)`, waiting for the consumer's answer. -/
  | yielding (batch : List Events.Block)
  /-- `yield` returned false and the iterator returned. -/
  | stopped
  /-- A runtime panic ended the goroutine. -/
  | crashed (msg : String)
deriving DecidableEq, Repr

/-- The shared state of the producer and the iterator. The slot holds a `*types.Block`, of
which the iterator reads only the number; the chain configuration the producer also stores
is left out. -/
structure Stream where
  /-- The slot `block`: the number of the head not yet taken, if any. -/
  block : Option UInt64
  lastBlock : UInt64
  pc : Pc
  /-- Ghost: the number of the head most recently passed to `onNewHead`. -/
  latestHead : Option UInt64
  /-- Ghost: the batches yielded so far, in order. -/
  yielded : List (List Events.Block)
  /-- Ghost: the consumer continued past a yield, and the iterator has taken no head since. -/
  afterYield : Bool
  /-- Ghost: the checkpoint, the head and the database of the last pass that yielded. -/
  lastPass : Option (UInt64 × UInt64 × Database)

namespace Stream

/-- The iterator at the top of its loop, from checkpoint `lastBlock`, and an empty slot. -/
def init (lastBlock : UInt64) : Stream := ⟨none, lastBlock, .top, none, [], false, none⟩

/-- `onNewHead`: under the lock, overwrite the slot and signal. -/
def onNewHead (s : Stream) (n : UInt64) : Stream :=
  { s with block := some n, latestHead := some n }

/-- The iterator finds the slot empty and waits. -/
def wait (s : Stream) : Stream := { s with pc := .waiting }

/-- The iterator takes head `n` and clears the slot. -/
def take (s : Stream) (n : UInt64) : Stream :=
  { s with block := none, pc := .took n, afterYield := false }

/-- One pass after taking head `n`: back to the top when it returns nothing, otherwise
`lastBlock` becomes the last block's number and the batch is yielded. -/
def pass (c : Constants) (decoder : Decoder) (s : Stream) (db : Database) (n : UInt64) : Stream :=
  match nextBatch c decoder db s.lastBlock n with
  | .ok [] => { s with pc := .top }
  | .ok (b :: bs) =>
    { s with lastBlock := ((b :: bs).getLast (List.cons_ne_nil b bs)).number
             pc := .yielding (b :: bs)
             yielded := s.yielded ++ [b :: bs]
             lastPass := some (s.lastBlock, n, db) }
  | .error msg => { s with pc := .crashed msg }
  | .panic msg => { s with pc := .crashed msg }

/-- `yield` returns `cont`: the loop goes on, or the iterator returns. -/
def resume (s : Stream) (cont : Bool) : Stream :=
  if cont then { s with pc := .top, afterYield := true } else { s with pc := .stopped }

end Stream

/-- One atomic section of the producer or the iterator. -/
inductive StreamStep (c : Constants) (decoder : Decoder) (Admissible : Database → Prop) :
    Stream → Stream → Prop
  | onNewHead (s : Stream) (n : UInt64) : StreamStep c decoder Admissible s (s.onNewHead n)
  | wait (s : Stream) (hpc : s.pc = .top) (hb : s.block = none) :
      StreamStep c decoder Admissible s s.wait
  | take (s : Stream) (n : UInt64) (hpc : s.pc = .top ∨ s.pc = .waiting) (hb : s.block = some n) :
      StreamStep c decoder Admissible s (s.take n)
  | pass (s : Stream) (n : UInt64) (db : Database) (hpc : s.pc = .took n) (hdb : Admissible db) :
      StreamStep c decoder Admissible s (s.pass c decoder db n)
  | resume (s : Stream) (batch : List Events.Block) (cont : Bool) (hpc : s.pc = .yielding batch) :
      StreamStep c decoder Admissible s (s.resume cont)

section Pass

variable {c : Constants} {decoder : Decoder} {s : Stream} {db : Database} {n : UInt64}

/-- A pass that yields, read off `nextBatch`. -/
theorem Stream.pass_of_ok {b : Events.Block} {bs : List Events.Block}
    (h : nextBatch c decoder db s.lastBlock n = ok (b :: bs)) :
    s.pass c decoder db n =
      { s with lastBlock := ((b :: bs).getLast (List.cons_ne_nil b bs)).number
               pc := .yielding (b :: bs)
               yielded := s.yielded ++ [b :: bs]
               lastPass := some (s.lastBlock, n, db) } := by
  rw [Stream.pass, h]

/-- A pass that does not yield changes nothing but the iterator's place: back to the top,
or crashed. -/
theorem Stream.pass_of_not_yield
    (h : ∀ b bs, nextBatch c decoder db s.lastBlock n ≠ ok (b :: bs)) :
    ∃ pc, s.pass c decoder db n = { s with pc := pc } ∧
      (pc = .top ∨ ∃ msg, pc = .crashed msg) := by
  unfold Stream.pass
  split
  · exact ⟨_, rfl, .inl rfl⟩
  · rename_i b bs hb
    exact absurd hb (h b bs)
  · exact ⟨_, rfl, .inr ⟨_, rfl⟩⟩
  · exact ⟨_, rfl, .inr ⟨_, rfl⟩⟩

end Pass

/-- **Counterexample: a pass keeps a partial batch, and dereferences a block it did not
find.** From checkpoint 0 with head 2, over `Arkiv.heightOneOnly`, where height 2 has no
canonical hash, the pass yields height 1 alone and moves `lastBlock` to 1: the early
`return`s of the loop (chain_batch_iterator.go:76-96) keep the blocks appended so far, which
are yielded (105-111), where the spec discards the batch and keeps the checkpoint at 0. Over
a database with canonical hashes but no blocks, the pass reads the number and time of the
first `ReadBlock`'s nil result (78-80), and the goroutine crashes. -/
theorem pass_keeps_partial_batch_or_dereferences_nil :
    heightOneOnly.readCanonicalHash 2 = Bytes.zero 32 ∧
      ((((Stream.init 0).onNewHead 2).take 2).pass ⟨Bytes.zero 20, Bytes.zero 32, Bytes.zero 32⟩
        ⟨fun _ => .error "", fun _ => .error ""⟩ heightOneOnly 2).pc = .yielding [⟨1, []⟩] ∧
      ((((Stream.init 0).onNewHead 2).take 2).pass ⟨Bytes.zero 20, Bytes.zero 32, Bytes.zero 32⟩
        ⟨fun _ => .error "", fun _ => .error ""⟩ heightOneOnly 2).lastBlock = 1 ∧
      ((((Stream.init 0).onNewHead 2).take 2).pass ⟨Bytes.zero 20, Bytes.zero 32, Bytes.zero 32⟩
        ⟨fun _ => .error "", fun _ => .error ""⟩
        ⟨fun _ => ⟨List.replicate 32 1, rfl⟩, fun _ _ => none, fun _ _ _ => some []⟩ 2).pc =
        .crashed nilPointerDereference :=
  ⟨rfl, rfl, rfl, rfl⟩

/-! ### The yielded heights -/

section Contiguous

variable {c : Constants} {decoder : Decoder} {checkpoint : UInt64} {s s' : Stream}

/-- The heights yielded so far are `checkpoint + 1`, …, `lastBlock` in order, in batches of
1 to 100, and a batch being yielded ends at `lastBlock`. -/
def Contiguous (checkpoint : UInt64) (s : Stream) : Prop :=
  checkpoint.toNat ≤ s.lastBlock.toNat ∧
  s.yielded.flatten.map (·.number.toNat) =
    List.range' (checkpoint.toNat + 1) (s.lastBlock.toNat - checkpoint.toNat) ∧
  (∀ batch ∈ s.yielded, batch ≠ [] ∧ batch.length ≤ 100) ∧
  (∀ batch, s.pc = .yielding batch → batch.getLast?.map (·.number) = some s.lastBlock)

theorem contiguous_init : Contiguous checkpoint (Stream.init checkpoint) :=
  ⟨le_refl _, by simp [Stream.init], nofun, nofun⟩

/-- A yielding pass extends the yielded heights by the run after `lastBlock`. -/
theorem Contiguous.pass_of_ok {db : Database} {n : UInt64} (hdb : db.WellNumbered)
    (hs : Contiguous checkpoint s) {b : Events.Block} {bs : List Events.Block}
    (hb : nextBatch c decoder db s.lastBlock n = ok (b :: bs)) :
    Contiguous checkpoint (s.pass c decoder db n) := by
  obtain ⟨hle, hmap, hbatch, -⟩ := hs
  obtain ⟨hlen, -, hnums⟩ := nextBatch_numbers hdb hb (List.cons_ne_nil b bs)
  have hl := nextBatch_getLast hdb hb (List.cons_ne_nil b bs)
  rw [Stream.pass_of_ok hb]
  refine ⟨by simp only; omega, ?_, fun batch hmem => ?_, fun batch hpc => ?_⟩
  · simp only [List.flatten_concat, List.map_append, hmap, hnums, hl]
    rw [show s.lastBlock.toNat + 1 = checkpoint.toNat + 1 + (s.lastBlock.toNat - checkpoint.toNat)
      by omega, List.range'_append_1]
    congr 1
    omega
  · rcases List.mem_append.mp hmem with hmem | hmem
    · exact hbatch batch hmem
    · rw [List.mem_singleton.mp hmem]
      exact ⟨List.cons_ne_nil b bs, hlen⟩
  · cases hpc
    rw [List.getLast?_eq_getLast _ (List.cons_ne_nil b bs)]
    rfl

/-- Every step over a well-numbered database keeps the yielded heights contiguous. -/
theorem StreamStep.contiguous (h : StreamStep c decoder Database.WellNumbered s s')
    (hs : Contiguous checkpoint s) : Contiguous checkpoint s' := by
  cases h with
  | onNewHead n => exact hs
  | wait _ _ => exact ⟨hs.1, hs.2.1, hs.2.2.1, nofun⟩
  | take n _ _ => exact ⟨hs.1, hs.2.1, hs.2.2.1, nofun⟩
  | pass n db _ hdb =>
    by_cases hy : ∃ b bs, nextBatch c decoder db s.lastBlock n = ok (b :: bs)
    · obtain ⟨b, bs, hb⟩ := hy
      exact hs.pass_of_ok hdb hb
    · obtain ⟨pc, hpass, hpc⟩ := Stream.pass_of_not_yield fun b bs hb => hy ⟨b, bs, hb⟩
      rw [hpass]
      refine ⟨hs.1, hs.2.1, hs.2.2.1, fun batch h => ?_⟩
      rcases hpc with rfl | ⟨msg, rfl⟩ <;> cases h
  | resume batch cont _ =>
    unfold Stream.resume
    split_ifs <;> exact ⟨hs.1, hs.2.1, hs.2.2.1, nofun⟩

/-- **The yielded heights are contiguous.** Along every interleaving of `onNewHead` with the
iterator over well-numbered databases, from checkpoint `C`: the batches yielded so far,
concatenated, carry exactly the heights `C + 1`, …, `lastBlock`, none skipped and none
repeated; each batch holds 1 to 100 heights; and while a batch is being yielded, `lastBlock`
is its last height. -/
theorem yielded_heights_contiguous
    (hs : ReflTransGen (StreamStep c decoder Database.WellNumbered) (Stream.init checkpoint) s) :
    checkpoint.toNat ≤ s.lastBlock.toNat ∧
    s.yielded.flatten.map (·.number.toNat) =
      List.range' (checkpoint.toNat + 1) (s.lastBlock.toNat - checkpoint.toNat) ∧
    (∀ batch ∈ s.yielded, batch ≠ [] ∧ batch.length ≤ 100) ∧
    (∀ batch, s.pc = .yielding batch → batch.getLast?.map (·.number) = some s.lastBlock) := by
  induction hs with
  | refl => exact contiguous_init
  | tail _ hstep ih => exact hstep.contiguous ih

end Contiguous

/-! ### When the iterator blocks -/

section Waits

variable {c : Constants} {decoder : Decoder} {checkpoint : UInt64} {s s' : Stream}

/-- Why a pass from `prev` with head `n` over `db` stopped at `last`: it reached the head,
or it was cut at 100 heights, or the height after `last` was not read in full. -/
def StoppedAt (c : Constants) (decoder : Decoder) (prev n : UInt64) (db : Database)
    (last : UInt64) : Prop :=
  last = n ∨ last.toNat = prev.toNat + 100 ∨ batchBlockAt c decoder db (last + 1) = ok none

/-- The invariant behind the waits: the slot holds the latest head; a taken head is the
latest until another arrives; the iterator continues past a yield only to the top of its
loop; and from a yield until the next head is taken, the last pass that yielded took the
latest head (while the slot is empty) and stopped for one of the reasons of
`Arkiv.StoppedAt`. -/
def HeadsAccounted (c : Constants) (decoder : Decoder) (s : Stream) : Prop :=
  (∀ x, s.block = some x → s.latestHead = some x) ∧
  (∀ n, s.pc = .took n → s.block = none → s.latestHead = some n) ∧
  (s.afterYield = true → s.pc = .top ∨ s.pc = .waiting) ∧
  ((∃ batch, s.pc = .yielding batch) ∨ s.afterYield = true →
    ∃ prev n db, s.lastPass = some (prev, n, db) ∧
      (s.block = none → s.latestHead = some n) ∧ StoppedAt c decoder prev n db s.lastBlock)

theorem headsAccounted_init : HeadsAccounted c decoder (Stream.init checkpoint) :=
  ⟨nofun, nofun, nofun, fun h => by rcases h with ⟨_, h⟩ | h <;> cases h⟩

/-- The iterator is past a yield only at the top of its loop or waiting. -/
theorem afterYield_eq_false (hafter : s.afterYield = true → s.pc = .top ∨ s.pc = .waiting)
    (hpc : s.pc ≠ .top ∧ s.pc ≠ .waiting) : s.afterYield = false :=
  Bool.eq_false_iff.mpr fun hay => (hafter hay).elim hpc.1 hpc.2

/-- A state with no yield pending needs only the first two facts. -/
theorem headsAccounted_of_idle (hslot : ∀ x, s.block = some x → s.latestHead = some x)
    (htook : ∀ n, s.pc = .took n → s.block = none → s.latestHead = some n)
    (hpc : ∀ batch, s.pc ≠ .yielding batch) (hy : s.afterYield = false) :
    HeadsAccounted c decoder s :=
  ⟨hslot, htook, fun h => Bool.noConfusion (hy.symm.trans h),
    fun h => h.elim (fun ⟨batch, hb⟩ => absurd hb (hpc batch)) fun h =>
      Bool.noConfusion (hy.symm.trans h)⟩

/-- Every step over a well-numbered database keeps the heads accounted for. -/
theorem StreamStep.headsAccounted (h : StreamStep c decoder Database.WellNumbered s s')
    (hs : HeadsAccounted c decoder s) : HeadsAccounted c decoder s' := by
  obtain ⟨hslot, htook, hafter, hlast⟩ := hs
  cases h with
  | onNewHead x =>
    refine ⟨fun y hy => by cases hy; rfl, fun _ _ hb => (by cases hb), hafter, fun hy => ?_⟩
    obtain ⟨prev, n, db, hl, -, hst⟩ := hlast hy
    exact ⟨prev, n, db, hl, fun hb => (by cases hb), hst⟩
  | wait _ _ =>
    refine ⟨hslot, nofun, fun _ => .inr rfl, fun hy => hlast (.inr ?_)⟩
    rcases hy with ⟨_, hy⟩ | hy
    · cases hy
    · exact hy
  | take n _ hb =>
    exact headsAccounted_of_idle nofun (fun m hm _ => by cases hm; exact hslot n hb) nofun rfl
  | pass n db hpc hdb =>
    have hy := afterYield_eq_false hafter (by rw [hpc]; exact ⟨nofun, nofun⟩)
    by_cases hyield : ∃ b bs, nextBatch c decoder db s.lastBlock n = ok (b :: bs)
    · obtain ⟨b, bs, hb⟩ := hyield
      rw [Stream.pass_of_ok hb]
      refine ⟨hslot, nofun, fun h => Bool.noConfusion (hy.symm.trans h), fun _ => ?_⟩
      exact ⟨s.lastBlock, n, db, rfl, htook n hpc,
        nextBatch_stops hdb hb (List.cons_ne_nil b bs)⟩
    · obtain ⟨pc, hpass, hpc'⟩ :=
        Stream.pass_of_not_yield fun b bs hb => hyield ⟨b, bs, hb⟩
      rw [hpass]
      rcases hpc' with rfl | ⟨_, rfl⟩ <;> exact headsAccounted_of_idle hslot nofun nofun hy
  | resume batch cont hpc =>
    have hy := afterYield_eq_false hafter (by rw [hpc]; exact ⟨nofun, nofun⟩)
    unfold Stream.resume
    split_ifs
    · exact ⟨hslot, nofun, fun _ => .inl rfl, fun _ => hlast (.inl ⟨batch, hpc⟩)⟩
    · exact headsAccounted_of_idle hslot nofun nofun hy

theorem headsAccounted_of_reachable
    (hs : ReflTransGen (StreamStep c decoder Database.WellNumbered) (Stream.init checkpoint) s) :
    HeadsAccounted c decoder s := by
  induction hs with
  | refl => exact headsAccounted_init
  | tail _ hstep ih => exact hstep.headsAccounted ih

/-- **Why the iterator can block behind the head.** Along every interleaving over
well-numbered databases, once the consumer has continued past a yield and while no head has
arrived since (in particular whenever the iterator then blocks in `cond.Wait`), the latest
head is the one the last pass took, and that pass reached it, or was cut at 100 heights, or
stopped at the height after `lastBlock`, which it could not read in full. -/
theorem waits_only_after_complete_or_cut_pass
    (hs : ReflTransGen (StreamStep c decoder Database.WellNumbered) (Stream.init checkpoint) s)
    (hb : s.block = none) (hy : s.afterYield = true) :
    ∃ prev n db, s.lastPass = some (prev, n, db) ∧ s.latestHead = some n ∧
      (s.lastBlock = n ∨ s.lastBlock.toNat = prev.toNat + 100 ∨
        batchBlockAt c decoder db (s.lastBlock + 1) = ok none) := by
  obtain ⟨prev, n, db, hl, hhead, hst⟩ := (headsAccounted_of_reachable hs).2.2.2 (.inr hy)
  exact ⟨prev, n, db, hl, hhead hb, hst⟩

/-- **A capped batch leaves the head ahead.** From any checkpoint `C`, head `H` more than 100
past it, over a well-numbered database whose heights `C + 1`, …, `C + 100` are read in full:
the iterator takes `H`, yields those 100 heights, the consumer continues, and the iterator
blocks with the slot empty, the latest head `H` and `lastBlock = C + 100`. -/
theorem capped_pass_then_wait {db : Database} {C H : UInt64} (hdb : db.WellNumbered)
    (hH : C.toNat + 100 < H.toNat)
    (hready : ∀ j < 100, ∃ b, batchBlockAt c decoder db (C + UInt64.ofNat j + 1) = ok (some b)) :
    ∃ s, ReflTransGen (StreamStep c decoder Database.WellNumbered) (Stream.init C) s ∧
      s.pc = .waiting ∧ s.block = none ∧ s.afterYield = true ∧ s.latestHead = some H ∧
      s.lastBlock.toNat = C.toNat + 100 := by
  have hmin : min 100 (H.toNat - C.toNat) = 100 := by omega
  have hlt : C < H := uint64_lt_iff.mpr (by omega)
  obtain ⟨bs, hbs, hlen⟩ := nextBatch_of_ready hlt fun j hj => hready j (hmin ▸ hj)
  have hne : bs ≠ [] := List.ne_nil_of_length_pos (by omega)
  obtain ⟨b, bs, rfl⟩ := List.exists_cons_of_ne_nil hne
  have hpass := Stream.pass_of_ok (s := ((Stream.init C).onNewHead H).take H) hbs
  have hlast := nextBatch_getLast hdb hbs (List.cons_ne_nil b bs)
  refine ⟨_, .tail (.tail (.tail (.tail (.single (.onNewHead _ H)) (.take _ H (.inl rfl) rfl))
    (.pass _ H db rfl hdb)) (.resume _ (b :: bs) true (by rw [hpass])))
    (.wait _ (by rw [hpass]; rfl) (by rw [hpass]; rfl)), ?_⟩
  rw [hpass]
  exact ⟨rfl, rfl, rfl, rfl, by simpa [hlen, hmin] using hlast⟩

end Waits

/-- **Counterexample: the iterator blocks behind the head after a capped batch.** From
checkpoint 0, head 101 over `Arkiv.everyHeight`, where no height lacks any data: the pass is
capped at 100 heights (chain_batch_iterator.go:64), yields them and sets `lastBlock` to 100
(111); the consumer continues, the loop goes back to `cond.Wait` (50) on the slot it cleared
(54), and blocks with the head 101 it was told about ahead of `lastBlock`. -/
theorem iterator_waits_after_capped_batch :
    (∀ n, batchBlockAt ⟨Bytes.zero 20, Bytes.zero 32, Bytes.zero 32⟩
      ⟨fun _ => .error "", fun _ => .error ""⟩ everyHeight n = ok (some ⟨n, []⟩)) ∧
    ∃ s, ReflTransGen (StreamStep ⟨Bytes.zero 20, Bytes.zero 32, Bytes.zero 32⟩
        ⟨fun _ => .error "", fun _ => .error ""⟩ Database.WellNumbered) (Stream.init 0) s ∧
      s.pc = .waiting ∧ s.block = none ∧ s.afterYield = true ∧ s.latestHead = some 101 ∧
      s.lastBlock = 100 := by
  obtain ⟨s, hs, hpc, hb, hy, hl, hlast⟩ := capped_pass_then_wait (C := 0) (H := 101)
    everyHeight_wellNumbered (by decide) fun _ _ => ⟨_, batchBlockAt_everyHeight _⟩
  exact ⟨batchBlockAt_everyHeight, s, hs, hpc, hb, hy, hl, uint64_eq_iff.mpr hlast⟩

/-- From checkpoint 0: head 2 arrives, the iterator takes it, its pass over `heightOneOnly`
yields height 1 alone, the consumer continues, and the iterator finds the slot empty. -/
theorem partial_pass_then_wait :
    ReflTransGen (StreamStep ⟨Bytes.zero 20, Bytes.zero 32, Bytes.zero 32⟩
        ⟨fun _ => .error "", fun _ => .error ""⟩ Database.WellNumbered) (Stream.init 0)
      (((((Stream.init 0).onNewHead 2).take 2).pass
        ⟨Bytes.zero 20, Bytes.zero 32, Bytes.zero 32⟩ ⟨fun _ => .error "", fun _ => .error ""⟩
        heightOneOnly 2).resume true).wait :=
  .tail (.tail (.tail (.tail (.single (.onNewHead _ 2)) (.take _ 2 (.inl rfl) rfl))
    (.pass _ 2 heightOneOnly rfl heightOneOnly_wellNumbered)) (.resume _ [⟨1, []⟩] true rfl))
    (.wait _ rfl rfl)

/-- The run of `Arkiv.partial_pass_then_wait` blocks right after a yield, with the slot empty,
the latest head 2 and `lastBlock` 1; height 2 has no canonical hash. -/
theorem waits_only_after_complete_or_cut_pass_after_partial_pass :
    ∃ s, ReflTransGen (StreamStep ⟨Bytes.zero 20, Bytes.zero 32, Bytes.zero 32⟩
        ⟨fun _ => .error "", fun _ => .error ""⟩ Database.WellNumbered) (Stream.init 0) s ∧
      s.block = none ∧ s.afterYield = true ∧
      ∃ prev n db, s.lastPass = some (prev, n, db) ∧ s.latestHead = some n ∧
        (s.lastBlock = n ∨ s.lastBlock.toNat = prev.toNat + 100 ∨
          batchBlockAt ⟨Bytes.zero 20, Bytes.zero 32, Bytes.zero 32⟩
            ⟨fun _ => .error "", fun _ => .error ""⟩ db (s.lastBlock + 1) = ok none) :=
  ⟨_, partial_pass_then_wait, rfl, rfl,
    waits_only_after_complete_or_cut_pass partial_pass_then_wait rfl rfl⟩

/-- The run of `Arkiv.partial_pass_then_wait` has yielded height 1 alone. -/
theorem yielded_heights_contiguous_after_partial_pass :
    ∃ s, ReflTransGen (StreamStep ⟨Bytes.zero 20, Bytes.zero 32, Bytes.zero 32⟩
        ⟨fun _ => .error "", fun _ => .error ""⟩ Database.WellNumbered) (Stream.init 0) s ∧
      (0 : UInt64).toNat ≤ s.lastBlock.toNat ∧
      s.yielded.flatten.map (·.number.toNat) =
        List.range' ((0 : UInt64).toNat + 1) (s.lastBlock.toNat - (0 : UInt64).toNat) ∧
      (∀ batch ∈ s.yielded, batch ≠ [] ∧ batch.length ≤ 100) ∧
      (∀ batch, s.pc = .yielding batch → batch.getLast?.map (·.number) = some s.lastBlock) :=
  ⟨_, partial_pass_then_wait, yielded_heights_contiguous partial_pass_then_wait⟩

end Arkiv
