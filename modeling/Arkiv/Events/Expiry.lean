import Arkiv.Housekeeping
import Arkiv.Events.Order

/-!
# The sweep's logs, read back as `Expire` operations

Two pieces of code meet in the first receipt of a block: the housekeeping sweep writes one
expiry log per swept entity (`Arkiv.expiredLog`: first topic the expiry topic, data the key's
32 bytes), and `blockToEvents` reads every log of that receipt whose first topic is the expiry
topic and whose data holds 32 bytes back into an `Expire` operation (`Arkiv.expireOperation`).

The two agree: each expiry log reads back as the `Expire` of its own key
(`Arkiv.expireOperation_expiredLog`), so the `Expire` operations of a block whose first receipt
carries the sweep's logs are the swept bucket, in order, at transaction 0 and at their
positions (`Arkiv.blockToEvents_expire_of_sweep`). The transaction loop adds no `Expire`.
-/

namespace Arkiv

open Events Outcome StateAccess

/-- An `Expire` operation: the one kind of rank 0. -/
def Events.Operation.isExpire (o : Operation) : Bool := o.payload.rank = 0

section Bridge

variable {c : Constants} {b : UInt64}

/-- The expiry log of key `k` reads back as the `Expire` of `k`, at any position. -/
@[simp] theorem expireOperation_expiredLog (j : Nat) (k : Hash) (owner : Address) :
    expireOperation c j (expiredLog c b k owner) = some ⟨0, j, .expire k⟩ := by
  simp [expireOperation, expiredLog, bytesToHash, List.take_of_length_le k.length_toList.le]

/-- The expiry logs of a list of keys read back as their `Expire` operations, numbered by
position. -/
theorem expireOperations_expiredLogs (ks : List Hash) (owner : Hash → Address) :
    expireOperations c (ks.map fun k => expiredLog c b k (owner k)) =
      ks.enum.map fun (j, k) => ⟨0, j, .expire k⟩ := by
  rw [expireOperations, List.enum_map, List.filterMap_map, ← List.filterMap_eq_map]
  exact List.filterMap_congr fun ⟨j, k⟩ _ => expireOperation_expiredLog j k (owner k)

end Bridge

section Block

variable {c : Constants} {decoder : Decoder} {s : StateAccess} {b : UInt64}

/-- **The sweep's logs become the block's `Expire` operations.** In a store where the index
agrees with the records, if the first receipt of a block carries the logs of the sweep of
block `b`, the `Expire` operations `blockToEvents` emits are the keys of bucket `b`, in the
sweep's order, each at transaction 0 and at its position. -/
theorem blockToEvents_expire_of_sweep {rawBlock : Block} {firstReceipt : Receipt}
    {rest : List Receipt} {out : Events.Block} (hs : BucketsAgree s)
    (hlogs : (executeTransaction c b s).1 = .ok firstReceipt.logs)
    (h : blockToEvents c decoder rawBlock (firstReceipt :: rest) = ok out) :
    out.operations.filter (·.isExpire) =
      (s.expiration.bucket b).enum.map fun (j, k) => ⟨0, j, .expire k⟩ := by
  obtain ⟨ops, hops, h⟩ := bind_eq_ok.mp h
  cases h
  rw [executeTransaction_eq hs, Except.ok.injEq] at hlogs
  have hexp := (expireOperations_spec (c := c) firstReceipt.logs).1
  have hall := (transactionsOperations_spec hops).1
  rw [List.filter_append, List.filter_eq_self.mpr fun o ho => by simp [Operation.isExpire,
      (hexp o ho).2], List.filter_eq_nil_iff.mpr fun o ho => by
      have := (hall o ho).2
      simp only [Operation.isExpire, decide_eq_true_eq]
      omega, List.append_nil, ← hlogs, expireOperations_expiredLogs]

end Block

/-- One entity stored to expire at 5: the sweep of block 5 logs it, and the block whose first
receipt carries that log has its `Expire` at `(0, 0)`. -/
theorem blockToEvents_expire_of_sweep_after_store :
    BucketsAgree (store .empty ⟨List.replicate 32 3, rfl⟩ ⟨Bytes.zero 20, 5⟩).2 ∧
    (executeTransaction
        ⟨Bytes.zero 20, ⟨List.replicate 32 1, rfl⟩, ⟨List.replicate 32 2, rfl⟩⟩ 5
        (store .empty ⟨List.replicate 32 3, rfl⟩ ⟨Bytes.zero 20, 5⟩).2).1 =
      .ok [⟨Bytes.zero 20, [⟨List.replicate 32 2, rfl⟩, ⟨List.replicate 32 3, rfl⟩,
        addressToHash (Bytes.zero 20)], List.replicate 32 3, 5⟩] ∧
    blockToEvents
        ⟨Bytes.zero 20, ⟨List.replicate 32 1, rfl⟩, ⟨List.replicate 32 2, rfl⟩⟩
        ⟨fun _ => .error "", fun _ => .error ""⟩ ⟨5, 0, Bytes.zero 32, []⟩
        [⟨1, [⟨Bytes.zero 20, [⟨List.replicate 32 2, rfl⟩, ⟨List.replicate 32 3, rfl⟩,
          addressToHash (Bytes.zero 20)], List.replicate 32 3, 5⟩]⟩] =
      ok ⟨5, [⟨0, 0, .expire ⟨List.replicate 32 3, rfl⟩⟩]⟩ ∧
    [(⟨0, 0, .expire ⟨List.replicate 32 3, rfl⟩⟩ : Operation)].filter (·.isExpire) =
      ((store .empty ⟨List.replicate 32 3, rfl⟩ ⟨Bytes.zero 20, 5⟩).2.expiration.bucket
        5).enum.map fun (j, k) => ⟨0, j, .expire k⟩ :=
  have hs := consistent_empty.agree.store (not_live_empty _) (by decide)
  have hlogs : (executeTransaction ⟨Bytes.zero 20, ⟨List.replicate 32 1, rfl⟩,
      ⟨List.replicate 32 2, rfl⟩⟩ 5
      (store .empty ⟨List.replicate 32 3, rfl⟩ ⟨Bytes.zero 20, 5⟩).2).1 =
      .ok [⟨Bytes.zero 20, [⟨List.replicate 32 2, rfl⟩, ⟨List.replicate 32 3, rfl⟩,
        addressToHash (Bytes.zero 20)], List.replicate 32 3, 5⟩] := rfl
  have hblock : blockToEvents ⟨Bytes.zero 20, ⟨List.replicate 32 1, rfl⟩,
        ⟨List.replicate 32 2, rfl⟩⟩ ⟨fun _ => .error "", fun _ => .error ""⟩
        ⟨5, 0, Bytes.zero 32, []⟩
        [⟨1, [⟨Bytes.zero 20, [⟨List.replicate 32 2, rfl⟩, ⟨List.replicate 32 3, rfl⟩,
          addressToHash (Bytes.zero 20)], List.replicate 32 3, 5⟩]⟩] =
      ok ⟨5, [⟨0, 0, .expire ⟨List.replicate 32 3, rfl⟩⟩]⟩ := by decide
  ⟨hs, hlogs, hblock, blockToEvents_expire_of_sweep hs hlogs hblock⟩

end Arkiv
