import Arkiv.Events.Content

/-!
# When `blockToEvents` panics

The transaction loop reads three things without a bounds check: `rawReceipts[i]`, the first
two topics of every log of a processor transaction's receipt (in `createdEntities`), and
`createdEntities[0]` once per `Create`. The `Expire` loop checks `len(log.Topics)`; these do
not. So `blockToEvents` does not always return a block or an error:

* with one receipt per transaction, it never panics when every successful processor
  transaction whose payload decodes and whose sender is recovered has a well-formed receipt
  (`Arkiv.blockToEvents_ne_panic`);
* and the first transaction that converts to no value, if it is such a transaction with a
  receipt that is not well formed, makes the whole block panic (`Arkiv.blockToEvents_eq_panic`):
  a log with no topic, a creation log with one topic, or fewer creation logs than `Create`s
  (`Arkiv.blockToEvents_panics_on_malformed_receipts`).

A panic in the batch loop is not retried: it ends the goroutine that runs it, and with it the
process: the batch loop passes the first panic up (`Arkiv.readBatch_cases`), and the pass
then leaves the iterator crashed (`Arkiv.Stream.pass`).
-/

namespace Arkiv

open Events Outcome

section Transaction

variable {c : Constants} {decoder : Decoder} {rawReceipts : List Receipt} {i : Nat}
  {transaction : Transaction}

/-- `createdEntities` returns its keys or panics; it never returns an error. -/
theorem createdEntities_ne_error : ∀ {logs : List Log} (e : String),
    createdEntities c logs ≠ error e
  | [], _ => by simp [createdEntities]
  | log :: logs, e => by
    have ih : ∀ e, createdEntities c logs ≠ error e := createdEntities_ne_error
    rw [createdEntities]
    refine bind_ne_error (index_ne_error _ _) (fun topic => ?_) e
    split_ifs
    · exact bind_ne_error (index_ne_error _ _)
        (fun _ => bind_ne_error ih fun _ _ => by simp)
    · exact ih

/-- **A successful processor transaction panics on a malformed receipt**, once its payload
decodes and its sender is recovered. -/
theorem transactionOperations_eq_panic {receipt : Receipt} {atx : ArkivTransaction}
    {sender : Address} (hto : transaction.recipient = some c.arkivProcessorAddress)
    (hr : rawReceipts[i]? = some receipt) (hs : receipt.status = receiptStatusSuccessful)
    (hatx : decoder.unpackArkivTransaction transaction.data = .ok atx)
    (hsender : decoder.sender transaction = .ok sender)
    (hbad : ¬ReceiptWellFormed c atx receipt) :
    ∃ p, transactionOperations c decoder rawReceipts i transaction = .panic p := by
  rw [transactionOperations_of_successful hto hr hs, hatx, hsender]
  by_cases htp : TopicsPresent c receipt.logs
  · have hlen : ¬atx.create.length ≤ (entityCreatedKeys c receipt.logs).length := fun hlen =>
      hbad ⟨htp, entityCreatedKeys_length htp ▸ hlen⟩
    refine ⟨"runtime error: index out of range [0] with length 0", ?_⟩
    simp [Outcome.ofExcept, createdEntities_eq_ok.mpr ⟨htp, rfl⟩, createOperations_eq, hlen]
  · cases hkeys : createdEntities c receipt.logs with
    | ok keys => exact absurd (createdEntities_eq_ok.mp hkeys).1 htp
    | error e => exact absurd hkeys (createdEntities_ne_error e)
    | panic p => exact ⟨p, by simp [Outcome.ofExcept]⟩

/-- **A transaction with a well-formed receipt does not panic**: one not addressed to the
processor, or with a failed receipt, converts to nothing; one whose payload or sender cannot
be read fails with an error; and one with a well-formed receipt converts. -/
theorem transactionOperations_ne_panic
    (hi : transaction.recipient = some c.arkivProcessorAddress → i < rawReceipts.length)
    (hwf : ∀ receipt atx sender, rawReceipts[i]? = some receipt →
      transaction.recipient = some c.arkivProcessorAddress →
      receipt.status = receiptStatusSuccessful →
      decoder.unpackArkivTransaction transaction.data = .ok atx →
      decoder.sender transaction = .ok sender → ReceiptWellFormed c atx receipt)
    (p : String) : transactionOperations c decoder rawReceipts i transaction ≠ .panic p := by
  by_cases hto : transaction.recipient = some c.arkivProcessorAddress
  swap
  · simp [transactionOperations_of_not_processor hto]
  obtain ⟨receipt, hr⟩ : ∃ receipt, rawReceipts[i]? = some receipt :=
    ⟨_, List.getElem?_eq_getElem (hi hto)⟩
  by_cases hs : receipt.status = receiptStatusSuccessful
  swap
  · simp [transactionOperations_of_failed hto hr hs]
  rw [transactionOperations_of_successful hto hr hs]
  cases hatx : decoder.unpackArkivTransaction transaction.data with
  | error e => simp [Outcome.ofExcept]
  | ok atx =>
    cases hsender : decoder.sender transaction with
    | error e => simp [Outcome.ofExcept]
    | ok sender =>
      have hwf := hwf _ atx sender hr hto hs hatx hsender
      have hlen := hwf.enoughCreated.trans (entityCreatedKeys_length hwf.topics).ge
      simp [Outcome.ofExcept, createdEntities_eq_ok.mpr ⟨hwf.topics, rfl⟩, createOperations_eq, hlen]

end Transaction

section Block

variable {c : Constants} {decoder : Decoder} {rawReceipts : List Receipt}

theorem transactionsOperations_ne_panic : ∀ {j : Nat} {transactions : List Transaction},
    (∀ n transaction, transactions[n]? = some transaction →
      ∀ p, transactionOperations c decoder rawReceipts (j + n) transaction ≠ .panic p) →
    ∀ p, transactionsOperations c decoder rawReceipts j transactions ≠ .panic p
  | _, [], _, _ => by simp [transactionsOperations]
  | j, transaction :: transactions, h, p => by
    rw [transactionsOperations]
    refine bind_ne_panic (h 0 transaction (by simp)) (fun ops => bind_ne_panic ?_ fun _ _ => by simp) p
    refine transactionsOperations_ne_panic fun n t hn => ?_
    rw [show j + 1 + n = j + (n + 1) by omega]
    exact h (n + 1) t (by simpa using hn)

/-- **No panic on well-formed receipts.** Given a receipt for every transaction, if every
successful processor transaction whose payload decodes and whose sender is recovered has a
well-formed receipt, `blockToEvents` returns a block or an error. -/
theorem blockToEvents_ne_panic {rawBlock : Block}
    (hlen : rawBlock.transactions.length ≤ rawReceipts.length)
    (hwf : ∀ (i : Nat) transaction receipt atx sender, rawBlock.transactions[i]? = some transaction →
      rawReceipts[i]? = some receipt → transaction.recipient = some c.arkivProcessorAddress →
      receipt.status = receiptStatusSuccessful →
      decoder.unpackArkivTransaction transaction.data = .ok atx →
      decoder.sender transaction = .ok sender → ReceiptWellFormed c atx receipt)
    (p : String) : blockToEvents c decoder rawBlock rawReceipts ≠ .panic p := by
  cases rawReceipts with
  | nil => simp [blockToEvents]
  | cons firstReceipt rest =>
    refine bind_ne_panic (transactionsOperations_ne_panic fun n transaction hn => ?_)
      (fun _ _ => by simp) p
    rw [zero_add]
    have hn' : n < rawBlock.transactions.length := (List.getElem?_eq_some_iff.mp hn).1
    exact transactionOperations_ne_panic (fun _ => by omega) (hwf n transaction · · · hn)

/-- The receipt whose creation log follows a log of another topic is well formed for one
`Create`, and the block of its processor transaction does not panic. -/
theorem blockToEvents_ne_panic_after_other_log :
    ReceiptWellFormed exampleConstants
        ⟨[⟨1, "", [], [], []⟩], [⟨Bytes.zero 32, 1, "", [], [], []⟩], [], [], []⟩
        creationReceipt ∧
      ∀ p, blockToEvents exampleConstants createAndUpdate processorBlock [creationReceipt] ≠
        .panic p :=
  have hwf : ReceiptWellFormed exampleConstants
      ⟨[⟨1, "", [], [], []⟩], [⟨Bytes.zero 32, 1, "", [], [], []⟩], [], [], []⟩
      creationReceipt := ⟨by decide, by decide⟩
  ⟨hwf, blockToEvents_ne_panic (by decide) fun i t r atx _ ht hr _ _ hatx _ => by
    cases i with
    | zero =>
      obtain rfl : creationReceipt = r := by simpa using hr
      obtain rfl := Except.ok.inj hatx
      exact hwf
    | succ i => simp [processorBlock] at ht⟩

theorem transactionsOperations_eq_panic : ∀ {j : Nat} {transactions : List Transaction} {n : Nat}
    {transaction : Transaction} {p : String},
    (∀ m t, m < n → transactions[m]? = some t →
      ∃ ops, transactionOperations c decoder rawReceipts (j + m) t = ok ops) →
    transactions[n]? = some transaction →
    transactionOperations c decoder rawReceipts (j + n) transaction = .panic p →
    transactionsOperations c decoder rawReceipts j transactions = .panic p
  | _, [], _, _, _, _, hn, _ => by simp at hn
  | j, first :: transactions, 0, transaction, p, _, hn, hp => by
    obtain rfl : first = transaction := by simpa using hn
    rw [transactionsOperations, ← add_zero j, hp]
    rfl
  | j, first :: transactions, n + 1, transaction, p, hbefore, hn, hp => by
    obtain ⟨ops, hops⟩ := hbefore 0 first n.succ_pos (by simp)
    have hrest := transactionsOperations_eq_panic (j := j + 1) (n := n)
      (fun m t hm ht => by
        rw [show j + 1 + m = j + (m + 1) by omega]
        exact hbefore (m + 1) t (by omega) (by simpa using ht))
      (by simpa using hn) (by rwa [show j + 1 + n = j + (n + 1) by omega])
    rw [transactionsOperations, ← add_zero j, hops, ok_bind, add_zero, hrest]
    rfl

/-- **The first transaction that fails to convert on a malformed receipt panics the block.**
If every transaction before the `n`-th converts, and the `n`-th is a successful processor
transaction whose payload decodes and whose sender is recovered but whose receipt is not well
formed, `blockToEvents` panics. -/
theorem blockToEvents_eq_panic {rawBlock : Block} {n : Nat} {transaction : Transaction}
    {receipt : Receipt} {atx : ArkivTransaction} {sender : Address}
    (hbefore : ∀ m t, m < n → rawBlock.transactions[m]? = some t →
      ∃ ops, transactionOperations c decoder rawReceipts m t = ok ops)
    (htx : rawBlock.transactions[n]? = some transaction) (hr : rawReceipts[n]? = some receipt)
    (hto : transaction.recipient = some c.arkivProcessorAddress)
    (hs : receipt.status = receiptStatusSuccessful)
    (hatx : decoder.unpackArkivTransaction transaction.data = .ok atx)
    (hsender : decoder.sender transaction = .ok sender)
    (hbad : ¬ReceiptWellFormed c atx receipt) :
    ∃ p, blockToEvents c decoder rawBlock rawReceipts = .panic p := by
  obtain ⟨p, hp⟩ := transactionOperations_eq_panic hto hr hs hatx hsender hbad
  cases rawReceipts with
  | nil => simp at hr
  | cons firstReceipt rest =>
    refine ⟨p, ?_⟩
    rw [blockToEvents,
      transactionsOperations_eq_panic (j := 0) (by simpa using hbefore) htx (by rwa [zero_add])]
    rfl

/-- A receipt whose only log has no topic: not well formed, and the block panics. -/
theorem blockToEvents_eq_panic_topicless_log :
    ¬ReceiptWellFormed exampleConstants
        ⟨[⟨1, "", [], [], []⟩], [⟨Bytes.zero 32, 1, "", [], [], []⟩], [], [], []⟩
        ⟨1, [⟨⟨List.replicate 20 1, rfl⟩, [], [], 0⟩]⟩ ∧
      ∃ p, blockToEvents exampleConstants createAndUpdate processorBlock
        [⟨1, [⟨⟨List.replicate 20 1, rfl⟩, [], [], 0⟩]⟩] = .panic p :=
  have hbad : ¬ReceiptWellFormed exampleConstants
      ⟨[⟨1, "", [], [], []⟩], [⟨Bytes.zero 32, 1, "", [], [], []⟩], [], [], []⟩
      ⟨1, [⟨⟨List.replicate 20 1, rfl⟩, [], [], 0⟩]⟩ := fun h => absurd h.topics (by decide)
  ⟨hbad, blockToEvents_eq_panic (n := 0) (fun _ _ hm _ => absurd hm (Nat.not_lt_zero _)) rfl rfl
    rfl rfl rfl rfl hbad⟩

/-- **`blockToEvents` panics on a receipt it cannot read.** With one receipt for the one
processor transaction of the block, whose payload holds one `Create`: a log with no topic, a
creation log with one topic, and a receipt with no creation log each make `blockToEvents`
panic with an index out of range, where the spec expects a block or an error. -/
theorem blockToEvents_panics_on_malformed_receipts :
    blockToEvents exampleConstants createAndUpdate processorBlock
        [⟨1, [⟨⟨List.replicate 20 1, rfl⟩, [], [], 0⟩]⟩] =
      .panic "runtime error: index out of range [0] with length 0" ∧
    blockToEvents exampleConstants createAndUpdate processorBlock
        [⟨1, [⟨⟨List.replicate 20 1, rfl⟩, [⟨List.replicate 32 1, rfl⟩], [], 0⟩]⟩] =
      .panic "runtime error: index out of range [1] with length 1" ∧
    blockToEvents exampleConstants createAndUpdate processorBlock [⟨1, []⟩] =
      .panic "runtime error: index out of range [0] with length 0" :=
  ⟨rfl, rfl, rfl⟩

end Block

end Arkiv
