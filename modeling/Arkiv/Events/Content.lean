import Arkiv.Events.Expiry

/-!
# What each transaction contributes to a block

`blockToEvents` stamps every operation of a processor transaction with the transaction's
index, and the spec says what those operations are: the `Create`s in payload order, the
`j`-th carrying the key of the `j`-th creation log of the transaction's receipt and the
recovered sender as owner, then the `Update`s, `ExtendBTL`s, `ChangeOwner`s and `Delete`s,
each in payload order with its own fields. `Arkiv.transactionPayloads` writes that reading
down, over the keys of the receipt's creation logs (`Arkiv.entityCreatedKeys`).

The code agrees with it on every block it converts (`Arkiv.blockToEvents_transaction_payloads`).
Two things qualify the spec's count. The operations stamped 0 also include the `Expire`
operations of the first receipt, so the count holds for a transaction's own operations, the
`Expire`s apart (`Arkiv.expire_shares_transaction_index`). And a block is converted at all only
when no receipt the loop reads lacks a topic it reads or a creation log a `Create` needs
(`Arkiv.ReceiptWellFormed`): otherwise `blockToEvents` panics (module `Arkiv.Events.Panic`).

The proof is one spec lemma per loop: `createdEntities` returns the keys of the creation logs
exactly when their topics are present (`Arkiv.createdEntities_eq_ok`), `createOperations` pairs
the `Create`s with the keys in order (`Arkiv.createOperations_eq`), and the transaction loop
hands each transaction's operations to the block unchanged
(`Arkiv.transactionsOperations_filter`).
-/

namespace Arkiv

open Events Outcome

/-! ### The receipt and the payload, as the spec reads them -/

section Spec

variable (c : Constants)

/-- The `ArkivEntityCreated` logs of a receipt, in log order: those whose first topic is the
creation topic. -/
def entityCreatedLogs (logs : List Log) : List Log :=
  logs.filter fun log => log.topics.head? = some c.arkivEntityCreated

/-- The entity key each `ArkivEntityCreated` log carries, in log order: its second topic. -/
def entityCreatedKeys (logs : List Log) : List Hash :=
  (entityCreatedLogs c logs).filterMap (·.topics[1]?)

/-- The topics `createdEntities` reads are there: every log has a first topic, and every
creation log a second. -/
def TopicsPresent (logs : List Log) : Prop :=
  (∀ log ∈ logs, log.topics ≠ []) ∧ ∀ log ∈ entityCreatedLogs c logs, 1 < log.topics.length

instance (logs : List Log) : Decidable (TopicsPresent c logs) :=
  inferInstanceAs (Decidable (_ ∧ _))

/-- A receipt the transaction loop reads without a panic for the payload `atx`: its topics are
there, and it has a creation log for every `Create`. -/
structure ReceiptWellFormed (atx : ArkivTransaction) (receipt : Receipt) : Prop where
  topics : TopicsPresent c receipt.logs
  enoughCreated : atx.create.length ≤ (entityCreatedLogs c receipt.logs).length

/-- The `Create` operation of `create` for the entity `key`, owned by `sender`. -/
def createPayload (sender : Address) (create : ArkivCreate) (key : Hash) : Payload :=
  .create
    { key := key, contentType := create.contentType, btl := create.btl, owner := sender,
      content := create.payload,
      stringAttributes := stringAnnotationsToMap create.stringAnnotations,
      numericAttributes := numericAnnotationsToMap create.numericAnnotations }

/-- The operations the spec has a transaction of `sender` with payload `atx` contribute, given
the keys of its creation logs: the `Create`s paired in order with the keys, then the
`Update`s, `ExtendBTL`s, `ChangeOwner`s and `Delete`s, each in payload order with its fields. -/
def transactionPayloads (sender : Address) (atx : ArkivTransaction) (keys : List Hash) :
    List Payload :=
  List.zipWith (createPayload sender) atx.create keys ++
    atx.update.map (fun update => .update
      { key := update.entityKey, contentType := update.contentType, btl := update.btl,
        owner := sender, content := update.payload,
        stringAttributes := stringAnnotationsToMap update.stringAnnotations,
        numericAttributes := numericAnnotationsToMap update.numericAnnotations }) ++
    atx.extend.map (fun extendBTL => .extendBTL extendBTL.entityKey extendBTL.numberOfBlocks) ++
    atx.changeOwner.map (fun changeOwner => .changeOwner changeOwner.entityKey
      changeOwner.newOwner) ++
    atx.delete.map .delete

/-- With a key for every `Create`, one operation per sub-operation. -/
theorem transactionPayloads_length (sender : Address) (atx : ArkivTransaction)
    {keys : List Hash} (h : atx.create.length ≤ keys.length) :
    (transactionPayloads sender atx keys).length = atx.create.length + atx.update.length +
      atx.extend.length + atx.changeOwner.length + atx.delete.length := by
  simp [transactionPayloads, List.length_zipWith, min_eq_left h, Nat.add_assoc]

end Spec

/-- The operations of a block that transaction `i` contributes: those stamped `i`, the
`Expire` operations of the first receipt apart. -/
def Events.Block.ofTransaction (b : Events.Block) (i : Nat) : List Operation :=
  b.operations.filter fun o => o.txIndex = i ∧ ¬o.isExpire

/-! ### The loops over logs and creates -/

section Loops

variable {c : Constants}

@[simp] theorem entityCreatedLogs_nil : entityCreatedLogs c [] = [] := rfl

theorem entityCreatedLogs_cons (log : Log) (logs : List Log) :
    entityCreatedLogs c (log :: logs) = if log.topics.head? = some c.arkivEntityCreated then
      log :: entityCreatedLogs c logs else entityCreatedLogs c logs := by
  simp [entityCreatedLogs, List.filter_cons]

/-- With their topics present, the creation logs and their keys correspond one to one. -/
theorem entityCreatedKeys_length {logs : List Log} (h : TopicsPresent c logs) :
    (entityCreatedKeys c logs).length = (entityCreatedLogs c logs).length :=
  List.filterMap_length_eq_length.mpr fun log hlog => by simp [h.2 log hlog]

/-- **`createdEntities` reads the creation logs' keys**: it returns exactly when the topics it
reads are there, and then returns the keys of the creation logs, in order. -/
theorem createdEntities_eq_ok : ∀ {logs : List Log} {keys : List Hash},
    createdEntities c logs = ok keys ↔ TopicsPresent c logs ∧ keys = entityCreatedKeys c logs
  | [], keys => by simp [createdEntities, TopicsPresent, entityCreatedKeys, eq_comm]
  | ⟨a, topics, d, n⟩ :: logs, keys => by
    have ih : ∀ keys, createdEntities c logs = ok keys ↔ _ := fun _ => createdEntities_eq_ok
    rcases topics with _ | ⟨t, _ | ⟨k, ts⟩⟩
    · -- no topic: `Topics[0]` panics
      simp [createdEntities, index, TopicsPresent]
    -- one topic, or more: the first decides whether `Topics[1]` is read
    all_goals by_cases ht : t = c.arkivEntityCreated <;>
      simp [createdEntities, index, TopicsPresent, entityCreatedKeys, entityCreatedLogs_cons, ht, ih,
        bind_eq_ok, and_assoc, @eq_comm _ keys]

@[simp] theorem indexedOperations_payloads {α : Type} (i : Nat) (payload : α → Payload)
    (xs : List α) : (indexedOperations i payload xs).map (·.payload) = xs.map payload := by
  rw [indexedOperations, List.map_map]
  exact (List.map_map payload Prod.snd xs.enum).symm.trans (congrArg _ xs.enum_map_snd)

/-- **The `Create` loop pairs the creates with the keys in order**, numbering from `j`; with
fewer keys than creates it reads `createdEntities[0]` of an empty list and panics. -/
theorem createOperations_eq (i : Nat) (sender : Address) :
    ∀ (j : Nat) (creates : List ArkivCreate) (keys : List Hash),
      createOperations i sender j creates keys =
        if creates.length ≤ keys.length then
          ok (((List.zipWith (createPayload sender) creates keys).enumFrom j).map
            fun (n, p) => ⟨i, n, p⟩)
        else .panic "runtime error: index out of range [0] with length 0"
  | _, [], _ => by simp [createOperations]
  | _, _ :: _, [] => rfl
  | j, create :: creates, key :: keys => by
    rw [createOperations, List.drop_one, List.tail_cons, createOperations_eq i sender (j + 1)]
    by_cases h : creates.length ≤ keys.length
    · simp [index, h, createPayload]
    · simp [index, h]

end Loops

/-! ### One transaction -/

section Transaction

variable {c : Constants} {decoder : Decoder} {rawReceipts : List Receipt} {i : Nat}
  {transaction : Transaction} {receipt : Receipt}

/-- The four loops after the `Create` loop of transaction `i`. -/
def laterOperations (i : Nat) (sender : Address) (atx : ArkivTransaction) : List Operation :=
  indexedOperations i (fun update => .update
    { key := update.entityKey, contentType := update.contentType, btl := update.btl,
      owner := sender, content := update.payload,
      stringAttributes := stringAnnotationsToMap update.stringAnnotations,
      numericAttributes := numericAnnotationsToMap update.numericAnnotations }) atx.update ++
    indexedOperations i (fun extendBTL => .extendBTL extendBTL.entityKey extendBTL.numberOfBlocks)
      atx.extend ++
    indexedOperations i (fun changeOwner => .changeOwner changeOwner.entityKey
      changeOwner.newOwner) atx.changeOwner ++
    indexedOperations i .delete atx.delete

theorem transactionOperations_of_not_processor
    (h : transaction.recipient ≠ some c.arkivProcessorAddress) :
    transactionOperations c decoder rawReceipts i transaction = ok [] := by
  cases hto : transaction.recipient with
  | none => simp [transactionOperations, hto]
  | some transactionTo =>
    have hne : transactionTo ≠ c.arkivProcessorAddress := fun heq => h (heq ▸ hto)
    simp [transactionOperations, hto, hne]

theorem transactionOperations_of_failed (hto : transaction.recipient = some c.arkivProcessorAddress)
    (hr : rawReceipts[i]? = some receipt) (hs : receipt.status ≠ receiptStatusSuccessful) :
    transactionOperations c decoder rawReceipts i transaction = ok [] := by
  simp [transactionOperations, hto, index, hr, hs]

/-- Past its guards, the body of the transaction loop decodes the payload, recovers the
sender, reads the created keys, and emits the `Create`s before the later loops. -/
theorem transactionOperations_of_successful
    (hto : transaction.recipient = some c.arkivProcessorAddress)
    (hr : rawReceipts[i]? = some receipt) (hs : receipt.status = receiptStatusSuccessful) :
    transactionOperations c decoder rawReceipts i transaction =
      (ofExcept "failed to unpack arkiv transaction: "
          (decoder.unpackArkivTransaction transaction.data) >>= fun atx =>
        ofExcept "failed to get sender from transaction: " (decoder.sender transaction) >>=
          fun sender => createdEntities c receipt.logs >>= fun keys =>
            createOperations i sender 0 atx.create keys >>= fun creates =>
              ok (creates ++ laterOperations i sender atx)) := by
  simp [transactionOperations, hto, index, hr, hs, laterOperations, List.append_assoc]

/-- Every operation of transaction `i` is stamped `i` and is not an `Expire`. -/
theorem transactionOperations_txIndex {ops : List Operation}
    (h : transactionOperations c decoder rawReceipts i transaction = ok ops) :
    ∀ o ∈ ops, o.txIndex = i ∧ 1 ≤ o.payload.rank := by
  obtain ⟨gs, rfl, hgs⟩ := transactionOperations_groups h
  exact hgs.spec.1

/-- **A converted processor transaction carries the spec's operations**: its payload decoded,
its sender was recovered, its receipt is well formed, and its operations are the spec's, in
order. -/
theorem transactionOperations_payloads {ops : List Operation}
    (hto : transaction.recipient = some c.arkivProcessorAddress)
    (hr : rawReceipts[i]? = some receipt) (hs : receipt.status = receiptStatusSuccessful)
    (h : transactionOperations c decoder rawReceipts i transaction = ok ops) :
    ∃ atx sender, decoder.unpackArkivTransaction transaction.data = .ok atx ∧
      decoder.sender transaction = .ok sender ∧ ReceiptWellFormed c atx receipt ∧
      ops.map (·.payload) = transactionPayloads sender atx (entityCreatedKeys c receipt.logs) := by
  rw [transactionOperations_of_successful hto hr hs] at h
  simp only [bind_eq_ok, ofExcept_eq_ok, createdEntities_eq_ok, createOperations_eq] at h
  obtain ⟨atx, hatx, sender, hsender, keys, ⟨htp, rfl⟩, creates, hcreates, ⟨⟩⟩ := h
  split_ifs at hcreates with hlen
  cases hcreates
  refine ⟨atx, sender, hatx, hsender, ⟨htp, entityCreatedKeys_length htp ▸ hlen⟩, ?_⟩
  simp [laterOperations, transactionPayloads, Function.comp_def]

end Transaction

/-! ### The whole block -/

section Block

variable {c : Constants} {decoder : Decoder} {rawReceipts : List Receipt}

/-- **The transaction loop hands each transaction's operations to the block unchanged**: the
operations stamped `j + n` are those of the `n`-th transaction from `j`. -/
theorem transactionsOperations_filter : ∀ {j : Nat} {transactions : List Transaction}
    {ops : List Operation}, transactionsOperations c decoder rawReceipts j transactions = ok ops →
    ∀ {n : Nat} {transaction : Transaction}, transactions[n]? = some transaction →
      ∃ mine, transactionOperations c decoder rawReceipts (j + n) transaction = ok mine ∧
        ops.filter (fun o => o.txIndex = j + n) = mine
  | _, [], _, _, _, _, hn => by simp at hn
  | j, first :: transactions, ops, h, n, transaction, hn => by
    simp only [transactionsOperations, bind_eq_ok] at h
    obtain ⟨mine, hmine, rest, hrest, ⟨⟩⟩ := h
    have hall := transactionOperations_txIndex hmine
    have hrest' := (transactionsOperations_spec hrest).1
    rw [List.filter_append]
    cases n with
    | zero =>
      obtain rfl : first = transaction := by simpa using hn
      refine ⟨mine, hmine, ?_⟩
      rw [List.filter_eq_self.mpr fun o ho => by simp [(hall o ho).1],
        List.filter_eq_nil_iff.mpr fun o ho => by have := (hrest' o ho).1; simp; omega,
        List.append_nil]
    | succ m =>
      obtain ⟨theirs, htheirs, hf⟩ := transactionsOperations_filter hrest (n := m) (by simpa using hn)
      rw [show j + (m + 1) = j + 1 + m by omega]
      refine ⟨theirs, htheirs, ?_⟩
      rw [List.filter_eq_nil_iff.mpr fun o ho => by have := (hall o ho).1; simp; omega,
        List.nil_append, hf]

/-- The operations a block converts from transaction `i` are those `transactionOperations`
returns for it: the `Expire`s are set apart, and the loop hands them over unchanged. -/
theorem blockToEvents_ofTransaction {rawBlock : Block} {firstReceipt : Receipt}
    {rest : List Receipt} {out : Events.Block}
    (h : blockToEvents c decoder rawBlock (firstReceipt :: rest) = ok out) {i : Nat}
    {transaction : Transaction} (htx : rawBlock.transactions[i]? = some transaction) :
    ∃ mine, transactionOperations c decoder (firstReceipt :: rest) i transaction = ok mine ∧
      out.ofTransaction i = mine := by
  obtain ⟨ops, hops, hb⟩ := bind_eq_ok.mp h
  have hb : out.operations = expireOperations c firstReceipt.logs ++ ops := by cases hb; rfl
  obtain ⟨mine, hmine, hf⟩ := transactionsOperations_filter hops htx
  rw [zero_add] at hmine hf
  have hall := (transactionsOperations_spec hops).1
  have hexp := (expireOperations_spec (c := c) firstReceipt.logs).1
  refine ⟨mine, hmine, ?_⟩
  rw [Events.Block.ofTransaction, hb, List.filter_append, List.filter_eq_nil_iff.mpr fun o ho =>
    by simp [Operation.isExpire, (hexp o ho).2], List.nil_append, ← hf]
  exact List.filter_congr fun o ho => by
    have := (hall o ho).2
    simp [Operation.isExpire]
    omega

/-- Every `Expire` operation of a converted block is stamped transaction 0. -/
theorem blockToEvents_expire_txIndex {rawBlock : Block} {out : Events.Block}
    (h : blockToEvents c decoder rawBlock rawReceipts = ok out) :
    ∀ o ∈ out.operations, o.isExpire → o.txIndex = 0 := by
  cases rawReceipts with
  | nil =>
    cases h
    exact fun _ ho => absurd ho (List.not_mem_nil _)
  | cons firstReceipt rest =>
    obtain ⟨ops, hops, ⟨⟩⟩ := bind_eq_ok.mp h
    intro o ho hexp
    rcases List.mem_append.mp ho with ho | ho
    · exact ((expireOperations_spec firstReceipt.logs).1 o ho).1
    · have := ((transactionsOperations_spec hops).1 o ho).2
      simp only [Operation.isExpire, decide_eq_true_eq] at hexp
      omega

/-- **What each transaction contributes.** On every block `blockToEvents` converts, take the
`i`-th transaction and its receipt. If it is not addressed to the processor, or its receipt
failed, it contributes no operation. Otherwise its payload decoded to some `atx` and its sender
was recovered; its receipt has every topic the loop reads and a creation log for every
`Create`; and its operations, the `Expire`s apart, are one per sub-operation: the `Create`s
paired in order with the keys of the creation logs and owned by the sender, then the
`Update`s, `ExtendBTL`s, `ChangeOwner`s and `Delete`s in payload order. The `Expire`s set
apart are all stamped transaction 0. -/
theorem blockToEvents_transaction_payloads {rawBlock : Block} {out : Events.Block}
    (h : blockToEvents c decoder rawBlock rawReceipts = ok out) {i : Nat}
    {transaction : Transaction} {receipt : Receipt}
    (htx : rawBlock.transactions[i]? = some transaction) (hr : rawReceipts[i]? = some receipt) :
    (transaction.recipient ≠ some c.arkivProcessorAddress ∨
        receipt.status ≠ receiptStatusSuccessful → out.ofTransaction i = []) ∧
      (transaction.recipient = some c.arkivProcessorAddress →
        receipt.status = receiptStatusSuccessful →
        ∃ atx sender, decoder.unpackArkivTransaction transaction.data = .ok atx ∧
          decoder.sender transaction = .ok sender ∧ ReceiptWellFormed c atx receipt ∧
          (out.ofTransaction i).map (·.payload) =
            transactionPayloads sender atx (entityCreatedKeys c receipt.logs) ∧
          (out.ofTransaction i).length = atx.create.length + atx.update.length +
            atx.extend.length + atx.changeOwner.length + atx.delete.length) ∧
      ∀ o ∈ out.operations, o.isExpire → o.txIndex = 0 := by
  cases rawReceipts with
  | nil => simp at hr
  | cons firstReceipt rest =>
  obtain ⟨mine, hmine, rfl⟩ := blockToEvents_ofTransaction h htx
  refine ⟨fun hno => ?_, fun hto hs => ?_, blockToEvents_expire_txIndex h⟩
  · by_cases hto : transaction.recipient = some c.arkivProcessorAddress
    · exact (Outcome.ok.inj <| hmine.symm.trans <|
        transactionOperations_of_failed hto hr (hno.resolve_left (not_not.mpr hto)))
    · exact Outcome.ok.inj (hmine.symm.trans (transactionOperations_of_not_processor hto))
  · obtain ⟨atx, sender, hatx, hsender, hwf, hpay⟩ := transactionOperations_payloads hto hr hs hmine
    refine ⟨atx, sender, hatx, hsender, hwf, hpay, ?_⟩
    rw [← List.length_map (out.ofTransaction i) (·.payload), hpay, transactionPayloads_length _ _
      (hwf.enoughCreated.trans (entityCreatedKeys_length hwf.topics).ge)]

end Block

/-! ### One processor transaction -/

/-- The constants of the examples: the processor at `01…01`, the creation topic `01…01`, the
expiry topic `02…02`. -/
def exampleConstants : Constants :=
  ⟨⟨List.replicate 20 1, rfl⟩, ⟨List.replicate 32 1, rfl⟩, ⟨List.replicate 32 2, rfl⟩⟩

/-- A decoder that reads every payload as one `Create` and one `Update`, sent by the zero
address. -/
def createAndUpdate : Decoder :=
  ⟨fun _ => .ok ⟨[⟨1, "", [], [], []⟩], [⟨Bytes.zero 32, 1, "", [], [], []⟩], [], [], []⟩,
    fun _ => .ok (Bytes.zero 20)⟩

/-- A block of one transaction, addressed to the processor. -/
def processorBlock : Block := ⟨0, 0, Bytes.zero 32, [⟨some ⟨List.replicate 20 1, rfl⟩, [], []⟩]⟩

/-- A successful receipt whose creation log of key `03…03` follows a log of another topic. -/
def creationReceipt : Receipt :=
  ⟨1, [⟨⟨List.replicate 20 1, rfl⟩, [⟨List.replicate 32 5, rfl⟩], [], 0⟩,
    ⟨⟨List.replicate 20 1, rfl⟩, [⟨List.replicate 32 1, rfl⟩, ⟨List.replicate 32 3, rfl⟩], [], 0⟩]⟩

/-- The creation log comes second: the `Create` still takes its key, and the `Update` follows. -/
theorem blockToEvents_transaction_payloads_after_other_log :
    ∃ out, blockToEvents exampleConstants createAndUpdate processorBlock [creationReceipt] =
        ok out ∧
      ((⟨some ⟨List.replicate 20 1, rfl⟩, [], []⟩ : Transaction).recipient ≠
          some exampleConstants.arkivProcessorAddress ∨
          creationReceipt.status ≠ receiptStatusSuccessful → out.ofTransaction 0 = []) ∧
      ((⟨some ⟨List.replicate 20 1, rfl⟩, [], []⟩ : Transaction).recipient =
          some exampleConstants.arkivProcessorAddress →
        creationReceipt.status = receiptStatusSuccessful →
        ∃ atx sender, createAndUpdate.unpackArkivTransaction [] = .ok atx ∧
          createAndUpdate.sender ⟨some ⟨List.replicate 20 1, rfl⟩, [], []⟩ = .ok sender ∧
          ReceiptWellFormed exampleConstants atx creationReceipt ∧
          (out.ofTransaction 0).map (·.payload) =
            transactionPayloads sender atx (entityCreatedKeys exampleConstants creationReceipt.logs) ∧
          (out.ofTransaction 0).length = atx.create.length + atx.update.length +
            atx.extend.length + atx.changeOwner.length + atx.delete.length) ∧
      ∀ o ∈ out.operations, o.isExpire → o.txIndex = 0 :=
  Exists.imp (fun _ h => ⟨h, blockToEvents_transaction_payloads h rfl rfl⟩) ⟨_, rfl⟩

/-- **An `Expire` shares transaction index 0.** When the first receipt, that of a processor
transaction with one `Create` and one `Update`, also holds an expiry log, the block has three
operations stamped 0 where the payload has two sub-operations: an `Expire`, the `Create` and
the `Update`. -/
theorem expire_shares_transaction_index :
    ∃ out, blockToEvents exampleConstants createAndUpdate processorBlock
        [⟨1, ⟨⟨List.replicate 20 1, rfl⟩, [⟨List.replicate 32 2, rfl⟩], List.replicate 32 4, 0⟩ ::
          creationReceipt.logs⟩] = ok out ∧
      (out.operations.filter (·.txIndex = 0)).map (·.payload.rank) = [0, 1, 2] :=
  ⟨_, rfl, rfl⟩

end Arkiv
