import Mathlib.Data.List.Nodup
import Arkiv.Chain

/-!
# From a block to its operations

`blockToEvents` turns one block, with its receipts, into the list of operations the indexer
consumes. The expiry logs of the first receipt become `Expire` operations, stamped with
transaction index 0 and the log's position; then every successful transaction addressed to
the processor is decoded, and each of its sub-operations becomes one operation stamped with
the transaction's index and the sub-operation's position *in the list of its kind*. The
`j`-th `Create` takes the `j`-th key of the transaction's creation logs.

The decoder of the call data (package `storagetx`) and sender recovery are not part of the
source; they are the two fields of `Arkiv.Decoder`, and every result holds for all of them.
The types of `storagetx` and of the `events` library are modelled from the fields
`blockToEvents` reads and writes. Go's `uint64(i)` of a slice index is exact, so the two
indices of an operation are natural numbers.

The annotation maps of an operation are Go maps built by assignment in a loop; kept as lists of
entries, they have distinct keys and give the last value written for each key
(`Arkiv.annotationsToMap_lookup`).

The transaction loop indexes the receipt list, the topics of every log of a processor
transaction's receipt and the list of created keys without a bounds check; each of these is
`Arkiv.Outcome.index`, which panics out of range.
-/

namespace Arkiv

/-! ### Payloads -/

/-- `storagetx.StringAnnotation` and `storagetx.NumericAnnotation`. -/
structure AnnotationEntry (α : Type) where
  key : String
  value : α
deriving DecidableEq, Repr

/-- `storagetx.ArkivCreate`. -/
structure ArkivCreate where
  btl : UInt64
  contentType : String
  payload : List UInt8
  stringAnnotations : List (AnnotationEntry String)
  numericAnnotations : List (AnnotationEntry UInt64)
deriving DecidableEq, Repr

/-- `storagetx.ArkivUpdate`. -/
structure ArkivUpdate where
  entityKey : Hash
  btl : UInt64
  contentType : String
  payload : List UInt8
  stringAnnotations : List (AnnotationEntry String)
  numericAnnotations : List (AnnotationEntry UInt64)
deriving DecidableEq, Repr

/-- `storagetx.ExtendBTL`. -/
structure ArkivExtendBTL where
  entityKey : Hash
  numberOfBlocks : UInt64
deriving DecidableEq, Repr

/-- `storagetx.ChangeOwner`. -/
structure ArkivChangeOwner where
  entityKey : Hash
  newOwner : Address
deriving DecidableEq, Repr

/-- `storagetx.ArkivTransaction`: the five lists of sub-operations. -/
structure ArkivTransaction where
  create : List ArkivCreate
  update : List ArkivUpdate
  delete : List Hash
  extend : List ArkivExtendBTL
  changeOwner : List ArkivChangeOwner
deriving DecidableEq, Repr

/-- The two capabilities `blockToEvents` calls and the source does not contain. -/
structure Decoder where
  /-- `storagetx.UnpackArkivTransaction` of the call data. -/
  unpackArkivTransaction : List UInt8 → Except String ArkivTransaction
  /-- `signer.Sender` of the latest signer for the transaction's chain id. -/
  sender : Transaction → Except String Address

/-! ### The events library -/

namespace Events

/-- `events.OPCreate` and `events.OPUpdate`. -/
structure OPWrite where
  key : Hash
  contentType : String
  btl : UInt64
  owner : Address
  content : List UInt8
  stringAttributes : List (String × String)
  numericAttributes : List (String × UInt64)
deriving DecidableEq, Repr

/-- The populated field of an `events.Operation`: exactly one of the six. -/
inductive Payload
  | create (op : OPWrite)
  | update (op : OPWrite)
  | extendBTL (key : Hash) (btl : UInt64)
  | changeOwner (key : Hash) (owner : Address)
  | delete (key : Hash)
  | expire (key : Hash)
deriving DecidableEq, Repr

/-- `events.Operation`. -/
structure Operation where
  txIndex : Nat
  opIndex : Nat
  payload : Payload
deriving DecidableEq, Repr

/-- `events.Block`. -/
structure Block where
  number : UInt64
  operations : List Operation
deriving DecidableEq, Repr

end Events

open Events Outcome

/-! ### Annotations -/

/-- Go's map assignment `m[key] = value` on a map kept as its list of entries. -/
def mapInsert {α : Type} (m : List (String × α)) (key : String) (value : α) :
    List (String × α) :=
  m.filter (·.1 != key) ++ [(key, value)]

/-- The loop shared by `stringAnnotationsToMap` and `numericAnnotationsToMap`. -/
def annotationsToMap {α : Type} (annotations : List (AnnotationEntry α)) : List (String × α) :=
  annotations.foldl (fun m a => mapInsert m a.key a.value) []

/-- `stringAnnotationsToMap`. -/
def stringAnnotationsToMap (annotations : List (AnnotationEntry String)) :
    List (String × String) :=
  annotationsToMap annotations

/-- `numericAnnotationsToMap`. -/
def numericAnnotationsToMap (annotations : List (AnnotationEntry UInt64)) :
    List (String × UInt64) :=
  annotationsToMap annotations

section Annotations

variable {α : Type} {m : List (String × α)} {key k k' : String} {v v' : α}

theorem lookup_cons_pair :
    ((k', v') :: m).lookup key = if key = k' then some v' else m.lookup key := by
  by_cases h : key = k'
  · rw [List.lookup_cons, h, beq_self_eq_true, if_pos rfl]
  · rw [List.lookup_cons, beq_false_of_ne h, if_neg h]

theorem lookup_filter_ne :
    (m.filter (·.1 != k)).lookup key = if key = k then none else m.lookup key := by
  induction m with
  | nil => simp
  | cons e m ih =>
    obtain ⟨k', v'⟩ := e
    by_cases h : k' = k
    · subst h
      rw [List.filter_cons_of_neg (by simp), ih, lookup_cons_pair]
      split_ifs <;> rfl
    · rw [List.filter_cons_of_pos (by simpa using h), lookup_cons_pair, lookup_cons_pair, ih]
      split_ifs <;> simp_all

/-- After `m[k] = v`, key `k` gives `v` and every other key what it gave before. -/
theorem lookup_mapInsert :
    (mapInsert m k v).lookup key = if key = k then some v else m.lookup key := by
  rw [mapInsert, List.lookup_append, lookup_filter_ne, lookup_cons_pair]
  by_cases h : key = k <;> simp [h]

/-- `m[k] = v` keeps the keys of the map distinct. -/
theorem nodup_mapInsert (hm : (m.map Prod.fst).Nodup) :
    ((mapInsert m k v).map Prod.fst).Nodup := by
  rw [mapInsert, List.map_append, List.nodup_append]
  refine ⟨(List.filter_sublist m).map Prod.fst |>.nodup hm, List.nodup_singleton k, ?_⟩
  intro x hx hk
  obtain ⟨e, he, rfl⟩ := List.mem_map.mp hx
  simp_all

theorem lookup_foldl_mapInsert (annotations : List (AnnotationEntry α)) (m : List (String × α)) :
    (annotations.foldl (fun m a => mapInsert m a.key a.value) m).lookup key =
      ((annotations.reverse.find? (·.key = key)).map (·.value)).or (m.lookup key) := by
  induction annotations generalizing m with
  | nil => simp
  | cons a as ih =>
    rw [List.foldl_cons, ih, lookup_mapInsert, List.reverse_cons, List.find?_append]
    cases as.reverse.find? (·.key = key) <;> by_cases h : key = a.key <;> simp [h, eq_comm]

theorem nodup_foldl_mapInsert (annotations : List (AnnotationEntry α))
    (hm : (m.map Prod.fst).Nodup) :
    ((annotations.foldl (fun m a => mapInsert m a.key a.value) m).map Prod.fst).Nodup := by
  induction annotations generalizing m with
  | nil => exact hm
  | cons a as ih => exact ih (nodup_mapInsert hm)

/-- **An annotation map holds the last value written for each key.** The keys of the map that
`stringAnnotationsToMap` and `numericAnnotationsToMap` build are distinct, and the value it
gives for a key is that of the last annotation with the key, or none when no annotation has
it. -/
theorem annotationsToMap_lookup (annotations : List (AnnotationEntry α)) :
    ((annotationsToMap annotations).map Prod.fst).Nodup ∧
      ∀ key, (annotationsToMap annotations).lookup key =
        (annotations.reverse.find? (·.key = key)).map (·.value) :=
  ⟨nodup_foldl_mapInsert annotations List.nodup_nil, fun key => by
    rw [annotationsToMap, lookup_foldl_mapInsert, List.lookup_nil, Option.or_none]⟩

example : annotationsToMap [⟨"a", (1 : UInt64)⟩, ⟨"b", 2⟩, ⟨"a", 3⟩] = [("b", 2), ("a", 3)] := by
  decide

end Annotations

/-! ### `blockToEvents` -/

section Derive

variable (c : Constants) (decoder : Decoder)

/-- The body of the `Expire` loop: a log whose first topic is the expiry topic and whose data
holds at least 32 bytes names the entity in those bytes. -/
def expireOperation (opIndex : Nat) (log : Log) : Option Operation :=
  match log.topics with
  | [] => none
  | topic :: _ =>
    if topic = c.arkivEntityExpired ∧ 32 ≤ log.data.length then
      some ⟨0, opIndex, .expire (bytesToHash (log.data.take 32))⟩
    else none

/-- The `Expire` loop over the first receipt's logs. -/
def expireOperations (logs : List Log) : List Operation :=
  logs.enum.filterMap fun (opIndex, log) => expireOperation c opIndex log

/-- `createdEntities` over the receipt's logs: the second topic of every log whose first
topic is the creation topic. It reads `Topics[0]` and `Topics[1]` unchecked. -/
def createdEntities : List Log → Outcome (List Hash)
  | [] => ok []
  | log :: logs => do
    let topic ← index log.topics 0
    if topic = c.arkivEntityCreated then
      let entityKey ← index log.topics 1
      let entities ← createdEntities logs
      return entityKey :: entities
    else createdEntities logs

/-- The `Create` loop of transaction `i`: the `opIndex`-th create takes the first remaining
created key (`createdEntities[0]`, unchecked) and drops it. -/
def createOperations (i : Nat) (sender : Address) :
    Nat → List ArkivCreate → List Hash → Outcome (List Operation)
  | _, [], _ => ok []
  | opIndex, create :: creates, createdEntities => do
    let createdEntityKey ← index createdEntities 0
    let rest ← createOperations i sender (opIndex + 1) creates (createdEntities.drop 1)
    return ⟨i, opIndex, .create
      { key := createdEntityKey, contentType := create.contentType, btl := create.btl,
        owner := sender, content := create.payload,
        stringAttributes := stringAnnotationsToMap create.stringAnnotations,
        numericAttributes := numericAnnotationsToMap create.numericAnnotations }⟩ :: rest

/-- A `for opIndex, x := range xs` loop of transaction `i` that appends one operation per
element. -/
def indexedOperations {α : Type} (i : Nat) (payload : α → Payload) (xs : List α) :
    List Operation :=
  xs.enum.map fun (opIndex, x) => ⟨i, opIndex, payload x⟩

/-- The body of the transaction loop for transaction `i`. -/
def transactionOperations (rawReceipts : List Receipt) (i : Nat) (transaction : Transaction) :
    Outcome (List Operation) :=
  match transaction.recipient with
  | none => ok []
  | some transactionTo =>
    if transactionTo ≠ c.arkivProcessorAddress then ok [] else do
    let receipt ← index rawReceipts i
    if receipt.status ≠ receiptStatusSuccessful then ok [] else do
    let atx ← ofExcept "failed to unpack arkiv transaction: "
      (decoder.unpackArkivTransaction transaction.data)
    let sender ← ofExcept "failed to get sender from transaction: " (decoder.sender transaction)
    let createdEntities ← createdEntities c receipt.logs
    let creates ← createOperations i sender 0 atx.create createdEntities
    return creates ++
      indexedOperations i (fun update => .update
        { key := update.entityKey, contentType := update.contentType, btl := update.btl,
          owner := sender, content := update.payload,
          stringAttributes := stringAnnotationsToMap update.stringAnnotations,
          numericAttributes := numericAnnotationsToMap update.numericAnnotations }) atx.update ++
      indexedOperations i (fun extendBTL => .extendBTL extendBTL.entityKey extendBTL.numberOfBlocks)
        atx.extend ++
      indexedOperations i (fun changeOwner => .changeOwner changeOwner.entityKey
        changeOwner.newOwner) atx.changeOwner ++
      indexedOperations i .delete atx.delete

/-- The transaction loop, from index `i` on. -/
def transactionsOperations (rawReceipts : List Receipt) :
    Nat → List Transaction → Outcome (List Operation)
  | _, [] => ok []
  | i, transaction :: transactions => do
    let ops ← transactionOperations c decoder rawReceipts i transaction
    let rest ← transactionsOperations rawReceipts (i + 1) transactions
    return ops ++ rest

/-- `blockToEvents`: with no receipt, a block without operations; otherwise the `Expire`
operations of the first receipt, then the operations of each transaction in order. -/
def blockToEvents (rawBlock : Block) (rawReceipts : List Receipt) : Outcome Events.Block :=
  match rawReceipts with
  | [] => ok ⟨rawBlock.number, []⟩
  | firstReceipt :: _ => do
    let ops ← transactionsOperations c decoder rawReceipts 0 rawBlock.transactions
    return ⟨rawBlock.number, expireOperations c firstReceipt.logs ++ ops⟩

end Derive

/-- The block `blockToEvents` returns carries the number of the block it was given. -/
theorem blockToEvents_number {c : Constants} {decoder : Decoder} {rawBlock : Block}
    {rawReceipts : List Receipt} {out : Events.Block}
    (h : blockToEvents c decoder rawBlock rawReceipts = ok out) : out.number = rawBlock.number := by
  cases rawReceipts with
  | nil => cases h; rfl
  | cons firstReceipt rest =>
    obtain ⟨ops, -, h⟩ := bind_eq_ok.mp h
    cases h
    rfl

end Arkiv
