import Arkiv.Events.BlockToEvents

/-!
# The order of a block's operations

The spec wants `(TxIndex, OpIndex)` to order a block's operations totally. `blockToEvents`
numbers each kind of sub-operation from 0 within its transaction, so a transaction with a
`Create` and an `Update` emits two operations stamped `(i, 0)`
(`Arkiv.create_and_update_share_indices`), and the `Expire` operations carry the positions
of their logs, which need not be consecutive.

What the code does guarantee is an order by transaction, then by kind, then by position:
`Arkiv.OpBefore`, with the kinds ranked `Expire < Create < Update < ExtendBTL < ChangeOwner
< Delete` as the loops emit them. Along every block it produces, the operations strictly
increase in that order, the operations of one kind of one transaction are numbered
0, 1, 2, …, and an `Expire` carries the position of the first receipt's log it is built from
(`Arkiv.blockToEvents_order`).

The proof follows the loops. One transaction's operations are five numbered groups of
increasing kind (`Arkiv.KindGroups`); the transaction loop concatenates them in
transaction order; the `Expire` operations come first, at transaction 0 and kind 0.
-/

namespace Arkiv

open Events Outcome

/-- The rank of an operation's kind, in the order `blockToEvents` emits the kinds. -/
def Events.Payload.rank : Payload → Nat
  | .expire _ => 0
  | .create _ => 1
  | .update _ => 2
  | .extendBTL _ _ => 3
  | .changeOwner _ _ => 4
  | .delete _ => 5

/-- `o` comes strictly before `o'`: by transaction index, then by kind, then by position. -/
def OpBefore (o o' : Operation) : Prop :=
  o.txIndex < o'.txIndex ∨ o.txIndex = o'.txIndex ∧
    (o.payload.rank < o'.payload.rank ∨
      o.payload.rank = o'.payload.rank ∧ o.opIndex < o'.opIndex)

/-- The positions, in order, of the operations of kind `r` of transaction `i`. -/
def kindPositions (ops : List Operation) (i r : Nat) : List Nat :=
  (ops.filter fun o => o.txIndex = i ∧ o.payload.rank = r).map (·.opIndex)

@[simp] theorem kindPositions_append (l₁ l₂ : List Operation) (i r : Nat) :
    kindPositions (l₁ ++ l₂) i r = kindPositions l₁ i r ++ kindPositions l₂ i r := by
  simp [kindPositions]

theorem kindPositions_eq_nil {ops : List Operation} {i r : Nat}
    (h : ∀ o ∈ ops, o.txIndex = i → o.payload.rank ≠ r) : kindPositions ops i r = [] := by
  rw [kindPositions, List.filter_eq_nil_iff.mpr fun o ho => by simpa using h o ho]
  rfl

/-- A group of operations of transaction `i` and kind `r`, numbered 0, 1, 2, … -/
def Numbered (i r : Nat) (g : List Operation) : Prop :=
  (∀ o ∈ g, o.txIndex = i ∧ o.payload.rank = r) ∧ g.map (·.opIndex) = List.range g.length

/-- Numbered groups of transaction `i` with consecutive kind ranks from `r` on. -/
def KindGroups (i : Nat) : Nat → List (List Operation) → Prop
  | _, [] => True
  | r, g :: gs => Numbered i r g ∧ KindGroups i (r + 1) gs

section Groups

variable {i r : Nat}

theorem Numbered.pairwise {g : List Operation} (h : Numbered i r g) : g.Pairwise OpBefore := by
  have hlt : (g.map (·.opIndex)).Pairwise (· < ·) := h.2 ▸ List.pairwise_lt_range _
  rw [List.pairwise_map] at hlt
  refine hlt.imp_of_mem fun ha hb hab => .inr ⟨?_, .inr ⟨?_, hab⟩⟩
  · rw [(h.1 _ ha).1, (h.1 _ hb).1]
  · rw [(h.1 _ ha).2, (h.1 _ hb).2]

theorem Numbered.kindPositions_eq_range {g : List Operation} (h : Numbered i r g) (r' : Nat) :
    ∃ m, kindPositions g i r' = List.range m := by
  by_cases hr : r' = r
  · subst hr
    refine ⟨g.length, ?_⟩
    rw [kindPositions, List.filter_eq_self.mpr fun o ho => by simp [h.1 o ho], h.2]
  · exact ⟨0, kindPositions_eq_nil fun o ho _ h' => hr (h'.symm.trans (h.1 o ho).2)⟩

/-- **One transaction's operations**: all of transaction `i`, of rank `r` or more, strictly
increasing, and each kind numbered from 0. -/
theorem KindGroups.spec : ∀ {r : Nat} {gs : List (List Operation)}, KindGroups i r gs →
    (∀ o ∈ gs.flatten, o.txIndex = i ∧ r ≤ o.payload.rank) ∧
      gs.flatten.Pairwise OpBefore ∧
      ∀ r', ∃ m, kindPositions gs.flatten i r' = List.range m
  | _, [], _ => ⟨by simp, .nil, fun _ => ⟨0, rfl⟩⟩
  | r, g :: gs, ⟨hg, hgs⟩ => by
    obtain ⟨hall, hpw, hpos⟩ := KindGroups.spec hgs
    refine ⟨fun o ho => ?_, List.pairwise_append.mpr ⟨hg.pairwise, hpw, fun a ha b hb => ?_⟩,
      fun r' => ?_⟩
    · rcases List.mem_append.mp ho with ho | ho
      · exact ⟨(hg.1 o ho).1, (hg.1 o ho).2.ge⟩
      · exact ⟨(hall o ho).1, by have := (hall o ho).2; omega⟩
    · have := (hall b hb).2
      exact .inr ⟨(hg.1 a ha).1.trans (hall b hb).1.symm, .inl (by rw [(hg.1 a ha).2]; omega)⟩
    · obtain ⟨m, hm⟩ := hg.kindPositions_eq_range r'
      obtain ⟨m', hm'⟩ := hpos r'
      rw [List.flatten_cons, kindPositions_append]
      by_cases hr : r' = r
      · subst hr
        refine ⟨m, ?_⟩
        rw [hm, kindPositions_eq_nil fun o ho _ h' => by have := (hall o ho).2; omega,
          List.append_nil]
      · refine ⟨m', ?_⟩
        rw [kindPositions_eq_nil fun o ho _ h' => hr (h'.symm.trans (hg.1 o ho).2), hm',
          List.nil_append]

end Groups

/-! ### The loops -/

section Loops

variable {c : Constants} {decoder : Decoder}

theorem indexedOperations_numbered {α : Type} {i r : Nat} {payload : α → Payload}
    (hp : ∀ x, (payload x).rank = r) (xs : List α) :
    Numbered i r (indexedOperations i payload xs) := by
  refine ⟨fun o ho => ?_, by simp [indexedOperations, Function.comp_def]⟩
  obtain ⟨⟨j, x⟩, -, rfl⟩ := List.mem_map.mp ho
  exact ⟨rfl, hp x⟩

theorem createOperations_numbered {i : Nat} {sender : Address} :
    ∀ {j : Nat} {creates : List ArkivCreate} {keys : List Hash} {ops : List Operation},
      createOperations i sender j creates keys = ok ops →
      (∀ o ∈ ops, o.txIndex = i ∧ o.payload.rank = 1) ∧
        ops.map (·.opIndex) = List.range' j creates.length
  | _, [], _, ops, h => by
    cases h
    exact ⟨by simp, rfl⟩
  | j, create :: creates, keys, ops, h => by
    simp only [createOperations, bind_eq_ok] at h
    obtain ⟨key, -, rest, hrest, h⟩ := h
    cases h
    obtain ⟨hall, hidx⟩ := createOperations_numbered hrest
    refine ⟨fun o ho => ?_, by simp [hidx, List.range'_succ]⟩
    rcases List.mem_cons.mp ho with rfl | ho
    · exact ⟨rfl, rfl⟩
    · exact hall o ho

theorem transactionOperations_groups {rawReceipts : List Receipt} {i : Nat}
    {transaction : Transaction} {ops : List Operation}
    (h : transactionOperations c decoder rawReceipts i transaction = ok ops) :
    ∃ gs, ops = gs.flatten ∧ KindGroups i 1 gs := by
  unfold transactionOperations at h
  split at h
  · cases h
    exact ⟨[], rfl, trivial⟩
  split_ifs at h
  · cases h
    exact ⟨[], rfl, trivial⟩
  obtain ⟨receipt, -, h⟩ := bind_eq_ok.mp h
  split_ifs at h
  · cases h
    exact ⟨[], rfl, trivial⟩
  simp only [bind_eq_ok] at h
  obtain ⟨atx, -, sender, -, keys, -, creates, hcreates, h⟩ := h
  cases h
  obtain ⟨hall, hidx⟩ := createOperations_numbered hcreates
  have hlen : creates.length = atx.create.length := by simpa using congrArg List.length hidx
  exact ⟨[creates, _, _, _, _],
    by simp only [List.flatten_cons, List.flatten_nil, List.append_nil, List.append_assoc]; rfl,
    ⟨hall, by rw [hidx, hlen, List.range_eq_range']⟩,
    indexedOperations_numbered (fun _ => by rfl) _, indexedOperations_numbered (fun _ => by rfl) _,
    indexedOperations_numbered (fun _ => by rfl) _, indexedOperations_numbered (fun _ => by rfl) _,
    trivial⟩

/-- **The transaction loop**: from index `j` on, every operation belongs to a transaction
`j` or later and is not an `Expire`; they strictly increase; and each kind of each
transaction is numbered from 0. -/
theorem transactionsOperations_spec {rawReceipts : List Receipt} :
    ∀ {j : Nat} {transactions : List Transaction} {ops : List Operation},
      transactionsOperations c decoder rawReceipts j transactions = ok ops →
      (∀ o ∈ ops, j ≤ o.txIndex ∧ 1 ≤ o.payload.rank) ∧ ops.Pairwise OpBefore ∧
        ∀ i r, ∃ m, kindPositions ops i r = List.range m
  | _, [], ops, h => by
    cases h
    exact ⟨by simp, .nil, fun _ _ => ⟨0, rfl⟩⟩
  | j, transaction :: transactions, ops, h => by
    simp only [transactionsOperations, bind_eq_ok] at h
    obtain ⟨mine, hmine, rest, hrest, h⟩ := h
    cases h
    obtain ⟨gs, rfl, hgs⟩ := transactionOperations_groups hmine
    obtain ⟨hall, hpw, hpos⟩ := hgs.spec
    obtain ⟨hall', hpw', hpos'⟩ := transactionsOperations_spec hrest
    refine ⟨fun o ho => ?_, List.pairwise_append.mpr ⟨hpw, hpw', fun a ha b hb => ?_⟩,
      fun i r => ?_⟩
    · rcases List.mem_append.mp ho with ho | ho
      · exact ⟨(hall o ho).1.ge, (hall o ho).2⟩
      · exact ⟨by have := (hall' o ho).1; omega, (hall' o ho).2⟩
    · have := (hall' b hb).1
      exact .inl (by rw [(hall a ha).1]; omega)
    · rw [kindPositions_append]
      by_cases hi : i = j
      · subst hi
        obtain ⟨m, hm⟩ := hpos r
        refine ⟨m, ?_⟩
        rw [hm, kindPositions_eq_nil fun o ho h' _ => by have := (hall' o ho).1; omega,
          List.append_nil]
      · obtain ⟨m, hm⟩ := hpos' i r
        refine ⟨m, ?_⟩
        rw [kindPositions_eq_nil fun o ho h' _ => hi (h'.symm.trans (hall o ho).1), hm,
          List.nil_append]

theorem expireOperation_eq_some {j : Nat} {log : Log} {o : Operation}
    (h : expireOperation c j log = some o) :
    o.txIndex = 0 ∧ o.opIndex = j ∧ o.payload.rank = 0 := by
  unfold expireOperation at h
  split at h
  · cases h
  · split_ifs at h
    cases h
    exact ⟨rfl, rfl, rfl⟩

/-- Every `Expire` operation is built from the log at its `OpIndex`. -/
theorem mem_expireOperations {logs : List Log} {o : Operation}
    (h : o ∈ expireOperations c logs) :
    ∃ log, logs[o.opIndex]? = some log ∧ expireOperation c o.opIndex log = some o := by
  obtain ⟨⟨j, log⟩, hmem, hj⟩ := List.mem_filterMap.mp h
  obtain ⟨-, rfl, -⟩ := expireOperation_eq_some hj
  exact ⟨log, List.mem_enum_iff_getElem?.mp hmem, hj⟩

theorem expireOperations_spec (logs : List Log) :
    (∀ o ∈ expireOperations c logs, o.txIndex = 0 ∧ o.payload.rank = 0) ∧
      (expireOperations c logs).Pairwise OpBefore := by
  refine ⟨fun o ho => ?_, ?_⟩
  · obtain ⟨⟨j, log⟩, -, hj⟩ := List.mem_filterMap.mp ho
    obtain ⟨h1, -, h3⟩ := expireOperation_eq_some hj
    exact ⟨h1, h3⟩
  · have hlt : logs.enum.Pairwise fun a b => a.1 < b.1 := by
      have := List.pairwise_lt_range logs.length
      rwa [← List.enum_map_fst, List.pairwise_map] at this
    refine hlt.filterMap _ fun ⟨j, log⟩ ⟨j', log'⟩ hjj o ho o' ho' => ?_
    obtain ⟨h1, h2, h3⟩ := expireOperation_eq_some ho
    obtain ⟨h1', h2', h3'⟩ := expireOperation_eq_some ho'
    exact .inr ⟨h1.trans h1'.symm, .inr ⟨h3.trans h3'.symm, by rw [h2, h2']; exact hjj⟩⟩

end Loops

/-! ### The whole block -/

section Block

variable {c : Constants} {decoder : Decoder}

/-- **The order of a block's operations**: they strictly increase by transaction, kind and
position, each kind but `Expire` of each transaction is numbered 0, 1, 2, …, and each
`Expire` is built from the log of the first receipt at the position its `OpIndex` names. -/
theorem blockToEvents_order {rawBlock : Block} {rawReceipts : List Receipt}
    {out : Events.Block} (h : blockToEvents c decoder rawBlock rawReceipts = ok out) :
    out.operations.Pairwise OpBefore ∧
      (∀ i r, r ≠ 0 → ∃ m, kindPositions out.operations i r = List.range m) ∧
      ∀ o ∈ out.operations, o.payload.rank = 0 →
        ∃ receipt ∈ rawReceipts.head?, ∃ log, receipt.logs[o.opIndex]? = some log ∧
          expireOperation c o.opIndex log = some o := by
  cases rawReceipts with
  | nil =>
    cases h
    exact ⟨.nil, fun _ _ _ => ⟨0, rfl⟩, fun _ ho => absurd ho (List.not_mem_nil _)⟩
  | cons firstReceipt rest =>
    obtain ⟨ops, hops, h⟩ := bind_eq_ok.mp h
    cases h
    obtain ⟨hexp, hpw⟩ := expireOperations_spec (c := c) firstReceipt.logs
    obtain ⟨hall, hpw', hpos⟩ := transactionsOperations_spec hops
    refine ⟨List.pairwise_append.mpr ⟨hpw, hpw', fun a ha b hb => ?_⟩, fun i r hr => ?_,
      fun o ho h0 => ?_⟩
    · have := (hall b hb).2
      rcases Nat.eq_zero_or_pos b.txIndex with hb0 | hb0
      · exact .inr ⟨(hexp a ha).1.trans hb0.symm, .inl (by rw [(hexp a ha).2]; omega)⟩
      · exact .inl (by rw [(hexp a ha).1]; exact hb0)
    · obtain ⟨m, hm⟩ := hpos i r
      refine ⟨m, ?_⟩
      rw [kindPositions_append,
        kindPositions_eq_nil fun o ho _ h' => hr (h'.symm.trans (hexp o ho).2), hm, List.nil_append]
    · rcases List.mem_append.mp ho with ho | ho
      · exact ⟨firstReceipt, rfl, mem_expireOperations ho⟩
      · exact absurd h0 (by have := (hall o ho).2; omega)

end Block

/-- The processor transaction of one `Create` and one `Update`, with its one creation log, is
ordered. -/
theorem blockToEvents_order_create_and_update :
    ∃ out, blockToEvents ⟨⟨List.replicate 20 1, rfl⟩, ⟨List.replicate 32 1, rfl⟩,
          ⟨List.replicate 32 2, rfl⟩⟩
        ⟨fun _ => .ok ⟨[⟨1, "", [], [], []⟩], [⟨Bytes.zero 32, 1, "", [], [], []⟩], [], [],
          []⟩, fun _ => .ok (Bytes.zero 20)⟩
        ⟨0, 0, Bytes.zero 32, [⟨some ⟨List.replicate 20 1, rfl⟩, [], []⟩]⟩
        [⟨1, [⟨⟨List.replicate 20 1, rfl⟩, [⟨List.replicate 32 1, rfl⟩, Bytes.zero 32], [],
          0⟩]⟩] = ok out ∧
      out.operations.Pairwise OpBefore ∧
        (∀ i r, r ≠ 0 → ∃ m, kindPositions out.operations i r = List.range m) ∧
        ∀ o ∈ out.operations, o.payload.rank = 0 →
          ∃ receipt ∈ ([⟨1, [⟨⟨List.replicate 20 1, rfl⟩, [⟨List.replicate 32 1, rfl⟩,
            Bytes.zero 32], [], 0⟩]⟩] : List Receipt).head?, ∃ log, receipt.logs[o.opIndex]? = some log ∧
            expireOperation ⟨⟨List.replicate 20 1, rfl⟩, ⟨List.replicate 32 1, rfl⟩,
              ⟨List.replicate 32 2, rfl⟩⟩ o.opIndex log = some o :=
  Exists.imp (fun _ h => ⟨h, blockToEvents_order h⟩) ⟨_, rfl⟩

/-- **A `Create` and an `Update` share their indices.** The same transaction's operations are
both stamped `(0, 0)`. -/
theorem create_and_update_share_indices :
    ∃ out, blockToEvents ⟨⟨List.replicate 20 1, rfl⟩, ⟨List.replicate 32 1, rfl⟩,
          ⟨List.replicate 32 2, rfl⟩⟩
        ⟨fun _ => .ok ⟨[⟨1, "", [], [], []⟩], [⟨Bytes.zero 32, 1, "", [], [], []⟩], [], [],
          []⟩, fun _ => .ok (Bytes.zero 20)⟩
        ⟨0, 0, Bytes.zero 32, [⟨some ⟨List.replicate 20 1, rfl⟩, [], []⟩]⟩
        [⟨1, [⟨⟨List.replicate 20 1, rfl⟩, [⟨List.replicate 32 1, rfl⟩, Bytes.zero 32], [],
          0⟩]⟩] = ok out ∧
      out.operations.map (fun o => (o.txIndex, o.opIndex)) = [(0, 0), (0, 0)] :=
  ⟨_, rfl, rfl⟩

end Arkiv
