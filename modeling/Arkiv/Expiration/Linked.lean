import Arkiv.Expiration.Index

/-!
# The expiration index as linked lists in storage words

Package `entityexpiration` keeps its buckets in fixed-size words, as the spec lays out (§3,
§4.2): a head word per height (`HeightBucketHead`), pointing at the first key of that height's
list, and a node per key (`ExpirationNode`), pointing at its neighbours; the zero key is the
null pointer. `Add` links a key in front of its bucket, `Remove` splices it out through its own
node without a scan, and a sweep follows the `next` pointers from the head. The package is not
part of the source; these are modelled from the spec (`Arkiv.LinkedIndex`).

The rest of the development works with the buckets as lists (`Arkiv.ExpirationIndex`). The two
levels are tied by the layout of an index in words (`Arkiv.ExpirationIndex.toLinked`): each
bucket's head, and each key's neighbours in its bucket. The linked operations are that layout's
image of the list operations:

* `Add` on the layout is the layout of `add` (`Arkiv.ExpirationIndex.toLinked_add`), given a
  key that is not the null key;
* `Remove` on the layout is the layout of `remove` (`Arkiv.ExpirationIndex.toLinked_remove`);
* the pointer walk from a head reaches the null key after exactly the bucket's keys, and lists
  them (`Arkiv.ExpirationIndex.walk_toLinked`).

The layout is itself a family of doubly-linked lists: every non-null pointer names a key of the
same bucket that points back (`Arkiv.ExpirationIndex.toLinked_next`,
`Arkiv.ExpirationIndex.toLinked_prev`). So every run of the store over linked words sweeps
exactly the buckets the list model sweeps.
The proofs go through the neighbours of a key in a list (`Arkiv.nextIn`, `Arkiv.prevIn`) and
how they change when a key is put in front or filtered out.
-/

namespace Arkiv

/-! ### Neighbours in a list -/

section Neighbours

/-- The key after `k` in `ks`, or the null key when `k` is last or absent. -/
def nextIn : List Hash → Hash → Hash
  | [], _ => Bytes.zero 32
  | a :: ks, k => if a = k then ks.headD (Bytes.zero 32) else nextIn ks k

/-- The key before `k` in `ks`: the key after it in the reversed list. -/
def prevIn (ks : List Hash) (k : Hash) : Hash := nextIn ks.reverse k

variable {ks pre post : List Hash} {a k x : Hash}

@[simp] theorem nextIn_nil : nextIn [] k = Bytes.zero 32 := rfl

theorem nextIn_cons : nextIn (a :: ks) k = if a = k then ks.headD (Bytes.zero 32) else nextIn ks k :=
  rfl

/-- The key after another is in the list, or is the null key. -/
theorem nextIn_mem : nextIn ks k ∈ ks ∨ nextIn ks k = Bytes.zero 32 := by
  induction ks with
  | nil => exact .inr rfl
  | cons a ks ih =>
    rw [nextIn_cons]
    split_ifs
    · cases ks <;> simp
    · exact ih.imp (List.mem_cons_of_mem a) id

theorem nextIn_ne (hx : x ∉ ks) (hx0 : x ≠ Bytes.zero 32) : nextIn ks k ≠ x := fun h =>
  nextIn_mem.elim (fun hm => hx (h ▸ hm)) fun h0 => hx0 (h ▸ h0)

/-- A head that is not the null key is in the list. -/
theorem headD_mem (h : ks.headD (Bytes.zero 32) ≠ Bytes.zero 32) : ks.headD (Bytes.zero 32) ∈ ks := by
  cases ks with
  | nil => exact absurd rfl h
  | cons a ks => exact List.mem_cons_self a ks

/-- The key after `k` is the head of what follows its one occurrence. -/
theorem nextIn_append (hk : k ∉ pre) :
    nextIn (pre ++ k :: post) k = post.headD (Bytes.zero 32) := by
  induction pre with
  | nil => simp [nextIn_cons]
  | cons a pre ih =>
    rw [List.mem_cons, not_or] at hk
    rw [List.cons_append, nextIn_cons, if_neg (Ne.symm hk.1), ih hk.2]

/-- The key after `k` is `x` exactly when `k, x` stand next to each other. -/
theorem nextIn_eq_iff (hks : ks.Nodup) (hx : x ≠ Bytes.zero 32) :
    nextIn ks k = x ↔ [k, x] <:+: ks := by
  induction ks with
  | nil => simp [Ne.symm hx]
  | cons a ks ih =>
    obtain ⟨ha, hks⟩ := List.nodup_cons.mp hks
    rw [nextIn_cons, List.infix_cons_iff]
    by_cases hak : a = k
    · subst hak
      have hin : ¬[a, x] <:+: ks := fun h => ha (h.subset (List.mem_cons_self a [x]))
      cases ks <;> simp [hin, Ne.symm hx, eq_comm]
    · simp [hak, Ne.symm hak, ih hks]

/-- `x` follows `k` exactly when `k` precedes `x`. -/
theorem nextIn_eq_iff_prevIn (hks : ks.Nodup) (hx : x ≠ Bytes.zero 32) (hk : k ≠ Bytes.zero 32) :
    nextIn ks k = x ↔ prevIn ks x = k := by
  rw [prevIn, nextIn_eq_iff hks hx, nextIn_eq_iff (List.nodup_reverse.mpr hks) hk,
    ← List.reverse_infix]
  rfl

/-- The key before `x` in a list where `x` stands once: the last key of what precedes it. -/
theorem prevIn_append (hx : x ∉ post) :
    prevIn (pre ++ x :: post) x = pre.reverse.headD (Bytes.zero 32) := by
  rw [prevIn, List.reverse_append, List.reverse_cons, List.append_assoc, List.singleton_append,
    nextIn_append (by simpa using hx)]

/-- Put in front, `k` has nothing before it and the old head after it. -/
theorem prevIn_cons_self (hk : k ∉ ks) : prevIn (k :: ks) k = Bytes.zero 32 := by
  simpa using (prevIn_append hk : prevIn ([] ++ k :: ks) k = _)

/-- Put in front of a list, `k` becomes what precedes the old head, and only that. -/
theorem prevIn_cons (hks : (k :: ks).Nodup) (hx : x ∈ ks) :
    prevIn (k :: ks) x = if ks.headD (Bytes.zero 32) = x then k else prevIn ks x := by
  obtain ⟨pre, post, rfl⟩ := List.append_of_mem hx
  obtain ⟨hk, hks⟩ := List.nodup_cons.mp hks
  have hpost : x ∉ post := (List.nodup_append.mp hks).2.1 |> List.nodup_cons.mp |>.1
  have hpre : x ∉ pre := fun h => (List.nodup_append.mp hks).2.2 h (List.mem_cons_self x post)
  rw [← List.cons_append, prevIn_append hpost, prevIn_append hpost]
  cases pre with
  | nil => simp
  | cons c pre =>
    have hcx : c ≠ x := fun h => hpre (h ▸ List.mem_cons_self c pre)
    simp [hcx]

/-- The first key has the null key before it, and no other key does. -/
theorem prevIn_eq_zero_iff (hks : ks.Nodup) (h0 : Bytes.zero 32 ∉ ks) (hk : k ∈ ks) :
    prevIn ks k = Bytes.zero 32 ↔ ks.headD (Bytes.zero 32) = k := by
  obtain ⟨pre, post, rfl⟩ := List.append_of_mem hk
  have hpost : k ∉ post := (List.nodup_append.mp hks).2.1 |> List.nodup_cons.mp |>.1
  have hpre : k ∉ pre := fun h => (List.nodup_append.mp hks).2.2 h (List.mem_cons_self k post)
  rw [prevIn, List.reverse_append, List.reverse_cons, List.append_assoc, List.singleton_append,
    nextIn_append (by simpa using hpost)]
  cases pre with
  | nil => simp
  | cons b pre =>
    have hb : b ≠ Bytes.zero 32 := fun hb => h0 (by simp [hb])
    have hbk : b ≠ k := fun hbk => hpre (by simp [hbk])
    have hlast : (b :: pre).reverse.headD (Bytes.zero 32) ∈ b :: pre := by
      cases h : (b :: pre).reverse with
      | nil => simp at h
      | cons c cs => rw [← List.mem_reverse, h]; exact List.mem_cons_self c cs
    simp only [List.cons_append, List.headD_cons, hbk, iff_false]
    exact fun h => h0 (List.mem_append_left _ (h ▸ hlast))

/-- The key before `k` is in the list, or is the null key. -/
theorem prevIn_mem : prevIn ks k ∈ ks ∨ prevIn ks k = Bytes.zero 32 :=
  nextIn_mem.imp List.mem_reverse.mp id

/-- The two neighbours of a key of a list of distinct keys differ, unless both are null. -/
theorem prevIn_ne_nextIn (hks : ks.Nodup) (h0 : Bytes.zero 32 ∉ ks) (hk : k ∈ ks) :
    prevIn ks k ≠ nextIn ks k ∨ nextIn ks k = Bytes.zero 32 := by
  obtain ⟨pre, post, rfl⟩ := List.append_of_mem hk
  have hpost : k ∉ post := (List.nodup_append.mp hks).2.1 |> List.nodup_cons.mp |>.1
  have hpre : k ∉ pre := fun h => (List.nodup_append.mp hks).2.2 h (List.mem_cons_self k post)
  rw [prevIn_append hpost, nextIn_append hpre]
  cases post with
  | nil => exact .inr rfl
  | cons c cs =>
    refine .inl fun h => ?_
    rw [List.headD_cons] at h
    have hne : pre.reverse.headD (Bytes.zero 32) ≠ Bytes.zero 32 := by
      rw [h]
      exact fun hc => h0 (by simp [hc])
    have hc : c ∈ pre := List.mem_reverse.mp (h ▸ headD_mem hne)
    exact (List.nodup_append.mp hks).2.2 hc (by simp)

/-- The head once `k` is filtered out: what followed `k` if `k` was first. -/
theorem headD_filter (hks : ks.Nodup) :
    (ks.filter (· != k)).headD (Bytes.zero 32) =
      if ks.headD (Bytes.zero 32) = k then nextIn ks k else ks.headD (Bytes.zero 32) := by
  cases ks with
  | nil => simp
  | cons a ks =>
    by_cases hak : a = k
    · subst hak
      have hf : ks.filter (· != a) = ks := List.filter_eq_self.mpr fun y hy => by
        simpa using ne_of_mem_of_not_mem hy (List.nodup_cons.mp hks).1
      simp [hf, nextIn_cons]
    · simp [hak, nextIn_cons]

/-- **The key after `x` once `k` is filtered out**: the key after `k` if `k` followed `x`. -/
theorem nextIn_filter (hks : ks.Nodup) (hx : x ≠ k) (hk0 : k ≠ Bytes.zero 32) :
    nextIn (ks.filter (· != k)) x = if nextIn ks x = k then nextIn ks k else nextIn ks x := by
  induction ks with
  | nil => simp
  | cons a ks ih =>
    obtain ⟨ha, hks⟩ := List.nodup_cons.mp hks
    by_cases hak : a = k
    · subst hak
      have hf : ks.filter (· != a) = ks := List.filter_eq_self.mpr fun y hy => by
        simpa using ne_of_mem_of_not_mem hy ha
      rw [List.filter_cons_of_neg (by simp), hf, nextIn_cons, if_neg (Ne.symm hx),
        if_neg (nextIn_ne ha hk0)]
    · rw [List.filter_cons_of_pos (by simpa using hak)]
      by_cases hax : a = x
      · subst hax
        simp only [nextIn_cons, if_pos rfl, if_neg hak]
        exact headD_filter hks
      · simp only [nextIn_cons, if_neg hax, if_neg hak]
        exact ih hks

/-- The key before `x` once `k` is filtered out: the key before `k` if `k` preceded `x`. -/
theorem prevIn_filter (hks : ks.Nodup) (hx : x ≠ k) (hk0 : k ≠ Bytes.zero 32) :
    prevIn (ks.filter (· != k)) x = if prevIn ks x = k then prevIn ks k else prevIn ks x := by
  rw [prevIn, ← List.filter_reverse]
  exact nextIn_filter (List.nodup_reverse.mpr hks) hx hk0

end Neighbours

/-! ### The words of the index -/

/-- Modelled from the spec: an `ExpirationNode`, the neighbours of a key in its bucket. -/
structure ExpirationNode where
  prevKey : Hash
  nextKey : Hash
deriving DecidableEq, Repr

/-- The node of a key in no bucket: both pointers null. -/
def ExpirationNode.cleared : ExpirationNode := ⟨Bytes.zero 32, Bytes.zero 32⟩

/-- Modelled from the spec: the words of package `entityexpiration`, the head of each height's
list (`HeightBucketHead`) and the node of each key, in slots of their own. -/
@[ext] structure LinkedIndex where
  head : UInt64 → Hash
  node : Hash → ExpirationNode

namespace LinkedIndex

variable (L : LinkedIndex) (height : UInt64) (key : Hash)

/-- No bucket: every word zero. -/
def empty : LinkedIndex := ⟨fun _ => Bytes.zero 32, fun _ => .cleared⟩

/-- Modelled from the spec: `Add(height, key)`, linking `key` in front of bucket `height`. -/
def add : LinkedIndex :=
  let oldHead := L.head height
  if oldHead = Bytes.zero 32 then
    ⟨Function.update L.head height key,
      Function.update L.node key ⟨Bytes.zero 32, Bytes.zero 32⟩⟩
  else
    let node := Function.update L.node key ⟨Bytes.zero 32, oldHead⟩
    ⟨Function.update L.head height key,
      Function.update node oldHead ⟨key, (node oldHead).nextKey⟩⟩

/-- Modelled from the spec: `Remove(height, key)`, splicing `key` out through its own node: the
node before it, or the head, skips it; the node after it points back past it; its node is
cleared. No other word is read. -/
def remove : LinkedIndex :=
  let n := L.node key
  let L₁ : LinkedIndex :=
    if n.prevKey ≠ Bytes.zero 32 then
      ⟨L.head, Function.update L.node n.prevKey ⟨(L.node n.prevKey).prevKey, n.nextKey⟩⟩
    else ⟨Function.update L.head height n.nextKey, L.node⟩
  let L₂ : LinkedIndex :=
    if n.nextKey ≠ Bytes.zero 32 then
      ⟨L₁.head, Function.update L₁.node n.nextKey ⟨n.prevKey, (L₁.node n.nextKey).nextKey⟩⟩
    else L₁
  ⟨L₂.head, Function.update L₂.node key .cleared⟩

/-- Modelled from the spec: the sweep of a bucket, collected (`slices.Collect`): the keys met
following `next` from `cur` until the null key. The walk is bounded by `fuel`; it has reached
the null key exactly when it stops short of the bound. -/
def walk : Nat → Hash → List Hash
  | 0, _ => []
  | fuel + 1, cur => if cur = Bytes.zero 32 then [] else cur :: walk fuel (L.node cur).nextKey

variable {L height key}

theorem add_head : (L.add height key).head = Function.update L.head height key := by
  dsimp only [add]
  split_ifs <;> rfl

/-- `Add` rewrites the node of `key` and, if the bucket was not empty, the back pointer of the
old head; no other node. -/
theorem add_node (hk : key ≠ L.head height) (x : Hash) :
    (L.add height key).node x =
      if x = key then ⟨Bytes.zero 32, L.head height⟩
      else if x = L.head height ∧ L.head height ≠ Bytes.zero 32 then
        ⟨key, (L.node x).nextKey⟩
      else L.node x := by
  dsimp only [add]
  by_cases h0 : L.head height = Bytes.zero 32 <;> by_cases hx : x = key <;>
    by_cases hx' : x = L.head height <;> simp_all [Function.update_apply]

theorem remove_head : (L.remove height key).head =
    if (L.node key).prevKey ≠ Bytes.zero 32 then L.head
    else Function.update L.head height (L.node key).nextKey := by
  dsimp only [remove]
  split_ifs <;> rfl

/-- `Remove` clears the node of `key`, points the node after it back at the one before, and the
node before it on to the one after; no other node. -/
theorem remove_node
    (hpn : (L.node key).prevKey ≠ (L.node key).nextKey ∨ (L.node key).nextKey = Bytes.zero 32)
    (x : Hash) :
    (L.remove height key).node x =
      if x = key then .cleared
      else if x = (L.node key).nextKey ∧ (L.node key).nextKey ≠ Bytes.zero 32 then
        ⟨(L.node key).prevKey, (L.node x).nextKey⟩
      else if x = (L.node key).prevKey ∧ (L.node key).prevKey ≠ Bytes.zero 32 then
        ⟨(L.node x).prevKey, (L.node key).nextKey⟩
      else L.node x := by
  dsimp only [remove]
  by_cases hp : (L.node key).prevKey = Bytes.zero 32 <;>
    by_cases hn : (L.node key).nextKey = Bytes.zero 32 <;> by_cases hx : x = key <;>
    by_cases hxn : x = (L.node key).nextKey <;> by_cases hxp : x = (L.node key).prevKey <;>
    simp_all [Function.update_apply]

/-- **The walk along a list laid out in words**: from the head of a list of distinct keys,
none null, whose nodes point on to their successors, the walk lists the keys, up to its bound,
and stops at the null key when the bound is larger than the list. -/
theorem walk_eq_take : ∀ {ks : List Hash}, ks.Nodup → Bytes.zero 32 ∉ ks →
    (∀ x ∈ ks, (L.node x).nextKey = nextIn ks x) →
    ∀ fuel, L.walk fuel (ks.headD (Bytes.zero 32)) = ks.take fuel
  | [], _, _, _, 0 => rfl
  | [], _, _, _, _ + 1 => by simp [walk]
  | _ :: _, _, _, _, 0 => rfl
  | a :: ks, hnd, h0, hnext, fuel + 1 => by
    obtain ⟨ha, hnd⟩ := List.nodup_cons.mp hnd
    have ha0 : a ≠ Bytes.zero 32 := fun h => h0 (h ▸ List.mem_cons_self a ks)
    rw [List.headD_cons, walk, if_neg ha0, hnext a (List.mem_cons_self a ks), nextIn_cons,
      if_pos rfl, List.take_succ_cons, walk_eq_take hnd (fun h => h0 (List.mem_cons_of_mem a h))
        fun x hx => by rw [hnext x (List.mem_cons_of_mem a hx), nextIn_cons,
          if_neg fun (h : a = x) => ha (h ▸ hx)]]

end LinkedIndex

/-! ### The layout of an index in words -/

namespace ExpirationIndex

variable (ix : ExpirationIndex) {block h : UInt64} {key k x : Hash}

/-- The height whose bucket holds `key`, if any. -/
def heightOf (key : Hash) : Option UInt64 := (ix.entries.find? (·.2 = key)).map Prod.fst

/-- **The layout of an index in words**: the head of each bucket, and the neighbours of each
key in its bucket; a key in no bucket has a cleared node. -/
def toLinked : LinkedIndex where
  head h := (ix.bucket h).headD (Bytes.zero 32)
  node k := match ix.heightOf k with
    | none => .cleared
    | some h => ⟨prevIn (ix.bucket h) k, nextIn (ix.bucket h) k⟩

variable {ix}

theorem heightOf_eq_some : ix.heightOf k = some h ↔ k ∈ ix.bucket h := by
  rw [mem_bucket]
  obtain ⟨entries, hnd⟩ := ix
  simp only [heightOf]
  induction entries with
  | nil => simp
  | cons e es ih =>
    rw [List.map_cons, List.nodup_cons] at hnd
    rw [List.find?_cons]
    by_cases he : e.2 = k
    · subst he
      have : (h, e.2) ∉ es := fun hm => hnd.1 (List.mem_map.mpr ⟨_, hm, rfl⟩)
      simp [this, Prod.ext_iff, eq_comm]
    · have : (h, k) ≠ e := fun hm => he (hm ▸ rfl)
      simp [he, ih hnd.2, this, Ne.symm this]

theorem heightOf_eq_none : ix.heightOf k = none ↔ k ∉ ix.keys := by
  simp [Option.eq_none_iff_forall_not_mem, Option.mem_def, heightOf_eq_some, mem_keys]

@[simp] theorem toLinked_head : ix.toLinked.head h = (ix.bucket h).headD (Bytes.zero 32) := rfl

theorem toLinked_node_of_mem (hk : k ∈ ix.bucket h) :
    ix.toLinked.node k = ⟨prevIn (ix.bucket h) k, nextIn (ix.bucket h) k⟩ := by
  simp [toLinked, heightOf_eq_some.mpr hk]

theorem toLinked_node_of_not_mem (hk : k ∉ ix.keys) : ix.toLinked.node k = .cleared := by
  simp [toLinked, heightOf_eq_none.mpr hk]

theorem ne_zero_of_mem (h0 : Bytes.zero 32 ∉ ix.keys) (hk : k ∈ ix.bucket h) : k ≠ Bytes.zero 32 :=
  fun hk0 => h0 (hk0 ▸ (mem_keys _).mpr ⟨h, hk⟩)

/-- **`Add` on the words is `add` on the buckets.** Linking a key that is in no bucket and is
not the null key in front of its bucket lays out the index with that key added. -/
theorem toLinked_add (hk : key ∉ ix.keys) (hk0 : key ≠ Bytes.zero 32)
    (h0 : Bytes.zero 32 ∉ ix.keys) : (ix.add block key hk).toLinked = ix.toLinked.add block key := by
  have hkb : ∀ h, key ∉ ix.bucket h := fun h hm => hk ((mem_keys _).mpr ⟨h, hm⟩)
  -- the old head is the null key or a member of the bucket, so not `key`
  have hhead : ∀ h x, x ∈ ix.bucket h → x = ix.toLinked.head block ∧
      ix.toLinked.head block ≠ Bytes.zero 32 → h = block := fun _ _ hx ⟨hxh, hh0⟩ =>
    ix.eq_of_mem_bucket hx (hxh ▸ headD_mem hh0)
  have hne : key ≠ ix.toLinked.head block := fun h =>
    hkb block (h ▸ headD_mem (h ▸ hk0 : ix.toLinked.head block ≠ Bytes.zero 32))
  ext1
  · funext h'
    rw [LinkedIndex.add_head]
    by_cases hb : block = h'
    · subst hb
      simp [toLinked, bucket_add]
    · simp [toLinked, bucket_add, hb, Function.update_noteq (Ne.symm hb)]
  · funext x
    rw [LinkedIndex.add_node hne]
    by_cases hx : x = key
    · subst hx
      rw [if_pos rfl, toLinked_node_of_mem (h := block) (by simp [bucket_add])]
      simp [bucket_add, prevIn_cons_self (hkb block), nextIn_cons, toLinked]
    rw [if_neg hx]
    cases hxh : ix.heightOf x with
    | none =>
      have hxk := heightOf_eq_none.mp hxh
      have hxk' : x ∉ (ix.add block key hk).keys := by
        simp only [keys, add, List.map_cons, List.mem_cons, not_or]
        exact ⟨hx, hxk⟩
      rw [toLinked_node_of_not_mem hxk', toLinked_node_of_not_mem hxk, if_neg fun ⟨h1, h2⟩ =>
        hxk ((mem_keys _).mpr ⟨block, h1 ▸ headD_mem h2⟩)]
    | some h =>
      have hxb := heightOf_eq_some.mp hxh
      have hxb' : x ∈ (ix.add block key hk).bucket h := by
        rw [bucket_add]
        split_ifs <;> simp [hxb]
      rw [toLinked_node_of_mem hxb', toLinked_node_of_mem hxb, bucket_add]
      by_cases hb : block = h
      · subst hb
        have hx0 : x ≠ Bytes.zero 32 := ne_zero_of_mem h0 hxb
        rw [if_pos rfl, prevIn_cons (List.nodup_cons.mpr ⟨hkb block, ix.nodup_bucket block⟩) hxb,
          nextIn_cons, if_neg (Ne.symm hx)]
        rw [toLinked_head]
        by_cases hxhd : (ix.bucket block).headD (Bytes.zero 32) = x
        · rw [hxhd]
          simp [hx0]
        · rw [if_neg hxhd, if_neg fun hh => hxhd hh.1.symm]
      · rw [if_neg hb, if_neg fun hh => hb (hhead h x hxb hh).symm]

theorem mem_keys_remove (hk : key ∈ ix.bucket block) :
    x ∈ (ix.remove block key).keys ↔ x ∈ ix.keys ∧ x ≠ key := by
  simp only [mem_keys, mem_bucket_remove, ne_eq, Prod.mk.injEq, not_and]
  constructor
  · rintro ⟨h, hx, hne⟩
    exact ⟨⟨h, hx⟩, fun hxk => hne (ix.eq_of_mem_bucket hx (hxk ▸ hk)) hxk⟩
  · rintro ⟨⟨h, hx⟩, hxk⟩
    exact ⟨h, hx, fun _ => hxk⟩

/-- **`Remove` on the words is `remove` on the buckets.** Splicing a key out of the bucket it
is in lays out the index with that key removed. -/
theorem toLinked_remove (hk : key ∈ ix.bucket block) (h0 : Bytes.zero 32 ∉ ix.keys) :
    (ix.remove block key).toLinked = ix.toLinked.remove block key := by
  have hnd := ix.nodup_bucket block
  have hk0 := ne_zero_of_mem h0 hk
  have hb0 : Bytes.zero 32 ∉ ix.bucket block := fun hm => h0 ((mem_keys _).mpr ⟨_, hm⟩)
  have hnode := toLinked_node_of_mem hk
  -- the neighbours of `key` are keys of its bucket or null, and differ unless both are null
  have hp : prevIn (ix.bucket block) key ∈ ix.bucket block ∨
      prevIn (ix.bucket block) key = Bytes.zero 32 := prevIn_mem
  have hn : nextIn (ix.bucket block) key ∈ ix.bucket block ∨
      nextIn (ix.bucket block) key = Bytes.zero 32 := nextIn_mem
  have hpn := prevIn_ne_nextIn hnd hb0 hk
  ext1
  · funext h'
    rw [LinkedIndex.remove_head, hnode]
    by_cases hb : h' = block
    · subst hb
      rw [toLinked_head, bucket_remove_self, headD_filter hnd]
      by_cases hfirst : (ix.bucket h').headD (Bytes.zero 32) = key
      · rw [if_pos hfirst, if_neg (not_not.mpr ((prevIn_eq_zero_iff hnd hb0 hk).mpr hfirst))]
        simp
      · rw [if_neg hfirst, if_pos (mt (prevIn_eq_zero_iff hnd hb0 hk).mp hfirst)]
        rfl
    · rw [toLinked_head, bucket_remove_of_ne _ hb]
      split_ifs <;> simp [Function.update_noteq hb]
  · funext x
    rw [LinkedIndex.remove_node (by rwa [hnode]), hnode]
    dsimp only
    by_cases hx : x = key
    · subst hx
      rw [if_pos rfl, toLinked_node_of_not_mem fun hm => ((mem_keys_remove hk).mp hm).2 rfl]
    rw [if_neg hx]
    cases hxh : ix.heightOf x with
    | none =>
      have hxk := heightOf_eq_none.mp hxh
      have hout : ∀ y ∈ ix.bucket block, x ≠ y := fun y hy hxy =>
        hxk ((mem_keys _).mpr ⟨block, hxy ▸ hy⟩)
      rw [toLinked_node_of_not_mem fun hm => hxk ((mem_keys_remove hk).mp hm).1,
        toLinked_node_of_not_mem hxk,
        if_neg fun ⟨h1, h2⟩ => hout _ (hn.resolve_right h2) h1,
        if_neg fun ⟨h1, h2⟩ => hout _ (hp.resolve_right h2) h1]
    | some h =>
      have hxb := heightOf_eq_some.mp hxh
      have hx0 := ne_zero_of_mem h0 hxb
      rw [toLinked_node_of_mem hxb, toLinked_node_of_mem (h := h) (ix.mem_bucket_remove.mpr
        ⟨hxb, fun he => hx (Prod.mk.inj he).2⟩)]
      by_cases hb : h = block
      · subst hb
        rw [bucket_remove_self, prevIn_filter hnd hx hk0, nextIn_filter hnd hx hk0]
        have hnx := nextIn_eq_iff_prevIn hnd hx0 hk0 (k := key)
        have hpx := nextIn_eq_iff_prevIn hnd hk0 hx0 (k := x)
        by_cases hxn : x = nextIn (ix.bucket h) key
        · have hc : x = nextIn (ix.bucket h) key ∧ nextIn (ix.bucket h) key ≠ Bytes.zero 32 :=
            ⟨hxn, hxn ▸ hx0⟩
          have hprev : prevIn (ix.bucket h) x = key := hnx.mp hxn.symm
          have hnext : nextIn (ix.bucket h) x ≠ key := fun he =>
            hpn.resolve_right hc.2 ((hpx.mp he).trans hxn)
          rw [if_pos hc, if_pos hprev, if_neg hnext]
        have hc : ¬(x = nextIn (ix.bucket h) key ∧ nextIn (ix.bucket h) key ≠ Bytes.zero 32) :=
          fun h => hxn h.1
        have hprev : prevIn (ix.bucket h) x ≠ key := fun he => hxn (hnx.mpr he).symm
        rw [if_neg hc, if_neg hprev]
        by_cases hxp : x = prevIn (ix.bucket h) key
        · have hc' : x = prevIn (ix.bucket h) key ∧ prevIn (ix.bucket h) key ≠ Bytes.zero 32 :=
            ⟨hxp, hxp ▸ hx0⟩
          rw [if_pos hc', if_pos (hpx.mpr hxp.symm)]
        · have hc' : ¬(x = prevIn (ix.bucket h) key ∧ prevIn (ix.bucket h) key ≠ Bytes.zero 32) :=
            fun h => hxp h.1
          rw [if_neg hc', if_neg fun he => hxp (hpx.mp he).symm]
      · rw [bucket_remove_of_ne _ hb,
          if_neg fun ⟨h1, h2⟩ => hb (ix.eq_of_mem_bucket hxb (h1 ▸ hn.resolve_right h2)),
          if_neg fun ⟨h1, h2⟩ => hb (ix.eq_of_mem_bucket hxb (h1 ▸ hp.resolve_right h2))]

/-! ### The layout is a family of doubly-linked lists -/

/-- A non-null head is a key of its bucket. -/
theorem toLinked_head_mem (hx : ix.toLinked.head h ≠ Bytes.zero 32) :
    ix.toLinked.head h ∈ ix.bucket h :=
  headD_mem hx

/-- The key after a key of a bucket is the null key, or a key of the same bucket that has it
before it. -/
theorem toLinked_next (h0 : Bytes.zero 32 ∉ ix.keys) (hk : k ∈ ix.bucket h)
    (hx : (ix.toLinked.node k).nextKey ≠ Bytes.zero 32) :
    (ix.toLinked.node k).nextKey ∈ ix.bucket h ∧
      (ix.toLinked.node (ix.toLinked.node k).nextKey).prevKey = k := by
  rw [toLinked_node_of_mem hk] at hx ⊢
  have hm : nextIn (ix.bucket h) k ∈ ix.bucket h := nextIn_mem.resolve_right hx
  rw [toLinked_node_of_mem hm]
  exact ⟨hm, (nextIn_eq_iff_prevIn (ix.nodup_bucket h) hx (ne_zero_of_mem h0 hk)).mp rfl⟩

/-- The key before a key of a bucket is the null key, or a key of the same bucket that has it
after it. -/
theorem toLinked_prev (h0 : Bytes.zero 32 ∉ ix.keys) (hk : k ∈ ix.bucket h)
    (hx : (ix.toLinked.node k).prevKey ≠ Bytes.zero 32) :
    (ix.toLinked.node k).prevKey ∈ ix.bucket h ∧
      (ix.toLinked.node (ix.toLinked.node k).prevKey).nextKey = k := by
  rw [toLinked_node_of_mem hk] at hx ⊢
  have hm : prevIn (ix.bucket h) k ∈ ix.bucket h :=
    List.mem_reverse.mp (nextIn_mem.resolve_right hx)
  rw [toLinked_node_of_mem hm]
  exact ⟨hm, (nextIn_eq_iff_prevIn (ix.nodup_bucket h) (ne_zero_of_mem h0 hk) hx).mpr rfl⟩

/-- A key of a bucket has the null key before it exactly when it heads the bucket. -/
theorem toLinked_prev_eq_zero_iff (h0 : Bytes.zero 32 ∉ ix.keys) (hk : k ∈ ix.bucket h) :
    (ix.toLinked.node k).prevKey = Bytes.zero 32 ↔ ix.toLinked.head h = k := by
  rw [toLinked_node_of_mem hk, toLinked_head]
  exact prevIn_eq_zero_iff (ix.nodup_bucket h) (fun hm => h0 ((mem_keys _).mpr ⟨h, hm⟩)) hk

/-- The empty index is laid out as words that are all zero. -/
theorem toLinked_empty : empty.toLinked = LinkedIndex.empty := by
  ext1
  · rfl
  · funext k
    exact toLinked_node_of_not_mem (List.not_mem_nil k)

/-- **A sweep of the words is the bucket.** In the layout of an index whose keys are not the null
key, the walk from the head of bucket `h` lists the bucket, up to the bound; with a bound
larger than the bucket it reaches the null key after exactly the bucket's keys. -/
theorem walk_toLinked (h0 : Bytes.zero 32 ∉ ix.keys) (h : UInt64) (fuel : Nat) :
    ix.toLinked.walk fuel (ix.toLinked.head h) = (ix.bucket h).take fuel :=
  LinkedIndex.walk_eq_take (ix.nodup_bucket h) (fun hm => h0 ((mem_keys _).mpr ⟨h, hm⟩))
    (fun x hx => by rw [toLinked_node_of_mem hx]) fuel

/-- Removing the keys of a collected sweep one by one, on the words, lays out the index with
them removed: the order the housekeeping loop follows, after it has collected the sweep. -/
theorem foldl_remove_toLinked : ∀ {ks : List Hash} {ix : ExpirationIndex}, ks.Nodup →
    (∀ k ∈ ks, k ∈ ix.bucket block) → Bytes.zero 32 ∉ ix.keys →
    ks.foldl (fun L k => L.remove block k) ix.toLinked =
      (ks.foldl (fun ix k => ix.remove block k) ix).toLinked
  | [], _, _, _, _ => rfl
  | k :: ks, ix, hnd, hks, h0 => by
    obtain ⟨hk, hnd⟩ := List.nodup_cons.mp hnd
    have hk' := hks k (List.mem_cons_self k ks)
    rw [List.foldl_cons, List.foldl_cons, ← toLinked_remove hk' h0]
    refine foldl_remove_toLinked hnd (fun x hx => ?_) fun hm => h0 ((mem_keys_remove hk').mp hm).1
    exact ix.mem_bucket_remove.mpr ⟨hks x (List.mem_cons_of_mem k hx),
      fun he => hk ((Prod.mk.inj he).2 ▸ hx)⟩

end ExpirationIndex

end Arkiv
