import StatsHouse.Lib.SearchTree
import StatsHouse.Record

/-! # The tree of open records

`ngx_statshouse_aggregate_insert_value` and `ngx_statshouse_aggregate_lookup` on
a tree of block addresses, whose keys lie in the records at these addresses.
Insertion orders by hash and size and goes right on a tie; the search goes on by
type, towards the left for a larger type. The two agree on trees whose in-order
sequence is ordered by `Before`: ties by decreasing type.
-/

namespace StatsHouse

open SearchTree (search insertBy Monotone)

variable {V : Type}

/-- `ngx_statshouse_aggregate_insert_value`: the node is linked where the descent
ends. -/
def aggregateInsertValue (mem : Nat → AStat V) (node : Nat) : SearchTree Nat → SearchTree Nat
  | .leaf => .node true .leaf node .leaf
  | .node red left temp right =>
    if (mem node).key < (mem temp).key then
      .node red (aggregateInsertValue mem node left) temp right
    else if (mem node).key > (mem temp).key then
      .node red left temp (aggregateInsertValue mem node right)
    else if (mem node).size < (mem temp).size then
      .node red (aggregateInsertValue mem node left) temp right
    else
      -- a tie in hash and size goes right, whatever the types are
      .node red left temp (aggregateInsertValue mem node right)

/-- `ngx_statshouse_aggregate_lookup`. -/
def aggregateLookup (mem : Nat → AStat V) (hash size : Nat) (type : MetricType) :
    SearchTree Nat → Option Nat
  | .leaf => none
  | .node _ left node right =>
    if hash < (mem node).key then
      aggregateLookup mem hash size type left
    else if hash > (mem node).key then
      aggregateLookup mem hash size type right
    else if size < (mem node).size then
      aggregateLookup mem hash size type left
    else if size > (mem node).size then
      aggregateLookup mem hash size type right
    else if (mem node).stat.type = type then
      some node
    else if (mem node).stat.type.num < type.num then
      -- a larger type is looked for on the left
      aggregateLookup mem hash size type left
    else
      aggregateLookup mem hash size type right

/-- `ngx_rbtree_insert` and `ngx_rbtree_delete`. They are not part of the
repository; the code relies on the insertion rebalancing the tree without
changing its in-order sequence, and on the deletion taking one node out of it. -/
structure Rbtree where
  balance : SearchTree Nat → SearchTree Nat
  delete : SearchTree Nat → Nat → SearchTree Nat
  toList_balance : ∀ t, (balance t).toList = t.toList
  toList_delete : ∀ t p, p ∈ t.toList → (delete t p).toList = t.toList.erase p

/-- A tree that is not rebalanced beyond the colour of its root, as a red-black
tree of two nodes is not. -/
def Rbtree.plain : Rbtree where
  balance := SearchTree.blacken
  delete := fun t p => SearchTree.remove p t
  toList_balance := SearchTree.toList_blacken
  toList_delete := fun t p _ => SearchTree.toList_remove p t

/-- `ngx_rbtree_insert` of a node with the insert function of the aggregator. -/
def Rbtree.insert (rb : Rbtree) (mem : Nat → AStat V) (node : Nat) (t : SearchTree Nat) :
    SearchTree Nat :=
  rb.balance (aggregateInsertValue mem node t)

/-! ## As a search tree -/

/-- The tests of the lookup at one node. -/
def lookupCmp (mem : Nat → AStat V) (hash size : Nat) (type : MetricType) (node : Nat) :
    Ordering :=
  if hash < (mem node).key then .lt
  else if hash > (mem node).key then .gt
  else if size < (mem node).size then .lt
  else if size > (mem node).size then .gt
  else if (mem node).stat.type = type then .eq
  else if (mem node).stat.type.num < type.num then .lt
  else .gt

theorem aggregateLookup_eq_search (mem : Nat → AStat V) (hash size : Nat) (type : MetricType)
    (t : SearchTree Nat) :
    aggregateLookup mem hash size type t = t.search (lookupCmp mem hash size type) := by
  induction t with
  | leaf => rfl
  | node red l p r ihl ihr =>
      simp only [aggregateLookup, search, lookupCmp, ihl, ihr]
      split_ifs <;> rfl

/-- The insertion goes left below a larger hash, or a larger size at one hash. -/
def goesLeft (mem : Nat → AStat V) (node temp : Nat) : Bool :=
  (mem node).key < (mem temp).key ||
    (mem node).key == (mem temp).key && (mem node).size < (mem temp).size

theorem goesLeft_iff {mem : Nat → AStat V} {node temp : Nat} :
    goesLeft mem node temp = true ↔ (mem node).key < (mem temp).key ∨
      (mem node).key = (mem temp).key ∧ (mem node).size < (mem temp).size := by
  simp [goesLeft]

theorem aggregateInsertValue_eq_insertBy (mem : Nat → AStat V) (node : Nat)
    (t : SearchTree Nat) :
    aggregateInsertValue mem node t = t.insertBy (goesLeft mem node) node := by
  induction t with
  | leaf => rfl
  | node red l p r ihl ihr =>
      simp only [aggregateInsertValue, insertBy, goesLeft_iff, ihl, ihr]
      split_ifs <;> first | rfl | omega

theorem lookupCmp_eq_iff {mem : Nat → AStat V} {hash size : Nat} {type : MetricType} {p : Nat} :
    lookupCmp mem hash size type p = .eq ↔
      (mem p).key = hash ∧ (mem p).size = size ∧ (mem p).stat.type = type := by
  unfold lookupCmp
  split_ifs <;> grind

theorem lookupCmp_lt_iff {mem : Nat → AStat V} {hash size : Nat} {type : MetricType} {p : Nat} :
    lookupCmp mem hash size type p = .lt ↔
      hash < (mem p).key ∨ hash = (mem p).key ∧ (size < (mem p).size ∨
        size = (mem p).size ∧ (mem p).stat.type.num < type.num) := by
  unfold lookupCmp
  split_ifs <;> grind

/-! ## What a lookup finds -/

/-- What a lookup returns is in the tree and has the hash, size and type. -/
theorem of_aggregateLookup {mem : Nat → AStat V} {hash size p : Nat} {type : MetricType}
    {t : SearchTree Nat} (h : aggregateLookup mem hash size type t = some p) :
    p ∈ t.toList ∧ (mem p).key = hash ∧ (mem p).size = size ∧ (mem p).stat.type = type := by
  rw [aggregateLookup_eq_search] at h
  rcases SearchTree.search_eq_some h with ⟨hmem, hcmp⟩
  exact ⟨hmem, lookupCmp_eq_iff.mp hcmp⟩

/-- The order of records that lookup descends by: hash, size, then larger types first. -/
def Before (mem : Nat → AStat V) (p q : Nat) : Prop :=
  (mem p).key < (mem q).key ∨ (mem p).key = (mem q).key ∧ ((mem p).size < (mem q).size ∨
    (mem p).size = (mem q).size ∧ (mem q).stat.type.num < (mem p).stat.type.num)

theorem monotone_lookupCmp {mem : Nat → AStat V} {ps : List Nat}
    (h : ps.Pairwise (Before mem)) (hash size : Nat) (type : MetricType) :
    Monotone (lookupCmp mem hash size type) ps := by
  apply h.imp
  intro p q hpq hp
  rw [lookupCmp_lt_iff]
  unfold Before at hpq
  rcases hcmp : lookupCmp mem hash size type p with _ | _ | _
  · -- the goal is before `p`
    rw [lookupCmp_lt_iff] at hcmp
    omega
  · -- the goal is at `p`
    rcases lookupCmp_eq_iff.mp hcmp with ⟨hkey, hsize, htype⟩
    subst htype
    omega
  · exact absurd hcmp hp

/-- In a tree ordered by `Before` a lookup finds exactly what the tree holds. -/
theorem aggregateLookup_isSome_iff {mem : Nat → AStat V} {t : SearchTree Nat}
    (h : t.toList.Pairwise (Before mem)) (hash size : Nat) (type : MetricType) :
    (∃ p, aggregateLookup mem hash size type t = some p) ↔
      ∃ p ∈ t.toList, (mem p).key = hash ∧ (mem p).size = size ∧ (mem p).stat.type = type := by
  simp only [aggregateLookup_eq_search, ← lookupCmp_eq_iff]
  exact SearchTree.search_isSome_iff (monotone_lookupCmp h hash size type)

/-- In a tree ordered by `Before` no two records share hash, size and type. -/
theorem eq_of_before {mem : Nat → AStat V} {ps : List Nat} (h : ps.Pairwise (Before mem))
    {p q : Nat} (hp : p ∈ ps) (hq : q ∈ ps) (hkey : (mem p).key = (mem q).key)
    (hsize : (mem p).size = (mem q).size) (htype : (mem p).stat.type = (mem q).stat.type) :
    p = q := by
  have hmono := monotone_lookupCmp h (mem q).key (mem q).size (mem q).stat.type
  exact SearchTree.eq_of_cmp_eq hmono hp hq (lookupCmp_eq_iff.mpr ⟨hkey, hsize, htype⟩)
    (lookupCmp_eq_iff.mpr ⟨rfl, rfl, rfl⟩)

/-! ## What an insertion and a deletion do to the sequence -/

/-- An inserted node joins those of the tree. -/
theorem Rbtree.perm_insert (rb : Rbtree) (mem : Nat → AStat V) (node : Nat)
    (t : SearchTree Nat) : (rb.insert mem node t).toList.Perm (node :: t.toList) := by
  rw [Rbtree.insert, rb.toList_balance, aggregateInsertValue_eq_insertBy]
  exact SearchTree.perm_insertBy _ _ _

/-- A node whose type is smaller than that of every tie keeps the order. -/
theorem Rbtree.pairwise_insert (rb : Rbtree) {mem : Nat → AStat V} {node : Nat}
    {t : SearchTree Nat} (h : t.toList.Pairwise (Before mem))
    (htie : ∀ p ∈ t.toList, (mem p).key = (mem node).key → (mem p).size = (mem node).size →
      (mem node).stat.type.num < (mem p).stat.type.num) :
    (rb.insert mem node t).toList.Pairwise (Before mem) := by
  rw [Rbtree.insert, rb.toList_balance, aggregateInsertValue_eq_insertBy]
  refine SearchTree.pairwise_insertBy h ?_ ?_ ?_
  · intro p q hpq hp
    rw [goesLeft_iff] at hp ⊢
    unfold Before at hpq
    omega
  · -- going left, the node comes before in hash or size already
    intro p _ hp
    rw [goesLeft_iff] at hp
    unfold Before
    omega
  · -- going right, a tie has to be broken by the types
    intro p hmem hp
    have hgo : ¬ goesLeft mem node p = true := by simp [hp]
    have hlt := htie p hmem
    rw [goesLeft_iff] at hgo
    unfold Before
    omega

end StatsHouse
