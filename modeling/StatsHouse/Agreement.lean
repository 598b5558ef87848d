import StatsHouse.Series

/-! # Lookups and the tree

A lookup finds what the tree holds as long as the tree is ordered by `Before`,
where records of one hash and size come by decreasing type. A record is inserted
behind all those of its hash and size, so the order is kept when no open record
of these has a smaller type.

* `lookup_agrees`: lookups agree with the tree in every run whose calls meet
  that condition, hash no stat to 0 and wrap no size.
* `unique_after_value_not_lookupAgrees`: a unique metric inserted after a value
  metric of the same name and keys is never found.
-/

namespace StatsHouse

variable {V σ : Type}

/-! ## The order of the tree -/

/-- The tree is ordered as lookups descend. -/
def Aggregate.Sorted (a : Aggregate V) : Prop := a.rbtree.toList.Pairwise (Before a.mem)

/-- The order looks at hash, size and type only. -/
theorem pairwise_before_congr {mem mem' : Nat → AStat V} {ps : List Nat}
    (hkey : ∀ p ∈ ps, (mem' p).key = (mem p).key) (hsize : ∀ p ∈ ps, (mem' p).size = (mem p).size)
    (htype : ∀ p ∈ ps, (mem' p).stat.type = (mem p).stat.type) (h : ps.Pairwise (Before mem)) :
    ps.Pairwise (Before mem') := by
  apply h.imp_of_mem
  intro p q hp hq hpq
  unfold Before
  rw [hkey p hp, hkey q hq, hsize p hp, hsize q hq, htype p hp, htype q hq]
  exact hpq

section Steps

variable {env : Env V} {conf : AggregateConf} {a : Aggregate V} {p : Nat}

theorem Aggregate.Sorted.changed {b : Aggregate V} {f : AStat V → AStat V} (h : a.Sorted)
    (hinv : a.Inv conf) (hchanged : a.Changed b p f) (hrbtree : b.rbtree = a.rbtree)
    (hkey : ∀ r, (f r).key = r.key) (hsize : ∀ r, (f r).size = r.size)
    (htype : ∀ r, (f r).stat.type = r.stat.type) : b.Sorted := by
  have hqueue : ∀ q ∈ a.rbtree.toList, q ∈ a.queue :=
    fun q hq => ((hinv.indexed.mem_iff q).mp hq).1
  unfold Sorted
  rw [hrbtree]
  refine pairwise_before_congr ?_ ?_ ?_ h
  · intro q hq
    exact hchanged.part hkey (hqueue q hq)
  · intro q hq
    exact hchanged.part hsize (hqueue q hq)
  · intro q hq
    exact hchanged.part (g := fun r => r.stat.type) htype (hqueue q hq)

/-- The tree of `b` is a part of the tree of `a`, with the same records. -/
structure Aggregate.Within (b a : Aggregate V) : Prop where
  sublist : b.rbtree.toList.Sublist a.rbtree.toList
  mem : ∀ q ∈ b.rbtree.toList, b.mem q = a.mem q

theorem Aggregate.Within.mem_toList {b : Aggregate V} (h : b.Within a) {q : Nat}
    (hq : q ∈ b.rbtree.toList) : q ∈ a.rbtree.toList := h.sublist.subset hq

theorem Aggregate.Sorted.within {b : Aggregate V} (h : a.Sorted) (hb : b.Within a) : b.Sorted := by
  refine pairwise_before_congr ?_ ?_ ?_ (h.sublist hb.sublist)
  all_goals
    intro q hq
    rw [hb.mem q hq]

theorem Aggregate.Inv.within_retire (env : Env V) (hinv : a.Inv conf) (hp : p ∈ a.rbtree.toList) :
    (a.retire env p).Within a ∧ p ∉ (a.retire env p).rbtree.toList := by
  have htree : (a.retire env p).rbtree.toList = a.rbtree.toList.erase p :=
    env.rb.toList_delete _ _ hp
  constructor
  · constructor
    · rw [htree]
      exact List.erase_sublist
    · -- the record that changes has left the tree
      intro q hq
      rw [htree] at hq
      rcases hinv.indexed.nodup.mem_erase_iff.mp hq with ⟨hne, hq⟩
      have hqueue := ((hinv.indexed.mem_iff q).mp hq).1
      exact (hinv.changed_retire ((hinv.indexed.mem_iff p).mp hp).1).other q hqueue hne
  · rw [htree]
    exact hinv.indexed.nodup.not_mem_erase

theorem Aggregate.Inv.within_dropHead (env : Env V) {rest : List Nat} (hinv : a.Inv conf)
    (hqueue : a.queue = p :: rest) : (a.dropHead env p rest).Within a := by
  constructor
  · by_cases hkey : (a.mem p).key = 0
    · -- a retired head is not in the tree any more
      simp [Aggregate.dropHead, hkey]
    · have hp : p ∈ a.rbtree.toList := by
        have hq : p ∈ a.queue := by rw [hqueue]; simp
        refine (hinv.indexed.mem_iff p).mpr ⟨hq, ?_⟩
        have hret := mt (hinv.indexed.key_iff p hq).mpr hkey
        simpa using hret
      simp only [Aggregate.dropHead, if_pos hkey, env.rb.toList_delete _ _ hp]
      exact List.erase_sublist
  · intro q _
    rfl

/-- Every open record of this hash and size has a larger type. -/
def Aggregate.TiesAbove (a : Aggregate V) (hash size : Nat) (type : MetricType) : Prop :=
  ∀ q ∈ a.rbtree.toList, (a.mem q).key = hash → (a.mem q).size = size →
    type.num < (a.mem q).stat.type.num

theorem Aggregate.TiesAbove.within {b : Aggregate V} {hash size : Nat} {type : MetricType}
    (h : a.TiesAbove hash size type) (hb : b.Within a) : b.TiesAbove hash size type := by
  intro q hq
  rw [hb.mem q hq]
  exact h q (hb.mem_toList hq)

theorem Aggregate.Sorted.insert {alloc : Alloc} {r : AStat V} (h : a.Sorted)
    (hinv : a.Inv conf) (hsized : Sized conf r)
    (hp : aggregateAlloc a.alloc r.size = some (p, alloc))
    (hties : a.TiesAbove r.key r.size r.stat.type) : (a.insert env alloc p r).Sorted := by
  have hold : ∀ q ∈ a.rbtree.toList, (a.insert env alloc p r).mem q = a.mem q := by
    intro q hq
    exact hinv.insert_mem_old hsized hp ((hinv.indexed.mem_iff q).mp hq).1
  have hsorted : a.rbtree.toList.Pairwise (Before (a.insert env alloc p r).mem) := by
    refine pairwise_before_congr ?_ ?_ ?_ h
    all_goals
      intro q hq
      rw [hold q hq]
  show (env.rb.insert (a.insert env alloc p r).mem p a.rbtree).toList.Pairwise
    (Before (a.insert env alloc p r).mem)
  apply env.rb.pairwise_insert hsorted
  intro q hq
  rw [hold q hq, insert_mem hsized]
  exact hties q hq

/-- In an ordered tree a lookup returns exactly the record of its goal. -/
theorem Aggregate.Sorted.lookup_iff (h : a.Sorted) (hash size : Nat)
    (type : MetricType) (p : Nat) :
    aggregateLookup a.mem hash size type a.rbtree = some p ↔
      p ∈ a.rbtree.toList ∧ (a.mem p).key = hash ∧ (a.mem p).size = size ∧
        (a.mem p).stat.type = type := by
  constructor
  · exact of_aggregateLookup
  · rintro ⟨hp, rfl, rfl, rfl⟩
    rcases (aggregateLookup_isSome_iff h _ _ _).mpr ⟨p, hp, rfl, rfl, rfl⟩ with ⟨q, hq⟩
    rcases of_aggregateLookup hq with ⟨hq', hkey, hsize, htype⟩
    have heq : q = p := eq_of_before h hq' hp hkey hsize htype
    rw [← heq] at hq ⊢
    exact hq

/-- Before a record is created, the ties of its stat are all of larger types. -/
theorem Aggregate.Sorted.tiesAbove {stat : Stat V} (h : a.Sorted)
    (hge : ∀ q ∈ a.rbtree.toList, (a.mem q).key = aggregateHash env.crc stat →
      (a.mem q).size = aggregateSize conf.values stat →
      stat.type.num ≤ (a.mem q).stat.type.num)
    {b : Aggregate V} (hb : b.Within a)
    (hnone : ∀ p ∈ b.rbtree.toList, ¬ Found env conf a stat p) :
    b.TiesAbove (aggregateHash env.crc stat) (aggregateSize conf.values stat) stat.type := by
  intro q hq hkey hsize
  rw [hb.mem q hq] at hkey hsize ⊢
  apply Nat.lt_of_le_of_ne (hge q (hb.mem_toList hq) hkey hsize)
  -- a tie of the same type would have been found
  intro htype
  apply hnone q hq
  exact (h.lookup_iff _ _ _ _).mpr ⟨hb.mem_toList hq, hkey, hsize, (MetricType.num_inj htype).symm⟩

end Steps

/-! ## Runs -/

/-- There is an open record of the stat's hash, size and type with room for it. -/
def HasRoom (env : Env V) (conf : AggregateConf) (a : Aggregate V) (stat : Stat V) : Prop :=
  ∃ p ∈ a.rbtree.toList, (a.mem p).key = aggregateHash env.crc stat ∧
    (a.mem p).size = aggregateSize conf.values stat ∧ (a.mem p).stat.type = stat.type ∧
    (stat.type = .counter ∨ (a.mem p).stat.values.length < conf.values)

instance (env : Env V) (conf : AggregateConf) (a : Aggregate V) (stat : Stat V) :
    Decidable (HasRoom env conf a stat) := inferInstanceAs (Decidable (∃ p ∈ _, _))

/-- The call hashes no stat to 0, the size does not wrap, and no record is created while
there is an open record of the same hash and size and a smaller type. -/
def TypesDescend (env : Env V) (conf : AggregateConf) (h : History V σ) (call : Call V) : Prop :=
  RegularCall env conf call ∧
    match call with
    | .aggregate exiting stat _ => Admitted conf exiting stat → ¬ HasRoom env conf h.agg stat →
      ∀ q ∈ h.agg.rbtree.toList, (h.agg.mem q).key = aggregateHash env.crc stat →
        (h.agg.mem q).size = aggregateSize conf.values stat →
        stat.type.num ≤ (h.agg.mem q).stat.type.num
    | .process _ _ => True

instance (env : Env V) (conf : AggregateConf) (h : History V σ) (call : Call V) :
    Decidable (TypesDescend env conf h call) :=
  match call with
  | .aggregate _ _ _ => inferInstanceAs (Decidable (_ ∧ (_ → _ → ∀ q ∈ _, _)))
  | .process _ _ => inferInstanceAs (Decidable (_ ∧ True))

section Run

variable [Inhabited V] [Add V] {env : Env V} {conf : AggregateConf} {handler : Handler V σ}

theorem History.step_sorted (h : History V σ) (call : Call V) (hok : TypesDescend env conf h call)
    (hs : h.agg.Inv conf ∧ h.agg.Sorted) :
    (h.step env conf handler call).agg.Inv conf ∧ (h.step env conf handler call).agg.Sorted := by
  rcases hs with ⟨hinv, hsorted⟩
  cases call with
  | aggregate exiting stat now =>
      -- a call that creates a record does not find one with room
      have hge : Admitted conf exiting stat → ¬ HasRoom env conf h.agg stat → _ := hok.2
      refine aggregate_rule_inv
        (P := fun a _ => a.Sorted ∧
          a.TiesAbove (aggregateHash env.crc stat) (aggregateSize conf.values stat) stat.type)
        (Q := fun _ a _ => a.Sorted) hok.1 hinv hsorted ?_ ?_ ?_ ?_ ?_ ?_ ?_ ?_
      · intro _ p _ _ hchanged
        exact hsorted.changed hinv hchanged rfl (fun _ => rfl) (fun _ => rfl) fun _ => rfl
      · intro _ p _ _ _ hchanged
        exact hsorted.changed hinv hchanged rfl (fun _ => rfl) (fun _ => rfl) fun _ => rfl
      · -- the open record is full, and no other has its hash, size and type
        intro hadm p hp htype hfull _
        rcases hinv.within_retire env (of_aggregateLookup hp).1 with ⟨hwithin, hnot⟩
        refine ⟨hsorted.within hwithin, hsorted.tiesAbove (hge hadm ?_) hwithin ?_⟩
        · rintro ⟨q, hq, hkey, hsize, hqtype, hroom⟩
          have hqp : aggregateLookup h.agg.mem _ _ _ h.agg.rbtree = some q :=
            (hsorted.lookup_iff _ _ _ _).mpr ⟨hq, hkey, hsize, hqtype⟩
          rw [Found, hqp] at hp
          cases hp
          exact absurd (hroom.resolve_left htype) (Nat.not_lt.mpr hfull)
        · intro q hq hfound
          rw [Found, hp] at hfound
          cases hfound
          exact hnot hq
      · -- there is no open record of the hash, size and type
        intro hadm hnone
        have hself : h.agg.Within h.agg := ⟨List.Sublist.refl _, fun _ _ => rfl⟩
        refine ⟨hsorted, hsorted.tiesAbove (hge hadm ?_) hself fun p _ => hnone p⟩
        rintro ⟨q, hq, hkey, hsize, hqtype, -⟩
        exact hnone q ((hsorted.lookup_iff _ _ _ _).mpr ⟨hq, hkey, hsize, hqtype⟩)
      · rintro a ctx p rest hinv ⟨hsorted, hties⟩ hqueue _
        have hwithin := hinv.within_dropHead env hqueue
        exact ⟨hsorted.within hwithin, hties.within hwithin⟩
      · intro a ctx hP
        exact hP
      · intro rc a ctx _ hP
        exact hP.1
      · rintro a ctx p alloc r _ hinv ⟨hsorted, hties⟩ hr hsized hp
        obtain ⟨ev, hev⟩ := aggregateTimer_eq conf now (a.insert env alloc p r)
        rw [hev]
        exact hsorted.insert hinv hsized hp (by rw [hr]; exact hties)
  | process exiting now =>
      refine aggregateProcess_rule_inv (P := fun a _ => a.Sorted) ?_ ?_ hinv hsorted
      · intro a ctx p rest hinv hsorted hqueue _
        exact hsorted.within (hinv.within_dropHead env hqueue)
      · intro a ctx hsorted
        exact hsorted

/-- A lookup returns a record exactly if the tree holds it under the hash, size
and type, so no two open records share these, and a stat is merged whenever
there is room for it. -/
structure Aggregate.LookupAgrees (env : Env V) (conf : AggregateConf) (a : Aggregate V) :
    Prop where
  lookup : ∀ hash size type p, aggregateLookup a.mem hash size type a.rbtree = some p ↔
    p ∈ a.rbtree.toList ∧ (a.mem p).key = hash ∧ (a.mem p).size = size ∧
      (a.mem p).stat.type = type
  unique : ∀ p ∈ a.rbtree.toList, ∀ q ∈ a.rbtree.toList, (a.mem p).key = (a.mem q).key →
    (a.mem p).size = (a.mem q).size → (a.mem p).stat.type = (a.mem q).stat.type → p = q
  merged : ∀ stat, Admitted conf false stat → HasRoom env conf a stat → ∃ p ∈ a.rbtree.toList,
    ∀ (τ : Type) (handler : Handler V τ) (now : Nat) (ctx : τ),
      aggregate env conf handler false stat now a ctx = (.ok, a.merge env p stat, ctx)

theorem Aggregate.Sorted.lookupAgrees {a : Aggregate V} (h : a.Sorted) :
    a.LookupAgrees env conf := by
  refine ⟨h.lookup_iff, fun p hp q hq => eq_of_before h hp hq, ?_⟩
  rintro stat hadm ⟨p, hp, hkey, hsize, htype, hroom⟩
  have hfound : Found env conf a stat p :=
    (h.lookup_iff _ _ _ _).mpr ⟨hp, hkey, hsize, htype⟩
  refine ⟨p, hp, ?_⟩
  intro τ handler now ctx
  exact aggregate_of_mergesInto ⟨hadm, hfound, hroom⟩ handler now ctx

/-- Lookups agree with the tree in every run that hashes no stat to 0, wraps no size and
creates no record beside an open one of the same hash and size and a smaller type. -/
theorem lookup_agrees {start size : Nat} {ctx : σ} {calls : List (Call V)}
    (hcalls : Run.Meets (History.step env conf handler) (TypesDescend env conf)
      (History.init env start size ctx) calls) :
    (History.run env conf handler start size ctx calls).agg.LookupAgrees env conf := by
  have hinit : (aggregateInit env start size).Inv conf ∧ (aggregateInit env start size).Sorted :=
    ⟨aggregateInit_inv env conf start size, List.Pairwise.nil⟩
  exact (Run.exec_invariant_of_meets History.step_sorted hinit hcalls).2.lookupAgrees

end Run

/-- A value metric beside a unique metric of the same name, which came first. -/
theorem lookup_agrees_descending :
    (History.run (sampleEnv Nat) ⟨1000, 24⟩ (fun _ ctx => (.ok, ctx)) 0 4096 ()
      [.aggregate false ⟨.unique, [109], [], [1]⟩ 0,
        .aggregate false ⟨.value, [109], [], [2]⟩ 0]).agg.LookupAgrees (sampleEnv Nat)
          ⟨1000, 24⟩ :=
  lookup_agrees (by decide +kernel)

/-- The other way round the tree holds the unique metric, and no lookup finds it. -/
theorem unique_after_value_not_lookupAgrees :
    ¬ (History.run (sampleEnv Nat) ⟨1000, 24⟩ (fun _ ctx => (.ok, ctx)) 0 4096 ()
      [.aggregate false ⟨.value, [109], [], [1]⟩ 0,
        .aggregate false ⟨.unique, [109], [], [2]⟩ 0]).agg.LookupAgrees (sampleEnv Nat)
          ⟨1000, 24⟩ := by
  intro h
  have hlookup := (h.lookup (aggregateHash Crc32.standard (⟨.unique, [109], [], [2]⟩ : Stat Nat))
    848 .unique 848).mpr (by decide +kernel)
  revert hlookup
  decide +kernel

end StatsHouse
