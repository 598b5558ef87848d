import StatsHouse.History

/-! # The idle arena

When the last block is given back the cursors stay where they are: `pos` and
`last` meet, but not at `start`. The arena is then free as a whole, and the
allocator still sees two pieces, the one behind `pos` and the one before it.

* `idle_serves_iff`: an idle arena serves a size exactly if one of the two pieces
  is larger, and with an empty queue the aggregator declines everything else.
* `idle_serves_half`: one of them always is, for sizes below half of the arena.
-/

namespace StatsHouse

variable {V σ : Type}

/-- An idle arena of `arena` bytes with its cursor at the offset `c` has room for
`size` bytes, behind the cursor or before it. -/
def IdleRoom (arena c size : Nat) : Prop := size < arena - c ∨ size < c

instance (arena c size : Nat) : Decidable (IdleRoom arena c size) :=
  inferInstanceAs (Decidable (_ ∨ _))

/-- The offset of the cursor `pos`. -/
def Alloc.offset (alloc : Alloc) : Nat := alloc.pos - alloc.start

/-! ## The allocator -/

/-- Without live blocks the cursors meet: a wrapped layout has a block in its head. -/
theorem Layout.idle {alloc : Alloc} (h : Layout alloc []) :
    alloc.last = alloc.pos ∧ alloc.start ≤ alloc.pos ∧ alloc.pos ≤ alloc.stop := by
  cases h with
  | straight hlast hlive hpos =>
      have hmeet : alloc.last = alloc.pos := hlive
      exact ⟨hmeet, by omega, hpos⟩
  | wrapped tail head tailEnd hlive hhead hpos htail htailEnd hhead' =>
      have hnil := List.append_eq_nil_iff.mp hlive.symm
      exact absurd hnil.2 hhead

theorem Layout.alloc_idle_iff {alloc : Alloc} (h : Layout alloc []) (size : Nat) :
    (aggregateAlloc alloc size).isSome ↔
      IdleRoom (alloc.stop - alloc.start) alloc.offset size := by
  rcases h.idle with ⟨hmeet, hstart, hstop⟩
  unfold aggregateAlloc IdleRoom Alloc.offset
  rw [if_pos (by omega)]
  split
  · -- the piece behind `pos`
    simp only [Option.isSome_some, true_iff]
    left
    omega
  · split
    · -- the piece before `pos`
      simp only [Option.isSome_some, true_iff]
      right
      omega
    · simp only [Option.isSome_none, Bool.false_eq_true, false_iff]
      omega

/-- Of two pieces one is at least half of the arena. -/
theorem idleRoom_of_half {arena c size : Nat} (h : 2 * size < arena) :
    IdleRoom arena c size := by
  unfold IdleRoom
  omega

/-! ## The aggregator -/

/-- The arena lies where it was made, and the queued records are what is in use. -/
structure Aggregate.Placed (start arena : Nat) (a : Aggregate V) : Prop where
  live : a.Live
  start_eq : a.alloc.start = start
  stop_eq : a.alloc.stop = start + arena

section Placed

variable {env : Env V} {conf : AggregateConf} {handler : Handler V σ} {exiting : Bool}
  {a : Aggregate V} {p now start arena : Nat}

theorem aggregateInit_placed (env : Env V) (start arena : Nat) :
    (aggregateInit env start arena).Placed start arena :=
  ⟨aggregateInit_live env start arena, rfl, rfl⟩

theorem Aggregate.Placed.changed {b : Aggregate V} {f : AStat V → AStat V}
    (h : a.Placed start arena) (hchanged : a.Changed b p f) (hsize : ∀ r, (f r).size = r.size) :
    b.Placed start arena := by
  refine ⟨hchanged.live hsize h.live, ?_, ?_⟩
  · rw [hchanged.alloc, h.start_eq]
  · rw [hchanged.alloc, h.stop_eq]

theorem Aggregate.Placed.dropHead {rest : List Nat} (h : a.Placed start arena)
    (hqueue : a.queue = p :: rest) : (a.dropHead env p rest).Placed start arena := by
  refine ⟨h.live.dropHead hqueue, ?_, ?_⟩
  · show (aggregateFree a.alloc p _).start = start
    rw [aggregateFree_start, h.start_eq]
  · show (aggregateFree a.alloc p _).stop = start + arena
    rw [aggregateFree_stop, h.stop_eq]

theorem Aggregate.Placed.insert {alloc : Alloc} {r : AStat V} (h : a.Placed start arena)
    (hinv : a.Inv conf) (hsized : Sized conf r)
    (hp : aggregateAlloc a.alloc r.size = some (p, alloc)) :
    (a.insert env alloc p r).Placed start arena := by
  rcases aggregateAlloc_bounds hp with ⟨hstart, hstop⟩
  exact ⟨hinv.insert_live hsized hp, hstart.trans h.start_eq, hstop.trans h.stop_eq⟩

theorem Aggregate.Placed.timer (h : a.Placed start arena) :
    (aggregateTimer conf now a).Placed start arena := by
  obtain ⟨ev, hev⟩ := aggregateTimer_eq conf now a
  rw [hev]
  exact ⟨h.live, h.start_eq, h.stop_eq⟩

theorem kept_placed : Kept env conf now (Aggregate.Placed start arena) := by
  constructor
  · intro a b p f h hchanged hsize _
    exact h.changed hchanged hsize
  · intro a p rest h hqueue
    exact h.dropHead hqueue
  · intro a p alloc r hinv h hsized _ hp
    exact h.insert hinv hsized hp
  · intro a h
    exact h.timer

/-- In every run, with the invariant of the aggregator. -/
theorem History.run_placed [Inhabited V] [Add V] (handler : Handler V σ) (start arena : Nat)
    (ctx : σ) {calls : List (Call V)} (hcalls : ∀ call ∈ calls, RegularCall env conf call) :
    (History.run env conf handler start arena ctx calls).agg.Inv conf ∧
      (History.run env conf handler start arena ctx calls).agg.Placed start arena := by
  have hstep : ∀ (h : History V σ) (call : Call V), RegularCall env conf call →
      h.agg.Inv conf ∧ h.agg.Placed start arena →
      (h.step env conf handler call).agg.Inv conf ∧
        (h.step env conf handler call).agg.Placed start arena := by
    rintro h call hcall ⟨hinv, hplaced⟩
    exact ⟨h.step_inv call hcall hinv, kept_placed.step hcall hinv hplaced⟩
  exact Run.exec_invariant_of_meets hstep
    ⟨aggregateInit_inv env conf start arena, aggregateInit_placed env start arena⟩
    (Run.meets_of_forall (fun call hmem _ => hcalls call hmem) _)

theorem Aggregate.Placed.alloc_idle_iff (h : a.Placed start arena) (hqueue : a.queue = [])
    (size : Nat) : (aggregateAlloc a.alloc size).isSome ↔ IdleRoom arena a.alloc.offset size := by
  have hlayout : Layout a.alloc [] := by
    have hlive := h.live
    rw [Live, blocks, hqueue] at hlive
    exact hlive
  have harena : a.alloc.stop - a.alloc.start = arena := by
    rw [h.start_eq, h.stop_eq, Nat.add_sub_cancel_left]
  rw [hlayout.alloc_idle_iff, harena]

end Placed

/-! ## Creating a record in an idle arena -/

section Create

variable [Inhabited V] {env : Env V} {conf : AggregateConf} {handler : Handler V σ}
  {exiting : Bool} {stat : Stat V} {hash size now start arena : Nat} {a : Aggregate V} {ctx : σ}

/-- With an empty queue there is nothing to process, so a refusal changes nothing. -/
theorem aggregateCreate_idle (h : a.Placed start arena) (hqueue : a.queue = []) :
    ((aggregateCreate env conf handler exiting stat hash size now a ctx).1 = .ok ↔
        IdleRoom arena a.alloc.offset size) ∧
      (¬ IdleRoom arena a.alloc.offset size →
        aggregateCreate env conf handler exiting stat hash size now a ctx =
          (.declined, a, ctx)) := by
  rw [← h.alloc_idle_iff hqueue]
  unfold aggregateCreate
  cases hp : aggregateAlloc a.alloc size with
  | some res => simp
  | none => simp [aggregateProcess, hqueue]

/-- The retry, when the arena had no room and processing has drained the queue. -/
theorem aggregateCreate_drained (h : a.Placed start arena)
    (hfull : aggregateAlloc a.alloc size = none)
    (hrc : (aggregateProcess env conf handler exiting now a ctx).1 = .ok)
    (hqueue : (aggregateProcess env conf handler exiting now a ctx).2.1.queue = []) :
    (aggregateCreate env conf handler exiting stat hash size now a ctx).1 = .ok ↔
      IdleRoom arena (aggregateProcess env conf handler exiting now a ctx).2.1.alloc.offset
        size := by
  rw [← (kept_placed.process h ctx).alloc_idle_iff hqueue]
  unfold aggregateCreate
  simp only [hfull, hrc, ne_eq, not_true_eq_false, if_false]
  cases hp : aggregateAlloc
      (aggregateProcess env conf handler exiting now a ctx).2.1.alloc size with
  | some res => simp
  | none => simp

/-- A stat that is admitted and finds no open record needs one of its own. -/
theorem aggregate_of_not_found [Add V] (hadm : Admitted conf exiting stat)
    (hnot : ∀ p, ¬ Found env conf a stat p) :
    aggregate env conf handler exiting stat now a ctx =
      aggregateCreate env conf handler exiting stat (aggregateHash env.crc stat)
        (aggregateSize conf.values stat) now a ctx := by
  -- the lookup answers null, as it answers no record
  have hlookup : aggregateLookup a.mem (aggregateHash env.crc stat)
      (aggregateSize conf.values stat) stat.type a.rbtree = none :=
    Option.eq_none_iff_forall_not_mem.mpr hnot
  rcases hadm with ⟨htype, hexiting⟩
  unfold aggregate
  rw [if_neg (by tauto), if_neg (by simp [hexiting])]
  simp only [hlookup]

end Create

/-! ## Runs -/

/-- After any calls that leave no block live. -/
theorem Ring.alloc_idle_iff (start arena : Nat) {calls : List RingCall}
    (hcalls : ∀ n, .alloc n ∈ calls → 0 < n)
    (hidle : (Run.exec Ring.step (Ring.init start arena) calls).live = []) (size : Nat) :
    (aggregateAlloc (Run.exec Ring.step (Ring.init start arena) calls).alloc size).isSome ↔
      IdleRoom arena (Run.exec Ring.step (Ring.init start arena) calls).alloc.offset size := by
  rcases Ring.run_inv start arena hcalls with ⟨hlayout, hstart, hstop⟩
  rw [hidle] at hlayout
  rw [hlayout.alloc_idle_iff, hstart, hstop, Nat.add_sub_cancel_left]

/-- A size below half of the arena is never refused by an idle one. -/
theorem idle_serves_half (start arena : Nat) {calls : List RingCall}
    (hcalls : ∀ n, .alloc n ∈ calls → 0 < n)
    (hidle : (Run.exec Ring.step (Ring.init start arena) calls).live = []) {size : Nat}
    (hsize : 2 * size < arena) :
    (aggregateAlloc (Run.exec Ring.step (Ring.init start arena) calls).alloc size).isSome :=
  (Ring.alloc_idle_iff start arena hcalls hidle size).mpr (idleRoom_of_half hsize)

/-- The aggregator of a run when it asks the arena for room: as it is between two
calls, or with the full record just retired that the lookup found. In the run no stat
hashes to 0 and no size wraps. -/
def AsksRoom [Inhabited V] [Add V] (env : Env V) (conf : AggregateConf) (handler : Handler V σ)
    (start arena : Nat) (a : Aggregate V) : Prop :=
  ∃ ctx calls, (∀ call ∈ calls, RegularCall env conf call) ∧
    (a = (History.run env conf handler start arena ctx calls).agg ∨
      ∃ stat p, Found env conf (History.run env conf handler start arena ctx calls).agg stat p ∧
        a = (History.run env conf handler start arena ctx calls).agg.retire env p)

theorem AsksRoom.placed [Inhabited V] [Add V] {env : Env V} {conf : AggregateConf}
    {handler : Handler V σ} {start arena : Nat} {a : Aggregate V}
    (h : AsksRoom env conf handler start arena a) : a.Placed start arena := by
  obtain ⟨ctx, calls, hcalls, ha⟩ := h
  rcases History.run_placed handler start arena ctx hcalls with ⟨hinv, hplaced⟩
  rcases ha with ha | ⟨stat, p, hfound, ha⟩
  · rw [ha]
    exact hplaced
  · rw [ha]
    exact hplaced.changed (hinv.changed_retire (hinv.of_found hfound).1) fun _ => rfl

/-- An idle arena serves a size exactly if there is room behind the cursor or before
it. In a run that hashes no stat to 0 and wraps no size, so does the retry of the
aggregator after the queue is drained; and with an empty queue a stat that needs a record
gets one exactly then, and otherwise is declined and leaves everything as it is, to be
declined again. -/
theorem idle_serves_iff [Inhabited V] [Add V] (env : Env V) (conf : AggregateConf)
    (handler : Handler V σ) (start arena : Nat) :
    (∀ calls : List RingCall, (∀ n, .alloc n ∈ calls → 0 < n) →
      (Run.exec Ring.step (Ring.init start arena) calls).live = [] → ∀ size,
        ((aggregateAlloc (Run.exec Ring.step (Ring.init start arena) calls).alloc size).isSome ↔
          IdleRoom arena (Run.exec Ring.step (Ring.init start arena) calls).alloc.offset size)) ∧
    (∀ a, AsksRoom env conf handler start arena a →
      ∀ (exiting : Bool) (stat : Stat V) (hash size now : Nat) (ctx : σ),
        aggregateAlloc a.alloc size = none →
        (aggregateProcess env conf handler exiting now a ctx).1 = .ok →
        (aggregateProcess env conf handler exiting now a ctx).2.1.queue = [] →
        ((aggregateCreate env conf handler exiting stat hash size now a ctx).1 = .ok ↔
          IdleRoom arena (aggregateProcess env conf handler exiting now a ctx).2.1.alloc.offset
            size)) ∧
    ∀ (ctx₀ : σ) (calls : List (Call V)) (a : Aggregate V) (stat : Stat V) (now : Nat) (ctx : σ),
      (∀ call ∈ calls, RegularCall env conf call) →
      a = (History.run env conf handler start arena ctx₀ calls).agg → a.queue = [] →
      Admitted conf false stat → Regular env conf stat → (∀ p, ¬ Found env conf a stat p) →
        ((aggregate env conf handler false stat now a ctx).1 = .ok ↔
            IdleRoom arena a.alloc.offset (recordSize conf.values stat)) ∧
          (¬ IdleRoom arena a.alloc.offset (recordSize conf.values stat) →
            aggregate env conf handler false stat now a ctx = (.declined, a, ctx)) := by
  refine ⟨?_, ?_, ?_⟩
  · intro calls hcalls hidle size
    exact Ring.alloc_idle_iff start arena hcalls hidle size
  · intro a ha exiting stat hash size now ctx hfull hrc hqueue
    exact aggregateCreate_drained ha.placed hfull hrc hqueue
  · intro ctx₀ calls a stat now ctx hcalls ha hqueue hadm hregular hnot
    have hplaced : a.Placed start arena := by
      rw [ha]
      exact (History.run_placed handler start arena ctx₀ hcalls).2
    rw [aggregate_of_not_found hadm hnot, aggregateSize_eq_recordSize hregular.2]
    exact aggregateCreate_idle hplaced hqueue

/-- A counter "m" and a value of the metric "v", whose record is larger. -/
def smallStat : Stat Nat := { type := .counter, name := [109], keys := [], values := [1] }

def largeStat : Stat Nat := { type := .value, name := [118], keys := [], values := [1] }

/-- An arena of 1200 bytes after the counter was aggregated and handed over. -/
def drainedHistory : History Nat Unit :=
  History.run (sampleEnv Nat) ⟨1000, 24⟩ (fun _ ctx => (.ok, ctx)) 0 1200 ()
    [.aggregate false smallStat 0, .process false 1000]

/-- The idle arena and the aggregator with its cursor at 664. -/
theorem idle_serves_iff_drained :
    ((aggregateAlloc (Run.exec Ring.step (Ring.init 0 1200) [.alloc 664, .free]).alloc
          848).isSome ↔
        IdleRoom 1200 (Run.exec Ring.step (Ring.init 0 1200) [.alloc 664, .free]).alloc.offset
          848) ∧
      ((aggregate (sampleEnv Nat) ⟨1000, 24⟩ (fun _ ctx => (.ok, ctx)) false largeStat 2000
          drainedHistory.agg ()).1 = .ok ↔
        IdleRoom 1200 drainedHistory.agg.alloc.offset (recordSize 24 largeStat)) := by
  obtain ⟨hring, -, haggregate⟩ :=
    idle_serves_iff (sampleEnv Nat) ⟨1000, 24⟩ (fun _ ctx => (.ok, ctx)) 0 1200
  constructor
  · exact hring [.alloc 664, .free] (by intro n hn; simp at hn; omega) (by decide) 848
  · have hnot : aggregateLookup drainedHistory.agg.mem
        (aggregateHash (sampleEnv Nat).crc largeStat) (aggregateSize 24 largeStat) .value
        drainedHistory.agg.rbtree = none := by
      decide +kernel
    refine (haggregate () _ drainedHistory.agg largeStat 2000 () (by decide +kernel) rfl
      (by decide +kernel) (by decide) (by decide +kernel) ?_).1
    intro p hp
    exact absurd (hnot.symm.trans hp) (by simp)

/-- The cursor has stopped at 664, and the 848 bytes of the value fit on neither
side: the allocator refuses them, and the aggregator declines the value, which it
accepts with a fresh arena. -/
theorem drained_not_serves :
    drainedHistory.agg.queue = [] ∧ aggregateSize 24 largeStat = 848 ∧
      (aggregateAlloc (Alloc.init 0 1200) 848).isSome ∧
      aggregateAlloc (Run.exec Ring.step (Ring.init 0 1200) [.alloc 664, .free]).alloc 848 =
        none ∧
      (aggregate (sampleEnv Nat) ⟨1000, 24⟩ (fun _ ctx => (.ok, ctx)) false largeStat 2000
        drainedHistory.agg ()).1 = .declined ∧
      (aggregate (sampleEnv Nat) ⟨1000, 24⟩ (fun _ ctx => (.ok, ctx)) false largeStat 2000
        (aggregateInit (sampleEnv Nat) 0 1200) ()).1 = .ok := by
  decide +kernel

end StatsHouse
