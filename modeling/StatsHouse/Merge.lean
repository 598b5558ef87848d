import StatsHouse.History
import StatsHouse.Lib.Ledger

/-! # What the records hold

A record of the aggregator holds the stats that were merged into it: the sum of
counters, or the values of the other types in the order in which they came. In
every run the records, queued or handed over, account for the accepted stats.

* `aggregate_conserves`: with exact addition of counters, every accepted stat is
  in exactly one record, and a declined stat in none, as long as no stat hashes to 0
  and no size wraps.
* `wrapped_not_conserves`: a number of values that makes the size wrap gives records
  without room for a second value, which the next record is written over.
-/

namespace StatsHouse

open Ledger

variable {V σ : Type}

/-! ## Groups of stats -/

/-- The counters of a group, added up as they came. -/
def counterSum [Inhabited V] [Add V] : List (Stat V) → V
  | [] => default
  | s :: group => group.foldl (fun sum t => sum + t.value0) s.value0

/-- The stat of a record that was created for the first stat of the group and
into which the others were merged. -/
structure Merged [Inhabited V] [Add V] (values : Nat) (group : List (Stat V)) (stat : Stat V) :
    Prop where
  created : ∃ s rest, group = s :: rest ∧ SameSeries s stat
  type : ∀ s ∈ group, s.type = stat.type
  counter : stat.type = .counter → stat.values = [counterSum group]
  other : stat.type ≠ .counter → stat.values = group.map Stat.value0 ∧ stat.values.length ≤ values

theorem counterSum_append [Inhabited V] [Add V] {group : List (Stat V)} (hne : group ≠ [])
    (t : Stat V) : counterSum (group ++ [t]) = counterSum group + t.value0 := by
  cases group with
  | nil => exact absurd rfl hne
  | cons s group => simp [counterSum]

theorem foldl_add_value0 [Inhabited V] [AddMonoid V] (group : List (Stat V)) (v : V) :
    group.foldl (fun sum t => sum + t.value0) v = v + (group.map Stat.value0).sum := by
  induction group generalizing v with
  | nil => simp
  | cons t group ih => simp [ih, add_assoc]

/-- With exact addition the counters of a group add up to their sum. -/
theorem counterSum_eq_sum [Inhabited V] [AddMonoid V] {group : List (Stat V)} (hne : group ≠ []) :
    counterSum group = (group.map Stat.value0).sum := by
  cases group with
  | nil => exact absurd rfl hne
  | cons s group => simp [counterSum, foldl_add_value0]

/-- As `Merged`, where the counters are added exactly. -/
def MergedExactly [Inhabited V] [AddMonoid V] (values : Nat) (group : List (Stat V))
    (stat : Stat V) : Prop :=
  Merged values group stat ∧
    (stat.type = .counter → stat.values = [(group.map Stat.value0).sum])

section Merged

variable [Inhabited V] [Add V] {values : Nat} {group : List (Stat V)} {stat t : Stat V}

theorem Merged.ne_nil (h : Merged values group stat) : group ≠ [] := by
  rcases h.created with ⟨s, rest, hgroup, -⟩
  rw [hgroup]
  exact List.cons_ne_nil _ _

/-- The record of a stat of its own. -/
theorem merged_newRecord (hvalues : stat.type = .counter ∨ values ≠ 0) (hash size now : Nat) :
    Merged values [stat] (newRecord stat hash size now).stat := by
  refine ⟨⟨stat, [], rfl, rfl, rfl, rfl⟩, ?_, fun _ => rfl, ?_⟩
  · intro s hs
    rw [List.mem_singleton.mp hs]
    rfl
  · intro htype
    have hne : values ≠ 0 := hvalues.resolve_left htype
    constructor
    · rfl
    · exact Nat.one_le_iff_ne_zero.mpr hne

theorem Merged.addCounter {r : AStat V} (h : Merged values group r.stat)
    (htype : r.stat.type = .counter) (ht : t.type = .counter) :
    Merged values (group ++ [t]) (r.addCounter t.value0).stat := by
  rcases h.created with ⟨s, rest, hgroup, hseries⟩
  refine ⟨⟨s, rest ++ [t], by rw [hgroup]; rfl, hseries⟩, ?_, ?_, fun hne => absurd htype hne⟩
  · intro u hu
    rcases List.mem_append.mp hu with hu | hu
    · exact h.type u hu
    · rw [List.mem_singleton.mp hu]
      exact ht.trans htype.symm
  · intro _
    have hsum := h.counter htype
    simp [AStat.addCounter, Stat.value0, hsum, counterSum_append h.ne_nil]

theorem Merged.appendValue {r : AStat V} (h : Merged values group r.stat)
    (htype : r.stat.type ≠ .counter) (ht : t.type = r.stat.type)
    (hroom : r.stat.values.length < values) :
    Merged values (group ++ [t]) (r.appendValue t.value0).stat := by
  rcases h.created with ⟨s, rest, hgroup, hseries⟩
  refine ⟨⟨s, rest ++ [t], by rw [hgroup]; rfl, hseries⟩, ?_, fun hc => absurd hc htype, ?_⟩
  · intro u hu
    rcases List.mem_append.mp hu with hu | hu
    · exact h.type u hu
    · rw [List.mem_singleton.mp hu]
      exact ht
  · intro _
    have hvalues := (h.other htype).1
    constructor
    · simp [AStat.appendValue, hvalues]
    · -- there was room for one more
      simp only [AStat.appendValue, List.length_append, List.length_singleton]
      omega

end Merged

/-! ## Accounts of the aggregator -/

/-- The handler puts each stat that fits to the end of what `Out` lists, as `f`
writes it, and changes nothing else in it. -/
structure Takes {β : Type} (handler : Handler V σ) (f : Stat V → β) (fits : Stat V → Prop)
    (Out : σ → List β → Prop) : Prop where
  some : ∀ stat ctx out, fits stat → Out ctx out → Out (handler (some stat) ctx).2 (out ++ [f stat])
  none : ∀ ctx out, Out ctx out → Out (handler none ctx).2 out

section Account

variable {β : Type} {env : Env V} {conf : AggregateConf} {handler : Handler V σ}
  {exiting : Bool} {now : Nat} {f : Stat V → β} {fits : Stat V → Prop}
  {Out : σ → List β → Prop} {holds : List (Stat V) → β → Prop} {a : Aggregate V} {ctx : σ}
  {accepted : List (Stat V)} {out : List β}

/-- What left the aggregator and what is queued account for the accepted stats,
and the records that may leave it next fit. -/
def AccountedWith (conf : AggregateConf) (exiting : Bool) (now : Nat) (f : Stat V → β)
    (fits : Stat V → Prop) (Out : σ → List β → Prop) (holds : List (Stat V) → β → Prop)
    (accepted : List (Stat V)) (a : Aggregate V) (ctx : σ) : Prop :=
  (∃ out, Out ctx out ∧ Accounts holds accepted (out ++ a.stats.map f)) ∧
    ∀ q ∈ a.queue, Expired conf exiting now (a.mem q) → fits (a.mem q).stat

theorem AccountedWith.dropHead (htakes : Takes handler f fits Out) {p : Nat} {rest : List Nat}
    (hqueue : a.queue = p :: rest) (hexpired : Expired conf exiting now (a.mem p))
    (h : AccountedWith conf exiting now f fits Out holds accepted a ctx) :
    AccountedWith conf exiting now f fits Out holds accepted (a.dropHead env p rest)
      (handler (some (a.mem p).stat) ctx).2 := by
  rcases h with ⟨⟨out, hout, hacc⟩, hfits⟩
  have hfit : fits (a.mem p).stat := hfits p (by rw [hqueue]; simp) hexpired
  constructor
  · -- the first of the queue has become the last of what is out
    refine ⟨_, htakes.some _ _ _ hfit hout, ?_⟩
    rw [Aggregate.stats_dropHead hqueue] at hacc
    simpa using hacc
  · intro q hq
    exact hfits q (by rw [hqueue]; exact List.mem_cons_of_mem _ hq)

theorem AccountedWith.null (htakes : Takes handler f fits Out)
    (h : AccountedWith conf exiting now f fits Out holds accepted a ctx) :
    AccountedWith conf exiting now f fits Out holds accepted a (handler none ctx).2 := by
  rcases h with ⟨⟨out, hout, hacc⟩, hfits⟩
  exact ⟨⟨out, htakes.none _ _ hout, hacc⟩, hfits⟩

/-- A call of `process` keeps the account. -/
theorem aggregateProcess_accounted (env : Env V) (htakes : Takes handler f fits Out)
    (hinv : a.Inv conf)
    (h : AccountedWith conf exiting now f fits Out holds accepted a ctx) :
    Post (fun _ a ctx => a.Inv conf ∧
        AccountedWith conf exiting now f fits Out holds accepted a ctx)
      (aggregateProcess env conf handler exiting now a ctx) :=
  aggregateProcess_rule_inv (fun _ _ _ _ _ h hqueue hexpired => h.dropHead htakes hqueue hexpired)
    (fun _ _ h => h.null htakes) hinv h

variable [Inhabited V] [Add V]

/-- A stat merged into the record the lookup finds. -/
theorem accounts_merge {stat : Stat V} {b : Aggregate V} {p : Nat} {change : AStat V → AStat V}
    (hinv : a.Inv conf) (hchanged : a.Changed b p change)
    (hholds : ∀ group s, holds group (f s) ↔ Merged conf.values group s)
    (hacc : Accounts holds accepted (out ++ a.stats.map f)) (hp : Found env conf a stat p)
    (hmerge : ∀ group, (a.mem p).stat.type = stat.type →
      Merged conf.values group (a.mem p).stat →
      Merged conf.values (group ++ [stat]) (change (a.mem p)).stat) :
    Accounts holds (accepted ++ [stat]) (out ++ b.stats.map f) := by
  rcases hchanged.stats hinv.live with ⟨before, after, hstats, hstats'⟩
  have htype := (of_aggregateLookup hp).2.2.2
  rw [hstats, List.map_append, List.map_cons, ← List.append_assoc] at hacc
  rw [hstats', List.map_append, List.map_cons, ← List.append_assoc]
  apply hacc.merge
  intro group hgroup
  rw [hholds] at hgroup ⊢
  exact hmerge group htype hgroup

/-- A stat that gets a record of its own. -/
theorem accounts_insert {stat : Stat V} {hash size p : Nat} {alloc : Alloc} {r : AStat V}
    (hinv : a.Inv conf) (hholds : ∀ group s, holds group (f s) ↔ Merged conf.values group s)
    (hacc : Accounts holds accepted (out ++ a.stats.map f)) (hadm : Admitted conf exiting stat)
    (hr : r = newRecord stat hash size now) (hsized : Sized conf r)
    (hp : aggregateAlloc a.alloc r.size = some (p, alloc)) :
    Accounts holds (accepted ++ [stat]) (out ++ (a.insert env alloc p r).stats.map f) := by
  have hstats : (a.insert env alloc p r).stats = a.stats ++ [r.stat] :=
    hinv.map_insert hsized hp fun _ r => r.stat
  rw [hstats, List.map_append, List.map_singleton, ← List.append_assoc, hr]
  exact hacc.add ((hholds _ _).mpr (merged_newRecord hadm.1 _ _ _))

/-- A call of `aggregate` keeps the account, with the stat if it is accepted. -/
theorem aggregate_accounted {stat : Stat V}
    (hregular : Admitted conf exiting stat → Regular env conf stat)
    (htakes : Takes handler f fits Out)
    (hholds : ∀ group s, holds group (f s) ↔ Merged conf.values group s) (hinv : a.Inv conf)
    (h : AccountedWith conf exiting now f fits Out holds accepted a ctx) :
    Post (fun rc a ctx => a.Inv conf ∧ ∃ out, Out ctx out ∧
        Accounts holds (if rc = .ok then accepted ++ [stat] else accepted) (out ++ a.stats.map f))
      (aggregate env conf handler exiting stat now a ctx) := by
  rcases h.1 with ⟨out, hout, hacc⟩
  refine aggregate_rule_inv (P := AccountedWith conf exiting now f fits Out holds accepted)
    hregular hinv ?_ ?_ ?_ ?_ ?_ ?_ ?_ ?_ ?_
  · exact ⟨out, hout, by rw [if_neg (by simp)]; exact hacc⟩
  · -- a counter joins the group of its record
    intro _ p hp htype hchanged
    refine ⟨out, hout, ?_⟩
    rw [if_pos rfl]
    exact accounts_merge hinv hchanged hholds hacc hp fun group ht hgroup =>
      hgroup.addCounter (ht.trans htype) htype
  · -- a value joins the group of its record
    intro _ p hp htype hroom hchanged
    refine ⟨out, hout, ?_⟩
    rw [if_pos rfl]
    exact accounts_merge hinv hchanged hholds hacc hp fun group ht hgroup =>
      hgroup.appendValue (fun hc => htype (ht.symm.trans hc)) ht.symm hroom
  · -- a retired record stays queued with what it holds
    intro _ p _ _ _ hchanged
    have hstats : (a.retire env p).stats = a.stats :=
      hchanged.map (g := fun _ r => r.stat) fun _ _ => rfl
    constructor
    · exact ⟨out, hout, by rw [hstats]; exact hacc⟩
    · exact hchanged.forall (P := fun r => Expired conf exiting now r → fits r.stat)
        (fun hr => hr) h.2
  · intro _ _
    exact h
  · intro a ctx p rest _ h hqueue hexpired
    exact h.dropHead htakes hqueue hexpired
  · intro a ctx h
    exact h.null htakes
  · rintro rc a ctx hrc ⟨⟨out, hout, hacc⟩, -⟩
    exact ⟨out, hout, by rw [if_neg hrc]; exact hacc⟩
  · -- a new record holds its stat alone
    rintro a ctx p alloc r hadm hinv ⟨⟨out, hout, hacc⟩, -⟩ hr hsized hp
    refine ⟨out, hout, ?_⟩
    obtain ⟨ev, hev⟩ := aggregateTimer_eq conf now (a.insert env alloc p r)
    rw [if_pos rfl, hev]
    exact accounts_insert hinv hholds hacc hadm hr hsized hp

end Account

/-! ## The account of a run -/

section Run

/-- The recording handler takes every stat. -/
theorem recording_takes (handler : Handler V σ) :
    Takes (recording handler) id (fun _ => True) fun ctx out => ctx.2 = out where
  some := by
    rintro stat ctx out - rfl
    rfl
  none := by
    rintro ctx out rfl
    exact List.append_nil _

variable [Inhabited V] [Add V] {env : Env V} {conf : AggregateConf}

/-- The records of a run, handed over or queued, account for the accepted stats. -/
def History.Accounted (conf : AggregateConf) (h : History V σ) : Prop :=
  h.agg.Inv conf ∧ Accounts (Merged conf.values) h.accepted (h.handed ++ h.agg.stats)

theorem History.init_accounted (env : Env V) (conf : AggregateConf) (start size : Nat) (ctx : σ) :
    (History.init env start size ctx).Accounted conf :=
  ⟨aggregateInit_inv env conf start size, accounts_nil⟩

theorem History.step_accounted {handler : Handler V σ} (h : History V σ) (call : Call V)
    (hcall : RegularCall env conf call) (hacc : h.Accounted conf) :
    (h.step env conf handler call).Accounted conf := by
  rcases hacc with ⟨hinv, hacc⟩
  have hwith : ∀ exiting now, AccountedWith conf exiting now id (fun _ => True)
      (fun ctx out => ctx.2 = out) (Merged conf.values) h.accepted h.agg (h.ctx, h.handed) :=
    fun exiting now => ⟨⟨h.handed, rfl, by simpa using hacc⟩, fun _ _ _ => trivial⟩
  cases call with
  | aggregate exiting stat now =>
      have hpost := aggregate_accounted hcall (recording_takes handler) (fun _ _ => Iff.rfl) hinv
        (hwith exiting now)
      rcases hpost with ⟨hinv', out, hout, hacc'⟩
      rw [← hout, List.map_id] at hacc'
      exact ⟨hinv', hacc'⟩
  | process exiting now =>
      have hpost := aggregateProcess_accounted env (recording_takes handler) hinv
        (hwith exiting now)
      rcases hpost with ⟨hinv', ⟨out, hout, hacc'⟩, -⟩
      rw [← hout, List.map_id] at hacc'
      exact ⟨hinv', hacc'⟩

theorem History.run_accounted (handler : Handler V σ) (start size : Nat) (ctx : σ)
    {calls : List (Call V)} (hcalls : ∀ call ∈ calls, RegularCall env conf call) :
    (History.run env conf handler start size ctx calls).Accounted conf :=
  Run.exec_invariant_of_meets History.step_accounted
    (History.init_accounted env conf start size ctx)
    (Run.meets_of_forall (fun call hmem _ => hcalls call hmem) _)

end Run

/-- With exact addition, every accepted stat is in exactly one record, queued or
handed over: a counter record holds the sum of its stats, and any other record
their values in order, at most `values` of them. -/
theorem aggregate_conserves [Inhabited V] [AddMonoid V] (env : Env V) (conf : AggregateConf)
    (handler : Handler V σ) (start size : Nat) (ctx : σ) {calls : List (Call V)}
    (hcalls : ∀ call ∈ calls, RegularCall env conf call) :
    Accounts (MergedExactly conf.values)
      (History.run env conf handler start size ctx calls).accepted
      ((History.run env conf handler start size ctx calls).handed ++
        (History.run env conf handler start size ctx calls).agg.stats) := by
  apply (History.run_accounted handler start size ctx hcalls).2.imp
  intro group stat h
  constructor
  · exact h
  · intro htype
    rw [h.counter htype, counterSum_eq_sum h.ne_nil]

/-- Two counters merged, a value handed over by a handler that refuses it, and a
stat declined at the exit. -/
def sampleCalls : List (Call Nat) :=
  [.aggregate false ⟨.value, [118], [], [7]⟩ 0, .aggregate false ⟨.counter, [109], [], [1]⟩ 600,
    .aggregate false ⟨.counter, [109], [], [2]⟩ 700, .process false 1200,
    .aggregate true ⟨.counter, [109], [], [4]⟩ 1300]

theorem aggregate_conserves_sample :
    Accounts (MergedExactly 2)
      (History.run (sampleEnv Nat) ⟨1000, 2⟩ (fun _ ctx => (.error, ctx)) 0 4096 ()
        sampleCalls).accepted
      ((History.run (sampleEnv Nat) ⟨1000, 2⟩ (fun _ ctx => (.error, ctx)) 0 4096 ()
          sampleCalls).handed ++
        (History.run (sampleEnv Nat) ⟨1000, 2⟩ (fun _ ctx => (.error, ctx)) 0 4096 ()
          sampleCalls).agg.stats) :=
  aggregate_conserves (sampleEnv Nat) ⟨1000, 2⟩ (fun _ ctx => (.error, ctx)) 0 4096 ()
    (by decide +kernel)

/-- A number of values with which the size wraps: eight times the number of further slots
is 0 in a `size_t`, so every record without keys gets a block of 664 bytes. -/
def wrappingValues : Nat := 2 ^ 61 + 1

/-- Two values of the metric "a" and one of the metric "b". -/
def wrappedCalls : List (Call Nat) :=
  [.aggregate false ⟨.unique, [97], [], [1]⟩ 0, .aggregate false ⟨.unique, [97], [], [2]⟩ 0,
    .aggregate false ⟨.unique, [98], [], [3]⟩ 0]

/-- What they lead to in an arena of 4096 bytes. -/
def wrappedHistory : History Nat Unit :=
  History.run (wordEnv id id) ⟨1000, wrappingValues⟩ (fun _ ctx => (.ok, ctx)) 0 4096 ()
    wrappedCalls

/-- All three are accepted, and no hash is 0. The second value of "a" lies behind its block,
where the record of "b" begins: what is left of it is the key of that record. -/
theorem wrapped_not_conserves :
    (∀ s ∈ wrappedHistory.accepted, aggregateHash Crc32.standard s ≠ 0) ∧
      ¬ Accounts (MergedExactly wrappingValues) wrappedHistory.accepted
        (wrappedHistory.handed ++ wrappedHistory.agg.stats) := by
  refine ⟨by decide +kernel, ?_⟩
  intro h
  have hrecord : (⟨.unique, [97], [], [1, 1908338681]⟩ : Stat Nat) ∈
      wrappedHistory.handed ++ wrappedHistory.agg.stats := by
    decide +kernel
  obtain ⟨group, hholds, hgroup⟩ := h.exists_group hrecord
  have hvalues := (hholds.1.other (by decide)).1
  -- the key would have to be the value of an accepted stat
  have hkey : 1908338681 ∈ group.map Stat.value0 := by
    rw [← hvalues]
    decide
  obtain ⟨s, hs, hvalue⟩ := List.mem_map.mp hkey
  have haccepted : ∀ s ∈ wrappedHistory.accepted, s.value0 ≠ 1908338681 := by
    decide +kernel
  exact haccepted s (hgroup.subset hs) hvalue

end StatsHouse
