import StatsHouse.Merge

/-! # Series in the aggregator

A series is a type, a name and a list of key pairs. A lookup compares only a
type, a checksum of the undelimited bytes of the names and values, and a size,
from which the total length of the values follows.

* `aggregate_keeps_series`: a stat is merged into a record of its own series, in
  every run where no open record agrees with a stat in the bytes and the length
  without being of its series, no stat hashes to 0 and no size wraps.
* `ambiguous_not_keepsSeries`: two stats of different series that agree in both.
-/

namespace StatsHouse

open Ledger

variable {V σ : Type}

/-! ## Merging -/

/-- A stat merged into the record at `p`. -/
def Aggregate.merge [Inhabited V] [Add V] (env : Env V) (a : Aggregate V) (p : Nat)
    (stat : Stat V) : Aggregate V :=
  if stat.type = .counter then a.addCounter env p stat.value0 else a.appendValue env p stat.value0

/-- A call of `ngx_statshouse_aggregate` merges the stat into the record at `p`. -/
def MergesInto (env : Env V) (conf : AggregateConf) (a : Aggregate V) (exiting : Bool)
    (stat : Stat V) (p : Nat) : Prop :=
  Admitted conf exiting stat ∧ Found env conf a stat p ∧
    (stat.type = .counter ∨ (a.mem p).stat.values.length < conf.values)

theorem aggregate_of_mergesInto [Inhabited V] [Add V] {env : Env V} {conf : AggregateConf}
    {a : Aggregate V} {exiting : Bool} {stat : Stat V} {p : Nat}
    (h : MergesInto env conf a exiting stat p) (handler : Handler V σ) (now : Nat) (ctx : σ) :
    aggregate env conf handler exiting stat now a ctx = (.ok, a.merge env p stat, ctx) := by
  rcases h with ⟨⟨hvalues, hexiting⟩, hfound, hroom⟩
  rw [Found] at hfound
  have hdecline : ¬ (stat.type ≠ .counter ∧ conf.values = 0) := by
    rintro ⟨htype, h0⟩
    exact hvalues.elim htype fun hne => hne h0
  unfold aggregate
  rw [if_neg hdecline, hexiting]
  simp only [hfound, Bool.false_eq_true, if_false]
  by_cases htype : stat.type = .counter
  · simp only [Aggregate.merge, if_pos htype]
  · simp only [Aggregate.merge, if_neg htype, if_pos (hroom.resolve_left htype)]

/-! ## Keys and sizes of records -/

/-- Until it is retired, the key of a record is the hash of its stat. -/
def Keyed (env : Env V) (r : AStat V) : Prop :=
  r.retired = false → r.key = aggregateHash env.crc r.stat

section Keyed

variable {env : Env V} {conf : AggregateConf} {a : Aggregate V} {p : Nat}

theorem keyed_insert [Inhabited V] {stat : Stat V} {now : Nat} {alloc : Alloc} {r : AStat V}
    (hinv : a.Inv conf)
    (hr : r = newRecord stat (aggregateHash env.crc stat) (aggregateSize conf.values stat) now)
    (hsized : Sized conf r) (hp : aggregateAlloc a.alloc r.size = some (p, alloc))
    (h : ∀ q ∈ a.queue, Keyed env (a.mem q)) :
    ∀ q ∈ (a.insert env alloc p r).queue, Keyed env ((a.insert env alloc p r).mem q) :=
  hinv.forall_insert hsized hp h fun _ => by rw [hr]; rfl

variable [Inhabited V] [Add V]

theorem History.step_keyed {handler : Handler V σ} (h : History V σ) (call : Call V)
    (hcall : RegularCall env conf call) (hinv : h.agg.Inv conf)
    (hkeyed : ∀ p ∈ h.agg.queue, Keyed env (h.agg.mem p)) :
    ∀ p ∈ (h.step env conf handler call).agg.queue,
      Keyed env ((h.step env conf handler call).agg.mem p) := by
  have hdrop : ∀ (a : Aggregate V) p rest, a.queue = p :: rest →
      (∀ q ∈ a.queue, Keyed env (a.mem q)) →
      ∀ q ∈ (a.dropHead env p rest).queue, Keyed env ((a.dropHead env p rest).mem q) := by
    intro a p rest hqueue hkeyed q hq
    exact hkeyed q (by rw [hqueue]; exact List.mem_cons_of_mem _ hq)
  cases call with
  | aggregate exiting stat now =>
      refine (aggregate_rule_inv (P := fun a _ => ∀ p ∈ a.queue, Keyed env (a.mem p))
        (Q := fun _ a _ => ∀ p ∈ a.queue, Keyed env (a.mem p)) hcall hinv hkeyed
        ?_ ?_ ?_ ?_ ?_ ?_ ?_ ?_).2
      · intro _ p _ _ hchanged
        exact hchanged.forall (P := Keyed env) (fun hr => hr) hkeyed
      · intro _ p _ _ _ hchanged
        exact hchanged.forall (P := Keyed env) (fun hr => hr) hkeyed
      · -- retiring clears the key, and nothing is said of a retired record's
        intro _ p _ _ _ hchanged
        exact hchanged.forall (P := Keyed env) (fun _ hret => Bool.noConfusion hret) hkeyed
      · intro _ _
        exact hkeyed
      · intro a ctx p rest _ hkeyed hqueue _
        exact hdrop a p rest hqueue hkeyed
      · intro a ctx hkeyed
        exact hkeyed
      · intro rc a ctx _ hkeyed
        exact hkeyed
      · intro a ctx p alloc r _ hinv hkeyed hr hsized hp
        obtain ⟨ev, hev⟩ := aggregateTimer_eq conf now (a.insert env alloc p r)
        rw [hev]
        exact keyed_insert hinv hr hsized hp hkeyed
  | process exiting now =>
      refine (aggregateProcess_rule_inv (P := fun a _ => ∀ p ∈ a.queue, Keyed env (a.mem p))
        ?_ ?_ hinv hkeyed).2
      · intro a ctx p rest _ hkeyed hqueue _
        exact hdrop a p rest hqueue hkeyed
      · intro a ctx hkeyed
        exact hkeyed

end Keyed

/-! ## Whose record it is -/

/-- A stat is merged only into a record that was created for an accepted stat of
the same series. -/
def KeepsSeries (env : Env V) (conf : AggregateConf) (h : History V σ) : Call V → Prop
  | .aggregate exiting stat _ => ∀ p, MergesInto env conf h.agg exiting stat p →
    ∃ s ∈ h.accepted, SameSeries s (h.agg.mem p).stat ∧ SameSeries s stat
  | .process _ _ => True

/-- The call hashes no stat to 0, the size does not wrap, and an open record that agrees
with the stat in the type, the bytes that are hashed and the total length of the key
values is of its series. -/
def Unambiguous (env : Env V) (conf : AggregateConf) (h : History V σ) (call : Call V) : Prop :=
  RegularCall env conf call ∧
    match call with
    | .aggregate _ stat _ => ∀ p ∈ h.agg.rbtree.toList, (h.agg.mem p).stat.type = stat.type →
      hashBytes (h.agg.mem p).stat = hashBytes stat →
      valuesLength (h.agg.mem p).stat = valuesLength stat → SameSeries (h.agg.mem p).stat stat
    | .process _ _ => True

instance (env : Env V) (conf : AggregateConf) (h : History V σ) (call : Call V) :
    Decidable (Unambiguous env conf h call) :=
  match call with
  | .aggregate _ _ _ => inferInstanceAs (Decidable (_ ∧ ∀ p ∈ _, _))
  | .process _ _ => inferInstanceAs (Decidable (_ ∧ True))

/-- The checksum tells the byte strings of these stats apart. -/
def CollisionFree (crc : Crc32) (stats : List (Stat V)) : Prop :=
  ∀ s ∈ stats, ∀ t ∈ stats, crc.checksum (hashBytes s) = crc.checksum (hashBytes t) →
    hashBytes s = hashBytes t

instance (crc : Crc32) (stats : List (Stat V)) : Decidable (CollisionFree crc stats) :=
  inferInstanceAs (Decidable (∀ s ∈ stats, _))

/-- The stats that the calls of a run pass. -/
def statsOf (calls : List (Call V)) : List (Stat V) :=
  calls.filterMap fun
    | .aggregate _ stat _ => some stat
    | .process _ _ => none

/-- The stats accepted are among those passed. -/
theorem History.step_accepted [Inhabited V] [Add V] {env : Env V} {conf : AggregateConf}
    {handler : Handler V σ} (h : History V σ) {calls : List (Call V)} {call : Call V}
    (hcall : call ∈ calls) (hacc : ∀ s ∈ h.accepted, s ∈ statsOf calls) :
    ∀ s ∈ (h.step env conf handler call).accepted, s ∈ statsOf calls := by
  cases call with
  | aggregate exiting stat now =>
      intro s hs
      simp only [History.step] at hs
      split at hs
      · rcases List.mem_append.mp hs with hs | hs
        · exact hacc s hs
        · rw [List.mem_singleton.mp hs]
          exact List.mem_filterMap.mpr ⟨_, hcall, rfl⟩
      · exact hacc s hs
  | process exiting now => exact hacc

/-- The records of a run over `calls` hold accepted stats under their own keys. -/
structure History.Traced (env : Env V) (conf : AggregateConf) [Inhabited V] [Add V]
    (calls : List (Call V)) (h : History V σ) : Prop where
  accounted : h.Accounted conf
  accepted : ∀ s ∈ h.accepted, s ∈ statsOf calls
  keyed : ∀ p ∈ h.agg.queue, Keyed env (h.agg.mem p)

section Traced

variable [Inhabited V] [Add V] {env : Env V} {conf : AggregateConf} {calls : List (Call V)}

theorem History.init_traced (env : Env V) (start size : Nat) (ctx : σ) :
    (History.init env start size ctx).Traced env conf calls :=
  ⟨History.init_accounted env conf start size ctx, by simp [History.init],
    by simp [History.init, aggregateInit]⟩

theorem History.step_traced {handler : Handler V σ} (h : History V σ) (call : Call V)
    (hok : Unambiguous env conf h call ∧ call ∈ calls) (ht : h.Traced env conf calls) :
    (h.step env conf handler call).Traced env conf calls :=
  ⟨h.step_accounted call hok.1.1 ht.accounted, h.step_accepted hok.2 ht.accepted,
    h.step_keyed call hok.1.1 ht.accounted.1 ht.keyed⟩

/-- A record into which an unambiguous stat is merged was created for a stat of
the same series. -/
theorem History.Traced.keepsSeries {h : History V σ} {call : Call V}
    (hcrc : CollisionFree env.crc (statsOf calls))
    (hok : Unambiguous env conf h call ∧ call ∈ calls) (ht : h.Traced env conf calls) :
    KeepsSeries env conf h call := by
  cases call with
  | process exiting now => trivial
  | aggregate exiting stat now =>
      rintro p ⟨hadm, hfound, -⟩
      rcases of_aggregateLookup hfound with ⟨htree, hkey, hsize, htype⟩
      rcases ht.accounted.1.of_found hfound with ⟨hqueue, hopen⟩
      have hsized := (ht.accounted.1.sized p hqueue).size
      have hkeyed := ht.keyed p hqueue
      -- the stat the record was created for
      have hrecord : (h.agg.mem p).stat ∈ h.handed ++ h.agg.stats :=
        List.mem_append_right _ (List.mem_map.mpr ⟨p, hqueue, rfl⟩)
      rcases ht.accounted.2.exists_group hrecord with ⟨group, hmerged, hsub⟩
      rcases hmerged.created with ⟨s, rest, rfl, hseries⟩
      have hs : s ∈ h.accepted := hsub.subset (by simp)
      -- the same checksum, so the same bytes, and the same size, so the same length
      have hdigest : env.crc.checksum (hashBytes s) = env.crc.checksum (hashBytes stat) := by
        rw [hseries.hashBytes_eq, ← aggregateHash_eq, ← aggregateHash_eq, ← hkeyed hopen, hkey]
      have hstat : stat ∈ statsOf calls := List.mem_filterMap.mpr ⟨_, hok.2, rfl⟩
      have hbytes : hashBytes (h.agg.mem p).stat = hashBytes stat :=
        hseries.hashBytes_eq.symm.trans (hcrc s (ht.accepted s hs) stat hstat hdigest)
      have hlength : valuesLength (h.agg.mem p).stat = valuesLength stat :=
        valuesLength_eq_of_recordSize htype (hsized.symm.trans
          (hsize.trans (aggregateSize_eq_recordSize (hok.1.1 hadm).2)))
      exact ⟨s, hs, hseries, hseries.trans (hok.1.2 p htree htype hbytes hlength)⟩

end Traced

/-- If CRC-32 tells the byte strings of a run apart, and no call of the run meets
an open record that is ambiguous with its stat, hashes its stat to 0 or wraps its
size, then aggregation mixes no two series. -/
theorem aggregate_keeps_series [Inhabited V] [Add V] {env : Env V} {conf : AggregateConf}
    {handler : Handler V σ} {start size : Nat} {ctx : σ} {calls : List (Call V)}
    (hcrc : CollisionFree env.crc (statsOf calls))
    (hcalls : Run.Meets (History.step env conf handler) (Unambiguous env conf)
      (History.init env start size ctx) calls) :
    Run.Meets (History.step env conf handler) (KeepsSeries env conf)
      (History.init env start size ctx) calls :=
  Run.meets_of_invariant History.step_traced
    (fun _ _ hok ht => History.Traced.keepsSeries hcrc hok ht)
    (History.init_traced env start size ctx) (hcalls.and_forall fun _ hcall => hcall)

theorem aggregate_keeps_series_two :
    Run.Meets (History.step (sampleEnv Nat) ⟨1000, 24⟩ fun _ ctx => (.ok, ctx))
      (KeepsSeries (sampleEnv Nat) ⟨1000, 24⟩) (History.init (sampleEnv Nat) 0 4096 ())
      [.aggregate false ⟨.value, [109], [⟨[49], [97]⟩], [1]⟩ 0,
        .aggregate false ⟨.value, [109], [⟨[49], [97]⟩], [2]⟩ 10] :=
  aggregate_keeps_series (by decide +kernel) (by decide +kernel)

/-- Counters of the metric "m" with the keys "1" = "a2b", "2" = "c", and with the
keys "1" = "a", "2" = "b2c": the bytes "m1a2b2c" and four bytes of values. -/
def ambiguousCalls : List (Call Nat) :=
  [.aggregate false ⟨.counter, [109], [⟨[49], [97, 50, 98]⟩, ⟨[50], [99]⟩], [1]⟩ 0,
    .aggregate false ⟨.counter, [109], [⟨[49], [97]⟩, ⟨[50], [98, 50, 99]⟩], [1]⟩ 0]

/-- The second is merged into the record of the first. -/
theorem ambiguous_not_keepsSeries :
    CollisionFree Crc32.standard (statsOf ambiguousCalls) ∧
      ¬ Run.Meets (History.step (sampleEnv Nat) ⟨1000, 24⟩ fun _ ctx => (.ok, ctx))
        (KeepsSeries (sampleEnv Nat) ⟨1000, 24⟩) (History.init (sampleEnv Nat) 0 4096 ())
        ambiguousCalls := by
  refine ⟨by decide +kernel, ?_⟩
  rintro ⟨-, hsecond, -⟩
  rcases hsecond 0 ⟨by decide, by unfold Found; decide +kernel, Or.inl rfl⟩ with
    ⟨s, -, hrecord, hstat⟩
  have hkeys := hrecord.2.2.symm.trans hstat.2.2
  revert hkeys
  decide +kernel

end StatsHouse
