import StatsHouse.Lib.Run
import StatsHouse.Live

/-! # Runs of the aggregator

A run is a list of calls of `ngx_statshouse_aggregate` and
`ngx_statshouse_aggregate_process`, with any stats, clock values, exiting flags
and results of the handler. The history of a run is the aggregator with what
went in, the accepted stats, and what came out, the stats handed over.

* `rbtree_live`: the tree refers to live records only, in every run that hashes
  no stat to 0 and in which no size wraps. A stat that hashes to 0 leaves its node
  in the tree for good.
-/

namespace StatsHouse

variable {V σ : Type}

/-- A call of the aggregator. `exiting` is `ngx_terminate || ngx_exiting` at the
time of the call. -/
inductive Call (V : Type) where
  | aggregate (exiting : Bool) (stat : Stat V) (now : Nat)
  | process (exiting : Bool) (now : Nat)
deriving DecidableEq, Repr

/-- The clock of a call. -/
def Call.now : Call V → Nat
  | .aggregate _ _ now => now
  | .process _ now => now

/-- The aggregator, the state of its handler, the stats the handler was called
with and the stats `ngx_statshouse_aggregate` returned `NGX_OK` for. -/
structure History (V σ : Type) where
  agg : Aggregate V
  ctx : σ
  handed : List (Stat V)
  accepted : List (Stat V)

/-- The handler, with a record of the stats it is called with. -/
def recording (handler : Handler V σ) : Handler V (σ × List (Stat V)) := fun stat ctx =>
  let res := handler stat ctx.1
  (res.1, res.2, ctx.2 ++ stat.toList)

def History.init (env : Env V) (start size : Nat) (ctx : σ) : History V σ :=
  { agg := aggregateInit env start size, ctx := ctx, handed := [], accepted := [] }

def History.step [Inhabited V] [Add V] (env : Env V) (conf : AggregateConf)
    (handler : Handler V σ) (h : History V σ) : Call V → History V σ
  | .aggregate exiting stat now =>
    let res := aggregate env conf (recording handler) exiting stat now h.agg (h.ctx, h.handed)
    { agg := res.2.1
      ctx := res.2.2.1
      handed := res.2.2.2
      accepted := if res.1 = .ok then h.accepted ++ [stat] else h.accepted }
  | .process exiting now =>
    let res := aggregateProcess env conf (recording handler) exiting now h.agg (h.ctx, h.handed)
    { h with agg := res.2.1, ctx := res.2.2.1, handed := res.2.2.2 }

/-- The state a run of calls leads to from an empty arena. -/
def History.run [Inhabited V] [Add V] (env : Env V) (conf : AggregateConf)
    (handler : Handler V σ) (start size : Nat) (ctx : σ) (calls : List (Call V)) : History V σ :=
  Run.exec (History.step env conf handler) (History.init env start size ctx) calls

/-- If the call hashes its stat, the hash is not 0 and the size does not wrap. -/
def RegularCall (env : Env V) (conf : AggregateConf) : Call V → Prop
  | .aggregate exiting stat _ => Admitted conf exiting stat → Regular env conf stat
  | .process _ _ => True

instance (env : Env V) (conf : AggregateConf) (call : Call V) :
    Decidable (RegularCall env conf call) :=
  match call with
  | .aggregate _ _ _ => inferInstanceAs (Decidable (_ → _))
  | .process _ _ => inferInstanceAs (Decidable True)

/-- What the small steps at the time of a call keep, the call keeps. -/
theorem Kept.step [Inhabited V] [Add V] {env : Env V} {conf : AggregateConf}
    {handler : Handler V σ} {I : Aggregate V → Prop} {h : History V σ} {call : Call V}
    (hkept : Kept env conf call.now I) (hcall : RegularCall env conf call)
    (hinv : h.agg.Inv conf) (hagg : I h.agg) : I (h.step env conf handler call).agg := by
  cases call with
  | aggregate exiting stat now => exact hkept.aggregate hcall hinv hagg _
  | process exiting now => exact hkept.process hagg _

/-! ## The tree and the queue -/

/-- What the tree is for: its nodes are the queued records that are not retired,
each once, so a lookup returns only these. -/
structure Aggregate.RefersToLive (a : Aggregate V) : Prop where
  nodup : a.rbtree.toList.Nodup
  mem_iff : ∀ p, p ∈ a.rbtree.toList ↔ p ∈ a.queue ∧ (a.mem p).retired = false
  lookup : ∀ hash size type p, aggregateLookup a.mem hash size type a.rbtree = some p →
    p ∈ a.queue ∧ (a.mem p).retired = false

theorem Aggregate.Inv.refersToLive {conf : AggregateConf} {a : Aggregate V} (h : a.Inv conf) :
    a.RefersToLive := by
  refine ⟨h.indexed.nodup, h.indexed.mem_iff, ?_⟩
  intro hash size type p hp
  exact (h.indexed.mem_iff p).mp (of_aggregateLookup hp).1

section Inv

variable [Inhabited V] [Add V] {env : Env V} {conf : AggregateConf} {handler : Handler V σ}

theorem History.step_inv (h : History V σ) (call : Call V) (hcall : RegularCall env conf call)
    (hinv : h.agg.Inv conf) : (h.step env conf handler call).agg.Inv conf := by
  cases call with
  | aggregate exiting stat now => exact hinv.aggregate hcall _
  | process exiting now => exact hinv.process _

theorem History.run_inv (start size : Nat) (ctx : σ) {calls : List (Call V)}
    (hcalls : ∀ call ∈ calls, RegularCall env conf call) :
    (History.run env conf handler start size ctx calls).agg.Inv conf :=
  Run.exec_invariant_of_meets History.step_inv (aggregateInit_inv env conf start size)
    (Run.meets_of_forall (fun call hmem _ => hcalls call hmem) _)

/-- In a run that hashes no stat to 0, and in which no size wraps, the tree refers to
live records only. -/
theorem rbtree_live (start size : Nat) (ctx : σ) {calls : List (Call V)}
    (hcalls : ∀ call ∈ calls, RegularCall env conf call) :
    (History.run env conf handler start size ctx calls).agg.RefersToLive :=
  (History.run_inv start size ctx hcalls).refersToLive

end Inv

/-- A stat that does not hash to 0 is accepted and handed over. -/
theorem rbtree_live_one :
    (History.run (sampleEnv Nat) ⟨1000, 24⟩ (fun _ ctx => (.ok, ctx)) 0 4096 ()
      [.aggregate false ⟨.counter, [109], [], [1]⟩ 0, .process false 1000]).agg.RefersToLive :=
  rbtree_live 0 4096 () (by decide +kernel)

/-- A counter of the metric "m" with a key value that makes its CRC-32 0. -/
def zeroDigestStat : Stat Nat :=
  { type := .counter
    name := [109]
    keys := [⟨[49], [101, 97, 107, 101, 101, 97, 106, 106, 102]⟩]
    values := [1] }

/-- After it is accepted and handed over the queue is empty, and a lookup still
returns its freed block. -/
theorem zeroDigest_not_refersToLive :
    ¬ (History.run (sampleEnv Nat) ⟨1000, 24⟩ (fun _ ctx => (.ok, ctx)) 0 4096 ()
      [.aggregate false zeroDigestStat 0, .process false 1000]).agg.RefersToLive := by
  intro h
  have hqueue : (History.run (sampleEnv Nat) ⟨1000, 24⟩ (fun _ ctx => (.ok, ctx)) 0 4096 ()
      [.aggregate false zeroDigestStat 0, .process false 1000]).agg.queue = [] := by
    decide +kernel
  -- the block at 0, the first of the arena, was freed with the record
  have hlookup := h.lookup 0 (aggregateSize 24 zeroDigestStat) .counter 0 (by decide +kernel)
  rw [hqueue] at hlookup
  exact List.not_mem_nil hlookup.1

end StatsHouse
