import StatsHouse.EndToEnd
import StatsHouse.Inherit
import StatsHouse.Rows
import StatsHouse.ServerSlot

/-! # Requests

`ngx_http_statshouse_send` and `ngx_stream_statshouse_send` go through the metrics of a
context, compile each into the array of the server and send what is there. A worker
process does that for all its requests, with one array for each server and one `last` for
each configuration, and between them nginx makes the callbacks of the servers.

`Traffic` is what the process is for: it has no arrays and no servers, only what each
server is called with.

* `process_refines`: a process with usable servers and strings comes to no fault, it sends and
  calls its servers as the traffic does, and each server is as after a run of its own, on the
  calls that are meant for it.
-/

namespace StatsHouse

open Outcome

variable {C P ε : Type}

/-! ## Configuration -/

/-- The fields of `ngx_statshouse_conf_t` that the handlers read themselves. -/
structure MetricConf (C : Type) extends Conf C where
  phase : Str
  sample : Nat

/-- The configuration of a worker: its contexts, the servers of `smcf->servers` with their
arrays of `splitsMax` stats, and what they run on. -/
structure WorkerConf (C P ε : Type) where
  env : Env Value
  num : Numbers Value
  sp : Splitter P ε
  kind : Kind
  contexts : Contexts
  locs : Nat → LocConf
  metric : Metric → MetricConf C
  server : Nat → ServerConf
  splitsMax : Nat → Nat
  net : Nat → Net
  arena : Nat → Nat

/-! ## Calls -/

/-- A call of `ngx_*_statshouse_send`, by the handler of the log phase or by another module
with a phase: the clocks, the variables, `ngx_random` for the metric at an index, and what
a compilation that returns early leaves at a place of the array. -/
structure Request (C : Type) where
  ctx : Nat
  phase : Option Str
  time : Nat
  now : Nat
  exiting : Bool
  complex : C → Option Str
  random : Nat → Nat
  leaves : Nat → Nat → Stat Value

/-- What a worker does. The callbacks are those of the events and timers of a server. -/
inductive WorkerEvent (C : Type) where
  | request (req : Request C)
  | sendStat (ctx now : Nat) (exiting : Bool) (stat : Stat Value)
  | flushTimer (srv now : Nat) (exiting : Bool)
  | aggregateTimer (srv now : Nat) (exiting : Bool)
  | aggregatePosted (srv now : Nat) (exiting : Bool)
  | readHandler (srv now : Nat) (exiting : Bool)

/-- A worker process: `conf->last` of each configuration, and of each server the array and
the rest. With its history: the metrics that had stats with the time of the request, and the
calls of each server, in order. -/
structure Process where
  last : Object → Nat
  splits : Nat → List (Stat Value)
  systems : Nat → System
  sent : List (Metric × Nat)
  calls : Nat → List Event

/-- What a process does not survive: a fault or an access outside the array in a
compilation, or a pointer to a server that is not set. -/
inductive ProcessFault (ε : Type) where
  | halt (halt : Halt ε)
  | server

/-! ## The handlers -/

/-- `ngx_strncmp` of two strings of one length is 0. It does not look behind a null byte. -/
def strncmpEq : Str → Str → Bool
  | a :: as, b :: bs => a = b && (a = 0 || strncmpEq as bs)
  | _, _ => true

/-- The two `continue` before the compilation. -/
def MetricConf.passedOver (conf : MetricConf C) (phase : Option Str) (random : Nat) : Bool :=
  (match phase with
    | none => conf.phase.length ≠ 0
    | some phase => phase.length ≠ conf.phase.length || !strncmpEq phase conf.phase) ||
  -- the remainder may be `sample` itself
  (0 < conf.sample && conf.sample < random % 100)

section Step

variable [Add Value] (wc : WorkerConf C P ε)

/-- A call of a server. -/
def Process.call (p : Process) (srv : Nat) (event : Event) : Process :=
  { p with
    systems := Function.update p.systems srv
      ((p.systems srv).step wc.env (wc.net srv) (wc.server srv) event)
    calls := Function.update p.calls srv (p.calls srv ++ [event]) }

/-- `ngx_statshouse_send` of the first stats of the array. -/
def Process.sendStats (p : Process) (srv now : Nat) (exiting : Bool) (stats : List (Stat Value)) :
    Process :=
  stats.foldl (fun p stat => p.call wc srv ⟨now, exiting, .send stat⟩) p

/-- The body of the loop over the metrics. -/
def Process.sendMetric (req : Request C) (srv : Nat) (p : Process) (i : Nat) :
    Except (ProcessFault ε) Process :=
  match wc.contexts.object wc.kind req.ctx i with
  -- the loop does not go behind the end of `confs`
  | none => .ok p
  | some (object, metric) =>
    let conf := wc.metric metric
    if conf.passedOver req.phase (req.random i) then .ok p
    else
      let res := statCompile wc.num wc.sp conf.toConf req.complex (p.last object) req.time
        (wc.splitsMax srv) (p.splits srv)
      let last := Function.update p.last object res.1
      match res.2 with
      -- `continue`: the array may have been written to before the return
      | .error (.ret _) =>
        .ok { p with
          last := last
          splits := Function.update p.splits srv ((List.range (p.splits srv).length).map
            (req.leaves i)) }
      | .error halt => .error (.halt halt)
      | .ok (n, stats) =>
        let p := { p with
          last := last
          splits := Function.update p.splits srv stats
          sent := if n = 0 then p.sent else p.sent ++ [(metric, req.time)] }
        -- `stats[j]` for the `j` below `n`
        .ok (p.sendStats wc srv req.now req.exiting (stats.take n))

/-- The loop over the metrics, and the flush behind it. -/
def Process.sendMetrics (p : Process) (req : Request C) (srv : Nat) :
    Except (ProcessFault ε) Process := do
  let p ← (List.range (wc.contexts.metrics req.ctx).length).foldlM
    (Process.sendMetric wc req srv) p
  pure (p.call wc srv ⟨req.now, req.exiting, .flushAfterRequest⟩)

/-- `ngx_http_statshouse_send` and `ngx_stream_statshouse_send`. -/
def Process.send (p : Process) (req : Request C) : Except (ProcessFault ε) Process :=
  let loc := wc.locs req.ctx
  if loc.server = .null ∨ wc.contexts.confs req.ctx = none ∨ loc.enable = some false then .ok p
  else
    -- an unset server is a pointer that the merge has not replaced
    match loc.server with
    | .object srv => p.sendMetrics wc req srv
    | _ => throw .server

/-- `ngx_http_statshouse_send_stat` and `ngx_stream_statshouse_send_stat`. -/
def Process.sendStat (p : Process) (ctx now : Nat) (exiting : Bool) (stat : Stat Value) :
    Except (ProcessFault ε) Process :=
  let loc := wc.locs ctx
  if loc.server = .null ∨ loc.enable = some false then .ok p
  else
    match loc.server with
    | .object srv => .ok (p.call wc srv ⟨now, exiting, .send stat⟩)
    | _ => throw .server

def Process.step (p : Process) : WorkerEvent C → Except (ProcessFault ε) Process
  | .request req => p.send wc req
  | .sendStat ctx now exiting stat => p.sendStat wc ctx now exiting stat
  | .flushTimer srv now exiting => .ok (p.call wc srv ⟨now, exiting, .flushTimer⟩)
  | .aggregateTimer srv now exiting => .ok (p.call wc srv ⟨now, exiting, .aggregateTimer⟩)
  | .aggregatePosted srv now exiting => .ok (p.call wc srv ⟨now, exiting, .aggregatePosted⟩)
  | .readHandler srv now exiting => .ok (p.call wc srv ⟨now, exiting, .readHandler⟩)

/-- The stats that the array has room for which `ngx_statshouse_server_init` allocates: its
size is a `size_t`. -/
def splitsRoom (splitsMax : Nat) : Nat := sizeofStat * splitsMax % 2 ^ 64 / sizeofStat

/-- A worker before its first request: `ngx_statshouse_server_init` has zeroed the arrays. -/
def Process.init : Process :=
  { last := fun _ => 0
    splits := fun srv => List.replicate (splitsRoom (wc.splitsMax srv)) (Stat.init [] .counter)
    systems := fun srv => System.init wc.env (wc.server srv) (wc.arena srv)
    sent := []
    calls := fun _ => [] }

def Process.run (events : List (WorkerEvent C)) : Except (ProcessFault ε) Process :=
  events.foldlM (Process.step wc) (Process.init wc)

end Step

/-! ## Traffic -/

/-- What a process has done: `conf->last` of each configuration, the metrics that had stats
with the time of the request, and the calls of each server, in order. -/
structure Traffic where
  last : Object → Nat
  sent : List (Metric × Nat)
  calls : Nat → List Event

/-- What a request does before it flushes. -/
structure Batch where
  last : Object → Nat
  sent : List (Metric × Nat)
  stats : List (Stat Value)

section Traffic

variable (wc : WorkerConf C P ε)

/-- The metric at an index adds its stats, unless it is passed over. -/
def Request.addMetric (req : Request C) (srv : Nat) (b : Batch) (i : Nat) : Batch :=
  match wc.contexts.object wc.kind req.ctx i with
  | none => b
  | some (object, metric) =>
    let conf := wc.metric metric
    if conf.passedOver req.phase (req.random i) then b
    else
      let compiled := statCompiled wc.num wc.sp conf.toConf req.complex (b.last object) req.time
        (wc.splitsMax srv)
      { last := Function.update b.last object compiled.1
        sent := if compiled.2.isEmpty then b.sent else b.sent ++ [(metric, req.time)]
        stats := b.stats ++ compiled.2 }

/-- The calls with the stats of a request. -/
def Request.sends (req : Request C) (stats : List (Stat Value)) : List Event :=
  stats.map fun stat => ⟨req.now, req.exiting, .send stat⟩

/-- All metrics of the context. -/
def Request.batch (req : Request C) (srv : Nat) (last : Object → Nat) : Batch :=
  Run.exec (req.addMetric wc srv) ⟨last, [], []⟩
    (List.range (wc.contexts.metrics req.ctx).length)

/-- The server of a context, if it is switched on. -/
def WorkerConf.target (ctx : Nat) : Option Nat :=
  match (wc.locs ctx).server with
  | .object srv => if (wc.locs ctx).enable = some false then none else some srv
  | _ => none

def Traffic.take (t : Traffic) (b : Batch) : Traffic :=
  { t with last := b.last, sent := t.sent ++ b.sent }

def Traffic.add (t : Traffic) (srv : Nat) (calls : List Event) : Traffic :=
  { t with calls := Function.update t.calls srv (t.calls srv ++ calls) }

def Traffic.request (t : Traffic) (req : Request C) : Traffic :=
  match wc.target req.ctx with
  | none => t
  | some srv =>
    if wc.contexts.confs req.ctx = none then t
    else
      let b := req.batch wc srv t.last
      ((t.take b).add srv (req.sends b.stats)).add srv
        [⟨req.now, req.exiting, .flushAfterRequest⟩]

def Traffic.sendStat (t : Traffic) (ctx now : Nat) (exiting : Bool) (stat : Stat Value) : Traffic :=
  match wc.target ctx with
  | none => t
  | some srv => t.add srv [⟨now, exiting, .send stat⟩]

def Traffic.step (t : Traffic) : WorkerEvent C → Traffic
  | .request req => t.request wc req
  | .sendStat ctx now exiting stat => t.sendStat wc ctx now exiting stat
  | .flushTimer srv now exiting => t.add srv [⟨now, exiting, .flushTimer⟩]
  | .aggregateTimer srv now exiting => t.add srv [⟨now, exiting, .aggregateTimer⟩]
  | .aggregatePosted srv now exiting => t.add srv [⟨now, exiting, .aggregatePosted⟩]
  | .readHandler srv now exiting => t.add srv [⟨now, exiting, .readHandler⟩]

def Traffic.init : Traffic := { last := fun _ => 0, sent := [], calls := fun _ => [] }

/-- The traffic of a worker. -/
def Traffic.run (events : List (WorkerEvent C)) : Traffic :=
  Run.exec (Traffic.step wc) Traffic.init events

theorem Traffic.add_add (t : Traffic) (srv : Nat) (calls calls' : List Event) :
    (t.add srv calls).add srv calls' = t.add srv (calls ++ calls') := by
  simp [Traffic.add]

theorem Traffic.add_nil (t : Traffic) (srv : Nat) : t.add srv [] = t := by simp [Traffic.add]

theorem Traffic.add_calls (t : Traffic) (srv srv' : Nat) (calls : List Event) :
    (t.add srv calls).calls srv' = if srv' = srv then t.calls srv ++ calls else t.calls srv' :=
  Function.update_apply t.calls srv _ srv'

/-- A server with an array that is not empty and whose size does not wrap. -/
def WorkerConf.HasArray (srv : Nat) : Prop :=
  0 < wc.splitsMax srv ∧ sizeofStat * wc.splitsMax srv < 2 ^ 64

/-- A metric whose strings the splitter goes through, and whose stats the server can hold. -/
structure MetricFits (env : Env Value) (num : Numbers Value) (sp : Splitter P ε)
    (server : ServerConf) (max : Nat) (conf : Conf C) (complex : C → Option Str) : Prop where
  splits : SplitsTotal sp conf complex
  holds : ∀ stat ∈ metricRows num sp conf complex max, server.Holds env stat

/-- A metric of a context, for a request. -/
def WorkerConf.UsableMetric (srv : Nat) (req : Request C) (metric : Metric) : Prop :=
  MetricFits wc.env wc.num wc.sp (wc.server srv) (wc.splitsMax srv) (wc.metric metric).toConf
    req.complex

/-- A context with a server that is set, and where it is switched on, one with an array, that
can hold the stats of the event. -/
def WorkerConf.Usable (event : WorkerEvent C) : Prop :=
  match event with
  | .request req => (wc.locs req.ctx).server ≠ .unset ∧
      ∀ srv, wc.target req.ctx = some srv → wc.HasArray srv ∧
        ∀ metric ∈ wc.contexts.metrics req.ctx, wc.UsableMetric srv req metric
  | .sendStat ctx _ _ stat => (wc.locs ctx).server ≠ .unset ∧
      ∀ srv, wc.target ctx = some srv → (wc.server srv).Holds wc.env stat
  | _ => True

end Traffic

/-! ## Refinement -/

/-- What a handler finds in a context is one of its metrics. -/
theorem Contexts.mem_metrics_of_object {s : Contexts} {kind : Kind} {c i : Nat} {object : Object}
    {metric : Metric} (h : s.object kind c i = some (object, metric)) : metric ∈ s.metrics c := by
  unfold Contexts.object at h
  unfold Contexts.metrics
  cases hconfs : s.confs c with
  | none =>
      rw [hconfs] at h
      cases h
  | some array =>
      rw [hconfs] at h
      simp only at h
      cases hget : (s.arrays array)[i]? with
      | none =>
          rw [hget] at h
          cases h
      | some metric' =>
          rw [hget] at h
          -- the two kinds differ in the object only
          have hmetric : metric' = metric := by
            cases kind <;> simp only [Option.some.injEq, Prod.mk.injEq] at h <;> exact h.2
          exact hmetric ▸ List.mem_of_getElem? hget

section Refinement

variable [Add Value] {wc : WorkerConf C P ε}

/-- The histories agree, the arrays have their lengths, and each server is as after its
calls. -/
structure Process.Refines (wc : WorkerConf C P ε) (p : Process) (t : Traffic) : Prop where
  last : p.last = t.last
  sent : p.sent = t.sent
  calls : p.calls = t.calls
  splits : ∀ srv, (p.splits srv).length = splitsRoom (wc.splitsMax srv)
  systems : ∀ srv, p.systems srv =
    System.run wc.env (wc.net srv) (wc.server srv) (wc.arena srv) (t.calls srv)

omit [Add Value] in
theorem splitsRoom_eq {splitsMax : Nat} (h : sizeofStat * splitsMax < 2 ^ 64) :
    splitsRoom splitsMax = splitsMax := by
  unfold splitsRoom
  rw [Nat.mod_eq_of_lt h]
  exact Nat.mul_div_cancel_left splitsMax (by decide)

theorem Process.init_refines : (Process.init wc).Refines wc Traffic.init := by
  -- both start without a call
  constructor
  · rfl
  · rfl
  · rfl
  · intro srv
    exact List.length_replicate
  · intro srv
    rfl

section Calls

variable {p : Process} {t : Traffic} {srv : Nat}

theorem Process.Refines.call (h : p.Refines wc t) (srv : Nat) (event : Event) :
    (p.call wc srv event).Refines wc (t.add srv [event]) := by
  refine ⟨h.last, h.sent, ?_, h.splits, ?_⟩
  · show Function.update p.calls srv _ = _
    rw [h.calls]
    rfl
  intro srv'
  rw [Traffic.add_calls]
  show Function.update p.systems srv _ srv' = _
  by_cases hsrv : srv' = srv
  · -- one call more
    subst hsrv
    rw [Function.update_self, if_pos rfl, System.run, Run.exec_append, h.systems srv']
    rfl
  · rw [Function.update_of_ne hsrv, if_neg hsrv, h.systems srv']

theorem Process.Refines.sendStats (h : p.Refines wc t) (srv now : Nat) (exiting : Bool)
    (stats : List (Stat Value)) :
    (p.sendStats wc srv now exiting stats).Refines wc
      (t.add srv (stats.map fun stat => ⟨now, exiting, .send stat⟩)) := by
  induction stats generalizing p t with
  | nil =>
      rw [List.map_nil, Traffic.add_nil]
      exact h
  | cons stat stats ih =>
      have hrest := ih (h.call srv ⟨now, exiting, .send stat⟩)
      rw [Traffic.add_add] at hrest
      exact hrest

/-- What the process has besides its servers. -/
theorem Process.Refines.set (h : p.Refines wc t) (last : Object → Nat)
    {sent sent' : List (Metric × Nat)} (hsent : sent = sent') {splits : List (Stat Value)}
    (hsplits : splits.length = splitsRoom (wc.splitsMax srv)) :
    Process.Refines wc
      { p with last := last, splits := Function.update p.splits srv splits, sent := sent }
      { t with last := last, sent := sent' } := by
  refine ⟨rfl, hsent, h.calls, ?_, h.systems⟩
  intro srv'
  show (Function.update p.splits srv splits srv').length = _
  by_cases hsrv : srv' = srv
  · subst hsrv
    rw [Function.update_self, hsplits]
  · rw [Function.update_of_ne hsrv, h.splits srv']

end Calls

/-- One metric: the stats that are sent are the rows, whatever was left in the array. -/
theorem Process.Refines.sendMetric {p : Process} {t : Traffic} {req : Request C} {srv : Nat}
    {b : Batch} (harray : wc.HasArray srv)
    (hmetrics : ∀ metric ∈ wc.contexts.metrics req.ctx, wc.UsableMetric srv req metric) (i : Nat)
    (h : p.Refines wc ((t.take b).add srv (req.sends b.stats))) :
    Ends (fun _ => False)
      (fun p' => p'.Refines wc ((t.take (req.addMetric wc srv b i)).add srv
        (req.sends (req.addMetric wc srv b i).stats)))
      (p.sendMetric wc req srv i) := by
  unfold Process.sendMetric Request.addMetric
  cases hobject : wc.contexts.object wc.kind req.ctx i with
  | none => exact h
  | some entry =>
      obtain ⟨object, metric⟩ := entry
      simp only
      by_cases hpassed : (wc.metric metric).passedOver req.phase (req.random i) = true
      · rw [if_pos hpassed, if_pos hpassed]
        exact h
      · rw [if_neg hpassed, if_neg hpassed]
        have hmetric := hmetrics metric (Contexts.mem_metrics_of_object hobject)
        have hlength : (p.splits srv).length = wc.splitsMax srv := by
          rw [h.splits srv, splitsRoom_eq harray.2]
        obtain ⟨last, sent, stats⟩ := b
        -- both look at the same `conf->last`
        obtain rfl : p.last = last := h.last
        have hsent : p.sent = t.sent ++ sent := h.sent
        have hcompile : (statCompile wc.num wc.sp (wc.metric metric).toConf req.complex
            (p.last object) req.time (wc.splitsMax srv) (p.splits srv)).1 = _ ∧
              Ends _ _ (statCompile wc.num wc.sp (wc.metric metric).toConf req.complex
                (p.last object) req.time (wc.splitsMax srv) (p.splits srv)).2 :=
          ends_statCompile (p.last object) req.time hlength harray.1 hmetric.splits
        rcases hcompile with ⟨hlast, hends⟩
        rw [hlast]
        cases hres : (statCompile wc.num wc.sp (wc.metric metric).toConf req.complex
          (p.last object) req.time (wc.splitsMax srv) (p.splits srv)).2 with
        | error halt =>
            -- an early end, without stats
            rcases hends.of_error hres with ⟨⟨rc, rfl⟩, hnil⟩
            rw [hnil, List.append_nil]
            refine h.set _ hsent ?_
            rw [List.length_map, List.length_range, h.splits srv]
        | ok r =>
            obtain ⟨n, splits⟩ := r
            rcases hends.of_ok hres with ⟨hsplits, hn, hpos, hrows⟩
            have hsome : (statCompiled wc.num wc.sp (wc.metric metric).toConf req.complex
                (p.last object) req.time (wc.splitsMax srv)).2.isEmpty = false := by
              rw [← Bool.not_eq_true, List.isEmpty_iff_length_eq_zero, ← hn]
              exact Nat.ne_of_gt hpos
            -- the calls so far, and one for each row
            rw [hsome, Request.sends, List.map_append, ← hrows, ← Traffic.add_add]
            refine (h.set _ ?_ ?_).sendStats srv req.now req.exiting _
            · rw [if_neg (Nat.ne_of_gt hpos), hsent]
              exact List.append_assoc _ _ _
            · rw [hsplits, splitsRoom_eq harray.2]

/-- With a server that is set or null, a request is for the server of its context. -/
theorem Process.send_eq {req : Request C} (hset : (wc.locs req.ctx).server ≠ .unset) (p : Process) :
    p.send wc req =
      match wc.target req.ctx with
      | none => .ok p
      | some srv =>
        if wc.contexts.confs req.ctx = none then .ok p else p.sendMetrics wc req srv := by
  unfold Process.send WorkerConf.target
  cases hserver : (wc.locs req.ctx).server with
  | unset => exact absurd hserver hset
  | null => simp [hserver]
  | object srv =>
      by_cases henable : (wc.locs req.ctx).enable = some false
      · simp [henable]
      · simp [hserver, henable]

theorem Process.sendStat_eq {ctx : Nat} (hset : (wc.locs ctx).server ≠ .unset) (p : Process)
    (now : Nat) (exiting : Bool) (stat : Stat Value) :
    p.sendStat wc ctx now exiting stat =
      match wc.target ctx with
      | none => .ok p
      | some srv => .ok (p.call wc srv ⟨now, exiting, .send stat⟩) := by
  unfold Process.sendStat WorkerConf.target
  cases hserver : (wc.locs ctx).server with
  | unset => exact absurd hserver hset
  | null => simp [hserver]
  | object srv =>
      by_cases henable : (wc.locs ctx).enable = some false
      · simp [henable]
      · simp [hserver, henable]

omit [Add Value] in
theorem WorkerConf.server_of_target {ctx srv : Nat} (h : wc.target ctx = some srv) :
    (wc.locs ctx).server = .object srv := by
  unfold WorkerConf.target at h
  split at h
  · rename_i srv' hserver
    split at h
    · cases h
    · cases h
      exact hserver
  · cases h

theorem Process.Refines.send {p : Process} {t : Traffic} {req : Request C}
    (husable : wc.Usable (.request req)) (h : p.Refines wc t) :
    Ends (fun _ => False) (fun p' => p'.Refines wc (t.request wc req)) (p.send wc req) := by
  rw [Process.send_eq husable.1, Traffic.request]
  cases htarget : wc.target req.ctx with
  | none => exact h
  | some srv =>
      rcases husable.2 srv htarget with ⟨harray, hmetrics⟩
      simp only
      split
      · exact h
      -- the loop starts with an empty batch, and the flush comes behind it
      · have hstart : p.Refines wc ((t.take ⟨t.last, [], []⟩).add srv (req.sends [])) := by
          rw [Request.sends, List.map_nil, Traffic.add_nil]
          refine ⟨h.last, ?_, h.calls, h.splits, h.systems⟩
          rw [h.sent]
          exact (List.append_nil _).symm
        have hstep : ∀ (p : Process) (b : Batch) (i : Nat), True →
            p.Refines wc ((t.take b).add srv (req.sends b.stats)) →
            Ends (fun _ => False)
              (fun p' => p'.Refines wc ((t.take (req.addMetric wc srv b i)).add srv
                (req.sends (req.addMetric wc srv b i).stats)))
              (p.sendMetric wc req srv i) := by
          intro p b i _ h
          exact h.sendMetric harray hmetrics i
        refine (Ends.foldlM_exec (b := ⟨t.last, [], []⟩) hstep (fun _ _ => trivial) hstart).bind ?_
        intro p' h'
        exact h'.call srv _

theorem Process.Refines.step {p : Process} {t : Traffic} (event : WorkerEvent C)
    (husable : wc.Usable event) (h : p.Refines wc t) :
    Ends (fun _ => False) (fun p' => p'.Refines wc (t.step wc event)) (p.step wc event) := by
  cases event with
  | request req => exact h.send husable
  | sendStat ctx now exiting stat =>
      show Ends _ _ (p.sendStat wc ctx now exiting stat)
      rw [Process.sendStat_eq husable.1, Traffic.step, Traffic.sendStat]
      cases wc.target ctx with
      | none => exact h
      | some srv => exact h.call srv _
  | flushTimer srv now exiting => exact h.call srv _
  | aggregateTimer srv now exiting => exact h.call srv _
  | aggregatePosted srv now exiting => exact h.call srv _
  | readHandler srv now exiting => exact h.call srv _

theorem Process.run_refines {events : List (WorkerEvent C)}
    (h : ∀ event ∈ events, wc.Usable event) :
    Ends (fun _ => False) (fun p => p.Refines wc (Traffic.run wc events))
      (Process.run wc events) :=
  Ends.foldlM_exec (fun _ _ event husable h => h.step event husable) h Process.init_refines

theorem Process.run_ok {events : List (WorkerEvent C)} (h : ∀ event ∈ events, wc.Usable event) :
    ∃ p, Process.run wc events = .ok p ∧ p.Refines wc (Traffic.run wc events) := by
  have hrun := Process.run_refines h
  cases hres : Process.run wc events with
  | error fault => exact absurd (hrun.of_error hres) id
  | ok p => exact ⟨p, rfl, hrun.of_ok hres⟩

/-- A process whose contexts are usable comes to no fault, it sends what the traffic does and
calls its servers as the traffic does, and each of its servers is as after a run of its own, on
the calls for it. -/
theorem process_refines (wc : WorkerConf C P ε) (events : List (WorkerEvent C))
    (h : ∀ event ∈ events, wc.Usable event) :
    ∃ p, Process.run wc events = .ok p ∧ p.last = (Traffic.run wc events).last ∧
      p.sent = (Traffic.run wc events).sent ∧ p.calls = (Traffic.run wc events).calls ∧
      ∀ srv, p.systems srv =
        System.run wc.env (wc.net srv) (wc.server srv) (wc.arena srv) (p.calls srv) := by
  rcases Process.run_ok h with ⟨p, hp, hrefines⟩
  refine ⟨p, hp, hrefines.last, hrefines.sent, hrefines.calls, ?_⟩
  intro srv
  rw [hrefines.systems srv, hrefines.calls]

end Refinement

/-- The double of a whole number below `2 ^ 53`. -/
def wholeDouble (n : Nat) : Value :=
  if n = 0 then ⟨0⟩
  else ⟨UInt64.ofNat ((n.log2 + 1023) * 2 ^ 52 + (n * 2 ^ (52 - n.log2) - 2 ^ 52))⟩

/-- The numbers as far as they are whole and not negative. -/
def wholeDoubles : Numbers Value where
  atoi := decimal.parse
  atofp := fun line point => (decimal.parse line).map (· * 10 ^ point)
  zero := ⟨0⟩
  counter := wholeDouble
  value := fun n => wholeDouble (n / 10 ^ 8)
  nvalue := fun _ => ⟨0⟩
  unique := fun n => ⟨UInt64.ofNat n⟩

/-- One context with a counter "m" that is always "1", at most once a minute, and one
server. -/
def sampleWorker : WorkerConf Str Split Fault where
  env := sampleEnv Value
  num := wholeDoubles
  sp := statSplitter
  kind := .http
  contexts := Contexts.parsed fun c => if c = 0 then 1 else 0
  locs := fun _ => ⟨.object 0, some true⟩
  metric := fun _ =>
    { Conf.ofValue ⟨[0x31], .counter, false⟩ with timeout := 60, phase := [], sample := 0 }
  server := fun _ => sampleConf
  splitsMax := fun _ => 1
  net := fun _ => sampleNet
  arena := fun _ => 0

/-- A request of the log phase. -/
def sampleRequest (time : Nat) : Request Str where
  ctx := 0
  phase := none
  time := time
  now := 1000 * time
  exiting := false
  complex := some
  random := fun _ => 0
  leaves := fun _ _ => Stat.init [] .counter

/-- Three requests, of which the second comes too soon, and the timer of the aggregator. -/
def workerEvents : List (WorkerEvent Str) :=
  [.request (sampleRequest 100), .aggregateTimer 0 101000 false,
    .request (sampleRequest 130), .request (sampleRequest 160)]

/-- The metric has nothing to split. -/
theorem sampleWorker_total (metric : Metric) (complex : Str → Option Str) :
    SplitsTotal sampleWorker.sp (sampleWorker.metric metric).toConf complex := by
  constructor
  · intro hsplit
    cases hsplit
  · intro key hkey hsplit
    rw [List.eq_of_mem_replicate hkey] at hsplit
    cases hsplit

/-- Its stats are counters without keys and have the checksum of "m": any server can hold
them. -/
theorem sampleWorker_holds (metric : Metric) (complex : Str → Option Str) (max : Nat)
    (conf : ServerConf) :
    ∀ stat ∈ metricRows wholeDoubles statSplitter (sampleWorker.metric metric).toConf complex max,
      conf.Holds (sampleEnv Value) stat := by
  intro stat hstat _
  rcases row_of_mem_metricRows hstat with ⟨values, j, rfl⟩
  constructor
  · have hchecksum : (sampleEnv Value).crc.checksum [0x6d] ≠ 0 := by decide +kernel
    rw [aggregateHash_eq]
    exact hchecksum
  · have hsize : sizeofAggregateStat < 2 ^ 63 := by decide
    exact hsize

/-- It may be asked in any context with a server, whatever the servers are. -/
theorem sampleWorker_usable_request (kind : Kind) (contexts : Contexts) (locs : Nat → LocConf)
    (server : Nat → ServerConf) (req : Request Str) (hset : (locs req.ctx).server ≠ .unset) :
    WorkerConf.Usable
      { sampleWorker with kind := kind, contexts := contexts, locs := locs, server := server }
      (.request req) := by
  have hsize : sizeofStat * 1 < 2 ^ 64 := by decide
  refine ⟨hset, ?_⟩
  intro srv _
  refine ⟨⟨Nat.one_pos, hsize⟩, ?_⟩
  intro metric _
  exact ⟨sampleWorker_total metric _, sampleWorker_holds metric _ _ _⟩

theorem sampleWorker_usable : ∀ event ∈ workerEvents, sampleWorker.Usable event := by
  intro event hevent
  simp only [workerEvents, List.mem_cons, List.not_mem_nil, or_false] at hevent
  rcases hevent with rfl | rfl | rfl | rfl
  · exact sampleWorker_usable_request _ _ _ _ _ ServerPtr.noConfusion
  · trivial
  · exact sampleWorker_usable_request _ _ _ _ _ ServerPtr.noConfusion
  · exact sampleWorker_usable_request _ _ _ _ _ ServerPtr.noConfusion

/-- Two contexts, each with a counter and a server of its own. -/
def pairWorker : WorkerConf Str Split Fault :=
  { sampleWorker with
    contexts := Contexts.parsed fun c => if c < 2 then 1 else 0
    locs := fun c => ⟨.object c, some true⟩ }

/-- Requests in both, and a stat of another module in the second. -/
def pairEvents : List (WorkerEvent Str) :=
  [.request (sampleRequest 100), .request { sampleRequest 100 with ctx := 1 },
    .sendStat 1 100000 false ⟨.value, [0x6e], [], [⟨2⟩]⟩, .aggregateTimer 0 101000 false,
    .request { sampleRequest 130 with ctx := 1 }, .request (sampleRequest 160)]

theorem pairWorker_usable : ∀ event ∈ pairEvents, pairWorker.Usable event := by
  have hrequest : ∀ req : Request Str, pairWorker.Usable (.request req) :=
    fun req => sampleWorker_usable_request _ _ _ _ req ServerPtr.noConfusion
  intro event hevent
  simp only [pairEvents, List.mem_cons, List.not_mem_nil, or_false] at hevent
  rcases hevent with rfl | rfl | rfl | rfl | rfl | rfl
  · exact hrequest _
  · exact hrequest _
  · have hholds : sampleConf.Holds (sampleEnv Value) ⟨.value, [0x6e], [], [⟨2⟩]⟩ := by
      decide +kernel
    exact ⟨ServerPtr.noConfusion, fun _ _ => hholds⟩
  · trivial
  · exact hrequest _
  · exact hrequest _

attribute [local instance] sampleAdd in
/-- Both servers are called, each with the stats of its own context. -/
theorem process_refines_sample :
    ∃ p, Process.run pairWorker pairEvents = .ok p ∧
      p.sent = [((0, 0), 100), ((1, 0), 100), ((0, 0), 160)] ∧
      (p.calls 0).length = 5 ∧ (p.calls 1).length = 4 ∧
      ∀ srv, p.systems srv = System.run (sampleEnv Value) sampleNet sampleConf 0 (p.calls srv) := by
  rcases process_refines pairWorker pairEvents pairWorker_usable with
    ⟨p, hp, -, hsent, hcalls, hsystems⟩
  refine ⟨p, hp, ?_, ?_, ?_, hsystems⟩
  · rw [hsent]
    decide +kernel
  · rw [hcalls]
    decide +kernel
  · rw [hcalls]
    decide +kernel

end StatsHouse
