import StatsHouse.Complex

/-! # Only what was compiled is evaluated

The pointers of a metric to complex values are null until the strings are compiled, and stay
null where the metric or the key is disabled. `ngx_http_complex_value` does not test for a
null pointer. Whatever it would make of one, no request of a worker can tell.

* `worker_never_null`: a worker whose metrics `ngx_http_statshouse_init_complex` has
  initialised runs the same, whatever the value of a null pointer.
-/

namespace StatsHouse

open Threaded

variable {C P V ε : Type}

/-- The pointers that may be followed are set. -/
structure Conf.Ready (conf : Conf (Option C)) : Prop where
  value : conf.disable = false → conf.value.complex.isSome
  condition : ∀ cs, conf.condition = some cs → ∀ c ∈ cs, c.isSome
  keys : conf.disable = false → ∀ key ∈ conf.keys,
    key.disable = true ∨ key.name.length = 0 ∨ key.complex.isSome

/-! ## Initialised metrics -/

section Init

variable {cc : Compiler C} {vars vars' : Variables}

theorem initKey_ready {key : Option (BlockKey Str)} {key' : ConfKey (Option C)}
    (h : initKey cc vars key = some (key', vars')) :
    key'.disable = true ∨ key'.name.length = 0 ∨ key'.complex.isSome := by
  cases key with
  | none =>
      cases h
      exact Or.inr (Or.inl rfl)
  | some key =>
      unfold initKey at h
      simp only at h
      split at h
      · rcases Option.map_eq_some_iff.mp h with ⟨r, -, heq⟩
        cases heq
        exact Or.inr (Or.inr rfl)
      · cases h
        exact Or.inl rfl

theorem MetricBlock.conf_condition {S : Type} (shc : MetricBlock S) (disable : Bool)
    (value : Option C) (condition : List C) (keys : List (ConfKey (Option C))) :
    ∀ cs, (shc.conf disable value condition keys).condition = some cs → ∀ c ∈ cs, c.isSome := by
  intro cs hcs c hc
  unfold MetricBlock.conf at hcs
  simp only at hcs
  split at hcs
  · cases hcs
  · cases hcs
    rcases List.mem_map.mp hc with ⟨c', -, rfl⟩
    rfl

theorem initConf_ready {shc : MetricBlock Str} {conf : MetricConf (Option C)}
    (h : initConf cc vars shc = some (conf, vars')) : conf.Ready := by
  unfold initConf at h
  split at h
  · rcases Option.bind_eq_some_iff.mp h with ⟨value, -, h⟩
    rcases Option.bind_eq_some_iff.mp h with ⟨condition, -, h⟩
    rcases Option.map_eq_some_iff.mp h with ⟨keys, hkeys, heq⟩
    cases heq
    refine ⟨fun _ => rfl, shc.conf_condition _ _ _ _, ?_⟩
    intro _ key hkey
    rcases List.mem_ofFn.mp hkey with ⟨k, rfl⟩
    have hready : ∀ key ∈ keys.1,
        key.disable = true ∨ key.name.length = 0 ∨ key.complex.isSome :=
      forall_of_mapAccum (fun _ _ _ _ h => initKey_ready h) hkeys
    rw [List.getD_eq_getElem?_getD]
    cases hget : keys.1[(k : Nat)]? with
    -- a place behind the list has no name
    | none => exact Or.inr (Or.inl rfl)
    | some key => exact hready key (List.mem_of_getElem? hget)
  · cases h
    -- a metric that is disabled may have null pointers
    have hoff : ∀ {p : Prop}, (true = false) → p := fun h => nomatch h
    exact ⟨hoff, shc.conf_condition _ _ _ _, hoff⟩

/-- After `ngx_http_statshouse_init_complex` all metrics are ready. -/
theorem initComplex_ready {confs : List (MetricBlock Str)} {confs' : List (MetricConf (Option C))}
    (h : initComplex cc vars confs = some (confs', vars')) : ∀ conf ∈ confs', conf.Ready :=
  forall_of_mapAccum (fun _ _ _ _ h => initConf_ready h) h

end Init

/-! ## Compilation of stats -/

section Stats

variable [Inhabited V] {num : Numbers V} {sp : Splitter P ε} {conf : Conf (Option C)}
  {complex complex' : Option C → Option Str}

theorem testPredicates_agree (h : ∀ c, complex (some c) = complex' (some c)) {cs : List (Option C)}
    (hcs : ∀ c ∈ cs, c.isSome) : testPredicates complex cs = testPredicates complex' cs := by
  induction cs with
  | nil => rfl
  | cons c cs ih =>
      rcases Option.isSome_iff_exists.mp (hcs c List.mem_cons_self) with ⟨a, rfl⟩
      rw [testPredicates, testPredicates, h a, ih fun c hc => hcs c (List.mem_cons_of_mem _ hc)]

theorem evalKeys_agree (h : ∀ c, complex (some c) = complex' (some c))
    {keys : List (ConfKey (Option C))}
    (hkeys : ∀ key ∈ keys, key.disable = true ∨ key.name.length = 0 ∨ key.complex.isSome) :
    evalKeys complex keys = evalKeys complex' keys := by
  induction keys with
  | nil => rfl
  | cons key keys ih =>
      have hrest := ih fun key hkey => hkeys key (List.mem_cons_of_mem _ hkey)
      rw [evalKeys, evalKeys, hrest]
      -- the loop passes over a key that is disabled or has no name before it follows the pointer
      rcases hkeys key List.mem_cons_self with hoff | hname | hset
      · rw [if_pos hoff, if_pos hoff]
      · rw [if_pos hname, if_pos hname]
      · rcases Option.isSome_iff_exists.mp hset with ⟨a, ha⟩
        rw [ha, h a]

/-- What a ready metric comes to is told by the values of what was compiled. -/
theorem Conf.Ready.statCompile (hready : conf.Ready)
    (h : ∀ c, complex (some c) = complex' (some c)) (last now max : Nat) (stats : List (Stat V)) :
    statCompile num sp conf complex last now max stats =
      statCompile num sp conf complex' last now max stats := by
  unfold StatsHouse.statCompile
  cases hdisable : conf.disable with
  -- the flag is tested first
  | true => rfl
  | false =>
      have hpredicates : testRequiredPredicates complex conf.condition =
          testRequiredPredicates complex' conf.condition := by
        unfold testRequiredPredicates
        cases hcondition : conf.condition with
        | none => rfl
        | some cs => exact testPredicates_agree h (hready.condition cs hcondition)
      rcases Option.isSome_iff_exists.mp (hready.value hdisable) with ⟨a, ha⟩
      unfold statCompileSplits
      rw [hpredicates, ha, h a, evalKeys_agree h (hready.keys hdisable)]

end Stats

/-! ## Workers -/

/-- The request with `x` as the value of a null pointer. -/
def Request.onNull (x : Option Str) (req : Request (Option C)) : Request (Option C) :=
  { req with complex := fun c => c.elim x fun c => req.complex (some c) }

/-- The event with `x` as the value of a null pointer. -/
def WorkerEvent.onNull (x : Option Str) : WorkerEvent (Option C) → WorkerEvent (Option C)
  | .request req => .request (req.onNull x)
  | event => event

section Worker

variable [Add Value] {wc : WorkerConf (Option C) P ε}

theorem Process.sendMetric_onNull
    (hready : ∀ ctx, ∀ metric ∈ wc.contexts.metrics ctx, (wc.metric metric).Ready)
    (x : Option Str) (req : Request (Option C)) (srv : Nat) :
    Process.sendMetric wc (req.onNull x) srv = Process.sendMetric wc req srv := by
  funext p i
  have hctx : (req.onNull x).ctx = req.ctx := rfl
  unfold Process.sendMetric
  rw [hctx]
  cases hobject : wc.contexts.object wc.kind req.ctx i with
  | none => rfl
  | some found =>
      rcases found with ⟨object, metric⟩
      have hmetric := hready req.ctx metric (Contexts.mem_metrics_of_object hobject)
      have hagree : ∀ c, (req.onNull x).complex (some c) = req.complex (some c) := fun _ => rfl
      -- the handlers look at the complex values in the compilation only
      have htime : (req.onNull x).time = req.time := rfl
      simp only [htime, hmetric.statCompile hagree]
      rfl

theorem Process.step_onNull
    (hready : ∀ ctx, ∀ metric ∈ wc.contexts.metrics ctx, (wc.metric metric).Ready)
    (x : Option Str) (p : Process) (event : WorkerEvent (Option C)) :
    p.step wc (event.onNull x) = p.step wc event := by
  cases event with
  | request req =>
      show p.send wc (req.onNull x) = p.send wc req
      unfold Process.send Process.sendMetrics
      simp only [Process.sendMetric_onNull hready]
      rfl
  | _ => rfl

/-- A worker whose metrics `ngx_http_statshouse_init_complex` has initialised runs the same,
whatever a complex value would be that was not compiled: it evaluates none. -/
theorem worker_never_null {cc : Compiler C} {vars vars' : Variables}
    {confs : List (MetricBlock Str)} {confs' : List (MetricConf (Option C))}
    (hinit : initComplex cc vars confs = some (confs', vars'))
    (hmetrics : ∀ ctx, ∀ metric ∈ wc.contexts.metrics ctx, wc.metric metric ∈ confs')
    (x : Option Str) (events : List (WorkerEvent (Option C))) :
    Process.run wc (events.map (WorkerEvent.onNull x)) = Process.run wc events := by
  have hready : ∀ ctx, ∀ metric ∈ wc.contexts.metrics ctx, (wc.metric metric).Ready :=
    fun ctx metric hmetric => initComplex_ready hinit _ (hmetrics ctx metric hmetric)
  unfold Process.run
  rw [List.foldlM_map]
  congr 1
  funext p event
  exact Process.step_onNull hready x p event

end Worker

/-- The metric of the example, when nginx knows its variable. -/
def readyMetric : MetricConf (Option Str) :=
  sampleMetric.conf false (some (ascii "$a")) [] (List.replicate keysMax ConfKey.unset)

/-- The worker of the example with this metric. -/
def readyWorker : WorkerConf (Option Str) Split Fault where
  env := sampleWorker.env
  num := sampleWorker.num
  sp := sampleWorker.sp
  kind := sampleWorker.kind
  contexts := sampleWorker.contexts
  locs := sampleWorker.locs
  metric := fun _ => readyMetric
  server := sampleWorker.server
  splitsMax := sampleWorker.splitsMax
  net := sampleWorker.net
  arena := sampleWorker.arena

/-- A request in which the variable is "1", with no value for a null pointer. -/
def readyRequest : Request (Option Str) :=
  { sampleRequest 100 with complex := fun c => c.map fun _ => [0x31] }

attribute [local instance] sampleAdd in
theorem worker_never_null_sample :
    Process.run readyWorker ([.request readyRequest].map (WorkerEvent.onNull (some [0x32]))) =
      Process.run readyWorker [.request readyRequest] := by
  have hinit : initComplex sampleCompiler
      { sampleVariables with keys := [ascii "a"] } [sampleMetric] =
        some ([readyMetric], ⟨[], [ascii "a"], [ascii "a"]⟩) := by
    rfl
  exact worker_never_null hinit (fun _ _ _ => List.mem_singleton.mpr rfl) (some [0x32])
    [.request readyRequest]

end StatsHouse
