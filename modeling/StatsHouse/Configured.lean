import StatsHouse.BlockAgreement
import StatsHouse.Receiver
import StatsHouse.Startup

/-! # From the configuration to the worker

nginx calls the slot functions for the directives of a configuration, merges the contexts and
calls `ngx_http_statshouse_init`. What this leaves is what the workers run on.

* `configured_metrics`: a worker finds for each metric of a context the entry of `smcf->confs`
  that is made of its block, with what the blocks before it leave.
* `startedWorker_runs`: a worker of either module comes to no fault and sends to servers that
  are initialised; `configured_runs` is that for the HTTP module.
-/

namespace StatsHouse

open Once Outcome Threaded

variable {C : Type}

/-! ## Directives -/

/-- A directive of the HTTP module: `statshouse_server`, or `statshouse_metric` with its block
and the context it is written in. -/
inductive HttpLine where
  | server (d : ServerDirective)
  | metric (ctx : Nat) (name : Str) (block : List BlockDirective)

def HttpLine.directive : HttpLine → HttpDirective
  | .server d => .server d
  | .metric c _ _ => .metric c

/-- The name and the block of a metric. -/
def HttpLine.block : HttpLine → Option (Str × List BlockDirective)
  | .server _ => none
  | .metric _ name block => some (name, block)

/-- The blocks that are written in a context. -/
def blocksIn (lines : List HttpLine) (c : Nat) : List (Str × List BlockDirective) :=
  lines.filterMap fun line =>
    match line with
    | .server _ => none
    | .metric d name block => if d = c then some (name, block) else none

/-- The configuration, and the metrics of `smcf->confs`. -/
structure HttpText where
  conf : HttpConf
  blocks : List (MetricBlock Str)

def HttpText.init : HttpText := { conf := HttpConf.init, blocks := [] }

/-- `ngx_http_statshouse_server_slot`, or `ngx_http_statshouse_metric_slot`, which puts the
metric into the arrays when its block is read. -/
def HttpText.line (ps : Parsers) (cf : ConfSlots) (text : HttpText) :
    HttpLine → Option HttpText
  | .server d =>
    (text.conf.directive ps (.server d)).toOption.map fun conf => { text with conf := conf }
  | .metric c name block =>
    ((httpBlock cf).metricSlot name block).toOption.bind fun shc =>
      (text.conf.directive ps (.metric c)).toOption.map fun conf =>
        { conf := conf, blocks := text.blocks ++ [shc] }

/-- The directives of a configuration, in order. -/
def httpText (ps : Parsers) (cf : ConfSlots) (lines : List HttpLine) :
    Option HttpText :=
  lines.foldlM (HttpText.line ps cf) HttpText.init

/-! ## What they leave -/

section Text

variable {ps : Parsers} {cf : ConfSlots} {lines : List HttpLine} {text : HttpText}

/-- The block of a metric is written behind the lines `before`, which have `metric.2` blocks in
its context and `k` in all contexts. -/
structure PlacedAt (lines before : List HttpLine) (metric : Metric) (k : Nat)
    (block : Str × List BlockDirective) : Prop where
  split : ∃ after, lines = before ++ .metric metric.1 block.1 block.2 :: after
  own : (blocksIn before metric.1).length = metric.2
  place : (before.filterMap HttpLine.block).length = k

/-- The configuration after the lines: a context has its blocks in the order of the lines, and
`smcf->confs` what is read of them. -/
structure HttpText.Reads (ps : Parsers) (cf : ConfSlots) (lines : List HttpLine)
    (text : HttpText) : Prop where
  parse : HttpConf.parse ps (lines.map HttpLine.directive) = .ok text.conf
  contexts : text.conf.contexts = Contexts.parsed fun c => (blocksIn lines c).length
  metrics : ∀ metric, metric ∈ text.conf.metrics ↔ metric.2 < (blocksIn lines metric.1).length
  placed : ∀ k metric, text.conf.metrics[k]? = some metric →
    ∃ before block, PlacedAt lines before metric k block
  count : text.conf.metrics.length = (lines.filterMap HttpLine.block).length
  blocks : ((lines.filterMap HttpLine.block).mapM fun block =>
    ((httpBlock cf).metricSlot block.1 block.2).toOption) = some text.blocks

theorem blocksIn_append (lines lines' : List HttpLine) (c : Nat) :
    blocksIn (lines ++ lines') c = blocksIn lines c ++ blocksIn lines' c :=
  List.filterMap_append

theorem blocksIn_server (lines : List HttpLine) (d : ServerDirective) (c : Nat) :
    blocksIn (lines ++ [.server d]) c = blocksIn lines c := by
  rw [blocksIn_append]
  exact List.append_nil _

theorem blocksIn_metric (lines : List HttpLine) (c : Nat) (name : Str)
    (block : List BlockDirective) (d : Nat) :
    blocksIn (lines ++ [.metric c name block]) d =
      blocksIn lines d ++ if c = d then [(name, block)] else [] := by
  rw [blocksIn_append]
  congr 1
  unfold blocksIn
  rw [List.filterMap_cons, List.filterMap_nil]
  by_cases hcd : c = d
  · simp only [if_pos hcd]
  · simp only [if_neg hcd]

theorem PlacedAt.append {before : List HttpLine} {metric : Metric} {k : Nat}
    {block : Str × List BlockDirective} (h : PlacedAt lines before metric k block)
    (lines' : List HttpLine) : PlacedAt (lines ++ lines') before metric k block := by
  rcases h.split with ⟨after, rfl⟩
  refine ⟨⟨after ++ lines', ?_⟩, h.own, h.place⟩
  rw [List.append_assoc, List.cons_append]

theorem HttpText.Reads.server {d : ServerDirective} {conf : HttpConf}
    (h : text.Reads ps cf lines) (hd : text.conf.directive ps (.server d) = .ok conf) :
    HttpText.Reads ps cf (lines ++ [.server d]) { text with conf := conf } := by
  have hparse : HttpConf.parse ps ((lines ++ [HttpLine.server d]).map HttpLine.directive) =
      .ok conf := by
    rw [List.map_append]
    exact foldlM_snoc_ok_iff.mpr ⟨text.conf, h.parse, hd⟩
  have hrest : conf.contexts = text.conf.contexts ∧ conf.metrics = text.conf.metrics := by
    rw [HttpConf.directive] at hd
    cases hslot : httpServerSlot ps text.conf.slots d.ctx d.url d.options with
    | error e =>
        rw [hslot] at hd
        cases hd
    | ok slots =>
        rw [hslot] at hd
        cases hd
        exact ⟨rfl, rfl⟩
  have hsame : (lines ++ [HttpLine.server d]).filterMap HttpLine.block =
      lines.filterMap HttpLine.block := by
    rw [List.filterMap_append]
    exact List.append_nil _
  refine ⟨hparse, ?_, ?_, ?_, ?_, ?_⟩
  · simp only [blocksIn_server]
    exact hrest.1.trans h.contexts
  · intro metric
    rw [blocksIn_server]
    exact hrest.2 ▸ h.metrics metric
  · intro k metric hget
    rw [hrest.2] at hget
    rcases h.placed k metric hget with ⟨before, block, hplaced⟩
    exact ⟨before, block, hplaced.append _⟩
  · rw [hsame]
    exact hrest.2 ▸ h.count
  · rw [hsame]
    exact h.blocks

/-- The metrics that were placed still are, and the new one is behind all lines. -/
theorem HttpText.Reads.placed_metric (h : text.Reads ps cf lines) {c j : Nat} {name : Str}
    {block : List BlockDirective} (hplace : (blocksIn lines c).length = j) (k : Nat)
    (metric : Metric) (hget : (text.conf.metrics ++ [(c, j)])[k]? = some metric) :
    ∃ before block', PlacedAt (lines ++ [.metric c name block]) before metric k block' := by
  rw [List.getElem?_append] at hget
  split at hget
  · rcases h.placed k metric hget with ⟨before, block', hplaced⟩
    exact ⟨before, block', hplaced.append _⟩
  · rename_i hnew
    have hlast : k - text.conf.metrics.length = 0 := by
      have hlt := (List.getElem?_eq_some_iff.mp hget).1
      rw [List.length_singleton] at hlt
      omega
    rw [hlast] at hget
    cases hget
    refine ⟨lines, (name, block), ⟨[], rfl⟩, hplace, ?_⟩
    rw [← h.count]
    omega

theorem HttpText.Reads.metric {c : Nat} {name : Str} {block : List BlockDirective}
    {shc : MetricBlock Str} {conf : HttpConf} (h : text.Reads ps cf lines)
    (hread : (httpBlock cf).metricSlot name block = .ok shc)
    (hd : text.conf.directive ps (.metric c) = .ok conf) :
    HttpText.Reads ps cf (lines ++ [.metric c name block])
      { conf := conf, blocks := text.blocks ++ [shc] } := by
  have hparse : HttpConf.parse ps
      ((lines ++ [HttpLine.metric c name block]).map HttpLine.directive) = .ok conf := by
    rw [List.map_append]
    exact foldlM_snoc_ok_iff.mpr ⟨text.conf, h.parse, hd⟩
  have hplace : (text.conf.contexts.metrics c).length = (blocksIn lines c).length := by
    rw [h.contexts, Contexts.parsed_metrics]
    unfold ownBlocks
    rw [List.length_map, List.length_range]
  cases hd
  refine ⟨hparse, ?_, ?_, ?_, ?_, ?_⟩
  · show text.conf.contexts.metricSlot c = _
    rw [h.contexts, Contexts.metricSlot_parsed]
    congr 1
    funext d
    rw [blocksIn_metric, Function.update_apply, List.length_append]
    by_cases hdc : d = c
    · rw [if_pos hdc, if_pos hdc.symm, hdc]
      rfl
    · rw [if_neg hdc, if_neg (Ne.symm hdc)]
      rfl
  · intro metric
    show metric ∈ text.conf.metrics ++ [(c, (text.conf.contexts.metrics c).length)] ↔ _
    rw [List.mem_append, h.metrics, List.mem_singleton, hplace, blocksIn_metric, List.length_append]
    obtain ⟨d, j⟩ := metric
    simp only [Prod.mk.injEq]
    by_cases hdc : c = d
    · subst hdc
      rw [if_pos rfl, List.length_singleton]
      omega
    · rw [if_neg hdc, List.length_nil]
      omega
  · exact h.placed_metric hplace.symm
  · show (text.conf.metrics ++ [_]).length = _
    rw [List.filterMap_append, List.length_append, List.length_append, h.count]
    rfl
  · rw [List.filterMap_append, List.mapM_append, h.blocks]
    have hlast : ([(name, block)].mapM fun block =>
        ((httpBlock cf).metricSlot block.1 block.2).toOption) = some [shc] := by
      rw [List.mapM_cons, hread]
      rfl
    show (some text.blocks >>= fun shcs => (List.mapM _ [(name, block)]) >>= fun shcs' =>
      some (shcs ++ shcs')) = _
    rw [hlast]
    rfl

theorem httpText_append_eq_some {line : HttpLine} :
    httpText ps cf (lines ++ [line]) = some text ↔
      ∃ text₀, httpText ps cf lines = some text₀ ∧ text₀.line ps cf line = some text := by
  unfold httpText
  exact foldlM_snoc_eq_some

theorem httpText_reads (h : httpText ps cf lines = some text) :
    text.Reads ps cf lines := by
  induction lines using List.reverseRecOn generalizing text with
  | nil =>
      cases h
      refine ⟨rfl, rfl, ?_, ?_, rfl, rfl⟩
      · intro metric
        exact iff_of_false List.not_mem_nil (Nat.not_lt_zero _)
      · intro k metric hget
        cases hget
  | append_singleton lines line ih =>
      rcases httpText_append_eq_some.mp h with ⟨text₀, hbefore, hline⟩
      have hreads := ih hbefore
      cases line with
      | server d =>
          -- a server changes the servers and its context only
          rcases Option.map_eq_some_iff.mp hline with ⟨conf, hd, rfl⟩
          exact hreads.server (toOption_eq_some.mp hd)
      | metric c name block =>
          rcases Option.bind_eq_some_iff.mp hline with ⟨shc, hread, hmap⟩
          rcases Option.map_eq_some_iff.mp hmap with ⟨conf, hd, rfl⟩
          exact hreads.metric (toOption_eq_some.mp hread) (toOption_eq_some.mp hd)

end Text

/-! ## Workers -/

/-- A metric that is not there. -/
def MetricConf.zero : MetricConf (Option C) where
  name := []
  condition := none
  timeout := 0
  disable := false
  value := ⟨none, .counter, false⟩
  keys := List.replicate keysMax ConfKey.unset
  length_keys := List.length_replicate
  phase := []
  sample := 0

/-- What a worker runs on: the functions that are not of the module, the network and the
arenas, and the number of addresses of each server. -/
structure Host where
  env : Env Value
  num : Numbers Value
  net : Nat → Net
  arena : Nat → Nat
  naddrs : Nat → Nat

def ServerParams.conf (params : ServerParams) (naddrs : Nat) : ServerConf :=
  { naddrs := naddrs
    bufferSize := params.bufferSize
    flushAfterRequest := params.flushAfterRequest
    flush := params.flush
    aggregateSize := params.aggregateSize
    aggregateValues := params.aggregateValues }

/-- The array of the server is not empty and its size does not wrap. -/
def ServerParams.HasArray (params : ServerParams) : Prop :=
  1 ≤ params.splitsMax ∧ sizeofStat * params.splitsMax < 2 ^ 64

instance (params : ServerParams) : Decidable params.HasArray := inferInstanceAs (Decidable (_ ∧ _))

/-- The parameters of the server at a place of `smcf->servers`. -/
def SlotState.params (slots : SlotState) (srv : Nat) : ServerParams :=
  (slots.servers.map ServerObject.params).getD srv ServerParams.init

/-- A worker process of either module, with the contexts, the servers and the metrics that are
there after the merges. -/
def startedWorker (kind : Kind) (contexts : Contexts) (slots : SlotState)
    (metric : Metric → MetricConf (Option C)) (host : Host) :
    WorkerConf (Option C) Split Fault where
  env := host.env
  num := host.num
  sp := statSplitter
  kind := kind
  contexts := contexts
  locs := slots.locs
  metric := metric
  server := fun srv => (slots.params srv).conf (host.naddrs srv)
  splitsMax := fun srv => (slots.params srv).splitsMax
  net := host.net
  arena := host.arena

/-- The strings that a metric splits do not end as the splitter cannot take. -/
structure Conf.Settles (conf : Conf C) (complex : C → Option Str) : Prop where
  value : conf.value.split = true → ∀ str, complex conf.value.complex = some str →
    Settled (lastPiece str)
  keys : ∀ key ∈ conf.keys, key.split = true → ∀ str, complex key.complex = some str →
    Settled (lastPiece str)

theorem Conf.Settles.splitsTotal {conf : Conf C} {complex : C → Option Str}
    (h : conf.Settles complex) : SplitsTotal statSplitter conf complex :=
  ⟨fun hsplit str hstr => statSplitter_total (h.value hsplit str hstr),
    fun key hkey hsplit str hstr => statSplitter_total (h.keys key hkey hsplit str hstr)⟩

/-- A metric of a request: the strings that are split are settled, and the server can hold its
stats. -/
structure WorkerConf.ServedMetric (wc : WorkerConf C Split Fault) (srv : Nat) (req : Request C)
    (metric : Metric) : Prop where
  settles : (wc.metric metric).toConf.Settles req.complex
  holds : ∀ stat ∈ metricRows wc.num wc.sp (wc.metric metric).toConf req.complex (wc.splitsMax srv),
    (wc.server srv).Holds wc.env stat

/-- What a worker may be asked: requests in a context inside another one, and where `stats`
holds stats of other modules there, that the server can hold; and any of the callbacks. -/
def WorkerConf.Served (wc : WorkerConf C Split Fault) (merges : List (Nat × Nat)) (stats : Prop) :
    WorkerEvent C → Prop
  | .request req => (∃ e ∈ merges, e.2 = req.ctx) ∧ ∀ srv, wc.target req.ctx = some srv →
      ∀ metric ∈ wc.contexts.metrics req.ctx, wc.ServedMetric srv req metric
  | .sendStat ctx _ _ stat => (∃ e ∈ merges, e.2 = ctx) ∧ stats ∧
      ∀ srv, wc.target ctx = some srv → (wc.server srv).Holds wc.env stat
  | _ => True

section Workers

variable {kind : Kind} {contexts : Contexts} {slots : SlotState}
  {metric : Metric → MetricConf (Option C)} {host : Host} {merges : List (Nat × Nat)}
  {stats : Prop}

theorem SlotState.params_of_getElem? {srv : Nat} {server : ServerObject}
    (h : slots.servers[srv]? = some server) : slots.params srv = server.params := by
  unfold SlotState.params
  rw [List.getD_eq_getElem?_getD, List.getElem?_map, h]
  rfl

/-- The server of a context is one of `smcf->servers`. -/
theorem startedWorker_server (hvalid : slots.Valid) {ctx srv : Nat}
    (htarget : (startedWorker kind contexts slots metric host).target ctx = some srv) :
    ∃ server, slots.servers[srv]? = some server :=
  ⟨_, List.getElem?_eq_getElem (hvalid ctx srv (WorkerConf.server_of_target htarget))⟩

/-- The contexts that a worker may be asked in are usable. -/
theorem startedWorker_usable (hvalid : slots.Valid)
    (hset : ∀ e ∈ merges, (slots.locs e.2).server ≠ .unset)
    (harray : ∀ server ∈ slots.servers, server.params.HasArray) {event : WorkerEvent (Option C)}
    (hserved : (startedWorker kind contexts slots metric host).Served merges stats event) :
    (startedWorker kind contexts slots metric host).Usable event := by
  cases event with
  | request req =>
      rcases hserved with ⟨⟨e, he, hctx⟩, hmetrics⟩
      refine ⟨hctx ▸ hset e he, ?_⟩
      intro srv htarget
      rcases startedWorker_server hvalid htarget with ⟨server, hget⟩
      constructor
      · have hserver : (slots.params srv).HasArray := by
          rw [SlotState.params_of_getElem? hget]
          exact harray server (List.mem_of_getElem? hget)
        exact hserver
      · intro m hm
        have hmetric := hmetrics srv htarget m hm
        exact ⟨hmetric.settles.splitsTotal, hmetric.holds⟩
  | sendStat ctx now exiting stat =>
      rcases hserved with ⟨⟨e, he, rfl⟩, -, hholds⟩
      exact ⟨hset e he, hholds⟩
  | flushTimer | aggregateTimer | aggregatePosted | readHandler => trivial

/-- A worker comes to no fault, and where a metric or a stat of another module means that the
servers are initialised, it sends to initialised servers only. -/
theorem startedWorker_runs [Add Value] {mem : Nat → ServerMemory} (hvalid : slots.Valid)
    (hset : ∀ e ∈ merges, (slots.locs e.2).server ≠ .unset)
    (harray : ∀ server ∈ slots.servers, server.params.HasArray)
    (hmetrics : ∀ ctx, ∀ m ∈ contexts.metrics ctx, stats)
    (hcompleted : stats → ∀ srv server, slots.servers[srv]? = some server →
      (mem srv).Completed server.params)
    {events : List (WorkerEvent (Option C))}
    (hserved : ∀ event ∈ events,
      (startedWorker kind contexts slots metric host).Served merges stats event) :
    ∃ p, Process.run (startedWorker kind contexts slots metric host) events = .ok p ∧
      ∀ srv, sendsOf (p.calls srv) ≠ [] →
        ∃ server, slots.servers[srv]? = some server ∧ (mem srv).Completed server.params := by
  have htarget : stats → ∀ ctx srv,
      (startedWorker kind contexts slots metric host).target ctx = some srv →
        ∃ server, slots.servers[srv]? = some server ∧ (mem srv).Completed server.params := by
    intro hstats ctx srv hctx
    rcases startedWorker_server hvalid hctx with ⟨server, hget⟩
    exact ⟨server, hget, hcompleted hstats srv server hget⟩
  have hsends : (Traffic.run (startedWorker kind contexts slots metric host) events).Sends
      fun srv _ => ∃ server, slots.servers[srv]? = some server ∧
        (mem srv).Completed server.params := by
    refine Traffic.run_sends ?_
    intro event hevent
    have hserves := hserved event hevent
    cases event with
    | request req =>
        intro srv hctx m hm stat hstat
        exact htarget (hmetrics req.ctx m hm) req.ctx srv hctx
    | sendStat ctx now exiting stat => exact fun srv hctx => htarget hserves.2.1 ctx srv hctx
    | flushTimer | aggregateTimer | aggregatePosted | readHandler => trivial
  rcases Process.run_ok fun event hevent =>
    startedWorker_usable hvalid hset harray (hserved event hevent) with ⟨p, hp, hrefines⟩
  refine ⟨p, hp, ?_⟩
  intro srv hne
  rw [hrefines.calls] at hne
  rcases List.exists_mem_of_ne_nil _ hne with ⟨stat, hstat⟩
  exact hsends srv stat hstat

end Workers

/-! ## Start -/

/-- What the workers are started with: the configuration after the merges, the metrics of
`smcf->confs`, and the memory of the servers. -/
structure HttpStarted (C : Type) where
  conf : HttpConf
  confs : List (MetricConf (Option C))
  mem : Nat → ServerMemory

/-- What nginx does with the HTTP part of its configuration, where the places `merges` say
which context is in which. -/
def httpStart (ps : Parsers) (cf : ConfSlots) (cc : Compiler C) (vars : Variables)
    (answers : InitAnswers) (lines : List HttpLine) (merges : List (Nat × Nat)) :
    Option (HttpStarted C) :=
  (httpText ps cf lines).bind fun text =>
    (initComplex cc vars text.blocks).bind fun confs =>
      let res := httpInit { answers with complex := true } (text.conf.merged merges)
      if res.1 = .ok then
        some { conf := text.conf.merged merges, confs := confs.1, mem := res.2 }
      else none

/-- The configuration of a metric. -/
def HttpStarted.metric (s : HttpStarted C) (metric : Metric) : MetricConf (Option C) :=
  s.confs.getD (s.conf.metrics.idxOf metric) MetricConf.zero

/-- A worker process of the HTTP module. -/
def HttpStarted.worker (s : HttpStarted C) (host : Host) : WorkerConf (Option C) Split Fault :=
  startedWorker .http s.conf.contexts s.conf.slots s.metric host

section Started

variable {ps : Parsers} {cf : ConfSlots} {cc : Compiler C} {vars : Variables}
  {answers : InitAnswers} {lines : List HttpLine} {merges : List (Nat × Nat)} {s : HttpStarted C}

theorem httpStart_eq_some (h : httpStart ps cf cc vars answers lines merges = some s) :
    ∃ text vars', httpText ps cf lines = some text ∧
      initComplex cc vars text.blocks = some (s.confs, vars') ∧
      s.conf = text.conf.merged merges ∧
      httpInit { answers with complex := true } s.conf = (.ok, s.mem) := by
  rcases Option.bind_eq_some_iff.mp h with ⟨text, htext, h⟩
  rcases Option.bind_eq_some_iff.mp h with ⟨⟨confs, vars'⟩, hcomplex, h⟩
  simp only at h
  split at h
  · rename_i hok
    cases h
    exact ⟨text, vars', htext, hcomplex, rfl, Prod.ext hok rfl⟩
  · cases h

/-- The merges make no metric: what an array has was there before. -/
theorem merged_contexts {conf : HttpConf}
    (harrays : ∀ array, ∀ metric ∈ conf.contexts.arrays array, metric ∈ conf.metrics)
    (merges : List (Nat × Nat)) :
    ∀ array, ∀ metric ∈ (conf.merged merges).contexts.arrays array, metric ∈ conf.metrics := by
  have hstep : ∀ (conf' : HttpConf) (e : Nat × Nat),
      (∀ array, ∀ metric ∈ conf'.contexts.arrays array, metric ∈ conf.metrics) →
      ∀ array, ∀ metric ∈ (conf'.merge e.1 e.2).contexts.arrays array, metric ∈ conf.metrics := by
    intro conf' e harrays'
    show ∀ array, ∀ metric ∈ (conf'.contexts.merge e.1 e.2).arrays array, _
    unfold Contexts.merge
    cases conf'.contexts.confs e.1 with
    | none => exact harrays'
    | some array =>
        cases conf'.contexts.confs e.2 with
        | none => exact harrays'
        | some own =>
            intro array' metric hmetric
            simp only [Function.update_apply] at hmetric
            split at hmetric
            · rcases List.mem_append.mp hmetric with hown | hpushed
              · exact harrays' own metric hown
              · exact harrays' array metric hpushed
            · exact harrays' array' metric hmetric
  exact Run.exec_invariant hstep harrays merges

/-- A worker finds only metrics of `smcf->confs` in its contexts. -/
theorem HttpText.Reads.contexts_metrics {text : HttpText} (h : text.Reads ps cf lines)
    (merges : List (Nat × Nat)) :
    ∀ c, ∀ metric ∈ (text.conf.merged merges).contexts.metrics c, metric ∈ text.conf.metrics := by
  have hown : ∀ array, ∀ metric ∈ text.conf.contexts.arrays array,
      metric ∈ text.conf.metrics := by
    intro array metric hmetric
    rw [h.contexts] at hmetric
    rcases List.mem_map.mp hmetric with ⟨j, hj, rfl⟩
    exact (h.metrics _).mpr (List.mem_range.mp hj)
  intro c metric hmetric
  unfold Contexts.metrics at hmetric
  split at hmetric
  · cases hmetric
  · exact merged_contexts hown merges _ metric hmetric

/-- What is made of a metric: its block stands where the context says, the blocks on the lines
before it leave the variables it is initialised with, and its place among `smcf->confs` is
behind theirs. -/
def MadeInPlace (cf : ConfSlots) (cc : Compiler C) (vars : Variables) (lines : List HttpLine)
    (confs : List (MetricConf (Option C))) (metric : Metric) (conf : MetricConf (Option C)) :
    Prop :=
  ∃ before name block after shcs shc vars₁ vars₂,
    lines = before ++ .metric metric.1 name block :: after ∧
    (blocksIn before metric.1).length = metric.2 ∧
    ((before.filterMap HttpLine.block).mapM fun block =>
      ((httpBlock cf).metricSlot block.1 block.2).toOption) = some shcs ∧
    (httpBlock cf).metricSlot name block = .ok shc ∧
    initComplex cc vars shcs = some (confs.take shcs.length, vars₁) ∧
    initConf cc vars₁ shc = some (conf, vars₂) ∧
    confs[shcs.length]? = some conf

/-- Each metric of `smcf->confs` is made in its place. -/
theorem HttpText.Reads.made {text : HttpText} (h : text.Reads ps cf lines)
    {confs : List (MetricConf (Option C))} {vars' : Variables}
    (hcomplex : initComplex cc vars text.blocks = some (confs, vars')) {k : Nat} {metric : Metric}
    (hget : text.conf.metrics[k]? = some metric) :
    ∃ conf, confs[k]? = some conf ∧ MadeInPlace cf cc vars lines confs metric conf := by
  rcases h.placed k metric hget with ⟨before, ⟨name, block⟩, ⟨after, hsplit⟩, hown, hplace⟩
  let read : Str × List BlockDirective → Option (MetricBlock Str) := fun block =>
    ((httpBlock cf).metricSlot block.1 block.2).toOption
  rcases mapM_eq_some_iff.mp h.blocks with ⟨hgood, hblocks⟩
  have hlines : lines.filterMap HttpLine.block = before.filterMap HttpLine.block ++
      (name, block) :: after.filterMap HttpLine.block := by
    rw [hsplit, List.filterMap_append]
    rfl
  rw [hlines] at hgood hblocks
  rcases Option.isSome_iff_exists.mp (hgood (name, block)
    (List.mem_append_right _ List.mem_cons_self)) with ⟨shc, hread⟩
  -- the blocks before it are read into `shcs`, one each
  have hshcs : (before.filterMap HttpLine.block).mapM read =
      some ((before.filterMap HttpLine.block).filterMap read) :=
    mapM_eq_some_iff.mpr ⟨fun b hb => hgood b (List.mem_append_left _ hb), rfl⟩
  have hlength : ((before.filterMap HttpLine.block).filterMap read).length = k := by
    rw [← hplace]
    exact (forall₂_of_mapM hshcs).length_eq.symm
  have hcons : ((name, block) :: after.filterMap HttpLine.block).filterMap read =
      shc :: (after.filterMap HttpLine.block).filterMap read := List.filterMap_cons_some hread
  change text.blocks = List.filterMap read _ at hblocks
  rw [List.filterMap_append, hcons] at hblocks
  rw [hblocks] at hcomplex
  rcases mapAccum_append_eq_some.mp hcomplex with ⟨confs₁, vars₁, rest, hbefore, hrest, rfl⟩
  rcases mapAccum_cons_eq_some.mp hrest with ⟨conf, vars₂, confs₂, hconf, -, rfl⟩
  have hlength₁ : confs₁.length = k := (length_of_mapAccum hbefore).trans hlength
  have hfound : (confs₁ ++ conf :: confs₂)[k]? = some conf := by
    rw [← hlength₁, List.getElem?_append_right (Nat.le_refl _), Nat.sub_self]
    rfl
  refine ⟨conf, hfound, before, name, block, after, _, shc, vars₁, vars₂, hsplit, hown, hshcs,
    toOption_eq_some.mp hread, ?_, hconf, ?_⟩
  · rw [hlength, ← hlength₁, List.take_left]
    exact hbefore
  · rw [hlength]
    exact hfound

/-- The metrics of `smcf->confs` are those of the blocks, as a configuration of blocks alone
would have them, and a worker finds for a metric of a context what is made in its place of the
block that is written there. -/
theorem configured_metrics (host : Host)
    (h : httpStart ps cf cc vars answers lines merges = some s) :
    httpMetrics cc cf vars (lines.filterMap HttpLine.block) = some s.confs ∧
      ∀ c, ∀ metric ∈ (s.worker host).contexts.metrics c,
        MadeInPlace cf cc vars lines s.confs metric ((s.worker host).metric metric) := by
  rcases httpStart_eq_some h with ⟨text, vars', htext, hcomplex, hconf, -⟩
  have hreads := httpText_reads htext
  constructor
  · unfold httpMetrics
    rw [hreads.blocks]
    show (initComplex cc vars text.blocks).map Prod.fst = _
    rw [hcomplex]
    rfl
  · intro c metric hmetric
    change metric ∈ s.conf.contexts.metrics c at hmetric
    rw [hconf] at hmetric
    have hmem : metric ∈ text.conf.metrics := hreads.contexts_metrics merges c metric hmetric
    have hget : text.conf.metrics[text.conf.metrics.idxOf metric]? = some metric :=
      List.getElem?_idxOf hmem
    rcases hreads.made hcomplex hget with ⟨conf, hfound, hmade⟩
    have hmetrics : s.conf.metrics = text.conf.metrics := by
      rw [hconf]
      exact (HttpConf.merged_spec (HttpConf.parse_spec hreads.parse).1 merges).2
    have hworker : (s.worker host).metric metric = conf := by
      show s.confs.getD (s.conf.metrics.idxOf metric) MetricConf.zero = conf
      rw [hmetrics, List.getD_eq_getElem?_getD, hfound]
      rfl
    rw [hworker]
    exact hmade

/-- After the merges the server of a context is one of `smcf->servers`, and a context that is in
another one has a server, or null. -/
theorem httpStart_slots (h : httpStart ps cf cc vars answers lines merges = some s) :
    s.conf.slots.Valid ∧ ∀ e ∈ merges, (s.conf.slots.locs e.2).server ≠ .unset := by
  rcases httpStart_eq_some h with ⟨text, vars', htext, -, hconf, -⟩
  have hvalid := (HttpConf.parse_spec (httpText_reads htext).parse).1
  rw [hconf]
  exact ⟨(HttpConf.merged_spec hvalid merges).1, fun e he => text.conf.merged_ne_unset he⟩

/-- A worker of a configuration that nginx accepts comes to no fault, whatever it is asked, and
sends only to servers whose initialisation has completed. -/
theorem configured_runs (host : Host)
    (h : httpStart ps cf cc vars answers lines merges = some s)
    (harray : ∀ server ∈ s.conf.slots.servers, server.params.HasArray) [Add Value]
    {events : List (WorkerEvent (Option C))}
    (hserved : ∀ event ∈ events, (s.worker host).Served merges (s.conf.metrics ≠ []) event) :
    ∃ p, Process.run (s.worker host) events = .ok p ∧
      ∀ srv, sendsOf (p.calls srv) ≠ [] →
        ∃ server, s.conf.slots.servers[srv]? = some server ∧
          (s.mem srv).Completed server.params := by
  rcases httpStart_eq_some h with ⟨text, vars', htext, -, hconf, hinit⟩
  have hreads := httpText_reads htext
  rcases httpStart_slots h with ⟨hvalid, hset⟩
  have hmetrics : ∀ c, ∀ metric ∈ s.conf.contexts.metrics c, s.conf.metrics ≠ [] := by
    intro c metric hmetric
    rw [hconf] at hmetric ⊢
    rw [(HttpConf.merged_spec (HttpConf.parse_spec hreads.parse).1 merges).2]
    exact List.ne_nil_of_mem (hreads.contexts_metrics merges c metric hmetric)
  exact startedWorker_runs hvalid hset harray hmetrics
    (fun hne srv server hget => httpInit_completed hinit hne hget) hserved

end Started

/-! ## Example -/

/-- A server, and a metric with a key in a location. -/
def configuredLines : List HttpLine :=
  [.server { ctx := 0, url := ascii "stats:13337", options := [] },
    .metric 1 (ascii "m") [⟨ascii "count", [ascii "1"]⟩, ⟨ascii "key1", [ascii "$b"]⟩]]

/-- What the workers are started with. -/
def startedSample : HttpStarted Str :=
  (httpStart plainParsers plainSlots sampleCompiler sampleVariables InitAnswers.good configuredLines
    [(0, 1)]).get (by rfl)

theorem httpStart_sample :
    httpStart plainParsers plainSlots sampleCompiler sampleVariables InitAnswers.good
      configuredLines [(0, 1)] = some startedSample := by rfl

/-- One address, and a network without failures. -/
def sampleHost : Host where
  env := sampleEnv Value
  num := wholeDoubles
  net := fun _ => sampleNet
  arena := fun _ => 0
  naddrs := fun _ => 1

/-- A request in the location. -/
def locationRequest : Request (Option Str) := { readyRequest with ctx := 1 }

theorem startedSample_served : ∀ event ∈ [WorkerEvent.request locationRequest],
    (startedSample.worker sampleHost).Served [(0, 1)] (startedSample.conf.metrics ≠ []) event := by
  intro event hevent
  cases List.mem_singleton.mp hevent
  refine ⟨⟨(0, 1), List.mem_cons_self, rfl⟩, ?_⟩
  intro srv htarget metric hmetric
  have hsrv : srv = 0 := by
    have hzero : (startedSample.worker sampleHost).target locationRequest.ctx = some 0 := by rfl
    exact Option.some.inj (htarget.symm.trans hzero)
  have hone : (startedSample.worker sampleHost).contexts.metrics locationRequest.ctx =
      [(1, 0)] := by rfl
  rw [hone] at hmetric
  cases List.mem_singleton.mp hmetric
  refine ⟨⟨?_, ?_⟩, ?_⟩
  · intro hsplit
    cases hsplit
  · have hkeys : ∀ key ∈ (startedSample.metric (1, 0)).keys, key.split = false := by decide
    intro key hkey hsplit
    rw [hkeys key hkey] at hsplit
    cases hsplit
  · -- the server does not aggregate
    intro stat hstat hsize
    subst hsrv
    exact absurd rfl hsize

attribute [local instance] sampleAdd in
theorem configured_runs_sample :
    ∃ p, Process.run (startedSample.worker sampleHost) [.request locationRequest] = .ok p ∧
      sendsOf (p.calls 0) ≠ [] ∧
      ∃ server, startedSample.conf.slots.servers[0]? = some server ∧
          (startedSample.mem 0).Completed server.params := by
  rcases configured_runs sampleHost httpStart_sample (by decide) startedSample_served with
    ⟨p, hp, hsent⟩
  have hsome : ((Process.run (startedSample.worker sampleHost)
      [.request locationRequest]).toOption.map fun p => (sendsOf (p.calls 0)).isEmpty) =
        some false := by decide +kernel
  have hsent₀ := eq_of_toOption_map hp hsome
  have hne : sendsOf (p.calls 0) ≠ [] := List.isEmpty_eq_false_iff.mp hsent₀
  exact ⟨p, hp, hne, hsent 0 hne⟩

/-- A metric of the outer context beside the one in the location. -/
def nestedLines : List HttpLine :=
  configuredLines ++ [.metric 0 (ascii "n") [⟨ascii "count", [ascii "2"]⟩]]

/-- What the workers are started with. -/
def nestedSample : HttpStarted Str :=
  (httpStart plainParsers plainSlots sampleCompiler sampleVariables InitAnswers.good nestedLines
    [(0, 1)]).get (by rfl)

/-- The location finds the metric of the outer context, which is made behind its own. -/
theorem configured_metrics_sample :
    (0, 0) ∈ (nestedSample.worker sampleHost).contexts.metrics 1 ∧
      httpMetrics sampleCompiler plainSlots sampleVariables
        (nestedLines.filterMap HttpLine.block) = some nestedSample.confs ∧
      MadeInPlace plainSlots sampleCompiler sampleVariables nestedLines nestedSample.confs (0, 0)
        ((nestedSample.worker sampleHost).metric (0, 0)) := by
  have hstart : httpStart plainParsers plainSlots sampleCompiler sampleVariables InitAnswers.good
      nestedLines [(0, 1)] = some nestedSample := by rfl
  have hmem : (0, 0) ∈ (nestedSample.worker sampleHost).contexts.metrics 1 := by decide
  rcases configured_metrics sampleHost hstart with ⟨hmetrics, hmade⟩
  exact ⟨hmem, hmetrics, hmade 1 (0, 0) hmem⟩

end StatsHouse
