import StatsHouse.Configured

/-! # The configuration of the stream module

The stream module compiles a string where it reads it, and the arrays of its contexts have
configurations for elements: a merge copies them. `ngx_stream_statshouse_init` initialises the
servers whenever there are any.

* `stream_elements`: what a handler finds at an index of an array, after all merges, is what was
  made of the block that is written for it, in whatever context that stands;
* `stream_runs`: a worker comes to no fault in any run and sends to initialised servers only, also
  if there is no metric.
-/

namespace StatsHouse

open Once Outcome Threaded

variable {C : Type}

/-! ## Directives -/

/-- `smcf->servers` and the server of each context, the array of each context by the blocks its
elements are of, and the elements. -/
structure StreamConf (C : Type) where
  slots : SlotState
  contexts : Contexts
  elements : Nat → List (MetricConf (Option C))

def StreamConf.init : StreamConf C :=
  { slots := SlotState.init, contexts := Contexts.empty, elements := fun _ => [] }

/-- `ngx_stream_statshouse_server_slot`, or `ngx_stream_statshouse_metric_slot`, which pushes
the element that its block is read into. The directives have the form of those of the HTTP
module. -/
def StreamConf.line (ps : Parsers) (cf : ConfSlots) (cc : Compiler C)
    (conf : StreamConf C) : HttpLine → Option (StreamConf C)
  | .server d =>
    (streamServerSlot ps conf.slots d.ctx d.url d.options).toOption.map fun slots =>
      { conf with slots := slots }
  | .metric c name block =>
    ((streamBlock cf cc.compile).metricSlot name block).toOption.map fun shc =>
      { conf with
        contexts := conf.contexts.metricSlot c
        elements := Function.update conf.elements c (conf.elements c ++ [shc.streamConf]) }

/-- The directives of a configuration, in order. -/
def streamText (ps : Parsers) (cf : ConfSlots) (cc : Compiler C)
    (lines : List HttpLine) : Option (StreamConf C) :=
  lines.foldlM (StreamConf.line ps cf cc) StreamConf.init

/-- `ngx_stream_statshouse_merge_srv_conf`. -/
def StreamConf.merge (conf : StreamConf C) (prev inner : Nat) : StreamConf C :=
  { slots := { conf.slots with
      locs := Function.update conf.slots.locs inner
        ((conf.slots.locs prev).merge (conf.slots.locs inner)) }
    contexts := mergeSrvConf conf.contexts prev inner
    elements :=
      match conf.contexts.confs prev, conf.contexts.confs inner with
      | some array, some own =>
        -- `*sconf = sconfs[i]` for each element
        Function.update conf.elements own (conf.elements own ++ conf.elements array)
      | _, _ => conf.elements }

def StreamConf.merged (conf : StreamConf C) (merges : List (Nat × Nat)) : StreamConf C :=
  Run.exec (fun conf e => conf.merge e.1 e.2) conf merges

/-! ## Start -/

/-- `ngx_stream_statshouse_init`, which does not look at the metrics. -/
def streamInit (answers : InitAnswers) (slots : SlotState) : Rc × (Nat → ServerMemory) :=
  let mem := fun _ => ServerMemory.zero
  if slots.servers = [] then (.ok, mem)
  else
    let res := initServers answers.server slots.servers 0 mem
    if res.1 ≠ .ok then (.error, res.2)
    else if answers.handler = false then (.error, res.2)
    else (.ok, res.2)

/-- What the workers are started with: the configuration as it was read and after the merges,
and the memory of the servers. -/
structure StreamStarted (C : Type) where
  parsed : StreamConf C
  conf : StreamConf C
  mem : Nat → ServerMemory

/-- What nginx does with the stream part of its configuration. -/
def streamStart (ps : Parsers) (cf : ConfSlots) (cc : Compiler C)
    (answers : InitAnswers) (lines : List HttpLine) (merges : List (Nat × Nat)) :
    Option (StreamStarted C) :=
  (streamText ps cf cc lines).bind fun conf =>
    let res := streamInit answers (conf.merged merges).slots
    if res.1 = .ok then some { parsed := conf, conf := conf.merged merges, mem := res.2 } else none

/-- The configuration that was made of a block. -/
def StreamStarted.metric (s : StreamStarted C) (metric : Metric) : MetricConf (Option C) :=
  (s.parsed.elements metric.1).getD metric.2 MetricConf.zero

/-- A worker process of the stream module. -/
def StreamStarted.worker (s : StreamStarted C) (host : Host) : WorkerConf (Option C) Split Fault :=
  startedWorker .stream s.conf.contexts s.conf.slots s.metric host

/-! ## Elements -/

section Elements

variable {ps : Parsers} {cf : ConfSlots} {cc : Compiler C} {answers : InitAnswers}
  {lines : List HttpLine} {merges : List (Nat × Nat)} {conf : StreamConf C} {s : StreamStarted C}

/-- The block of a metric, and what the stream module makes of it. -/
def StreamWritten (cf : ConfSlots) (cc : Compiler C) (lines : List HttpLine)
    (metric : Metric) (x : MetricConf (Option C)) : Prop :=
  ∃ name block shc, (blocksIn lines metric.1)[metric.2]? = some (name, block) ∧
    (streamBlock cf cc.compile).metricSlot name block = .ok shc ∧ x = shc.streamConf

/-- The configuration after the lines: a context has an element for each of its blocks. -/
structure StreamConf.Reads (cf : ConfSlots) (cc : Compiler C)
    (lines : List HttpLine) (conf : StreamConf C) : Prop where
  contexts : conf.contexts = Contexts.parsed fun c => (conf.elements c).length
  length : ∀ c, (conf.elements c).length = (blocksIn lines c).length
  written : ∀ c j x, (conf.elements c)[j]? = some x → StreamWritten cf cc lines (c, j) x

theorem StreamWritten.append {metric : Metric} {x : MetricConf (Option C)}
    (h : StreamWritten cf cc lines metric x) (lines' : List HttpLine) :
    StreamWritten cf cc (lines ++ lines') metric x := by
  rcases h with ⟨name, block, shc, hget, hread⟩
  refine ⟨name, block, shc, ?_, hread⟩
  rw [blocksIn_append, List.getElem?_append_left (List.getElem?_eq_some_iff.mp hget).1]
  exact hget

/-- One block more. -/
theorem StreamConf.Reads.metric {c : Nat} {name : Str} {block : List BlockDirective}
    {shc : MetricBlock C} (h : conf.Reads cf cc lines)
    (hread : (streamBlock cf cc.compile).metricSlot name block = .ok shc) :
    StreamConf.Reads cf cc (lines ++ [.metric c name block])
      { conf with
        contexts := conf.contexts.metricSlot c
        elements := Function.update conf.elements c (conf.elements c ++ [shc.streamConf]) } := by
  refine ⟨?_, ?_, ?_⟩
  -- the array has one element more
  · show conf.contexts.metricSlot c = _
    rw [h.contexts, Contexts.metricSlot_parsed]
    congr 1
    funext d
    simp only [Function.update_apply]
    split
    · rw [List.length_append, List.length_singleton]
    · rfl
  -- so has the context, in elements and in blocks
  · intro d
    rw [blocksIn_metric]
    simp only [Function.update_apply]
    by_cases hdc : d = c
    · subst hdc
      rw [if_pos rfl, if_pos rfl, List.length_append, List.length_append, h.length]
      rfl
    · rw [if_neg hdc, if_neg (Ne.symm hdc), List.append_nil, h.length]
  · intro d j x hget
    simp only [Function.update_apply] at hget
    by_cases hdc : d = c
    · subst hdc
      rw [if_pos rfl, List.getElem?_append] at hget
      split at hget
      · exact (h.written d j x hget).append _
      · -- the new element, at the place of the new block
        rename_i hnew
        have hj : j - (conf.elements d).length = 0 := by
          have hlt := (List.getElem?_eq_some_iff.mp hget).1
          rw [List.length_singleton] at hlt
          omega
        rw [hj] at hget
        cases hget
        refine ⟨name, block, shc, ?_, hread, rfl⟩
        have hplace : j = (blocksIn lines d).length := by
          rw [← h.length d]
          omega
        show (blocksIn (lines ++ [.metric d name block]) d)[j]? = _
        rw [blocksIn_metric, if_pos rfl, hplace, List.getElem?_concat_length]
    · rw [if_neg hdc] at hget
      exact (h.written d j x hget).append _

theorem streamText_append_eq_some {line : HttpLine} {conf' : StreamConf C} :
    streamText ps cf cc (lines ++ [line]) = some conf' ↔
      ∃ conf, streamText ps cf cc lines = some conf ∧
        conf.line ps cf cc line = some conf' := by
  unfold streamText
  exact foldlM_snoc_eq_some

theorem streamText_reads (h : streamText ps cf cc lines = some conf) :
    conf.Reads cf cc lines := by
  induction lines using List.reverseRecOn generalizing conf with
  | nil =>
      cases h
      exact ⟨rfl, fun _ => rfl, fun c j x hget => by cases hget⟩
  | append_singleton lines line ih =>
      rcases streamText_append_eq_some.mp h with ⟨conf₀, hbefore, hline⟩
      have hreads := ih hbefore
      cases line with
      | server d =>
          rcases Option.map_eq_some_iff.mp hline with ⟨slots, -, rfl⟩
          refine ⟨hreads.contexts, ?_, fun c j x hget => (hreads.written c j x hget).append _⟩
          intro c
          rw [blocksIn_server]
          exact hreads.length c
      | metric c name block =>
          rcases Option.map_eq_some_iff.mp hline with ⟨shc, hread, rfl⟩
          exact hreads.metric (toOption_eq_some.mp hread)

/-- The elements are those of `p`, by the blocks they are of. -/
structure StreamConf.Copies (p conf : StreamConf C) : Prop where
  length : ∀ array, (conf.elements array).length = (conf.contexts.arrays array).length
  copy : ∀ (array i : Nat) (metric : Metric), (conf.contexts.arrays array)[i]? = some metric →
    ∃ x, (conf.elements array)[i]? = some x ∧ (p.elements metric.1)[metric.2]? = some x

theorem StreamConf.Reads.copies (h : conf.Reads cf cc lines) : conf.Copies conf := by
  have harray : ∀ array, conf.contexts.arrays array =
      (List.range (conf.elements array).length).map fun j => (array, j) := by
    intro array
    conv_lhs => rw [h.contexts]
    rfl
  constructor
  · intro array
    rw [harray, List.length_map, List.length_range]
  · intro array i metric hget
    rw [harray, List.getElem?_map] at hget
    rcases Option.map_eq_some_iff.mp hget with ⟨j, hj, rfl⟩
    rcases List.getElem?_eq_some_iff.mp hj with ⟨hlt, heq⟩
    rw [List.getElem_range] at heq
    subst heq
    rw [List.length_range] at hlt
    exact ⟨_, List.getElem?_eq_getElem hlt, List.getElem?_eq_getElem hlt⟩

/-- A merge copies elements with the names of their blocks. -/
theorem StreamConf.Copies.merge {p : StreamConf C} (h : p.Copies conf) (prev inner : Nat) :
    p.Copies (conf.merge prev inner) := by
  unfold StreamConf.merge mergeSrvConf Contexts.merge
  -- only two arrays make copies: a context without one shares that of the outer one
  cases conf.contexts.confs prev with
  | none => exact ⟨h.length, h.copy⟩
  | some array =>
      cases conf.contexts.confs inner with
      | none => exact ⟨h.length, h.copy⟩
      | some own =>
          constructor
          · intro array'
            simp only [Function.update_apply]
            split
            · rw [List.length_append, List.length_append, h.length, h.length]
            · exact h.length array'
          · intro array' i metric hget
            simp only [Function.update_apply] at hget ⊢
            split
            · rename_i heq
              rw [if_pos heq] at hget
              -- the elements that were there, and behind them the copies
              rw [List.getElem?_append, h.length]
              rw [List.getElem?_append] at hget
              split
              · rename_i hlt
                rw [if_pos hlt] at hget
                exact h.copy own i metric hget
              · rename_i hge
                rw [if_neg hge] at hget
                exact h.copy array _ metric hget
            · rename_i hne
              rw [if_neg hne] at hget
              exact h.copy array' i metric hget

theorem StreamConf.Copies.merged {p : StreamConf C} (h : p.Copies conf)
    (merges : List (Nat × Nat)) : p.Copies (conf.merged merges) :=
  Run.exec_invariant (fun _ e hcopies => hcopies.merge e.1 e.2) h merges

theorem streamStart_eq_some (h : streamStart ps cf cc answers lines merges = some s) :
    streamText ps cf cc lines = some s.parsed ∧ s.conf = s.parsed.merged merges ∧
      streamInit answers s.conf.slots = (.ok, s.mem) := by
  rcases Option.bind_eq_some_iff.mp h with ⟨conf, htext, h⟩
  simp only at h
  split at h
  · rename_i hok
    cases h
    exact ⟨htext, rfl, Prod.ext hok rfl⟩
  · cases h

/-- After all merges, the element that a handler finds at an index of an array is what was made
of the block of its metric, and that is what a worker evaluates. -/
theorem stream_elements (host : Host)
    (h : streamStart ps cf cc answers lines merges = some s) {c i : Nat}
    {object : Object} {metric : Metric}
    (hobject : (s.worker host).contexts.object .stream c i = some (object, metric)) :
    ∃ array, object = .element array i ∧
      (s.conf.elements array)[i]? = some ((s.worker host).metric metric) ∧
      StreamWritten cf cc lines metric ((s.worker host).metric metric) := by
  rcases streamStart_eq_some h with ⟨htext, hconf, -⟩
  have hreads := streamText_reads htext
  rcases Contexts.object_stream hobject with ⟨array, hplace, hget⟩
  have hcopies : s.parsed.Copies s.conf := by
    rw [hconf]
    exact hreads.copies.merged merges
  rcases hcopies.copy array i metric hget with ⟨x, helement, hblock⟩
  -- the worker evaluates the element as it was parsed
  have hmetric : (s.worker host).metric metric = x := by
    show (s.parsed.elements metric.1).getD metric.2 MetricConf.zero = x
    rw [List.getD_eq_getElem?_getD, hblock]
    rfl
  rw [hmetric]
  exact ⟨array, hplace, helement, hreads.written metric.1 metric.2 x hblock⟩

end Elements

/-! ## Runs -/

section Runs

variable {ps : Parsers} {cf : ConfSlots} {cc : Compiler C} {answers : InitAnswers}
  {lines : List HttpLine} {merges : List (Nat × Nat)} {conf : StreamConf C} {s : StreamStarted C}

/-- With a metric the two modules initialise the same servers. -/
theorem httpInit_eq_streamInit {http : HttpConf} (hmetrics : http.metrics ≠ []) :
    httpInit { answers with complex := true } http = streamInit answers http.slots := by
  unfold httpInit streamInit
  simp only [hmetrics, or_false]
  rfl

/-- Every server is initialised, with a metric or without. -/
theorem streamInit_completed {slots : SlotState} {mem : Nat → ServerMemory}
    (h : streamInit answers slots = (.ok, mem)) {i : Nat} {server : ServerObject}
    (hget : slots.servers[i]? = some server) : (mem i).Completed server.params := by
  -- the HTTP module would do the same if there was a metric
  let http : HttpConf := { slots := slots, contexts := Contexts.empty, metrics := [(0, 0)] }
  have hmetrics : http.metrics ≠ [] := List.cons_ne_nil _ _
  have hinit : httpInit { answers with complex := true } http = (.ok, mem) := by
    rw [httpInit_eq_streamInit hmetrics]
    exact h
  exact httpInit_completed hinit hmetrics hget

theorem streamText_valid (h : streamText ps cf cc lines = some conf) :
    conf.slots.Valid := by
  induction lines using List.reverseRecOn generalizing conf with
  | nil =>
      cases h
      intro c i hloc
      cases hloc
  | append_singleton lines line ih =>
      rcases streamText_append_eq_some.mp h with ⟨conf₀, hbefore, hline⟩
      have hvalid := ih hbefore
      cases line with
      | server d =>
          rcases Option.map_eq_some_iff.mp hline with ⟨slots, hslot, rfl⟩
          obtain ⟨-, args, -, rfl⟩ := serverSlot_ok_iff.mp (toOption_eq_some.mp hslot)
          exact hvalid.attach d.ctx args
      | metric c name block =>
          rcases Option.map_eq_some_iff.mp hline with ⟨shc, -, rfl⟩
          exact hvalid

/-- The servers after the merges are those of the HTTP module, whatever the metrics are. -/
theorem StreamConf.merged_slots (conf : StreamConf C) (http : HttpConf)
    (h : conf.slots = http.slots) (merges : List (Nat × Nat)) :
    (conf.merged merges).slots = (http.merged merges).slots := by
  have hstep : ∀ (c : StreamConf C) (d : HttpConf) (e : Nat × Nat), c.slots = d.slots →
      (c.merge e.1 e.2).slots = (d.merge e.1 e.2).slots := by
    intro c d e hslots
    unfold StreamConf.merge HttpConf.merge
    rw [hslots]
  exact Run.exec_related hstep h merges

/-- After the merges the server of a context is one of `smcf->servers`, and a context that is in
another one has a server, or null. -/
theorem streamStart_slots (h : streamStart ps cf cc answers lines merges = some s) :
    s.conf.slots.Valid ∧ ∀ e ∈ merges, (s.conf.slots.locs e.2).server ≠ .unset := by
  rcases streamStart_eq_some h with ⟨htext, hconf, -⟩
  -- the merges treat the servers as those of the HTTP module
  let http : HttpConf := { slots := s.parsed.slots, contexts := Contexts.empty, metrics := [] }
  have hslots : s.conf.slots = (http.merged merges).slots := by
    rw [hconf]
    exact s.parsed.merged_slots http rfl merges
  have hvalid : http.slots.Valid := streamText_valid htext
  rw [hslots]
  constructor
  · exact (HttpConf.merged_spec hvalid merges).1
  · intro e he
    exact http.merged_ne_unset he

/-- A worker of a configuration that the stream module accepts comes to no fault, whatever it is
asked, and all servers it sends to are initialised, with a metric in the configuration or
without. -/
theorem stream_runs (host : Host)
    (h : streamStart ps cf cc answers lines merges = some s)
    (harray : ∀ server ∈ s.conf.slots.servers, server.params.HasArray) [Add Value]
    {events : List (WorkerEvent (Option C))}
    (hserved : ∀ event ∈ events, (s.worker host).Served merges True event) :
    ∃ p, Process.run (s.worker host) events = .ok p ∧
      ∀ srv, sendsOf (p.calls srv) ≠ [] →
        ∃ server, s.conf.slots.servers[srv]? = some server ∧
          (s.mem srv).Completed server.params := by
  rcases streamStart_slots h with ⟨hvalid, hset⟩
  have hinit := (streamStart_eq_some h).2.2
  exact startedWorker_runs hvalid hset harray (fun _ _ _ => trivial)
    (fun _ srv server hget => streamInit_completed hinit hget) hserved

end Runs

/-! ## Example -/

/-- What the workers of the stream module are started with. -/
def nestedStarted : StreamStarted Str :=
  (streamStart plainParsers plainSlots sampleCompiler InitAnswers.good nestedLines [(0, 1)]).get
    (by rfl)

theorem streamStart_nested :
    streamStart plainParsers plainSlots sampleCompiler InitAnswers.good nestedLines [(0, 1)] =
      some nestedStarted := by rfl

/-- The location has a copy of the outer metric, behind its own. -/
theorem stream_elements_sample :
    (nestedStarted.worker sampleHost).contexts.object .stream 1 1 = some (.element 1 1, (0, 0)) ∧
      ∃ array, Object.element 1 1 = .element array 1 ∧
        (nestedStarted.conf.elements array)[1]? =
          some ((nestedStarted.worker sampleHost).metric (0, 0)) ∧
        StreamWritten plainSlots sampleCompiler nestedLines (0, 0)
          ((nestedStarted.worker sampleHost).metric (0, 0)) := by
  have hobject : (nestedStarted.worker sampleHost).contexts.object .stream 1 1 =
      some (.element 1 1, (0, 0)) := by rfl
  exact ⟨hobject, stream_elements sampleHost streamStart_nested hobject⟩

/-- A server, and no metric. -/
def bareStarted : StreamStarted Str :=
  (streamStart plainParsers plainSlots sampleCompiler InitAnswers.good
    [.server { ctx := 0, url := ascii "stats:13337", options := [] }] [(0, 1)]).get (by rfl)

/-- A stat of another module. -/
def otherStat : WorkerEvent (Option Str) :=
  .sendStat 1 7 false { type := .counter, name := ascii "other", keys := [], values := [⟨1⟩] }

attribute [local instance] sampleAdd in
theorem stream_runs_sample :
    ∃ p, Process.run (bareStarted.worker sampleHost) [otherStat] = .ok p ∧
      sendsOf (p.calls 0) ≠ [] ∧
      ∃ server, bareStarted.conf.slots.servers[0]? = some server ∧
        (bareStarted.mem 0).Completed server.params := by
  have hstart : streamStart plainParsers plainSlots sampleCompiler InitAnswers.good
      [.server { ctx := 0, url := ascii "stats:13337", options := [] }] [(0, 1)] =
        some bareStarted := by rfl
  have hserved : ∀ event ∈ [otherStat],
      (bareStarted.worker sampleHost).Served [(0, 1)] True event := by
    intro event hevent
    cases List.mem_singleton.mp hevent
    refine ⟨⟨(0, 1), List.mem_cons_self, rfl⟩, trivial, ?_⟩
    -- the server does not aggregate
    intro srv htarget hsize
    have hzero : (bareStarted.worker sampleHost).target 1 = some 0 := by rfl
    cases Option.some.inj (htarget.symm.trans hzero)
    exact absurd rfl hsize
  rcases stream_runs sampleHost hstart (by decide) hserved with ⟨p, hp, hsent⟩
  have hsome : ((Process.run (bareStarted.worker sampleHost) [otherStat]).toOption.map fun p =>
      (sendsOf (p.calls 0)).isEmpty) = some false := by decide +kernel
  have hsent₀ := eq_of_toOption_map hp hsome
  have hne : sendsOf (p.calls 0) ≠ [] := List.isEmpty_eq_false_iff.mp hsent₀
  exact ⟨p, hp, hne, hsent 0 hne⟩

end StatsHouse
