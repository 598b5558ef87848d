import StatsHouse.RunAgreement
import StatsHouse.SlotAgreement
import StatsHouse.StreamStart

/-! # The two modules, from the configuration on

A configuration of the HTTP module is one of the stream module too, when the flag of the servers
is called by its other name. The stream module misses an option, has no `exists` and takes any
number of arguments in a condition; apart from these it reads what the HTTP module reads.

* `modules_agree`: both modules accept such a configuration with a metric, or both reject it,
  and then their workers do the same in every run.
-/

namespace StatsHouse

open Once Outcome Threaded

variable {C : Type}

/-! ## Directives -/

/-- The directive for the stream module. -/
def HttpLine.renamed : HttpLine → HttpLine
  | .server d => .server { d with options := d.options.map renameFlag }
  | .metric c name block => .metric c name block

/-- What both modules know. -/
def HttpLine.Plain : HttpLine → Prop
  | .server d => ∀ arg ∈ d.options, ¬ aggregateValuesKey <+: arg
  | .metric _ _ block => ∀ d ∈ block, d.Plain

/-- The slot functions do the same with the servers of a plain directive. -/
theorem serverSlot_renameFlag {ps : Parsers} {s s' : SlotState} {d : ServerDirective}
    (hplain : (HttpLine.server d).Plain) :
    streamServerSlot ps s d.ctx d.url (d.options.map renameFlag) = .ok s' ↔
      httpServerSlot ps s d.ctx d.url d.options = .ok s' := by
  unfold streamServerSlot httpServerSlot
  simp only [serverSlot_ok_iff, parseArgs_renameFlag_iff hplain]

/-! ## Metrics one by one -/

section Alone

variable {ps : Parsers} {cf : ConfSlots} {cc : Compiler C} {vars : Variables}
  {lines : List HttpLine} {line : HttpLine} {text : HttpText}
  {confs : List (MetricConf (Option C))}

/-- What the HTTP module reads, and what it would make of each metric alone. -/
structure HttpAlone (ps : Parsers) (cf : ConfSlots) (cc : Compiler C)
    (vars : Variables) (lines : List HttpLine) (text : HttpText)
    (confs : List (MetricConf (Option C))) : Prop where
  read : httpText ps cf lines = some text
  alone : (text.blocks.mapM fun shc => (initConf cc vars shc).map Prod.fst) = some confs

/-- What a line adds. -/
def LineAlone (ps : Parsers) (cf : ConfSlots) (cc : Compiler C) (vars : Variables)
    (text₀ : HttpText) (confs₀ : List (MetricConf (Option C))) (text : HttpText)
    (confs : List (MetricConf (Option C))) : HttpLine → Prop
  | .server d => ∃ slots, httpServerSlot ps text₀.conf.slots d.ctx d.url d.options = .ok slots ∧
      text = { text₀ with conf := { text₀.conf with slots := slots } } ∧ confs = confs₀
  | .metric c name block => ∃ shc x, (httpBlock cf).metricSlot name block = .ok shc ∧
      (initConf cc vars shc).map Prod.fst = some x ∧
      text =
        { conf := { text₀.conf with
            contexts := text₀.conf.contexts.metricSlot c
            metrics := text₀.conf.metrics ++ [(c, (text₀.conf.contexts.metrics c).length)] }
          blocks := text₀.blocks ++ [shc] } ∧
      confs = confs₀ ++ [x]

theorem mapM_snoc_eq_some {α β : Type} {f : α → Option β} {as : List α} {a : α} {bs : List β} :
    (as ++ [a]).mapM f = some bs ↔ ∃ bs₀ b, as.mapM f = some bs₀ ∧ f a = some b ∧
      bs = bs₀ ++ [b] := by
  rw [List.mapM_append]
  constructor
  · intro h
    rcases Option.bind_eq_some_iff.mp h with ⟨bs₀, hbefore, h⟩
    rcases Option.bind_eq_some_iff.mp h with ⟨last, hlast, h⟩
    cases h
    rw [List.mapM_cons] at hlast
    rcases Option.bind_eq_some_iff.mp hlast with ⟨b, hb, hnil⟩
    cases hnil
    exact ⟨bs₀, b, hbefore, hb, rfl⟩
  · rintro ⟨bs₀, b, hbefore, hb, rfl⟩
    refine Option.bind_eq_some_iff.mpr ⟨bs₀, hbefore, ?_⟩
    refine Option.bind_eq_some_iff.mpr ⟨[b], ?_, rfl⟩
    rw [List.mapM_cons, hb]
    rfl

theorem httpAlone_append_iff :
    HttpAlone ps cf cc vars (lines ++ [line]) text confs ↔
      ∃ text₀ confs₀, HttpAlone ps cf cc vars lines text₀ confs₀ ∧
        LineAlone ps cf cc vars text₀ confs₀ text confs line := by
  constructor
  · rintro ⟨htext, halone⟩
    rcases httpText_append_eq_some.mp htext with ⟨text₀, hbefore, hline⟩
    cases line with
    -- a server adds no metric
    | server d =>
        rcases Option.map_eq_some_iff.mp hline with ⟨conf, hd, rfl⟩
        have hok := toOption_eq_some.mp hd
        rw [HttpConf.directive] at hok
        cases hslot : httpServerSlot ps text₀.conf.slots d.ctx d.url d.options with
        | error e =>
            rw [hslot] at hok
            cases hok
        | ok slots =>
            rw [hslot] at hok
            cases hok
            exact ⟨text₀, confs, ⟨hbefore, halone⟩, slots, hslot, rfl, rfl⟩
    | metric c name block =>
        rcases Option.bind_eq_some_iff.mp hline with ⟨shc, hread, hmap⟩
        cases hmap
        rcases mapM_snoc_eq_some.mp halone with ⟨confs₀, x, halone₀, hx, rfl⟩
        exact ⟨text₀, confs₀, ⟨hbefore, halone₀⟩, shc, x, toOption_eq_some.mp hread, hx, rfl, rfl⟩
  · rintro ⟨text₀, confs₀, ⟨hbefore, halone₀⟩, hline⟩
    cases line with
    | server d =>
        rcases hline with ⟨slots, hslot, rfl, rfl⟩
        refine ⟨httpText_append_eq_some.mpr ⟨text₀, hbefore, ?_⟩, halone₀⟩
        show ((text₀.conf.directive ps (.server d)).toOption.map _) = _
        rw [HttpConf.directive, hslot]
        rfl
    | metric c name block =>
        rcases hline with ⟨shc, x, hread, hx, rfl, rfl⟩
        refine ⟨httpText_append_eq_some.mpr ⟨text₀, hbefore, ?_⟩,
          mapM_snoc_eq_some.mpr ⟨confs₀, x, halone₀, hx, rfl⟩⟩
        show (((httpBlock cf).metricSlot name block).toOption.bind _) = _
        rw [hread]
        rfl

/-- Of a plain configuration, `ngx_http_statshouse_init_complex` makes what it would make of
each metric alone. -/
theorem httpAlone_iff (hplain : ∀ line ∈ lines, line.Plain)
    (htext : httpText ps cf lines = some text) :
    HttpAlone ps cf cc vars lines text confs ↔
      (initComplex cc vars text.blocks).map Prod.fst = some confs := by
  have hblocks : ∀ block ∈ lines.filterMap HttpLine.block, ∀ d ∈ block.2, d.Plain := by
    intro block hblock
    rcases List.mem_filterMap.mp hblock with ⟨line, hline, hget⟩
    cases line with
    | server d => cases hget
    | metric c name block' =>
        cases hget
        exact hplain _ hline
  rw [initComplex_plain hblocks (httpText_reads htext).blocks]
  exact ⟨fun h => h.alone, fun h => ⟨htext, h⟩⟩

end Alone

/-! ## Reading -/

section Reading

variable {ps : Parsers} {cf : ConfSlots} {cc : Compiler C} {vars : Variables}
  {lines : List HttpLine} {text : HttpText} {conf : StreamConf C}
  {confs : List (MetricConf (Option C))}

/-- What the two modules have read is the same: the servers, the arrays, and the elements. -/
structure SameText (text : HttpText) (confs : List (MetricConf (Option C)))
    (conf : StreamConf C) : Prop where
  slots : text.conf.slots = conf.slots
  contexts : text.conf.contexts = conf.contexts
  found : List.Forall₂ (fun (metric : Metric) x => (conf.elements metric.1)[metric.2]? = some x)
    text.conf.metrics confs

theorem SameText.metric (h : SameText text confs conf) (hreads : conf.Reads cf cc lines)
    (c : Nat) (shc : MetricBlock Str) (x : MetricConf (Option C)) :
    SameText
      { conf := { text.conf with
          contexts := text.conf.contexts.metricSlot c
          metrics := text.conf.metrics ++ [(c, (text.conf.contexts.metrics c).length)] }
        blocks := text.blocks ++ [shc] }
      (confs ++ [x])
      { conf with
        contexts := conf.contexts.metricSlot c
        elements := Function.update conf.elements c (conf.elements c ++ [x]) } := by
  -- the metric is put behind the same number of metrics in both
  have hplace : (text.conf.contexts.metrics c).length = (conf.elements c).length := by
    rw [h.contexts, hreads.contexts, Contexts.parsed_metrics]
    unfold ownBlocks
    rw [List.length_map, List.length_range]
  refine ⟨h.slots, congrArg (·.metricSlot c) h.contexts, ?_⟩
  refine List.rel_append (h.found.imp ?_) (.cons ?_ .nil)
  · -- an element that was there is still there
    intro metric y hget
    simp only [Function.update_apply]
    split
    · rename_i heq
      rw [← heq, List.getElem?_append_left (List.getElem?_eq_some_iff.mp hget).1]
      exact hget
    · exact hget
  · simp only [Function.update_self, hplace]
    exact List.getElem?_concat_length

theorem streamText_of_alone (hplain : ∀ line ∈ lines, line.Plain)
    (h : HttpAlone ps cf cc vars lines text confs) :
    ∃ conf, streamText ps cf cc (lines.map HttpLine.renamed) = some conf ∧
      SameText text confs conf := by
  induction lines using List.reverseRecOn generalizing text confs with
  | nil =>
      rcases h with ⟨htext, halone⟩
      cases htext
      cases halone
      exact ⟨StreamConf.init, rfl, rfl, rfl, .nil⟩
  | append_singleton lines line ih =>
      rcases httpAlone_append_iff.mp h with ⟨text₀, confs₀, hbefore, hline⟩
      have hlast : line.Plain := hplain line (List.mem_append_right lines List.mem_cons_self)
      -- the lines before are read alike, so the last one starts from the same
      rcases ih (fun l hl => hplain l (List.mem_append_left [line] hl)) hbefore with
        ⟨conf₀, hstream, hsame⟩
      rw [List.map_append, List.map_singleton]
      cases line with
      | server d =>
          rcases hline with ⟨slots, hslot, rfl, rfl⟩
          rw [hsame.slots] at hslot
          refine ⟨{ conf₀ with slots := slots },
            streamText_append_eq_some.mpr ⟨conf₀, hstream, ?_⟩, ⟨rfl, hsame.contexts, hsame.found⟩⟩
          show (streamServerSlot ps conf₀.slots d.ctx d.url
            (d.options.map renameFlag)).toOption.map _ = _
          rw [(serverSlot_renameFlag hlast).mpr hslot]
          rfl
      | metric c name block =>
          rcases hline with ⟨shc, x, hread, hx, rfl, rfl⟩
          have hagrees : (((httpBlock cf).metricSlot name block).toOption.bind fun shc =>
              (initConf cc vars shc).map Prod.fst) = _ := block_agrees hlast name vars
          rw [hread] at hagrees
          rcases Option.map_eq_some_iff.mp (hagrees.symm.trans hx) with ⟨shc', hread', rfl⟩
          refine ⟨_, streamText_append_eq_some.mpr ⟨conf₀, hstream, ?_⟩,
            hsame.metric (streamText_reads hstream) c shc _⟩
          show ((streamBlock cf cc.compile).metricSlot name block).toOption.map _ = _
          rw [hread']
          rfl

theorem alone_of_streamText (hplain : ∀ line ∈ lines, line.Plain)
    (h : streamText ps cf cc (lines.map HttpLine.renamed) = some conf) :
    ∃ text confs, HttpAlone ps cf cc vars lines text confs := by
  induction lines using List.reverseRecOn generalizing conf with
  | nil => exact ⟨HttpText.init, [], rfl, rfl⟩
  | append_singleton lines line ih =>
      rw [List.map_append, List.map_singleton] at h
      rcases streamText_append_eq_some.mp h with ⟨conf₀, hbefore, hline⟩
      have hlast : line.Plain := hplain line (List.mem_append_right lines List.mem_cons_self)
      have hrest : ∀ l ∈ lines, l.Plain := fun l hl => hplain l (List.mem_append_left [line] hl)
      rcases ih hrest hbefore with ⟨text₀, confs₀, halone⟩
      rcases streamText_of_alone hrest halone with ⟨conf', hstream, hsame⟩
      -- what the stream module has read is what the other lemma says it reads
      rw [hbefore] at hstream
      cases hstream
      cases line with
      | server d =>
          rcases Option.map_eq_some_iff.mp hline with ⟨slots, hslot, -⟩
          have hslot' := (serverSlot_renameFlag hlast).mp (toOption_eq_some.mp hslot)
          rw [← hsame.slots] at hslot'
          exact ⟨_, _, httpAlone_append_iff.mpr ⟨text₀, confs₀, halone, slots, hslot', rfl, rfl⟩⟩
      | metric c name block =>
          rcases Option.map_eq_some_iff.mp hline with ⟨shc', hread', -⟩
          have hagrees : (((httpBlock cf).metricSlot name block).toOption.bind fun shc =>
              (initConf cc vars shc).map Prod.fst) = _ := block_agrees hlast name vars
          rw [hread'] at hagrees
          rcases Option.bind_eq_some_iff.mp hagrees with ⟨shc, hread, hx⟩
          exact ⟨_, _, httpAlone_append_iff.mpr
            ⟨text₀, confs₀, halone, shc, _, toOption_eq_some.mp hread, hx, rfl, rfl⟩⟩

/-- What the HTTP module has when all metrics are initialised. -/
def httpRead (ps : Parsers) (cf : ConfSlots) (cc : Compiler C) (vars : Variables)
    (lines : List HttpLine) : Option (HttpText × List (MetricConf (Option C))) :=
  (httpText ps cf lines).bind fun text =>
    ((initComplex cc vars text.blocks).map Prod.fst).map fun confs => (text, confs)

/-- Both modules read a plain configuration, and the same of it, or both reject it. -/
theorem texts_agree (hplain : ∀ line ∈ lines, line.Plain) :
    Option.Rel (fun r conf => httpText ps cf lines = some r.1 ∧ SameText r.1 r.2 conf)
      (httpRead ps cf cc vars lines)
      (streamText ps cf cc (lines.map HttpLine.renamed)) := by
  cases hread : httpRead ps cf cc vars lines with
  | none =>
      cases hstream : streamText ps cf cc (lines.map HttpLine.renamed) with
      | none => exact .none
      | some conf =>
          obtain ⟨text, confs, halone⟩ : ∃ text confs,
              HttpAlone ps cf cc vars lines text confs := alone_of_streamText hplain hstream
          unfold httpRead at hread
          rw [halone.read, Option.bind_some, (httpAlone_iff hplain halone.read).mp halone] at hread
          cases hread
  | some r =>
      rcases Option.bind_eq_some_iff.mp hread with ⟨text, htext, hmap⟩
      rcases Option.map_eq_some_iff.mp hmap with ⟨confs, hcomplex, rfl⟩
      rcases streamText_of_alone hplain ((httpAlone_iff hplain htext).mpr hcomplex) with
        ⟨conf, hstream, hsame⟩
      rw [hstream]
      exact .some ⟨htext, hsame⟩

end Reading

/-! ## Starting -/

section Starting

variable {ps : Parsers} {cf : ConfSlots} {cc : Compiler C} {vars : Variables}
  {answers : InitAnswers} {lines : List HttpLine} {merges : List (Nat × Nat)} {text : HttpText}
  {conf : StreamConf C} {confs : List (MetricConf (Option C))}

theorem SameText.merged (h : SameText text confs conf) (merges : List (Nat × Nat)) :
    (text.conf.merged merges).slots = (conf.merged merges).slots ∧
      (text.conf.merged merges).contexts = (conf.merged merges).contexts := by
  have hstep : ∀ (c : HttpConf) (d : StreamConf C) (e : Nat × Nat),
      c.slots = d.slots ∧ c.contexts = d.contexts →
      (c.merge e.1 e.2).slots = (d.merge e.1 e.2).slots ∧
        (c.merge e.1 e.2).contexts = (d.merge e.1 e.2).contexts := by
    rintro c d e ⟨hslots, hcontexts⟩
    unfold HttpConf.merge StreamConf.merge
    rw [hslots, hcontexts]
    exact ⟨rfl, rfl⟩
  exact Run.exec_related hstep ⟨h.slots, h.contexts⟩ merges

/-- The contexts after the merges, which do not look at the rest. -/
theorem HttpConf.merged_contexts (http : HttpConf) (merges : List (Nat × Nat)) :
    (http.merged merges).contexts =
      Run.exec (fun s e => Kind.http.merge s e.1 e.2) http.contexts merges := by
  have hstep : ∀ (c : HttpConf) (s : Contexts) (e : Nat × Nat), c.contexts = s →
      (c.merge e.1 e.2).contexts = Kind.http.merge s e.1 e.2 := by
    rintro c _ e rfl
    rfl
  exact Run.exec_related hstep rfl merges

theorem HttpText.Reads.metrics_ne_nil (h : text.Reads ps cf lines)
    (hmetric : lines.filterMap HttpLine.block ≠ []) : text.conf.metrics ≠ [] := by
  rcases List.exists_mem_of_ne_nil _ hmetric with ⟨block, hblock⟩
  rcases List.mem_filterMap.mp hblock with ⟨line, hline, hget⟩
  cases line with
  | server d => cases hget
  | metric c name block =>
      have hin : (name, block) ∈ blocksIn lines c :=
        List.mem_filterMap.mpr ⟨_, hline, if_pos rfl⟩
      exact List.ne_nil_of_mem ((h.metrics (c, 0)).mpr (List.length_pos_of_mem hin))

theorem blocksIn_renamed (lines : List HttpLine) (c : Nat) :
    blocksIn (lines.map HttpLine.renamed) c = blocksIn lines c := by
  unfold blocksIn
  rw [List.filterMap_map]
  congr 1
  funext line
  cases line with
  | server d => rfl
  | metric d name block => rfl

/-- A metric of the HTTP module and an element of the stream module, or neither. -/
theorem SameText.getD_eq (h : SameText text confs conf) (hread : text.Reads ps cf lines)
    (hread' : conf.Reads cf cc (lines.map HttpLine.renamed)) (metric : Metric) :
    confs.getD (text.conf.metrics.idxOf metric) MetricConf.zero =
      (conf.elements metric.1).getD metric.2 MetricConf.zero := by
  by_cases hmem : metric ∈ text.conf.metrics
  · have hget := (forall₂_getD h.found hmem MetricConf.zero).1
    rw [List.getD_eq_getElem?_getD (l := conf.elements metric.1), hget]
    rfl
  -- not a metric of either: both give the default
  · have hlength : (conf.elements metric.1).length ≤ metric.2 := by
      rw [hread'.length, blocksIn_renamed]
      exact Nat.le_of_not_lt fun hlt => hmem ((hread.metrics metric).mpr hlt)
    have hend : confs.length ≤ text.conf.metrics.idxOf metric := by
      rw [List.idxOf_eq_length hmem, h.found.length_eq]
    rw [List.getD_eq_getElem?_getD, List.getD_eq_getElem?_getD, List.getElem?_eq_none hend,
      List.getElem?_eq_none hlength]

/-- What the workers of the two modules are started with. -/
structure SameStart (lines : List HttpLine) (merges : List (Nat × Nat)) (s : HttpStarted C)
    (t : StreamStarted C) : Prop where
  slots : s.conf.slots = t.conf.slots
  mem : s.mem = t.mem
  http : s.conf.contexts = Kind.http.merged (fun c => (blocksIn lines c).length) merges
  stream : t.conf.contexts = Kind.stream.merged (fun c => (blocksIn lines c).length) merges
  metric : s.metric = t.metric

theorem httpStart_eq :
    httpStart ps cf cc vars answers lines merges =
      (httpRead ps cf cc vars lines).bind fun r =>
        let res := httpInit { answers with complex := true } (r.1.conf.merged merges)
        if res.1 = .ok then
          some { conf := r.1.conf.merged merges, confs := r.2, mem := res.2 }
        else none := by
  unfold httpStart httpRead
  cases httpText ps cf lines with
  | none => rfl
  | some text =>
      simp only [Option.bind_some]
      cases initComplex cc vars text.blocks with
      | none => rfl
      | some r => rfl

/-- Both modules start, or both do not. -/
theorem starts_agree (hplain : ∀ line ∈ lines, line.Plain)
    (hmetric : lines.filterMap HttpLine.block ≠ []) :
    Option.Rel (SameStart lines merges) (httpStart ps cf cc vars answers lines merges)
      (streamStart ps cf cc answers (lines.map HttpLine.renamed) merges) := by
  have htexts : Option.Rel _ (httpRead ps cf cc vars lines)
      (streamText ps cf cc (lines.map HttpLine.renamed)) := texts_agree hplain
  rw [httpStart_eq]
  unfold streamStart
  cases hread : httpRead ps cf cc vars lines with
  | none =>
      rw [hread] at htexts
      cases hstream : streamText ps cf cc (lines.map HttpLine.renamed) with
      | none => exact .none
      | some conf =>
          rw [hstream] at htexts
          cases htexts
  | some r =>
      rw [hread] at htexts
      cases hstream : streamText ps cf cc (lines.map HttpLine.renamed) with
      | none =>
          rw [hstream] at htexts
          cases htexts
      | some conf =>
          rw [hstream] at htexts
          rcases Option.rel_some_some.mp htexts with ⟨htext, hsame⟩
          have hreads := httpText_reads htext
          have hreads' := streamText_reads hstream
          have hspec := HttpConf.merged_spec (HttpConf.parse_spec hreads.parse).1 merges
          rcases hsame.merged merges with ⟨hslots, hcontexts⟩
          -- the servers are the same, and there is a metric
          have hinit : httpInit { answers with complex := true } (r.1.conf.merged merges) =
              streamInit answers (conf.merged merges).slots := by
            rw [httpInit_eq_streamInit (hspec.2 ▸ hreads.metrics_ne_nil hmetric), hslots]
          simp only [Option.bind_some, hinit]
          split
          · have hhttp : (r.1.conf.merged merges).contexts =
                Kind.http.merged (fun c => (blocksIn lines c).length) merges := by
              rw [HttpConf.merged_contexts, hreads.contexts]
              rfl
            refine .some ⟨hslots, rfl, hhttp, ?_, ?_⟩
            · show (conf.merged merges).contexts = _
              rw [← hcontexts, hhttp, Kind.merged_eq .http .stream]
            · funext metric
              show r.2.getD ((r.1.conf.merged merges).metrics.idxOf metric) MetricConf.zero = _
              rw [hspec.2]
              exact hsame.getD_eq hreads hreads' metric
          · exact .none

end Starting

/-! ## Running -/

/-- Two workers come to no fault, send the same metrics at the same times, call every server with
the same and leave it in the same state. -/
def RunsAgree [Add Value] {P ε : Type} (wc wc' : WorkerConf C P ε)
    (events : List (WorkerEvent C)) : Prop :=
  ∃ p q, Process.run wc events = .ok p ∧ Process.run wc' events = .ok q ∧
    p.sent = q.sent ∧ p.calls = q.calls ∧ p.systems = q.systems

/-- No metric with a timeout is copied into another context. -/
def HttpStarted.TimedInPlace (s : HttpStarted C) (lines : List HttpLine)
    (merges : List (Nat × Nat)) : Prop :=
  Run.Meets (fun contexts e => Kind.stream.merge contexts e.1 e.2)
    (NoCopy fun metric => (s.metric metric).timeout ≠ 0)
    (Contexts.parsed fun c => (blocksIn lines c).length) merges

theorem SameStart.workers {lines : List HttpLine} {merges : List (Nat × Nat)} {s : HttpStarted C}
    {t : StreamStarted C} (h : SameStart lines merges s t) (host : Host) :
    s.worker host =
        (s.worker host).ofKind (fun c => (blocksIn lines c).length) merges .http ∧
      t.worker host =
        (s.worker host).ofKind (fun c => (blocksIn lines c).length) merges .stream := by
  unfold HttpStarted.worker StreamStarted.worker startedWorker WorkerConf.ofKind
  constructor
  · rw [← h.http]
  · simp only [← h.metric, ← h.slots, h.stream]

/-- Of a configuration with a metric that uses only what both modules know, both modules start,
or both reject it. When they start, and no metric with a timeout is copied into another context,
their workers do the same in every run. -/
theorem modules_agree [Add Value] (ps : Parsers) (cf : ConfSlots) (cc : Compiler C)
    (vars : Variables) (answers : InitAnswers) (lines : List HttpLine)
    (merges : List (Nat × Nat)) (host : Host) (hplain : ∀ line ∈ lines, line.Plain)
    (hmetric : lines.filterMap HttpLine.block ≠ []) :
    Option.Rel (fun s t => s.TimedInPlace lines merges →
        (∀ server ∈ s.conf.slots.servers, server.params.HasArray) →
        ∀ events, (∀ event ∈ events, (s.worker host).Served merges (s.conf.metrics ≠ []) event) →
          RunsAgree (s.worker host) (t.worker host) events)
      (httpStart ps cf cc vars answers lines merges)
      (streamStart ps cf cc answers (lines.map HttpLine.renamed) merges) := by
  have hstarts : Option.Rel (SameStart lines merges)
      (httpStart ps cf cc vars answers lines merges)
      (streamStart ps cf cc answers (lines.map HttpLine.renamed) merges) :=
    starts_agree hplain hmetric
  cases hhttp : httpStart ps cf cc vars answers lines merges with
  | none =>
      rw [hhttp] at hstarts
      cases hstream : streamStart ps cf cc answers (lines.map HttpLine.renamed) merges with
      | none => exact .none
      | some t =>
          rw [hstream] at hstarts
          cases hstarts
  | some s =>
      rw [hhttp] at hstarts
      cases hstream : streamStart ps cf cc answers (lines.map HttpLine.renamed) merges with
      | none =>
          rw [hstream] at hstarts
          cases hstarts
      | some t =>
          rw [hstream] at hstarts
          rcases (Option.rel_some_some.mp hstarts).workers host with ⟨hworker, hworker'⟩
          refine .some ?_
          intro hinplace harray events hserved
          rcases httpStart_slots hhttp with ⟨hvalid, hset⟩
          have husable : ∀ event ∈ events, ((s.worker host).ofKind
              (fun c => (blocksIn lines c).length) merges .http).Usable event := by
            intro event hevent
            rw [← hworker]
            exact startedWorker_usable hvalid hset harray (hserved event hevent)
          unfold RunsAgree
          rw [hworker', hworker]
          exact Process.run_ofKind (s.worker host) (Kind.merged_inPlace .stream hinplace) husable

attribute [local instance] sampleAdd in
/-- The configuration of a server and a metric in a location. -/
theorem modules_agree_sample :
    ∃ t, streamStart plainParsers plainSlots sampleCompiler InitAnswers.good
        (configuredLines.map HttpLine.renamed) [(0, 1)] = some t ∧
      RunsAgree (startedSample.worker sampleHost) (t.worker sampleHost)
        [.request locationRequest] := by
  have hplain : ∀ line ∈ configuredLines, line.Plain := by
    intro line hline
    simp only [configuredLines, List.mem_cons, List.not_mem_nil, or_false] at hline
    rcases hline with rfl | rfl
    · intro arg harg
      cases harg
    · show ∀ d ∈ [_, _], BlockDirective.Plain d
      decide
  have hrel := modules_agree plainParsers plainSlots sampleCompiler sampleVariables InitAnswers.good
    configuredLines [(0, 1)] sampleHost hplain (by decide)
  rw [httpStart_sample] at hrel
  cases hstream : streamStart plainParsers plainSlots sampleCompiler InitAnswers.good
      (configuredLines.map HttpLine.renamed) [(0, 1)] with
  | none =>
      rw [hstream] at hrel
      cases hrel
  | some t =>
      rw [hstream] at hrel
      refine ⟨t, rfl, Option.rel_some_some.mp hrel ?_ (by decide) _ startedSample_served⟩
      refine ⟨?_, trivial⟩
      -- the outer context has no metric
      intro array harray
      have hnone : (Contexts.parsed fun c => (blocksIn configuredLines c).length).confs 0 = none :=
        rfl
      rw [hnone] at harray
      cases harray

end StatsHouse
