import StatsHouse.Inherit
import StatsHouse.ServerSlot

/-! # The servers at work

After the configuration is read and its contexts are merged, `ngx_http_statshouse_init`
initialises the servers, unless there is no server or no metric at all. A request finds
the server of its context, and sends to it by two functions: `ngx_http_statshouse_send`
goes through the metrics of the context, `ngx_http_statshouse_send_stat` is for other
modules and does not look at the metrics.

* `calls_initialised_iff`: what a request does goes to an initialised server, unless the
  configuration has servers and no metric, or the context has no server to point to.
-/

namespace StatsHouse

open Intern Outcome

/-! ## Configuration -/

/-- `smcf->servers` and the server of each context, the metrics of each context, and
`smcf->confs`, of which no elements are as good as a null pointer. -/
structure HttpConf where
  slots : SlotState
  contexts : Contexts
  metrics : List Metric

def HttpConf.init : HttpConf :=
  { slots := SlotState.init, contexts := Contexts.empty, metrics := [] }

inductive HttpDirective where
  | server (d : ServerDirective)
  | metric (ctx : Nat)
deriving DecidableEq, Repr

def HttpConf.directive (ps : Parsers) (conf : HttpConf) :
    HttpDirective → Except SlotError HttpConf
  | .server d => do
    let slots ← httpServerSlot ps conf.slots d.ctx d.url d.options
    pure { conf with slots := slots }
  | .metric c =>
    pure { conf with
      contexts := conf.contexts.metricSlot c
      metrics := conf.metrics ++ [(c, (conf.contexts.metrics c).length)] }

/-- The directives of a configuration, in order. -/
def HttpConf.parse (ps : Parsers) (directives : List HttpDirective) : Except SlotError HttpConf :=
  directives.foldlM (HttpConf.directive ps) HttpConf.init

/-- `ngx_conf_merge_value` of `enable` and `ngx_conf_merge_ptr_value` of `server`. -/
def LocConf.merge (prev conf : LocConf) : LocConf :=
  { enable :=
      match conf.enable with
      | some enable => some enable
      | none =>
        match prev.enable with
        | some enable => some enable
        | none => some false
    server :=
      match conf.server with
      | .unset =>
        match prev.server with
        | .unset => .null
        | server => server
      | server => server }

/-- `ngx_http_statshouse_merge_loc_conf`, the metrics and the rest. -/
def HttpConf.merge (conf : HttpConf) (prev inner : Nat) : HttpConf :=
  { conf with
    contexts := mergeLocConf conf.contexts prev inner
    slots := { conf.slots with
      locs := Function.update conf.slots.locs inner
        ((conf.slots.locs prev).merge (conf.slots.locs inner)) } }

def HttpConf.merged (conf : HttpConf) (merges : List (Nat × Nat)) : HttpConf :=
  Run.exec (fun conf e => conf.merge e.1 e.2) conf merges

/-! ## Initialisation -/

/-- What `ngx_statshouse_server_init` sets up in a server, which is zeroed before. -/
structure ServerMemory where
  buffer : Bool
  splits : Bool
  aggregate : Bool
deriving DecidableEq, Repr

def ServerMemory.zero : ServerMemory := { buffer := false, splits := false, aggregate := false }

/-- Whether the allocations for a server succeed, and `ngx_statshouse_aggregate_init`. -/
structure ServerAnswers where
  buffer : Bool
  splits : Bool
  aggregate : Bool
  aggregateInit : Bool

/-- `ngx_statshouse_server_init`. -/
def serverInit (answers : ServerAnswers) (params : ServerParams) (m : ServerMemory) :
    Rc × ServerMemory :=
  if answers.buffer = false then (.error, m)
  else
    let m := { m with buffer := true }
    if answers.splits = false then (.error, m)
    else
      let m := { m with splits := true }
      if params.aggregateSize ≠ 0 then
        if answers.aggregate = false then (.error, m)
        else if answers.aggregateInit = false then (.error, m)
        else (.ok, { m with aggregate := true })
      else (.ok, m)

/-- `ngx_statshouse_server_init` has completed. -/
def ServerMemory.Completed (params : ServerParams) (m : ServerMemory) : Prop :=
  m.buffer = true ∧ m.splits = true ∧ (params.aggregateSize ≠ 0 → m.aggregate = true)

/-- The loop over `smcf->servers`, from the place `i` on. -/
def initServers (answers : Nat → ServerAnswers) :
    List ServerObject → Nat → (Nat → ServerMemory) → Rc × (Nat → ServerMemory)
  | [], _, mem => (.ok, mem)
  | server :: servers, i, mem =>
    let res := serverInit (answers i) server.params (mem i)
    let mem := Function.update mem i res.2
    if res.1 ≠ .ok then (.error, mem) else initServers answers servers (i + 1) mem

/-- What the functions that `ngx_http_statshouse_init` calls answer: the variables and
`ngx_http_statshouse_init_complex`, the allocations for each server, and the place for the
handler. -/
structure InitAnswers where
  complex : Bool
  server : Nat → ServerAnswers
  handler : Bool

/-- `ngx_http_statshouse_init`. -/
def httpInit (answers : InitAnswers) (conf : HttpConf) : Rc × (Nat → ServerMemory) :=
  let mem := fun _ => ServerMemory.zero
  if answers.complex = false then (.error, mem)
  else if conf.slots.servers = [] ∨ conf.metrics = [] then (.ok, mem)
  else
    let res := initServers answers.server conf.slots.servers 0 mem
    if res.1 ≠ .ok then (.error, res.2)
    else if answers.handler = false then (.error, res.2)
    else (.ok, res.2)

/-! ## Requests -/

/-- A call with a server, of `ngx_statshouse_send` or `ngx_statshouse_flush_after_request`. -/
inductive ServerUse where
  | send (server : ServerPtr)
  | flushAfterRequest (server : ServerPtr)
deriving DecidableEq, Repr

def ServerUse.server : ServerUse → ServerPtr
  | .send server => server
  | .flushAfterRequest server => server

/-- The calls of `ngx_http_statshouse_send` for a request in the context `c`. `count` is the
number of stats of each metric: 0 where the phase or the sample passes it over, or where
it compiles to none. -/
def httpSend (conf : HttpConf) (c : Nat) (count : Metric → Nat) : List ServerUse :=
  let loc := conf.slots.locs c
  if loc.server = .null ∨ conf.contexts.confs c = none ∨ loc.enable = some false then []
  else
    (conf.contexts.metrics c).flatMap (fun metric =>
      List.replicate (count metric) (.send loc.server)) ++ [.flushAfterRequest loc.server]

/-- The calls of `ngx_http_statshouse_send_stat` for a request in the context `c`. -/
def httpSendStat (conf : HttpConf) (c : Nat) : List ServerUse :=
  let loc := conf.slots.locs c
  if loc.server = .null ∨ loc.enable = some false then [] else [.send loc.server]

/-- The call acts on a server that is initialised. -/
def HttpConf.Initialised (conf : HttpConf) (mem : Nat → ServerMemory) (use : ServerUse) : Prop :=
  ∃ i server, use.server = .object i ∧ conf.slots.servers[i]? = some server ∧
    (mem i).Completed server.params

/-! ## Servers are initialised -/

theorem serverInit_completed {answers : ServerAnswers} {params : ServerParams}
    {m m' : ServerMemory} (h : serverInit answers params m = (.ok, m')) : m'.Completed params := by
  unfold serverInit at h
  simp only at h
  split at h
  · cases h
  · split at h
    · cases h
    · split at h
      · -- with an aggregate
        split at h
        · cases h
        · split at h
          · cases h
          · cases h
            exact ⟨rfl, rfl, fun _ => rfl⟩
      · rename_i hsize
        cases h
        exact ⟨rfl, rfl, fun hne => absurd hne hsize⟩

/-- The loop leaves the servers before it alone, and all it goes over are initialised. -/
theorem initServers_completed {answers : Nat → ServerAnswers} {servers : List ServerObject}
    {i : Nat} {mem mem' : Nat → ServerMemory}
    (h : initServers answers servers i mem = (.ok, mem')) :
    (∀ k, k < i → mem' k = mem k) ∧
      ∀ j server, servers[j]? = some server → (mem' (i + j)).Completed server.params := by
  induction servers generalizing i mem with
  | nil =>
      cases h
      refine ⟨fun k _ => rfl, ?_⟩
      intro j server hget
      cases hget
  | cons server servers ih =>
      rw [initServers] at h
      split at h
      · cases h
      · rename_i hok
        obtain ⟨hbefore, hrest⟩ := ih h
        constructor
        · intro k hk
          rw [hbefore k (by omega), Function.update_of_ne (by omega)]
        · intro j server' hget
          cases j with
          | zero =>
              cases hget
              rw [Nat.add_zero, hbefore i (Nat.lt_succ_self i), Function.update_self]
              exact serverInit_completed (Prod.ext (not_not.mp hok) rfl)
          | succ j =>
              rw [List.getElem?_cons_succ] at hget
              have hcompleted := hrest j server' hget
              rwa [Nat.add_right_comm, Nat.add_assoc] at hcompleted

section Init

variable {answers : InitAnswers} {conf : HttpConf} {mem : Nat → ServerMemory}

/-- With a metric, every server is initialised. -/
theorem httpInit_completed (h : httpInit answers conf = (.ok, mem)) (hmetrics : conf.metrics ≠ [])
    {i : Nat} {server : ServerObject} (hget : conf.slots.servers[i]? = some server) :
    (mem i).Completed server.params := by
  have hservers : conf.slots.servers ≠ [] := by
    intro hnil
    rw [hnil] at hget
    cases hget
  unfold httpInit at h
  simp only at h
  split at h
  · cases h
  · rw [if_neg (by simp [hservers, hmetrics])] at h
    split at h
    · cases h
    · rename_i hok
      split at h
      · cases h
      · cases h
        have hrun := initServers_completed (Prod.ext (not_not.mp hok) rfl)
        have hcompleted := hrun.2 i server hget
        rwa [Nat.zero_add] at hcompleted

/-- Without a metric, none is. -/
theorem httpInit_zero (h : httpInit answers conf = (.ok, mem)) (hmetrics : conf.metrics = [])
    (i : Nat) : mem i = ServerMemory.zero := by
  unfold httpInit at h
  simp only at h
  split at h
  · cases h
  · rw [if_pos (Or.inr hmetrics)] at h
    cases h
    rfl

end Init

/-! ## Contexts point to servers -/

/-- The servers that contexts point to are in `smcf->servers`. -/
def SlotState.Valid (s : SlotState) : Prop :=
  ∀ c i, (s.locs c).server = .object i → i < s.servers.length

theorem SlotState.Valid.attach {s : SlotState} (h : s.Valid) (c : Nat) (args : ServerArgs) :
    (s.attach c args).Valid := by
  intro d i hloc
  by_cases hd : d = c
  · subst hd
    cases args with
    | off =>
        simp only [SlotState.attach, Function.update_self] at hloc
        exact h d i hloc
    | server addr params =>
        rw [attach_server] at hloc ⊢
        simp only [Function.update_self, ServerPtr.object.injEq] at hloc
        obtain ⟨server, hget, -⟩ := exists_intern ServerObject.shared s.servers ⟨addr, params⟩
        rw [hloc] at hget
        exact (List.getElem?_eq_some_iff.mp hget).1
  · rw [s.attach_locs_of_ne hd] at hloc
    have hget := s.getElem?_attach (List.getElem?_eq_getElem (h d i hloc)) c args
    exact (List.getElem?_eq_some_iff.mp hget).1

/-- A context that is merged takes the server of the outer one, or null, if it has none. -/
theorem LocConf.merge_server (prev conf : LocConf) :
    (prev.merge conf).server ≠ .unset ∧
      ((prev.merge conf).server = conf.server ∨ (prev.merge conf).server = prev.server ∨
        (prev.merge conf).server = .null) := by
  cases hconf : conf.server <;> cases hprev : prev.server <;> simp [merge, hconf, hprev]

theorem HttpConf.merge_valid {conf : HttpConf} (h : conf.slots.Valid) (prev inner : Nat) :
    (conf.merge prev inner).slots.Valid := by
  intro c i hloc
  by_cases hc : c = inner
  · subst hc
    simp only [merge, Function.update_self] at hloc
    rcases (LocConf.merge_server _ _).2 with hsame | hprev | hnull
    · rw [hsame] at hloc
      exact h c i hloc
    · rw [hprev] at hloc
      exact h prev i hloc
    · rw [hnull] at hloc
      cases hloc
  · simp only [merge, Function.update_of_ne hc] at hloc
    exact h c i hloc

section Parse

variable {ps : Parsers} {directives : List HttpDirective} {conf : HttpConf}

/-- After the directives: servers are where contexts point to, and there is a metric if
there was a directive for one. -/
theorem HttpConf.parse_spec (h : HttpConf.parse ps directives = .ok conf) :
    conf.slots.Valid ∧ (conf.metrics ≠ [] ↔ ∃ c, HttpDirective.metric c ∈ directives) := by
  induction directives using List.reverseRecOn generalizing conf with
  | nil =>
      cases h
      constructor
      · intro c i hloc
        cases hloc
      · simp [HttpConf.init]
  | append_singleton directives d ih =>
      obtain ⟨conf₀, hbefore, hdirective⟩ := foldlM_snoc_ok_iff.mp h
      obtain ⟨hvalid, hmetrics⟩ := ih hbefore
      cases d with
      | server d =>
          rw [HttpConf.directive] at hdirective
          cases hslot : httpServerSlot ps conf₀.slots d.ctx d.url d.options with
          | error e =>
              rw [hslot] at hdirective
              cases hdirective
          | ok slots =>
              rw [hslot] at hdirective
              cases hdirective
              obtain ⟨-, args, -, rfl⟩ := serverSlot_ok_iff.mp hslot
              refine ⟨hvalid.attach d.ctx args, ?_⟩
              rw [hmetrics]
              simp
      | metric c =>
          cases hdirective
          refine ⟨hvalid, ?_⟩
          simp

end Parse

/-- Merges keep the metrics, and the servers where contexts point to. -/
theorem HttpConf.merged_spec {conf : HttpConf} (h : conf.slots.Valid) (merges : List (Nat × Nat)) :
    (conf.merged merges).slots.Valid ∧ (conf.merged merges).metrics = conf.metrics := by
  have hstep : ∀ (conf' : HttpConf) (e : Nat × Nat),
      conf'.slots.Valid ∧ conf'.metrics = conf.metrics →
        (conf'.merge e.1 e.2).slots.Valid ∧ (conf'.merge e.1 e.2).metrics = conf.metrics := by
    intro conf' e hconf'
    exact ⟨merge_valid hconf'.1 e.1 e.2, hconf'.2⟩
  exact Run.exec_invariant hstep ⟨h, rfl⟩ merges

theorem HttpConf.merge_ne_unset {conf : HttpConf} {c : Nat} (e : Nat × Nat)
    (h : (conf.slots.locs c).server ≠ .unset ∨ c = e.2) :
    ((conf.merge e.1 e.2).slots.locs c).server ≠ .unset := by
  simp only [merge]
  by_cases hc : c = e.2
  · rw [hc, Function.update_self]
    exact (LocConf.merge_server _ _).1
  · rw [Function.update_of_ne hc]
    exact h.resolve_right hc

/-- After the merges a context that is in another one has a server, or null. -/
theorem HttpConf.merged_ne_unset (conf : HttpConf) {merges : List (Nat × Nat)} {e : Nat × Nat}
    (he : e ∈ merges) : ((conf.merged merges).slots.locs e.2).server ≠ .unset := by
  induction merges generalizing conf with
  | nil => cases he
  | cons e' rest ih =>
      rcases List.mem_cons.mp he with rfl | hrest
      · have hmerged := conf.merge_ne_unset e (Or.inr rfl)
        have hstep : ∀ (conf' : HttpConf) (e' : Nat × Nat),
            (conf'.slots.locs e.2).server ≠ .unset →
              ((conf'.merge e'.1 e'.2).slots.locs e.2).server ≠ .unset :=
          fun conf' e' h => conf'.merge_ne_unset e' (Or.inl h)
        exact Run.exec_invariant hstep hmerged rest
      · exact ih (conf.merge e'.1 e'.2) hrest

/-! ## Requests find initialised servers -/

/-- The calls are with the server of the context, if it has one and is not off. -/
theorem calls_server {conf : HttpConf} {c : Nat} {count : Metric → Nat} {use : ServerUse}
    (h : use ∈ httpSend conf c count ++ httpSendStat conf c) :
    use.server = (conf.slots.locs c).server ∧ (conf.slots.locs c).server ≠ .null ∧
      (conf.slots.locs c).enable ≠ some false := by
  rcases List.mem_append.mp h with hsend | hstat
  · unfold httpSend at hsend
    simp only at hsend
    split at hsend
    · cases hsend
    · rename_i hguard
      push Not at hguard
      refine ⟨?_, hguard.1, hguard.2.2⟩
      rcases List.mem_append.mp hsend with hmetric | hflush
      · obtain ⟨metric, -, hmem⟩ := List.mem_flatMap.mp hmetric
        rw [List.eq_of_mem_replicate hmem]
        rfl
      · rw [List.mem_singleton.mp hflush]
        rfl
  · unfold httpSendStat at hstat
    simp only at hstat
    split at hstat
    · cases hstat
    · rename_i hguard
      push Not at hguard
      rw [List.mem_singleton.mp hstat]
      exact ⟨rfl, hguard.1, hguard.2⟩

/-- After `NGX_OK` of the initialisation: the calls a request in a context makes are with
initialised servers, exactly if the context has no server or is off, or points to a
server and there is a metric in the configuration. Only a context that is in no other one
can be without both a server and null. -/
theorem calls_initialised_iff (ps : Parsers) (directives : List HttpDirective)
    (merges : List (Nat × Nat)) (answers : InitAnswers) (conf : HttpConf)
    (mem : Nat → ServerMemory) (hparse : HttpConf.parse ps directives = .ok conf)
    (hinit : httpInit answers (conf.merged merges) = (.ok, mem)) :
    (∀ c,
      (∀ count,
        ∀ use ∈ httpSend (conf.merged merges) c count ++ httpSendStat (conf.merged merges) c,
          (conf.merged merges).Initialised mem use) ↔
      ((conf.merged merges).slots.locs c).server = .null ∨
        ((conf.merged merges).slots.locs c).enable = some false ∨
        ((∃ i, ((conf.merged merges).slots.locs c).server = .object i) ∧
          ∃ d, HttpDirective.metric d ∈ directives)) ∧
    ∀ e ∈ merges, ((conf.merged merges).slots.locs e.2).server ≠ .unset := by
  obtain ⟨hvalid, hmetrics⟩ := HttpConf.parse_spec hparse
  obtain ⟨hvalid', hmetrics'⟩ := HttpConf.merged_spec hvalid merges
  rw [← hmetrics'] at hmetrics
  refine ⟨?_, fun e he => conf.merged_ne_unset he⟩
  intro c
  rw [← hmetrics]
  constructor
  · intro hall
    by_cases hguard : ((conf.merged merges).slots.locs c).server = .null ∨
        ((conf.merged merges).slots.locs c).enable = some false
    · rcases hguard with hnull | hoff
      · exact Or.inl hnull
      · exact Or.inr (Or.inl hoff)
    · -- the stat of another module is sent whatever the metrics are
      have hstat : httpSendStat (conf.merged merges) c =
          [.send ((conf.merged merges).slots.locs c).server] := if_neg hguard
      obtain ⟨i, server, hserver, -, hcompleted⟩ :=
        hall (fun _ => 0) (.send ((conf.merged merges).slots.locs c).server) (by simp [hstat])
      refine Or.inr (Or.inr ⟨⟨i, hserver⟩, ?_⟩)
      intro hnone
      rw [httpInit_zero hinit hnone i] at hcompleted
      exact absurd hcompleted.1 (by decide)
  · intro hcases count use huse
    obtain ⟨hserver, hnull, hoff⟩ := calls_server huse
    rcases hcases with hnull' | hoff' | ⟨⟨i, hobject⟩, hmetric⟩
    · exact absurd hnull' hnull
    · exact absurd hoff' hoff
    · have hget := List.getElem?_eq_getElem (hvalid' c i hobject)
      exact ⟨i, _, hserver.trans hobject, hget, httpInit_completed hinit hmetric hget⟩

/-- Every allocation succeeds. -/
def InitAnswers.good : InitAnswers :=
  { complex := true, server := fun _ => ⟨true, true, true, true⟩, handler := true }

/-- A server in the outermost context and nothing else. -/
def serverAlone : List HttpDirective :=
  [.server { ctx := 0, url := ascii "stats:13337", options := [] }]

/-- With a metric, the location 1 in that context finds its server initialised. -/
theorem calls_initialised_location :
    ∃ conf mem, HttpConf.parse plainParsers (serverAlone ++ [.metric 1]) = .ok conf ∧
      httpInit InitAnswers.good (conf.merged [(0, 1)]) = (.ok, mem) ∧
      ∀ use ∈ httpSend (conf.merged [(0, 1)]) 1 (fun _ => 2) ++
        httpSendStat (conf.merged [(0, 1)]) 1, (conf.merged [(0, 1)]).Initialised mem use := by
  refine ⟨_, _, rfl, rfl, ?_⟩
  have hcalls := calls_initialised_iff plainParsers (serverAlone ++ [.metric 1]) [(0, 1)]
    InitAnswers.good _ _ rfl rfl
  refine (hcalls.1 1).mpr (Or.inr (Or.inr ⟨⟨0, rfl⟩, 1, ?_⟩)) (fun _ => 2)
  exact List.mem_append_right _ List.mem_cons_self

/-- Without one, `ngx_http_statshouse_send_stat` sends to a server with no buffer. -/
theorem server_alone_not_initialised :
    ∃ conf mem, HttpConf.parse plainParsers serverAlone = .ok conf ∧
      httpInit InitAnswers.good (conf.merged [(0, 1)]) = (.ok, mem) ∧
      ¬ ∀ use ∈ httpSend (conf.merged [(0, 1)]) 1 (fun _ => 2) ++
        httpSendStat (conf.merged [(0, 1)]) 1, (conf.merged [(0, 1)]).Initialised mem use := by
  refine ⟨_, _, rfl, rfl, ?_⟩
  intro h
  obtain ⟨i, server, -, -, hbuffer, -⟩ := h (.send (.object 0)) List.mem_cons_self
  cases hbuffer

end StatsHouse
