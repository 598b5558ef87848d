import StatsHouse.Request
import StatsHouse.Timeout
import StatsHouse.Timers

/-! # Runs of a worker

Each server of a worker process is as after a run of its own, so what holds of the runs
of a server holds of each server of a worker, whatever requests it serves.

* `worker_never_stranded`: no server of a worker leaves data without a timer.
* `worker_nothing_lost`: with a healthy network, none loses an accepted stat.
* `worker_timeout_limits`: the timeout of a metric limits the requests of a worker.
-/

namespace StatsHouse

open Outcome

variable {C P ε : Type}

/-! ## Clocks -/

/-- `ngx_current_msec` at an event. -/
def WorkerEvent.now : WorkerEvent C → Nat
  | .request req => req.now
  | .sendStat _ now _ _ => now
  | .flushTimer _ now _ | .aggregateTimer _ now _ | .aggregatePosted _ now _
  | .readHandler _ now _ => now

def WorkerEvent.exiting : WorkerEvent C → Bool
  | .request req => req.exiting
  | .sendStat _ _ exiting _ => exiting
  | .flushTimer _ _ exiting | .aggregateTimer _ _ exiting | .aggregatePosted _ _ exiting
  | .readHandler _ _ exiting => exiting

/-- The calls of a server are in order, not later than `clock` and not while exiting. -/
structure Traffic.Ordered (clock : Nat) (t : Traffic) : Prop where
  pairwise : ∀ srv, (t.calls srv).Pairwise fun e e' => e.now ≤ e'.now
  past : ∀ srv, ∀ e ∈ t.calls srv, e.now ≤ clock
  running : ∀ srv, ∀ e ∈ t.calls srv, e.exiting = false

section Ordered

variable {wc : WorkerConf C P ε} {t : Traffic} {clock : Nat}

theorem Traffic.Ordered.mono {clock' : Nat} (h : t.Ordered clock) (hle : clock ≤ clock') :
    t.Ordered clock' :=
  ⟨h.pairwise, fun srv e he => (h.past srv e he).trans hle, h.running⟩

/-- Calls of one time, behind those there are. -/
theorem Traffic.Ordered.add (h : t.Ordered clock) (srv : Nat) {calls : List Event}
    (hcalls : ∀ e ∈ calls, e.now = clock ∧ e.exiting = false) :
    (t.add srv calls).Ordered clock := by
  constructor
  · intro srv'
    rw [Traffic.add_calls]
    split
    · refine List.pairwise_append.mpr ⟨h.pairwise srv, ?_, ?_⟩
      · refine List.pairwise_of_forall_mem_list ?_
        intro e he e' he'
        rw [(hcalls e he).1, (hcalls e' he').1]
      · intro e he e' he'
        rw [(hcalls e' he').1]
        exact h.past srv e he
    · exact h.pairwise srv'
  · intro srv' e he
    rw [Traffic.add_calls] at he
    split at he
    · rcases List.mem_append.mp he with he | he
      · exact h.past srv e he
      · exact (hcalls e he).1.le
    · exact h.past srv' e he
  · intro srv' e he
    rw [Traffic.add_calls] at he
    split at he
    · rcases List.mem_append.mp he with he | he
      · exact h.running srv e he
      · exact (hcalls e he).2
    · exact h.running srv' e he

theorem Traffic.Ordered.step (event : WorkerEvent C) (hexiting : event.exiting = false)
    (hclock : clock ≤ event.now) (h : t.Ordered clock) : (t.step wc event).Ordered event.now := by
  have h := h.mono hclock
  -- a callback is one call, at the time of the event
  have hone : ∀ srv callback,
      (t.add srv [⟨event.now, event.exiting, callback⟩]).Ordered event.now := by
    intro srv callback
    refine h.add srv ?_
    intro e he
    rw [List.mem_singleton.mp he]
    exact ⟨rfl, hexiting⟩
  cases event with
  | request req =>
      show (t.request wc req).Ordered req.now
      unfold Traffic.request
      split
      · exact h
      · rename_i srv _
        split
        · exact h
        -- all calls of a request are made at its time
        · rw [Traffic.add_add]
          have h' : (t.take (req.batch wc srv t.last)).Ordered req.now :=
            ⟨h.pairwise, h.past, h.running⟩
          refine h'.add srv ?_
          intro e he
          rcases List.mem_append.mp he with he | he
          · rcases List.mem_map.mp he with ⟨stat, -, rfl⟩
            exact ⟨rfl, hexiting⟩
          · rw [List.mem_singleton.mp he]
            exact ⟨rfl, hexiting⟩
  | sendStat ctx now exiting stat =>
      show (t.sendStat wc ctx now exiting stat).Ordered now
      unfold Traffic.sendStat
      split
      · exact h
      · exact hone _ _
  | flushTimer srv now exiting => exact hone srv _
  | aggregateTimer srv now exiting => exact hone srv _
  | aggregatePosted srv now exiting => exact hone srv _
  | readHandler srv now exiting => exact hone srv _

theorem Traffic.run_ordered {events : List (WorkerEvent C)}
    (hexiting : ∀ event ∈ events, event.exiting = false)
    (hclock : events.Pairwise fun e e' => e.now ≤ e'.now) :
    ∃ clock, (Traffic.run wc events).Ordered clock := by
  have hinit : Traffic.init.Ordered 0 := by
    constructor
    · intro srv
      exact List.Pairwise.nil
    · intro srv e he
      cases he
    · intro srv e he
      cases he
  exact Run.exec_invariant_of_clock (fun clock t event hok hle h => h.step event hok hle) hinit
    hexiting (fun _ _ => Nat.zero_le _) hclock

end Ordered

/-! ## Stats -/

/-- The stats among calls. -/
def sendsOf (calls : List Event) : List (Stat Value) :=
  calls.filterMap fun e =>
    match e.callback with
    | .send stat => some stat
    | _ => none

theorem sendsOf_append (calls calls' : List Event) :
    sendsOf (calls ++ calls') = sendsOf calls ++ sendsOf calls' := List.filterMap_append

theorem sendsOf_sends (req : Request C) (stats : List (Stat Value)) :
    sendsOf (req.sends stats) = stats := by
  induction stats with
  | nil => rfl
  | cons stat stats ih =>
      show stat :: sendsOf (req.sends stats) = stat :: stats
      rw [ih]

theorem mem_sendsOf {calls : List Event} {event : Event} {stat : Stat Value}
    (hevent : event ∈ calls) (hsend : event.callback = .send stat) : stat ∈ sendsOf calls := by
  refine List.mem_filterMap.mpr ⟨event, hevent, ?_⟩
  rw [hsend]

/-- Calls with stats that the aggregator can take. -/
theorem regularEvent_of_sends {env : Env Value} {conf : ServerConf} {calls : List Event}
    (h : ∀ stat ∈ sendsOf calls, conf.aggregateSize ≠ 0 → Regular env conf.aggregate stat)
    {event : Event} (hevent : event ∈ calls) : RegularEvent env conf event := by
  unfold RegularEvent
  split
  · rename_i stat hsend
    exact fun hsize _ => h stat (mem_sendsOf hevent hsend) hsize
  · trivial

section Sends

variable {wc : WorkerConf C P ε} {t : Traffic} {good : Nat → Stat Value → Prop}

/-- A property of the stats that an event may send, each with its server. -/
def WorkerConf.Sends (wc : WorkerConf C P ε) (good : Nat → Stat Value → Prop) :
    WorkerEvent C → Prop
  | .request req => ∀ srv, wc.target req.ctx = some srv →
      ∀ metric ∈ wc.contexts.metrics req.ctx,
        ∀ stat ∈ metricRows wc.num wc.sp (wc.metric metric).toConf req.complex (wc.splitsMax srv),
          good srv stat
  | .sendStat ctx _ _ stat => ∀ srv, wc.target ctx = some srv → good srv stat
  | _ => True

/-- A property of the stats of all calls. -/
def Traffic.Sends (t : Traffic) (good : Nat → Stat Value → Prop) : Prop :=
  ∀ srv, ∀ stat ∈ sendsOf (t.calls srv), good srv stat

theorem Traffic.Sends.add (h : t.Sends good) (srv : Nat) {calls : List Event}
    (hcalls : ∀ stat ∈ sendsOf calls, good srv stat) : (t.add srv calls).Sends good := by
  intro srv' stat hstat
  rw [Traffic.add_calls] at hstat
  split at hstat
  · rename_i hsrv
    rw [hsrv]
    rw [sendsOf_append] at hstat
    rcases List.mem_append.mp hstat with hstat | hstat
    · exact h srv stat hstat
    · exact hcalls stat hstat
  · exact h srv' stat hstat

theorem WorkerConf.Sends.batch {req : Request C} (h : wc.Sends good (.request req)) {srv : Nat}
    (htarget : wc.target req.ctx = some srv) (last : Object → Nat) :
    ∀ stat ∈ (req.batch wc srv last).stats, good srv stat := by
  have hstep : ∀ (b : Batch) (i : Nat), (∀ stat ∈ b.stats, good srv stat) →
      ∀ stat ∈ (req.addMetric wc srv b i).stats, good srv stat := by
    intro b i hb
    unfold Request.addMetric
    cases hobject : wc.contexts.object wc.kind req.ctx i with
    | none => exact hb
    | some found =>
        simp only
        split
        · exact hb
        -- the stats before the metric, and its own
        · intro stat hstat
          rcases List.mem_append.mp hstat with hstat | hstat
          · exact hb stat hstat
          · exact h srv htarget found.2 (Contexts.mem_metrics_of_object hobject) stat
              (mem_metricRows_of_statCompiled hstat)
  refine Run.exec_invariant hstep ?_ _
  intro stat hstat
  cases hstat

theorem Traffic.Sends.step (event : WorkerEvent C) (hevent : wc.Sends good event)
    (h : t.Sends good) : (t.step wc event).Sends good := by
  -- a callback other than `.send` has no stat
  have hnone : ∀ (srv now : Nat) (exiting : Bool) (callback : Callback),
      sendsOf [⟨now, exiting, callback⟩] = [] →
      (t.add srv [⟨now, exiting, callback⟩]).Sends good := by
    intro srv now exiting callback hcallback
    refine h.add srv ?_
    intro stat hstat
    rw [hcallback] at hstat
    cases hstat
  cases event with
  | request req =>
      show (t.request wc req).Sends good
      unfold Traffic.request
      split
      · exact h
      · rename_i srv htarget
        split
        · exact h
        · have hbatch : (t.take (req.batch wc srv t.last)).Sends good := h
          rw [Traffic.add_add]
          refine hbatch.add srv ?_
          intro stat hstat
          rw [sendsOf_append, sendsOf_sends] at hstat
          rcases List.mem_append.mp hstat with hstat | hstat
          · exact hevent.batch htarget t.last stat hstat
          · cases hstat
  | sendStat ctx now exiting stat =>
      show (t.sendStat wc ctx now exiting stat).Sends good
      unfold Traffic.sendStat
      split
      · exact h
      · rename_i srv htarget
        refine h.add srv ?_
        intro stat' hstat'
        rw [List.mem_singleton.mp hstat']
        exact hevent srv htarget
  | flushTimer srv now exiting => exact hnone srv now exiting _ rfl
  | aggregateTimer srv now exiting => exact hnone srv now exiting _ rfl
  | aggregatePosted srv now exiting => exact hnone srv now exiting _ rfl
  | readHandler srv now exiting => exact hnone srv now exiting _ rfl

/-- All that a worker sends is good, if what each event may send is. -/
theorem Traffic.run_sends {events : List (WorkerEvent C)}
    (h : ∀ event ∈ events, wc.Sends good event) : (Traffic.run wc events).Sends good := by
  have hstep : ∀ (t : Traffic) (event : WorkerEvent C), wc.Sends good event → t.Sends good →
      (t.step wc event).Sends good := by
    intro t event hevent ht
    exact ht.step event hevent
  have hinit : Traffic.init.Sends good := by
    intro srv stat hstat
    cases hstat
  exact Run.exec_invariant_of_meets hstep hinit
    (Run.meets_of_forall (fun event hevent _ => h event hevent) Traffic.init)

theorem WorkerConf.Usable.sends {event : WorkerEvent C} (h : wc.Usable event) :
    wc.Sends (fun srv stat => (wc.server srv).Holds wc.env stat) event := by
  cases event with
  | request req =>
      intro srv htarget metric hmetric
      exact ((h.2 srv htarget).2 metric hmetric).holds
  | sendStat ctx now exiting stat => exact h.2
  | flushTimer | aggregateTimer | aggregatePosted | readHandler => trivial

/-- The servers of usable contexts are called with what they can hold. -/
theorem Traffic.run_regular {events : List (WorkerEvent C)}
    (husable : ∀ event ∈ events, wc.Usable event) (srv : Nat) :
    ∀ event ∈ (Traffic.run wc events).calls srv, RegularEvent wc.env (wc.server srv) event := by
  have hholds : (Traffic.run wc events).Sends fun srv stat => (wc.server srv).Holds wc.env stat :=
    Traffic.run_sends fun event hevent => (husable event hevent).sends
  intro event hevent
  exact regularEvent_of_sends (hholds srv) hevent

end Sends

/-! ## Servers -/

section Servers

variable [Add Value]

/-- While a worker is not exiting the timers of a server with a flush interval are set. -/
theorem Traffic.run_waiting (wc : WorkerConf C P ε) {events : List (WorkerEvent C)} (srv : Nat)
    (husable : ∀ event ∈ events, wc.Usable event) (hflush : 0 < (wc.server srv).flush)
    (hexiting : ∀ event ∈ events, event.exiting = false)
    (hclock : events.Pairwise fun e e' => e.now ≤ e'.now) :
    ∃ clock, System.Waiting (wc.server srv) clock (System.run wc.env (wc.net srv) (wc.server srv)
      (wc.arena srv) ((Traffic.run wc events).calls srv)) := by
  rcases Traffic.run_ordered hexiting hclock with ⟨clock, hordered⟩
  exact System.run_waiting (wc.arena srv) hflush (hordered.running srv)
    (Traffic.run_regular husable srv) (hordered.pairwise srv)

/-- In every run of a worker with usable contexts and servers with a flush interval, under a
clock that does not go back and while it is not exiting, no server leaves data without a
timer. -/
theorem worker_never_stranded (wc : WorkerConf C P ε) (events : List (WorkerEvent C))
    (husable : ∀ event ∈ events, wc.Usable event) (hflush : ∀ srv, 0 < (wc.server srv).flush)
    (hexiting : ∀ event ∈ events, event.exiting = false)
    (hclock : events.Pairwise fun e e' => e.now ≤ e'.now) :
    ∃ p, Process.run wc events = .ok p ∧
      ∀ srv, (p.systems srv).NeverStranded (wc.server srv) := by
  rcases Process.run_ok husable with ⟨p, hp, hrefines⟩
  refine ⟨p, hp, ?_⟩
  intro srv
  rcases Traffic.run_waiting wc srv husable (hflush srv) hexiting hclock with ⟨clock, h⟩
  rw [hrefines.systems srv]
  exact h.neverStranded

theorem fire_accepted (env : Env Value) (net : Net) (conf : ServerConf) (event : Event)
    (armed : TimerEvent → Bool) (clear : TimerEvent → TimerEvent) (sys : System) :
    (fire env net conf event armed clear sys).accepted = sys.accepted := by
  unfold fire
  split
  · rfl
  · split
    · rfl
    · rfl

/-- What is accepted was sent. -/
theorem System.run_accepted (env : Env Value) (net : Net) (conf : ServerConf) (start : Nat)
    (calls : List Event) :
    (System.run env net conf start calls).accepted.Sublist (sendsOf calls) := by
  -- from any state, since the run goes on from the one after the first call
  have hrun : ∀ sys : System, (Run.exec (System.step env net conf) sys calls).accepted.Sublist
      (sys.accepted ++ sendsOf calls) := by
    induction calls with
    | nil =>
        intro sys
        simp [Run.exec, sendsOf]
    | cons event calls ih =>
        intro sys
        refine (ih (sys.step env net conf event)).trans ?_
        unfold System.step sendsOf
        cases hcallback : event.callback with
        | send stat =>
            simp only [List.filterMap_cons, hcallback]
            -- a stat that is refused is sent and not accepted
            split
            · rw [List.append_assoc, List.singleton_append]
            · exact (List.sublist_cons_self stat _).append_left _
        | flushTimer =>
            simp only [List.filterMap_cons, hcallback]
            split <;> exact List.Sublist.refl _
        | aggregateTimer =>
            simp only [List.filterMap_cons, hcallback, fire_accepted]
            exact List.Sublist.refl _
        | aggregatePosted =>
            simp only [List.filterMap_cons, hcallback, fire_accepted]
            exact List.Sublist.refl _
        | flush | flushAfterRequest | readHandler =>
            simp only [List.filterMap_cons, hcallback]
            exact List.Sublist.refl _
  exact hrun _

theorem System.Accounted.nothingLost {conf : ServerConf} {sys : System} (h : sys.Accounted conf) :
    sys.NothingLost conf := by
  rcases h.account with ⟨out, ⟨⟨batches, buffered, hreleased, hbuffer, hout⟩, hfull⟩, haccount⟩
  refine ⟨batches, buffered, hfull.delivered_eq.trans hreleased, hbuffer, ?_⟩
  -- forget which stats came from a record
  have hstats : (out ++ sys.queued.map Sum.inr).map Item.stat =
      batches.flatten ++ buffered ++ sys.queued := by
    rw [List.map_append, hout, List.map_map]
    congr 1
    exact List.map_id _
  rw [← hstats]
  apply haccount.map Item.stat
  rintro group (stat | stat) hholds
  · exact Or.inl hholds
  · exact Or.inr hholds

theorem System.run_accounted {env : Env Value} {net : Net} {conf : ServerConf}
    (hnet : net.Healthy conf) {start : Nat} {calls : List Event}
    (hfits : Run.Meets (System.step env net conf) (EventFits env conf)
      (System.init env conf start) calls) : (System.run env net conf start calls).Accounted conf :=
  Run.exec_invariant_of_meets (System.step_accounted hnet) (System.init_accounted env conf start)
    hfits

/-- In every run of a worker with usable contexts, a server with a healthy network, to
which no record is due that is larger than its buffer, loses nothing of what it accepted
of the requests. -/
theorem worker_nothing_lost (wc : WorkerConf C P ε) (events : List (WorkerEvent C)) (srv : Nat)
    (husable : ∀ event ∈ events, wc.Usable event) (hnet : (wc.net srv).Healthy (wc.server srv))
    (hfits : Run.Meets (System.step wc.env (wc.net srv) (wc.server srv))
      (EventFits wc.env (wc.server srv)) (System.init wc.env (wc.server srv) (wc.arena srv))
      ((Traffic.run wc events).calls srv)) :
    ∃ p, Process.run wc events = .ok p ∧
      (p.systems srv).accepted.Sublist (sendsOf (p.calls srv)) ∧
      (p.systems srv).NothingLost (wc.server srv) := by
  rcases Process.run_ok husable with ⟨p, hp, hrefines⟩
  refine ⟨p, hp, ?_⟩
  rw [hrefines.systems srv, hrefines.calls]
  exact ⟨System.run_accepted _ _ _ _ _, (System.run_accounted hnet hfits).nothingLost⟩

end Servers

/-! ## Timeouts -/

/-- The configuration that is compiled. -/
def WorkerConf.conf (wc : WorkerConf C P ε) (metric : Metric) : Conf C := (wc.metric metric).toConf

/-- The traffic as the timeout sees it. -/
def Traffic.worker (t : Traffic) : Worker := { last := t.last, sent := t.sent }

/-- The compilation of the metric at an index, in a new array. -/
def Request.compileCall (wc : WorkerConf C P ε) (req : Request C) (srv i : Nat) :
    CompileCall C Value :=
  { ctx := req.ctx
    index := i
    now := req.time
    complex := req.complex
    max := wc.splitsMax srv
    stats := List.replicate (wc.splitsMax srv) (Stat.init [] .counter) }

section Timeouts

variable {wc : WorkerConf C P ε} {t : Traffic} {req : Request C} {srv : Nat}

theorem Worker.Inv.mono {conf : Metric → Conf C} {object : Metric → Object} {clock clock' : Nat}
    {w : Worker} (h : w.Inv conf object clock) (hle : clock ≤ clock') :
    w.Inv conf object clock' :=
  ⟨h.limited, fun e he => ⟨(h.past e he).1, (h.past e he).2.trans hle⟩, h.last,
    fun o => (h.clock o).trans hle⟩

/-- A call in a new array leaves the time it is for, and produces stats if it is for any. -/
theorem statCompile_new (num : Numbers Value) {sp : Splitter P ε} {conf : Conf C}
    {complex : C → Option Str} {max : Nat} (last now : Nat) (hmax : 0 < max)
    (htotal : SplitsTotal sp conf complex) :
    (statCompile num sp conf complex last now max
        (List.replicate max (Stat.init [] .counter))).1 =
        (statCompiled num sp conf complex last now max).1 ∧
      produced (statCompile num sp conf complex last now max
        (List.replicate max (Stat.init [] .counter))).2 =
        !(statCompiled num sp conf complex last now max).2.isEmpty := by
  have hcompile : (statCompile num sp conf complex last now max
      (List.replicate max (Stat.init [] .counter))).1 = _ ∧ Ends _ _ _ :=
    ends_statCompile last now List.length_replicate hmax htotal
  refine ⟨hcompile.1, ?_⟩
  cases hres : (statCompile num sp conf complex last now max
      (List.replicate max (Stat.init [] .counter))).2 with
  | error halt =>
      rw [(hcompile.2.of_error hres).2]
      rfl
  | ok r =>
      -- there is a first row, so the call produced stats and is for some
      rcases hcompile.2.of_ok hres with ⟨-, hlength, hpos, -⟩
      cases hrows : (statCompiled num sp conf complex last now max).2 with
      | nil =>
          rw [hrows] at hlength
          exact absurd hlength (Nat.ne_of_gt hpos)
      | cons stat stats => exact decide_eq_true hpos

/-- A metric that is not passed over is one call of the compilation. -/
theorem Request.addMetric_worker (hmax : 0 < wc.splitsMax srv)
    (htotal : ∀ metric ∈ wc.contexts.metrics req.ctx,
      SplitsTotal wc.sp (wc.metric metric).toConf req.complex) (b : Batch) (i : Nat) :
    (t.take (req.addMetric wc srv b i)).worker = (t.take b).worker ∨
      (t.take (req.addMetric wc srv b i)).worker =
        (t.take b).worker.step wc.num wc.sp wc.kind wc.contexts wc.conf
          (req.compileCall wc srv i) := by
  unfold Request.addMetric Worker.step Request.compileCall
  simp only
  cases hobject : wc.contexts.object wc.kind req.ctx i with
  | none => exact Or.inl rfl
  | some entry =>
      obtain ⟨object, metric⟩ := entry
      simp only
      split
      · exact Or.inl rfl
      -- the same call: what it is for, and whether there is any of it, agree
      · right
        have hmetric := htotal metric (Contexts.mem_metrics_of_object hobject)
        rcases statCompile_new wc.num (b.last object) req.time hmax hmetric with
          ⟨hlast, hproduced⟩
        simp only [Traffic.worker, Traffic.take, WorkerConf.conf, hlast, hproduced,
          Bool.not_eq_true', Worker.mk.injEq, true_and]
        cases (statCompiled wc.num wc.sp (wc.metric metric).toConf req.complex (b.last object)
          req.time (wc.splitsMax srv)).2.isEmpty with
        | false => exact (List.append_assoc _ _ _).symm
        | true => rfl

/-- In each context there is, for each metric with a timeout, one configuration in memory. -/
def WorkerConf.OneObject (wc : WorkerConf C P ε) (object : Metric → Object) : Prop :=
  ∀ ctx i o metric, wc.contexts.object wc.kind ctx i = some (o, metric) →
    (wc.conf metric).timeout ≠ 0 → o = object metric

/-- The timeouts of the metrics of a request can be added to its time. -/
def WorkerConf.TimeFits (wc : WorkerConf C P ε) : WorkerEvent C → Prop
  | .request req => ∀ metric ∈ wc.contexts.metrics req.ctx,
      req.time + (wc.conf metric).timeout < 2 ^ 63
  | _ => True

/-- One request, at a time that is not before those of the others. -/
theorem Traffic.request_inv {object : Metric → Object} {clock : Nat}
    (hone : wc.OneObject object) (husable : wc.Usable (.request req))
    (hfits : wc.TimeFits (.request req)) (hclock : clock ≤ req.time)
    (hpos : 0 < req.time) (h : t.worker.Inv wc.conf object clock) :
    (t.request wc req).worker.Inv wc.conf object req.time := by
  have h := h.mono hclock
  unfold Traffic.request
  cases htarget : wc.target req.ctx with
  | none => exact h
  | some srv =>
      rcases husable.2 srv htarget with ⟨harray, hmetrics⟩
      simp only
      split
      · exact h
      · -- each metric leaves the clock at the time of the request
        have hstep : ∀ (b : Batch) (i : Nat), (t.take b).worker.Inv wc.conf object req.time →
            (t.take (req.addMetric wc srv b i)).worker.Inv wc.conf object req.time := by
          intro b i hb
          have htotal := fun metric hmetric => (hmetrics metric hmetric).splits
          rcases Request.addMetric_worker harray.1 htotal b i with heq | heq
          · rw [heq]
            exact hb
          · rw [heq]
            have hcall : ((t.take b).worker.step wc.num wc.sp wc.kind wc.contexts wc.conf
                (req.compileCall wc srv i)).Inv wc.conf object (req.compileCall wc srv i).now :=
              hb.step (Nat.le_refl req.time) hpos (hone req.ctx i)
                fun o metric hobject => hfits metric (Contexts.mem_metrics_of_object hobject)
            exact hcall
        have hstart : (t.take ⟨t.last, [], []⟩).worker.Inv wc.conf object req.time := by
          show Worker.Inv wc.conf object req.time ⟨t.last, t.sent ++ []⟩
          rw [List.append_nil]
          exact h
        exact Run.exec_invariant hstep hstart _

/-- The times of the requests to come are in order, and not before `clock`. -/
def RequestsFrom (clock : Nat) : List (WorkerEvent C) → Prop
  | [] => True
  | .request req :: events => clock ≤ req.time ∧ 0 < req.time ∧ RequestsFrom req.time events
  | _ :: events => RequestsFrom clock events

end Timeouts

/-- In every run of a worker with usable contexts, under a clock that does not go back and
that the timeouts can be added to, two requests that send a metric with a timeout are that far
apart, whatever contexts they are in and whatever other requests there are; in the stream
module as long as no context with metrics of its own inherits one with a timeout. -/
theorem worker_timeout_limits [Add Value] (wc : WorkerConf C P ε) (events : List (WorkerEvent C))
    (husable : ∀ event ∈ events, wc.Usable event) (hfits : ∀ event ∈ events, wc.TimeFits event)
    (hclock : RequestsFrom 0 events)
    (hcopies : wc.kind = .http ∨ ∃ own merges, wc.contexts = Kind.stream.merged own merges ∧
      Run.Meets (fun s e => Kind.stream.merge s e.1 e.2)
        (NoCopy fun metric => (wc.conf metric).timeout ≠ 0) (Contexts.parsed own) merges) :
    ∃ p, Process.run wc events = .ok p ∧
      p.sent.Pairwise fun e e' => e.1 = e'.1 → (wc.conf e.1).timeout ≠ 0 →
        e.2 + (wc.conf e.1).timeout ≤ e'.2 := by
  -- the HTTP module has one configuration for each block; in the stream module an element that was
  -- not copied stands where its block was read
  obtain ⟨object, hone⟩ : ∃ object, wc.OneObject object := by
    rcases hcopies with hhttp | ⟨own, merges, hcontexts, hcopy⟩
    · refine ⟨Object.block, ?_⟩
      intro ctx i o metric hobject _
      rw [hhttp] at hobject
      exact Contexts.object_http hobject
    · cases hkind : wc.kind with
      | http =>
          refine ⟨Object.block, ?_⟩
          intro ctx i o metric hobject _
          rw [hkind] at hobject
          exact Contexts.object_http hobject
      | stream =>
          refine ⟨fun metric => .element metric.1 metric.2, ?_⟩
          intro ctx i o metric hobject htimeout
          rw [hkind, hcontexts] at hobject
          obtain ⟨array, ho, hmetric⟩ := Contexts.object_stream hobject
          rw [ho, Kind.merged_inPlace .stream hcopy array i metric hmetric htimeout]
  -- only requests compile, and the clock is the time of the last one
  have hrun : ∀ (events : List (WorkerEvent C)) (t : Traffic) (clock : Nat),
      (∀ event ∈ events, wc.Usable event ∧ wc.TimeFits event) → RequestsFrom clock events →
      t.worker.Inv wc.conf object clock →
      ∃ clock', (Run.exec (Traffic.step wc) t events).worker.Inv wc.conf object clock' := by
    intro events
    induction events with
    | nil =>
        intro t clock _ _ h
        exact ⟨clock, h⟩
    | cons event events ih =>
        intro t clock hevents hclock h
        have hrest := fun event' hevent' => hevents event' (List.mem_cons_of_mem event hevent')
        have hfirst := hevents event List.mem_cons_self
        cases event with
        | request req =>
            exact ih _ req.time hrest hclock.2.2
              (t.request_inv hone hfirst.1 hfirst.2 hclock.1 hclock.2.1 h)
        | sendStat ctx now exiting stat =>
            refine ih _ clock hrest hclock ?_
            show (t.sendStat wc ctx now exiting stat).worker.Inv wc.conf object clock
            unfold Traffic.sendStat
            split
            · exact h
            · exact h
        | flushTimer srv now exiting => exact ih _ clock hrest hclock h
        | aggregateTimer srv now exiting => exact ih _ clock hrest hclock h
        | aggregatePosted srv now exiting => exact ih _ clock hrest hclock h
        | readHandler srv now exiting => exact ih _ clock hrest hclock h
  rcases hrun events Traffic.init 0 (fun event hevent => ⟨husable event hevent, hfits event hevent⟩)
    hclock (Worker.init_inv wc.conf object) with ⟨clock, hinv⟩
  -- what the traffic has sent is what the process has
  rcases Process.run_ok husable with ⟨p, hp, hrefines⟩
  refine ⟨p, hp, ?_⟩
  rw [hrefines.sent]
  exact hinv.limited

section Sample

attribute [local instance] sampleAdd

theorem worker_never_stranded_sample :
    ∃ p, Process.run sampleWorker workerEvents = .ok p ∧
      ∀ srv, (p.systems srv).NeverStranded sampleConf :=
  worker_never_stranded sampleWorker workerEvents sampleWorker_usable
    (fun _ => Nat.succ_pos 999) (by decide) (by decide)

theorem worker_nothing_lost_sample :
    ∃ p, Process.run sampleWorker workerEvents = .ok p ∧
      (p.systems 0).accepted.Sublist (sendsOf (p.calls 0)) ∧
      (p.systems 0).NothingLost sampleConf :=
  worker_nothing_lost sampleWorker workerEvents 0 sampleWorker_usable
    ⟨by decide, fun _ => rfl, fun _ => rfl⟩ (by decide +kernel)

theorem workerEvents_timeFits : ∀ event ∈ workerEvents, sampleWorker.TimeFits event := by
  have htime : ∀ time, time ≤ 160 → sampleWorker.TimeFits (.request (sampleRequest time)) := by
    intro time htime metric _
    show time + 60 < 2 ^ 63
    omega
  intro event hevent
  simp only [workerEvents, List.mem_cons, List.not_mem_nil, or_false] at hevent
  rcases hevent with rfl | rfl | rfl | rfl
  · exact htime 100 (by decide)
  · trivial
  · exact htime 130 (by decide)
  · exact htime 160 (by decide)

theorem worker_timeout_limits_sample :
    ∃ p, Process.run sampleWorker workerEvents = .ok p ∧
      p.sent.Pairwise fun e e' => e.1 = e'.1 → (sampleWorker.conf e.1).timeout ≠ 0 →
        e.2 + (sampleWorker.conf e.1).timeout ≤ e'.2 :=
  worker_timeout_limits sampleWorker workerEvents sampleWorker_usable workerEvents_timeFits
    ⟨by decide, by decide, by decide, by decide, by decide, by decide, trivial⟩ (Or.inl rfl)

/-- The first and the third request send the metric. -/
example : (Traffic.run sampleWorker workerEvents).sent = [((0, 0), 100), ((0, 0), 160)] := by
  decide +kernel

end Sample

end StatsHouse
