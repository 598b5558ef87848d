import StatsHouse.WorkerRuns

/-! # The two modules in a worker

The handlers of the two modules are written twice and differ in what the elements of `confs`
are: the HTTP module finds the block of a metric itself, the stream module an element of an
array, which has a `conf->last` of its own. Only a metric with a timeout reads it.

* `kinds_agree`: where no metric with a timeout is copied into another context, a worker of
  either module does the same in every run.
-/

namespace StatsHouse

open Outcome

variable {C P ε : Type}

/-! ## Configurations of a metric -/

/-- The merges of the two modules lead to the same contexts. -/
theorem Kind.merged_eq (kind kind' : Kind) (own : Nat → Nat) (merges : List (Nat × Nat)) :
    kind.merged own merges = kind'.merged own merges := by
  have hmerge : ∀ k : Kind, (fun (s : Contexts) (e : Nat × Nat) => k.merge s e.1 e.2) =
      fun s e => s.merge e.1 e.2 := by
    intro k
    funext s e
    exact k.merge_eq s e.1 e.2
  unfold Kind.merged
  rw [hmerge kind, hmerge kind']

/-- At one index of a context the two modules find the same metric, or both none. -/
theorem Contexts.object_kinds (s : Contexts) (c i : Nat) :
    (s.object .http c i = none ∧ s.object .stream c i = none) ∨
      ∃ array metric, s.object .http c i = some (.block metric, metric) ∧
        s.object .stream c i = some (.element array i, metric) ∧
        (s.arrays array)[i]? = some metric := by
  unfold Contexts.object
  cases s.confs c with
  | none => exact Or.inl ⟨rfl, rfl⟩
  | some array =>
      simp only
      cases hget : (s.arrays array)[i]? with
      | none => exact Or.inl ⟨rfl, rfl⟩
      | some metric => exact Or.inr ⟨array, metric, rfl, rfl, hget⟩

section Compiled

variable {V : Type} [Inhabited V] {num : Numbers V} {sp : Splitter P ε} {conf : Conf C}
  {complex : C → Option Str}

/-- A metric without a timeout leaves `conf->last` alone. -/
theorem statCompiled_untimed_last (h : conf.timeout = 0) (last now max : Nat) :
    (statCompiled num sp conf complex last now max).1 = last := by
  unfold statCompiled
  split
  · rfl
  · exact if_neg (not_not_intro h)

/-- A metric without a timeout has the same stats whatever `conf->last` is. -/
theorem statCompiled_untimed_stats (h : conf.timeout = 0) (last last' now max : Nat) :
    (statCompiled num sp conf complex last now max).2 =
      (statCompiled num sp conf complex last' now max).2 := by
  have hnever : ∀ n, ¬ Limited conf n now := fun n hlimited => hlimited.1 h
  simp only [statCompiled, hnever, or_false]
  split
  · rfl
  · rfl

end Compiled

/-! ## One step -/

/-- What an HTTP worker and a stream worker remember of the metrics with a timeout is the same. -/
def SameLast (timed : Metric → Prop) (last last' : Object → Nat) : Prop :=
  ∀ metric, timed metric → last (.block metric) = last' (.element metric.1 metric.2)

theorem SameLast.update {timed : Metric → Prop} {last last' : Object → Nat}
    (h : SameLast timed last last') (metric : Metric) (n : Nat) :
    SameLast timed (Function.update last (.block metric) n)
      (Function.update last' (.element metric.1 metric.2) n) := by
  intro other htimed
  -- the objects of another metric are other objects
  by_cases heq : other = metric
  · rw [heq, Function.update_self, Function.update_self]
  · have hblock : Object.block other ≠ .block metric := fun he => heq (Object.block.inj he)
    have helement : Object.element other.1 other.2 ≠ .element metric.1 metric.2 :=
      fun he => heq (Prod.ext (Object.element.inj he).1 (Object.element.inj he).2)
    rw [Function.update_of_ne hblock, Function.update_of_ne helement]
    exact h other htimed

structure Batch.Matches (timed : Metric → Prop) (b b' : Batch) : Prop where
  last : SameLast timed b.last b'.last
  sent : b.sent = b'.sent
  stats : b.stats = b'.stats

/-- The traffic of an HTTP worker and that of a stream worker, which are the same to the
servers. -/
structure Traffic.Matches (timed : Metric → Prop) (t t' : Traffic) : Prop where
  last : SameLast timed t.last t'.last
  sent : t.sent = t'.sent
  calls : t.calls = t'.calls

/-- The worker of a module, with the contexts as the module merges them. -/
def WorkerConf.ofKind (wc : WorkerConf C P ε) (own : Nat → Nat) (merges : List (Nat × Nat))
    (kind : Kind) : WorkerConf C P ε :=
  { wc with kind := kind, contexts := kind.merged own merges }

/-- The metrics with a timeout. -/
def WorkerConf.Timed (wc : WorkerConf C P ε) (metric : Metric) : Prop :=
  (wc.conf metric).timeout ≠ 0

section Step

variable {wc : WorkerConf C P ε} {own : Nat → Nat} {merges : List (Nat × Nat)} {srv : Nat}

/-- The metric at an index adds the same in both modules: with a timeout it is the element that
was parsed, without one `conf->last` does not matter. -/
theorem Batch.Matches.addMetric {b b' : Batch}
    (hplace : (Kind.stream.merged own merges).InPlace wc.Timed) (h : b.Matches wc.Timed b')
    (req : Request C) (i : Nat) :
    (req.addMetric (wc.ofKind own merges .http) srv b i).Matches wc.Timed
      (req.addMetric (wc.ofKind own merges .stream) srv b' i) := by
  unfold Request.addMetric WorkerConf.ofKind
  simp only
  rw [Kind.merged_eq .http .stream own merges]
  rcases (Kind.stream.merged own merges).object_kinds req.ctx i with
    ⟨hhttp, hstream⟩ | ⟨array, metric, hhttp, hstream, hget⟩
  · rw [hhttp, hstream]
    exact h
  · rw [hhttp, hstream]
    simp only
    split
    · exact h
    -- a metric with a timeout reads `conf->last`, the same one in both
    · by_cases htimed : wc.Timed metric
      · have hmetric : metric = (array, i) := hplace array i metric hget htimed
        subst hmetric
        have hlast : b.last (.block (array, i)) = b'.last (.element array i) :=
          h.last (array, i) htimed
        rw [hlast, h.sent, h.stats]
        exact ⟨h.last.update (array, i) _, rfl, rfl⟩
      -- without one the last may differ: it is neither read nor written
      · have huntimed : (wc.metric metric).timeout = 0 := not_not.mp htimed
        rw [statCompiled_untimed_last huntimed, statCompiled_untimed_last huntimed,
          Function.update_eq_self, Function.update_eq_self,
          statCompiled_untimed_stats huntimed (b.last (.block metric)) (b'.last (.element array i)),
          h.sent, h.stats]
        exact ⟨h.last, rfl, rfl⟩

theorem Traffic.Matches.add {timed : Metric → Prop} {t t' : Traffic} (h : t.Matches timed t')
    (srv : Nat) (calls : List Event) : (t.add srv calls).Matches timed (t'.add srv calls) := by
  refine ⟨h.last, h.sent, ?_⟩
  unfold Traffic.add
  rw [h.calls]

theorem Traffic.Matches.request {t t' : Traffic}
    (hplace : (Kind.stream.merged own merges).InPlace wc.Timed) (h : t.Matches wc.Timed t')
    (req : Request C) :
    (t.request (wc.ofKind own merges .http) req).Matches wc.Timed
      (t'.request (wc.ofKind own merges .stream) req) := by
  have htarget : (wc.ofKind own merges .http).target req.ctx =
      (wc.ofKind own merges .stream).target req.ctx := rfl
  have hcontexts : (wc.ofKind own merges .http).contexts =
      (wc.ofKind own merges .stream).contexts := Kind.merged_eq .http .stream own merges
  unfold Traffic.request
  rw [htarget, hcontexts]
  split
  · exact h
  · rename_i srv _
    split
    · exact h
    · have hbatch : (req.batch (wc.ofKind own merges .http) srv t.last).Matches wc.Timed
          (req.batch (wc.ofKind own merges .stream) srv t'.last) := by
        have hempty : Batch.Matches wc.Timed ⟨t.last, [], []⟩ ⟨t'.last, [], []⟩ :=
          ⟨h.last, rfl, rfl⟩
        unfold Request.batch
        rw [hcontexts]
        refine Run.exec_related ?_ hempty _
        intro b b' i hb
        exact hb.addMetric hplace req i
      have htake : (t.take (req.batch (wc.ofKind own merges .http) srv t.last)).Matches wc.Timed
          (t'.take (req.batch (wc.ofKind own merges .stream) srv t'.last)) := by
        refine ⟨hbatch.last, ?_, h.calls⟩
        unfold Traffic.take
        rw [h.sent, hbatch.sent]
      simp only
      rw [hbatch.stats]
      exact (htake.add srv _).add srv _

theorem Traffic.Matches.step {t t' : Traffic}
    (hplace : (Kind.stream.merged own merges).InPlace wc.Timed) (h : t.Matches wc.Timed t')
    (event : WorkerEvent C) :
    (t.step (wc.ofKind own merges .http) event).Matches wc.Timed
      (t'.step (wc.ofKind own merges .stream) event) := by
  cases event with
  | request req => exact h.request hplace req
  | sendStat ctx now exiting stat =>
      have htarget : (wc.ofKind own merges .http).target ctx =
          (wc.ofKind own merges .stream).target ctx := rfl
      show (t.sendStat _ ctx now exiting stat).Matches wc.Timed (t'.sendStat _ ctx now exiting stat)
      unfold Traffic.sendStat
      rw [htarget]
      split
      · exact h
      · exact h.add _ _
  | flushTimer srv now exiting => exact h.add srv _
  | aggregateTimer srv now exiting => exact h.add srv _
  | aggregatePosted srv now exiting => exact h.add srv _
  | readHandler srv now exiting => exact h.add srv _

/-- The traffic of every run. -/
theorem Traffic.run_matches (hplace : (Kind.stream.merged own merges).InPlace wc.Timed)
    (events : List (WorkerEvent C)) :
    (Traffic.run (wc.ofKind own merges .http) events).Matches wc.Timed
      (Traffic.run (wc.ofKind own merges .stream) events) :=
  Run.exec_related (fun _ _ event h => h.step hplace event) ⟨fun _ _ => rfl, rfl, rfl⟩ events

end Step

/-! ## Runs -/

/-- Where the metrics with a timeout are in the arrays they were parsed into, the workers of the
two modules do the same. -/
theorem Process.run_ofKind [Add Value] (wc : WorkerConf C P ε) {own : Nat → Nat}
    {merges : List (Nat × Nat)} {events : List (WorkerEvent C)}
    (hplace : (Kind.stream.merged own merges).InPlace wc.Timed)
    (husable : ∀ event ∈ events, (wc.ofKind own merges .http).Usable event) :
    ∃ p q, Process.run (wc.ofKind own merges .http) events = .ok p ∧
      Process.run (wc.ofKind own merges .stream) events = .ok q ∧
      p.sent = q.sent ∧ p.calls = q.calls ∧ p.systems = q.systems := by
  have hcontexts : (wc.ofKind own merges .http).contexts =
      (wc.ofKind own merges .stream).contexts := Kind.merged_eq .http .stream own merges
  have husable' : ∀ event ∈ events, (wc.ofKind own merges .stream).Usable event := by
    intro event hevent
    have h := husable event hevent
    unfold WorkerConf.Usable at h ⊢
    rw [hcontexts] at h
    exact h
  -- each process refines its traffic, and the calls of the two are the same
  have hmatches := Traffic.run_matches hplace events
  rcases Process.run_ok husable with ⟨p, hp, h⟩
  rcases Process.run_ok husable' with ⟨q, hq, h'⟩
  refine ⟨p, q, hp, hq, ?_, ?_, ?_⟩
  · rw [h.sent, h'.sent, hmatches.sent]
  · rw [h.calls, h'.calls, hmatches.calls]
  · funext srv
    rw [h.systems srv, h'.systems srv, hmatches.calls]
    rfl

/-- Where no metric with a timeout is copied into another context, a worker of the HTTP module
and one of the stream module with usable contexts come to no fault, send the same metrics at
the same times, make the same calls and leave every server in the same state. -/
theorem kinds_agree [Add Value] (wc : WorkerConf C P ε) (own : Nat → Nat)
    (merges : List (Nat × Nat)) (events : List (WorkerEvent C))
    (hcopy : Run.Meets (fun s e => Kind.stream.merge s e.1 e.2)
      (NoCopy fun metric => (wc.conf metric).timeout ≠ 0) (Contexts.parsed own) merges)
    (husable : ∀ event ∈ events, (wc.ofKind own merges .http).Usable event) :
    ∃ p q, Process.run (wc.ofKind own merges .http) events = .ok p ∧
      Process.run (wc.ofKind own merges .stream) events = .ok q ∧
      p.sent = q.sent ∧ p.calls = q.calls ∧ p.systems = q.systems :=
  Process.run_ofKind wc (Kind.merged_inPlace .stream hcopy) husable

section Sample

attribute [local instance] sampleAdd

/-- The metric is in the first context, and in the second one, which has no metrics of its
own. -/
def innerOwn (c : Nat) : Nat := if c = 0 then 1 else 0

/-- The requests of the second context come after one of the first. -/
def innerEvents : List (WorkerEvent Str) :=
  [.request (sampleRequest 100), .request { sampleRequest 130 with ctx := 1 },
    .request { sampleRequest 160 with ctx := 1 }]

theorem innerEvents_usable :
    ∀ event ∈ innerEvents, (sampleWorker.ofKind innerOwn [(0, 1)] .http).Usable event := by
  have hrequest : ∀ req : Request Str,
      (sampleWorker.ofKind innerOwn [(0, 1)] .http).Usable (.request req) :=
    fun req => sampleWorker_usable_request _ _ _ _ req ServerPtr.noConfusion
  intro event hevent
  simp only [innerEvents, List.mem_cons, List.not_mem_nil, or_false] at hevent
  rcases hevent with rfl | rfl | rfl
  · exact hrequest _
  · exact hrequest _
  · exact hrequest _

theorem kinds_agree_sample :
    ∃ p q, Process.run (sampleWorker.ofKind innerOwn [(0, 1)] .http) innerEvents = .ok p ∧
      Process.run (sampleWorker.ofKind innerOwn [(0, 1)] .stream) innerEvents = .ok q ∧
      p.sent = q.sent ∧ p.calls = q.calls ∧ p.systems = q.systems := by
  have hcopy : Run.Meets (fun s e => Kind.stream.merge s e.1 e.2)
      (NoCopy fun metric => (sampleWorker.conf metric).timeout ≠ 0) (Contexts.parsed innerOwn)
      [(0, 1)] :=
    ⟨fun _ _ => Or.inl rfl, trivial⟩
  exact kinds_agree sampleWorker innerOwn [(0, 1)] innerEvents hcopy innerEvents_usable

end Sample

end StatsHouse
