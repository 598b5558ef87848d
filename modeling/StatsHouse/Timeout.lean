import StatsHouse.Compile
import StatsHouse.Contexts

/-! # The timeout of a metric

`timeout` limits how often a metric is sent, within a worker. The time of the last
time it was is `conf->last`, in the configuration itself, so the limit holds for a
configuration in memory, and not for the `statshouse_metric` block it was made from.

* `timeout_limits`: a block whose configurations are one object is limited, in every
  run in which its timeout can be added to the time. In the HTTP module every block is
  one object.
* `stream_not_limited`: a server of the stream module with a metric of its own gets a
  copy of each metric it inherits, and the copies are sent independently.
-/

namespace StatsHouse

variable {C V P ε : Type}

/-- A call of `ngx_statshouse_stat_compile` by a handler: the context of the request and
the index in its `confs`, the time, the variables of the request and the array of stats. -/
structure CompileCall (C V : Type) where
  ctx : Nat
  index : Nat
  now : Nat
  complex : C → Option Str
  max : Nat
  stats : List (Stat V)

/-- A worker: `conf->last` of each configuration, and the calls that returned a positive
number of stats, with the block and the time of each. -/
structure Worker where
  last : Object → Nat
  sent : List (Metric × Nat)

/-- Before the first request. -/
def Worker.init : Worker := { last := fun _ => 0, sent := [] }

/-- The call was a success with a positive number of stats. -/
def produced (res : Except (Halt ε) (Nat × List (Stat V))) : Bool :=
  match res with
  | .ok (n, _) => 0 < n
  | .error _ => false

section Calls

variable [Inhabited V] (num : Numbers V) (sp : Splitter P ε) (kind : Kind) (contexts : Contexts)
  (conf : Metric → Conf C)

def Worker.step (w : Worker) (call : CompileCall C V) : Worker :=
  match contexts.object kind call.ctx call.index with
  -- the handlers do not call behind the end of `confs`
  | none => w
  | some (object, metric) =>
    let res := statCompile num sp (conf metric) call.complex (w.last object) call.now call.max
      call.stats
    { last := Function.update w.last object res.1
      sent := if produced res.2 then w.sent ++ [(metric, call.now)] else w.sent }

def Worker.run (calls : List (CompileCall C V)) : Worker :=
  Run.exec (Worker.step num sp kind contexts conf) Worker.init calls

/-- Any two calls that sent a metric with a timeout are that far apart. -/
def TimeoutLimits (w : Worker) : Prop :=
  w.sent.Pairwise fun e e' => e.1 = e'.1 → (conf e.1).timeout ≠ 0 →
    e.2 + (conf e.1).timeout ≤ e'.2

/-- The calls go, for each metric with a timeout, to one configuration in memory. -/
def OneObject (calls : List (CompileCall C V)) : Prop :=
  ∃ object : Metric → Object, ∀ call ∈ calls, ∀ o metric,
    contexts.object kind call.ctx call.index = some (o, metric) →
      (conf metric).timeout ≠ 0 → o = object metric

/-- The timeout of the metric of each call can be added to the time of the call. -/
def TimeFits (calls : List (CompileCall C V)) : Prop :=
  ∀ call ∈ calls, ∀ o metric, contexts.object kind call.ctx call.index = some (o, metric) →
    call.now + (conf metric).timeout < 2 ^ 63

end Calls

/-! ## One call -/

section Step

variable [Inhabited V] {num : Numbers V} {sp : Splitter P ε} {kind : Kind} {contexts : Contexts}
  {conf : Metric → Conf C}

/-- A call that produces stats was not limited, and leaves its time in `last`. -/
theorem statCompile_produced {cf : Conf C} {complex : C → Option Str} {last now max : Nat}
    {stats : List (Stat V)} (htimeout : cf.timeout ≠ 0) (hfits : last + cf.timeout < 2 ^ 63)
    (h : produced (statCompile num sp cf complex last now max stats).2 = true) :
    (statCompile num sp cf complex last now max stats).1 = now ∧
      (last ≠ 0 → last + cf.timeout ≤ now) := by
  unfold statCompile at h ⊢
  split
  · rename_i hdisable
    simp [hdisable, produced] at h
  · rename_i hdisable
    rw [if_neg hdisable] at h
    split
    · rename_i hlimited
      simp [hlimited, produced] at h
    · rename_i hlimited
      constructor
      · rfl
      · intro hlast
        by_contra hlt
        exact hlimited (limited_of_lt hfits htimeout hlast (by omega))

/-- A call leaves `last` as it is, or sets it to its time. -/
theorem statCompile_last (num : Numbers V) (sp : Splitter P ε) (cf : Conf C)
    (complex : C → Option Str) (last now max : Nat) (stats : List (Stat V)) :
    (statCompile num sp cf complex last now max stats).1 = last ∨
      (statCompile num sp cf complex last now max stats).1 = now := by
  unfold statCompile
  split
  · exact Or.inl rfl
  · split
    · exact Or.inl rfl
    · simp only
      split
      · exact Or.inr rfl
      · exact Or.inl rfl

/-- The sent metrics are limited so far, and the configuration of each knows. -/
structure Worker.Inv (conf : Metric → Conf C) (object : Metric → Object) (clock : Nat)
    (w : Worker) : Prop where
  limited : TimeoutLimits conf w
  past : ∀ e ∈ w.sent, 0 < e.2 ∧ e.2 ≤ clock
  last : ∀ e ∈ w.sent, (conf e.1).timeout ≠ 0 → e.2 ≤ w.last (object e.1)
  clock : ∀ o, w.last o ≤ clock

/-- An old entry is in the past of its configuration, whether this call sets `last` or not. -/
theorem Worker.Inv.le_last {object : Metric → Object} {clock : Nat} {w : Worker}
    {call : CompileCall C V} (h : w.Inv conf object clock) (hclock : clock ≤ call.now)
    (o : Object) (metric : Metric) {e : Metric × Nat} (he : e ∈ w.sent)
    (htimeout : (conf e.1).timeout ≠ 0) :
    e.2 ≤ Function.update w.last o
      (statCompile num sp (conf metric) call.complex (w.last o) call.now call.max call.stats).1
      (object e.1) := by
  have hold := h.last e he htimeout
  by_cases heq : object e.1 = o
  · rw [heq] at hold ⊢
    rw [Function.update_self]
    rcases statCompile_last num sp (conf metric) call.complex (w.last o) call.now call.max
      call.stats with hsame | hnow
    · rw [hsame]
      exact hold
    · rw [hnow]
      exact (h.past e he).2.trans hclock
  · rw [Function.update_of_ne heq]
    exact hold

/-- No configuration has a time behind that of the call. -/
theorem Worker.Inv.le_clock {object : Metric → Object} {clock : Nat} {w : Worker}
    {call : CompileCall C V} (h : w.Inv conf object clock) (hclock : clock ≤ call.now)
    (o : Object) (metric : Metric) (o' : Object) :
    Function.update w.last o
      (statCompile num sp (conf metric) call.complex (w.last o) call.now call.max call.stats).1 o' ≤
      call.now := by
  by_cases heq : o' = o
  · rw [heq, Function.update_self]
    rcases statCompile_last num sp (conf metric) call.complex (w.last o) call.now call.max
      call.stats with hsame | hnow
    · rw [hsame]
      exact (h.clock o).trans hclock
    · exact Nat.le_of_eq hnow
  · rw [Function.update_of_ne heq]
    exact (h.clock o').trans hclock

/-- A call that produces stats was not limited, so the entries of its metric are a timeout
away. -/
theorem Worker.Inv.le_now {object : Metric → Object} {clock : Nat} {w : Worker}
    {call : CompileCall C V} {metric : Metric} (h : w.Inv conf object clock)
    (hclock : clock ≤ call.now) (hfits : call.now + (conf metric).timeout < 2 ^ 63)
    (htimeout : (conf metric).timeout ≠ 0)
    (hproduced : produced (statCompile num sp (conf metric) call.complex
      (w.last (object metric)) call.now call.max call.stats).2 = true)
    {e : Metric × Nat} (he : e ∈ w.sent) (hmetric : e.1 = metric) :
    e.2 + (conf metric).timeout ≤ call.now := by
  have hpos := (h.past e he).1
  have hold := h.last e he (by rw [hmetric]; exact htimeout)
  rw [hmetric] at hold
  have hlast := (h.clock (object metric)).trans hclock
  have hfree := (statCompile_produced htimeout (by omega) hproduced).2 (by omega)
  omega

theorem Worker.Inv.step {object : Metric → Object} {clock : Nat} {w : Worker}
    {call : CompileCall C V} (h : w.Inv conf object clock) (hclock : clock ≤ call.now)
    (hpos : 0 < call.now)
    (hobject : ∀ o metric, contexts.object kind call.ctx call.index = some (o, metric) →
      (conf metric).timeout ≠ 0 → o = object metric)
    (hfits : ∀ o metric, contexts.object kind call.ctx call.index = some (o, metric) →
      call.now + (conf metric).timeout < 2 ^ 63) :
    (w.step num sp kind contexts conf call).Inv conf object call.now := by
  have hpast : ∀ e ∈ w.sent, 0 < e.2 ∧ e.2 ≤ call.now := by
    intro e he
    have hold := h.past e he
    omega
  unfold Worker.step
  split
  · exact ⟨h.limited, hpast, h.last, fun o => (h.clock o).trans hclock⟩
  · rename_i o metric hget
    have hsum := hfits o metric hget
    have hold : w.last o + (conf metric).timeout < 2 ^ 63 :=
      Nat.lt_of_le_of_lt (Nat.add_le_add_right ((h.clock o).trans hclock) _) hsum
    simp only
    split
    · rename_i hproduced
      refine ⟨?_, ?_, ?_, h.le_clock hclock o metric⟩
      · refine List.pairwise_append.mpr ⟨h.limited, List.pairwise_singleton _ _, ?_⟩
        intro e he e' he' heq htimeout
        rw [List.mem_singleton.mp he'] at heq ⊢
        have hmetric : e.1 = metric := heq
        rw [hmetric] at htimeout ⊢
        rw [hobject o metric hget htimeout] at hproduced
        exact h.le_now hclock hsum htimeout hproduced he hmetric
      · intro e he
        rcases List.mem_append.mp he with he | he
        · exact hpast e he
        · rw [List.mem_singleton.mp he]
          exact ⟨hpos, Nat.le_refl _⟩
      · intro e he htimeout
        rcases List.mem_append.mp he with he | he
        · exact h.le_last hclock o metric he htimeout
        · -- the new entry is the time left in `last`
          rw [List.mem_singleton.mp he] at htimeout ⊢
          show call.now ≤ Function.update w.last o _ (object metric)
          rw [← hobject o metric hget htimeout, Function.update_self,
            (statCompile_produced htimeout hold hproduced).1]
    · exact ⟨h.limited, hpast, fun e he htimeout => h.le_last hclock o metric he htimeout,
        h.le_clock hclock o metric⟩

end Step

/-! ## The configurations of a block -/

section Objects

variable {conf : Metric → Conf C}

/-- The configurations of the HTTP module are those of the blocks. -/
theorem oneObject_http (contexts : Contexts) (conf : Metric → Conf C)
    (calls : List (CompileCall C V)) : OneObject .http contexts conf calls := by
  refine ⟨Object.block, ?_⟩
  intro call _ o metric hget _
  exact Contexts.object_http hget

/-- Without a copy of a metric with a timeout, the stream module has one configuration
for each of these. -/
theorem oneObject_stream {own : Nat → Nat} {merges : List (Nat × Nat)}
    (hcopy : Run.Meets (fun s e => Kind.stream.merge s e.1 e.2)
      (NoCopy fun metric => (conf metric).timeout ≠ 0) (Contexts.parsed own) merges)
    (calls : List (CompileCall C V)) :
    OneObject .stream (Kind.stream.merged own merges) conf calls := by
  refine ⟨fun metric => .element metric.1 metric.2, ?_⟩
  intro call _ o metric hget htimeout
  obtain ⟨array, ho, hmetric⟩ := Contexts.object_stream hget
  rw [ho, Kind.merged_inPlace .stream hcopy array call.index metric hmetric htimeout]

end Objects

/-! ## Runs -/

section Runs

variable [Inhabited V] (num : Numbers V) (sp : Splitter P ε) {kind : Kind} {contexts : Contexts}
  {conf : Metric → Conf C} {calls : List (CompileCall C V)}

theorem Worker.init_inv (conf : Metric → Conf C) (object : Metric → Object) :
    Worker.init.Inv conf object 0 := by
  refine ⟨List.Pairwise.nil, ?_, ?_, fun _ => Nat.le_refl 0⟩
  · intro e he
    cases he
  · intro e he
    cases he

/-- Calls that go to one configuration for each metric are limited. -/
theorem Worker.run_limited (hclock : calls.Pairwise fun c c' => c.now ≤ c'.now)
    (hpos : ∀ call ∈ calls, 0 < call.now) (hfits : TimeFits kind contexts conf calls)
    (hone : OneObject kind contexts conf calls) :
    TimeoutLimits conf (Worker.run num sp kind contexts conf calls) := by
  obtain ⟨object, hobject⟩ := hone
  have hstep : ∀ clock (w : Worker) (call : CompileCall C V), call ∈ calls → clock ≤ call.now →
      w.Inv conf object clock →
      (w.step num sp kind contexts conf call).Inv conf object call.now := by
    intro clock w call hcall hle h
    exact h.step hle (hpos call hcall) (hobject call hcall) (hfits call hcall)
  obtain ⟨clock, hinv⟩ := Run.exec_invariant_of_clock hstep (Worker.init_inv conf object)
    (fun _ hcall => hcall) (fun _ _ => Nat.zero_le _) hclock
  exact hinv.limited

/-- In every run under a clock that does not go back, and that the timeouts can be added to,
the timeout limits every block in the HTTP module, in any contexts. In the stream module it
does so in every such run that uses no two configurations of one block; there are no two,
unless a context with metrics of its own inherits one with a timeout. -/
theorem timeout_limits (own : Nat → Nat) (merges : List (Nat × Nat)) (conf : Metric → Conf C)
    (calls : List (CompileCall C V)) (hclock : calls.Pairwise fun c c' => c.now ≤ c'.now)
    (hpos : ∀ call ∈ calls, 0 < call.now) :
    (TimeFits .http (Kind.http.merged own merges) conf calls →
        TimeoutLimits conf (Worker.run num sp .http (Kind.http.merged own merges) conf calls)) ∧
      (TimeFits .stream (Kind.stream.merged own merges) conf calls →
        OneObject .stream (Kind.stream.merged own merges) conf calls →
        TimeoutLimits conf (Worker.run num sp .stream (Kind.stream.merged own merges) conf calls)) ∧
      (Run.Meets (fun s e => Kind.stream.merge s e.1 e.2)
        (NoCopy fun metric => (conf metric).timeout ≠ 0) (Contexts.parsed own) merges →
        OneObject .stream (Kind.stream.merged own merges) conf calls) := by
  refine ⟨?_, ?_, ?_⟩
  · intro hfits
    exact Worker.run_limited num sp hclock hpos hfits (oneObject_http _ conf calls)
  · intro hfits hone
    exact Worker.run_limited num sp hclock hpos hfits hone
  · intro hcopy
    exact oneObject_stream hcopy calls

end Runs

/-- Metrics with a timeout of a minute and the value of a variable that is always "1". -/
def minuteConf : Metric → Conf Str := fun _ =>
  { Conf.ofValue ⟨[0x31], .value, false⟩ with timeout := 60 }

/-- A call at 1000 for the metric at an index of a context. -/
def minuteCall (ctx index : Nat) : CompileCall Str Int :=
  { ctx := ctx, index := index, now := 1000, complex := some, max := 1,
    stats := [Stat.init [] .value] }

/-- Both modules with a metric in the context 0, which the contexts 1 and 2 inherit. -/
theorem timeout_limits_shared :
    TimeoutLimits minuteConf
        (Worker.run wholeNumbers statSplitter .http
          (Kind.http.merged (fun c => if c = 0 then 1 else 0) [(0, 1), (0, 2)]) minuteConf
          [minuteCall 1 0, minuteCall 2 0]) ∧
      TimeoutLimits minuteConf
        (Worker.run wholeNumbers statSplitter .stream
          (Kind.stream.merged (fun c => if c = 0 then 1 else 0) [(0, 1), (0, 2)]) minuteConf
          [minuteCall 1 0, minuteCall 2 0]) := by
  obtain ⟨hhttp, hstream, hone⟩ :=
    timeout_limits wholeNumbers statSplitter (fun c => if c = 0 then 1 else 0) [(0, 1), (0, 2)]
      minuteConf [minuteCall 1 0, minuteCall 2 0] (by decide) (by decide)
  have hfits : ∀ kind contexts, TimeFits kind contexts minuteConf
      [minuteCall 1 0, minuteCall 2 0] := by
    intro kind contexts call hcall o metric _
    simp only [List.mem_cons, List.not_mem_nil, or_false] at hcall
    have hsecond : 1000 + 60 < 2 ^ 63 := by decide
    rcases hcall with rfl | rfl <;> exact hsecond
  refine ⟨hhttp (hfits _ _), hstream (hfits _ _) (hone ⟨?_, ?_, trivial⟩)⟩
  · intro array _
    exact Or.inl rfl
  · intro array _
    exact Or.inl rfl

/-- The context 1 has a metric of its own too, and a copy of the one it inherits. -/
def copiedMerges : Contexts :=
  Kind.stream.merged (fun c => if c = 2 then 0 else 1) [(0, 1), (0, 2)]

/-- It sends the inherited metric in the same second as the context 2. In the HTTP module
the second call is limited. -/
theorem stream_not_limited :
    ¬ TimeoutLimits minuteConf
        (Worker.run wholeNumbers statSplitter .stream copiedMerges minuteConf
          [minuteCall 1 1, minuteCall 2 0]) ∧
      (Worker.run wholeNumbers statSplitter .http copiedMerges minuteConf
          [minuteCall 1 1, minuteCall 2 0]).sent = [((0, 0), 1000)] := by
  have hsent : (Worker.run wholeNumbers statSplitter .stream copiedMerges minuteConf
      [minuteCall 1 1, minuteCall 2 0]).sent = [((0, 0), 1000), ((0, 0), 1000)] := by
    decide +kernel
  constructor
  · intro h
    rw [TimeoutLimits, hsent] at h
    have htwice := (List.pairwise_cons.mp h).1 ((0, 0), 1000) (by simp) rfl (by decide)
    revert htwice
    decide
  · decide +kernel

end StatsHouse
