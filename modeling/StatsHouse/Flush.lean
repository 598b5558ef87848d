import StatsHouse.History
import StatsHouse.Timers

/-! # What processing flushes

The loop of `ngx_statshouse_aggregate_process` stops at the first record that is
too young. It need not look further, because records join the queue at its tail
and under a clock that does not go back: the times are sorted along the queue.

* `process_flushes_expired`: after any run that hashes no stat to 0 and wraps no size,
  a call hands over exactly the records that have reached the interval, in order, and
  the rest stays as it is.
-/

namespace StatsHouse

variable {V σ : Type}

/-- The handler, with a record of its calls and of what they returned. -/
def logging (handler : Handler V σ) :
    Handler V (σ × List (Option (Stat V) × Rc)) := fun stat ctx =>
  let res := handler stat ctx.1
  (res.1, res.2, ctx.2 ++ [(stat, res.1)])

/-! ## The loop -/

section Loop

variable (env : Env V) (conf : AggregateConf) (handler : Handler V σ) (exiting : Bool) (now : Nat)

/-- The records at the front of the queue, up to the first that is not expired, are
handed over and leave it. -/
theorem aggregateProcessLoop_logging {queue : List Nat} (a : Aggregate V) (ctx : σ)
    (log : List (Option (Stat V) × Rc)) (count : Nat) (hqueue : a.queue = queue) :
    ∃ (b : Aggregate V) (ctx' : σ) (entries : List (Option (Stat V) × Rc)),
      aggregateProcessLoop env conf (logging handler) exiting now queue a (ctx, log) count =
        (b, (ctx', log ++ entries), count + entries.countP fun e => e.2 = .ok) ∧
      entries.map (·.1) = (queue.takeWhile fun p => Expired conf exiting now (a.mem p)).map
        (fun p => some (a.mem p).stat) ∧
      b.queue = (queue.dropWhile fun p => Expired conf exiting now (a.mem p)) ∧
      b.mem = a.mem := by
  induction queue generalizing a ctx log count with
  | nil => exact ⟨a, ctx, [], by simp [aggregateProcessLoop], rfl, hqueue, rfl⟩
  | cons p rest ih =>
      have hyoung : (!exiting && decide (msecDiff now (a.mem p).time < conf.interval)) = true ↔
          ¬ Expired conf exiting now (a.mem p) := by
        simp [Expired]
      unfold aggregateProcessLoop
      by_cases hexpired : Expired conf exiting now (a.mem p)
      · -- the head is handed over, and the loop goes on with the rest
        rw [if_neg (by rw [hyoung]; exact not_not_intro hexpired)]
        let res := handler (some (a.mem p).stat) ctx
        obtain ⟨b, ctx', entries, heq, hentries, hrest, hmem⟩ :=
          ih (a.dropHead env p rest) res.2 (log ++ [(some (a.mem p).stat, res.1)])
            (if res.1 = .ok then count + 1 else count) rfl
        refine ⟨b, ctx', (some (a.mem p).stat, res.1) :: entries, ?_, ?_, ?_, ?_⟩
        · refine heq.trans ?_
          rw [List.append_assoc, List.singleton_append, List.countP_cons]
          by_cases hok : res.1 = .ok
          · simp only [hok, if_true, decide_true, Nat.add_assoc, Nat.add_comm 1]
          · simp only [hok, if_false, decide_false, Bool.false_eq_true, Nat.add_zero]
        · rw [List.takeWhile_cons_of_pos (by simpa using hexpired), List.map_cons, List.map_cons,
            hentries]
          rfl
        · rw [List.dropWhile_cons_of_pos (by simpa using hexpired), hrest]
          rfl
        · exact hmem
      · -- the head is too young
        rw [if_pos (hyoung.mpr hexpired)]
        refine ⟨a, ctx, [], by simp, ?_, ?_, rfl⟩
        · rw [List.takeWhile_cons_of_neg (by simpa using hexpired)]
          rfl
        · rw [List.dropWhile_cons_of_neg (by simpa using hexpired), hqueue]

/-- A call hands over the front of the queue, and finishes with a call without a
stat exactly if the handler took one of the records. -/
theorem aggregateProcess_logging (a : Aggregate V) (ctx : σ) :
    ∃ (rc : Rc) (b : Aggregate V) (ctx' : σ) (log : List (Option (Stat V) × Rc)),
      aggregateProcess env conf (logging handler) exiting now a (ctx, []) =
        (rc, b, (ctx', log)) ∧
      log.map (·.1) = (a.queue.takeWhile fun p => Expired conf exiting now (a.mem p)).map
          (fun p => some (a.mem p).stat) ++
        (if ∃ e ∈ log, e.1.isSome ∧ e.2 = .ok then [none] else []) ∧
      b.queue = (a.queue.dropWhile fun p => Expired conf exiting now (a.mem p)) ∧
      b.mem = a.mem := by
  obtain ⟨b, ctx', entries, heq, hentries, hqueue, hmem⟩ :=
    aggregateProcessLoop_logging env conf handler exiting now a ctx [] 0 rfl
  rw [List.nil_append, Nat.zero_add] at heq
  -- every entry of the loop is a record
  have hsome : ∀ e ∈ entries, e.1.isSome := by
    intro e he
    have hfst : e.1 ∈ entries.map (·.1) := List.mem_map_of_mem he
    rw [hentries] at hfst
    obtain ⟨p, -, hp⟩ := List.mem_map.mp hfst
    rw [← hp]
    rfl
  unfold aggregateProcess
  split
  · -- an empty queue: the handler is not called
    rename_i hnil
    refine ⟨_, a, ctx, [], rfl, ?_, ?_, rfl⟩
    · simp [hnil]
    · simp [hnil]
  · simp only [heq]
    by_cases hcount : (entries.countP fun e => e.2 = .ok) = 0
    · rw [if_pos hcount]
      refine ⟨_, b, ctx', entries, rfl, ?_, hqueue, hmem⟩
      have hnone : ¬ ∃ e ∈ entries, e.1.isSome ∧ e.2 = .ok := by
        rintro ⟨e, he, -, hok⟩
        have hne := List.countP_eq_zero.mp hcount e he
        exact hne (by simpa using hok)
      rw [if_neg hnone, List.append_nil, hentries]
    · rw [if_neg hcount]
      refine ⟨_, b, _, entries ++ [(none, (handler none ctx').1)], rfl, ?_, hqueue, hmem⟩
      have htaken : ∃ e ∈ entries ++ [(none, (handler none ctx').1)], e.1.isSome ∧ e.2 = .ok := by
        obtain ⟨e, he, hok⟩ := List.countP_pos_iff.mp (Nat.pos_of_ne_zero hcount)
        exact ⟨e, List.mem_append_left _ he, hsome e he, by simpa using hok⟩
      rw [if_pos htaken, List.map_append, hentries]
      rfl

end Loop

/-! ## The order of the queue -/

section Order

variable {env : Env V} {conf : AggregateConf} {handler : Handler V σ} {exiting : Bool}
  {a : Aggregate V} {now : Nat}

/-- The calls keep the times in order. -/
theorem kept_onTime : Kept env conf now fun a => a.OnTime conf now := by
  constructor
  · intro a b p f h hchanged hsize htime
    exact h.changed hchanged hsize htime
  · intro a p rest h hqueue
    exact h.dropHead hqueue
  · -- a new record has the time of the clock and joins behind the others
    intro a p alloc r hinv h hsized htime hp
    exact h.insert hinv hsized htime hp
  · intro a h
    exact (aggregateTimer_armed h).1

/-- After a run under a clock that does not go back, the times are in order and not
after a later clock. -/
theorem History.run_onTime [Inhabited V] [Add V] (start size : Nat) (ctx : σ)
    {calls : List (Call V)} (hcalls : ∀ call ∈ calls, RegularCall env conf call)
    (hclock : calls.Pairwise fun c c' => c.now ≤ c'.now)
    (hnow : ∀ call ∈ calls, call.now ≤ now) :
    (History.run env conf handler start size ctx calls).agg.OnTime conf now := by
  have hinit : (History.init env start size ctx : History V σ).agg.OnTime conf 0 :=
    ⟨aggregateInit_live env start size, Deadline.onTime_nil _ _⟩
  have hstep : ∀ t (h : History V σ) (call : Call V),
      call.now ≤ now ∧ RegularCall env conf call → t ≤ call.now →
      t ≤ now ∧ h.agg.Inv conf ∧ h.agg.OnTime conf t →
      call.now ≤ now ∧ (h.step env conf handler call).agg.Inv conf ∧
        (h.step env conf handler call).agg.OnTime conf call.now := by
    rintro t h call ⟨hcall, hregular⟩ hle ⟨-, hinv, honTime⟩
    have honTime : h.agg.OnTime conf call.now := ⟨honTime.live, honTime.onTime.mono hle⟩
    exact ⟨hcall, h.step_inv call hregular hinv, kept_onTime.step hregular hinv honTime⟩
  obtain ⟨t, ht, -, honTime⟩ := Run.exec_invariant_of_clock hstep
    ⟨Nat.zero_le now, aggregateInit_inv env conf start size, hinit⟩
    (fun call hcall => ⟨hnow call hcall, hcalls call hcall⟩) (fun _ _ => Nat.zero_le _) hclock
  exact ⟨honTime.live, honTime.onTime.mono ht⟩

/-- A call takes records off the head of the queue and adds at most one, at the tail. -/
def QueueFifo [Inhabited V] [Add V] (env : Env V) (conf : AggregateConf) (handler : Handler V σ)
    (h : History V σ) (call : Call V) : Prop :=
  ∃ n joined, (h.step env conf handler call).agg.queue = h.agg.queue.drop n ++ joined ∧
    joined.length ≤ 1

/-- What is left of a queue after its head is dropped is still its end. -/
theorem drop_of_drop {queue : List Nat} {p : Nat} {rest : List Nat}
    (h : ∃ n, p :: rest = queue.drop n) : ∃ n, rest = queue.drop n := by
  obtain ⟨n, hn⟩ := h
  refine ⟨n + 1, ?_⟩
  rw [← List.drop_drop, ← hn, List.drop_one, List.tail_cons]

theorem History.step_queueFifo [Inhabited V] [Add V] (h : History V σ) (call : Call V) :
    QueueFifo env conf handler h call := by
  have hself : ∃ n, h.agg.queue = h.agg.queue.drop n := ⟨0, rfl⟩
  cases call with
  | aggregate exiting stat now =>
      refine aggregate_rule (K := fun a _ => ∃ n, a.queue = h.agg.queue.drop n)
        (Q := fun _ a _ => ∃ n joined, a.queue = h.agg.queue.drop n ++ joined ∧
          joined.length ≤ 1) ?_ ?_ ?_ ?_ ?_ ?_ ?_ ?_ ?_
      · exact ⟨0, [], by simp, by simp⟩
      · intro _ p _ _
        exact ⟨0, [], (List.append_nil _).symm, by simp⟩
      · intro _ p _ _ _
        exact ⟨0, [], (List.append_nil _).symm, by simp⟩
      · intro _ p _ _ _
        exact hself
      · intro _ _
        exact hself
      · intro a ctx p rest hdrop hqueue _
        rw [hqueue] at hdrop
        exact drop_of_drop hdrop
      · intro a ctx hdrop
        exact hdrop
      · intro rc a ctx _ hdrop
        obtain ⟨n, hn⟩ := hdrop
        exact ⟨n, [], by rw [hn, List.append_nil], by simp⟩
      · -- the new record
        intro _ a ctx p alloc hdrop _
        obtain ⟨n, hn⟩ := hdrop
        refine ⟨n, [p], ?_, by simp⟩
        obtain ⟨ev, hev⟩ := aggregateTimer_eq conf now (a.insert env alloc p (newRecord stat
          (aggregateHash env.crc stat) (aggregateSize conf.values stat) now))
        rw [hev, ← hn]
        rfl
  | process exiting now =>
      have hprocess : Post (fun _ a _ => ∃ n, a.queue = h.agg.queue.drop n)
          (aggregateProcess env conf (recording handler) exiting now h.agg (h.ctx, h.handed)) := by
        refine aggregateProcess_rule ?_ ?_ hself
        · intro a ctx p rest hdrop hqueue _
          rw [hqueue] at hdrop
          exact drop_of_drop hdrop
        · intro a ctx hdrop
          exact hdrop
      obtain ⟨n, hn⟩ := hprocess
      exact ⟨n, [], by rw [List.append_nil]; exact hn, by simp⟩

end Order

/-! ## The main result -/

/-- The record is handed over by a call at `now`: the worker exits, or `now - time`
has reached the interval. -/
def due (conf : AggregateConf) (exiting : Bool) (now : Nat) (r : AStat V) : Bool :=
  exiting || decide (conf.interval ≤ now - r.time)

/-- What a call of `ngx_statshouse_aggregate_process` in the state `a` does: `log`
are the calls of the handler, `b` is the state it leaves. -/
structure FlushesExpired (conf : AggregateConf) (exiting : Bool) (now : Nat) (a b : Aggregate V)
    (log : List (Option (Stat V) × Rc)) : Prop where
  /-- The due records, once each and in order, and then the call without a stat,
  exactly if one of them was taken. -/
  handed : log.map (·.1) =
    (a.queue.filter fun p => due conf exiting now (a.mem p)).map (fun p => some (a.mem p).stat) ++
      if ∃ e ∈ log, e.1.isSome ∧ e.2 = .ok then [none] else []
  /-- The others stay queued in their order. -/
  queue : b.queue = a.queue.filter fun p => !due conf exiting now (a.mem p)
  mem : b.mem = a.mem
  /-- An exiting worker leaves none. -/
  exiting : exiting = true → b.queue = []
  /-- The tree refers to the records that are left. -/
  tree : b.RefersToLive

section Due

variable {env : Env V} {conf : AggregateConf} {handler : Handler V σ} {exiting : Bool}
  {now : Nat} {a : Aggregate V}

/-- The age of a queued record does not wrap. -/
theorem Aggregate.OnTime.due_eq (h : a.OnTime conf now) {p : Nat} (hp : p ∈ a.queue) :
    due conf exiting now (a.mem p) = decide (Expired conf exiting now (a.mem p)) := by
  have hpast := h.onTime.past (a.mem p).time (List.mem_map_of_mem hp)
  simp [due, Expired, msecDiff, hpast]

/-- The due records are the front of the queue, up to the first that is too young. -/
theorem Aggregate.OnTime.takeWhile_expired (h : a.OnTime conf now) (exiting : Bool) :
    (a.queue.takeWhile fun p => Expired conf exiting now (a.mem p)) =
        (a.queue.filter fun p => due conf exiting now (a.mem p)) ∧
      (a.queue.dropWhile fun p => Expired conf exiting now (a.mem p)) =
        a.queue.filter fun p => !due conf exiting now (a.mem p) := by
  have hordered : a.queue.Pairwise fun p q =>
      decide (Expired conf exiting now (a.mem q)) = true →
        decide (Expired conf exiting now (a.mem p)) = true := by
    have hsorted : a.queue.Pairwise fun p q => (a.mem p).time ≤ (a.mem q).time :=
      List.pairwise_map.mp h.onTime.sorted
    apply hsorted.imp_of_mem
    intro p q hp hq hle
    rw [← h.due_eq hp, ← h.due_eq hq]
    simp only [due, Bool.or_eq_true, decide_eq_true_eq]
    intro hq'
    rcases hq' with hq' | hq'
    · exact Or.inl hq'
    · -- the one before it is at least as old
      right
      omega
  rcases Deadline.filter_due hordered with ⟨htake, hdrop⟩
  rw [htake, hdrop]
  constructor
  · apply List.filter_congr
    intro p hp
    rw [h.due_eq hp]
  · apply List.filter_congr
    intro p hp
    rw [h.due_eq hp]

/-- Where the times are in order, what the loop hands over is all that is due. -/
theorem Aggregate.OnTime.flushesExpired (h : a.OnTime conf now) (hinv : a.Inv conf) (ctx : σ) :
    FlushesExpired conf exiting now a
      (aggregateProcess env conf (logging handler) exiting now a (ctx, [])).2.1
      (aggregateProcess env conf (logging handler) exiting now a (ctx, [])).2.2.2 := by
  rcases h.takeWhile_expired exiting with ⟨htake, hdrop⟩
  obtain ⟨rc, b, ctx', log, heq, hlog, hqueue, hmem⟩ :=
    aggregateProcess_logging env conf handler exiting now a ctx
  have hb : (aggregateProcess env conf (logging handler) exiting now a (ctx, [])).2.1.Inv
      conf :=
    hinv.process _
  rw [heq] at hb ⊢
  rw [htake] at hlog
  rw [hdrop] at hqueue
  refine ⟨hlog, hqueue, hmem, ?_, hb.refersToLive⟩
  intro hexiting
  show b.queue = []
  rw [hqueue, List.filter_eq_nil_iff]
  intro p _
  simp [due, hexiting]

end Due

/-- In every run under a clock that does not go back, that hashes no stat to 0 and wraps no
size, records join the queue at its tail and leave it at its head, and processing at any
later time hands over exactly the expired ones. -/
theorem process_flushes_expired [Inhabited V] [Add V] (env : Env V) (conf : AggregateConf)
    (handler : Handler V σ) (start size : Nat) (ctx₀ : σ) {calls : List (Call V)} {now : Nat}
    (hcalls : ∀ call ∈ calls, RegularCall env conf call)
    (hclock : calls.Pairwise fun c c' => c.now ≤ c'.now) (hnow : ∀ call ∈ calls, call.now ≤ now)
    (exiting : Bool) (ctx : σ) :
    Run.Meets (History.step env conf handler) (QueueFifo env conf handler)
        (History.init env start size ctx₀) calls ∧
      FlushesExpired conf exiting now (History.run env conf handler start size ctx₀ calls).agg
        (aggregateProcess env conf (logging handler) exiting now
          (History.run env conf handler start size ctx₀ calls).agg (ctx, [])).2.1
        (aggregateProcess env conf (logging handler) exiting now
          (History.run env conf handler start size ctx₀ calls).agg (ctx, [])).2.2.2 := by
  constructor
  · exact Run.meets_of_forall (fun call _ h => h.step_queueFifo call) _
  · have hinv : (History.run env conf handler start size ctx₀ calls).agg.Inv conf :=
      History.run_inv start size ctx₀ hcalls
    have honTime : (History.run env conf handler start size ctx₀ calls).agg.OnTime conf now :=
      History.run_onTime start size ctx₀ hcalls hclock hnow
    generalize (History.run env conf handler start size ctx₀ calls).agg = a at hinv honTime
    exact honTime.flushesExpired hinv ctx

/-- Two counters, of which the first is due at 1000. -/
def twoCounters : List (Call Nat) :=
  [.aggregate false ⟨.counter, [109], [], [1]⟩ 0, .aggregate false ⟨.counter, [110], [], [1]⟩ 700]

theorem process_flushes_expired_two :
    Run.Meets (History.step (sampleEnv Nat) ⟨1000, 24⟩ fun _ ctx => (.ok, ctx))
        (QueueFifo (sampleEnv Nat) ⟨1000, 24⟩ fun _ ctx => (.ok, ctx))
        (History.init (sampleEnv Nat) 0 4096 ()) twoCounters ∧
      FlushesExpired ⟨1000, 24⟩ false 1000
        (History.run (sampleEnv Nat) ⟨1000, 24⟩ (fun _ ctx => (.ok, ctx)) 0 4096 ()
          twoCounters).agg
        (aggregateProcess (sampleEnv Nat) ⟨1000, 24⟩ (logging fun _ ctx => (.ok, ctx)) false 1000
          (History.run (sampleEnv Nat) ⟨1000, 24⟩ (fun _ ctx => (.ok, ctx)) 0 4096 ()
            twoCounters).agg ((), [])).2.1
        (aggregateProcess (sampleEnv Nat) ⟨1000, 24⟩ (logging fun _ ctx => (.ok, ctx)) false 1000
          (History.run (sampleEnv Nat) ⟨1000, 24⟩ (fun _ ctx => (.ok, ctx)) 0 4096 ()
            twoCounters).agg ((), [])).2.2.2 :=
  process_flushes_expired (sampleEnv Nat) ⟨1000, 24⟩ (fun _ ctx => (.ok, ctx)) 0 4096 ()
    (by decide +kernel) (by decide) (by decide) false ()

/-- With a number of values that makes the size wrap: seven values of the metric "a", one of
"b" and one of "c", whose records lie behind each other, and then the value 1000 of "a". -/
def wrappedTimeHistory : History Nat Unit :=
  History.run (wordEnv id id) ⟨1000, 2 ^ 61 + 1⟩ (fun _ ctx => (.ok, ctx)) 0 4096 ()
    (List.replicate 7 (.aggregate false ⟨.unique, [97], [], [1]⟩ 0) ++
      [.aggregate false ⟨.unique, [98], [], [1]⟩ 0, .aggregate false ⟨.unique, [99], [], [1]⟩ 0,
        .aggregate false ⟨.unique, [97], [], [1000]⟩ 0])

/-- No hash is 0. The last value is the eighth of its record, whose slot is the time of the
record of "b". At 1000 the records of "a" and "c" are due, and only the first is handed
over. -/
theorem wrapped_not_flushesExpired :
    (∀ s ∈ wrappedTimeHistory.accepted, aggregateHash Crc32.standard s ≠ 0) ∧
      ¬ FlushesExpired ⟨1000, 2 ^ 61 + 1⟩ false 1000 wrappedTimeHistory.agg
        (aggregateProcess (wordEnv id id) ⟨1000, 2 ^ 61 + 1⟩ (logging fun _ ctx => (.ok, ctx)) false
          1000 wrappedTimeHistory.agg ((), [])).2.1
        (aggregateProcess (wordEnv id id) ⟨1000, 2 ^ 61 + 1⟩ (logging fun _ ctx => (.ok, ctx)) false
          1000 wrappedTimeHistory.agg ((), [])).2.2.2 := by
  refine ⟨by decide +kernel, ?_⟩
  intro h
  have hqueue := h.queue
  have hleft : (aggregateProcess (wordEnv id id) ⟨1000, 2 ^ 61 + 1⟩
      (logging fun _ ctx => (.ok, ctx)) false 1000 wrappedTimeHistory.agg ((), [])).2.1.queue =
        [664, 1328] := by
    decide +kernel
  -- the record of "c" is due and should have left
  have hyoung : (wrappedTimeHistory.agg.queue.filter fun p =>
      !due ⟨1000, 2 ^ 61 + 1⟩ false 1000 (wrappedTimeHistory.agg.mem p)) = [664] := by
    decide +kernel
  rw [hleft, hyoung] at hqueue
  cases hqueue

end StatsHouse
