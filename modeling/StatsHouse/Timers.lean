import StatsHouse.Lib.Deadline
import StatsHouse.Regular

/-! # Timers

Whatever is buffered waits for `flush_event`, and whatever is queued for the
timer of the aggregator. Neither is armed again on every exit of the functions;
that it need not be is the invariant of this module: a timer that is armed stays
armed until it fires, and then its handler arms it again.

* `never_stranded`: between callbacks, a non-empty buffer has `flush_event` armed,
  and a non-empty queue has its timer posted, or armed for no later than the
  interval after the time of its head. A stat that hashes to 0 can break the last.
-/

namespace StatsHouse

variable {V σ : Type}

/-! ## The aggregator -/

/-- The times of the queued records. -/
def Aggregate.times (a : Aggregate V) : List Nat := a.queue.map fun p => (a.mem p).time

/-- The timer, if it is armed, fires before a queued record is overdue. -/
structure Aggregate.OnTime (conf : AggregateConf) (clock : Nat) (a : Aggregate V) : Prop where
  live : a.Live
  onTime : Deadline.OnTime conf.interval clock a.times a.timerEvent.timer

/-- A non-empty queue has a timer. -/
def Aggregate.Armed (a : Aggregate V) : Prop :=
  a.queue ≠ [] → a.timerEvent.timer.isSome ∨ a.timerEvent.posted = true

section Aggregate

variable {env : Env V} {conf : AggregateConf} {a : Aggregate V} {p clock now : Nat}

theorem Aggregate.OnTime.changed {b : Aggregate V} {f : AStat V → AStat V}
    (h : a.OnTime conf clock) (hchanged : a.Changed b p f) (hsize : ∀ r, (f r).size = r.size)
    (htime : ∀ r, (f r).time = r.time) : b.OnTime conf clock := by
  have htimes : b.times = a.times := hchanged.map (g := fun _ r => r.time) fun _ r => htime r
  constructor
  · exact hchanged.live hsize h.live
  · rw [htimes, hchanged.timerEvent]
    exact h.onTime

theorem Aggregate.OnTime.dropHead {rest : List Nat} (h : a.OnTime conf clock)
    (hqueue : a.queue = p :: rest) : (a.dropHead env p rest).OnTime conf clock := by
  have htimes : a.times = (a.mem p).time :: (a.dropHead env p rest).times := by
    simp [times, hqueue]
  have honTime := h.onTime
  rw [htimes] at honTime
  exact ⟨h.live.dropHead hqueue, honTime.tail⟩

theorem Aggregate.OnTime.insert {alloc : Alloc} {r : AStat V} (h : a.OnTime conf clock)
    (hinv : a.Inv conf) (hsized : Sized conf r) (htime : r.time = clock)
    (hp : aggregateAlloc a.alloc r.size = some (p, alloc)) :
    (a.insert env alloc p r).OnTime conf clock := by
  have htimes : (a.insert env alloc p r).times = a.times ++ [r.time] :=
    hinv.map_insert hsized hp fun _ r => r.time
  constructor
  · exact hinv.insert_live hsized hp
  · rw [htimes, htime]
    exact h.onTime.snoc

/-- The timer function arms the timer for the head, or posts the event. -/
theorem aggregateTimer_armed (h : a.OnTime conf now) :
    (aggregateTimer conf now a).OnTime conf now ∧ (aggregateTimer conf now a).Armed := by
  unfold aggregateTimer
  split
  · -- it is armed or posted already
    rename_i hset
    exact ⟨h, fun _ => by simpa using hset⟩
  · rename_i hset
    split
    · rename_i hqueue
      exact ⟨h, fun hne => absurd hqueue hne⟩
    · rename_i p rest hqueue
      have htimes : a.times = (a.mem p).time :: rest.map fun q => (a.mem q).time := by
        simp [Aggregate.times, hqueue]
      have honTime := h.onTime
      rw [htimes] at honTime
      have hpast := honTime.past (a.mem p).time (by simp)
      simp only
      split
      · -- the head is due: the event is posted
        exact ⟨⟨h.live, h.onTime⟩, fun _ => Or.inr rfl⟩
      · -- the timer is armed for what is left of the head's interval
        rename_i hdiff
        rw [msecDiff, if_pos hpast] at hdiff ⊢
        have hdue : now + (conf.interval - (now - (a.mem p).time)) =
            (a.mem p).time + conf.interval := by omega
        have harm := honTime.arm
        rw [← htimes, ← hdue] at harm
        constructor
        · exact ⟨h.live, harm⟩
        · intro _
          exact Or.inl rfl

end Aggregate

/-! ## The server -/

/-- A non-empty buffer has a timer. -/
def Server.FlushArmed (server : Server) : Prop :=
  server.buffer ≠ [] → server.flushEvent.isSome

section Server

variable {net : Net} {conf : ServerConf} {server : Server} {now : Nat}

/-- A flush leaves the timer alone. -/
theorem Server.flush_flushEvent (net : Net) (conf : ServerConf) (exiting : Bool) (server : Server) :
    (server.flush net conf exiting).2.flushEvent = server.flushEvent := by
  rcases server.flush_cases net conf exiting with ⟨rc, c, n, -, -, heq⟩ |
    ⟨c, n, -, -, heq⟩ | ⟨c, n, result, -, -, -, heq⟩
  · rw [heq]
  · rw [heq]
  · rw [heq]

theorem Server.FlushArmed.flush (h : server.FlushArmed) :
    (server.flush net conf false).2.FlushArmed := by
  rcases server.flush_cases net conf false with ⟨rc, c, n, -, -, heq⟩ |
    ⟨c, n, -, -, heq⟩ | ⟨c, n, result, -, -, -, heq⟩
  · rw [heq]
    exact h
  · -- a failed send keeps the buffer, and its timer with it
    rw [heq]
    exact h
  · -- the buffer is empty
    rw [heq]
    intro hbuffer
    exact absurd rfl hbuffer

theorem Server.timer_flushArmed (hflush : 0 < conf.flush) (server : Server) :
    (server.timer conf false now).FlushArmed := by
  intro hbuffer
  unfold timer at hbuffer ⊢
  split
  · rename_i hset
    exact hset.resolve_left (by omega)
  · rename_i hset
    rw [if_neg hset] at hbuffer
    split
    · rename_i hempty
      rw [if_pos hempty] at hbuffer
      exact absurd hempty hbuffer
    · rfl

theorem Server.FlushArmed.sendToBuffer (hflush : 0 < conf.flush) (h : server.FlushArmed)
    (stat : Stat Value) : (server.sendToBuffer net conf false now stat).2.FlushArmed := by
  rcases server.sendToBuffer_cases net conf false now stat with ⟨heq, -⟩ | ⟨mid, -, -, heq⟩
  · rw [heq]
    exact h.flush
  · rw [heq]
    exact Server.timer_flushArmed hflush _

theorem aggregateHandler_flushArmed (hflush : 0 < conf.flush) (h : server.FlushArmed)
    (stat : Option (Stat Value)) :
    (aggregateHandler net conf false now stat server).2.FlushArmed := by
  cases stat with
  | none => exact h.flush
  | some stat => exact h.sendToBuffer hflush stat

end Server

/-! ## Both -/

/-- The timers of the aggregator and of the server are set. -/
def TimersSet (conf : ServerConf) (clock : Nat) (a : Aggregate Value) (server : Server) : Prop :=
  (a.OnTime conf.aggregate clock ∧ a.Armed) ∧ server.FlushArmed

section Calls

variable {conf : ServerConf} {a : Aggregate Value} {server : Server} {now : Nat}

theorem Aggregate.Armed.dropHead {env : Env Value} {p : Nat} {rest : List Nat} (h : a.Armed)
    (hqueue : a.queue = p :: rest) : (a.dropHead env p rest).Armed := by
  intro _
  exact h (by rw [hqueue]; exact List.cons_ne_nil _ _)

theorem Aggregate.Armed.changed {b : Aggregate Value} {p : Nat}
    {f : AStat Value → AStat Value} (h : a.Armed) (hchanged : a.Changed b p f) : b.Armed := by
  unfold Armed
  rw [hchanged.queue, hchanged.timerEvent]
  exact h

theorem TimersSet.aggregate [Add Value] {env : Env Value} (net : Net) {stat : Stat Value}
    (hflush : 0 < conf.flush)
    (hregular : Admitted conf.aggregate false stat → Regular env conf.aggregate stat)
    (hinv : a.Inv conf.aggregate) (h : TimersSet conf now a server) :
    Post (fun _ => TimersSet conf now)
      (aggregate env conf.aggregate (aggregateHandler net conf false now) false stat now a
        server) := by
  rcases h with ⟨⟨honTime, harmed⟩, hserver⟩
  refine (aggregate_rule_inv (P := TimersSet conf now) (Q := fun _ => TimersSet conf now)
    hregular hinv ?_ ?_ ?_ ?_ ?_ ?_ ?_ ?_ ?_).2
  · exact ⟨⟨honTime, harmed⟩, hserver⟩
  · -- a merge changes neither the queue nor the times
    intro _ p _ _ hchanged
    exact ⟨⟨honTime.changed hchanged (fun _ => rfl) fun _ => rfl, harmed.changed hchanged⟩, hserver⟩
  · intro _ p _ _ _ hchanged
    exact ⟨⟨honTime.changed hchanged (fun _ => rfl) fun _ => rfl, harmed.changed hchanged⟩, hserver⟩
  · intro _ p _ _ _ hchanged
    exact ⟨⟨honTime.changed hchanged (fun _ => rfl) fun _ => rfl, harmed.changed hchanged⟩, hserver⟩
  · intro _ _
    exact ⟨⟨honTime, harmed⟩, hserver⟩
  · -- the head the timer was armed for leaves, and the timer stays
    rintro a server p rest - ⟨⟨honTime, harmed⟩, hserver⟩ hqueue _
    constructor
    · exact ⟨honTime.dropHead hqueue, harmed.dropHead hqueue⟩
    · exact aggregateHandler_flushArmed hflush hserver _
  · rintro a server ⟨ha, hserver⟩
    exact ⟨ha, aggregateHandler_flushArmed hflush hserver _⟩
  · intro rc a server _ h
    exact h
  · -- a new record is the only one for which the timer may have to be armed
    rintro a server p alloc r - hinv ⟨⟨honTime, -⟩, hserver⟩ hr hsized hp
    exact ⟨aggregateTimer_armed (honTime.insert hinv hsized (by rw [hr]; rfl) hp), hserver⟩

/-- The timer handler arms the timer again, whatever it was before. -/
theorem aggregateTimerHandler_timersSet [Add Value] (env : Env Value) (net : Net)
    (hflush : 0 < conf.flush) (ha : a.OnTime conf.aggregate now) (hserver : server.FlushArmed) :
    TimersSet conf now
      (aggregateTimerHandler env conf.aggregate (aggregateHandler net conf false now) false now a
        server).1
      (aggregateTimerHandler env conf.aggregate (aggregateHandler net conf false now) false now a
        server).2 := by
  have hprocess : Post (fun _ a server => a.OnTime conf.aggregate now ∧ server.FlushArmed)
      (aggregateProcess env conf.aggregate (aggregateHandler net conf false now) false now a
        server) := by
    refine aggregateProcess_rule ?_ ?_ ⟨ha, hserver⟩
    · rintro a server p rest ⟨ha, hserver⟩ hqueue _
      constructor
      · exact ha.dropHead hqueue
      · exact aggregateHandler_flushArmed hflush hserver _
    · rintro a server ⟨ha, hserver⟩
      exact ⟨ha, aggregateHandler_flushArmed hflush hserver _⟩
  exact ⟨aggregateTimer_armed hprocess.1, hprocess.2⟩

end Calls

/-! ## Runs -/

/-- The timers are set, at the time `clock`. -/
structure System.Waiting (conf : ServerConf) (clock : Nat) (sys : System) : Prop where
  server : sys.server.FlushArmed
  aggregate : ∀ a, sys.aggregate = some a → a.OnTime conf.aggregate clock ∧ a.Armed

theorem System.init_waiting (env : Env Value) (conf : ServerConf) (start : Nat) :
    (System.init env conf start).Waiting conf 0 := by
  constructor
  · intro hbuffer
    exact absurd rfl hbuffer
  · intro a ha
    unfold System.init at ha
    split at ha
    · cases ha
    · cases ha
      exact ⟨⟨aggregateInit_live _ _ _, Deadline.onTime_nil _ _⟩, fun hqueue => absurd rfl hqueue⟩

theorem System.Waiting.mono {conf : ServerConf} {sys : System} {clock clock' : Nat}
    (hle : clock ≤ clock') (h : sys.Waiting conf clock) : sys.Waiting conf clock' := by
  constructor
  · exact h.server
  · intro a ha
    rcases h.aggregate a ha with ⟨honTime, harmed⟩
    exact ⟨⟨honTime.live, honTime.onTime.mono hle⟩, harmed⟩

section Runs

variable [Add Value] {env : Env Value} {net : Net} {conf : ServerConf}

theorem fire_waiting {sys : System} {event : Event} {armed : TimerEvent → Bool}
    {clear : TimerEvent → TimerEvent} (hflush : 0 < conf.flush) (hexiting : event.exiting = false)
    (hclear : ∀ ev, (clear ev).timer = ev.timer ∨ (clear ev).timer = none)
    (h : sys.Waiting conf event.now) :
    (fire env net conf event armed clear sys).Waiting conf event.now := by
  unfold fire
  split
  · exact h
  · rename_i a ha
    split
    · -- the cleared timer restricts nothing, and a posted event never did
      have honTime := (h.aggregate a ha).1
      have hcleared : Aggregate.OnTime conf.aggregate event.now
          { a with timerEvent := clear a.timerEvent } := by
        have hdue : Deadline.OnTime conf.aggregate.interval event.now a.times
            (clear a.timerEvent).timer := by
          rcases hclear a.timerEvent with heq | heq
          · rw [heq]
            exact honTime.onTime
          · rw [heq]
            exact honTime.onTime.disarm
        exact ⟨honTime.live, hdue⟩
      have hset := aggregateTimerHandler_timersSet env net hflush hcleared h.server
      rw [hexiting]
      constructor
      · exact hset.2
      · intro b hb
        cases hb
        exact hset.1
    · exact h

theorem send_waiting {sys : System} {now : Nat} {stat : Stat Value} (hflush : 0 < conf.flush)
    (hregular : ∀ a, sys.aggregate = some a → Admitted conf.aggregate false stat →
      Regular env conf.aggregate stat)
    (hinv : sys.Inv conf) (h : sys.Waiting conf now) (accepted : List (Stat Value)) :
    System.Waiting conf now
      { server := (send env net conf false now stat sys.server sys.aggregate).2.1
        aggregate := (send env net conf false now stat sys.server sys.aggregate).2.2
        accepted := accepted } := by
  cases hagg : sys.aggregate with
  | none => exact ⟨h.server.sendToBuffer hflush stat, fun a ha => by cases ha⟩
  | some a =>
      have hset : TimersSet conf now a sys.server := ⟨h.aggregate a hagg, h.server⟩
      rcases hset.aggregate net hflush (hregular a hagg) (hinv.aggregate a hagg) with
        ⟨ha, hserver⟩
      simp only [send]
      split
      · constructor
        · exact hserver
        · intro b hb
          cases hb
          exact ha
      · -- declined: the buffer takes the stat and its timer is armed
        constructor
        · exact hserver.sendToBuffer hflush stat
        · intro b hb
          cases hb
          exact ha

theorem System.step_waiting (hflush : 0 < conf.flush) {clock : Nat} (sys : System) (event : Event)
    (hexiting : event.exiting = false) (hregular : RegularEvent env conf event)
    (hclock : clock ≤ event.now) (hinv : sys.Inv conf) (h : sys.Waiting conf clock) :
    (System.step env net conf sys event).Waiting conf event.now := by
  have h := h.mono hclock
  -- the exit of the worker would leave the buffer without a timer
  unfold System.step
  split
  · rename_i stat hsend
    rw [hexiting]
    apply send_waiting hflush _ hinv h
    intro a ha
    have hadmitted := hinv.regular hregular hsend ha
    rw [hexiting] at hadmitted
    exact hadmitted
  · rw [hexiting]
    exact ⟨h.server.flush, h.aggregate⟩
  · rw [hexiting]
    constructor
    · unfold Server.flushAfterRequest
      split
      · exact h.server.flush
      · exact h.server
    · exact h.aggregate
  · split
    · rw [hexiting]
      exact ⟨Server.timer_flushArmed hflush _, h.aggregate⟩
    · exact h
  · exact fire_waiting hflush hexiting (fun _ => Or.inr rfl) h
  · exact fire_waiting hflush hexiting (fun _ => Or.inl rfl) h
  · constructor
    · simp only [Server.readHandler, Server.disconnect_eq]
      exact h.server
    · exact h.aggregate

/-- What is buffered and what is queued waits for a timer. -/
structure System.NeverStranded (conf : ServerConf) (sys : System) : Prop where
  buffer : sys.server.buffer ≠ [] → sys.server.flushEvent.isSome
  queue : ∀ a, sys.aggregate = some a → a.queue ≠ [] →
    a.timerEvent.timer.isSome ∨ a.timerEvent.posted = true
  deadline : ∀ a, sys.aggregate = some a → ∀ p rest d, a.queue = p :: rest →
    a.timerEvent.timer = some d → d ≤ (a.mem p).time + conf.aggregate.interval

omit [Add Value] in
theorem System.Waiting.neverStranded {clock : Nat} {sys : System} (h : sys.Waiting conf clock) :
    sys.NeverStranded conf := by
  refine ⟨h.server, fun a ha => (h.aggregate a ha).2, ?_⟩
  intro a ha p rest d hqueue hd
  refine ((h.aggregate a ha).1.onTime.due d hd).2 (a.mem p).time (List.mem_map.mpr ⟨p, ?_, rfl⟩)
  -- the head of the queue is due no later than the timer
  rw [hqueue]
  exact List.mem_cons_self

theorem System.run_waiting (start : Nat) {events : List Event} (hflush : 0 < conf.flush)
    (hexiting : ∀ event ∈ events, event.exiting = false)
    (hregular : ∀ event ∈ events, RegularEvent env conf event)
    (hclock : events.Pairwise fun e e' => e.now ≤ e'.now) :
    ∃ clock, (System.run env net conf start events).Waiting conf clock := by
  -- the invariant speaks of the clock of the last event
  have hstep : ∀ clock (sys : System) (event : Event),
      event.exiting = false ∧ RegularEvent env conf event → clock ≤ event.now →
      sys.Inv conf ∧ sys.Waiting conf clock →
      (sys.step env net conf event).Inv conf ∧
        (sys.step env net conf event).Waiting conf event.now := by
    rintro clock sys event ⟨hexiting, hregular⟩ hle ⟨hinv, hwaiting⟩
    exact ⟨sys.step_inv event hregular hinv,
      sys.step_waiting hflush event hexiting hregular hle hinv hwaiting⟩
  obtain ⟨clock, -, hwaiting⟩ := Run.exec_invariant_of_clock hstep
    ⟨System.init_inv env conf start, System.init_waiting env conf start⟩
    (fun event hevent => ⟨hexiting event hevent, hregular event hevent⟩)
    (fun _ _ => Nat.zero_le _) hclock
  exact ⟨clock, hwaiting⟩

/-- In every run with a flush interval, under a clock that does not go back and
while the worker is not exiting, no data is ever left without a timer, as long as
no stat hashes to 0 and no size wraps. -/
theorem never_stranded (start : Nat) {events : List Event} (hflush : 0 < conf.flush)
    (hexiting : ∀ event ∈ events, event.exiting = false)
    (hregular : ∀ event ∈ events, RegularEvent env conf event)
    (hclock : events.Pairwise fun e e' => e.now ≤ e'.now) :
    (System.run env net conf start events).NeverStranded conf := by
  obtain ⟨clock, hwaiting⟩ := System.run_waiting start hflush hexiting hregular hclock
  exact hwaiting.neverStranded

end Runs

attribute [local instance] sampleAdd in
/-- A value is queued and handed over by the timer, and another one is queued. -/
theorem never_stranded_sample :
    (System.run (sampleEnv Value) sampleNet sampleConf 0
      [⟨0, false, .send ⟨.value, [109], [], [⟨1⟩]⟩⟩, ⟨1000, false, .aggregateTimer⟩,
        ⟨1200, false, .send ⟨.value, [109], [], [⟨2⟩]⟩⟩]).NeverStranded sampleConf :=
  never_stranded 0 (by decide) (by decide) (by decide +kernel) (by decide)

/-- A server with 83 values a record and an arena of 3000 bytes. -/
def freedConf : ServerConf :=
  { naddrs := 1
    bufferSize := 1024
    flushAfterRequest := false
    flush := 1000
    aggregateSize := 3000
    aggregateValues := 83 }

/-- A unique metric "m" with a key value that makes its CRC-32 0. -/
def zeroDigestValue (bits : UInt64) : Stat Value :=
  { type := .unique
    name := [109]
    keys := [⟨[49], [101, 97, 107, 101, 101, 97, 106, 106, 102]⟩]
    values := [⟨bits⟩] }

/-- Six values of it, between two counters, are handed over. Then come a record that covers
where theirs began, and one that begins where the first of them was; the first of these
two is handed over. One more value follows. -/
def freedEvents : List Event :=
  [⟨0, false, .send ⟨.counter, [120], [], [⟨1⟩]⟩⟩] ++
    List.replicate 6 ⟨0, false, .send (zeroDigestValue 7)⟩ ++
    [⟨0, false, .send ⟨.counter, [122], [], [⟨1⟩]⟩⟩, ⟨1000, false, .aggregateTimer⟩,
      ⟨2000, false, .send ⟨.unique, [108], [], [⟨1⟩]⟩⟩,
      ⟨2500, false, .send ⟨.counter, [107], [], [⟨1⟩]⟩⟩, ⟨3000, false, .aggregateTimer⟩,
      ⟨3100, false, .send (zeroDigestValue 5)⟩]

attribute [local instance] sampleAdd in
/-- The last value is found at the freed address 664, and its slot there is the time of the
record at 1320, the head of the queue: it was 2500, for which the timer is armed, and is
5 now. -/
theorem freed_not_neverStranded :
    (∀ event ∈ freedEvents, event.exiting = false) ∧
      freedEvents.Pairwise (fun e e' => e.now ≤ e'.now) ∧
      ¬ (System.run (wordEnv (fun v => v.bits.toNat) fun n => ⟨UInt64.ofNat n⟩) sampleNet
        freedConf 0 freedEvents).NeverStranded freedConf := by
  refine ⟨by decide, by decide, ?_⟩
  intro h
  have hend : (System.run (wordEnv (fun v => v.bits.toNat) fun n => ⟨UInt64.ofNat n⟩) sampleNet
      freedConf 0 freedEvents).aggregate.map
        (fun a => (a.queue, a.timerEvent.timer, (a.mem 1320).time)) =
      some ([1320], some 3500, 5) := by
    decide +kernel
  obtain ⟨a, ha, heq⟩ := Option.map_eq_some_iff.mp hend
  simp only [Prod.mk.injEq] at heq
  rcases heq with ⟨hqueue, htimer, htime⟩
  have hdeadline := h.deadline a ha 1320 [] 3500 hqueue htimer
  rw [htime] at hdeadline
  revert hdeadline
  decide

end StatsHouse
