import StatsHouse.Receiver

/-! # The exit of a worker

A worker that is told to exit still serves the connections it has. Meanwhile the aggregator
declines every stat and hands over all its records as soon as its timer fires, no timer is
armed for the buffer any more, and a socket is closed behind each datagram.

* `worker_drains`: when the timers of a server have fired, nothing is left of what was sent to
  it before; the buffer has only stats that came while the worker exits.
* `worker_closes`: a socket that is still open was open when the exit began, and nothing has
  been sent to it since.
-/

namespace StatsHouse

open Outcome

variable {C P ε : Type}

/-! ## The server -/

section Server

variable {net : Net} {conf : ServerConf} {now : Nat}

/-- While the worker exits no timer is armed. -/
theorem Server.timer_exiting (conf : ServerConf) (now : Nat) (server : Server) :
    server.timer conf true now = server := by
  unfold timer
  split
  · rfl
  · split
    · rfl
    · exact if_pos rfl

theorem Server.sendToBuffer_flushEvent (stat : Stat Value) (server : Server) :
    (server.sendToBuffer net conf true now stat).2.flushEvent = server.flushEvent := by
  rcases server.sendToBuffer_cases net conf true now stat with ⟨heq, -⟩ | ⟨mid, hmid, -, heq⟩
  · rw [heq]
    exact server.flush_flushEvent net conf true
  · rw [heq, Server.timer_exiting]
    rcases hmid with rfl | rfl
    · rfl
    · exact server.flush_flushEvent net conf true

/-- On a healthy network a stat is refused by an empty buffer, or added to what there was, or
to an empty buffer. -/
theorem Net.Healthy.sendToBuffer_buffer (hnet : net.Healthy conf) (stat : Stat Value)
    (server : Server) :
    ((server.sendToBuffer net conf true now stat).1 = .declined ∧
      (server.sendToBuffer net conf true now stat).2.buffer = []) ∨
    ((server.sendToBuffer net conf true now stat).1 = .ok ∧
      ∃ kept, (kept = server.buffer ∨ kept = []) ∧
        (server.sendToBuffer net conf true now stat).2.buffer = kept ++ tlMetrics [stat]) := by
  rcases server.sendToBuffer_cases net conf true now stat with ⟨heq, -⟩ | ⟨mid, hmid, -, heq⟩
  · rw [heq]
    exact Or.inl ⟨rfl, hnet.flush_buffer server⟩
  · rw [heq, Server.timer_exiting]
    refine Or.inr ⟨rfl, mid.buffer, ?_, rfl⟩
    rcases hmid with rfl | rfl
    · exact Or.inl rfl
    · exact Or.inr (hnet.flush_buffer server)

end Server

/-! ## The aggregator -/

section Aggregator

variable {env : Env Value} {net : Net} {conf : ServerConf} {now : Nat}

/-- `ngx_statshouse_send` does not get past the aggregator. -/
theorem send_exiting [Add Value] (stat : Stat Value) (server : Server)
    (agg : Option (Aggregate Value)) :
    send env net conf true now stat server agg =
      ((server.sendToBuffer net conf true now stat).1,
        (server.sendToBuffer net conf true now stat).2, agg) := by
  cases agg with
  | none => rfl
  | some a =>
      -- the aggregator looks at the flag before it looks for a record
      have hdecline : StatsHouse.aggregate env conf.aggregate
          (aggregateHandler net conf true now) true stat now a server = (.declined, a, server) := by
        unfold StatsHouse.aggregate
        split
        · rfl
        · exact if_pos rfl
      simp only [send, hdecline]
      exact if_neg (by simp)

/-- The loop goes through the whole queue. -/
theorem aggregateProcessLoop_exiting_queue {V σ : Type} (env : Env V) (conf : AggregateConf)
    (handler : Handler V σ) (now : Nat) (queue : List Nat) (a : Aggregate V) (ctx : σ)
    (count : Nat) (hqueue : a.queue = queue) :
    (aggregateProcessLoop env conf handler true now queue a ctx count).1.queue = [] := by
  -- every head is due while exiting, so none stops the loop
  induction queue generalizing a ctx count with
  | nil => exact hqueue
  | cons p rest ih => exact ih (a.dropHead env p rest) _ _ rfl

/-- The loop ends with a record in the buffer, or with an empty buffer that has refused all. -/
theorem aggregateProcessLoop_exiting_buffer (hnet : net.Healthy conf) (queue : List Nat)
    (a : Aggregate Value) (server : Server) (count : Nat)
    (h : 0 < count ∨ server.buffer = [] ∨ queue ≠ []) :
    0 < (aggregateProcessLoop env conf.aggregate (aggregateHandler net conf true now) true now
        queue a server count).2.2 ∨
      (aggregateProcessLoop env conf.aggregate (aggregateHandler net conf true now) true now
        queue a server count).2.1.buffer = [] := by
  induction queue generalizing a server count with
  | nil =>
      rcases h with hcount | hbuffer | hqueue
      · exact Or.inl hcount
      · exact Or.inr hbuffer
      · exact absurd rfl hqueue
  | cons p rest ih =>
      refine ih _ _ _ ?_
      rcases hnet.sendToBuffer_buffer (a.mem p).stat server with ⟨-, hempty⟩ | ⟨hok, -⟩
      · exact Or.inr (Or.inl hempty)
      · left
        have hcount : (aggregateHandler net conf true now (some (a.mem p).stat) server).1 = .ok :=
          hok
        rw [if_pos hcount]
        exact Nat.succ_pos count

/-- Processing empties the queue, and the buffer if there was anything in the queue. -/
theorem aggregateProcess_exiting (env : Env Value) (now : Nat) (hnet : net.Healthy conf)
    (a : Aggregate Value) (server : Server) :
    (aggregateProcess env conf.aggregate (aggregateHandler net conf true now) true now a
        server).2.1.queue = [] ∧
      ((aggregateProcess env conf.aggregate (aggregateHandler net conf true now) true now a
          server).2.2 = server ∨
        (aggregateProcess env conf.aggregate (aggregateHandler net conf true now) true now a
          server).2.2.buffer = []) := by
  unfold aggregateProcess
  split
  · rename_i hqueue
    exact ⟨hqueue, Or.inl rfl⟩
  · rename_i hqueue
    have hdrained := aggregateProcessLoop_exiting_queue env conf.aggregate
      (aggregateHandler net conf true now) now a.queue a server 0 rfl
    simp only
    split
    -- nothing was accepted, so the last stat was refused by an empty buffer
    · rename_i hzero
      rcases aggregateProcessLoop_exiting_buffer hnet a.queue a server 0
        (Or.inr (Or.inr hqueue)) with hcount | hempty
      · exact absurd hzero hcount.ne'
      · exact ⟨hdrained, Or.inr hempty⟩
    · exact ⟨hdrained, Or.inr (hnet.flush_buffer _)⟩

theorem aggregateTimer_nil {V : Type} (conf : AggregateConf) (now : Nat) {a : Aggregate V}
    (h : a.queue = []) : (aggregateTimer conf now a).queue = [] := by
  unfold aggregateTimer
  split
  · exact h
  · rw [h]
    exact h

end Aggregator

/-! ## Draining -/

/-- A callback is among the events. -/
def Fires (callback : Callback) (events : List Event) : Prop := ∃ e ∈ events, e.callback = callback

theorem Fires.tail {callback : Callback} {e : Event} {events : List Event}
    (h : Fires callback (e :: events)) (hne : e.callback ≠ callback) : Fires callback events := by
  rcases h with ⟨e', he', hcallback⟩
  rcases List.mem_cons.mp he' with rfl | he'
  · exact absurd hcallback hne
  · exact ⟨e', he', hcallback⟩

/-- The buffer of a server to which `sent` is sent while the worker exits, before the last
`events`: it has stats of these only, or its timer is set and will fire. -/
def Server.Draining (sent : List (Stat Value)) (events : List Event) (server : Server) : Prop :=
  (∃ late, (late ++ sendsOf events).Sublist sent ∧ server.buffer = tlDatagram late) ∨
    server.flushEvent.isSome ∧ Fires .flushTimer events

/-- The queue is empty, or an event of the aggregator is set and will fire. -/
def Aggregate.Draining (events : List Event) (a : Aggregate Value) : Prop :=
  a.queue = [] ∨ (a.timerEvent.timer.isSome ∧ Fires .aggregateTimer events) ∨
    (a.timerEvent.posted = true ∧ Fires .aggregatePosted events)

structure System.Draining (sent : List (Stat Value)) (events : List Event) (sys : System) :
    Prop where
  exiting : ∀ e ∈ events, e.exiting = true
  sends : (sendsOf events).Sublist sent
  server : sys.server.Draining sent events
  aggregate : ∀ a, sys.aggregate = some a → a.Draining events

section Draining

variable {net : Net} {conf : ServerConf} {sent : List (Stat Value)} {e : Event}
  {events : List Event} {server server' : Server} {a : Aggregate Value}

theorem Server.Draining.of_empty (hsends : (sendsOf events).Sublist sent)
    (h : server.buffer = []) : server.Draining sent events :=
  Or.inl ⟨[], hsends, h⟩

/-- An event that is neither a stat nor the timer. -/
theorem Server.Draining.tail (h : server.Draining sent (e :: events))
    (hsends : sendsOf (e :: events) = sendsOf events) (hcallback : e.callback ≠ .flushTimer) :
    server.Draining sent events := by
  rcases h with ⟨late, hlate, hbuffer⟩ | ⟨hset, hfires⟩
  · rw [hsends] at hlate
    exact Or.inl ⟨late, hlate, hbuffer⟩
  · exact Or.inr ⟨hset, hfires.tail hcallback⟩

theorem Server.Draining.congr (h : server.Draining sent events)
    (hbuffer : server'.buffer = server.buffer) (hevent : server'.flushEvent = server.flushEvent) :
    server'.Draining sent events := by
  unfold Server.Draining
  rw [hbuffer, hevent]
  exact h

theorem Server.Draining.flush (hnet : net.Healthy conf) (hsends : (sendsOf events).Sublist sent) :
    (server.flush net conf true).2.Draining sent events :=
  .of_empty hsends (hnet.flush_buffer server)

/-- The stat of the event joins the late ones, unless it is refused. -/
theorem Server.Draining.send (hnet : net.Healthy conf) {stat : Stat Value} {now : Nat}
    (hsends : (stat :: sendsOf events).Sublist sent)
    (h : server.Draining sent (⟨now, true, .send stat⟩ :: events)) :
    (server.sendToBuffer net conf true now stat).2.Draining sent events := by
  have hrest : (sendsOf events).Sublist sent := (List.sublist_cons_self stat _).trans hsends
  rcases hnet.sendToBuffer_buffer stat server with ⟨-, hempty⟩ | ⟨-, kept, hkept, hbuffer⟩
  · exact .of_empty hrest hempty
  · have hone : tlDatagram [stat] = tlMetrics [stat] := by simp [tlDatagram]
    -- behind what was there, or in a buffer that was flushed to make room
    rcases hkept with rfl | rfl
    · rcases h with ⟨late, hlate, hold⟩ | ⟨hset, hfires⟩
      · refine Or.inl ⟨late ++ [stat], ?_, ?_⟩
        · rw [List.append_assoc]
          exact hlate
        · rw [hbuffer, hold, tlDatagram_append, hone]
      · refine Or.inr ⟨?_, hfires.tail (by simp)⟩
        rw [Server.sendToBuffer_flushEvent]
        exact hset
    · refine Or.inl ⟨[stat], hsends, ?_⟩
      rw [hbuffer, List.nil_append, hone]

theorem Aggregate.Draining.tail (h : a.Draining (e :: events))
    (htimer : e.callback ≠ .aggregateTimer) (hposted : e.callback ≠ .aggregatePosted) :
    a.Draining events := by
  rcases h with hqueue | ⟨hset, hfires⟩ | ⟨hset, hfires⟩
  · exact Or.inl hqueue
  · exact Or.inr (Or.inl ⟨hset, hfires.tail htimer⟩)
  · exact Or.inr (Or.inr ⟨hset, hfires.tail hposted⟩)

end Draining

section Steps

variable {env : Env Value} {net : Net} {conf : ServerConf} {sent : List (Stat Value)}
  {events : List Event} {sys : System} {now : Nat} {callback : Callback}

/-- An event of the aggregator that is set empties it. -/
theorem System.Draining.fire [Add Value] (hnet : net.Healthy conf) {armed : TimerEvent → Bool}
    {clear : TimerEvent → TimerEvent} (h : sys.Draining sent (⟨now, true, callback⟩ :: events))
    (hsends : sendsOf (⟨now, true, callback⟩ :: events) = sendsOf events)
    (hflush : callback ≠ .flushTimer)
    (hother : ∀ a : Aggregate Value, a.Draining (⟨now, true, callback⟩ :: events) →
      ¬ armed a.timerEvent = true → a.Draining events) :
    (fire env net conf ⟨now, true, callback⟩ armed clear sys).Draining sent events := by
  have hrest : ∀ e ∈ events, e.exiting = true := fun e he => h.exiting e (List.mem_cons_of_mem _ he)
  have hsent : (sendsOf events).Sublist sent := hsends ▸ h.sends
  have hserver : sys.server.Draining sent events := h.server.tail hsends hflush
  unfold StatsHouse.fire
  split
  · rename_i hnone
    refine ⟨hrest, hsent, hserver, ?_⟩
    intro a ha
    rw [hnone] at ha
    cases ha
  · rename_i a ha
    split
    · have hprocess := aggregateProcess_exiting env now hnet
        { a with timerEvent := clear a.timerEvent } sys.server
      refine ⟨hrest, hsent, ?_, ?_⟩
      · rcases hprocess.2 with hsame | hempty
        · exact hserver.congr (congrArg Server.buffer hsame) (congrArg Server.flushEvent hsame)
        · exact .of_empty hsent hempty
      · intro b hb
        cases hb
        exact Or.inl (aggregateTimer_nil conf.aggregate now hprocess.1)
    · rename_i harmed
      refine ⟨hrest, hsent, hserver, ?_⟩
      intro b hb
      rw [ha] at hb
      cases hb
      exact hother a (h.aggregate a ha) harmed

theorem System.Draining.step [Add Value] (hnet : net.Healthy conf) {event : Event}
    (h : sys.Draining sent (event :: events)) :
    (sys.step env net conf event).Draining sent events := by
  have hrest : ∀ e ∈ events, e.exiting = true := by
    intro e he
    exact h.exiting e (List.mem_cons_of_mem _ he)
  obtain ⟨now, exiting, callback⟩ := event
  have hexiting : exiting = true := h.exiting _ List.mem_cons_self
  subst hexiting
  cases callback with
  | send stat =>
      have hsends : (stat :: sendsOf events).Sublist sent := h.sends
      unfold System.step
      simp only [send_exiting]
      refine ⟨hrest, (List.sublist_cons_self stat _).trans hsends, h.server.send hnet hsends, ?_⟩
      intro a ha
      exact (h.aggregate a ha).tail (by simp) (by simp)
  | flush =>
      refine ⟨hrest, h.sends, .flush hnet h.sends, ?_⟩
      intro a ha
      exact (h.aggregate a ha).tail (by simp) (by simp)
  | flushAfterRequest =>
      refine ⟨hrest, h.sends, ?_, ?_⟩
      · show (sys.server.flushAfterRequest net conf true).2.Draining sent events
        unfold Server.flushAfterRequest
        split
        · exact .flush hnet h.sends
        · exact h.server.tail rfl (by simp)
      · intro a ha
        exact (h.aggregate a ha).tail (by simp) (by simp)
  | flushTimer =>
      unfold System.step
      simp only
      split
      · refine ⟨hrest, h.sends, ?_, ?_⟩
        · unfold Server.timerHandler
          rw [Server.timer_exiting]
          exact .flush hnet h.sends
        · intro a ha
          exact (h.aggregate a ha).tail (by simp) (by simp)
      · -- the timer is not set, so the buffer has late stats only
        rename_i hnone
        refine ⟨hrest, h.sends, ?_, ?_⟩
        · rcases h.server with hlate | ⟨hset, -⟩
          · exact Or.inl hlate
          · exact absurd hset hnone
        · intro a ha
          exact (h.aggregate a ha).tail (by simp) (by simp)
  | aggregateTimer =>
      show (StatsHouse.fire env net conf ⟨now, true, .aggregateTimer⟩ (fun ev => ev.timer.isSome)
        (fun ev => { ev with timer := none }) sys).Draining sent events
      refine h.fire hnet rfl (by simp) ?_
      intro a ha hunset
      rcases ha with hqueue | ⟨hset, -⟩ | ⟨hset, hfires⟩
      · exact Or.inl hqueue
      · exact absurd hset hunset
      · exact Or.inr (Or.inr ⟨hset, hfires.tail (by simp)⟩)
  | aggregatePosted =>
      show (StatsHouse.fire env net conf ⟨now, true, .aggregatePosted⟩ (fun ev => ev.posted)
        (fun ev => { ev with posted := false }) sys).Draining sent events
      refine h.fire hnet rfl (by simp) ?_
      intro a ha hunset
      rcases ha with hqueue | ⟨hset, hfires⟩ | ⟨hset, -⟩
      · exact Or.inl hqueue
      · exact Or.inr (Or.inl ⟨hset, hfires.tail (by simp)⟩)
      · exact absurd hset hunset
  | readHandler =>
      refine ⟨hrest, h.sends, ?_, ?_⟩
      · have hserver : sys.server.Draining sent events := h.server.tail rfl (by simp)
        simp only [System.step, Server.readHandler, Server.disconnect_eq]
        exact hserver.congr rfl rfl
      · intro a ha
        exact (h.aggregate a ha).tail (by simp) (by simp)

theorem System.Draining.exec [Add Value] (hnet : net.Healthy conf) (h : sys.Draining sent events) :
    (Run.exec (System.step env net conf) sys events).Draining sent [] := by
  have hstep : ∀ (s : System) (e : Event) (es : List Event), s.Draining sent (e :: es) →
      (s.step env net conf e).Draining sent es := by
    intro s e es hs
    exact hs.step hnet
  exact Run.exec_invariant_of_rest hstep h

/-- In the end nothing is left to fire. -/
theorem System.Draining.drained (h : sys.Draining sent []) :
    sys.queued = [] ∧ ∃ late, late.Sublist sent ∧ sys.server.buffer = tlDatagram late := by
  have hnever : ∀ callback, ¬ Fires callback [] := fun _ ⟨_, he, _⟩ => List.not_mem_nil he
  constructor
  · unfold System.queued
    cases hagg : sys.aggregate with
    | none => rfl
    | some a =>
        rcases h.aggregate a hagg with hqueue | ⟨-, hfires⟩ | ⟨-, hfires⟩
        · exact congrArg (List.map _) hqueue
        · exact absurd hfires (hnever _)
        · exact absurd hfires (hnever _)
  · rcases h.server with ⟨late, hlate, hbuffer⟩ | ⟨-, hfires⟩
    · refine ⟨late, ?_, hbuffer⟩
      rw [← List.append_nil late]
      exact hlate
    · exact absurd hfires (hnever _)

/-- A server whose timers are set when the exit begins, and fire. -/
theorem System.Waiting.draining {clock : Nat} (h : sys.Waiting conf clock)
    (hexiting : ∀ e ∈ events, e.exiting = true)
    (hfires : ∀ callback ∈ [Callback.flushTimer, .aggregateTimer, .aggregatePosted],
      Fires callback events) : sys.Draining (sendsOf events) events := by
  refine ⟨hexiting, List.Sublist.refl _, ?_, ?_⟩
  · by_cases hbuffer : sys.server.buffer = []
    · exact .of_empty (List.Sublist.refl _) hbuffer
    · exact Or.inr ⟨h.server hbuffer, hfires _ (by simp)⟩
  · intro a ha
    by_cases hqueue : a.queue = []
    · exact Or.inl hqueue
    · rcases (h.aggregate a ha).2 hqueue with hset | hset
      · exact Or.inr (Or.inl ⟨hset, hfires _ (by simp)⟩)
      · exact Or.inr (Or.inr ⟨hset, hfires _ (by simp)⟩)

end Steps

/-! ## Closing -/

/-- What is open now was open before, and nothing has been sent to it. -/
def Server.OpenSince (server server' : Server) : Prop :=
  server'.connection = true → server.connection = true ∧ server'.sends = server.sends

theorem Server.OpenSince.refl (server : Server) : server.OpenSince server := fun h => ⟨h, rfl⟩

theorem Server.OpenSince.trans {server server' server'' : Server} (h : server.OpenSince server')
    (h' : server'.OpenSince server'') : server.OpenSince server'' := by
  intro hopen
  rcases h' hopen with ⟨hopen', hsends'⟩
  rcases h hopen' with ⟨hopen'', hsends⟩
  exact ⟨hopen'', hsends'.trans hsends⟩

theorem Server.OpenSince.of_closed {server server' : Server} (h : server'.connection = false) :
    server.OpenSince server' := by
  intro hopen
  rw [h] at hopen
  cases hopen

section Closing

variable {env : Env Value} {net : Net} {conf : ServerConf} {now : Nat}

/-- An attempt that fails leaves no socket. -/
theorem Server.connect_failed {server : Server} (h : (server.connect net conf).1 ≠ .ok) :
    (server.connect net conf).2.connection = false := by
  unfold connect at h ⊢
  split
  · rename_i hopen
    rw [if_pos hopen] at h
    exact absurd rfl h
  · rename_i hclosed
    rw [if_neg hclosed] at h
    have hfalse : server.connection = false := Bool.eq_false_iff.mpr hclosed
    split
    · exact hfalse
    · rename_i hnaddrs
      rw [if_neg hnaddrs] at h
      simp only at h ⊢
      cases hresult : net.connect server.connects with
      | noSocket => exact hfalse
      | noConnection => rfl
      | failed => rfl
      | connected =>
          rw [hresult] at h
          exact absurd rfl h

/-- The socket is closed behind the datagram, whether it was sent or not. -/
theorem Server.openSince_flush (server : Server) :
    server.OpenSince (server.flush net conf true).2 := by
  unfold flush
  split
  · exact .refl server
  · simp only [flushRetry, disconnect_eq]
    split
    · rename_i hfailed
      exact .of_closed (Server.connect_failed hfailed)
    · split
      · exact .of_closed rfl
      · exact .of_closed rfl

theorem Server.openSince_sendToBuffer (stat : Stat Value) (server : Server) :
    server.OpenSince (server.sendToBuffer net conf true now stat).2 := by
  rcases server.sendToBuffer_cases net conf true now stat with ⟨heq, -⟩ | ⟨mid, hmid, -, heq⟩
  · rw [heq]
    exact server.openSince_flush
  · have hopen : server.OpenSince mid := by
      rcases hmid with rfl | rfl
      · exact .refl _
      · exact server.openSince_flush
    rw [heq, Server.timer_exiting]
    exact hopen

theorem aggregateProcess_openSince (a : Aggregate Value) (server : Server) :
    server.OpenSince (aggregateProcess env conf.aggregate (aggregateHandler net conf true now) true
      now a server).2.2 := by
  have hkept : Post (fun _ (_ : Aggregate Value) server' => server.OpenSince server')
      (aggregateProcess env conf.aggregate (aggregateHandler net conf true now) true now a
        server) := by
    refine aggregateProcess_rule ?_ ?_ (.refl server)
    · intro a server' p rest h _ _
      exact h.trans (server'.openSince_sendToBuffer _)
    · intro a server' h
      exact h.trans server'.openSince_flush
  exact hkept

theorem fire_openSince [Add Value] (armed : TimerEvent → Bool) (clear : TimerEvent → TimerEvent)
    (sys : System) (callback : Callback) :
    sys.server.OpenSince (fire env net conf ⟨now, true, callback⟩ armed clear sys).server := by
  unfold fire
  split
  · exact .refl _
  · split
    · exact aggregateProcess_openSince _ _
    · exact .refl _

/-- One event of a worker that exits. -/
theorem System.step_openSince [Add Value] (sys : System) {event : Event}
    (hexiting : event.exiting = true) :
    sys.server.OpenSince (sys.step env net conf event).server ∧
      (event.callback = .readHandler →
        (sys.step env net conf event).server.connection = false) := by
  obtain ⟨now, exiting, callback⟩ := event
  simp only at hexiting
  subst hexiting
  cases callback with
  | send stat =>
      refine ⟨?_, by simp⟩
      unfold System.step
      simp only [send_exiting]
      exact sys.server.openSince_sendToBuffer stat
  | flush => exact ⟨sys.server.openSince_flush, by simp⟩
  | flushAfterRequest =>
      refine ⟨?_, by simp⟩
      show sys.server.OpenSince (sys.server.flushAfterRequest net conf true).2
      unfold Server.flushAfterRequest
      split
      · exact sys.server.openSince_flush
      · exact .refl _
  | flushTimer =>
      refine ⟨?_, by simp⟩
      unfold System.step
      simp only
      split
      · unfold Server.timerHandler
        rw [Server.timer_exiting]
        exact Server.openSince_flush { sys.server with flushEvent := none }
      · exact .refl _
  | aggregateTimer =>
      refine ⟨?_, by simp⟩
      show sys.server.OpenSince (fire env net conf ⟨now, true, .aggregateTimer⟩
        (fun ev => ev.timer.isSome) (fun ev => { ev with timer := none }) sys).server
      exact fire_openSince _ _ sys _
  | aggregatePosted =>
      refine ⟨?_, by simp⟩
      show sys.server.OpenSince (fire env net conf ⟨now, true, .aggregatePosted⟩
        (fun ev => ev.posted) (fun ev => { ev with posted := false }) sys).server
      exact fire_openSince _ _ sys _
  | readHandler =>
      have hclosed : sys.server.readHandler.connection = false := by
        rw [Server.readHandler, Server.disconnect_eq]
      exact ⟨.of_closed hclosed, fun _ => hclosed⟩

/-- All events of a worker that exits. -/
theorem System.exec_openSince [Add Value] (sys : System) {events : List Event}
    (hexiting : ∀ e ∈ events, e.exiting = true) :
    sys.server.OpenSince (Run.exec (System.step env net conf) sys events).server ∧
      (Fires .readHandler events →
        (Run.exec (System.step env net conf) sys events).server.connection = false) := by
  induction events generalizing sys with
  | nil => exact ⟨.refl _, fun ⟨_, he, _⟩ => (List.not_mem_nil he).elim⟩
  | cons e events ih =>
      have hstep : sys.server.OpenSince (sys.step env net conf e).server ∧
          (e.callback = .readHandler → (sys.step env net conf e).server.connection = false) :=
        sys.step_openSince (hexiting e List.mem_cons_self)
      rcases hstep with ⟨hopen, hclosed⟩
      rcases ih (sys.step env net conf e) (fun e' he' => hexiting e' (List.mem_cons_of_mem _ he'))
        with ⟨hopen', hclosed'⟩
      refine ⟨hopen.trans hopen', ?_⟩
      intro hfires
      by_cases hread : e.callback = .readHandler
      · -- what is closed here is not opened again
        refine Bool.eq_false_iff.mpr ?_
        intro hend
        have hstill := (hopen' hend).1
        rw [hclosed hread] at hstill
        cases hstill
      · exact hclosed' (hfires.tail hread)

end Closing

/-! ## The worker -/

/-- The callback that nginx makes for a server. -/
def WorkerEvent.callback (srv : Nat) : WorkerEvent C → Option Callback
  | .flushTimer s _ _ => if s = srv then some .flushTimer else none
  | .aggregateTimer s _ _ => if s = srv then some .aggregateTimer else none
  | .aggregatePosted s _ _ => if s = srv then some .aggregatePosted else none
  | .readHandler s _ _ => if s = srv then some .readHandler else none
  | _ => none

/-- From one state of a process to a later one a server has had `calls`, all with one flag, and
no others. -/
structure Process.Advances [Add Value] (wc : WorkerConf C P ε) (srv : Nat) (exiting : Bool)
    (calls : List Event) (p q : Process) : Prop where
  history : q.calls srv = p.calls srv ++ calls
  systems : q.systems srv =
    Run.exec (System.step wc.env (wc.net srv) (wc.server srv)) (p.systems srv) calls
  flag : ∀ e ∈ calls, e.exiting = exiting

section Worker

variable [Add Value] {wc : WorkerConf C P ε} {srv : Nat} {exiting : Bool} {p q r : Process}
  {calls calls' : List Event}

theorem Process.Advances.of_same (hcalls : q.calls = p.calls) (hsystems : q.systems = p.systems) :
    Process.Advances wc srv exiting [] p q := by
  refine ⟨?_, congrFun hsystems srv, fun e he => (List.not_mem_nil he).elim⟩
  rw [hcalls, List.append_nil]

theorem Process.Advances.trans (h : Process.Advances wc srv exiting calls p q)
    (h' : Process.Advances wc srv exiting calls' q r) :
    Process.Advances wc srv exiting (calls ++ calls') p r := by
  constructor
  · rw [h'.history, h.history, List.append_assoc]
  · rw [h'.systems, h.systems, Run.exec_append]
  · intro e he
    rcases List.mem_append.mp he with he | he
    · exact h.flag e he
    · exact h'.flag e he

/-- A call of one server is no call of the others. -/
theorem Process.advances_call (wc : WorkerConf C P ε) (srv : Nat) (p : Process) (s : Nat)
    (event : Event) :
    ∃ calls, Process.Advances wc srv event.exiting calls p (p.call wc s event) ∧
      (s = srv → Fires event.callback calls) := by
  by_cases hsrv : s = srv
  · subst hsrv
    refine ⟨[event], ⟨?_, ?_, ?_⟩, fun _ => ⟨event, List.mem_cons_self, rfl⟩⟩
    · exact Function.update_self s _ _
    · exact Function.update_self s _ _
    · intro e he
      rw [List.mem_singleton.mp he]
  · refine ⟨[], ⟨?_, ?_, fun e he => (List.not_mem_nil he).elim⟩, fun h => absurd h hsrv⟩
    · rw [List.append_nil]
      exact Function.update_of_ne (Ne.symm hsrv) _ _
    · exact Function.update_of_ne (Ne.symm hsrv) _ _

theorem Process.advances_sendStats (wc : WorkerConf C P ε) (srv : Nat) (p : Process)
    (s now : Nat) (exiting : Bool) (stats : List (Stat Value)) :
    ∃ calls, Process.Advances wc srv exiting calls p (p.sendStats wc s now exiting stats) := by
  induction stats generalizing p with
  | nil => exact ⟨[], .of_same rfl rfl⟩
  | cons stat stats ih =>
      rcases p.advances_call wc srv s ⟨now, exiting, .send stat⟩ with ⟨calls, hcall, -⟩
      rcases ih (p.call wc s ⟨now, exiting, .send stat⟩) with ⟨calls', hrest⟩
      exact ⟨_, hcall.trans hrest⟩

theorem Process.advances_sendMetric {req : Request C} {s i : Nat}
    (h : Process.sendMetric wc req s p i = .ok q) :
    ∃ calls, Process.Advances wc srv req.exiting calls p q := by
  unfold Process.sendMetric at h
  split at h
  · cases h
    exact ⟨[], .of_same rfl rfl⟩
  · simp only at h
    split at h
    · cases h
      exact ⟨[], .of_same rfl rfl⟩
    · split at h
      · cases h
        exact ⟨[], .of_same rfl rfl⟩
      · cases h
      -- the stats are sent from a state with the same servers
      · rename_i n stats _
        cases h
        rcases Process.advances_sendStats wc srv _ s req.now req.exiting (stats.take n) with
          ⟨calls, hcalls⟩
        exact ⟨calls, hcalls.history, hcalls.systems, hcalls.flag⟩

theorem Process.advances_foldlM {α : Type} {step : Process → α → Except (ProcessFault ε) Process}
    (hstep : ∀ p q a, step p a = .ok q → ∃ calls, Process.Advances wc srv exiting calls p q)
    {as : List α} (h : as.foldlM step p = .ok q) :
    ∃ calls, Process.Advances wc srv exiting calls p q := by
  induction as generalizing p with
  | nil =>
      cases h
      exact ⟨[], .of_same rfl rfl⟩
  | cons a as ih =>
      rcases foldlM_cons_ok_iff.mp h with ⟨m, ha, hrest⟩
      rcases hstep p m a ha with ⟨calls, hcalls⟩
      rcases ih hrest with ⟨calls', hcalls'⟩
      exact ⟨_, hcalls.trans hcalls'⟩

theorem Process.advances_send {req : Request C} (h : p.send wc req = .ok q) :
    ∃ calls, Process.Advances wc srv req.exiting calls p q := by
  unfold Process.send at h
  simp only at h
  split at h
  · cases h
    exact ⟨[], .of_same rfl rfl⟩
  · split at h
    · rename_i s _
      unfold Process.sendMetrics at h
      cases hloop : (List.range (wc.contexts.metrics req.ctx).length).foldlM
          (Process.sendMetric wc req s) p with
      | error fault =>
          rw [hloop] at h
          cases h
      | ok m =>
          rw [hloop] at h
          cases h
          -- the loop over the metrics, and the flush behind it
          rcases Process.advances_foldlM (fun _ _ _ => Process.advances_sendMetric) hloop with
            ⟨calls, hcalls⟩
          rcases m.advances_call wc srv s ⟨req.now, req.exiting, .flushAfterRequest⟩ with
            ⟨calls', hcalls', -⟩
          exact ⟨_, hcalls.trans hcalls'⟩
    · cases h

theorem Process.advances_sendStat {ctx now : Nat} {stat : Stat Value}
    (h : p.sendStat wc ctx now exiting stat = .ok q) :
    ∃ calls, Process.Advances wc srv exiting calls p q := by
  unfold Process.sendStat at h
  simp only at h
  split at h
  · cases h
    exact ⟨[], .of_same rfl rfl⟩
  · split at h
    · rename_i s _
      cases h
      rcases p.advances_call wc srv s ⟨now, exiting, .send stat⟩ with ⟨calls, hcalls, -⟩
      exact ⟨calls, hcalls⟩
    · cases h

/-- An event that comes to no fault: a server gets calls with its flag, among them its
callback. -/
theorem Process.advances_step {event : WorkerEvent C} (h : p.step wc event = .ok q) :
    ∃ calls, Process.Advances wc srv event.exiting calls p q ∧
      ∀ callback, event.callback srv = some callback → Fires callback calls := by
  have hone : ∀ (s now : Nat) (c : Callback),
      event.callback srv = (if s = srv then some c else none) →
      ∃ calls, Process.Advances wc srv event.exiting calls p
          (p.call wc s ⟨now, event.exiting, c⟩) ∧
        ∀ callback, event.callback srv = some callback → Fires callback calls := by
    intro s now c hevent
    rcases p.advances_call wc srv s ⟨now, event.exiting, c⟩ with ⟨calls, hcalls, hfires⟩
    refine ⟨calls, hcalls, ?_⟩
    intro callback hcallback
    rw [hevent] at hcallback
    split at hcallback
    · rename_i heq
      cases hcallback
      exact hfires heq
    · cases hcallback
  cases event with
  | request req =>
      obtain ⟨calls, hcalls⟩ : ∃ calls, Process.Advances wc srv req.exiting calls p q :=
        Process.advances_send h
      exact ⟨calls, hcalls, fun _ hcallback => by cases hcallback⟩
  | sendStat ctx now exiting stat =>
      obtain ⟨calls, hcalls⟩ : ∃ calls, Process.Advances wc srv exiting calls p q :=
        Process.advances_sendStat h
      exact ⟨calls, hcalls, fun _ hcallback => by cases hcallback⟩
  | flushTimer s now exiting =>
      cases h
      exact hone s now .flushTimer rfl
  | aggregateTimer s now exiting =>
      cases h
      exact hone s now .aggregateTimer rfl
  | aggregatePosted s now exiting =>
      cases h
      exact hone s now .aggregatePosted rfl
  | readHandler s now exiting =>
      cases h
      exact hone s now .readHandler rfl

/-- A server of a worker that exits goes on from where it was, in every run that comes to no
fault. -/
theorem Process.run_exit {before after : List (WorkerEvent C)} (srv : Nat)
    (hexiting : ∀ event ∈ after, event.exiting = true) (hp : Process.run wc before = .ok p)
    (hq : Process.run wc (before ++ after) = .ok q) :
    ∃ calls, Process.Advances wc srv true calls p q ∧
      ∀ event ∈ after, ∀ callback, event.callback srv = some callback → Fires callback calls := by
  have hrest : after.foldlM (Process.step wc) p = .ok q := by
    unfold Process.run at hp hq
    rw [List.foldlM_append, hp] at hq
    exact hq
  clear hp hq
  induction after generalizing p with
  | nil =>
      cases hrest
      exact ⟨[], .of_same rfl rfl, fun event hevent => (List.not_mem_nil hevent).elim⟩
  | cons event after ih =>
      rcases foldlM_cons_ok_iff.mp hrest with ⟨m, hstep, hrest⟩
      obtain ⟨calls, hcalls, hfires⟩ :
          ∃ calls, Process.Advances wc srv event.exiting calls p m ∧ _ :=
        Process.advances_step hstep
      rw [hexiting event List.mem_cons_self] at hcalls
      rcases ih (fun e he => hexiting e (List.mem_cons_of_mem _ he)) hrest with
        ⟨calls', hcalls', hfires'⟩
      -- the calls of the first event, and of the rest
      refine ⟨calls ++ calls', hcalls.trans hcalls', ?_⟩
      intro event' hevent' callback hcallback
      rcases List.mem_cons.mp hevent' with rfl | hevent'
      · rcases hfires callback hcallback with ⟨e, he, heq⟩
        exact ⟨e, List.mem_append_left _ he, heq⟩
      · rcases hfires' event' hevent' callback hcallback with ⟨e, he, heq⟩
        exact ⟨e, List.mem_append_right _ he, heq⟩

/-- In every run of a worker with usable contexts, where the clock does not go back before the
exit, a server with a flush interval and a healthy network whose timers
fire once the worker exits is left with nothing in its aggregator, and in its buffer only with
stats that were sent to it while the worker exits. -/
theorem worker_drains (wc : WorkerConf C P ε) (before after : List (WorkerEvent C))
    (srv : Nat) (husable : ∀ event ∈ before ++ after, wc.Usable event)
    (hflush : 0 < (wc.server srv).flush) (hnet : (wc.net srv).Healthy (wc.server srv))
    (hrunning : ∀ event ∈ before, event.exiting = false)
    (hclock : before.Pairwise fun e e' => e.now ≤ e'.now)
    (hexiting : ∀ event ∈ after, event.exiting = true)
    (hfired : ∀ callback ∈ [Callback.flushTimer, .aggregateTimer, .aggregatePosted],
      ∃ event ∈ after, event.callback srv = some callback) :
    ∃ p q calls late, Process.run wc before = .ok p ∧ Process.run wc (before ++ after) = .ok q ∧
      q.calls srv = p.calls srv ++ calls ∧ (q.systems srv).queued = [] ∧
      late.Sublist (sendsOf calls) ∧ (q.systems srv).server.buffer = tlDatagram late := by
  have husable' : ∀ event ∈ before, wc.Usable event := by
    intro event hevent
    exact husable event (List.mem_append_left after hevent)
  rcases Process.run_ok husable' with ⟨p, hp, hrefines⟩
  rcases Process.run_ok husable with ⟨q, hq, -⟩
  rcases Process.run_exit srv hexiting hp hq with ⟨calls, hcalls, hfires⟩
  rcases Traffic.run_waiting wc srv husable' hflush hrunning hclock with ⟨clock, hwaiting⟩
  -- when the exit begins, what waits has a timer
  rw [← hrefines.systems srv] at hwaiting
  have hset : ∀ callback ∈ [Callback.flushTimer, .aggregateTimer, .aggregatePosted],
      Fires callback calls := by
    intro callback hcallback
    rcases hfired callback hcallback with ⟨event, hevent, heq⟩
    exact hfires event hevent callback heq
  have hend : (q.systems srv).Draining (sendsOf calls) [] := by
    rw [hcalls.systems]
    exact (hwaiting.draining hcalls.flag hset).exec hnet
  rcases hend.drained with ⟨hqueued, late, hlate, hbuffer⟩
  exact ⟨p, q, calls, late, hp, hq, hcalls.history, hqueued, hlate, hbuffer⟩

/-- In every run that comes to no fault, whatever the network answers: a socket that is open
when the worker has been exiting for a while was open when that began, has had no datagram
since, and nginx has not asked to close it. -/
theorem worker_closes (wc : WorkerConf C P ε) (before after : List (WorkerEvent C)) (srv : Nat)
    (hexiting : ∀ event ∈ after, event.exiting = true) {p q : Process}
    (hp : Process.run wc before = .ok p) (hq : Process.run wc (before ++ after) = .ok q)
    (hopen : (q.systems srv).server.connection = true) :
    (p.systems srv).server.connection = true ∧
      (q.systems srv).server.sends = (p.systems srv).server.sends ∧
      ∀ event ∈ after, event.callback srv ≠ some .readHandler := by
  rcases Process.run_exit srv hexiting hp hq with ⟨calls, hcalls, hfires⟩
  have hrun : (p.systems srv).server.OpenSince (Run.exec
        (System.step wc.env (wc.net srv) (wc.server srv)) (p.systems srv) calls).server ∧
      (Fires .readHandler calls → (Run.exec
        (System.step wc.env (wc.net srv) (wc.server srv)) (p.systems srv) calls).server.connection =
          false) :=
    System.exec_openSince (p.systems srv) hcalls.flag
  rw [← hcalls.systems] at hrun
  rcases hrun.1 hopen with ⟨hstart, hsends⟩
  refine ⟨hstart, hsends, ?_⟩
  intro event hevent hread
  rw [hrun.2 (hfires event hevent _ hread)] at hopen
  cases hopen

end Worker

section Sample

attribute [local instance] sampleAdd

/-- A request comes while the worker exits, and another one when the timers have fired. -/
def exitEvents : List (WorkerEvent Str) :=
  [.request { sampleRequest 230 with exiting := true }, .flushTimer 0 231000 true,
    .aggregateTimer 0 231000 true, .aggregatePosted 0 231000 true,
    .request { sampleRequest 300 with exiting := true }]

theorem exitEvents_usable : ∀ event ∈ workerEvents ++ exitEvents, sampleWorker.Usable event := by
  intro event hevent
  rcases List.mem_append.mp hevent with hevent | hevent
  · exact sampleWorker_usable event hevent
  · simp only [exitEvents, List.mem_cons, List.not_mem_nil, or_false] at hevent
    rcases hevent with rfl | rfl | rfl | rfl | rfl
    · exact sampleWorker_usable_request _ _ _ _ _ ServerPtr.noConfusion
    · trivial
    · trivial
    · trivial
    · exact sampleWorker_usable_request _ _ _ _ _ ServerPtr.noConfusion

theorem worker_drains_sample :
    ∃ p q calls late, Process.run sampleWorker workerEvents = .ok p ∧
      Process.run sampleWorker (workerEvents ++ exitEvents) = .ok q ∧
      q.calls 0 = p.calls 0 ++ calls ∧ (q.systems 0).queued = [] ∧
      late.Sublist (sendsOf calls) ∧ (q.systems 0).server.buffer = tlDatagram late :=
  worker_drains sampleWorker workerEvents exitEvents 0 exitEvents_usable (Nat.succ_pos 999)
    ⟨by decide, fun _ => rfl, fun _ => rfl⟩ (by decide) (by decide) (by decide)
    (by decide)

/-- After the first event of the exit the socket is still open. -/
theorem worker_closes_sample :
    ∃ p q, Process.run sampleWorker workerEvents = .ok p ∧
      Process.run sampleWorker (workerEvents ++ exitEvents.take 1) = .ok q ∧
      (q.systems 0).server.connection = true ∧ (p.systems 0).server.connection = true ∧
      (q.systems 0).server.sends = (p.systems 0).server.sends ∧
      ∀ event ∈ exitEvents.take 1, event.callback 0 ≠ some .readHandler := by
  have husable : ∀ event ∈ workerEvents ++ exitEvents.take 1, sampleWorker.Usable event := by
    intro event hevent
    refine exitEvents_usable event ?_
    rcases List.mem_append.mp hevent with hevent | hevent
    · exact List.mem_append_left _ hevent
    · exact List.mem_append_right _ (List.mem_of_mem_take hevent)
  rcases Process.run_ok sampleWorker_usable with ⟨p, hp, -⟩
  rcases Process.run_ok husable with ⟨q, hq, -⟩
  have hsome : ((Process.run sampleWorker (workerEvents ++ exitEvents.take 1)).toOption.map
      fun q => (q.systems 0).server.connection) = some true := by decide +kernel
  have hopen := eq_of_toOption_map hq hsome
  exact ⟨p, q, hp, hq, hopen,
    worker_closes sampleWorker workerEvents (exitEvents.take 1) 0 (by decide) hp hq hopen⟩

end Sample

end StatsHouse
