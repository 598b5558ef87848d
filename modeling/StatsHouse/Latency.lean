import StatsHouse.EndToEnd
import StatsHouse.Flush

/-! # How long data waits

An armed timer is not yet a bound: its deadline might be put off again and again. Here
nginx is prompt: it fires a timer at most `slack` after its deadline, and handles a posted
event before the clock moves on.

* `waits_bounded`: in a prompt run with a healthy network, no record of the queue and
  nothing in the buffer is ever older than the flush interval and the slack.
* `leaves_in_time`: so by then every record has left the queue, and what was in the buffer
  was delivered.
-/

namespace StatsHouse

/-- A system with the clock of its last event, and the time since when there has been
something in the buffer that is there now. -/
structure Timed where
  clock : Nat
  sys : System
  since : Option Nat

section Timed

variable [Add Value] (env : Env Value) (net : Net) (conf : ServerConf)

def Timed.init (start : Nat) : Timed :=
  { clock := 0, sys := System.init env conf start, since := none }

/-- What is in the buffer is what was there before, unless the buffer was emptied. -/
def Timed.step (s : Timed) (event : Event) : Timed :=
  let sys := s.sys.step env net conf event
  { clock := event.now
    sys := sys
    since :=
      if sys.server.buffer = [] then none
      else if s.sys.server.buffer = [] ∨
          sys.server.released.length ≠ s.sys.server.released.length then
        some event.now
      else s.since }

end Timed

/-- The event comes no more than `slack` after the deadline of any timer, and before the
clock moves on if an event is posted. -/
structure Prompt (slack : Nat) (s : Timed) (event : Event) : Prop where
  exiting : event.exiting = false
  clock : s.clock ≤ event.now
  flushEvent : ∀ d, s.sys.server.flushEvent = some d → event.now ≤ d + slack
  timer : ∀ a, s.sys.aggregate = some a → ∀ d, a.timerEvent.timer = some d → event.now ≤ d + slack
  posted : ∀ a, s.sys.aggregate = some a → a.timerEvent.posted = true → event.now = s.clock

instance (slack : Nat) (s : Timed) (event : Event) : Decidable (Prompt slack s event) :=
  decidable_of_iff
    (event.exiting = false ∧ s.clock ≤ event.now ∧
      (∀ d ∈ s.sys.server.flushEvent, event.now ≤ d + slack) ∧
      (∀ a ∈ s.sys.aggregate, ∀ d ∈ a.timerEvent.timer, event.now ≤ d + slack) ∧
      ∀ a ∈ s.sys.aggregate, a.timerEvent.posted = true → event.now = s.clock)
    ⟨fun ⟨h₁, h₂, h₃, h₄, h₅⟩ => ⟨h₁, h₂, h₃, h₄, h₅⟩,
      fun ⟨h₁, h₂, h₃, h₄, h₅⟩ => ⟨h₁, h₂, h₃, h₄, h₅⟩⟩

/-- Nothing that waits at the time `now` has waited longer than the flush interval and the
slack. -/
structure Timed.Young (conf : ServerConf) (slack now : Nat) (s : Timed) : Prop where
  queue : ∀ a, s.sys.aggregate = some a → ∀ t ∈ a.times, now ≤ t + conf.flush + slack
  buffer : ∀ t, s.since = some t → now ≤ t + conf.flush + slack

/-! ## The queue -/

section Queue

variable {env : Env Value} {conf : AggregateConf} {now wait : Nat}

/-- The records are no older than `wait`. -/
def Aggregate.NoOlder (conf : AggregateConf) (now wait : Nat) (a : Aggregate Value) : Prop :=
  a.OnTime conf now ∧ ∀ t ∈ a.times, now ≤ t + wait

/-- A new record is of now. -/
theorem kept_noOlder : Kept env conf now (Aggregate.NoOlder conf now wait) := by
  constructor
  -- a record is changed: not its time
  · rintro a b p f ⟨h, hwait⟩ hchanged hsize htime
    refine ⟨h.changed hchanged hsize htime, ?_⟩
    have htimes : b.times = a.times := hchanged.map (g := fun _ r => r.time) fun _ r => htime r
    rwa [htimes]
  -- the head leaves the queue
  · rintro a p rest ⟨h, hwait⟩ hqueue
    refine ⟨h.dropHead hqueue, ?_⟩
    intro t ht
    refine hwait t ?_
    unfold Aggregate.times at ht ⊢
    rw [hqueue]
    exact List.mem_cons_of_mem _ ht
  -- a record is created
  · rintro a p alloc r hinv ⟨h, hwait⟩ hsized htime hp
    refine ⟨h.insert hinv hsized htime hp, ?_⟩
    have htimes : (a.insert env alloc p r).times = a.times ++ [r.time] :=
      hinv.map_insert hsized hp fun _ r => r.time
    intro t ht
    rw [htimes] at ht
    rcases List.mem_append.mp ht with ht | ht
    · exact hwait t ht
    · rw [List.mem_singleton.mp ht, htime]
      exact Nat.le_add_right _ _
  · rintro a ⟨h, hwait⟩
    refine ⟨(aggregateTimer_armed h).1, ?_⟩
    obtain ⟨ev, hev⟩ := aggregateTimer_eq conf now a
    rw [hev]
    exact hwait

end Queue

/-! ## The timer of the buffer -/

section Buffer

variable {net : Net} {conf : ServerConf} {exiting : Bool} {now : Nat} {server : Server}

/-- The timer is as it was, or it was not armed and is armed now. -/
def Server.ArmsOnly (conf : ServerConf) (now : Nat) (before server : Server) : Prop :=
  server.flushEvent = before.flushEvent ∨
    before.flushEvent = none ∧ server.flushEvent = some (now + conf.flush)

theorem Server.armsOnly_refl (server : Server) : server.ArmsOnly conf now server := Or.inl rfl

theorem Server.ArmsOnly.of_eq {before server' : Server} (h : Server.ArmsOnly conf now before server)
    (heq : server'.flushEvent = server.flushEvent) : Server.ArmsOnly conf now before server' := by
  unfold Server.ArmsOnly
  rw [heq]
  exact h

theorem Server.ArmsOnly.flush {before : Server} (h : Server.ArmsOnly conf now before server) :
    Server.ArmsOnly conf now before (server.flush net conf exiting).2 :=
  h.of_eq (server.flush_flushEvent net conf exiting)

theorem Server.ArmsOnly.timer {before : Server} (h : Server.ArmsOnly conf now before server) :
    Server.ArmsOnly conf now before (server.timer conf exiting now) := by
  unfold Server.timer
  split
  · exact h
  · rename_i hset
    split
    · exact h
    · split
      · exact h
      · -- it was not armed, neither before nor since
        have hnone : server.flushEvent = none := by
          rw [not_or, Option.not_isSome_iff_eq_none] at hset
          exact hset.2
        rcases h with heq | ⟨-, hsome⟩
        · exact Or.inr ⟨heq ▸ hnone, rfl⟩
        · rw [hsome] at hnone
          cases hnone

theorem Server.ArmsOnly.sendToBuffer {before : Server} (h : Server.ArmsOnly conf now before server)
    (stat : Stat Value) :
    Server.ArmsOnly conf now before (server.sendToBuffer net conf exiting now stat).2 := by
  rcases server.sendToBuffer_cases net conf exiting now stat with ⟨heq, -⟩ | ⟨mid, hmid, -, heq⟩
  · rw [heq]
    exact h.flush
  · rw [heq]
    apply Server.ArmsOnly.timer
    rcases hmid with rfl | rfl
    · exact h
    · exact h.flush

/-- What was in the buffer is still there, or at the front of the first payload that it was
emptied for since. -/
def Server.Follows (before server : Server) : Prop :=
  (server.released = before.released ∧ before.buffer <+: server.buffer) ∨
    ∃ payload more, server.released = before.released ++ payload :: more ∧
      before.buffer <+: payload

theorem Server.follows_refl (server : Server) : server.Follows server :=
  Or.inl ⟨rfl, List.prefix_rfl⟩

theorem Server.Follows.congr {before server' : Server} (h : before.Follows server)
    (hbuffer : server'.buffer = server.buffer) (hreleased : server'.released = server.released) :
    before.Follows server' := by
  unfold Server.Follows
  rw [hbuffer, hreleased]
  exact h

theorem Server.Follows.flush {before : Server} (h : before.Follows server) :
    before.Follows (server.flush net conf exiting).2 := by
  rcases server.flush_cases net conf exiting with ⟨rc, c, n, -, -, heq⟩ |
    ⟨c, n, -, -, heq⟩ | ⟨c, n, result, -, -, hresult, heq⟩
  · rw [heq]
    exact h.congr rfl rfl
  · rw [heq]
    exact h.congr rfl (by simp [released])
  · -- the buffer becomes a payload
    right
    have hreleased : (server.flush net conf exiting).2.released =
        server.released ++ [server.buffer] := by
      rw [heq]
      simp [released, hresult]
    rw [hreleased]
    rcases h with ⟨heq', hprefix⟩ | ⟨payload, more, heq', hprefix⟩
    · exact ⟨server.buffer, [], by rw [heq'], hprefix⟩
    · exact ⟨payload, more ++ [server.buffer], by rw [heq']; simp, hprefix⟩

theorem Server.Follows.append {before : Server} (h : before.Follows server) (bytes : List UInt8)
    (ev : Option Nat) :
    before.Follows { server with buffer := server.buffer ++ bytes, flushEvent := ev } := by
  rcases h with ⟨hreleased, hprefix⟩ | ⟨payload, more, hreleased, hprefix⟩
  · exact Or.inl ⟨hreleased, hprefix.trans (List.prefix_append _ _)⟩
  · exact Or.inr ⟨payload, more, hreleased, hprefix⟩

theorem Server.Follows.sendToBuffer {before : Server} (h : before.Follows server)
    (stat : Stat Value) :
    before.Follows (server.sendToBuffer net conf exiting now stat).2 := by
  rcases server.sendToBuffer_cases net conf exiting now stat with ⟨heq, -⟩ | ⟨mid, hmid, -, heq⟩
  · rw [heq]
    exact h.flush
  · obtain ⟨ev, hev⟩ := Server.timer_eq conf exiting now
      { mid with buffer := mid.buffer ++ tlMetrics [stat] }
    rw [heq, hev]
    -- the stat is written behind what was there, or into the buffer that was flushed for it
    rcases hmid with rfl | rfl
    · exact h.append _ _
    · exact h.flush.append _ _

end Buffer

/-! ## Steps of the system -/

section Steps

variable [Add Value] {env : Env Value} {net : Net} {conf : ServerConf} {sys : System}
  {event : Event}

/-- What the functions of the server keep, and the callback of its timer, a step keeps. -/
theorem System.step_server_rule (env : Env Value) {K : Server → Prop}
    (hflush : ∀ server, K server → K (server.flush net conf event.exiting).2)
    (hsend : ∀ server stat, K server →
      K (server.sendToBuffer net conf event.exiting event.now stat).2)
    (hdisconnect : ∀ server, K server → K { server with connection := false })
    (htimer : event.callback = .flushTimer → sys.server.flushEvent.isSome →
      K (Server.timerHandler net conf event.exiting event.now
        { sys.server with flushEvent := none }))
    (h : K sys.server) : K (sys.step env net conf event).server := by
  have hhandler : ∀ stat server, K server →
      K (aggregateHandler net conf event.exiting event.now stat server).2 := by
    intro stat server hserver
    cases stat with
    | none => exact hflush server hserver
    | some stat => exact hsend server stat hserver
  -- the callbacks of the aggregator reach the server by its handler only
  have hfire : ∀ armed clear, K (fire env net conf event armed clear sys).server := by
    intro armed clear
    unfold fire
    split
    · exact h
    · split
      · exact aggregateProcess_rule (K := fun _ server => K server)
          (fun _ _ _ _ h _ _ => hhandler _ _ h) (fun _ _ h => hhandler _ _ h) h
      · exact h
  unfold System.step
  cases hevent : event.callback with
  | send stat =>
      simp only
      unfold send
      cases hagg : sys.aggregate with
      | none => exact hsend _ stat h
      | some a =>
          -- so does the aggregator, and a stat it declines goes to the buffer
          have hpost : Post (fun _ _ server => K server)
              (StatsHouse.aggregate env conf.aggregate
                (aggregateHandler net conf event.exiting event.now) event.exiting stat event.now a
                sys.server) :=
            aggregate_rule (K := fun _ server => K server) h (fun _ _ _ _ => h)
              (fun _ _ _ _ _ => h) (fun _ _ _ _ _ => h) (fun _ _ => h)
              (fun _ _ _ _ h _ _ => hhandler _ _ h) (fun _ _ h => hhandler _ _ h)
              (fun _ _ _ _ h => h) fun _ _ _ _ _ h _ => h
          simp only
          split
          · exact hpost
          · exact hsend _ stat hpost
  | flush => exact hflush _ h
  | flushAfterRequest =>
      simp only
      unfold Server.flushAfterRequest
      split
      · exact hflush _ h
      · exact h
  | flushTimer =>
      simp only
      split
      · rename_i hset
        exact htimer hevent hset
      · exact h
  | aggregateTimer => exact hfire _ _
  | aggregatePosted => exact hfire _ _
  | readHandler =>
      simp only
      unfold Server.readHandler
      rw [Server.disconnect_eq]
      exact hdisconnect _ h

/-- Only the callback of the timer clears it. -/
theorem System.step_armsOnly (env : Env Value) (net : Net) (conf : ServerConf) (sys : System)
    (hcallback : event.callback ≠ .flushTimer) :
    Server.ArmsOnly conf event.now sys.server (sys.step env net conf event).server :=
  System.step_server_rule env (fun _ h => h.flush) (fun _ stat h => h.sendToBuffer stat)
    (fun _ h => h.of_eq rfl) (fun h _ => absurd h hcallback) (Server.armsOnly_refl _)

theorem System.step_follows (env : Env Value) (net : Net) (conf : ServerConf) (sys : System)
    (event : Event) : sys.server.Follows (sys.step env net conf event).server := by
  refine System.step_server_rule env (fun _ h => h.flush) (fun _ stat h => h.sendToBuffer stat)
    (fun _ h => h.congr rfl rfl) ?_ (Server.follows_refl _)
  intro _ _
  unfold Server.timerHandler
  obtain ⟨ev, hev⟩ := Server.timer_eq conf event.exiting event.now
    (Server.flush net conf event.exiting { sys.server with flushEvent := none }).2
  rw [hev]
  have hcleared : sys.server.Follows { sys.server with flushEvent := none } :=
    (Server.follows_refl sys.server).congr rfl rfl
  have hflushed : sys.server.Follows
      (Server.flush net conf event.exiting { sys.server with flushEvent := none }).2 :=
    hcleared.flush
  exact hflushed.congr rfl rfl

/-- A deadline is an old one, or a flush interval away. -/
theorem System.step_deadline (env : Env Value) (net : Net) (conf : ServerConf) (sys : System)
    {d : Nat}
    (hd : (sys.step env net conf event).server.flushEvent = some d) :
    sys.server.flushEvent = some d ∨ d = event.now + conf.flush := by
  have hold : ∀ before server : Server, Server.ArmsOnly conf event.now before server →
      server.flushEvent = some d → before.flushEvent = some d ∨ d = event.now + conf.flush := by
    rintro before server (heq | ⟨-, hsome⟩) hserver
    · exact Or.inl (heq ▸ hserver)
    · rw [hsome] at hserver
      exact Or.inr (Option.some.inj hserver).symm
  -- the callback of the timer clears it before it arms it
  by_cases hcallback : event.callback = .flushTimer
  · simp only [System.step, hcallback] at hd
    split at hd
    · have hcleared : Server.ArmsOnly conf event.now { sys.server with flushEvent := none }
          (Server.timerHandler net conf event.exiting event.now
            { sys.server with flushEvent := none }) :=
        (Server.armsOnly_refl _).flush.timer
      rcases hold _ _ hcleared hd with hnone | hnew
      · cases hnone
      · exact Or.inr hnew
    · exact Or.inl hd
  · exact hold _ _ (System.step_armsOnly env net conf sys hcallback) hd

/-- With a healthy network the callback of the timer empties the buffer. -/
theorem System.step_flushTimer (hnet : net.Healthy conf) (env : Env Value) (sys : System)
    (hcallback : event.callback = .flushTimer) :
    (sys.step env net conf event).server.buffer = [] ∨
      sys.server.flushEvent = none ∧ (sys.step env net conf event).server = sys.server := by
  simp only [System.step, hcallback]
  split
  · left
    unfold Server.timerHandler
    obtain ⟨ev, hev⟩ := Server.timer_eq conf event.exiting event.now
      (Server.flush net conf event.exiting { sys.server with flushEvent := none }).2
    rw [hev]
    exact hnet.flush_buffer _
  · rename_i hnone
    exact Or.inr ⟨Option.not_isSome_iff_eq_none.mp hnone, rfl⟩

theorem System.step_noOlder {wait : Nat} (hinv : sys.Inv conf)
    (hregular : RegularEvent env conf event)
    (h : ∀ a, sys.aggregate = some a → a.NoOlder conf.aggregate event.now wait) :
    ∀ a, (sys.step env net conf event).aggregate = some a →
      a.NoOlder conf.aggregate event.now wait := by
  have hkept : Kept env conf.aggregate event.now
      (Aggregate.NoOlder conf.aggregate event.now wait) :=
    kept_noOlder
  -- clearing the event puts no deadline off
  have hfire : ∀ (armed : TimerEvent → Bool) (clear : TimerEvent → TimerEvent),
      (∀ ev, (clear ev).timer = ev.timer ∨ (clear ev).timer = none) →
      ∀ a, (fire env net conf event armed clear sys).aggregate = some a →
        a.NoOlder conf.aggregate event.now wait := by
    intro armed clear hclear
    unfold fire
    cases hagg : sys.aggregate with
    | none =>
        intro a ha
        simp only at ha
        rw [hagg] at ha
        cases ha
    | some b =>
        intro a ha
        simp only at ha
        split at ha
        · cases ha
          rcases h b hagg with ⟨hon, hwait⟩
          have hcleared : Aggregate.NoOlder conf.aggregate event.now wait
              { b with timerEvent := clear b.timerEvent } := by
            refine ⟨⟨hon.live, hon.onTime.past, hon.onTime.sorted, ?_⟩, hwait⟩
            intro d hd
            rcases hclear b.timerEvent with heq | heq
            · exact hon.onTime.due d (heq ▸ hd)
            · rw [heq] at hd
              cases hd
          exact hkept.timer _ (hkept.process hcleared _)
        · rw [hagg] at ha
          cases ha
          exact h _ hagg
  unfold System.step
  split
  · rename_i stat hsend
    unfold send
    cases hagg : sys.aggregate with
    | none =>
        intro a ha
        cases ha
    | some b =>
        intro a ha
        have hb : Aggregate.NoOlder conf.aggregate event.now wait
            (StatsHouse.aggregate env conf.aggregate
              (aggregateHandler net conf event.exiting event.now) event.exiting stat event.now b
              sys.server).2.1 :=
          hkept.aggregate (hinv.regular hregular hsend hagg) (hinv.aggregate b hagg) (h b hagg)
            sys.server
        simp only at ha
        split at ha
        · cases ha
          exact hb
        · cases ha
          exact hb
  · exact h
  · exact h
  · split
    · exact h
    · exact h
  · exact hfire _ _ fun _ => Or.inr rfl
  · exact hfire _ _ fun _ => Or.inl rfl
  · exact h

end Steps

/-! ## Runs -/

section Runs

variable {conf : ServerConf} {slack : Nat}

/-- The timers are set and not too late for what is there at the last event. -/
structure Timed.Inv (conf : ServerConf) (slack : Nat) (s : Timed) : Prop where
  inv : s.sys.Inv conf
  waiting : s.sys.Waiting conf s.clock
  armed : ∀ d, s.sys.server.flushEvent = some d → d ≤ s.clock + conf.flush
  since : ∀ t, s.since = some t → ∃ d, s.sys.server.flushEvent = some d ∧ d ≤ t + conf.flush
  young : ∀ a, s.sys.aggregate = some a → ∀ t ∈ a.times, s.clock ≤ t + conf.flush + slack

theorem Timed.init_inv (env : Env Value) (conf : ServerConf) (slack start : Nat) :
    (Timed.init env conf start).Inv conf slack := by
  refine ⟨System.init_inv env conf start, System.init_waiting env conf start, ?_, ?_, ?_⟩
  · intro d hd
    cases hd
  · intro t ht
    cases ht
  · intro a ha t ht
    exact Nat.zero_le _

/-- A prompt event finds nothing that has waited too long. -/
theorem Timed.Inv.young_of_prompt {s : Timed} {event : Event} (h : s.Inv conf slack)
    (hprompt : Prompt slack s event) : s.Young conf slack event.now := by
  constructor
  · intro a ha t ht
    have hqueue : a.queue ≠ [] := by
      intro hnil
      unfold Aggregate.times at ht
      rw [hnil] at ht
      cases ht
    rcases h.waiting.aggregate a ha with ⟨hon, harmed⟩
    rcases harmed hqueue with htimer | hposted
    · -- the timer fires before this record is overdue
      rcases Option.isSome_iff_exists.mp htimer with ⟨d, hd⟩
      have hdue : d ≤ t + conf.flush := (hon.onTime.due d hd).2 t ht
      have hnow := hprompt.timer a ha d hd
      omega
    · rw [hprompt.posted a ha hposted]
      exact h.young a ha t ht
  · intro t ht
    rcases h.since t ht with ⟨d, hd, hle⟩
    have hnow := hprompt.flushEvent d hd
    omega

variable [Add Value] {env : Env Value} {net : Net}

theorem Timed.Inv.step (hflush : 0 < conf.flush) (hnet : net.Healthy conf) {s : Timed}
    {event : Event} (h : s.Inv conf slack) (hprompt : Prompt slack s event)
    (hregular : RegularEvent env conf event) : (s.step env net conf event).Inv conf slack := by
  have hyoung := h.young_of_prompt hprompt
  have hwaiting : (s.sys.step env net conf event).Waiting conf event.now :=
    System.step_waiting hflush s.sys event hprompt.exiting hregular hprompt.clock h.inv h.waiting
  have hclock := hprompt.clock
  -- the timer of the buffer is no later than a flush interval from now
  have harmed : ∀ d, (s.sys.step env net conf event).server.flushEvent = some d →
      d ≤ event.now + conf.flush := by
    intro d hd
    rcases System.step_deadline env net conf s.sys hd with hold | rfl
    · have := h.armed d hold
      omega
    · exact Nat.le_refl _
  refine ⟨s.sys.step_inv event hregular h.inv, hwaiting, harmed, ?_, ?_⟩
  · intro t ht
    unfold Timed.step at ht
    simp only at ht
    split at ht
    · cases ht
    · rename_i hbuffer
      split at ht
      · -- what is in the buffer was put there now
        cases ht
        rcases Option.isSome_iff_exists.mp (hwaiting.server hbuffer) with ⟨d, hd⟩
        exact ⟨d, hd, harmed d hd⟩
      · -- the timer that was set for it is still set
        rcases h.since t ht with ⟨d, hd, hle⟩
        refine ⟨d, ?_, hle⟩
        by_cases hcallback : event.callback = .flushTimer
        · rcases System.step_flushTimer hnet env s.sys hcallback with hempty | ⟨hnone, -⟩
          · exact absurd hempty hbuffer
          · rw [hnone] at hd
            cases hd
        · rcases System.step_armsOnly env net conf s.sys hcallback with heq | ⟨hnone, -⟩
          · exact heq.trans hd
          · rw [hnone] at hd
            cases hd
  -- the records that were there are young, and a new one is of now
  · intro a ha
    have hold : ∀ a, s.sys.aggregate = some a →
        a.NoOlder conf.aggregate event.now (conf.flush + slack) := by
      intro a ha
      refine ⟨((h.waiting.mono hclock).aggregate a ha).1, ?_⟩
      intro t ht
      have := hyoung.queue a ha t ht
      omega
    intro t ht
    have := (System.step_noOlder h.inv hregular hold a ha).2 t ht
    show event.now ≤ t + conf.flush + slack
    omega

/-- In every prompt run of a server with a flush interval and a healthy network, whatever
happens finds nothing that has waited longer than the flush interval and the slack: no
record in the queue, and nothing in the buffer. No stat hashes to 0 and no size wraps. -/
theorem waits_bounded (hflush : 0 < conf.flush) (hnet : net.Healthy conf) (start : Nat)
    {events : List Event} (hregular : ∀ event ∈ events, RegularEvent env conf event)
    (hprompt : Run.Meets (Timed.step env net conf) (Prompt slack) (Timed.init env conf start)
      events) :
    Run.Meets (Timed.step env net conf) (fun s event => s.Young conf slack event.now)
      (Timed.init env conf start) events :=
  Run.meets_of_invariant (fun _ _ hok h => h.step hflush hnet hok.1 hok.2)
    (fun _ _ hok h => h.young_of_prompt hok.1) (Timed.init_inv env conf slack start)
    (hprompt.and_forall hregular)

/-! ## What was there before -/

/-- The buffer has what it had in `s₁`, since the same time, or a payload took it. -/
def Timed.Took (s₁ s : Timed) : Prop :=
  (s.sys.server.released = s₁.sys.server.released ∧
      s₁.sys.server.buffer <+: s.sys.server.buffer ∧ s.since = s₁.since) ∨
    ∃ payload more, s.sys.server.released = s₁.sys.server.released ++ payload :: more ∧
      s₁.sys.server.buffer <+: payload

theorem Timed.Took.step {s₁ s : Timed} (env : Env Value) (net : Net) (conf : ServerConf)
    (hbuffer : s₁.sys.server.buffer ≠ []) (event : Event) (h : s₁.Took s) :
    s₁.Took (s.step env net conf event) := by
  rcases s.sys.step_follows env net conf event with ⟨hreleased, hprefix⟩ |
    ⟨payload, more, hreleased, hprefix⟩
  · rcases h with ⟨hsame, hold, hsince⟩ | ⟨payload, more, hgrown, hold⟩
    · -- nothing was emptied, and there was something in the buffer
      left
      refine ⟨hreleased.trans hsame, hold.trans hprefix, ?_⟩
      have hne : s.sys.server.buffer ≠ [] := by
        intro hnil
        rw [hnil] at hold
        exact hbuffer (List.prefix_nil.mp hold)
      have hne' : (s.sys.step env net conf event).server.buffer ≠ [] := by
        intro hnil
        rw [hnil] at hprefix
        exact hne (List.prefix_nil.mp hprefix)
      show (if _ then _ else if _ then _ else _) = _
      rw [if_neg hne', if_neg (by simp [hne, hreleased]), hsince]
    · exact Or.inr ⟨payload, more, hreleased.trans hgrown, hold⟩
  -- the buffer was emptied now, for the first time or again
  · right
    rcases h with ⟨hsame, hold, -⟩ | ⟨payload', more', hgrown, hold⟩
    · exact ⟨payload, more, by rw [← hsame]; exact hreleased, hold.trans hprefix⟩
    · refine ⟨payload', more' ++ payload :: more, ?_, hold⟩
      show (s.sys.step env net conf event).server.released = _
      rw [hreleased, hgrown]
      simp

/-- What is in the buffer is there since a time that has come. -/
structure Timed.Dated (s : Timed) : Prop where
  since : s.sys.server.buffer ≠ [] → ∃ t, s.since = some t ∧ t ≤ s.clock
  allFull : s.sys.server.AllFull

theorem Timed.Dated.step (hnet : net.Healthy conf) {s : Timed} {event : Event}
    (hclock : s.clock ≤ event.now) (h : s.Dated) : (s.step env net conf event).Dated := by
  constructor
  · intro hbuffer
    have hbuffer : (s.sys.step env net conf event).server.buffer ≠ [] := hbuffer
    unfold Timed.step
    simp only
    rw [if_neg hbuffer]
    split
    · exact ⟨event.now, rfl, Nat.le_refl _⟩
    · rename_i hkept
      rw [not_or] at hkept
      rcases h.since hkept.1 with ⟨t, ht, hle⟩
      exact ⟨t, ht, hle.trans hclock⟩
  · refine System.step_server_rule (K := Server.AllFull) env (fun _ h => h.flush hnet)
      (fun _ stat h => h.sendToBuffer hnet stat) (fun _ h => h) ?_ h.allFull
    intro _ _
    unfold Server.timerHandler
    obtain ⟨ev, hev⟩ := Server.timer_eq conf event.exiting event.now
      (Server.flush net conf event.exiting { s.sys.server with flushEvent := none }).2
    rw [hev]
    have hcleared : Server.AllFull { s.sys.server with flushEvent := none } := h.allFull
    exact hcleared.flush hnet

/-- The state of a run with its clock. -/
def Timed.run (env : Env Value) (net : Net) (conf : ServerConf) (start : Nat)
    (events : List Event) : Timed :=
  Run.exec (Timed.step env net conf) (Timed.init env conf start) events

/-- In a prompt run of a server with a flush interval and a healthy network, which hashes no
stat to 0 and wraps no size, an event that comes more than the flush interval and the slack
after a state finds only records that were created since, and what was in the buffer at the
front of a datagram that was delivered since. -/
theorem leaves_in_time (slack : Nat) (hflush : 0 < conf.flush) (hnet : net.Healthy conf)
    (start : Nat) (before after : List Event) (event : Event)
    (hregular : ∀ event ∈ before ++ after, RegularEvent env conf event)
    (hprompt : Run.Meets (Timed.step env net conf) (Prompt slack) (Timed.init env conf start)
      (before ++ after ++ [event]))
    (hlate : (Timed.run env net conf start before).clock + conf.flush + slack < event.now) :
    (∀ a, (Timed.run env net conf start (before ++ after)).sys.aggregate = some a →
      ∀ t ∈ a.times, (Timed.run env net conf start before).clock < t) ∧
    ((Timed.run env net conf start before).sys.server.buffer ≠ [] →
      ∃ payload more,
        (Timed.run env net conf start (before ++ after)).sys.server.delivered =
          (Timed.run env net conf start before).sys.server.delivered ++ payload :: more ∧
        (Timed.run env net conf start before).sys.server.buffer <+: payload) := by
  -- both invariants hold after every prefix of the run
  have hinv : ∀ events : List Event, (∀ event ∈ events, RegularEvent env conf event) →
      Run.Meets (Timed.step env net conf) (Prompt slack) (Timed.init env conf start) events →
      (Timed.run env net conf start events).Inv conf slack ∧
        (Timed.run env net conf start events).Dated := by
    intro events hevents hmeets
    have hstep : ∀ (s : Timed) (event : Event),
        Prompt slack s event ∧ RegularEvent env conf event → s.Inv conf slack ∧ s.Dated →
        (s.step env net conf event).Inv conf slack ∧ (s.step env net conf event).Dated := by
      rintro s event ⟨hp, hregular⟩ ⟨h, hdated⟩
      exact ⟨h.step hflush hnet hp hregular, hdated.step hnet hp.clock⟩
    refine Run.exec_invariant_of_meets hstep ⟨Timed.init_inv env conf slack start, ?_, ?_⟩
      (hmeets.and_forall hevents)
    · intro hbuffer
      exact absurd rfl hbuffer
    · intro sent hsent
      cases hsent
  rcases Run.meets_append.mp hprompt with ⟨hrun, hlast, -⟩
  have hbefore : ∀ event ∈ before, RegularEvent env conf event :=
    fun event hevent => hregular event (List.mem_append_left _ hevent)
  rcases hinv before hbefore (Run.meets_append.mp hrun).1 with ⟨-, hdated₁⟩
  rcases hinv (before ++ after) hregular hrun with ⟨hinv₂, hdated₂⟩
  have hyoung : (Timed.run env net conf start (before ++ after)).Young conf slack event.now :=
    hinv₂.young_of_prompt hlast
  constructor
  · intro a ha t ht
    have := hyoung.queue a ha t ht
    omega
  · intro hbuffer
    have hself : (Timed.run env net conf start before).Took
        (Timed.run env net conf start before) := Or.inl ⟨rfl, List.prefix_rfl, rfl⟩
    have htook : (Timed.run env net conf start before).Took
        (Timed.run env net conf start (before ++ after)) := by
      unfold Timed.run at hself ⊢
      rw [Run.exec_append]
      exact Run.exec_invariant (fun s e h => h.step env net conf hbuffer e) hself after
    rcases htook with ⟨-, -, hsince⟩ | ⟨payload, more, hreleased, hprefix⟩
    · -- then it would have waited too long
      rcases hdated₁.since hbuffer with ⟨t, ht, hle⟩
      have := hyoung.buffer t (hsince.trans ht)
      omega
    · refine ⟨payload, more, ?_, hprefix⟩
      rw [hdated₁.allFull.delivered_eq, hdated₂.allFull.delivered_eq]
      exact hreleased

end Runs

section Sample

attribute [local instance] sampleAdd

/-- Two records, each with a timer of its own, and the timer of the buffer. -/
theorem waits_bounded_sample :
    Run.Meets (Timed.step (sampleEnv Value) sampleNet sampleConf)
      (fun s event => s.Young sampleConf 0 event.now) (Timed.init (sampleEnv Value) sampleConf 0)
      [⟨0, false, .send ⟨.value, [109], [], [⟨1⟩]⟩⟩, ⟨500, false, .send ⟨.value, [110], [], [⟨1⟩]⟩⟩,
        ⟨1000, false, .aggregateTimer⟩, ⟨1500, false, .aggregateTimer⟩,
        ⟨2000, false, .flushTimer⟩] :=
  waits_bounded (by decide) ⟨by decide, fun _ => rfl, fun _ => rfl⟩ 0 (by decide +kernel)
    (by decide +kernel)

/-- A stat that goes to the buffer on its own. -/
def oneStat : List Event := [⟨0, false, .send ⟨.value, [109], [], [⟨1⟩]⟩⟩]

theorem leaves_in_time_sample :
    ∃ payload more,
      (Timed.run (sampleEnv Value) sampleNet { sampleConf with aggregateSize := 0 } 0
          (oneStat ++ [⟨1000, false, .flushTimer⟩])).sys.server.delivered =
        (Timed.run (sampleEnv Value) sampleNet { sampleConf with aggregateSize := 0 } 0
          oneStat).sys.server.delivered ++ payload :: more ∧
      (Timed.run (sampleEnv Value) sampleNet { sampleConf with aggregateSize := 0 } 0
        oneStat).sys.server.buffer <+: payload :=
  (leaves_in_time 0 (by decide) ⟨by decide, fun _ => rfl, fun _ => rfl⟩ 0 oneStat
    [⟨1000, false, .flushTimer⟩] ⟨1001, false, .flush⟩ (by decide +kernel) (by decide +kernel)
    (by decide)).2
    (by decide +kernel)

end Sample

end StatsHouse
