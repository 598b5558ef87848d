import StatsHouse.Live
import StatsHouse.System

/-! # Servers whose records are sound

The invariant of the aggregator, in a server with its callbacks. A callback keeps it
unless it sends a stat to the aggregator that hashes to 0, or whose size wraps.

* `System.run_inv`: the invariant holds in every run of the other callbacks.
-/

namespace StatsHouse

/-- If the callback sends a stat and the aggregator hashes it, the hash is not 0 and the
size does not wrap. -/
def RegularEvent (env : Env Value) (conf : ServerConf) (event : Event) : Prop :=
  match event.callback with
  | .send stat => conf.aggregateSize ≠ 0 → Admitted conf.aggregate event.exiting stat →
    Regular env conf.aggregate stat
  | _ => True

instance (env : Env Value) (conf : ServerConf) (event : Event) :
    Decidable (RegularEvent env conf event) := by
  unfold RegularEvent
  split
  · infer_instance
  · infer_instance

/-- If the server aggregates, the hash of the stat is not 0 and the size of its record does
not wrap. -/
def ServerConf.Holds (env : Env Value) (conf : ServerConf) (stat : Stat Value) : Prop :=
  conf.aggregateSize ≠ 0 → Regular env conf.aggregate stat

instance (env : Env Value) (conf : ServerConf) (stat : Stat Value) :
    Decidable (conf.Holds env stat) := inferInstanceAs (Decidable (_ → _))

/-- A server has an aggregator only if it is configured with one, and its records are
sound. -/
structure System.Inv (conf : ServerConf) (sys : System) : Prop where
  configured : ∀ a, sys.aggregate = some a → conf.aggregateSize ≠ 0
  aggregate : ∀ a, sys.aggregate = some a → a.Inv conf.aggregate

theorem System.init_inv (env : Env Value) (conf : ServerConf) (start : Nat) :
    (System.init env conf start).Inv conf := by
  constructor
  · intro a ha hsize
    simp [System.init, hsize] at ha
  · intro a ha
    unfold System.init at ha
    split at ha
    · cases ha
    · cases ha
      exact aggregateInit_inv _ _ _ _

section Runs

variable {env : Env Value} {net : Net} {conf : ServerConf}

theorem System.Inv.regular {sys : System} {event : Event} {a : Aggregate Value}
    {stat : Stat Value} (h : sys.Inv conf) (hregular : RegularEvent env conf event)
    (hsend : event.callback = .send stat) (ha : sys.aggregate = some a) :
    Admitted conf.aggregate event.exiting stat → Regular env conf.aggregate stat := by
  unfold RegularEvent at hregular
  rw [hsend] at hregular
  exact hregular (h.configured a ha)

/-- A server without an aggregator has no records. -/
theorem System.inv_none (conf : ServerConf) (server : Server) (accepted : List (Stat Value)) :
    System.Inv conf ⟨server, none, accepted⟩ := by
  constructor
  · intro a ha
    cases ha
  · intro a ha
    cases ha

/-- A call leaves an aggregator behind where there was one, with its records sound. -/
theorem System.Inv.replace {sys : System} {a : Aggregate Value} (h : sys.Inv conf)
    (ha : sys.aggregate = some a) {b : Aggregate Value} (hb : b.Inv conf.aggregate)
    (server : Server) (accepted : List (Stat Value)) :
    System.Inv conf ⟨server, some b, accepted⟩ := by
  constructor
  · intro _ _
    exact h.configured a ha
  · intro c hc
    cases hc
    exact hb

/-- The other parts of the server do not matter. -/
theorem System.Inv.other {sys : System} (h : sys.Inv conf) (server : Server)
    (accepted : List (Stat Value)) : System.Inv conf ⟨server, sys.aggregate, accepted⟩ :=
  ⟨h.configured, h.aggregate⟩

theorem System.Inv.fire [Add Value] {sys : System} {event : Event} {armed : TimerEvent → Bool}
    {clear : TimerEvent → TimerEvent} (h : sys.Inv conf) :
    (fire env net conf event armed clear sys).Inv conf := by
  unfold StatsHouse.fire
  split
  · exact h
  · rename_i a ha
    split
    · simp only [aggregateTimerHandler]
      obtain ⟨ev, hev⟩ := aggregateTimer_eq conf.aggregate event.now
        (aggregateProcess env conf.aggregate
          (aggregateHandler net conf event.exiting event.now) event.exiting event.now
          { a with timerEvent := clear a.timerEvent } sys.server).2.1
      rw [hev]
      have hprocess : Aggregate.Inv conf.aggregate (aggregateProcess env conf.aggregate
          (aggregateHandler net conf event.exiting event.now) event.exiting event.now
          { a with timerEvent := clear a.timerEvent } sys.server).2.1 :=
        ((h.aggregate a ha).timerEvent (clear a.timerEvent)).process _
      exact h.replace ha (hprocess.timerEvent ev) _ _
    · exact h

theorem System.step_inv [Add Value] (sys : System) (event : Event)
    (hregular : RegularEvent env conf event) (h : sys.Inv conf) :
    (sys.step env net conf event).Inv conf := by
  cases hcallback : event.callback with
  | send stat =>
      simp only [System.step, hcallback]
      cases ha : sys.aggregate with
      | none => exact System.inv_none conf _ _
      | some a =>
          have hinv : (StatsHouse.aggregate env conf.aggregate
              (aggregateHandler net conf event.exiting event.now) event.exiting stat event.now a
              sys.server).2.1.Inv conf.aggregate :=
            (h.aggregate a ha).aggregate (h.regular hregular hcallback ha) _
          simp only [send]
          split
          · exact h.replace ha hinv _ _
          · exact h.replace ha hinv _ _
  | flush =>
      simp only [System.step, hcallback]
      exact h.other _ _
  | flushAfterRequest =>
      simp only [System.step, hcallback]
      exact h.other _ _
  | flushTimer =>
      simp only [System.step, hcallback]
      split
      · exact h.other _ _
      · exact h
  | aggregateTimer =>
      simp only [System.step, hcallback]
      exact h.fire
  | aggregatePosted =>
      simp only [System.step, hcallback]
      exact h.fire
  | readHandler =>
      simp only [System.step, hcallback]
      exact h.other _ _

theorem System.run_inv [Add Value] (start : Nat) {events : List Event}
    (hevents : ∀ event ∈ events, RegularEvent env conf event) :
    (System.run env net conf start events).Inv conf :=
  Run.exec_invariant_of_meets System.step_inv (System.init_inv env conf start)
    (Run.meets_of_forall (fun event hmem _ => hevents event hmem) _)

end Runs

end StatsHouse
