import StatsHouse.Delivery
import StatsHouse.Merge
import StatsHouse.Regular

/-! # From a request to the network

With a network that always answers well, a stat that `ngx_statshouse_send`
accepts is in a datagram, in the buffer or in a record of the aggregator, alone
or merged. The two halves meet in `Takes`: the handler of the aggregator takes a
record into the buffer if its encoding fits the buffer at all.

* `nothing_lost`: nothing is lost in every run in which no record is due that is
  larger than the buffer, no stat hashes to 0 and no size wraps.
* `outgrown_record_lost`: a record that has outgrown the buffer is discarded.
-/

namespace StatsHouse

open Ledger

/-! ## A healthy network -/

/-- There is an address, connecting succeeds, and every datagram is sent in full. -/
structure Net.Healthy (net : Net) (conf : ServerConf) : Prop where
  naddrs : conf.naddrs ≠ 0
  connect : ∀ n, net.connect n = .connected
  send : ∀ n, net.send n = .full

/-- Every call of `ngx_send` returned the full count. -/
def Server.AllFull (server : Server) : Prop := ∀ sent ∈ server.sends, sent.result = .full

theorem Server.AllFull.delivered_eq {server : Server} (h : server.AllFull) :
    server.delivered = server.released := by
  unfold delivered released
  congr 1
  apply List.filter_congr
  intro sent hsent
  simp [h sent hsent]

section Healthy

variable {net : Net} {conf : ServerConf} {exiting : Bool} {now : Nat} {server : Server}

theorem Net.Healthy.connect_ok (h : net.Healthy conf) (server : Server) :
    (server.connect net conf).1 = .ok := by
  unfold Server.connect
  split
  · rfl
  · rw [if_neg h.naddrs, h.connect]

/-- A flush leaves the buffer empty. -/
theorem Net.Healthy.flush_buffer (h : net.Healthy conf) (server : Server) :
    (server.flush net conf exiting).2.buffer = [] := by
  rcases server.flush_cases net conf exiting with ⟨rc, c, n, -, hkept, heq⟩ |
    ⟨c, n, -, herror, -⟩ | ⟨c, n, result, -, -, -, heq⟩
  · rw [heq]
    exact hkept.resolve_right fun hne => hne (h.connect_ok server)
  · rw [h.send] at herror
    cases herror
  · rw [heq]

/-- A stat is refused only if it is larger than the whole buffer. -/
theorem Net.Healthy.sendToBuffer_ok (h : net.Healthy conf) {stat : Stat Value}
    (hfits : tlMetricsLen [stat] ≤ conf.bufferSize) (exiting : Bool) (now : Nat)
    (server : Server) : (server.sendToBuffer net conf exiting now stat).1 = .ok := by
  rcases server.sendToBuffer_cases net conf exiting now stat with ⟨-, hleft⟩ | ⟨mid, -, -, heq⟩
  · -- after a flush the whole buffer is left
    have hempty : (server.flush net conf exiting).2.buffer = [] := h.flush_buffer server
    rw [Server.bufferLeft, hempty, List.length_nil] at hleft
    omega
  · rw [heq]

theorem Server.AllFull.flush (h : server.AllFull) (hnet : net.Healthy conf) :
    (server.flush net conf exiting).2.AllFull :=
  forall_sends_flush h fun _ => hnet.send _

theorem Server.AllFull.sendToBuffer (h : server.AllFull) (hnet : net.Healthy conf)
    (stat : Stat Value) : (server.sendToBuffer net conf exiting now stat).2.AllFull :=
  forall_sends_sendToBuffer h (fun _ => hnet.send _) stat

end Healthy

/-! ## Records and stats sent alone -/

/-- What is encoded: a stat sent alone, or the stat of a record. -/
abbrev Item := Stat Value ⊕ Stat Value

def Item.stat : Item → Stat Value := Sum.elim id id

/-- A stat sent alone is itself, and a record holds what was merged into it. -/
def ItemHolds [Add Value] (values : Nat) (group : List (Stat Value)) : Item → Prop
  | .inl stat => group = [stat]
  | .inr stat => Merged values group stat

/-- The items are in datagrams that were sent, or in the buffer. -/
def Server.Keeps (server : Server) (out : List Item) : Prop :=
  server.Carries (out.map Item.stat) ∧ server.AllFull

section Keeps

variable {net : Net} {conf : ServerConf} {exiting : Bool} {now : Nat} {server : Server}
  {out : List Item}

theorem Server.Keeps.flush (h : server.Keeps out) (hnet : net.Healthy conf) :
    (server.flush net conf exiting).2.Keeps out :=
  ⟨h.1.flush, h.2.flush hnet⟩

theorem Server.Keeps.sendToBuffer (h : server.Keeps out) (hnet : net.Healthy conf)
    (exiting : Bool) (now : Nat) (item : Item) :
    (server.sendToBuffer net conf exiting now item.stat).2.Keeps
      (if (server.sendToBuffer net conf exiting now item.stat).1 = .ok then out ++ [item]
        else out) := by
  have hcarries : (server.sendToBuffer net conf exiting now item.stat).2.Carries
      (if (server.sendToBuffer net conf exiting now item.stat).1 = .ok
        then out.map Item.stat ++ [item.stat] else out.map Item.stat) :=
    h.1.sendToBuffer item.stat
  constructor
  · by_cases hok : (server.sendToBuffer net conf exiting now item.stat).1 = .ok
    · rw [if_pos hok] at hcarries ⊢
      simpa using hcarries
    · rw [if_neg hok] at hcarries ⊢
      exact hcarries
  · exact h.2.sendToBuffer hnet _

/-- The handler of the aggregator takes every record that fits an empty buffer. -/
theorem aggregateHandler_takes (hnet : net.Healthy conf) (exiting : Bool) (now : Nat) :
    Takes (aggregateHandler net conf exiting now) Sum.inr
      (fun stat => tlMetricsLen [stat] ≤ conf.bufferSize) Server.Keeps where
  some := by
    intro stat server out hfits h
    have hok : (server.sendToBuffer net conf exiting now (Item.stat (.inr stat))).1 = .ok :=
      hnet.sendToBuffer_ok hfits exiting now server
    have hkeeps := h.sendToBuffer hnet exiting now (.inr stat)
    rw [if_pos hok] at hkeeps
    exact hkeeps
  none := by
    intro server out h
    exact h.flush hnet

end Keeps

/-! ## The account of the system -/

/-- The stats of the records of the aggregator. -/
def System.queued (sys : System) : List (Stat Value) :=
  match sys.aggregate with
  | none => []
  | some a => a.stats

/-- The event hashes no stat to 0 and wraps no size, and no record is due that is larger
than the buffer. -/
def EventFits (env : Env Value) (conf : ServerConf) (sys : System) (event : Event) : Prop :=
  RegularEvent env conf event ∧
    ∀ a ∈ sys.aggregate, ∀ q ∈ a.queue,
      Expired conf.aggregate event.exiting event.now (a.mem q) →
      tlMetricsLen [(a.mem q).stat] ≤ conf.bufferSize

instance (env : Env Value) (conf : ServerConf) (sys : System) (event : Event) :
    Decidable (EventFits env conf sys event) :=
  inferInstanceAs (Decidable (_ ∧ ∀ a ∈ sys.aggregate, ∀ q ∈ a.queue, _))

/-- What was sent or is buffered, and what is queued, accounts for the accepted stats. -/
structure System.Accounted [Add Value] (conf : ServerConf) (sys : System) : Prop where
  inv : sys.Inv conf
  account : ∃ out, sys.server.Keeps out ∧
    Accounts (ItemHolds conf.aggregateValues) sys.accepted (out ++ sys.queued.map Sum.inr)

section Runs

variable [Add Value] {env : Env Value} {net : Net} {conf : ServerConf}

theorem System.init_accounted (env : Env Value) (conf : ServerConf) (start : Nat) :
    (System.init env conf start).Accounted conf := by
  constructor
  · exact System.init_inv env conf start
  · refine ⟨[], ⟨Server.init_carries, by simp [Server.AllFull, init, Server.init]⟩, ?_⟩
    have hqueued : (System.init env conf start).queued = [] := by
      unfold System.queued System.init
      by_cases hsize : conf.aggregateSize = 0
      · simp [hsize]
      · simp [hsize, aggregateInit, Aggregate.stats]
    rw [hqueued]
    exact accounts_nil

/-- A stat that is sent alone is kept if it is accepted. -/
theorem accounts_sendToBuffer {server : Server} {out queued : List Item}
    {accepted : List (Stat Value)} (hnet : net.Healthy conf) (hkeeps : server.Keeps out)
    (hacc : Accounts (ItemHolds conf.aggregateValues) accepted (out ++ queued)) (exiting : Bool)
    (now : Nat) (stat : Stat Value) :
    ∃ out', (server.sendToBuffer net conf exiting now stat).2.Keeps out' ∧
      Accounts (ItemHolds conf.aggregateValues)
        (if (server.sendToBuffer net conf exiting now stat).1 = .ok then accepted ++ [stat]
          else accepted) (out' ++ queued) := by
  have hkeeps' : (server.sendToBuffer net conf exiting now stat).2.Keeps _ :=
    hkeeps.sendToBuffer hnet exiting now (.inl stat)
  refine ⟨_, hkeeps', ?_⟩
  show Accounts _ _
    ((if (server.sendToBuffer net conf exiting now stat).1 = .ok then _ else _) ++ _)
  split
  · -- the stat is a new item of its own, moved to the end of what is out
    have hadd : Accounts (ItemHolds conf.aggregateValues) (accepted ++ [stat])
        (out ++ queued ++ [.inl stat]) := hacc.add rfl
    apply hadd.perm
    simp only [List.append_assoc]
    exact List.perm_append_comm.append_left out
  · exact hacc

/-- The account of a system with an aggregator, as its handler sees it. -/
theorem System.Accounted.with {sys : System} {event : Event} {a : Aggregate Value}
    (h : sys.Accounted conf) (hfits : EventFits env conf sys event) (ha : sys.aggregate = some a) :
    AccountedWith conf.aggregate event.exiting event.now Sum.inr
      (fun stat => tlMetricsLen [stat] ≤ conf.bufferSize) Server.Keeps
      (ItemHolds conf.aggregateValues) sys.accepted a sys.server := by
  rcases h.account with ⟨out, hkeeps, hacc⟩
  have hqueued : sys.queued = a.stats := by simp [queued, ha]
  rw [hqueued] at hacc
  constructor
  · exact ⟨out, hkeeps, hacc⟩
  · exact hfits.2 a ha

theorem System.Accounted.of_some {sys : System} (h : sys.Accounted conf) {a b : Aggregate Value}
    (ha : sys.aggregate = some a) (hb : b.Inv conf.aggregate) {server : Server}
    {accepted : List (Stat Value)}
    (hacc : ∃ out, server.Keeps out ∧
      Accounts (ItemHolds conf.aggregateValues) accepted (out ++ b.stats.map Sum.inr)) :
    System.Accounted conf ⟨server, some b, accepted⟩ :=
  ⟨h.inv.replace ha hb server accepted, hacc⟩

theorem System.Accounted.send (hnet : net.Healthy conf) {sys : System} {event : Event}
    {stat : Stat Value} (hfits : EventFits env conf sys event)
    (hsend : event.callback = .send stat) (h : sys.Accounted conf) :
    (sys.step env net conf event).Accounted conf := by
  unfold System.step
  simp only [hsend]
  cases hagg : sys.aggregate with
  | none =>
      rcases h.account with ⟨out, hkeeps, hacc⟩
      have hqueued : sys.queued = [] := by simp [System.queued, hagg]
      rw [hqueued] at hacc
      constructor
      · exact System.inv_none conf _ _
      · exact accounts_sendToBuffer hnet hkeeps hacc event.exiting event.now stat
  | some a =>
      have hpost := aggregate_accounted (h.inv.regular hfits.1 hsend hagg)
        (aggregateHandler_takes hnet event.exiting event.now) (fun _ _ => Iff.rfl)
        (h.inv.aggregate a hagg) (h.with hfits hagg)
      rcases hpost with ⟨hinv, out, hkeeps, hacc⟩
      simp only [StatsHouse.send]
      split
      · exact h.of_some hagg hinv ⟨out, hkeeps, hacc⟩
      · -- the aggregator declined the stat, which goes to the buffer alone
        rename_i hrc
        rw [if_neg fun hok => hrc (Or.inr hok)] at hacc
        exact h.of_some hagg hinv
          (accounts_sendToBuffer hnet hkeeps hacc event.exiting event.now stat)

theorem System.Accounted.fire (hnet : net.Healthy conf) {sys : System} {event : Event}
    {armed : TimerEvent → Bool} {clear : TimerEvent → TimerEvent}
    (hfits : EventFits env conf sys event) (h : sys.Accounted conf) :
    (fire env net conf event armed clear sys).Accounted conf := by
  unfold StatsHouse.fire
  split
  · exact h
  · rename_i a ha
    split
    · -- the account does not look at the timer that nginx has cleared
      have hwith : AccountedWith conf.aggregate event.exiting event.now Sum.inr
          (fun stat => tlMetricsLen [stat] ≤ conf.bufferSize) Server.Keeps
          (ItemHolds conf.aggregateValues) sys.accepted
          { a with timerEvent := clear a.timerEvent } sys.server :=
        ⟨(h.with hfits ha).1, (h.with hfits ha).2⟩
      have hpost := aggregateProcess_accounted env
        (aggregateHandler_takes hnet event.exiting event.now)
        ((h.inv.aggregate a ha).timerEvent (clear a.timerEvent)) hwith
      rcases hpost with ⟨hinv', hout, -⟩
      simp only [aggregateTimerHandler]
      obtain ⟨ev, hev⟩ := aggregateTimer_eq conf.aggregate event.now
        (aggregateProcess env conf.aggregate
          (aggregateHandler net conf event.exiting event.now) event.exiting event.now
          { a with timerEvent := clear a.timerEvent } sys.server).2.1
      rw [hev]
      exact h.of_some ha (hinv'.timerEvent ev) hout
    · exact h

/-- A step of the server alone keeps the account. -/
theorem System.Accounted.server {sys : System} {server : Server} (h : sys.Accounted conf)
    (hkeeps : ∀ out, sys.server.Keeps out → server.Keeps out) :
    System.Accounted conf { sys with server := server } := by
  rcases h.account with ⟨out, hout, hacc⟩
  exact ⟨h.inv.other _ _, out, hkeeps out hout, hacc⟩

theorem System.step_accounted (hnet : net.Healthy conf) (sys : System) (event : Event)
    (hfits : EventFits env conf sys event) (h : sys.Accounted conf) :
    (sys.step env net conf event).Accounted conf := by
  cases hcallback : event.callback with
  | send stat => exact h.send hnet hfits hcallback
  | flush =>
      simp only [System.step, hcallback]
      exact h.server fun out hout => hout.flush hnet
  | flushAfterRequest =>
      simp only [System.step, hcallback, Server.flushAfterRequest]
      split
      · exact h.server fun out hout => hout.flush hnet
      · exact h
  | flushTimer =>
      simp only [System.step, hcallback, Server.timerHandler]
      split
      · -- a flush, between two changes of the timer
        obtain ⟨ev, hev⟩ := Server.timer_eq conf event.exiting event.now
          (Server.flush net conf event.exiting { sys.server with flushEvent := none }).2
        rw [hev]
        apply h.server
        intro out hout
        have hcleared : Server.Keeps { sys.server with flushEvent := none } out := hout
        exact hcleared.flush hnet
      · exact h
  | aggregateTimer =>
      simp only [System.step, hcallback]
      exact h.fire hnet hfits
  | aggregatePosted =>
      simp only [System.step, hcallback]
      exact h.fire hnet hfits
  | readHandler =>
      simp only [System.step, hcallback, Server.readHandler, Server.disconnect_eq]
      exact h.server fun out hout => hout

/-- Every accepted stat is in exactly one of: a stat of a datagram that was sent
in full, a stat in the buffer, a record of the aggregator. There it is alone or
merged with others. -/
def System.NothingLost (conf : ServerConf) (sys : System) : Prop :=
  ∃ (batches : List (List (Stat Value))) (buffered : List (Stat Value)),
    sys.server.delivered = batches.map tlDatagram ∧ sys.server.buffer = tlDatagram buffered ∧
    Accounts (fun group stat => group = [stat] ∨ Merged conf.aggregateValues group stat)
      sys.accepted (batches.flatten ++ buffered ++ sys.queued)

/-- With a healthy network nothing accepted is lost in any run in which no record
that is due is larger than the buffer, and the aggregator hashes no stat to 0 and wraps
no size. -/
theorem nothing_lost (hnet : net.Healthy conf) {start : Nat} {events : List Event}
    (hevents : Run.Meets (System.step env net conf) (EventFits env conf)
      (System.init env conf start) events) :
    (System.run env net conf start events).NothingLost conf := by
  have hacc : (System.run env net conf start events).Accounted conf :=
    Run.exec_invariant_of_meets (System.step_accounted hnet) (System.init_accounted env conf start)
      hevents
  rcases hacc.account with ⟨out, ⟨⟨batches, buffered, hreleased, hbuffer, hout⟩, hfull⟩, haccount⟩
  refine ⟨batches, buffered, hfull.delivered_eq.trans hreleased, hbuffer, ?_⟩
  -- the items are the stats that were sent or are buffered, and those of the records
  have hstats : (out ++ (System.run env net conf start events).queued.map Sum.inr).map Item.stat =
      batches.flatten ++ buffered ++ (System.run env net conf start events).queued := by
    rw [List.map_append, hout, List.map_map]
    congr 1
    exact List.map_id _
  rw [← hstats]
  apply haccount.map Item.stat
  rintro group (stat | stat) hholds
  · exact Or.inl hholds
  · exact Or.inr hholds

end Runs

/-- The metric "m" with one value, sent so many times, and then the aggregator's
timer. -/
def sampleEvents (n : Nat) : List Event :=
  List.replicate n ⟨0, false, .send ⟨.value, [109], [], [⟨1⟩]⟩⟩ ++ [⟨1000, false, .aggregateTimer⟩]

section Sample

attribute [local instance] sampleAdd

/-- A record of four values fits the buffer of 64 bytes. -/
theorem nothing_lost_four :
    (System.run (sampleEnv Value) sampleNet sampleConf 0 (sampleEvents 4)).NothingLost sampleConf :=
  nothing_lost ⟨by decide, fun _ => rfl, fun _ => rfl⟩ (by decide +kernel)

/-- A record of five does not, so the buffer refuses it when it is already due to
be freed. -/
theorem outgrown_record_lost :
    sampleNet.Healthy sampleConf ∧
      ¬ (System.run (sampleEnv Value) sampleNet sampleConf 0 (sampleEvents 5)).NothingLost
        sampleConf := by
  refine ⟨⟨by decide, fun _ => rfl, fun _ => rfl⟩, ?_⟩
  intro hkept
  rcases hkept with ⟨batches, buffered, hdelivered, hbuffer, hacc⟩
  have hnone : (System.run (sampleEnv Value) sampleNet sampleConf 0
      (sampleEvents 5)).server.delivered = [] := by decide +kernel
  have hempty : (System.run (sampleEnv Value) sampleNet sampleConf 0
      (sampleEvents 5)).server.buffer = [] := by decide +kernel
  have hqueued : (System.run (sampleEnv Value) sampleNet sampleConf 0
      (sampleEvents 5)).queued = [] := by decide +kernel
  have hfive : (System.run (sampleEnv Value) sampleNet sampleConf 0
      (sampleEvents 5)).accepted.length = 5 := by decide +kernel
  -- nothing is anywhere, so nothing could have been accepted
  rw [hnone] at hdelivered
  rw [hempty] at hbuffer
  have hbatches : batches = [] := List.map_eq_nil_iff.mp hdelivered.symm
  have hbuffered : buffered = [] := by
    cases buffered with
    | nil => rfl
    | cons stat rest => simp [tlDatagram, tlMetrics_ne_nil] at hbuffer
  rw [hbatches, hbuffered, hqueued] at hacc
  have haccepted := hacc.eq_nil
  rw [haccepted] at hfive
  cases hfive

end Sample

end StatsHouse
