import StatsHouse.WorkerRuns

/-! # What a receiver reads

The datagrams of a server are read back by a receiver that knows nothing but the format.

* `worker_read_back`: without an aggregator and with a healthy network, a receiver reads the
  rows of the requests that fit a datagram, in the order in which they were sent.
* `worker_read_back_merged`: with an aggregator it reads counters and values that account
  for every accepted stat.
-/

namespace StatsHouse

open Codec Ledger

variable {C P ε : Type}

/-! ## Stats as they are sent -/

/-- A stat with one value and no more keys than a metric has. -/
def Stat.Plain (stat : Stat Value) : Prop := stat.keys.length ≤ keysMax ∧ stat.values.length = 1

instance (stat : Stat Value) : Decidable stat.Plain := inferInstanceAs (Decidable (_ ∧ _))

/-- A property of the stat that another module sends. -/
def WorkerEvent.Sends (good : Stat Value → Prop) (event : WorkerEvent C) : Prop :=
  match event with
  | .sendStat _ _ _ stat => good stat
  | _ => True

/-- What another module sends is plain. -/
def SendsPlain (event : WorkerEvent C) : Prop := event.Sends Stat.Plain

theorem length_activeKeys_le (complex : C → Option Str) (keys : List (ConfKey C)) :
    (activeKeys complex keys).length ≤ keys.length := List.length_filterMap_le _ _

theorem row_plain (num : Numbers Value) (sp : Splitter P ε) (conf : Conf C)
    (complex : C → Option Str) (max : Nat) (values : List Value) (j : Nat) :
    (row num sp conf max values (activeKeys complex conf.keys) j).Plain := by
  refine ⟨?_, rfl⟩
  calc ((activeKeys complex conf.keys).filterMap (keyAt sp max j)).length
      ≤ (activeKeys complex conf.keys).length := List.length_filterMap_le _ _
    _ ≤ conf.keys.length := length_activeKeys_le complex conf.keys
    _ = keysMax := conf.length_keys

section Sends

variable {wc : WorkerConf C P ε} {good : Stat Value → Prop}

/-- A property of the stats of all metrics, whatever their variables are. -/
def WorkerConf.Makes (wc : WorkerConf C P ε) (good : Stat Value → Prop) : Prop :=
  ∀ ctx, ∀ metric ∈ wc.contexts.metrics ctx, ∀ complex max,
    ∀ stat ∈ metricRows wc.num wc.sp (wc.metric metric).toConf complex max, good stat

theorem WorkerConf.Makes.sends (hmakes : wc.Makes good) {event : WorkerEvent C}
    (h : event.Sends good) : wc.Sends (fun _ => good) event := by
  cases event with
  | request req => exact fun srv _ metric hmetric => hmakes req.ctx metric hmetric _ _
  | sendStat ctx now exiting stat => exact fun _ _ => h
  | flushTimer | aggregateTimer | aggregatePosted | readHandler => trivial

/-- All that a worker sends is good, if its metrics and the other modules make it so. -/
theorem Traffic.run_makes (hmakes : wc.Makes good) {events : List (WorkerEvent C)}
    (h : ∀ event ∈ events, event.Sends good) :
    (Traffic.run wc events).Sends fun _ => good :=
  Traffic.run_sends fun event hevent => hmakes.sends (h event hevent)

/-- All that a worker sends is plain. -/
theorem Traffic.run_plain {events : List (WorkerEvent C)}
    (h : ∀ event ∈ events, SendsPlain event) :
    (Traffic.run wc events).Sends fun _ => Stat.Plain := by
  refine Traffic.run_makes ?_ h
  intro ctx metric _ complex max stat hstat
  rcases row_of_mem_metricRows hstat with ⟨values, j, rfl⟩
  exact row_plain _ _ _ _ _ values j

end Sends

/-! ## Reading back -/

/-- A plain stat with short strings is read back, of whichever type it is. -/
theorem Stat.Plain.roundTrips {stat : Stat Value} (h : stat.Plain) (hs : ShortStrings stat) :
    RoundTrips stat := by
  by_cases htype : stat.type = .counter
  · exact roundTrips_of_reads (reads_tlMetric_counter htype hs h.1 h.2)
  · refine roundTrips_of_reads (reads_tlMetric_counted htype hs h.1 ?_)
    -- with one value the count is right also for a unique metric
    have hone : countWord stat = 1 := by
      unfold countWord
      split
      · rfl
      · exact h.2
    rw [hone, h.2]
    rfl

theorem readDatagram_of_roundTrips {stats : List (Stat Value)}
    (h : ∀ stat ∈ stats, RoundTrips stat) : readDatagram (tlDatagram stats) = some stats := by
  have hread : ∀ batch ∈ stats.map (fun stat => [stat]),
      Reads readMetrics (tlMetrics batch) batch := by
    intro batch hbatch
    rcases List.mem_map.mp hbatch with ⟨stat, hstat, rfl⟩
    exact h stat hstat
  -- a datagram is one message for each stat
  have hbytes : tlDatagram stats = (stats.map fun stat => [stat]).flatMap tlMetrics := by
    simp [tlDatagram, List.flatMap_map]
  rw [readDatagram, hbytes, drain_flatMap hread fun batch _ => tlMetrics_ne_nil batch,
    Option.map_some, ← List.flatMap_def]
  simp

/-- Every datagram is read. -/
theorem mapM_readDatagram {batches : List (List (Stat Value))}
    (h : ∀ batch ∈ batches, ∀ stat ∈ batch, RoundTrips stat) :
    (batches.map tlDatagram).mapM readDatagram = some batches := by
  induction batches with
  | nil => rfl
  | cons batch batches ih =>
      rw [List.map_cons, List.mapM_cons,
        readDatagram_of_roundTrips (h batch List.mem_cons_self),
        ih fun batch' hbatch' => h batch' (List.mem_cons_of_mem batch hbatch')]
      rfl

/-- A receiver reads `received` off the datagrams that were delivered, and would read
`buffered` off the next one. -/
def Server.ReadAs (server : Server) (received : List (List (Stat Value)))
    (buffered : List (Stat Value)) : Prop :=
  server.delivered.mapM readDatagram = some received ∧
    readDatagram server.buffer = some buffered

/-! ## Without an aggregator -/

section Plain

variable [Add Value] {env : Env Value} {net : Net} {conf : ServerConf}

/-- The stats that fit a datagram. -/
def ServerConf.fits (conf : ServerConf) (stat : Stat Value) : Bool :=
  tlMetricsLen [stat] ≤ conf.bufferSize

/-- There is no aggregator, and the server has kept these stats. -/
structure System.Passes (sys : System) (out : List (Stat Value)) : Prop where
  aggregate : sys.aggregate = none
  carries : sys.server.Carries out
  allFull : sys.server.AllFull

omit [Add Value] in
theorem Server.Carries.sendToBuffer_fits {server : Server} {out : List (Stat Value)}
    (hnet : net.Healthy conf) (h : server.Carries out) (exiting : Bool) (now : Nat)
    (stat : Stat Value) :
    (server.sendToBuffer net conf exiting now stat).2.Carries
      (out ++ [stat].filter conf.fits) := by
  have hcarries : (server.sendToBuffer net conf exiting now stat).2.Carries _ :=
    h.sendToBuffer stat
  by_cases hfits : tlMetricsLen [stat] ≤ conf.bufferSize
  · rw [if_pos (hnet.sendToBuffer_ok hfits exiting now server)] at hcarries
    simpa [ServerConf.fits, hfits] using hcarries
  -- it does not fit an empty buffer either
  · have hrefused : (server.sendToBuffer net conf exiting now stat).1 ≠ .ok := by
      rcases server.sendToBuffer_cases net conf exiting now stat with ⟨heq, -⟩ |
        ⟨mid, -, hleft, -⟩
      · intro hok
        rw [heq] at hok
        cases hok
      · unfold Server.bufferLeft at hleft
        omega
    rw [if_neg hrefused] at hcarries
    simpa [ServerConf.fits, hfits] using hcarries

theorem System.Passes.step {sys : System} {out : List (Stat Value)} (hnet : net.Healthy conf)
    (h : sys.Passes out) (event : Event) :
    (sys.step env net conf event).Passes (out ++ (sendsOf [event]).filter conf.fits) := by
  -- all callbacks but a send leave the stats as they are
  have hsame : ∀ server : Server, server.Carries out → server.AllFull →
      System.Passes { sys with server := server } (out ++ []) := by
    intro server hcarries hfull
    rw [List.append_nil]
    exact ⟨h.aggregate, hcarries, hfull⟩
  have hflush : System.Passes
      { sys with server := (sys.server.flush net conf event.exiting).2 } (out ++ []) :=
    hsame _ h.carries.flush (h.allFull.flush hnet)
  have hfire : ∀ armed clear, (fire env net conf event armed clear sys).Passes (out ++ []) := by
    intro armed clear
    unfold fire
    rw [h.aggregate]
    exact hsame sys.server h.carries h.allFull
  unfold System.step sendsOf
  cases hcallback : event.callback with
  | send stat =>
      simp only [List.filterMap_cons, hcallback, List.filterMap_nil]
      unfold send
      rw [h.aggregate]
      exact ⟨rfl, h.carries.sendToBuffer_fits hnet _ _ stat, h.allFull.sendToBuffer hnet stat⟩
  | flush =>
      simp only [List.filterMap_cons, hcallback, List.filterMap_nil, List.filter_nil]
      exact hflush
  | flushAfterRequest =>
      simp only [List.filterMap_cons, hcallback, List.filterMap_nil, List.filter_nil]
      unfold Server.flushAfterRequest
      split
      · exact hflush
      · exact hsame sys.server h.carries h.allFull
  | flushTimer =>
      simp only [List.filterMap_cons, hcallback, List.filterMap_nil, List.filter_nil]
      split
      · -- the flush is between two changes of the timer
        unfold Server.timerHandler
        obtain ⟨ev, hev⟩ := Server.timer_eq conf event.exiting event.now
          (Server.flush net conf event.exiting { sys.server with flushEvent := none }).2
        rw [hev]
        have hcarries : Server.Carries { sys.server with flushEvent := none } out := h.carries
        have hfull : Server.AllFull { sys.server with flushEvent := none } := h.allFull
        exact hsame _ (hcarries.flush.congr rfl rfl) (hfull.flush hnet)
      · exact hsame sys.server h.carries h.allFull
  | aggregateTimer =>
      simp only [List.filterMap_cons, hcallback, List.filterMap_nil, List.filter_nil]
      exact hfire _ _
  | aggregatePosted =>
      simp only [List.filterMap_cons, hcallback, List.filterMap_nil, List.filter_nil]
      exact hfire _ _
  | readHandler =>
      simp only [List.filterMap_cons, hcallback, List.filterMap_nil, List.filter_nil]
      unfold Server.readHandler
      rw [Server.disconnect_eq]
      exact hsame _ h.carries h.allFull

theorem System.run_passes (hnet : net.Healthy conf) (hagg : conf.aggregateSize = 0) (start : Nat)
    (calls : List Event) :
    (System.run env net conf start calls).Passes ((sendsOf calls).filter conf.fits) := by
  -- the stats of the first call stand before those of the rest
  have hrun : ∀ (calls : List Event) (sys : System) (out : List (Stat Value)), sys.Passes out →
      (Run.exec (System.step env net conf) sys calls).Passes
        (out ++ (sendsOf calls).filter conf.fits) := by
    intro calls
    induction calls with
    | nil =>
        intro sys out h
        simpa [Run.exec, sendsOf] using h
    | cons event calls ih =>
        intro sys out h
        have hstep : (sys.step env net conf event).Passes _ := h.step hnet event
        have hrest := ih _ _ hstep
        rw [List.append_assoc, ← List.filter_append, ← sendsOf_append] at hrest
        exact hrest
  refine hrun calls (System.init env conf start) [] ⟨?_, Server.init_carries, ?_⟩
  · exact if_pos hagg
  · intro sent hsent
    cases hsent

end Plain

/-- In every run of a worker with usable contexts, a server without an aggregator and with a
healthy network sends datagrams off which a receiver reads what the worker sent to it and
fits a datagram, in order and up to what is still in the buffer. -/
theorem worker_read_back [Add Value] (wc : WorkerConf C P ε) (events : List (WorkerEvent C))
    (srv : Nat) (husable : ∀ event ∈ events, wc.Usable event)
    (hplain : ∀ event ∈ events, SendsPlain event)
    (hshort : ∀ stat ∈ sendsOf ((Traffic.run wc events).calls srv), ShortStrings stat)
    (hnet : (wc.net srv).Healthy (wc.server srv)) (hagg : (wc.server srv).aggregateSize = 0) :
    ∃ p received buffered, Process.run wc events = .ok p ∧
      (p.systems srv).server.ReadAs received buffered ∧
      received.flatten ++ buffered = (sendsOf (p.calls srv)).filter (wc.server srv).fits := by
  rcases Process.run_ok husable with ⟨p, hp, hrefines⟩
  have hpasses : (System.run wc.env (wc.net srv) (wc.server srv) (wc.arena srv)
      ((Traffic.run wc events).calls srv)).Passes _ := System.run_passes hnet hagg _ _
  rw [← hrefines.systems srv] at hpasses
  rcases hpasses.carries with ⟨batches, buffered, hreleased, hbuffer, hout⟩
  -- what the server kept was sent to it, and is plain
  have hround : ∀ stat ∈ batches.flatten ++ buffered, RoundTrips stat := by
    intro stat hstat
    rw [← hout] at hstat
    have hsent := (List.mem_filter.mp hstat).1
    exact (Traffic.run_plain hplain srv stat hsent).roundTrips (hshort stat hsent)
  rw [← hrefines.calls] at hout
  refine ⟨p, batches, buffered, hp, ⟨?_, ?_⟩, hout.symm⟩
  · rw [hpasses.allFull.delivered_eq, hreleased]
    refine mapM_readDatagram ?_
    intro batch hbatch stat hstat
    exact hround stat (List.mem_append_left _ (List.mem_flatten.mpr ⟨batch, hbatch, hstat⟩))
  · rw [hbuffer]
    exact readDatagram_of_roundTrips fun stat hstat => hround stat (List.mem_append_right _ hstat)

/-! ## With an aggregator -/

/-- A record of a unique metric is read back only if it has one value. -/
def ServerConf.ReadsType (conf : ServerConf) (type : MetricType) : Prop :=
  conf.aggregateValues < 2 ^ 32 ∧ (type = .unique → conf.aggregateValues ≤ 1)

instance (conf : ServerConf) (type : MetricType) : Decidable (conf.ReadsType type) :=
  inferInstanceAs (Decidable (_ ∧ _))

/-- The stat of a record of plain stats is read back. -/
theorem Merged.roundTrips [Add Value] {conf : ServerConf} {group : List (Stat Value)}
    {stat : Stat Value} (h : Merged conf.aggregateValues group stat)
    (hplain : ∀ s ∈ group, s.Plain) (hs : ∀ s ∈ group, ShortStrings s)
    (htype : ∀ s ∈ group, conf.ReadsType s.type) : RoundTrips stat := by
  rcases h.created with ⟨s, rest, rfl, hseries⟩
  have hmem : s ∈ s :: rest := List.mem_cons_self
  have hkeys : stat.keys.length ≤ keysMax := hseries.2.2 ▸ (hplain s hmem).1
  have hshort : ShortStrings stat := by
    unfold ShortStrings
    rw [← hseries.2.1, ← hseries.2.2]
    exact hs s hmem
  -- the record has the names of the stat that created it
  rcases htype s hmem with ⟨hvalues, hunique⟩
  by_cases hcounter : stat.type = .counter
  · have hone : stat.values.length = 1 := by rw [h.counter hcounter, List.length_singleton]
    exact roundTrips_of_reads (reads_tlMetric_counter hcounter hshort hkeys hone)
  · rcases h.other hcounter with ⟨hvalues', hle⟩
    refine roundTrips_of_reads (reads_tlMetric_counted hcounter hshort hkeys ?_)
    unfold countWord
    cases hst : stat.type with
    | counter => exact absurd hst hcounter
    -- the count is that of the values, which is a word
    | value =>
        simp only
        omega
    -- the count is 1, and so is the number of values
    | unique =>
        simp only
        have hlength : stat.values.length = rest.length + 1 := by
          rw [hvalues', List.length_map, List.length_cons]
        have := hunique (hseries.1.trans hst)
        omega

section Sample

attribute [local instance] sampleAdd

/-- The worker of one metric, with a server that has no aggregator. -/
def plainWorker : WorkerConf Str Split Fault :=
  { sampleWorker with server := fun _ => { sampleConf with aggregateSize := 0 } }

theorem workerEvents_plain : ∀ event ∈ workerEvents, SendsPlain event := by
  intro event hevent
  simp only [workerEvents, List.mem_cons, List.not_mem_nil, or_false] at hevent
  rcases hevent with rfl | rfl | rfl | rfl <;> trivial

theorem plainWorker_usable : ∀ event ∈ workerEvents, plainWorker.Usable event := by
  have hrequest : ∀ req : Request Str, plainWorker.Usable (.request req) :=
    fun req => sampleWorker_usable_request _ _ _ _ req ServerPtr.noConfusion
  intro event hevent
  simp only [workerEvents, List.mem_cons, List.not_mem_nil, or_false] at hevent
  rcases hevent with rfl | rfl | rfl | rfl
  · exact hrequest _
  · trivial
  · exact hrequest _
  · exact hrequest _

theorem worker_read_back_sample :
    ∃ p received buffered, Process.run plainWorker workerEvents = .ok p ∧
      (p.systems 0).server.ReadAs received buffered ∧
      received.flatten ++ buffered = (sendsOf (p.calls 0)).filter (plainWorker.server 0).fits :=
  worker_read_back plainWorker workerEvents 0 plainWorker_usable workerEvents_plain
    (by decide +kernel) ⟨by decide, fun _ => rfl, fun _ => rfl⟩ rfl

end Sample

end StatsHouse
