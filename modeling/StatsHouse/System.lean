import StatsHouse.Lib.Run
import StatsHouse.Server

/-! # The server with its aggregator

`ngx_statshouse_send` and the callbacks nginx makes: requests that send stats and
flush, the two timers and the events of the connection. A run is a list of
events, each with the clock and the exiting flag of its callback.
-/

namespace StatsHouse

variable {V : Type}

/-- A server, its aggregator if it is configured with one, and the stats for
which `ngx_statshouse_send` returned `NGX_OK`. -/
structure System where
  server : Server
  aggregate : Option (Aggregate Value)
  accepted : List (Stat Value)

/-- `ngx_statshouse_server_init`, with the arena at `start`. -/
def System.init (env : Env Value) (conf : ServerConf) (start : Nat) : System :=
  { server := Server.init
    aggregate :=
      if conf.aggregateSize = 0 then none
      else some (aggregateInit env start conf.aggregateSize)
    accepted := [] }

/-- `ngx_statshouse_send`. -/
def send [Add Value] (env : Env Value) (net : Net) (conf : ServerConf) (exiting : Bool)
    (now : Nat) (stat : Stat Value) (server : Server) :
    Option (Aggregate Value) → Rc × Server × Option (Aggregate Value)
  | some a =>
    let res := aggregate env conf.aggregate (aggregateHandler net conf exiting now) exiting stat
      now a server
    if res.1 = .error ∨ res.1 = .ok then
      (res.1, res.2.2, some res.2.1)
    else
      -- declined or busy: the stat goes to the buffer on its own
      let res' := res.2.2.sendToBuffer net conf exiting now stat
      (res'.1, res'.2, some res.2.1)
  | none =>
    let res := server.sendToBuffer net conf exiting now stat
    (res.1, res.2, none)

/-- What nginx calls. -/
inductive Callback where
  | send (stat : Stat Value)
  | flush
  | flushAfterRequest
  | flushTimer
  | aggregateTimer
  | aggregatePosted
  | readHandler
deriving DecidableEq, Repr

/-- A callback at the time `now`; `exiting` is `ngx_terminate || ngx_exiting`. -/
structure Event where
  now : Nat
  exiting : Bool
  callback : Callback
deriving DecidableEq, Repr

/-- The timer of the aggregator fires if it is armed, and its posted event is
handled if it is posted. nginx clears `timer_set` or `posted` before the call. -/
def fire [Add Value] (env : Env Value) (net : Net) (conf : ServerConf) (event : Event)
    (armed : TimerEvent → Bool) (clear : TimerEvent → TimerEvent) (sys : System) : System :=
  match sys.aggregate with
  | none => sys
  | some a =>
    if armed a.timerEvent then
      let res := aggregateTimerHandler env conf.aggregate
        (aggregateHandler net conf event.exiting event.now) event.exiting event.now
        { a with timerEvent := clear a.timerEvent } sys.server
      { sys with server := res.2, aggregate := some res.1 }
    else
      sys

def System.step [Add Value] (env : Env Value) (net : Net) (conf : ServerConf) (sys : System)
    (event : Event) : System :=
  match event.callback with
  | .send stat =>
    let res := send env net conf event.exiting event.now stat sys.server sys.aggregate
    { server := res.2.1
      aggregate := res.2.2
      accepted := if res.1 = .ok then sys.accepted ++ [stat] else sys.accepted }
  | .flush => { sys with server := (sys.server.flush net conf event.exiting).2 }
  | .flushAfterRequest =>
    { sys with server := (sys.server.flushAfterRequest net conf event.exiting).2 }
  | .flushTimer =>
    -- the event is there only while the timer is set, and firing clears it
    if sys.server.flushEvent.isSome then
      { sys with
        server := Server.timerHandler net conf event.exiting event.now
          { sys.server with flushEvent := none } }
    else
      sys
  | .aggregateTimer =>
    fire env net conf event (fun ev => ev.timer.isSome) (fun ev => { ev with timer := none }) sys
  | .aggregatePosted =>
    fire env net conf event (fun ev => ev.posted) (fun ev => { ev with posted := false }) sys
  | .readHandler => { sys with server := sys.server.readHandler }

/-- The state a run of events leads to. -/
def System.run [Add Value] (env : Env Value) (net : Net) (conf : ServerConf) (start : Nat)
    (events : List Event) : System :=
  Run.exec (System.step env net conf) (System.init env conf start) events

/-- A server on a healthy network, with a buffer of 64 bytes and an arena of 4096. -/
def sampleConf : ServerConf :=
  { naddrs := 1
    bufferSize := 64
    flushAfterRequest := false
    flush := 1000
    aggregateSize := 4096
    aggregateValues := 24 }

/-- The answers of a network without failures. -/
def sampleNet : Net := { connect := fun _ => .connected, send := fun _ => .full }

end StatsHouse
