import StatsHouse.Aggregate
import StatsHouse.Tl

/-! # The server

`ngx_statshouse.c` from `ngx_statshouse_connect` to `ngx_statshouse_send`: stats
are encoded into a buffer, which is sent as one datagram when the next stat does
not fit, when the flush timer fires or when the aggregator has handed its stats
over. What the network answers is an oracle, and the calls of `ngx_send` are
logged.

`Server.flush_cases` and `Server.sendToBuffer_cases` say what the two functions
can do; the run results are derived from them.
-/

namespace StatsHouse

/-! ## State -/

/-- Where `ngx_statshouse_connect` ends when it has an address: without a socket,
without a connection, at `failed`, or connected. -/
inductive ConnectResult where
  | noSocket
  | noConnection
  | failed
  | connected
deriving DecidableEq, Repr

/-- What `ngx_send` returns on a datagram socket: the full count, `NGX_ERROR` or
`NGX_AGAIN`. -/
inductive SendResult where
  | full
  | error
  | again
deriving DecidableEq, Repr

/-- The answers of the network: to each connect attempt and each `ngx_send` by
their numbers. -/
structure Net where
  connect : Nat → ConnectResult
  send : Nat → SendResult

/-- A call of `ngx_send`. -/
structure Sent where
  payload : List UInt8
  result : SendResult
deriving DecidableEq, Repr

/-- The fields of `ngx_statshouse_server_t` that are set once. -/
structure ServerConf where
  naddrs : Nat
  bufferSize : Nat
  flushAfterRequest : Bool
  flush : Nat
  aggregateSize : Nat
  aggregateValues : Nat
deriving DecidableEq, Repr

/-- The fields of `ngx_statshouse_server_t` that change: whether there is a
connection, the bytes between `buffer->pos` and `buffer->last`, and the deadline
of `flush_event` while `timer_set`. The number of connect attempts and the calls
of `ngx_send` are the log of the network. -/
structure Server where
  connection : Bool
  buffer : List UInt8
  flushEvent : Option Nat
  connects : Nat
  sends : List Sent
deriving DecidableEq, Repr

/-- A server before its first call. -/
def Server.init : Server :=
  { connection := false, buffer := [], flushEvent := none, connects := 0, sends := [] }

/-- The fields `ngx_statshouse_server_init` sets in the aggregator. -/
def ServerConf.aggregate (conf : ServerConf) : AggregateConf :=
  { interval := conf.flush, values := conf.aggregateValues }

/-! ## The functions -/

/-- `ngx_statshouse_server_buffer_left`. -/
def Server.bufferLeft (conf : ServerConf) (server : Server) : Nat :=
  conf.bufferSize - server.buffer.length

/-- `ngx_statshouse_disconnect`. -/
def Server.disconnect (server : Server) : Server :=
  if server.connection then { server with connection := false } else server

/-- `ngx_statshouse_connect`. -/
def Server.connect (net : Net) (conf : ServerConf) (server : Server) : Rc × Server :=
  if server.connection then
    (.ok, server)
  else if conf.naddrs = 0 then
    (.error, server)
  else
    let result := net.connect server.connects
    let server := { server with connects := server.connects + 1 }
    match result with
    | .noSocket => (.error, server)
    | .noConnection => (.error, { server with connection := false })
    | .failed => (.error, Server.disconnect { server with connection := true })
    | .connected => (.ok, { server with connection := true })

/-- `ngx_statshouse_timer`. -/
def Server.timer (conf : ServerConf) (exiting : Bool) (now : Nat) (server : Server) : Server :=
  if conf.flush = 0 ∨ server.flushEvent.isSome then server
  else if server.buffer = [] then server
  else if exiting then server
  else { server with flushEvent := some (now + conf.flush) }

/-- The loop of `ngx_statshouse_flush` with so many retries left. -/
def Server.flushRetry (net : Net) (conf : ServerConf) (exiting : Bool) :
    Nat → Server → Rc × Server
  | 0, server => (.error, server)
  | retries + 1, server =>
    let res := server.connect net conf
    if res.1 ≠ .ok then
      res
    else
      let server := res.2
      let n := net.send server.sends.length
      let server := { server with sends := server.sends ++ [Sent.mk server.buffer n] }
      if n = .error then
        flushRetry net conf exiting retries server.disconnect
      else
        -- `n == -1` is the only result tested, so `NGX_AGAIN` comes here too
        let server := if exiting then server.disconnect else server
        (.ok, { server with buffer := [] })

/-- `ngx_statshouse_flush`, with its `retries_max` of 1. -/
def Server.flush (net : Net) (conf : ServerConf) (exiting : Bool) (server : Server) :
    Rc × Server :=
  if server.buffer = [] then (.declined, server) else server.flushRetry net conf exiting 1

/-- `ngx_statshouse_flush_after_request`. -/
def Server.flushAfterRequest (net : Net) (conf : ServerConf) (exiting : Bool)
    (server : Server) : Rc × Server :=
  if conf.flushAfterRequest then server.flush net conf exiting else (.declined, server)

/-- `ngx_statshouse_timer_handler`. -/
def Server.timerHandler (net : Net) (conf : ServerConf) (exiting : Bool) (now : Nat)
    (server : Server) : Server :=
  (server.flush net conf exiting).2.timer conf exiting now

/-- `ngx_statshouse_read_handler`, when the connection is closed or in error. -/
def Server.readHandler (server : Server) : Server := server.disconnect

/-- `ngx_statshouse_send_to_buffer`. -/
def Server.sendToBuffer (net : Net) (conf : ServerConf) (exiting : Bool) (now : Nat)
    (stat : Stat Value) (server : Server) : Rc × Server :=
  let size := tlMetricsLen [stat]
  let append (server : Server) : Rc × Server :=
    (.ok, Server.timer conf exiting now { server with buffer := server.buffer ++ tlMetrics [stat] })
  if server.bufferLeft conf < size then
    -- the result of the flush is not looked at, only the room there is then
    let server := (server.flush net conf exiting).2
    if server.bufferLeft conf < size then
      (.declined, server)
    else
      append server
  else
    append server

/-- `ngx_statshouse_aggregate_handler`. -/
def aggregateHandler (net : Net) (conf : ServerConf) (exiting : Bool) (now : Nat) :
    Handler Value Server := fun stat server =>
  match stat with
  | none => server.flush net conf exiting
  | some stat => server.sendToBuffer net conf exiting now stat

/-! ## What the functions can do -/

theorem Server.disconnect_eq (server : Server) :
    server.disconnect = { server with connection := false } := by
  unfold disconnect
  cases hc : server.connection with
  | true => simp
  | false =>
      cases server
      simp_all

/-- A connect attempt changes nothing but the connection. -/
theorem Server.connect_cases (net : Net) (conf : ServerConf) (server : Server) :
    ∃ rc c n, server.connect net conf = (rc, { server with connection := c, connects := n }) ∧
      (rc = .ok ∨ rc = .error) := by
  unfold connect
  split
  · exact ⟨.ok, server.connection, server.connects, rfl, Or.inl rfl⟩
  · split
    · exact ⟨.error, server.connection, server.connects, rfl, Or.inr rfl⟩
    · simp only [disconnect_eq]
      split
      · exact ⟨.error, server.connection, server.connects + 1, rfl, Or.inr rfl⟩
      · exact ⟨.error, false, server.connects + 1, rfl, Or.inr rfl⟩
      · exact ⟨.error, false, server.connects + 1, rfl, Or.inr rfl⟩
      · exact ⟨.ok, true, server.connects + 1, rfl, Or.inl rfl⟩

/-- A flush has nothing to send or no connection, or tries to send and keeps the
buffer, or sends the buffer and empties it. Only in the last case it returns
`NGX_OK`. -/
theorem Server.flush_cases (net : Net) (conf : ServerConf) (exiting : Bool) (server : Server) :
    (∃ rc c n, rc ≠ .ok ∧ (server.buffer = [] ∨ (server.connect net conf).1 ≠ .ok) ∧
      server.flush net conf exiting = (rc, { server with connection := c, connects := n })) ∨
    (∃ c n, server.buffer ≠ [] ∧ net.send server.sends.length = .error ∧
      server.flush net conf exiting =
        (.error, { server with
          connection := c, connects := n
          sends := server.sends ++ [Sent.mk server.buffer .error] })) ∨
    ∃ c n result, server.buffer ≠ [] ∧ result = net.send server.sends.length ∧ result ≠ .error ∧
      server.flush net conf exiting =
        (.ok, { server with
          connection := c, connects := n, buffer := []
          sends := server.sends ++ [Sent.mk server.buffer result] }) := by
  unfold flush
  split
  · rename_i hbuffer
    exact Or.inl ⟨.declined, server.connection, server.connects, by simp, Or.inl hbuffer, rfl⟩
  · rename_i hbuffer
    rcases server.connect_cases net conf with ⟨rc, c, n, hconnect, hrc⟩
    -- the loop runs once, so after a failed send there is no retry
    simp only [flushRetry, hconnect, disconnect_eq]
    rcases hrc with rfl | rfl
    · simp only [ne_eq, not_true_eq_false, if_false]
      split
      · rename_i hsend
        rw [hsend]
        exact Or.inr (Or.inl ⟨false, n, hbuffer, rfl, rfl⟩)
      · rename_i hsend
        refine Or.inr (Or.inr ⟨if exiting then false else c, n, _, hbuffer, rfl, hsend, ?_⟩)
        cases exiting <;> rfl
    · exact Or.inl ⟨.error, c, n, by simp, Or.inr (by simp), by simp⟩

/-- Arming the timer changes nothing else. -/
theorem Server.timer_eq (conf : ServerConf) (exiting : Bool) (now : Nat) (server : Server) :
    ∃ ev, server.timer conf exiting now = { server with flushEvent := ev } := by
  unfold timer
  split
  · exact ⟨server.flushEvent, rfl⟩
  · split
    · exact ⟨server.flushEvent, rfl⟩
    · split
      · exact ⟨server.flushEvent, rfl⟩
      · exact ⟨_, rfl⟩

/-- A stat that does not fit makes the server flush. It is appended if there is
room then, and declined if there is not. -/
theorem Server.sendToBuffer_cases (net : Net) (conf : ServerConf) (exiting : Bool) (now : Nat)
    (stat : Stat Value) (server : Server) :
    (server.sendToBuffer net conf exiting now stat =
        (.declined, (server.flush net conf exiting).2) ∧
      (server.flush net conf exiting).2.bufferLeft conf < tlMetricsLen [stat]) ∨
    ∃ mid, (mid = server ∨ mid = (server.flush net conf exiting).2) ∧
      tlMetricsLen [stat] ≤ mid.bufferLeft conf ∧
      server.sendToBuffer net conf exiting now stat =
        (.ok, Server.timer conf exiting now
          { mid with buffer := mid.buffer ++ tlMetrics [stat] }) := by
  unfold sendToBuffer
  simp only
  split
  · split
    · rename_i hleft
      exact Or.inl ⟨rfl, hleft⟩
    · -- the flush made room
      rename_i hleft
      exact Or.inr ⟨_, Or.inr rfl, by omega, rfl⟩
  · rename_i hleft
    exact Or.inr ⟨server, Or.inl rfl, by omega, rfl⟩

/-! ## The calls of `ngx_send` -/

section Sends

variable {net : Net} {conf : ServerConf} {exiting : Bool} {now : Nat} {server : Server}
  {P : Sent → Prop}

/-- A flush makes at most one call, with the whole buffer, which is not empty. -/
theorem Server.forall_sends_flush (h : ∀ sent ∈ server.sends, P sent)
    (hnew : server.buffer ≠ [] → P (Sent.mk server.buffer (net.send server.sends.length))) :
    ∀ sent ∈ (server.flush net conf exiting).2.sends, P sent := by
  have hsnoc : server.buffer ≠ [] →
      ∀ sent ∈ server.sends ++ [Sent.mk server.buffer (net.send server.sends.length)], P sent := by
    intro hbuffer sent hsent
    rcases List.mem_append.mp hsent with hsent | hsent
    · exact h sent hsent
    · rw [List.mem_singleton.mp hsent]
      exact hnew hbuffer
  rcases server.flush_cases net conf exiting with ⟨rc, c, n, -, -, heq⟩ |
    ⟨c, n, hbuffer, hresult, heq⟩ | ⟨c, n, result, hbuffer, hresult, -, heq⟩
  · rw [heq]
    exact h
  · rw [heq, ← hresult]
    exact hsnoc hbuffer
  · rw [heq, hresult]
    exact hsnoc hbuffer

/-- The calls made while a stat is appended are those of its flush. -/
theorem Server.forall_sends_sendToBuffer (h : ∀ sent ∈ server.sends, P sent)
    (hnew : server.buffer ≠ [] → P (Sent.mk server.buffer (net.send server.sends.length)))
    (stat : Stat Value) :
    ∀ sent ∈ (server.sendToBuffer net conf exiting now stat).2.sends, P sent := by
  have hflush : ∀ sent ∈ (server.flush net conf exiting).2.sends, P sent :=
    forall_sends_flush h hnew
  rcases server.sendToBuffer_cases net conf exiting now stat with ⟨heq, -⟩ | ⟨mid, hmid, -, heq⟩
  · rw [heq]
    exact hflush
  · have hmid' : ∀ sent ∈ mid.sends, P sent := by
      rcases hmid with rfl | rfl
      · exact h
      · exact hflush
    obtain ⟨ev, hev⟩ := Server.timer_eq conf exiting now
      { mid with buffer := mid.buffer ++ tlMetrics [stat] }
    rw [heq, hev]
    exact hmid'

end Sends

end StatsHouse
