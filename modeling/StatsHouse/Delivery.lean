import StatsHouse.Lib.Run
import StatsHouse.Server
import StatsHouse.TlReader

/-! # What reaches the network

The bytes of a stat stay in the buffer until a call of `ngx_send` takes them.
`Server.Carries` is the invariant of all functions of the server: the payloads
that were released from the buffer are batches of whole stats, and with what is
still buffered they are the stats that were appended, in order.

* `delivered_iff`: the released payloads are delivered exactly when no call of
  `ngx_send` returned `NGX_AGAIN`, which empties the buffer like a full count.
-/

namespace StatsHouse

open Codec

/-! ## Payloads -/

/-- The payloads the buffer was emptied for. -/
def Server.released (server : Server) : List (List UInt8) :=
  (server.sends.filter fun sent => sent.result ≠ .error).map Sent.payload

/-- The payloads whose `ngx_send` returned the full count. -/
def Server.delivered (server : Server) : List (List UInt8) :=
  (server.sends.filter fun sent => sent.result = .full).map Sent.payload

/-- The stats `out` are in released batches or in the buffer, in order. -/
def Server.Carries (server : Server) (out : List (Stat Value)) : Prop :=
  ∃ (batches : List (List (Stat Value))) (buffered : List (Stat Value)),
    server.released = batches.map tlDatagram ∧ server.buffer = tlDatagram buffered ∧
      out = batches.flatten ++ buffered

theorem Server.init_carries : Server.init.Carries [] := ⟨[], [], rfl, rfl, rfl⟩

/-- Only the buffer and the log matter. -/
theorem Server.Carries.congr {server server' : Server} {out : List (Stat Value)}
    (h : server.Carries out) (hbuffer : server'.buffer = server.buffer)
    (hreleased : server'.released = server.released) : server'.Carries out := by
  unfold Carries
  rw [hbuffer, hreleased]
  exact h

section Carries

variable {net : Net} {conf : ServerConf} {exiting : Bool} {now : Nat} {server : Server}
  {out : List (Stat Value)}

theorem Server.Carries.flush (h : server.Carries out) :
    (server.flush net conf exiting).2.Carries out := by
  rcases server.flush_cases net conf exiting with ⟨rc, c, n, -, -, heq⟩ |
    ⟨c, n, -, -, heq⟩ | ⟨c, n, result, -, -, hresult, heq⟩
  · rw [heq]
    exact h.congr rfl rfl
  · -- a call that failed releases nothing
    rw [heq]
    exact h.congr rfl (by simp [released])
  · -- the buffer becomes the last batch
    rcases h with ⟨batches, buffered, hreleased, hbuffer, hout⟩
    rw [heq]
    refine ⟨batches ++ [buffered], [], ?_, rfl, ?_⟩
    · rw [List.map_append, ← hreleased, List.map_singleton, ← hbuffer]
      simp [released, hresult]
    · rw [hout, List.flatten_append, List.flatten_singleton, List.append_nil]

theorem Server.Carries.append (h : server.Carries out) (stat : Stat Value) (ev : Option Nat) :
    Server.Carries { server with buffer := server.buffer ++ tlMetrics [stat], flushEvent := ev }
      (out ++ [stat]) := by
  rcases h with ⟨batches, buffered, hreleased, hbuffer, hout⟩
  refine ⟨batches, buffered ++ [stat], hreleased, ?_, ?_⟩
  · simp [tlDatagram, hbuffer]
  · rw [hout, List.append_assoc]

/-- A stat is carried from the moment `sendToBuffer` returns `NGX_OK` for it. -/
theorem Server.Carries.sendToBuffer (h : server.Carries out) (stat : Stat Value) :
    (server.sendToBuffer net conf exiting now stat).2.Carries
      (if (server.sendToBuffer net conf exiting now stat).1 = .ok then out ++ [stat] else out) := by
  rcases server.sendToBuffer_cases net conf exiting now stat with ⟨heq, -⟩ | ⟨mid, hmid, -, heq⟩
  · rw [heq, if_neg (by simp)]
    exact h.flush
  · have hcarries : mid.Carries out := by
      rcases hmid with rfl | rfl
      · exact h
      · exact h.flush
    obtain ⟨ev, hev⟩ := Server.timer_eq conf exiting now
      { mid with buffer := mid.buffer ++ tlMetrics [stat] }
    rw [heq, if_pos rfl, hev]
    exact hcarries.append stat ev

end Carries

/-- No payload is empty. -/
def Server.PayloadsNonempty (server : Server) : Prop := ∀ sent ∈ server.sends, sent.payload ≠ []

section Payloads

variable {net : Net} {conf : ServerConf} {exiting : Bool} {now : Nat} {server : Server}

theorem Server.PayloadsNonempty.flush (h : server.PayloadsNonempty) :
    (server.flush net conf exiting).2.PayloadsNonempty :=
  forall_sends_flush h fun hbuffer => hbuffer

theorem Server.PayloadsNonempty.sendToBuffer (h : server.PayloadsNonempty) (stat : Stat Value) :
    (server.sendToBuffer net conf exiting now stat).2.PayloadsNonempty :=
  forall_sends_sendToBuffer h (fun hbuffer => hbuffer) stat

end Payloads

theorem tlDatagram_append (stats stats' : List (Stat Value)) :
    tlDatagram (stats ++ stats') = tlDatagram stats ++ tlDatagram stats' := List.flatMap_append

theorem flatten_map_tlDatagram (batches : List (List (Stat Value))) :
    (batches.map tlDatagram).flatten = tlDatagram batches.flatten := by
  induction batches with
  | nil => rfl
  | cons batch batches ih =>
      rw [List.map_cons, List.flatten_cons, List.flatten_cons, ih, tlDatagram_append]

/-- What was released and what is buffered is what was appended. -/
theorem Server.Carries.bytes {server : Server} {out : List (Stat Value)} (h : server.Carries out) :
    server.released.flatten ++ server.buffer = tlDatagram out := by
  rcases h with ⟨batches, buffered, hreleased, hbuffer, rfl⟩
  rw [hreleased, hbuffer, flatten_map_tlDatagram, tlDatagram_append]

/-- A released payload was delivered or taken by a call that returned `NGX_AGAIN`. -/
theorem length_released (sends : List Sent) :
    ((sends.filter fun sent => sent.result ≠ .error).map Sent.payload).flatten.length =
      ((sends.filter fun sent => sent.result = .full).map Sent.payload).flatten.length +
        ((sends.filter fun sent => sent.result = .again).map Sent.payload).flatten.length := by
  induction sends with
  | nil => rfl
  | cons sent sends ih =>
      simp only [ne_eq, decide_not] at ih
      cases hresult : sent.result <;> simp [hresult, ih] <;> omega

theorem Server.PayloadsNonempty.delivered_eq_iff {server : Server} (h : server.PayloadsNonempty) :
    server.delivered.flatten = server.released.flatten ↔
      ∀ sent ∈ server.sends, sent.result ≠ .again := by
  constructor
  · intro heq sent hsent hagain
    have hlength := length_released server.sends
    have hsame := congrArg List.length heq
    unfold delivered released at hsame
    -- the payload of that call was released, is not empty and was not delivered
    have hmem : sent.payload ∈
        (server.sends.filter fun sent => sent.result = .again).map Sent.payload :=
      List.mem_map.mpr ⟨sent, List.mem_filter.mpr ⟨hsent, by simpa using hagain⟩, rfl⟩
    have hpos : 0 < sent.payload.length := List.length_pos_of_ne_nil (h sent hsent)
    have hle := (List.sublist_flatten_of_mem hmem).length_le
    omega
  · intro hnone
    have hfilter : server.sends.filter (fun sent => sent.result = .full) =
        server.sends.filter fun sent => sent.result ≠ .error := by
      apply List.filter_congr
      intro sent hsent
      have hne := hnone sent hsent
      cases hresult : sent.result <;> simp_all
    unfold delivered released
    rw [hfilter]

/-! ## Strings of a stat

Nothing between the request and the buffer limits the length of a name or a key
but the room in the buffer.
-/

theorem Server.sendToBuffer_ok {conf : ServerConf} {stat : Stat Value} {server : Server}
    (hroom : tlMetricsLen [stat] ≤ server.bufferLeft conf) (net : Net) (exiting : Bool)
    (now : Nat) : (server.sendToBuffer net conf exiting now stat).1 = .ok := by
  unfold sendToBuffer
  simp only
  rw [if_neg (by omega)]

theorem tlMetricsLen_counter_le (name : Str) (v : Value) :
    tlMetricsLen [⟨.counter, name, [], [v]⟩] ≤ name.length + 35 := by
  have hname := tlStringLen_le name
  simp only [tlMetricsLen, tlMetricLen, List.foldl_cons, List.foldl_nil, tlUint32Len, tlInt32Len,
    tlDoubleLen]
  omega

/-- A string is read back, in front of anything, exactly when the three length
bytes of the long form hold its length. -/
theorem tlString_faithful_iff (str : Str) :
    (Reads readString (tlString str) str ∧ 4 ∣ (tlString str).length) ↔ str.length < 2 ^ 24 := by
  constructor
  · rintro ⟨hread, -⟩
    exact length_lt_of_run_readString (hread [])
  · intro hlt
    constructor
    · exact reads_tlString hlt
    · rw [length_tlString]
      exact four_dvd_tlStringLen str

/-- A buffer of 32 MiB takes a counter whose name has `2 ^ 24` bytes, and its
name is not read back. -/
theorem long_name_not_faithful :
    (Server.init.sendToBuffer ⟨fun _ => .connected, fun _ => .full⟩ ⟨1, 2 ^ 25, false, 1000, 0, 0⟩
        false 0 ⟨.counter, List.replicate (2 ^ 24) 97, [], [⟨1⟩]⟩).1 = .ok ∧
      ¬ (Reads readString (tlString (List.replicate (2 ^ 24) 97)) (List.replicate (2 ^ 24) 97) ∧
        4 ∣ (tlString (List.replicate (2 ^ 24) 97)).length) := by
  constructor
  · apply Server.sendToBuffer_ok
    have hsize := tlMetricsLen_counter_le (List.replicate (2 ^ 24) 97) ⟨1⟩
    rw [List.length_replicate] at hsize
    apply hsize.trans
    simp only [Server.bufferLeft, Server.init, List.length_nil]
    omega
  · rintro ⟨hread, -⟩
    have hlt := length_lt_of_run_readString (hread [])
    rw [List.length_replicate] at hlt
    exact absurd hlt (Nat.lt_irrefl _)

/-! ## Runs -/

/-- A call of the server, from a request, a timer or the aggregator, or an event
of its connection. nginx clears `timer_set` before it calls the timer handler. -/
inductive ServerCall where
  | sendToBuffer (exiting : Bool) (now : Nat) (stat : Stat Value)
  | flush (exiting : Bool)
  | flushAfterRequest (exiting : Bool)
  | timerHandler (exiting : Bool) (now : Nat)
  | readHandler
deriving DecidableEq, Repr

/-- The server and the stats `ngx_statshouse_send_to_buffer` returned `NGX_OK` for. -/
structure ServerHistory where
  server : Server
  appended : List (Stat Value)
deriving DecidableEq, Repr

def ServerHistory.init : ServerHistory := { server := Server.init, appended := [] }

def ServerHistory.step (net : Net) (conf : ServerConf) (h : ServerHistory) :
    ServerCall → ServerHistory
  | .sendToBuffer exiting now stat =>
    let res := h.server.sendToBuffer net conf exiting now stat
    { server := res.2, appended := if res.1 = .ok then h.appended ++ [stat] else h.appended }
  | .flush exiting => { h with server := (h.server.flush net conf exiting).2 }
  | .flushAfterRequest exiting =>
    { h with server := (h.server.flushAfterRequest net conf exiting).2 }
  | .timerHandler exiting now =>
    { h with
      server := Server.timerHandler net conf exiting now { h.server with flushEvent := none } }
  | .readHandler => { h with server := h.server.readHandler }

/-- The state a run of calls leads to from a new server. -/
def ServerHistory.run (net : Net) (conf : ServerConf) (calls : List ServerCall) : ServerHistory :=
  Run.exec (ServerHistory.step net conf) ServerHistory.init calls

/-- What every call keeps. -/
structure ServerHistory.Inv (h : ServerHistory) : Prop where
  carries : h.server.Carries h.appended
  nonempty : h.server.PayloadsNonempty

theorem ServerHistory.init_inv : ServerHistory.init.Inv :=
  ⟨Server.init_carries, by simp [Server.PayloadsNonempty, init, Server.init]⟩

theorem ServerHistory.step_inv (net : Net) (conf : ServerConf) (h : ServerHistory)
    (call : ServerCall) (hinv : h.Inv) : (h.step net conf call).Inv := by
  rcases hinv with ⟨hcarries, hne⟩
  cases call with
  | sendToBuffer exiting now stat =>
      constructor
      · exact hcarries.sendToBuffer stat
      · exact hne.sendToBuffer stat
  | flush exiting => exact ⟨hcarries.flush, hne.flush⟩
  | flushAfterRequest exiting =>
      simp only [step, Server.flushAfterRequest]
      split
      · exact ⟨hcarries.flush, hne.flush⟩
      · exact ⟨hcarries, hne⟩
  | timerHandler exiting now =>
      -- nginx has cleared the timer, which neither invariant looks at
      have hcarries' : Server.Carries { h.server with flushEvent := none } h.appended :=
        hcarries.congr rfl rfl
      have hne' : Server.PayloadsNonempty { h.server with flushEvent := none } := hne
      obtain ⟨ev, hev⟩ := Server.timer_eq conf exiting now
        (Server.flush net conf exiting { h.server with flushEvent := none }).2
      simp only [step, Server.timerHandler, hev]
      constructor
      · exact hcarries'.flush.congr rfl rfl
      · exact hne'.flush
  | readHandler =>
      simp only [step, Server.readHandler, Server.disconnect_eq]
      exact ⟨hcarries.congr rfl rfl, hne⟩

/-- In every run, the payloads that were really sent and the buffer are the
encodings of the appended stats, in order, exactly if no call of `ngx_send`
returned `NGX_AGAIN`. -/
theorem delivered_iff (net : Net) (conf : ServerConf) (calls : List ServerCall) :
    (ServerHistory.run net conf calls).server.delivered.flatten ++
        (ServerHistory.run net conf calls).server.buffer =
      tlDatagram (ServerHistory.run net conf calls).appended ↔
    ∀ sent ∈ (ServerHistory.run net conf calls).server.sends, sent.result ≠ .again := by
  have hinv : (ServerHistory.run net conf calls).Inv :=
    Run.exec_invariant (ServerHistory.step_inv net conf) ServerHistory.init_inv calls
  -- both sides end with the buffer
  rw [← hinv.carries.bytes, ← hinv.nonempty.delivered_eq_iff]
  exact List.append_left_inj _

/-- A stat is buffered and `ngx_send` returns `NGX_AGAIN`: nothing was sent, and
the buffer is empty. -/
theorem again_loses_buffer :
    (ServerHistory.run ⟨fun _ => .connected, fun _ => .again⟩ ⟨1, 4096, false, 1000, 0, 0⟩
        [.sendToBuffer false 0 ⟨.counter, [109], [], [⟨1⟩]⟩,
          .flush false]).server.delivered.flatten ++
      (ServerHistory.run ⟨fun _ => .connected, fun _ => .again⟩ ⟨1, 4096, false, 1000, 0, 0⟩
        [.sendToBuffer false 0 ⟨.counter, [109], [], [⟨1⟩]⟩, .flush false]).server.buffer ≠
      tlDatagram (ServerHistory.run ⟨fun _ => .connected, fun _ => .again⟩
        ⟨1, 4096, false, 1000, 0, 0⟩
        [.sendToBuffer false 0 ⟨.counter, [109], [], [⟨1⟩]⟩, .flush false]).appended := by
  decide +kernel

end StatsHouse
