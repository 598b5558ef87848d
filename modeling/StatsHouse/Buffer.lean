import StatsHouse.Delivery
import StatsHouse.Lib.Memory

/-! # The buffer in memory

The writer of `ngx_statshouse_tl.c` stores bytes at `buf->last`, and the server
moves the cursors of one `ngx_buf_t`. Here both are stated on the memory itself,
with every address that is written. The list of bytes of `Server` is what lies
between `pos` and `last`: `BufServer.toServer` is a simulation, as long as the
cursors are in order and nothing is written past `end`, which every call keeps.

* `bufHistory_framing`: in every run the buffer and every payload are whole
  encodings of a segment of the appended stats, inside the memory of the buffer.
-/

namespace StatsHouse

open Memory Tiling

/-- `ngx_buf_t`: its memory from `start` to `stop` (`end` in the source) and the
bytes in use, from `pos` to `last`. -/
structure Buf where
  mem : Mem UInt8
  start : Nat
  stop : Nat
  pos : Nat
  last : Nat

/-- `ngx_create_temp_buf`, with the allocated memory as it is found. -/
def Buf.create (cell : Nat → UInt8) (start size : Nat) : Buf :=
  { mem := { cell := cell, writes := [] }
    start := start, stop := start + size, pos := start, last := start }

/-- The bytes in use. -/
def Buf.bytes (buf : Buf) : List UInt8 := buf.mem.read buf.pos (buf.last - buf.pos)

/-! ## The writer -/

/-- `buf->last = ngx_cpymem(buf->last, bytes)`. -/
def Buf.cpymem (buf : Buf) (bytes : List UInt8) : Buf :=
  { buf with mem := buf.mem.write buf.last bytes, last := buf.last + bytes.length }

/-- `ngx_statshouse_tl_string`. -/
def Buf.tlString (buf : Buf) (str : Str) : Buf :=
  let buf :=
    if str.length ≤ tlTinyStringLen then
      { buf with mem := buf.mem.write buf.last [UInt8.ofNat str.length], last := buf.last + 1 }
    else
      let mem := buf.mem.write buf.last [UInt8.ofNat tlBigStringMarker]
      let mem := mem.write (buf.last + 1) [UInt8.ofNat str.length]
      let mem := mem.write (buf.last + 2) [UInt8.ofNat (str.length >>> 8)]
      let mem := mem.write (buf.last + 3) [UInt8.ofNat (str.length >>> 16)]
      { buf with mem := mem, last := buf.last + 4 }
  let buf := buf.cpymem str
  let paddingLen := tlStringPadding str.length
  if 0 < paddingLen then buf.cpymem (List.replicate paddingLen 0) else buf

/-- `ngx_statshouse_tl_metric`. -/
def Buf.tlMetric (buf : Buf) (stat : Stat Value) : Buf :=
  let buf := buf.cpymem (tlInt32 (fieldMask stat.type))
  let buf := buf.tlString stat.name
  let buf := buf.cpymem (tlUint32 stat.keys.length)
  let buf := stat.keys.foldl (fun buf k => (buf.tlString k.name).tlString k.value) buf
  match stat.type with
  | .counter => buf.cpymem (tlDouble stat.value0)
  | .value =>
    let buf := buf.cpymem (tlUint32 stat.values.length)
    stat.values.foldl (fun buf v => buf.cpymem (tlDouble v)) buf
  | .unique =>
    let buf := buf.cpymem (tlUint32 1)
    stat.values.foldl (fun buf v => buf.cpymem (tlInt64 v)) buf

/-- `ngx_statshouse_tl_metrics`. -/
def Buf.tlMetrics (buf : Buf) (stats : List (Stat Value)) : Buf :=
  let buf := buf.cpymem (tlUint32 tlTag)
  let buf := buf.cpymem (tlUint32 0)
  let buf := buf.cpymem (tlUint32 stats.length)
  stats.foldl Buf.tlMetric buf

/-! ## What the writer writes -/

@[simp] theorem Buf.cpymem_cpymem (buf : Buf) (xs ys : List UInt8) :
    (buf.cpymem xs).cpymem ys = buf.cpymem (xs ++ ys) := by
  simp only [cpymem, Mem.write_append, List.length_append, Nat.add_assoc]

@[simp] theorem Buf.cpymem_nil (buf : Buf) : buf.cpymem [] = buf := rfl

theorem Buf.tlString_eq (buf : Buf) (str : Str) :
    buf.tlString str = buf.cpymem (StatsHouse.tlString str) := by
  have hpadding : ∀ b : Buf,
      (if 0 < tlStringPadding str.length then
        b.cpymem (List.replicate (tlStringPadding str.length) 0) else b) =
      b.cpymem (List.replicate (tlStringPadding str.length) 0) := by
    intro b
    split
    · rfl
    · rename_i h
      rw [Nat.eq_zero_of_not_pos h, List.replicate_zero, cpymem_nil]
  simp only [tlString, hpadding, StatsHouse.tlString]
  split
  · -- one length byte
    show ((buf.cpymem [_]).cpymem str).cpymem _ = _
    rw [cpymem_cpymem, cpymem_cpymem, List.append_assoc]
  · -- the marker and three length bytes
    show ((buf.cpymem [_, _, _, _]).cpymem str).cpymem _ = _
    rw [cpymem_cpymem, cpymem_cpymem, List.append_assoc]

/-- A loop of writes is one write. -/
theorem Buf.foldl_cpymem {α : Type} (f : α → List UInt8) (xs : List α) (buf : Buf) :
    xs.foldl (fun buf x => buf.cpymem (f x)) buf = buf.cpymem (xs.flatMap f) := by
  induction xs generalizing buf with
  | nil => rfl
  | cons x xs ih => rw [List.foldl_cons, ih, cpymem_cpymem, List.flatMap_cons]

theorem Buf.tlMetric_eq (buf : Buf) (stat : Stat Value) :
    buf.tlMetric stat = buf.cpymem (StatsHouse.tlMetric stat) := by
  cases hs : stat.type <;>
    simp only [tlMetric, StatsHouse.tlMetric, hs, tlString_eq, cpymem_cpymem, foldl_cpymem,
      List.append_assoc]

/-- The batch goes to the end of the bytes in use, and nowhere else. -/
theorem Buf.tlMetrics_eq (buf : Buf) (stats : List (Stat Value)) :
    buf.tlMetrics stats = buf.cpymem (StatsHouse.tlMetrics stats) := by
  have hloop : ∀ b : Buf,
      stats.foldl Buf.tlMetric b = b.cpymem (stats.flatMap StatsHouse.tlMetric) := by
    intro b
    rw [← foldl_cpymem]
    congr
    funext b stat
    exact b.tlMetric_eq stat
  simp only [tlMetrics, StatsHouse.tlMetrics, hloop, cpymem_cpymem, List.append_assoc]

/-- The writer moves `last` by what the calculator answers, a whole number of
words, for any batch. -/
theorem Buf.tlMetrics_advances (buf : Buf) (stats : List (Stat Value)) :
    (buf.tlMetrics stats).last = buf.last + tlMetricsLen stats ∧ 4 ∣ tlMetricsLen stats := by
  constructor
  · rw [tlMetrics_eq, ← length_tlMetrics]
    rfl
  · exact four_dvd_tlMetricsLen stats

/-! ## The cursors -/

/-- The cursors are in order, the buffer has its size, and every write was inside it. -/
structure Buf.Inv (buf : Buf) (size : Nat) : Prop where
  start_eq : buf.start = buf.pos
  pos_le : buf.pos ≤ buf.last
  last_le : buf.last ≤ buf.stop
  stop_eq : buf.stop = buf.start + size
  writes : buf.mem.Within buf.start buf.stop

theorem Buf.create_inv (cell : Nat → UInt8) (start size : Nat) :
    (Buf.create cell start size).Inv size := by
  constructor
  · rfl
  · exact Nat.le_refl _
  · exact Nat.le_add_right _ _
  · rfl
  · intro a ha
    cases ha

section Cursors

variable {buf : Buf} {size : Nat}

theorem Buf.length_bytes : buf.bytes.length = buf.last - buf.pos := Mem.length_read _ _ _

/-- Bytes for which there is room are written inside the buffer. -/
theorem Buf.Inv.cpymem (h : buf.Inv size) {bytes : List UInt8}
    (hroom : bytes.length ≤ buf.stop - buf.last) : (buf.cpymem bytes).Inv size := by
  rcases h with ⟨hstart, hpos, hlast, hstop, hwrites⟩
  constructor
  · exact hstart
  · exact Nat.le_trans hpos (Nat.le_add_right _ _)
  · show buf.last + bytes.length ≤ buf.stop
    omega
  · exact hstop
  · exact hwrites.write (by omega) (by omega)

/-- They are appended to the bytes in use. -/
theorem Buf.Inv.bytes_cpymem (h : buf.Inv size) (bytes : List UInt8) :
    (buf.cpymem bytes).bytes = buf.bytes ++ bytes := by
  have hpos := h.pos_le
  have hlength : buf.last + bytes.length - buf.pos = buf.last - buf.pos + bytes.length := by omega
  have hlast : buf.pos + (buf.last - buf.pos) = buf.last := by omega
  simp only [Buf.bytes, Buf.cpymem, hlength, Mem.read_add, hlast, Mem.read_write_same]
  congr 1
  apply Mem.read_write_apart
  left
  exact Nat.le_of_eq hlast

/-- Moving `last` back to `pos` forgets the bytes in use. -/
theorem Buf.Inv.reset (h : buf.Inv size) : Buf.Inv { buf with last := buf.pos } size := by
  rcases h with ⟨hstart, hpos, hlast, hstop, hwrites⟩
  constructor
  · exact hstart
  · exact Nat.le_refl _
  · exact Nat.le_trans hpos hlast
  · exact hstop
  · exact hwrites

@[simp] theorem Buf.bytes_reset : Buf.bytes { buf with last := buf.pos } = [] := by
  simp [Buf.bytes, Mem.read]

theorem Buf.bytes_eq_nil_iff : buf.bytes = [] ↔ buf.last - buf.pos = 0 := by
  rw [← List.length_eq_zero_iff, length_bytes]

end Cursors

/-! ## The server with its buffer -/

/-- The fields of `ngx_statshouse_server_t` that change, with the buffer itself. -/
structure BufServer where
  connection : Bool
  buffer : Buf
  flushEvent : Option Nat
  connects : Nat
  sends : List Sent

/-- `ngx_statshouse_server_buffer_left`. -/
def BufServer.bufferLeft (server : BufServer) : Nat := server.buffer.stop - server.buffer.last

/-- `ngx_statshouse_disconnect`. -/
def BufServer.disconnect (server : BufServer) : BufServer :=
  if server.connection then { server with connection := false } else server

/-- `ngx_statshouse_connect`. -/
def BufServer.connect (net : Net) (conf : ServerConf) (server : BufServer) : Rc × BufServer :=
  if server.connection then
    (.ok, server)
  else if conf.naddrs = 0 then
    (.error, server)
  else
    let result := net.connect server.connects
    let server := { server with connects := server.connects + 1 }
    match result with
    | .noSocket => (.error, server)
    | .noConnection => (.error, { server with connection := false })
    | .failed => (.error, BufServer.disconnect { server with connection := true })
    | .connected => (.ok, { server with connection := true })

/-- `ngx_statshouse_timer`. -/
def BufServer.timer (conf : ServerConf) (exiting : Bool) (now : Nat) (server : BufServer) :
    BufServer :=
  if conf.flush = 0 ∨ server.flushEvent.isSome then server
  else if server.buffer.last - server.buffer.pos = 0 then server
  else if exiting then server
  else { server with flushEvent := some (now + conf.flush) }

/-- The loop of `ngx_statshouse_flush` with so many retries left. -/
def BufServer.flushRetry (net : Net) (conf : ServerConf) (exiting : Bool) :
    Nat → BufServer → Rc × BufServer
  | 0, server => (.error, server)
  | retries + 1, server =>
    let res := server.connect net conf
    if res.1 ≠ .ok then
      res
    else
      let server := res.2
      let n := net.send server.sends.length
      let server := { server with sends := server.sends ++ [Sent.mk server.buffer.bytes n] }
      if n = .error then
        flushRetry net conf exiting retries server.disconnect
      else
        let server := if exiting then server.disconnect else server
        -- the bytes stay in memory and are written over
        (.ok, { server with buffer := { server.buffer with last := server.buffer.pos } })

/-- `ngx_statshouse_flush`. -/
def BufServer.flush (net : Net) (conf : ServerConf) (exiting : Bool) (server : BufServer) :
    Rc × BufServer :=
  if server.buffer.last - server.buffer.pos = 0 then (.declined, server)
  else server.flushRetry net conf exiting 1

/-- `ngx_statshouse_flush_after_request`. -/
def BufServer.flushAfterRequest (net : Net) (conf : ServerConf) (exiting : Bool)
    (server : BufServer) : Rc × BufServer :=
  if conf.flushAfterRequest then server.flush net conf exiting else (.declined, server)

/-- `ngx_statshouse_timer_handler`. -/
def BufServer.timerHandler (net : Net) (conf : ServerConf) (exiting : Bool) (now : Nat)
    (server : BufServer) : BufServer :=
  (server.flush net conf exiting).2.timer conf exiting now

/-- `ngx_statshouse_send_to_buffer`. -/
def BufServer.sendToBuffer (net : Net) (conf : ServerConf) (exiting : Bool) (now : Nat)
    (stat : Stat Value) (server : BufServer) : Rc × BufServer :=
  let size := tlMetricsLen [stat]
  let append (server : BufServer) : Rc × BufServer :=
    (.ok, BufServer.timer conf exiting now { server with buffer := server.buffer.tlMetrics [stat] })
  if server.bufferLeft < size then
    let server := (server.flush net conf exiting).2
    if server.bufferLeft < size then
      (.declined, server)
    else
      append server
  else
    append server

/-! ## It simulates the server -/

/-- The server, with the bytes in use for its buffer. -/
def BufServer.toServer (server : BufServer) : Server :=
  { connection := server.connection
    buffer := server.buffer.bytes
    flushEvent := server.flushEvent
    connects := server.connects
    sends := server.sends }

/-- A result of a function on the buffer, as one of the function on the bytes. -/
def BufServer.toResult (res : Rc × BufServer) : Rc × Server := (res.1, res.2.toServer)

section Simulation

variable {net : Net} {conf : ServerConf} {exiting : Bool} {now : Nat} {server : BufServer}

theorem BufServer.toServer_disconnect :
    server.disconnect.toServer = server.toServer.disconnect := by
  unfold disconnect Server.disconnect
  cases hc : server.connection <;> simp [toServer, hc]

theorem BufServer.toServer_connect :
    toResult (server.connect net conf) = server.toServer.connect net conf := by
  unfold connect Server.connect
  cases hc : server.connection with
  | true => simp [toResult, toServer, hc]
  | false =>
      by_cases hn : conf.naddrs = 0
      · simp [toResult, toServer, hc, hn]
      · cases hr : net.connect server.connects <;>
          simp [toResult, toServer, hc, hn, hr, disconnect, Server.disconnect]

theorem BufServer.toServer_timer :
    (server.timer conf exiting now).toServer = server.toServer.timer conf exiting now := by
  unfold timer Server.timer
  simp only [toServer, Buf.bytes_eq_nil_iff]
  split
  · rfl
  · split
    · rfl
    · split <;> rfl

/-- Connecting leaves the buffer and the log alone. -/
theorem BufServer.connect_eq (net : Net) (conf : ServerConf) (server : BufServer) :
    ∃ rc c n, server.connect net conf = (rc, { server with connection := c, connects := n }) := by
  unfold connect
  split
  · exact ⟨.ok, server.connection, server.connects, rfl⟩
  · split
    · exact ⟨.error, server.connection, server.connects, rfl⟩
    · simp only [disconnect, if_true]
      split
      · exact ⟨.error, server.connection, server.connects + 1, rfl⟩
      · exact ⟨.error, false, server.connects + 1, rfl⟩
      · exact ⟨.error, false, server.connects + 1, rfl⟩
      · exact ⟨.ok, true, server.connects + 1, rfl⟩

theorem BufServer.disconnect_eq (server : BufServer) :
    server.disconnect = { server with connection := false } := by
  unfold disconnect
  split
  · rfl
  · rename_i hc
    rw [Bool.not_eq_true] at hc
    rw [← hc]

/-- A flush keeps the buffer, or moves `last` back to `pos` and returns `NGX_OK`. -/
theorem BufServer.flush_cases (net : Net) (conf : ServerConf) (exiting : Bool)
    (server : BufServer) :
    (∃ rc c n sends, rc ≠ .ok ∧ server.flush net conf exiting =
      (rc, { server with connection := c, connects := n, sends := sends })) ∨
    ∃ c n sends, server.flush net conf exiting =
      (.ok, { server with
        connection := c, connects := n, sends := sends
        buffer := { server.buffer with last := server.buffer.pos } }) := by
  unfold flush
  split
  · exact Or.inl ⟨.declined, server.connection, server.connects, server.sends, by simp, rfl⟩
  · rcases server.connect_eq net conf with ⟨rc, c, n, hconnect⟩
    simp only [flushRetry, hconnect, disconnect_eq]
    split
    · rename_i hrc
      exact Or.inl ⟨rc, c, n, server.sends, hrc, rfl⟩
    · split
      · exact Or.inl ⟨.error, false, n, _, by simp, rfl⟩
      · right
        cases exiting
        · exact ⟨c, n, _, rfl⟩
        · exact ⟨false, n, _, rfl⟩

theorem BufServer.toServer_flush :
    toResult (server.flush net conf exiting) = server.toServer.flush net conf exiting := by
  rcases server.connect_eq net conf with ⟨rc, c, n, heq⟩
  have hconnect : server.toServer.connect net conf =
      (rc, { server.toServer with connection := c, connects := n }) := by
    rw [← toServer_connect, heq]
    rfl
  have hempty : server.toServer.buffer = [] ↔ server.buffer.last - server.buffer.pos = 0 :=
    Buf.bytes_eq_nil_iff
  unfold flush Server.flush
  simp only [hempty]
  split
  · rfl
  · simp only [flushRetry, Server.flushRetry, heq, hconnect]
    by_cases hrc : rc = .ok
    · by_cases hsend : net.send server.sends.length = .error
      · simp [toResult, toServer, hrc, hsend, disconnect_eq, Server.disconnect_eq]
      · cases exiting <;>
          simp [toResult, toServer, hrc, hsend, disconnect_eq, Server.disconnect_eq]
    · simp [toResult, toServer, hrc]

/-- The cursors are in order: the room left is that of the bytes. -/
theorem BufServer.bufferLeft_eq (h : server.buffer.Inv conf.bufferSize) :
    server.bufferLeft = server.toServer.bufferLeft conf := by
  rcases h with ⟨hstart, hpos, hlast, hstop, -⟩
  unfold bufferLeft Server.bufferLeft
  simp only [toServer, Buf.length_bytes]
  omega

theorem BufServer.inv_flush (h : server.buffer.Inv conf.bufferSize) :
    (server.flush net conf exiting).2.buffer.Inv conf.bufferSize := by
  rcases server.flush_cases net conf exiting with ⟨rc, c, n, sends, -, heq⟩ | ⟨c, n, sends, heq⟩
  · rw [heq]
    exact h
  · rw [heq]
    exact h.reset

theorem BufServer.timer_buffer : (server.timer conf exiting now).buffer = server.buffer := by
  unfold timer
  split
  · rfl
  · split
    · rfl
    · split <;> rfl

/-- A stat that does not fit makes the server flush. It is written if there is
room then, and declined if there is not. -/
theorem BufServer.sendToBuffer_cases (net : Net) (conf : ServerConf) (exiting : Bool) (now : Nat)
    (stat : Stat Value) (server : BufServer) :
    server.sendToBuffer net conf exiting now stat =
        (.declined, (server.flush net conf exiting).2) ∨
    ∃ mid, (mid = server ∨ mid = (server.flush net conf exiting).2) ∧
      tlMetricsLen [stat] ≤ mid.bufferLeft ∧
      server.sendToBuffer net conf exiting now stat =
        (.ok, BufServer.timer conf exiting now
          { mid with buffer := mid.buffer.tlMetrics [stat] }) := by
  unfold sendToBuffer
  simp only
  split
  · split
    · exact Or.inl rfl
    · rename_i hleft
      exact Or.inr ⟨_, Or.inr rfl, by omega, rfl⟩
  · rename_i hleft
    exact Or.inr ⟨server, Or.inl rfl, by omega, rfl⟩

/-- A stat is written where there is room for it, because the calculator answers
what the writer writes. -/
theorem BufServer.inv_sendToBuffer (h : server.buffer.Inv conf.bufferSize) (stat : Stat Value) :
    (server.sendToBuffer net conf exiting now stat).2.buffer.Inv conf.bufferSize := by
  rcases server.sendToBuffer_cases net conf exiting now stat with heq | ⟨mid, hmid, hroom, heq⟩
  · rw [heq]
    exact inv_flush h
  · have hinv : mid.buffer.Inv conf.bufferSize := by
      rcases hmid with rfl | rfl
      · exact h
      · exact inv_flush h
    rw [heq]
    simp only [timer_buffer, Buf.tlMetrics_eq]
    apply hinv.cpymem
    rw [length_tlMetrics]
    exact hroom

/-- A declined stat leaves no bytes: no cell is written, and `last` stays or goes
back to `pos`. -/
theorem BufServer.sendToBuffer_declined {stat : Stat Value}
    (h : (server.sendToBuffer net conf exiting now stat).1 = .declined) :
    (server.sendToBuffer net conf exiting now stat).2.buffer = server.buffer ∨
      (server.sendToBuffer net conf exiting now stat).2.buffer =
        { server.buffer with last := server.buffer.pos } := by
  rcases server.sendToBuffer_cases net conf exiting now stat with heq | ⟨mid, -, -, heq⟩
  · rw [heq]
    rcases server.flush_cases net conf exiting with ⟨rc, c, n, sends, -, hflush⟩ |
      ⟨c, n, sends, hflush⟩
    · left
      rw [hflush]
    · right
      rw [hflush]
  · rw [heq] at h
    cases h

theorem BufServer.toServer_sendToBuffer (h : server.buffer.Inv conf.bufferSize)
    (stat : Stat Value) :
    toResult (server.sendToBuffer net conf exiting now stat) =
      server.toServer.sendToBuffer net conf exiting now stat := by
  have happend : ∀ mid : BufServer, mid.buffer.Inv conf.bufferSize →
      (BufServer.timer conf exiting now
        { mid with buffer := mid.buffer.tlMetrics [stat] }).toServer =
      Server.timer conf exiting now
        { mid.toServer with buffer := mid.toServer.buffer ++ tlMetrics [stat] } := by
    intro mid hmid
    rw [toServer_timer, Buf.tlMetrics_eq]
    simp only [toServer, hmid.bytes_cpymem]
  have hflush : (server.flush net conf exiting).2.toServer =
      (server.toServer.flush net conf exiting).2 := by
    rw [← toServer_flush]
    rfl
  -- the same room on both sides, so both take the same branch, before the flush and after it
  unfold sendToBuffer Server.sendToBuffer
  simp only [bufferLeft_eq h, bufferLeft_eq (inv_flush h), ← hflush]
  split
  · split
    · rfl
    · simp only [toResult, happend _ (inv_flush h)]
  · simp only [toResult, happend _ h]

end Simulation

/-! ## Runs -/

/-- The server with its buffer and the stats it returned `NGX_OK` for. -/
structure BufHistory where
  server : BufServer
  appended : List (Stat Value)

/-- A new server, with a buffer at `start`. -/
def BufHistory.init (conf : ServerConf) (cell : Nat → UInt8) (start : Nat) : BufHistory :=
  { server :=
      { connection := false, buffer := Buf.create cell start conf.bufferSize, flushEvent := none
        connects := 0, sends := [] }
    appended := [] }

def BufHistory.step (net : Net) (conf : ServerConf) (h : BufHistory) : ServerCall → BufHistory
  | .sendToBuffer exiting now stat =>
    let res := h.server.sendToBuffer net conf exiting now stat
    { server := res.2, appended := if res.1 = .ok then h.appended ++ [stat] else h.appended }
  | .flush exiting => { h with server := (h.server.flush net conf exiting).2 }
  | .flushAfterRequest exiting =>
    { h with server := (h.server.flushAfterRequest net conf exiting).2 }
  | .timerHandler exiting now =>
    { h with
      server := BufServer.timerHandler net conf exiting now { h.server with flushEvent := none } }
  | .readHandler => { h with server := h.server.disconnect }

/-- The state a run of calls leads to from a new server. -/
def BufHistory.run (net : Net) (conf : ServerConf) (cell : Nat → UInt8) (start : Nat)
    (calls : List ServerCall) : BufHistory :=
  Run.exec (BufHistory.step net conf) (BufHistory.init conf cell start) calls

def BufHistory.toHistory (h : BufHistory) : ServerHistory :=
  { server := h.server.toServer, appended := h.appended }

theorem BufHistory.step_inv (net : Net) (conf : ServerConf) (h : BufHistory) (call : ServerCall)
    (hinv : h.server.buffer.Inv conf.bufferSize) :
    (h.step net conf call).server.buffer.Inv conf.bufferSize := by
  cases call with
  | sendToBuffer exiting now stat => exact BufServer.inv_sendToBuffer hinv stat
  | flush exiting => exact BufServer.inv_flush hinv
  | flushAfterRequest exiting =>
      simp only [step, BufServer.flushAfterRequest]
      split
      · exact BufServer.inv_flush hinv
      · exact hinv
  | timerHandler exiting now =>
      have hinv' : BufServer.buffer { h.server with flushEvent := none } |>.Inv conf.bufferSize :=
        hinv
      simp only [step, BufServer.timerHandler, BufServer.timer_buffer]
      exact BufServer.inv_flush hinv'
  | readHandler =>
      simp only [step, BufServer.disconnect_eq]
      exact hinv

/-- A call on the buffer is the call on the bytes. -/
theorem BufHistory.step_toHistory (net : Net) (conf : ServerConf) (h : BufHistory)
    (call : ServerCall) (hinv : h.server.buffer.Inv conf.bufferSize) :
    (h.step net conf call).toHistory = ServerHistory.step net conf h.toHistory call := by
  cases call with
  | sendToBuffer exiting now stat =>
      have hsim : BufServer.toResult (h.server.sendToBuffer net conf exiting now stat) =
          h.server.toServer.sendToBuffer net conf exiting now stat :=
        BufServer.toServer_sendToBuffer hinv stat
      simp only [step, ServerHistory.step, toHistory, ← hsim]
      rfl
  | flush exiting =>
      simp only [step, ServerHistory.step, toHistory, ← BufServer.toServer_flush]
      rfl
  | flushAfterRequest exiting =>
      simp only [step, ServerHistory.step, toHistory, BufServer.flushAfterRequest,
        Server.flushAfterRequest, ← BufServer.toServer_flush]
      split <;> rfl
  | timerHandler exiting now =>
      have hflush :
          (BufServer.flush net conf exiting { h.server with flushEvent := none }).2.toServer =
            (Server.flush net conf exiting { h.server.toServer with flushEvent := none }).2 :=
        congrArg Prod.snd BufServer.toServer_flush
      simp only [step, ServerHistory.step, toHistory, BufServer.timerHandler, Server.timerHandler,
        BufServer.toServer_timer, hflush]
  | readHandler =>
      simp only [step, ServerHistory.step, toHistory, Server.readHandler,
        BufServer.toServer_disconnect]

/-- Every run on the buffer is the run on the bytes, with the cursors in order. -/
theorem BufHistory.run_toHistory (net : Net) (conf : ServerConf) (cell : Nat → UInt8) (start : Nat)
    (calls : List ServerCall) :
    (BufHistory.run net conf cell start calls).server.buffer.Inv conf.bufferSize ∧
      (BufHistory.run net conf cell start calls).toHistory = ServerHistory.run net conf calls := by
  have hinit : (BufHistory.init conf cell start).toHistory = ServerHistory.init := by
    simp [BufHistory.init, toHistory, BufServer.toServer, ServerHistory.init, Server.init,
      Buf.bytes, Buf.create, Mem.read]
  unfold run ServerHistory.run
  rw [← hinit]
  exact Run.exec_simulation (step_toHistory net conf) (step_inv net conf)
    (Buf.create_inv cell start conf.bufferSize) calls

/-! ## Framing -/

/-- The buffer, and each payload given to `ngx_send`, is the encodings of a
segment of the stats `out`. -/
structure Server.Framed (server : Server) (out : List (Stat Value)) : Prop where
  buffered : ∃ stats, stats <:+ out ∧ server.buffer = tlDatagram stats
  payloads : ∀ sent ∈ server.sends, ∃ stats, stats <:+: out ∧ sent.payload = tlDatagram stats

section Framed

variable {net : Net} {conf : ServerConf} {exiting : Bool} {now : Nat} {server : Server}
  {out : List (Stat Value)}

theorem Server.Framed.flush (h : server.Framed out) :
    (server.flush net conf exiting).2.Framed out := by
  constructor
  · rcases server.flush_cases net conf exiting with ⟨rc, c, n, -, -, heq⟩ |
      ⟨c, n, -, -, heq⟩ | ⟨c, n, result, -, -, -, heq⟩
    · rw [heq]
      exact h.buffered
    · rw [heq]
      exact h.buffered
    · -- the buffer is empty
      rw [heq]
      exact ⟨[], List.nil_suffix, rfl⟩
  · apply forall_sends_flush h.payloads
    intro _
    rcases h.buffered with ⟨stats, hstats, hbuffer⟩
    exact ⟨stats, hstats.isInfix, hbuffer⟩

/-- An appended stat extends the segment in the buffer. -/
theorem Server.Framed.append (h : server.Framed out) (stat : Stat Value) (ev : Option Nat) :
    Server.Framed { server with buffer := server.buffer ++ tlMetrics [stat], flushEvent := ev }
      (out ++ [stat]) := by
  constructor
  · rcases h.buffered with ⟨stats, ⟨before, rfl⟩, hbuffer⟩
    refine ⟨stats ++ [stat], ⟨before, by rw [List.append_assoc]⟩, ?_⟩
    simp [tlDatagram, hbuffer]
  · intro sent hsent
    rcases h.payloads sent hsent with ⟨stats, hstats, hpayload⟩
    exact ⟨stats, hstats.trans (List.prefix_append out [stat]).isInfix, hpayload⟩

theorem Server.Framed.sendToBuffer (h : server.Framed out) (stat : Stat Value) :
    (server.sendToBuffer net conf exiting now stat).2.Framed
      (if (server.sendToBuffer net conf exiting now stat).1 = .ok then out ++ [stat] else out) := by
  rcases server.sendToBuffer_cases net conf exiting now stat with ⟨heq, -⟩ | ⟨mid, hmid, -, heq⟩
  · rw [heq, if_neg (by simp)]
    exact h.flush
  · have hframed : mid.Framed out := by
      rcases hmid with rfl | rfl
      · exact h
      · exact h.flush
    obtain ⟨ev, hev⟩ := Server.timer_eq conf exiting now
      { mid with buffer := mid.buffer ++ tlMetrics [stat] }
    rw [heq, if_pos rfl, hev]
    exact hframed.append stat ev

end Framed

theorem ServerHistory.step_framed (net : Net) (conf : ServerConf) (h : ServerHistory)
    (call : ServerCall) (hframed : h.server.Framed h.appended) :
    (h.step net conf call).server.Framed (h.step net conf call).appended := by
  cases call with
  | sendToBuffer exiting now stat => exact hframed.sendToBuffer stat
  | flush exiting => exact hframed.flush
  | flushAfterRequest exiting =>
      simp only [step, Server.flushAfterRequest]
      split
      · exact hframed.flush
      · exact hframed
  | timerHandler exiting now =>
      have hframed' : Server.Framed { h.server with flushEvent := none } h.appended :=
        ⟨hframed.buffered, hframed.payloads⟩
      obtain ⟨ev, hev⟩ := Server.timer_eq conf exiting now
        (Server.flush net conf exiting { h.server with flushEvent := none }).2
      simp only [step, Server.timerHandler, hev]
      exact ⟨hframed'.flush.buffered, hframed'.flush.payloads⟩
  | readHandler =>
      simp only [step, Server.readHandler, Server.disconnect_eq]
      exact ⟨hframed.buffered, hframed.payloads⟩

/-- What holds of the buffer in every state: the cursors are in order, every cell
written lies inside it, the bytes in use and every payload are whole encodings of
a segment of the appended stats, and a stat that is declined next writes nothing
and leaves at most the bytes in use. -/
structure BufHistory.Framing (net : Net) (conf : ServerConf) (h : BufHistory) : Prop where
  start_eq : h.server.buffer.start = h.server.buffer.pos
  pos_le : h.server.buffer.pos ≤ h.server.buffer.last
  last_le : h.server.buffer.last ≤ h.server.buffer.stop
  size : h.server.buffer.stop = h.server.buffer.start + conf.bufferSize
  writes : ∀ a ∈ h.server.buffer.mem.writes, h.server.buffer.start ≤ a ∧ a < h.server.buffer.stop
  buffered : ∃ stats, stats <:+: h.appended ∧ h.server.buffer.bytes = tlDatagram stats
  payloads : ∀ sent ∈ h.server.sends, ∃ stats, stats <:+: h.appended ∧
    sent.payload = tlDatagram stats
  declined : ∀ exiting now stat,
    (h.server.sendToBuffer net conf exiting now stat).1 = .declined →
      (h.server.sendToBuffer net conf exiting now stat).2.buffer = h.server.buffer ∨
        (h.server.sendToBuffer net conf exiting now stat).2.buffer =
          { h.server.buffer with last := h.server.buffer.pos }

/-- In every run, with any stats and any answers of the network, the buffer is
framed. -/
theorem bufHistory_framing (net : Net) (conf : ServerConf) (cell : Nat → UInt8) (start : Nat)
    (calls : List ServerCall) :
    (BufHistory.run net conf cell start calls).Framing net conf := by
  rcases BufHistory.run_toHistory net conf cell start calls with ⟨hinv, hrun⟩
  -- the framing is proved for the run on the bytes, which the run on the buffer simulates
  have hframed : (ServerHistory.run net conf calls).server.Framed
      (ServerHistory.run net conf calls).appended := by
    have hinit : ServerHistory.init.server.Framed ServerHistory.init.appended :=
      ⟨⟨[], List.nil_suffix, rfl⟩, by simp [ServerHistory.init, Server.init]⟩
    exact Run.exec_invariant (ServerHistory.step_framed net conf) hinit calls
  rw [← hrun] at hframed
  rcases hinv with ⟨hstart, hpos, hlast, hstop, hwrites⟩
  constructor
  · exact hstart
  · exact hpos
  · exact hlast
  · exact hstop
  · exact hwrites
  · rcases hframed.buffered with ⟨stats, hstats, hbuffer⟩
    exact ⟨stats, hstats.isInfix, hbuffer⟩
  · exact hframed.payloads
  · intro exiting now stat hdeclined
    exact BufServer.sendToBuffer_declined hdeclined

end StatsHouse
