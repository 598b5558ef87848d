import Mathlib.Logic.Function.Basic
import StatsHouse.Alloc
import StatsHouse.Lookup

/-! # The aggregator

`ngx_statshouse_aggregate.c`: a stat is merged into the open record of its hash,
size and type, or gets a record of its own, carved from the arena and put at the
tail of the queue and into the tree; processing hands the records that are old
enough to a handler, from the head of the queue, and frees them.

The two rules at the end, `aggregateProcess_rule` and `aggregate_rule`, say once
what a call can do. The invariants of the other modules are all derived from
them, without a look at the functions.
-/

namespace StatsHouse

open Tiling

variable {V σ : Type}

/-! ## State -/

/-- The state of an `ngx_event_t` timer: the deadline it is armed for
(`timer_set`), and whether it is posted. -/
structure TimerEvent where
  timer : Option Nat
  posted : Bool
deriving DecidableEq, Repr

/-- The fields of `ngx_statshouse_aggregate_t` that are set once. -/
structure AggregateConf where
  interval : Nat
  values : Nat
deriving DecidableEq, Repr

/-- The fields of `ngx_statshouse_aggregate_t` that change. A node of the tree and
a link of the queue is the address of its record, and `mem` is what a read at an
address of the arena finds. -/
structure Aggregate (V : Type) where
  alloc : Alloc
  mem : Nat → AStat V
  rbtree : SearchTree Nat
  queue : List Nat
  timerEvent : TimerEvent

/-- What the aggregator uses from outside the repository, and what memory holds where no
record was written or where one was written over. -/
structure Env (V : Type) where
  crc : Crc32
  rb : Rbtree
  garbage : Nat → AStat V
  /-- What the record at the second address becomes when some of its bytes are among the
  blocks in which the record at the first address was written. -/
  overlay : Nat → AStat V → List Block → Nat → AStat V → AStat V

/-- CRC-32, a plain tree, and memory that reads as a record of an empty stat. -/
def sampleEnv (V : Type) : Env V where
  crc := Crc32.standard
  rb := Rbtree.plain
  garbage := fun _ => ⟨0, 0, 0, ⟨.counter, [], [], []⟩, false⟩
  overlay := fun _ _ _ _ old => old

/-- Addition of the bits, for samples in which no two counters meet. -/
@[reducible] def sampleAdd : Add Value := ⟨fun v w => ⟨v.bits + w.bits⟩⟩

/-- `ngx_statshouse_aggregate_pt`, with the state behind its `ctx`. -/
abbrev Handler (V σ : Type) := Option (Stat V) → σ → Rc × σ

/-- `ngx_statshouse_aggregate_init`: an arena of `size` bytes at `start`. -/
def aggregateInit (env : Env V) (start size : Nat) : Aggregate V :=
  { alloc := Alloc.init start size
    mem := env.garbage
    rbtree := .leaf
    queue := []
    timerEvent := { timer := none, posted := false } }

/-- Subtraction of `ngx_msec_t` values, which lie below `2 ^ 64`. -/
def msecDiff (now time : Nat) : Nat :=
  if time ≤ now then now - time else 2 ^ 64 + now - time

/-! ## Memory -/

/-- The values and the key values of the record lie in its block, one behind the other. -/
def AStat.Fits (r : AStat V) : Prop :=
  offsetofValues + sizeofStatValue * r.stat.values.length + valuesLength r.stat ≤ r.size

instance (r : AStat V) : Decidable r.Fits := inferInstanceAs (Decidable (_ ≤ _))

/-- How far the block of a record and its values reach. -/
def AStat.extent (r : AStat V) : Nat :=
  max r.size (offsetofValues + sizeofStatValue * r.stat.values.length)

/-- The bytes of `values[n]` in the record at `p`. -/
def valueBlock (p n : Nat) : Block :=
  (p + offsetofValues + sizeofStatValue * n, sizeofStatValue)

/-- The record at `p` becomes `r`, by writes in the blocks `ws`. Another record with bytes
there is no longer what it was, and neither is `r` if its parts do not fit its block. -/
def store (env : Env V) (mem : Nat → AStat V) (p : Nat) (r : AStat V) (ws : List Block) :
    Nat → AStat V := fun q =>
  if q = p then
    if r.Fits then r else env.overlay p r ws p r
  else if ∀ w ∈ ws, Apart w (q, (mem q).extent) then
    mem q
  else
    env.overlay p r ws q (mem q)

/-- The number in the eight bytes of a record at `offset`; the links, which `rbtree` and
`queue` stand for, are left out. -/
def AStat.word (bits : V → Nat) (r : AStat V) (offset : Nat) : Nat :=
  if offset = 0 then r.key
  else if offset = offsetofSize then r.size
  else if offset = offsetofTime then r.time
  else if offset = offsetofValuesCount then r.stat.values.length
  else ((r.stat.values[(offset - offsetofValues) / sizeofStatValue]?).map bits).getD 0

/-- Memory read word by word: of the key, the size, the time and the values of a record,
what lies where another record was written holds the words of that one. -/
def wordOverlay (bits : V → Nat) (ofBits : Nat → V) (p : Nat) (r : AStat V) (ws : List Block)
    (q : Nat) (old : AStat V) : AStat V :=
  let load (a word : Nat) : Nat :=
    if (∃ w ∈ ws, w.1 ≤ a ∧ a < w.1 + w.2) ∧ p ≤ a ∧
        a < p + offsetofValues + sizeofStatValue * r.stat.values.length then
      r.word bits (a - p)
    else
      word
  { old with
    key := load q old.key
    size := load (q + offsetofSize) old.size
    time := load (q + offsetofTime) old.time
    stat := { old.stat with
      values := old.stat.values.mapIdx fun n value =>
        ofBits (load (valueBlock q n).1 (bits value)) } }

/-- As `sampleEnv`, for samples in which records are written over. -/
def wordEnv (bits : V → Nat) (ofBits : Nat → V) : Env V :=
  { sampleEnv V with overlay := wordOverlay bits ofBits }

/-! ## Steps of the functions below -/

/-- `values[0].counter += counter`. -/
def AStat.addCounter [Inhabited V] [Add V] (r : AStat V) (counter : V) : AStat V :=
  { r with stat := { r.stat with values := (r.stat.value0 + counter) :: r.stat.values.tail } }

/-- `values[values_count++] = value`. -/
def AStat.appendValue (r : AStat V) (value : V) : AStat V :=
  { r with stat := { r.stat with values := r.stat.values ++ [value] } }

/-- `node.key = 0`, when the record is full. -/
def AStat.retire (r : AStat V) : AStat V := { r with key := 0, retired := true }

/-- A change of the record at `p` in place. -/
def Aggregate.modify (env : Env V) (a : Aggregate V) (p : Nat) (ws : List Block)
    (f : AStat V → AStat V) : Aggregate V :=
  { a with mem := store env a.mem p (f (a.mem p)) ws }

/-- A counter added to the record at `p`. -/
def Aggregate.addCounter [Inhabited V] [Add V] (env : Env V) (a : Aggregate V) (p : Nat)
    (counter : V) : Aggregate V :=
  a.modify env p [valueBlock p 0] (·.addCounter counter)

/-- A value appended to the record at `p`. -/
def Aggregate.appendValue (env : Env V) (a : Aggregate V) (p : Nat) (value : V) : Aggregate V :=
  a.modify env p [valueBlock p (a.mem p).stat.values.length, (p + offsetofValuesCount, 8)]
    (·.appendValue value)

/-- A full record taken out of the tree; it stays in the queue. -/
def Aggregate.retire (env : Env V) (a : Aggregate V) (p : Nat) : Aggregate V :=
  { a.modify env p [(p, 8)] (·.retire) with rbtree := env.rb.delete a.rbtree p }

/-- The record of a stat, with a copy of its keys and its first value. -/
def newRecord [Inhabited V] (stat : Stat V) (hash size now : Nat) : AStat V :=
  { key := hash
    size := size
    time := now
    stat := { type := stat.type, name := stat.name, keys := stat.keys, values := [stat.value0] }
    retired := false }

/-- A record written into a new block, the tree and the tail of the queue. -/
def Aggregate.insert (env : Env V) (a : Aggregate V) (alloc : Alloc) (p : Nat) (r : AStat V) :
    Aggregate V :=
  let mem := store env a.mem p r [(p, r.extent)]
  { a with
    alloc := alloc
    mem := mem
    rbtree := env.rb.insert mem p a.rbtree
    queue := a.queue ++ [p] }

/-- The head of the queue unlinked and freed. It is taken out of the tree if its
key is not 0. -/
def Aggregate.dropHead (env : Env V) (a : Aggregate V) (p : Nat) (rest : List Nat) :
    Aggregate V :=
  let astat := a.mem p
  { a with
    queue := rest
    rbtree := if astat.key ≠ 0 then env.rb.delete a.rbtree p else a.rbtree
    alloc := aggregateFree a.alloc p astat.size }

/-! ## The functions -/

/-- `ngx_statshouse_aggregate_timer`. `ngx_add_timer` counts from `now`, which is
`ngx_current_msec` at every call. -/
def aggregateTimer (conf : AggregateConf) (now : Nat) (a : Aggregate V) : Aggregate V :=
  if a.timerEvent.timer.isSome || a.timerEvent.posted then a
  else
    match a.queue with
    | [] => a
    | p :: _ =>
      let diff := msecDiff now (a.mem p).time
      if diff ≥ conf.interval then
        { a with timerEvent := { a.timerEvent with posted := true } }
      else
        { a with timerEvent := { a.timerEvent with timer := some (now + (conf.interval - diff)) } }

/-- The do-while loop of `ngx_statshouse_aggregate_process` over the queue; the
last component counts the records the handler took. -/
def aggregateProcessLoop (env : Env V) (conf : AggregateConf) (handler : Handler V σ)
    (flush : Bool) (now : Nat) : List Nat → Aggregate V → σ → Nat → Aggregate V × σ × Nat
  | [], a, ctx, count => (a, ctx, count)
  | p :: rest, a, ctx, count =>
    if !flush && msecDiff now (a.mem p).time < conf.interval then
      (a, ctx, count)
    else
      let res := handler (some (a.mem p).stat) ctx
      let count := if res.1 = .ok then count + 1 else count
      -- the record is dropped, whatever the handler returned
      aggregateProcessLoop env conf handler flush now rest (a.dropHead env p rest) res.2 count

/-- `ngx_statshouse_aggregate_process`; `exiting` is `ngx_terminate || ngx_exiting`. -/
def aggregateProcess (env : Env V) (conf : AggregateConf) (handler : Handler V σ)
    (exiting : Bool) (now : Nat) (a : Aggregate V) (ctx : σ) : Rc × Aggregate V × σ :=
  if a.queue = [] then
    (.declined, a, ctx)
  else
    let loop := aggregateProcessLoop env conf handler exiting now a.queue a ctx 0
    if loop.2.2 = 0 then
      (.declined, loop.1, loop.2.1)
    else
      -- the last call is without a stat, and its result is returned
      let res := handler none loop.2.1
      (res.1, loop.1, res.2)

/-- The second half of `ngx_statshouse_aggregate`: a block for the record, after
processing the queue if the arena has no room, and the record in it. -/
def aggregateCreate [Inhabited V] (env : Env V) (conf : AggregateConf) (handler : Handler V σ)
    (exiting : Bool) (stat : Stat V) (hash size now : Nat) (a : Aggregate V) (ctx : σ) :
    Rc × Aggregate V × σ :=
  match aggregateAlloc a.alloc size with
  | some (p, alloc) =>
    (.ok, aggregateTimer conf now (a.insert env alloc p (newRecord stat hash size now)), ctx)
  | none =>
    let res := aggregateProcess env conf handler exiting now a ctx
    if res.1 ≠ .ok then
      -- also when the queue was empty, with the arena as it is
      res
    else
      match aggregateAlloc res.2.1.alloc size with
      | some (p, alloc) =>
        (.ok, aggregateTimer conf now (res.2.1.insert env alloc p (newRecord stat hash size now)),
          res.2.2)
      | none => (.declined, res.2.1, res.2.2)

/-- `ngx_statshouse_aggregate`. -/
def aggregate [Inhabited V] [Add V] (env : Env V) (conf : AggregateConf)
    (handler : Handler V σ) (exiting : Bool) (stat : Stat V) (now : Nat) (a : Aggregate V)
    (ctx : σ) : Rc × Aggregate V × σ :=
  if stat.type ≠ .counter ∧ conf.values = 0 then
    (.declined, a, ctx)
  else if exiting then
    (.declined, a, ctx)
  else
    let hash := aggregateHash env.crc stat
    let size := aggregateSize conf.values stat
    match aggregateLookup a.mem hash size stat.type a.rbtree with
    | some p =>
      if stat.type = .counter then
        (.ok, a.addCounter env p stat.value0, ctx)
      else if (a.mem p).stat.values.length < conf.values then
        (.ok, a.appendValue env p stat.value0, ctx)
      else
        -- full: the stat starts another record, and lookups find that one
        aggregateCreate env conf handler exiting stat hash size now (a.retire env p) ctx
    | none => aggregateCreate env conf handler exiting stat hash size now a ctx

/-- `ngx_statshouse_aggregate_timer_handler`. -/
def aggregateTimerHandler (env : Env V) (conf : AggregateConf) (handler : Handler V σ)
    (exiting : Bool) (now : Nat) (a : Aggregate V) (ctx : σ) : Aggregate V × σ :=
  let res := aggregateProcess env conf handler exiting now a ctx
  (aggregateTimer conf now res.2.1, res.2.2)

/-! ## What the small steps leave alone -/

@[simp] theorem Aggregate.dropHead_mem (env : Env V) (a : Aggregate V) (p : Nat)
    (rest : List Nat) : (a.dropHead env p rest).mem = a.mem := rfl

@[simp] theorem Aggregate.dropHead_queue (env : Env V) (a : Aggregate V) (p : Nat)
    (rest : List Nat) : (a.dropHead env p rest).queue = rest := rfl

@[simp] theorem Aggregate.insert_queue (env : Env V) (a : Aggregate V) (alloc : Alloc) (p : Nat)
    (r : AStat V) : (a.insert env alloc p r).queue = a.queue ++ [p] := rfl

/-- The timer function changes nothing but the timer. -/
theorem aggregateTimer_eq (conf : AggregateConf) (now : Nat) (a : Aggregate V) :
    ∃ ev, aggregateTimer conf now a = { a with timerEvent := ev } := by
  unfold aggregateTimer
  split
  · exact ⟨a.timerEvent, rfl⟩
  · split
    · exact ⟨a.timerEvent, rfl⟩
    · simp only
      split
      · exact ⟨_, rfl⟩
      · exact ⟨_, rfl⟩

/-! ## The rules -/

/-- The record is handed over by a call of `process`: the worker exits, or the
record has reached the interval. -/
def Expired (conf : AggregateConf) (exiting : Bool) (now : Nat) (r : AStat V) : Prop :=
  exiting = true ∨ conf.interval ≤ msecDiff now r.time

instance (conf : AggregateConf) (exiting : Bool) (now : Nat) (r : AStat V) :
    Decidable (Expired conf exiting now r) := inferInstanceAs (Decidable (_ ∨ _))

/-- The lookup of a stat's hash, size and type answers `p`. -/
def Found (env : Env V) (conf : AggregateConf) (a : Aggregate V) (stat : Stat V) (p : Nat) :
    Prop :=
  aggregateLookup a.mem (aggregateHash env.crc stat) (aggregateSize conf.values stat) stat.type
    a.rbtree = some p

/-- The stat gets as far as the hash: it is declined neither for its type nor
because the worker exits. -/
def Admitted (conf : AggregateConf) (exiting : Bool) (stat : Stat V) : Prop :=
  (stat.type = .counter ∨ conf.values ≠ 0) ∧ exiting = false

instance (conf : AggregateConf) (exiting : Bool) (stat : Stat V) :
    Decidable (Admitted conf exiting stat) := inferInstanceAs (Decidable (_ ∧ _))

/-- What the code takes from the data of the stat means what it is used for: the hash is
not 0, the mark of a record that is not in the tree, and the size does not wrap. -/
def Regular (env : Env V) (conf : AggregateConf) (stat : Stat V) : Prop :=
  aggregateHash env.crc stat ≠ 0 ∧ recordSize conf.values stat < 2 ^ 63

instance (env : Env V) (conf : AggregateConf) (stat : Stat V) :
    Decidable (Regular env conf stat) := inferInstanceAs (Decidable (_ ∧ _))

/-- A property of the three results of a call. -/
def Post (Q : Rc → Aggregate V → σ → Prop) (res : Rc × Aggregate V × σ) : Prop :=
  Q res.1 res.2.1 res.2.2

section Rules

variable {env : Env V} {conf : AggregateConf} {handler : Handler V σ} {exiting : Bool}
  {now : Nat} {K : Aggregate V → σ → Prop} {Q : Rc → Aggregate V → σ → Prop}

theorem aggregateProcessLoop_rule
    (hdrop : ∀ a ctx p rest, K a ctx → a.queue = p :: rest → Expired conf exiting now (a.mem p) →
      K (a.dropHead env p rest) (handler (some (a.mem p).stat) ctx).2)
    (queue : List Nat) {a : Aggregate V} {ctx : σ} (count : Nat) (hqueue : a.queue = queue)
    (h : K a ctx) :
    K (aggregateProcessLoop env conf handler exiting now queue a ctx count).1
      (aggregateProcessLoop env conf handler exiting now queue a ctx count).2.1 := by
  induction queue generalizing a ctx count with
  | nil => exact h
  | cons p rest ih =>
      simp only [aggregateProcessLoop]
      split
      · -- a head that is too young stops the loop
        exact h
      · rename_i hold
        have hexpired : Expired conf exiting now (a.mem p) := by
          cases exiting
          · exact Or.inr (by simpa using hold)
          · exact Or.inl rfl
        exact ih _ rfl (hdrop a ctx p rest h hqueue hexpired)

/-- Processing keeps what handing one expired head over keeps, and what the
handler's final call keeps. -/
theorem aggregateProcess_rule
    (hdrop : ∀ a ctx p rest, K a ctx → a.queue = p :: rest → Expired conf exiting now (a.mem p) →
      K (a.dropHead env p rest) (handler (some (a.mem p).stat) ctx).2)
    (hnull : ∀ a ctx, K a ctx → K a (handler none ctx).2)
    {a : Aggregate V} {ctx : σ} (h : K a ctx) :
    Post (fun _ => K) (aggregateProcess env conf handler exiting now a ctx) := by
  have hloop := aggregateProcessLoop_rule hdrop a.queue 0 rfl h
  unfold aggregateProcess
  split
  · exact h
  · simp only
    split
    · exact hloop
    · exact hnull _ _ hloop

/-- Creating a record keeps `K` while it processes the queue, and ends with a
refusal or with the record inserted. -/
theorem aggregateCreate_rule [Inhabited V] {stat : Stat V} {hash size : Nat}
    (hdrop : ∀ a ctx p rest, K a ctx → a.queue = p :: rest → Expired conf exiting now (a.mem p) →
      K (a.dropHead env p rest) (handler (some (a.mem p).stat) ctx).2)
    (hnull : ∀ a ctx, K a ctx → K a (handler none ctx).2)
    (hfail : ∀ rc a ctx, rc ≠ .ok → K a ctx → Q rc a ctx)
    (hinsert : ∀ a ctx p alloc, K a ctx → aggregateAlloc a.alloc size = some (p, alloc) →
      Q .ok (aggregateTimer conf now (a.insert env alloc p (newRecord stat hash size now))) ctx)
    {a : Aggregate V} {ctx : σ} (h : K a ctx) :
    Post Q (aggregateCreate env conf handler exiting stat hash size now a ctx) := by
  unfold aggregateCreate
  split
  · rename_i p alloc hp
    exact hinsert _ _ _ _ h hp
  · -- no room: the queue is processed and the allocation tried once more
    have hprocess := aggregateProcess_rule hdrop hnull h
    simp only
    split
    · rename_i hrc
      exact hfail _ _ _ hrc hprocess
    · split
      · rename_i p alloc hp
        exact hinsert _ _ _ _ hprocess hp
      · exact hfail _ _ _ (fun h => by cases h) hprocess

/-- What a call of `aggregate` can do: decline, add to the record the lookup
finds, or create a record, after retiring the one found if that is full. -/
theorem aggregate_rule [Inhabited V] [Add V] {stat : Stat V} {a : Aggregate V} {ctx : σ}
    (hdecline : Q .declined a ctx)
    (hcounter : Admitted conf exiting stat → ∀ p, Found env conf a stat p →
      stat.type = .counter → Q .ok (a.addCounter env p stat.value0) ctx)
    (happend : Admitted conf exiting stat → ∀ p, Found env conf a stat p →
      stat.type ≠ .counter → (a.mem p).stat.values.length < conf.values →
      Q .ok (a.appendValue env p stat.value0) ctx)
    (hretire : Admitted conf exiting stat → ∀ p, Found env conf a stat p →
      stat.type ≠ .counter → conf.values ≤ (a.mem p).stat.values.length →
      K (a.retire env p) ctx)
    (hnone : Admitted conf exiting stat → (∀ p, ¬ Found env conf a stat p) → K a ctx)
    (hdrop : ∀ a ctx p rest, K a ctx → a.queue = p :: rest → Expired conf exiting now (a.mem p) →
      K (a.dropHead env p rest) (handler (some (a.mem p).stat) ctx).2)
    (hnull : ∀ a ctx, K a ctx → K a (handler none ctx).2)
    (hfail : ∀ rc a ctx, rc ≠ .ok → K a ctx → Q rc a ctx)
    (hinsert : Admitted conf exiting stat → ∀ a ctx p alloc, K a ctx →
      aggregateAlloc a.alloc (aggregateSize conf.values stat) = some (p, alloc) →
      Q .ok (aggregateTimer conf now (a.insert env alloc p (newRecord stat
        (aggregateHash env.crc stat) (aggregateSize conf.values stat) now))) ctx) :
    Post Q (aggregate env conf handler exiting stat now a ctx) := by
  unfold aggregate
  split
  · exact hdecline
  · rename_i hvalues
    split
    · exact hdecline
    · rename_i hexiting
      have hadm : Admitted conf exiting stat := by
        constructor
        · by_cases htype : stat.type = .counter
          · exact Or.inl htype
          · exact Or.inr fun h0 => hvalues ⟨htype, h0⟩
        · simpa using hexiting
      simp only
      split
      · rename_i p hp
        split
        · rename_i htype
          exact hcounter hadm p hp htype
        · rename_i htype
          split
          · rename_i hroom
            exact happend hadm p hp htype hroom
          · -- full: the record is retired before the new one is created
            rename_i hfull
            exact aggregateCreate_rule hdrop hnull hfail (hinsert hadm)
              (hretire hadm p hp htype (by omega))
      · rename_i hp
        refine aggregateCreate_rule hdrop hnull hfail (hinsert hadm) (hnone hadm ?_)
        intro p hfound
        rw [Found, hp] at hfound
        cases hfound

end Rules

end StatsHouse
