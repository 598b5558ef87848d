import StatsHouse.Lib.Outcome
import StatsHouse.Splitter

/-! # Compiling a metric

`ngx_statshouse_stat_compile`: from the values of the variables in a metric's
configuration it makes stats in an array of the caller. A value or a key that is
split makes one stat for each of its items.

An early end of the function is an `Halt`: a `return`, a fault in the splitter,
or an access outside the array, after which nothing more is said.
-/

namespace StatsHouse

open Outcome

variable {C V P ε : Type}

/-! ## Configuration -/

/-- `ngx_statshouse_conf_value_t`. `C` is the type of what `complex` points to. -/
structure ConfValue (C : Type) where
  complex : C
  type : MetricType
  split : Bool

/-- `ngx_statshouse_conf_key_t`. -/
structure ConfKey (C : Type) where
  complex : C
  name : Str
  split : Bool
  disable : Bool

/-- `ngx_statshouse_conf_t`, without `last`. -/
structure Conf (C : Type) where
  name : Str
  condition : Option (List C)
  timeout : Nat
  disable : Bool
  value : ConfValue C
  keys : List (ConfKey C)
  length_keys : keys.length = keysMax

/-- A metric "m" with a value and without keys, condition and timeout. -/
def Conf.ofValue (value : ConfValue Str) : Conf Str :=
  { name := [0x6d], condition := none, timeout := 0, disable := false, value := value
    keys := List.replicate keysMax ⟨[], [], false, false⟩, length_keys := rfl }

/-- The number functions: `ngx_atoi` and `ngx_atofp`, which answer `none` for
`NGX_ERROR`, and `ngx_statshouse_stat_value_*`, which convert to a value. -/
structure Numbers (V : Type) where
  atoi : Str → Option Nat
  atofp : Str → Nat → Option Nat
  zero : V
  counter : Nat → V
  value : Nat → V
  nvalue : Nat → V
  unique : Nat → V
deriving Inhabited

/-- What is relied on of `ngx_atoi`, which answers `none` for `NGX_ERROR`: it reads decimal
digits, at least one, and the result is an `ngx_int_t`. -/
structure Atoi where
  parse : Str → Option Nat
  nil : parse [] = none
  digit : ∀ b rest, ¬ (0x30 ≤ b ∧ b ≤ 0x39) → parse (b :: rest) = none
  lt : ∀ line n, parse line = some n → n < 2 ^ 63

theorem Atoi.ne_nil (atoi : Atoi) {line : Str} {n : Nat} (h : atoi.parse line = some n) :
    line ≠ [] := by
  rintro rfl
  rw [atoi.nil] at h
  cases h

/-- A number in decimal digits. -/
def readDecimal (line : Str) : Option Nat :=
  if line = [] ∨ ¬ line.all (fun b => 0x30 ≤ b ∧ b ≤ 0x39) then none
  else
    let value := line.foldl (fun value b => value * 10 + (b.toNat - 0x30)) 0
    if value < 2 ^ 63 then some value else none

/-- For samples. -/
def decimal : Atoi where
  parse := readDecimal
  nil := rfl
  digit := by
    intro b rest hb
    simp [readDecimal, hb]
  lt := by
    intro line n h
    unfold readDecimal at h
    split at h
    · cases h
    · simp only at h
      split at h
      · rename_i hlt
        cases h
        exact hlt
      · cases h

/-- Exact values, and of the numbers with a decimal point only the whole ones. -/
def wholeNumbers : Numbers Int where
  atoi := decimal.parse
  atofp := fun line point => (decimal.parse line).map (· * 10 ^ point)
  zero := 0
  counter := fun n => n
  value := fun n => n / 10 ^ 8
  nvalue := fun n => -(n / 10 ^ 8)
  unique := fun n => n

/-- The splitter as its caller sees it: the variables of a caller before the first
call, and a call, which finds an item or null. -/
structure Splitter (P ε : Type) where
  start : P
  part : Str → P → Except ε (Option (Str × P))

/-- `ngx_statshouse_stat_part`. -/
def statSplitter : Splitter Split Fault where
  start := Split.init
  part := fun str split => do
    match ← statPart str split with
    | none => pure none
    | some split => pure (some (split.str, split))

/-! ## The functions -/

/-- An early end. `outside k` is an access to `stats[k]` outside the array. -/
inductive Halt (ε : Type) where
  | ret (rc : Rc)
  | splitter (fault : ε)
  | outside (k : Nat)
deriving DecidableEq, Repr

/-- `ngx_statshouse_stat_init`. -/
def Stat.init (name : Str) (type : MetricType) : Stat V :=
  { type := type, name := name, keys := [], values := [] }

/-- `ngx_statshouse_stat_value`. -/
def Stat.addValue (stat : Stat V) (value : V) : Stat V :=
  { stat with values := stat.values ++ [value] }

/-- `ngx_statshouse_stat_key`. -/
def Stat.addKey (stat : Stat V) (name value : Str) : Stat V :=
  { stat with keys := stat.keys ++ [StatKey.mk name value] }

/-- `stats[k]`. -/
def statAt (stats : List (Stat V)) (k : Nat) : Except (Halt ε) (Stat V) :=
  match stats[k]? with
  | some stat => .ok stat
  | none => .error (.outside k)

/-- A write to `stats[k]`. -/
def setStat (stats : List (Stat V)) (k : Nat) (f : Stat V → Stat V) :
    Except (Halt ε) (List (Stat V)) :=
  if k < stats.length then .ok (stats.modify k f) else .error (.outside k)

/-- `ngx_statshouse_is_empty`. -/
def statIsEmpty (str : Str) : Bool := str.length = 0 || str = [dash] || str = [0x30]

/-- The loop of `ngx_statshouse_test_required_predicates`. -/
def testPredicates (complex : C → Option Str) : List C → Rc
  | [] => .ok
  | predicate :: predicates =>
    match complex predicate with
    | none => .error
    | some val =>
      if val.length = 0 ∨ val = [0x30] then .declined else testPredicates complex predicates

/-- `ngx_statshouse_test_required_predicates`. -/
def testRequiredPredicates (complex : C → Option Str) (predicates : Option (List C)) : Rc :=
  match predicates with
  | none => .ok
  | some predicates => testPredicates complex predicates

/-- The first loop: the string of each key that has a name and is not disabled. -/
def evalKeys (complex : C → Option Str) : List (ConfKey C) → Option (List Str)
  | [] => some []
  | key :: keys =>
    if key.disable then (evalKeys complex keys).map ([] :: ·)
    else if key.name.length = 0 then (evalKeys complex keys).map ([] :: ·)
    else
      match complex key.complex with
      | none => none
      | some str => (evalKeys complex keys).map (str :: ·)

/-- The value of a part that is not empty, by the type of the metric. -/
def statParse (num : Numbers V) (type : MetricType) (split : Str) : Option V :=
  match type with
  | .counter => (num.atoi split).map num.counter
  | .value =>
    if split.head? = some dash then (num.atofp split.tail 8).map num.nvalue
    else (num.atofp split 8).map num.value
  | .unique => (num.atoi split).map num.unique

/-- The value of a part. -/
def statPartValue (num : Numbers V) (type : MetricType) (split : Str) : Option V :=
  if 0 < split.length then statParse num type split else some num.zero

/-- The part the value loop takes next, or `none` where it breaks. -/
def valuePart (sp : Splitter P ε) (value : ConfValue C) (s : Str) (p : P) :
    Except (Halt ε) (Option (Str × P)) :=
  if value.split then
    match sp.part s p with
    | .error fault => .error (.splitter fault)
    | .ok part => .ok part
  else if s.length = 0 then .ok none
  else .ok (some (s, p))

/-- The value loop, at the entry of its body. -/
def valuesLoop (num : Numbers V) (sp : Splitter P ε) (conf : Conf C) (max : Nat) (s : Str)
    (p : P) (splits : Nat) (stats : List (Stat V)) : Except (Halt ε) (Nat × List (Stat V)) := do
  match ← valuePart sp conf.value s p with
  | none => pure (splits, stats)
  | some (split, p) =>
    let stats ← setStat stats splits fun _ => Stat.init conf.name conf.value.type
    match statPartValue num conf.value.type split with
    | none => throw (.ret .error)
    | some value =>
      let stats ← setStat stats splits (·.addValue value)
      -- a do-while: nothing before this compares `splits` with `max`
      if conf.value.split ∧ splits + 1 < max then
        valuesLoop num sp conf max s p (splits + 1) stats
      else
        pure (splits + 1, stats)
termination_by max - splits

/-- The keys before the current one that a new stat gets. -/
def backfill (before : List (ConfKey C × Str)) (stat : Stat V) : Stat V :=
  before.foldl (fun stat key =>
    if key.1.name.length = 0 ∨ key.1.split ∨ statIsEmpty key.2 then stat
    else stat.addKey key.1.name key.2) stat

/-- The value of a new stat. -/
def newSplitValue [Inhabited V] (num : Numbers V) (conf : Conf C) (stats : List (Stat V)) :
    Except (Halt ε) V :=
  if conf.value.split then pure num.zero
  else do
    let stat ← statAt stats 0
    pure stat.value0

/-- `init new splits` in the source: a new stat with a value and the keys so far. -/
def newSplit [Inhabited V] (num : Numbers V) (conf : Conf C) (before : List (ConfKey C × Str))
    (j : Nat) (stats : List (Stat V)) : Except (Halt ε) (List (Stat V)) := do
  let stats ← setStat stats j fun _ => Stat.init conf.name conf.value.type
  let value ← newSplitValue num conf stats
  setStat stats j fun stat => backfill before (stat.addValue value)

/-- The loop over the items of a split key. -/
def splitKeyLoop [Inhabited V] (num : Numbers V) (sp : Splitter P ε) (conf : Conf C) (max : Nat)
    (before : List (ConfKey C × Str)) (name str : Str) (splits : Nat) (p : P) (j : Nat)
    (stats : List (Stat V)) : Except (Halt ε) (Nat × List (Stat V)) :=
  if j < max then
    match sp.part str p with
    | .error fault => .error (.splitter fault)
    | .ok none => pure (j, stats)
    | .ok (some (split, p)) => do
      -- behind the stats there are, the item starts a new one
      let stats ← (if splits ≤ j then newSplit num conf before j stats else pure stats)
      let stats ← setStat stats j (·.addKey name split)
      splitKeyLoop num sp conf max before name str splits p (j + 1) stats
  else pure (j, stats)
termination_by max - j

/-- The loop that adds a key that is not split to the first `splits` stats. -/
def plainKeyLoop (name str : Str) (splits : Nat) (stats : List (Stat V)) :
    Except (Halt ε) (List (Stat V)) :=
  (List.range splits).foldlM (fun stats j => setStat stats j (·.addKey name str)) stats

/-- The loop over the keys, with those before the current one. -/
def keysLoop [Inhabited V] (num : Numbers V) (sp : Splitter P ε) (conf : Conf C) (max : Nat) :
    List (ConfKey C × Str) → List (ConfKey C × Str) → Nat → List (Stat V) →
      Except (Halt ε) (Nat × List (Stat V))
  | _, [], splits, stats => pure (splits, stats)
  | before, (key, str) :: keys, splits, stats =>
    if statIsEmpty str then
      keysLoop num sp conf max (before ++ [(key, str)]) keys splits stats
    else if key.split then do
      let (j, stats) ←
        splitKeyLoop num sp conf max before key.name str splits sp.start 0 stats
      -- the longest column decides the number of stats
      let splits := if splits < j then j else splits
      keysLoop num sp conf max (before ++ [(key, str)]) keys splits stats
    else do
      let stats ← plainKeyLoop key.name str splits stats
      keysLoop num sp conf max (before ++ [(key, str)]) keys splits stats

/-- `ngx_statshouse_stat_compile` behind the timeout. -/
def statCompileSplits [Inhabited V] (num : Numbers V) (sp : Splitter P ε) (conf : Conf C)
    (complex : C → Option Str) (max : Nat) (stats : List (Stat V)) :
    Except (Halt ε) (Nat × List (Stat V)) :=
  let rc := testRequiredPredicates complex conf.condition
  if rc ≠ .ok then throw (.ret rc)
  else
    match complex conf.value.complex with
    | none => throw (.ret .error)
    | some s =>
      match evalKeys complex conf.keys with
      | none => throw (.ret .error)
      | some keys => do
        let (splits, stats) ← valuesLoop num sp conf max s sp.start 0 stats
        if splits = 0 then throw (.ret .declined)
        else keysLoop num sp conf max [] (conf.keys.zip keys) splits stats

/-- The rate limit declines: `conf->last` is set and the timeout is not over. The sum is one
of `time_t`, and the directive takes a timeout that it wraps for. -/
def Limited (conf : Conf C) (last now : Nat) : Prop :=
  conf.timeout ≠ 0 ∧ last ≠ 0 ∧ (now : Int) < ((last + conf.timeout : Nat) : Int).bmod (2 ^ 64)

instance (conf : Conf C) (last now : Nat) : Decidable (Limited conf last now) :=
  inferInstanceAs (Decidable (_ ∧ _))

theorem Limited.lt {conf : Conf C} {last now : Nat} (h : Limited conf last now) :
    now < last + conf.timeout := by
  have hsum := h.2.2
  rw [Int.bmod_def] at hsum
  split at hsum <;> omega

/-- A time to which the timeout can be added is limited like one of the natural numbers. -/
theorem limited_of_lt {conf : Conf C} {last now : Nat} (hfits : last + conf.timeout < 2 ^ 63)
    (htimeout : conf.timeout ≠ 0) (hlast : last ≠ 0) (h : now < last + conf.timeout) :
    Limited conf last now := by
  refine ⟨htimeout, hlast, ?_⟩
  rw [Int.bmod_eq_of_le (by omega) (by omega)]
  exact_mod_cast h

/-- `ngx_statshouse_stat_compile`, with `conf->last` and the time. The new
`conf->last` comes with the result: the number of stats and the array. -/
def statCompile [Inhabited V] (num : Numbers V) (sp : Splitter P ε) (conf : Conf C)
    (complex : C → Option Str) (last now max : Nat) (stats : List (Stat V)) :
    Nat × Except (Halt ε) (Nat × List (Stat V)) :=
  if conf.disable then (last, .error (.ret .declined))
  else if Limited conf last now then (last, .error (.ret .declined))
  else
    -- set before the predicates are tested, and whatever comes of the call
    let last := if conf.timeout ≠ 0 then now else last
    (last, statCompileSplits num sp conf complex max stats)

end StatsHouse
