import Mathlib.Algebra.BigOperators.Group.List.Basic
import Mathlib.Algebra.Ring.Nat
import Mathlib.Data.List.Flatten

/-! # Stats

The data types of `ngx_statshouse_stat.h` and the return codes of nginx that the
module tests. The type of a stat's values is a parameter: the aggregator only
copies and adds them, and the TL writer instantiates it with the 8-byte union.
-/

namespace StatsHouse

/-- `ngx_str_t`: the bytes of a string, without a terminator. -/
abbrev Str := List UInt8

/-- The `ngx_int_t` codes of nginx. -/
inductive Rc where
  | ok
  | error
  | again
  | busy
  | done
  | declined
  | abort
deriving DecidableEq, Repr

/-- `ngx_statshouse_stat_type_e`. -/
inductive MetricType where
  | counter
  | value
  | unique
deriving DecidableEq, Repr

/-- The number of a metric type, which lookups compare. -/
def MetricType.num : MetricType → Nat
  | .counter => 1
  | .value => 2
  | .unique => 3

theorem MetricType.num_inj {s t : MetricType} (h : s.num = t.num) : s = t := by
  cases s <;> cases t <;> simp [MetricType.num] at h ⊢

/-- `NGX_STATSHOUSE_STAT_KEYS_MAX`: sixteen keys and the string key. -/
def keysMax : Nat := 16 + 1

/-- `ngx_statshouse_stat_value_t`: the eight bytes of a `double` or an `int64_t`. -/
structure Value where
  bits : UInt64
deriving DecidableEq, Repr

instance : Inhabited Value := ⟨⟨0⟩⟩

/-- `ngx_statshouse_stat_key_t`. -/
structure StatKey where
  name : Str
  value : Str
deriving DecidableEq, Repr

/-- `ngx_statshouse_stat_t`. The counts `keys_count` and `values_count` are the
lengths of the two lists. -/
structure Stat (V : Type) where
  type : MetricType
  name : Str
  keys : List StatKey
  values : List V
deriving DecidableEq, Repr

/-- The slot `values[0]`, which every stat has. -/
def Stat.value0 {V : Type} [Inhabited V] (stat : Stat V) : V := stat.values.headD default

/-- Two stats of one series: the same type, name and list of key pairs. -/
def SameSeries {V : Type} (s t : Stat V) : Prop :=
  s.type = t.type ∧ s.name = t.name ∧ s.keys = t.keys

instance {V : Type} (s t : Stat V) : Decidable (SameSeries s t) :=
  inferInstanceAs (Decidable (_ ∧ _))

theorem SameSeries.trans {V : Type} {s t u : Stat V} (h : SameSeries s t) (h' : SameSeries t u) :
    SameSeries s u :=
  ⟨h.1.trans h'.1, h.2.1.trans h'.2.1, h.2.2.trans h'.2.2⟩

end StatsHouse
