import Mathlib.Algebra.BigOperators.Group.List.Basic
import Mathlib.Algebra.Ring.Nat
import StatsHouse.Bounds
import StatsHouse.Lib.Rounding
import StatsHouse.Tl

/-! # Unique values

A unique value is an integer where it is parsed and where it is written. In between
it is the parameter of `ngx_statshouse_stat_value_unique`, a `double`, which keeps
53 significant bits.

* `uniqueExact_iff`: the integers that arrive unchanged.
-/

namespace StatsHouse

open Codec Outcome Rounding

variable {C P ε : Type}

/-! ## The conversions -/

/-- The `int64_t` with a number below `2 ^ 63`. -/
def int64Value (n : Nat) : Value := ⟨UInt64.ofNat n⟩

/-- `(double) n`. -/
def toDouble (n : Nat) : Nat := roundSig 53 n

/-- `(int64_t) x`. For a number that is no `int64_t` C does not define the result:
it is `undefined`. -/
def toInt64 (undefined : Value) (x : Nat) : Value :=
  if x < 2 ^ 63 then int64Value x else undefined

/-- `ngx_statshouse_stat_value_unique`. -/
def statValueUnique (undefined : Value) (n : Nat) : Value := toInt64 undefined (toDouble n)

/-- The number functions with `ngx_atoi` and the conversions of a unique value. -/
def uniqueNumbers (atoi : Atoi) (base : Numbers Value) (undefined : Value) : Numbers Value :=
  { base with atoi := atoi.parse, unique := statValueUnique undefined }

theorem int64Value_inj {n m : Nat} (hn : n < 2 ^ 64) (hm : m < 2 ^ 64)
    (h : int64Value n = int64Value m) : n = m := by
  have hbits := congrArg (fun v => v.bits.toNat) h
  simp only [int64Value, UInt64.toNat_ofNat'] at hbits
  rwa [Nat.mod_eq_of_lt hn, Nat.mod_eq_of_lt hm] at hbits

/-- The conversions keep a number whatever the undefined result is, exactly if it has
at most 53 significant bits. -/
theorem statValueUnique_eq_iff {n : Nat} (hn : n < 2 ^ 63) :
    (∀ undefined, statValueUnique undefined n = int64Value n) ↔ Representable 53 n := by
  rw [← roundSig_eq_self_iff]
  unfold statValueUnique toInt64 toDouble
  constructor
  · intro h
    by_cases hlt : roundSig 53 n < 2 ^ 63
    · have heq := h default
      rw [if_pos hlt] at heq
      exact int64Value_inj (by omega) (by omega) heq
    · -- rounded to `2 ^ 63`, which is no `int64_t`
      have heq := h (int64Value (n + 1))
      rw [if_neg hlt] at heq
      have hne := int64Value_inj (by omega) (by omega) heq
      omega
  · intro h undefined
    rw [h, if_pos hn]

/-! ## The stats -/

/-- The result of `mapM` at a place where there is an element. -/
theorem getElem?_of_mapM {α β : Type} {f : α → Option β} {xs : List α} {ys : List β} {x : α}
    {j : Nat} (h : xs.mapM f = some ys) (hx : xs[j]? = some x) :
    ∃ y, f x = some y ∧ ys[j]? = some y := by
  induction xs generalizing ys j with
  | nil => cases hx
  | cons a xs ih =>
      rw [List.mapM_cons] at h
      cases ha : f a with
      | none => simp [ha] at h
      | some b =>
          cases hxs : xs.mapM f with
          | none => simp [ha, hxs] at h
          | some bs =>
              simp only [ha, hxs, Option.pure_def, Option.bind_eq_bind, Option.bind_some,
                Option.some.injEq] at h
              subst h
              cases j with
              | zero =>
                  cases hx
                  exact ⟨b, ha, rfl⟩
              | succ j =>
                  have hrest := ih hxs (by simpa using hx)
                  simpa using hrest

/-- A stat that is returned has the value of its part. -/
theorem value_of_part {V : Type} [Inhabited V] {num : Numbers V} {sp : Splitter P ε}
    {conf : Conf C} {complex : C → Option Str} {last now : Nat} {server : SplitArray V} {k j : Nat}
    {stats : List (Stat V)} {s str : Str}
    (h : (statCompile num sp conf complex last now server.splitsMax server.splits).2 =
      .ok (k, stats))
    (hs : complex conf.value.complex = some s)
    (hpart : (valueParts sp conf.value server.splitsMax s)[j]? = some str) :
    ∃ value stat, statPartValue num conf.value.type str = some value ∧ stats[j]? = some stat ∧
      stat.type = conf.value.type ∧ stat.values = [value] := by
  by_cases hreaches : ReachesValue sp conf complex last now
  · rcases Nat.eq_zero_or_pos server.splitsMax with hzero | hmax
    · -- the first value would be written outside the array
      have hsplits : server.splits = [] := by
        rw [← List.length_eq_zero_iff, server.length_splits, hzero]
      rw [hsplits, statCompile_outside hreaches] at h
      cases h
    · rw [statCompile_splits hreaches.enabled hreaches.not_limited] at h
      rcases (ends_statCompileSplits server.length_splits hmax).of_ok h with
        ⟨-, -, -, s', values, hs', hvalues, hcount, hrows⟩
      rw [hs] at hs'
      cases hs'
      rcases getElem?_of_mapM hvalues hpart with ⟨value, hvalue, hget⟩
      rcases List.getElem?_eq_some_iff.mp hget with ⟨hj, hvaluesj⟩
      have hle : values.length ≤ k := by
        rw [show k = _ from hcount]
        exact length_le_rowCount values _
      refine ⟨value, _, hvalue, hrows j (Nat.lt_of_lt_of_le hj hle), rfl, ?_⟩
      rw [row, valueAt, dif_pos hj, hvaluesj]
  · exact absurd ((statCompile_inside_of_not hreaches _ _).of_ok h) id

/-- Wherever a part of a unique metric is the string `str`, its stat holds the integer
`n` and is written with the eight bytes of `n`, whatever an undefined conversion
results in. -/
def UniqueExact (atoi : Atoi) (str : Str) (n : Nat) : Prop :=
  ∀ (undefined : Value) (base : Numbers Value) (C P ε : Type) (sp : Splitter P ε) (conf : Conf C)
    (complex : C → Option Str) (last now : Nat) (server : SplitArray Value) (k : Nat)
    (stats : List (Stat Value)) (s : Str) (j : Nat),
    conf.value.type = .unique →
    (statCompile (uniqueNumbers atoi base undefined) sp conf complex last now server.splitsMax
      server.splits).2 = .ok (k, stats) →
    complex conf.value.complex = some s →
    (valueParts sp conf.value server.splitsMax s)[j]? = some str →
    ∃ stat, stats[j]? = some stat ∧ stat.values = [int64Value n] ∧ leBytes 8 n <:+ tlMetric stat

theorem uniqueExact_of_representable {atoi : Atoi} {str : Str} {n : Nat}
    (h : atoi.parse str = some n) (hrep : Representable 53 n) : UniqueExact atoi str n := by
  intro undefined base C P ε sp conf complex last now server k stats s j htype hok hs hpart
  have hn := atoi.lt str n h
  rcases value_of_part hok hs hpart with ⟨value, stat, hvalue, hstat, htype', hvalues⟩
  have hlength : 0 < str.length := List.length_pos_of_ne_nil (atoi.ne_nil h)
  -- the part is parsed as a unique value
  have hconv : value = int64Value n := by
    rw [← (statValueUnique_eq_iff hn).mpr hrep undefined]
    rw [statPartValue, if_pos hlength, htype] at hvalue
    simp only [statParse, uniqueNumbers, h, Option.map_some, Option.some.injEq] at hvalue
    exact hvalue.symm
  refine ⟨stat, hstat, by rw [hvalues, hconv], ?_⟩
  have hbits : (int64Value n).bits.toNat = n := by
    simp only [int64Value, UInt64.toNat_ofNat']
    exact Nat.mod_eq_of_lt (by omega)
  rw [tlMetric, htype', htype, hvalues, hconv]
  refine List.suffix_append_of_suffix (List.suffix_append_of_suffix ?_)
  simp [tlInt64, hbits]

/-- A metric with a unique value and no keys makes one stat. -/
theorem statCompile_ofValue (num : Numbers Value) {str : Str} {value : Value}
    (hvalue : statPartValue num .unique str = some value) (hne : str ≠ []) :
    (statCompile num statSplitter (Conf.ofValue ⟨str, .unique, false⟩) some 0 0 1
      [Stat.init [] .unique]).2 = .ok (1, [⟨.unique, [0x6d], [], [value]⟩]) := by
  have hlength : str.length ≠ 0 := fun h => hne (List.length_eq_zero_iff.mp h)
  rw [statCompile_splits rfl (by simp [Limited, Conf.ofValue])]
  have hloop : valuesLoop num statSplitter (Conf.ofValue ⟨str, .unique, false⟩) 1 str Split.init 0
      [Stat.init [] .unique] = .ok (1, [⟨.unique, [0x6d], [], [value]⟩]) := by
    rw [valuesLoop]
    simp [valuePart, Conf.ofValue, hlength, setStat, hvalue, Stat.init, Stat.addValue, bind,
      Except.bind, pure, Except.pure]
  have hrc : testRequiredPredicates some (Conf.ofValue ⟨str, .unique, false⟩).condition = .ok := rfl
  have hkeys : evalKeys some (Conf.ofValue ⟨str, .unique, false⟩).keys =
      some (List.replicate keysMax []) := rfl
  have hcomplex : (Conf.ofValue ⟨str, .unique, false⟩).value.complex = str := rfl
  have hstart : statSplitter.start = Split.init := rfl
  unfold statCompileSplits
  simp only [hrc, hkeys]
  rw [hcomplex, hstart, hloop]
  -- no key has a name, so the loop over the keys changes nothing
  rfl

theorem not_uniqueExact {atoi : Atoi} {str : Str} {n : Nat}
    (h : atoi.parse str = some n) (hrep : ¬ Representable 53 n) : ¬ UniqueExact atoi str n := by
  intro hexact
  apply hrep
  rw [← statValueUnique_eq_iff (atoi.lt str n h)]
  intro undefined
  have hne := atoi.ne_nil h
  have hvalue : statPartValue (uniqueNumbers atoi default undefined) .unique str =
      some (statValueUnique undefined n) := by
    rw [statPartValue, if_pos (List.length_pos_of_ne_nil hne)]
    simp only [statParse, uniqueNumbers, h, Option.map_some]
  rcases hexact undefined default Str Split Fault statSplitter (Conf.ofValue ⟨str, .unique, false⟩)
    some 0 0 ⟨1, [Stat.init [] .unique], rfl⟩ 1 _ str 0 rfl (statCompile_ofValue _ hvalue hne) rfl
    rfl with ⟨stat, hstat, hvalues, -⟩
  cases hstat
  simpa using hvalues

/-- The integer a unique value is parsed to arrives unchanged exactly if it has at
most 53 significant bits, and two such integers are written differently. -/
theorem uniqueExact_iff (atoi : Atoi) (str : Str) (n : Nat) (h : atoi.parse str = some n) :
    (UniqueExact atoi str n ↔ Representable 53 n) ∧
      ∀ str' m, atoi.parse str' = some m → Representable 53 n → Representable 53 m → n ≠ m →
        ∀ undefined,
          tlInt64 (statValueUnique undefined n) ≠ tlInt64 (statValueUnique undefined m) := by
  have hn := atoi.lt str n h
  constructor
  · constructor
    · intro hexact
      by_contra hrep
      exact not_uniqueExact h hrep hexact
    · exact uniqueExact_of_representable h
  · intro str' m h' hrepn hrepm hne undefined heq
    have hm := atoi.lt str' m h'
    rw [(statValueUnique_eq_iff hn).mpr hrepn, (statValueUnique_eq_iff hm).mpr hrepm] at heq
    -- the eight bytes determine the value
    have hread : ∀ v : Value, Reads (readLe 8) (tlInt64 v) v.bits.toNat := by
      intro v
      exact reads_leBytes_of_lt v.bits.toNat_lt
    have hbits := hread (int64Value n)
    rw [heq] at hbits
    have hbits' := hbits.unique (hread (int64Value m))
    exact hne (int64Value_inj (by omega) (by omega)
      (congrArg Value.mk (UInt64.toNat_inj.mp hbits')))

/-- The digits of `2 ^ 53 + 2`, an integer with 54 bits of which the last is 0. -/
def evenDigits : Str := [57, 48, 48, 55, 49, 57, 57, 50, 53, 52, 55, 52, 48, 57, 57, 52]

theorem uniqueExact_even : UniqueExact decimal evenDigits (2 ^ 53 + 2) := by
  have hrep : Representable 53 (2 ^ 53 + 2) := by
    rw [representable_iff_dvd]
    decide +kernel
  exact (uniqueExact_iff decimal evenDigits (2 ^ 53 + 2) (by decide +kernel)).1.mpr hrep

/-- The digits of `2 ^ 53 + 1`. -/
def oddDigits : Str := [57, 48, 48, 55, 49, 57, 57, 50, 53, 52, 55, 52, 48, 57, 57, 51]

/-- `2 ^ 53 + 1` becomes the value of `2 ^ 53`. -/
theorem odd_not_uniqueExact :
    decimal.parse oddDigits = some (2 ^ 53 + 1) ∧
      ¬ UniqueExact decimal oddDigits (2 ^ 53 + 1) ∧
      ∀ undefined, statValueUnique undefined (2 ^ 53 + 1) = statValueUnique undefined (2 ^ 53) := by
  have hatoi : decimal.parse oddDigits = some (2 ^ 53 + 1) := by decide +kernel
  have hrep : ¬ Representable 53 (2 ^ 53 + 1) := by
    rw [representable_iff_dvd]
    decide +kernel
  refine ⟨hatoi, not_uniqueExact hatoi hrep, ?_⟩
  intro undefined
  have hround : roundSig 53 (2 ^ 53 + 1) = roundSig 53 (2 ^ 53) := by decide +kernel
  rw [statValueUnique, statValueUnique, toDouble, toDouble, hround]

end StatsHouse
