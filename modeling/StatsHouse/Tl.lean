import StatsHouse.Lib.Codec
import StatsHouse.Stat

/-! # The TL writer

`ngx_statshouse_tl.c`: the size calculator and the writer. A writer of the
source appends at `buf->last`; here it returns the bytes it appends, so that
writing in sequence is concatenation. Numbers are copied from memory, on a
little-endian host.
-/

namespace StatsHouse

open Codec

/-- `NGX_STATSHOUSE_TL_TINY_STRING_LEN`. -/
def tlTinyStringLen : Nat := 253

/-- `NGX_STATSHOUSE_TL_BIG_STRING_MARKER`. -/
def tlBigStringMarker : Nat := 0xfe

/-- `NGX_STATSHOUSE_TL_TAG`. -/
def tlTag : Nat := 0x56580239

/-- Unary minus on a `size_t`. -/
def sizeNeg (n : Nat) : Nat := (2 ^ 64 - n % 2 ^ 64) % 2 ^ 64

/-! ## Strings -/

/-- The padding behind a string of `n` bytes. -/
def tlStringPadding (n : Nat) : Nat :=
  let len := if n ≤ tlTinyStringLen then n + 1 else n
  sizeNeg len % 4

/-- The bytes a string takes. -/
def tlStringLen (str : Str) : Nat :=
  let len := if str.length ≤ tlTinyStringLen then 1 else 4
  len + str.length + tlStringPadding str.length

/-- A string: its length in one byte, or the marker and three bytes; the string;
zeros up to a multiple of four. -/
def tlString (str : Str) : List UInt8 :=
  let header :=
    if str.length ≤ tlTinyStringLen then
      [UInt8.ofNat str.length]
    else
      [UInt8.ofNat tlBigStringMarker, UInt8.ofNat str.length, UInt8.ofNat (str.length >>> 8),
        UInt8.ofNat (str.length >>> 16)]
  header ++ str ++ List.replicate (tlStringPadding str.length) 0

/-! ## Numbers -/

def tlInt32Len : Nat := 4

def tlInt32 (n : Int) : List UInt8 := leBytes 4 (n % 2 ^ 32).toNat

def tlUint32Len : Nat := 4

def tlUint32 (n : Nat) : List UInt8 := leBytes 4 n

def tlInt64Len : Nat := 8

def tlInt64 (n : Value) : List UInt8 := leBytes 8 n.bits.toNat

def tlDoubleLen : Nat := 8

def tlDouble (n : Value) : List UInt8 := leBytes 8 n.bits.toNat

/-! ## Metrics -/

/-- The bytes of one metric. -/
def tlMetricLen (stat : Stat Value) : Nat :=
  let len := tlInt32Len
  let len := len + tlStringLen stat.name
  let len := len + tlUint32Len
  let len := stat.keys.foldl (fun len k => len + tlStringLen k.name + tlStringLen k.value) len
  match stat.type with
  | .counter => len + tlDoubleLen
  | .value => len + tlUint32Len + tlDoubleLen * stat.values.length
  | .unique => len + tlUint32Len + tlInt64Len * stat.values.length

/-- The bit of the field mask that selects the kind of a metric. -/
def fieldMask : MetricType → Nat
  | .counter => 1 <<< 0
  | .value => 1 <<< 1
  | .unique => 1 <<< 2

/-- One metric. The count word of a unique metric is the constant 1, whatever
`values_count` is. -/
def tlMetric (stat : Stat Value) : List UInt8 :=
  tlInt32 (fieldMask stat.type) ++ tlString stat.name ++ tlUint32 stat.keys.length ++
    stat.keys.flatMap (fun k => tlString k.name ++ tlString k.value) ++
    match stat.type with
    | .counter => tlDouble stat.value0
    | .value => tlUint32 stat.values.length ++ stat.values.flatMap tlDouble
    | .unique => tlUint32 1 ++ stat.values.flatMap tlInt64

/-- The bytes of a batch. -/
def tlMetricsLen (stats : List (Stat Value)) : Nat :=
  let len := tlUint32Len
  let len := len + tlUint32Len
  let len := len + tlUint32Len
  stats.foldl (fun len stat => len + tlMetricLen stat) len

/-- A batch: the tag, an empty field mask, the count and the metrics. -/
def tlMetrics (stats : List (Stat Value)) : List UInt8 :=
  tlUint32 tlTag ++ tlUint32 0 ++ tlUint32 stats.length ++ stats.flatMap tlMetric

/-! ## The calculator agrees with the writer -/

theorem sizeNeg_mod_four (n : Nat) : sizeNeg n % 4 = (4 - n % 4) % 4 := by
  unfold sizeNeg
  omega

theorem length_tlString (str : Str) : (tlString str).length = tlStringLen str := by
  by_cases h : str.length ≤ tlTinyStringLen
  · -- one length byte
    simp [tlString, tlStringLen, h]
    omega
  · -- the marker and three length bytes
    simp [tlString, tlStringLen, h]
    omega

/-- A string takes a whole number of words. -/
theorem four_dvd_tlStringLen (str : Str) : 4 ∣ tlStringLen str := by
  by_cases h : str.length ≤ tlTinyStringLen
  · simp only [tlStringLen, tlStringPadding, h, if_true, sizeNeg_mod_four]
    omega
  · simp only [tlStringLen, tlStringPadding, h, if_false, sizeNeg_mod_four]
    omega

theorem tlStringLen_le (str : Str) : tlStringLen str ≤ str.length + 7 := by
  unfold tlStringLen tlStringPadding
  split <;> simp only <;> omega

theorem length_flatMap_leBytes (k : Nat) (f : Value → Nat) (values : List Value) :
    (values.flatMap fun v => leBytes k (f v)).length = k * values.length := by
  induction values with
  | nil => rfl
  | cons v values ih =>
      rw [List.flatMap_cons, List.length_append, ih, length_leBytes, List.length_cons,
        Nat.mul_add_one, Nat.add_comm]

theorem length_flatMap_tlDouble (values : List Value) :
    (values.flatMap tlDouble).length = tlDoubleLen * values.length :=
  length_flatMap_leBytes 8 (fun v => v.bits.toNat) values

theorem length_flatMap_tlInt64 (values : List Value) :
    (values.flatMap tlInt64).length = tlInt64Len * values.length :=
  length_flatMap_leBytes 8 (fun v => v.bits.toNat) values

/-- The loop of the calculator over the keys adds what the loop of the writer writes. -/
theorem foldl_tlKeyLen (keys : List StatKey) (len : Nat) :
    keys.foldl (fun len k => len + tlStringLen k.name + tlStringLen k.value) len =
      len + (keys.flatMap fun k => tlString k.name ++ tlString k.value).length := by
  induction keys generalizing len with
  | nil => rfl
  | cons k keys ih =>
      rw [List.foldl_cons, ih, List.flatMap_cons, List.length_append, List.length_append,
        length_tlString, length_tlString]
      omega

@[simp] theorem length_tlInt32 (n : Int) : (tlInt32 n).length = tlInt32Len := length_leBytes ..

@[simp] theorem length_tlUint32 (n : Nat) : (tlUint32 n).length = tlUint32Len := length_leBytes ..

@[simp] theorem length_tlDouble (n : Value) : (tlDouble n).length = tlDoubleLen := length_leBytes ..

/-- The writer and the calculator take the same branches. -/
theorem length_tlMetric (stat : Stat Value) : (tlMetric stat).length = tlMetricLen stat := by
  cases hs : stat.type <;>
    simp only [tlMetric, tlMetricLen, hs, foldl_tlKeyLen, List.length_append, length_tlString,
      length_tlInt32, length_tlUint32, length_tlDouble, length_flatMap_tlDouble,
      length_flatMap_tlInt64] <;>
    omega

theorem four_dvd_foldl_tlKeyLen {keys : List StatKey} {len : Nat} (h : 4 ∣ len) :
    4 ∣ keys.foldl (fun len k => len + tlStringLen k.name + tlStringLen k.value) len := by
  induction keys generalizing len with
  | nil => exact h
  | cons k keys ih =>
      rw [List.foldl_cons]
      exact ih (Nat.dvd_add (Nat.dvd_add h (four_dvd_tlStringLen _)) (four_dvd_tlStringLen _))

/-- A metric takes a whole number of words: what stands around the strings does. -/
theorem four_dvd_tlMetricLen (stat : Stat Value) : 4 ∣ tlMetricLen stat := by
  have hhead : 4 ∣ tlInt32Len + tlStringLen stat.name + tlUint32Len :=
    Nat.dvd_add (Nat.dvd_add (by decide) (four_dvd_tlStringLen _)) (by decide)
  have hkeys : 4 ∣ stat.keys.foldl _ _ := four_dvd_foldl_tlKeyLen hhead
  unfold tlMetricLen
  cases stat.type <;> simp only [tlDoubleLen, tlInt64Len, tlUint32Len] at hkeys ⊢ <;> omega

theorem foldl_tlMetricLen (stats : List (Stat Value)) (len : Nat) :
    stats.foldl (fun len stat => len + tlMetricLen stat) len =
      len + (stats.flatMap tlMetric).length := by
  induction stats generalizing len with
  | nil => rfl
  | cons stat stats ih =>
      rw [List.foldl_cons, ih, List.flatMap_cons, List.length_append, length_tlMetric]
      omega

/-- A batch takes exactly the bytes the calculator answers. -/
theorem length_tlMetrics (stats : List (Stat Value)) :
    (tlMetrics stats).length = tlMetricsLen stats := by
  simp only [tlMetrics, tlMetricsLen, foldl_tlMetricLen, List.length_append, length_tlUint32]

/-- A batch takes a whole number of words. -/
theorem four_dvd_tlMetricsLen (stats : List (Stat Value)) : 4 ∣ tlMetricsLen stats := by
  have hloop : ∀ len, 4 ∣ len → 4 ∣ stats.foldl (fun len stat => len + tlMetricLen stat) len := by
    induction stats with
    | nil =>
        intro len hlen
        exact hlen
    | cons stat stats ih =>
        intro len hlen
        exact ih _ (Nat.dvd_add hlen (four_dvd_tlMetricLen stat))
  exact hloop _ (by decide)

end StatsHouse
