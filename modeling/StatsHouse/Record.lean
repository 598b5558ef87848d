import StatsHouse.Stat

/-! # Records and their identity

A record of the aggregator (`ngx_statshouse_aggregate_stat_t`), the hash and the
size by which `ngx_statshouse_aggregate` looks one up, and CRC-32 as far as the
hash depends on it. What the hash sees of a stat is one byte string, the
undelimited concatenation `hashBytes`.
-/

namespace StatsHouse

variable {V : Type}

/-! ## Records -/

/-- `ngx_statshouse_aggregate_stat_t`. The mark `retired` is a ghost: it is set
when a full record is taken out of the tree, and no function reads it. -/
structure AStat (V : Type) where
  key : Nat
  size : Nat
  time : Nat
  stat : Stat V
  retired : Bool
deriving DecidableEq, Repr

/-- `sizeof(ngx_statshouse_stat_value_t)`. -/
def sizeofStatValue : Nat := 8

/-- `sizeof(ngx_statshouse_stat_t)` on a 64-bit host: type, name, keys table, the
two counts and one value. -/
def sizeofStat : Nat := 8 + 16 + keysMax * (16 + 16) + 8 + 8 + sizeofStatValue

/-- `sizeof(ngx_statshouse_aggregate_stat_t)`: the tree node, size, time, the
queue link and the stat. -/
def sizeofAggregateStat : Nat := 40 + 8 + 8 + 16 + sizeofStat

/-! ## Offsets -/

/-- `offsetof(ngx_statshouse_aggregate_stat_t, size)`, behind the tree node. -/
def offsetofSize : Nat := 40

def offsetofTime : Nat := 48

def offsetofQueue : Nat := 56

/-- `offsetof(ngx_statshouse_aggregate_stat_t, stat.type)`: the stat comes last. -/
def offsetofType : Nat := 72

def offsetofName : Nat := 80

def offsetofKeys : Nat := 96

/-- `sizeof(ngx_statshouse_stat_key_t)`: two strings of a length and a pointer. -/
def sizeofStatKey : Nat := 32

def offsetofKeysCount : Nat := offsetofKeys + sizeofStatKey * keysMax

def offsetofValuesCount : Nat := offsetofKeysCount + 8

def offsetofValues : Nat := offsetofValuesCount + 8

/-- The numbers, for arithmetic. -/
theorem offsets :
    (offsetofSize = 40 ∧ offsetofTime = 48 ∧ offsetofQueue = 56 ∧ offsetofType = 72) ∧
      (offsetofName = 80 ∧ offsetofKeys = 96 ∧ offsetofKeysCount = 640) ∧
      (offsetofValuesCount = 648 ∧ offsetofValues = 656 ∧ sizeofAggregateStat = 664) ∧
      (sizeofStatKey = 32 ∧ sizeofStatValue = 8 ∧ keysMax = 17) := by
  decide

/-! ## Sizes -/

/-- The room the record of a stat needs. Key values are copied behind the record, and
all but a counter get room for `values` values. -/
def recordSize (values : Nat) (stat : Stat V) : Nat :=
  let size := stat.keys.foldl (fun size k => size + k.value.length) sizeofAggregateStat
  if stat.type ≠ .counter then size + sizeofStatValue * (values - 1) else size

/-- The size that is compared and allocated. It is computed in a `size_t`, and a large
number of values makes it wrap. -/
def aggregateSize (values : Nat) (stat : Stat V) : Nat := recordSize values stat % 2 ^ 64

/-- The total length of a stat's key values. -/
def valuesLength (stat : Stat V) : Nat := (stat.keys.map fun k => k.value.length).sum

/-- The slots for values: one for a counter, `values` for the others. -/
def valueSlots (values : Nat) (type : MetricType) : Nat := if type = .counter then 1 else values

theorem foldl_keySize (keys : List StatKey) (size : Nat) :
    keys.foldl (fun size k => size + k.value.length) size =
      size + (keys.map fun k => k.value.length).sum := by
  induction keys generalizing size with
  | nil => rfl
  | cons k keys ih =>
      rw [List.foldl_cons, ih, List.map_cons, List.sum_cons, Nat.add_assoc]

theorem recordSize_eq (values : Nat) (stat : Stat V) :
    recordSize values stat = sizeofAggregateStat + valuesLength stat +
      if stat.type ≠ .counter then sizeofStatValue * (values - 1) else 0 := by
  unfold recordSize valuesLength
  rw [foldl_keySize]
  split <;> rfl

/-- The record has room for its slots and its key values. -/
theorem slots_le_recordSize (values : Nat) (stat : Stat V) :
    offsetofValues + sizeofStatValue * valueSlots values stat.type + valuesLength stat ≤
      recordSize values stat := by
  have hoff := offsets
  rw [recordSize_eq]
  unfold valueSlots sizeofStatValue
  by_cases htype : stat.type = .counter
  · simp only [htype, if_true, ne_eq, not_true_eq_false, if_false]
    omega
  · simp only [htype, if_false, ne_eq, not_false_eq_true, if_true]
    omega

theorem sizeof_le_recordSize (values : Nat) (stat : Stat V) :
    sizeofAggregateStat ≤ recordSize values stat := by
  rw [recordSize_eq, Nat.add_assoc]
  exact Nat.le_add_right _ _

/-- Below `2 ^ 63`, where the allocator compares sizes as signed numbers, nothing wraps. -/
theorem aggregateSize_eq_recordSize {values : Nat} {stat : Stat V}
    (h : recordSize values stat < 2 ^ 63) : aggregateSize values stat = recordSize values stat :=
  Nat.mod_eq_of_lt (by omega)

/-- Stats of one type with records of one size have key values of one total length. -/
theorem valuesLength_eq_of_recordSize {values : Nat} {s t : Stat V} (htype : s.type = t.type)
    (h : recordSize values s = recordSize values t) : valuesLength s = valuesLength t := by
  rw [recordSize_eq, recordSize_eq, htype] at h
  omega

/-! ## The hash -/

/-- The `ngx_crc32_*` functions. They are not part of the repository; what the
code relies on is that updating piece by piece is updating with the whole. -/
structure Crc32 where
  init : UInt32
  update : UInt32 → List UInt8 → UInt32
  final : UInt32 → UInt32
  update_append : ∀ c bs cs, update c (bs ++ cs) = update (update c bs) cs

/-- The checksum of a byte string. -/
def Crc32.checksum (crc : Crc32) (bs : List UInt8) : Nat :=
  (crc.final (crc.update crc.init bs)).toNat

/-- The hash of a stat: its name, then the name and the value of each key. -/
def aggregateHash (crc : Crc32) (stat : Stat V) : Nat :=
  let hash := crc.update crc.init stat.name
  let hash := stat.keys.foldl (fun hash k => crc.update (crc.update hash k.name) k.value) hash
  (crc.final hash).toNat

/-- The bytes the hash is taken of. -/
def hashBytes (stat : Stat V) : List UInt8 :=
  stat.name ++ stat.keys.flatMap fun k => k.name ++ k.value

theorem foldl_crcUpdate (crc : Crc32) (keys : List StatKey) (bs : List UInt8) :
    keys.foldl (fun hash k => crc.update (crc.update hash k.name) k.value)
        (crc.update crc.init bs) =
      crc.update crc.init (bs ++ keys.flatMap fun k => k.name ++ k.value) := by
  induction keys generalizing bs with
  | nil => simp
  | cons k keys ih =>
      rw [List.foldl_cons, ← crc.update_append, ← crc.update_append, ih, List.flatMap_cons]
      simp only [List.append_assoc]

/-- The hash is the checksum of the undelimited concatenation. -/
theorem aggregateHash_eq (crc : Crc32) (stat : Stat V) :
    aggregateHash crc stat = crc.checksum (hashBytes stat) := by
  simp only [aggregateHash, Crc32.checksum, hashBytes, foldl_crcUpdate]

/-- Stats of one series have the same bytes. -/
theorem SameSeries.hashBytes_eq {s t : Stat V} (h : SameSeries s t) :
    hashBytes s = hashBytes t := by
  simp only [hashBytes, h.2.1, h.2.2]

/-- One byte of CRC-32, bit by bit, in the reflected form. -/
def crcByte (c : UInt32) (b : UInt8) : UInt32 :=
  let bit (c : UInt32) : UInt32 :=
    if c &&& 1 = 1 then (c >>> 1) ^^^ 0xedb88320 else c >>> 1
  bit (bit (bit (bit (bit (bit (bit (bit (c ^^^ b.toUInt32))))))))

/-- CRC-32 itself. -/
def Crc32.standard : Crc32 where
  init := 0xffffffff
  update := fun c bs => bs.foldl crcByte c
  final := fun c => c ^^^ 0xffffffff
  update_append := fun _ _ _ => List.foldl_append

/-- The check value of CRC-32, of the digits 1 to 9. -/
example : Crc32.standard.checksum [49, 50, 51, 52, 53, 54, 55, 56, 57] = 0xcbf43926 := by
  decide +kernel

end StatsHouse
