import StatsHouse.Aggregate
import StatsHouse.Lib.Codec
import StatsHouse.Lib.Memory

/-! # The layout of a record

A record in the memory of the arena: where `ngx_statshouse_aggregate` puts the
fields, the table of keys, the values and the bytes of the key values, and what the
merges, the tree and the queue write later. The size is computed in one place, the
start of the key bytes in another and the bound for `values[]` in a third; here they
meet. `RecordAt` says that memory holds a record of the aggregator's model, which
makes `newRecord`, `addCounter` and `appendValue` what the writes below do.

* `writeRecord_recordAt`, `writeRecord_within`: a new record is what the model says, and
  no write leaves its block.
-/

namespace StatsHouse

open Codec Memory Tiling

/-! ## The writes -/

/-- An `ngx_str_t`: the length and the pointer. -/
def strBytes (len data : Nat) : List UInt8 := leBytes 8 len ++ leBytes 8 data

/-- An `ngx_statshouse_stat_value_t`. -/
def valueBytes (value : Value) : List UInt8 := leBytes 8 value.bits.toNat

/-- The first byte behind the values, where the key values are copied to. -/
def keyData (p values : Nat) (type : MetricType) : Nat :=
  let data := p + sizeofAggregateStat
  if type ≠ .counter then data + sizeofStatValue * (values - 1) else data

/-- The loop over the keys: the entry of the table at `e` and the bytes at `data`. The
name is not copied; its bytes are where `nameData` says. -/
def writeKeys (nameData : Str → Nat) :
    List StatKey → Nat → Nat → Mem UInt8 → Mem UInt8 × Nat
  | [], _, data, mem => (mem, data)
  | k :: keys, e, data, mem =>
    let mem := mem.write e (strBytes k.name.length (nameData k.name))
    let mem := mem.write (e + 24) (leBytes 8 data)
    let mem := mem.write (e + 16) (leBytes 8 k.value.length)
    -- `ngx_memcpy`
    let mem := mem.write data k.value
    writeKeys nameData keys (e + sizeofStatKey) (data + k.value.length) mem

/-- The part of `ngx_statshouse_aggregate` that fills a new block at `p`, with the
pointer behind the last key value. -/
def writeRecord (nameData : Str → Nat) (values : Nat) (stat : Stat Value) (hash size now p : Nat)
    (mem : Mem UInt8) : Mem UInt8 × Nat :=
  let mem := mem.write p (leBytes 8 hash)
  let mem := mem.write (p + offsetofSize) (leBytes 8 size)
  let mem := mem.write (p + offsetofTime) (leBytes 8 now)
  let mem := mem.write (p + offsetofName) (strBytes stat.name.length (nameData stat.name))
  let mem := mem.write (p + offsetofValuesCount) (leBytes 8 1)
  let mem := mem.write (p + offsetofValues) (valueBytes stat.value0)
  let mem := mem.write (p + offsetofType) (leBytes 4 stat.type.num)
  let mem := mem.write (p + offsetofKeysCount) (leBytes 8 stat.keys.length)
  writeKeys nameData stat.keys (p + offsetofKeys) (keyData p values stat.type) mem

/-- The number in the eight bytes at `a`. -/
def loadWord (mem : Mem UInt8) (a : Nat) : Nat := leNat (mem.read a 8)

/-- The value at `a`. -/
def loadValue (mem : Mem UInt8) (a : Nat) : Value := ⟨UInt64.ofNat (loadWord mem a)⟩

/-- `values[0].counter += counter`. -/
def addCounterAt [Add Value] (p : Nat) (counter : Value) (mem : Mem UInt8) : Mem UInt8 :=
  mem.write (p + offsetofValues) (valueBytes (loadValue mem (p + offsetofValues) + counter))

/-- `values[values_count] = value`, then `values_count++`. -/
def appendValueAt (p : Nat) (value : Value) (mem : Mem UInt8) : Mem UInt8 :=
  let count := loadWord mem (p + offsetofValuesCount)
  let mem := mem.write (p + offsetofValues + sizeofStatValue * count) (valueBytes value)
  mem.write (p + offsetofValuesCount) (leBytes 8 (count + 1))

/-- What happens to a record after it is written: a stat is merged, the tree sets the
links and the colour of its node, or the queue sets its links. -/
inductive RecordCall where
  | merge (value : Value)
  | rbtree (left right parent : Nat) (color : UInt8)
  | queue (prev next : Nat)
deriving DecidableEq, Repr

/-- The memory, and whether the record was taken out of the tree. -/
structure RecordMem where
  mem : Mem UInt8
  retired : Bool

/-- A merge goes to a record that is in the tree; a full one is retired instead. -/
def RecordMem.step [Add Value] (values : Nat) (type : MetricType) (p : Nat) (s : RecordMem) :
    RecordCall → RecordMem
  | .merge value =>
    if s.retired then s
    else if type = .counter then { s with mem := addCounterAt p value s.mem }
    else if loadWord s.mem (p + offsetofValuesCount) < values then
      { s with mem := appendValueAt p value s.mem }
    -- `astat->node.key = 0`
    else { mem := s.mem.write p (leBytes 8 0), retired := true }
  | .rbtree left right parent color =>
    { s with
      mem :=
        s.mem.write (p + 8) (leBytes 8 left ++ leBytes 8 right ++ leBytes 8 parent ++ [color]) }
  | .queue prev next =>
    { s with mem := s.mem.write (p + offsetofQueue) (leBytes 8 prev ++ leBytes 8 next) }

/-- The key values a handler finds in the record: where the table says. -/
def keyRange (mem : Mem UInt8) (p i : Nat) : Block :=
  (loadWord mem (p + offsetofKeys + sizeofStatKey * i + 24),
    loadWord mem (p + offsetofKeys + sizeofStatKey * i + 16))

def loadKeys (mem : Mem UInt8) (p : Nat) : List Str :=
  (List.range (loadWord mem (p + offsetofKeysCount))).map fun i =>
    mem.read (keyRange mem p i).1 (keyRange mem p i).2

/-- The values a handler finds in the record. -/
def loadValues (mem : Mem UInt8) (p : Nat) : List Value :=
  (List.range (loadWord mem (p + offsetofValuesCount))).map fun k =>
    loadValue mem (p + offsetofValues + sizeofStatValue * k)

/-! ## The pieces of a record -/

/-- The table entries and the bytes of the keys. -/
def keyPieces (nameData : Str → Nat) : List StatKey → Nat → Nat → List (Piece UInt8)
  | [], _, _ => []
  | k :: keys, e, data =>
    (e, strBytes k.name.length (nameData k.name)) :: (e + 24, leBytes 8 data) ::
      (e + 16, leBytes 8 k.value.length) :: (data, k.value) ::
        keyPieces nameData keys (e + sizeofStatKey) (data + k.value.length)

/-- The values, in consecutive slots. -/
def valuePieces : List Value → Nat → List (Piece UInt8)
  | [], _ => []
  | v :: vs, a => (a, valueBytes v) :: valuePieces vs (a + sizeofStatValue)

/-- What is written once: all but the node, the queue links, the count and the values. -/
def fixedPieces (nameData : Str → Nat) (values p : Nat) (r : AStat Value) : List (Piece UInt8) :=
  [(p + offsetofSize, leBytes 8 r.size), (p + offsetofTime, leBytes 8 r.time),
    (p + offsetofName, strBytes r.stat.name.length (nameData r.stat.name)),
    (p + offsetofType, leBytes 4 r.stat.type.num),
    (p + offsetofKeysCount, leBytes 8 r.stat.keys.length)] ++
  keyPieces nameData r.stat.keys (p + offsetofKeys) (keyData p values r.stat.type)

/-- Memory holds the record `r` at `p`. -/
structure RecordAt (nameData : Str → Nat) (values p : Nat) (r : AStat Value) (mem : Mem UInt8) :
    Prop where
  fixed : mem.Holds (fixedPieces nameData values p r)
  key : mem.read p 8 = leBytes 8 r.key
  valuesCount : mem.read (p + offsetofValuesCount) 8 = leBytes 8 r.stat.values.length
  values : mem.Holds (valuePieces r.stat.values (p + offsetofValues))

section Pieces

variable {nameData : Str → Nat} {keys : List StatKey} {e data : Nat}

@[simp] theorem length_strBytes (len data : Nat) : (strBytes len data).length = 16 := by
  simp [strBytes]

@[simp] theorem length_valueBytes (value : Value) : (valueBytes value).length = 8 := by
  simp [valueBytes]

/-- The lengths of the key values. -/
def keyLengths (keys : List StatKey) : List Nat := keys.map fun k => k.value.length

/-- A piece of the keys is in the table or behind the values. -/
theorem mem_keyPieces {w : Piece UInt8} (hw : w ∈ keyPieces nameData keys e data) :
    (e ≤ w.1 ∧ w.1 + w.2.length ≤ e + sizeofStatKey * keys.length) ∨
      (data ≤ w.1 ∧ w.1 + w.2.length ≤ data + (keyLengths keys).sum) := by
  induction keys generalizing e data with
  | nil => simp [keyPieces] at hw
  | cons k keys ih =>
      simp only [keyPieces, List.mem_cons] at hw
      simp only [keyLengths, List.map_cons, List.sum_cons, List.length_cons, sizeofStatKey]
        at ih hw ⊢
      rcases hw with rfl | rfl | rfl | rfl | hw
      · simp only [length_strBytes]
        omega
      · simp only [length_leBytes]
        omega
      · simp only [length_leBytes]
        omega
      · simp only
        omega
      · have hrest := ih hw
        omega

/-- The pieces of the keys are apart when the table ends before the bytes. -/
theorem keyPieces_pairwise (h : e + sizeofStatKey * keys.length ≤ data) :
    (keyPieces nameData keys e data).Pairwise fun w w' => Apart (block w) (block w') := by
  induction keys generalizing e data with
  | nil => exact List.Pairwise.nil
  | cons k keys ih =>
      simp only [List.length_cons, sizeofStatKey] at ih h
      have hrest : (keyPieces nameData keys (e + 32) (data + k.value.length)).Pairwise
          fun w w' => Apart (block w) (block w') := ih (by omega)
      have hlater : ∀ w ∈ keyPieces nameData keys (e + 32) (data + k.value.length),
          (e + 32 ≤ w.1 ∧ w.1 + w.2.length ≤ data) ∨ data + k.value.length ≤ w.1 := by
        intro w hw
        have hmem := mem_keyPieces hw
        simp only [sizeofStatKey] at hmem
        omega
      simp only [keyPieces, List.pairwise_cons, List.forall_mem_cons, Apart, block,
        length_strBytes, length_leBytes, sizeofStatKey]
      -- the four pieces of the key among themselves, and each with the later ones
      refine ⟨⟨by omega, by omega, by omega, ?_⟩, ⟨by omega, by omega, ?_⟩, ⟨by omega, ?_⟩, ?_,
        hrest⟩
      all_goals
        intro w hw
        have hw := hlater w hw
        omega

/-- The loop writes the pieces and ends behind the last key value. -/
theorem writeKeys_eq (mem : Mem UInt8) :
    writeKeys nameData keys e data mem =
      (mem.writeAll (keyPieces nameData keys e data), data + (keyLengths keys).sum) := by
  induction keys generalizing e data mem with
  | nil => rfl
  | cons k keys ih =>
      rw [writeKeys, ih, keyLengths, keyLengths, List.map_cons, List.sum_cons, Nat.add_assoc]
      rfl

/-- A slot of the values. -/
theorem mem_valuePieces {vs : List Value} {a : Nat} {w : Piece UInt8}
    (hw : w ∈ valuePieces vs a) :
    a ≤ w.1 ∧ w.1 + w.2.length ≤ a + sizeofStatValue * vs.length := by
  induction vs generalizing a with
  | nil => simp [valuePieces] at hw
  | cons v vs ih =>
      simp only [List.length_cons, sizeofStatValue] at ih ⊢
      rcases List.mem_cons.mp hw with rfl | hw
      · simp only [length_valueBytes]
        omega
      · have hrest := ih hw
        simp only [sizeofStatValue] at hrest
        omega

theorem valuePieces_snoc (vs : List Value) (v : Value) (a : Nat) :
    valuePieces (vs ++ [v]) a =
      valuePieces vs a ++ [(a + sizeofStatValue * vs.length, valueBytes v)] := by
  induction vs generalizing a with
  | nil => rfl
  | cons u vs ih =>
      rw [List.cons_append, valuePieces, ih, valuePieces, List.cons_append, List.length_cons,
        Nat.add_assoc, Nat.mul_succ, Nat.add_comm sizeofStatValue]

end Pieces

/-! ## A new record -/

/-- The key bytes start where the slots end. -/
theorem keyData_eq {values : Nat} (hvalues : 0 < values) (p : Nat) (type : MetricType) :
    keyData p values type = p + offsetofValues + sizeofStatValue * valueSlots values type := by
  have hoff := offsets
  unfold keyData valueSlots
  by_cases htype : type = .counter
  · simp only [htype, ne_eq, not_true_eq_false, if_false, if_true]
    omega
  · simp only [htype, ne_eq, not_false_eq_true, if_true, if_false, sizeofStatValue]
    omega

/-- The key bytes end where the block ends. -/
theorem keyData_add (values p : Nat) (stat : Stat Value) :
    keyData p values stat.type + (keyLengths stat.keys).sum = p + recordSize values stat := by
  have hlength : valuesLength stat = (keyLengths stat.keys).sum := rfl
  rw [recordSize_eq, hlength]
  simp only [keyData]
  split
  · omega
  · omega

/-- A count of values fits its eight bytes. -/
theorem valueSlots_lt {values : Nat} {stat : Stat Value} (hvalues : 0 < values)
    (hsize : recordSize values stat < 2 ^ 63) : valueSlots values stat.type < 2 ^ 63 := by
  have hoff := offsets
  have hend := keyData_add values 0 stat
  rw [keyData_eq hvalues] at hend
  simp only [sizeofStatValue] at hend
  omega

/-- The slots are inside the block. -/
theorem slots_end {values : Nat} (hvalues : 0 < values) (p : Nat) (stat : Stat Value) :
    p + offsetofValues + sizeofStatValue * valueSlots values stat.type ≤
      p + recordSize values stat := by
  rw [← keyData_eq hvalues, ← keyData_add]
  exact Nat.le_add_right _ _

/-- What `writeRecord` writes, in order. -/
def createPieces (nameData : Str → Nat) (values : Nat) (stat : Stat Value) (hash size now p : Nat) :
    List (Piece UInt8) :=
  [(p, leBytes 8 hash), (p + offsetofSize, leBytes 8 size), (p + offsetofTime, leBytes 8 now),
    (p + offsetofName, strBytes stat.name.length (nameData stat.name)),
    (p + offsetofValuesCount, leBytes 8 1), (p + offsetofValues, valueBytes stat.value0),
    (p + offsetofType, leBytes 4 stat.type.num),
    (p + offsetofKeysCount, leBytes 8 stat.keys.length)] ++
  keyPieces nameData stat.keys (p + offsetofKeys) (keyData p values stat.type)

section Create

variable {nameData : Str → Nat} {values : Nat} {stat : Stat Value} {hash size now p : Nat}

theorem writeRecord_eq (mem : Mem UInt8) :
    writeRecord nameData values stat hash size now p mem =
      (mem.writeAll (createPieces nameData values stat hash size now p),
        p + recordSize values stat) := by
  unfold writeRecord
  rw [writeKeys_eq, keyData_add, createPieces, Mem.writeAll_append]
  rfl

/-- The table of keys ends before the counts, and the values before the key bytes. -/
theorem keys_bounds (hvalues : 0 < values) (hkeys : stat.keys.length ≤ keysMax) :
    p + offsetofKeys + sizeofStatKey * stat.keys.length ≤ p + offsetofKeysCount ∧
      p + offsetofValues + sizeofStatValue ≤ keyData p values stat.type := by
  have hoff := offsets
  constructor
  · simp only [sizeofStatKey]
    omega
  · rw [keyData_eq hvalues]
    have hslots : 0 < valueSlots values stat.type := by
      unfold valueSlots
      split
      · exact Nat.one_pos
      · exact hvalues
    simp only [sizeofStatValue]
    omega

theorem createPieces_pairwise (hvalues : 0 < values) (hkeys : stat.keys.length ≤ keysMax) :
    (createPieces nameData values stat hash size now p).Pairwise
      fun w w' => Apart (block w) (block w') := by
  have hoff := offsets
  have hbounds := keys_bounds (p := p) hvalues hkeys
  refine List.pairwise_append.mpr ⟨?_, keyPieces_pairwise (by omega), ?_⟩
  · -- the fields of the header
    simp only [List.pairwise_cons, List.forall_mem_cons, Apart, block, length_strBytes,
      length_valueBytes, length_leBytes, List.not_mem_nil, false_implies, implies_true,
      List.Pairwise.nil, and_true]
    omega
  · intro w hw w' hw'
    have hkey := mem_keyPieces hw'
    simp only [List.mem_cons, List.not_mem_nil, or_false] at hw
    rcases hw with rfl | rfl | rfl | rfl | rfl | rfl | rfl | rfl
    all_goals
      simp only [Apart, block, length_strBytes, length_valueBytes, length_leBytes]
      omega

/-- The block holds the new record of the aggregator's model. -/
theorem writeRecord_recordAt (hvalues : 0 < values) (hkeys : stat.keys.length ≤ keysMax)
    (mem : Mem UInt8) :
    RecordAt nameData values p (newRecord stat hash size now)
      (writeRecord nameData values stat hash size now p mem).1 := by
  rw [writeRecord_eq]
  have hall : (mem.writeAll (createPieces nameData values stat hash size now p)).Holds
      (createPieces nameData values stat hash size now p) :=
    Mem.holds_writeAll mem (createPieces_pairwise hvalues hkeys)
  -- of the memory only what it holds matters from here on
  generalize mem.writeAll (createPieces nameData values stat hash size now p) = m at hall ⊢
  have hread : ∀ a bs n, (a, bs) ∈ createPieces nameData values stat hash size now p →
      bs.length = n → m.read a n = bs := by
    intro a bs n hw hn
    rw [← hn]
    exact hall (a, bs) hw
  have hheader : ∀ w : Piece UInt8, w = (p, leBytes 8 hash) ∨
      w = (p + offsetofValuesCount, leBytes 8 1) ∨
      w = (p + offsetofValues, valueBytes stat.value0) →
      w ∈ createPieces nameData values stat hash size now p := by
    intro w hw
    simp only [createPieces, List.mem_append, List.mem_cons, List.not_mem_nil, or_false]
    tauto
  constructor
  · intro w hw
    apply hall
    simp only [fixedPieces, newRecord, createPieces, List.mem_append, List.mem_cons,
      List.not_mem_nil, or_false] at hw ⊢
    tauto
  · exact hread p _ 8 (hheader _ (Or.inl rfl)) (length_leBytes 8 hash)
  · exact hread _ _ 8 (hheader _ (Or.inr (Or.inl rfl))) (length_leBytes 8 1)
  · intro w hw
    simp only [newRecord, valuePieces, List.mem_singleton] at hw
    exact hall w (hheader w (Or.inr (Or.inr hw)))

theorem writeRecord_within (hvalues : 0 < values) (hkeys : stat.keys.length ≤ keysMax)
    {mem : Mem UInt8} (hmem : mem.Within p (p + recordSize values stat)) :
    (writeRecord nameData values stat hash size now p mem).1.Within p
      (p + recordSize values stat) := by
  have hoff := offsets
  have hbounds := keys_bounds (p := p) hvalues hkeys
  have hend := keyData_add values p stat
  rw [writeRecord_eq]
  apply hmem.writeAll
  intro w hw
  rcases List.mem_append.mp hw with hw | hw
  · simp only [List.mem_cons, List.not_mem_nil, or_false] at hw
    rcases hw with rfl | rfl | rfl | rfl | rfl | rfl | rfl | rfl
    all_goals
      simp only [length_strBytes, length_valueBytes, length_leBytes]
      omega
  · have hkey := mem_keyPieces hw
    omega

end Create

/-! ## Reading -/

theorem loadWord_of_read {mem : Mem UInt8} {a n : Nat} (h : mem.read a 8 = leBytes 8 n)
    (hn : n < 2 ^ 64) : loadWord mem a = n := by
  rw [loadWord, h]
  exact leNat_leBytes hn

theorem loadValue_of_read {mem : Mem UInt8} {a : Nat} {v : Value}
    (h : mem.read a 8 = valueBytes v) : loadValue mem a = v := by
  rw [loadValue, loadWord_of_read h v.bits.toNat_lt]
  simp

/-! ## What the later writes leave alone -/

section Frame

variable {nameData : Str → Nat} {values p a : Nat} {r : AStat Value} {mem : Mem UInt8}
  {bs : List UInt8}

/-- A piece written once is apart from the node, the queue links, the count and the slots. -/
theorem mem_fixedPieces (hkeys : r.stat.keys.length ≤ keysMax) {w : Piece UInt8}
    (hw : w ∈ fixedPieces nameData values p r) :
    (p + 40 ≤ w.1 ∧ w.1 + w.2.length ≤ p + 56) ∨ (p + 72 ≤ w.1 ∧ w.1 + w.2.length ≤ p + 648) ∨
      keyData p values r.stat.type ≤ w.1 := by
  have hoff := offsets
  rcases List.mem_append.mp hw with hw | hw
  · simp only [List.mem_cons, List.not_mem_nil, or_false] at hw
    rcases hw with rfl | rfl | rfl | rfl | rfl
    all_goals
      simp only [length_strBytes, length_leBytes]
      omega
  · have hkey := mem_keyPieces hw
    simp only [sizeofStatKey] at hkey
    omega

/-- A write to the node, to the queue links, or from the count to the end of the slots. -/
theorem fixedPieces_write (h : mem.Holds (fixedPieces nameData values p r)) (hvalues : 0 < values)
    (hkeys : r.stat.keys.length ≤ keysMax)
    (ha : a + bs.length ≤ p + 40 ∨ (p + 56 ≤ a ∧ a + bs.length ≤ p + 72) ∨
      (p + 648 ≤ a ∧ a + bs.length ≤
        p + offsetofValues + sizeofStatValue * valueSlots values r.stat.type)) :
    (mem.write a bs).Holds (fixedPieces nameData values p r) := by
  have hoff := offsets
  have hdata := keyData_eq hvalues p r.stat.type
  apply h.write
  intro w hw
  have hmem := mem_fixedPieces hkeys hw
  simp only [Apart, block]
  omega

/-- A write before the slots in use or behind them. -/
theorem valuePieces_write {vs : List Value} {b : Nat} (h : mem.Holds (valuePieces vs b))
    (ha : a + bs.length ≤ b ∨ b + sizeofStatValue * vs.length ≤ a) :
    (mem.write a bs).Holds (valuePieces vs b) := by
  apply h.write
  intro w hw
  have hmem := mem_valuePieces hw
  simp only [Apart, block]
  omega

/-- The links of the tree and of the queue are not part of what the record says. -/
theorem RecordAt.write_links (h : RecordAt nameData values p r mem) (hvalues : 0 < values)
    (hkeys : r.stat.keys.length ≤ keysMax)
    (ha : (p + 8 ≤ a ∧ a + bs.length ≤ p + 40) ∨ (p + 56 ≤ a ∧ a + bs.length ≤ p + 72)) :
    RecordAt nameData values p r (mem.write a bs) := by
  have hoff := offsets
  constructor
  · exact fixedPieces_write h.fixed hvalues hkeys (by omega)
  · rw [Mem.read_write_apart (by simp only [Apart]; omega)]
    exact h.key
  · rw [Mem.read_write_apart (by simp only [Apart]; omega)]
    exact h.valuesCount
  · exact valuePieces_write h.values (by omega)

/-- Taking the record out of the tree clears its key. -/
theorem RecordAt.write_key (h : RecordAt nameData values p r mem) (hvalues : 0 < values)
    (hkeys : r.stat.keys.length ≤ keysMax) :
    RecordAt nameData values p { r with key := 0, retired := true }
      (mem.write p (leBytes 8 0)) := by
  have hoff := offsets
  have hlength : (leBytes 8 0).length = 8 := length_leBytes 8 0
  constructor
  · exact fixedPieces_write (r := r) h.fixed hvalues hkeys (by omega)
  · have hread := Mem.read_write_same mem p (leBytes 8 0)
    rwa [hlength] at hread
  · rw [Mem.read_write_apart (by simp only [Apart]; omega)]
    exact h.valuesCount
  · exact valuePieces_write h.values (by omega)

/-- The first slot holds the first value. -/
theorem RecordAt.loadValue_zero (h : RecordAt nameData values p r mem)
    (hne : r.stat.values ≠ []) : loadValue mem (p + offsetofValues) = r.stat.value0 := by
  obtain ⟨v, vs, hvs⟩ := List.exists_cons_of_ne_nil hne
  have hread := h.values (p + offsetofValues, valueBytes v) (by rw [hvs]; simp [valuePieces])
  rw [length_valueBytes] at hread
  rw [loadValue_of_read hread, Stat.value0, hvs, List.headD_cons]

theorem RecordAt.addCounterAt [Add Value] (h : RecordAt nameData values p r mem)
    (hvalues : 0 < values) (hkeys : r.stat.keys.length ≤ keysMax) (hne : r.stat.values ≠ [])
    (hroom : r.stat.values.length ≤ valueSlots values r.stat.type) (counter : Value) :
    RecordAt nameData values p (r.addCounter counter) (addCounterAt p counter mem) := by
  have hoff := offsets
  have hzero := h.loadValue_zero hne
  obtain ⟨v, vs, hvs⟩ := List.exists_cons_of_ne_nil hne
  rw [hvs, List.length_cons] at hroom
  unfold StatsHouse.addCounterAt
  rw [hzero]
  constructor
  · refine fixedPieces_write (r := r) h.fixed hvalues hkeys ?_
    simp only [length_valueBytes, sizeofStatValue]
    omega
  · rw [Mem.read_write_apart (by simp only [Apart, length_valueBytes]; omega)]
    exact h.key
  · rw [Mem.read_write_apart (by simp only [Apart, length_valueBytes]; omega)]
    have hcount := h.valuesCount
    rw [hvs, List.length_cons] at hcount
    simpa [AStat.addCounter, hvs] using hcount
  · -- the first slot is written, the others lie behind it
    intro w hw
    simp only [AStat.addCounter, hvs, List.tail_cons, valuePieces, List.mem_cons] at hw
    rcases hw with rfl | hw
    · exact Mem.read_write_same mem _ _
    · have hmem := mem_valuePieces hw
      rw [Mem.read_write_apart (by simp only [Apart, length_valueBytes]; omega)]
      exact h.values w (by rw [hvs]; exact List.mem_cons_of_mem _ hw)

theorem RecordAt.appendValueAt (h : RecordAt nameData values p r mem) (hvalues : 0 < values)
    (hkeys : r.stat.keys.length ≤ keysMax)
    (hroom : r.stat.values.length < valueSlots values r.stat.type)
    (hcount : loadWord mem (p + offsetofValuesCount) = r.stat.values.length) (value : Value) :
    RecordAt nameData values p (r.appendValue value) (appendValueAt p value mem) := by
  have hoff := offsets
  unfold StatsHouse.appendValueAt
  simp only [hcount]
  -- the new slot, and then the count
  have hslot : Mem.Holds (mem.write (p + offsetofValues + sizeofStatValue * r.stat.values.length)
      (valueBytes value)) (valuePieces (r.stat.values ++ [value]) (p + offsetofValues)) := by
    rw [valuePieces_snoc]
    intro w hw
    rcases List.mem_append.mp hw with hw | hw
    · exact valuePieces_write h.values (Or.inr (Nat.le_refl _)) w hw
    · rw [List.mem_singleton.mp hw]
      exact Mem.read_write_same mem _ _
  constructor
  · refine fixedPieces_write (r := r) (fixedPieces_write h.fixed hvalues hkeys ?_) hvalues hkeys ?_
    · simp only [length_valueBytes, sizeofStatValue]
      omega
    · simp only [length_leBytes]
      omega
  · rw [Mem.read_write_apart (by simp only [Apart, length_leBytes]; omega),
      Mem.read_write_apart (by simp only [Apart, length_valueBytes]; omega)]
    exact h.key
  · have hread := Mem.read_write_same
      (mem.write (p + offsetofValues + sizeofStatValue * r.stat.values.length) (valueBytes value))
      (p + offsetofValuesCount) (leBytes 8 (r.stat.values.length + 1))
    rw [length_leBytes] at hread
    simpa [AStat.appendValue] using hread
  · refine valuePieces_write hslot ?_
    simp only [length_leBytes]
    omega

end Frame

end StatsHouse
