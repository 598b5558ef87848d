import StatsHouse.Lib.Run
import StatsHouse.Live
import StatsHouse.RecordLayout

/-! # Merges into a record

The life of a record in its block: it is written once, then stats are merged into it
and the tree and the queue set their links, in any order, until it is full or handed
over. The memory and the record of the aggregator's model go through the same calls
(`RecordMem.Sound`), so what a handler finds in memory is what the model says.

* `aggregate_receive`: what a call of the record stands for in the aggregator, namely
  the merge into a record that a lookup finds. It ties `AStat.receive`, about which the
  main result is, to `aggregate`.
* `record_layout`: every write is inside the block, values and key bytes never
  overlap, and keys and values are read back as they were given.
-/

namespace StatsHouse

open Codec Memory Tiling

/-! ## Runs -/

/-- The same calls on the record of the aggregator's model, as `aggregate` makes them. -/
def AStat.receive [Add Value] (values : Nat) (r : AStat Value) : RecordCall → AStat Value
  | .merge value =>
    if r.retired then r
    else if r.stat.type = .counter then r.addCounter value
    else if r.stat.values.length < values then r.appendValue value
    else r.retire
  | .rbtree _ _ _ _ => r
  | .queue _ _ => r

/-- A call of the aggregator that finds the record at `p`, which is not full, does this
to it. -/
theorem aggregate_receive [Add Value] {σ : Type} {env : Env Value}
    {conf : AggregateConf} {handler : Handler Value σ} {exiting : Bool} {stat : Stat Value}
    {now p : Nat} {a : Aggregate Value} {ctx : σ} (hinv : a.Inv conf)
    (hadm : Admitted conf exiting stat) (hp : Found env conf a stat p)
    (hroom : stat.type = .counter ∨ (a.mem p).stat.values.length < conf.values) :
    (aggregate env conf handler exiting stat now a ctx).2.1.mem p =
      (a.mem p).receive conf.values (.merge stat.value0) := by
  have htype := (of_aggregateLookup hp).2.2.2
  rcases hinv.of_found hp with ⟨hqueue, hopen⟩
  rcases hadm with ⟨hvalues, hexiting⟩
  unfold Found at hp
  unfold aggregate
  rw [if_neg (by tauto), if_neg (by simp [hexiting])]
  simp only [hp, AStat.receive, hopen, htype, Bool.false_eq_true, if_false]
  by_cases hcounter : stat.type = .counter
  · simp only [hcounter, if_true]
    exact (hinv.changed_addCounter hqueue (htype.trans hcounter) _).same
  · have hfree := hroom.resolve_left hcounter
    have hrecord : (a.mem p).stat.type ≠ .counter := fun hc => hcounter (htype.symm.trans hc)
    simp only [hcounter, if_false, hfree, if_true]
    exact (hinv.changed_appendValue hqueue hrecord hfree _).same

/-- Memory holds the record of `stat`, and nothing was written beside it. -/
structure RecordMem.Sound (nameData : Str → Nat) (values p : Nat) (stat : Stat Value)
    (s : RecordMem) (r : AStat Value) : Prop where
  recordAt : RecordAt nameData values p r s.mem
  within : s.mem.Within p (p + recordSize values stat)
  type : r.stat.type = stat.type
  keys : r.stat.keys = stat.keys
  nonempty : r.stat.values ≠ []
  room : r.stat.values.length ≤ valueSlots values stat.type
  retired : s.retired = r.retired

section Runs

variable {nameData : Str → Nat} {values p : Nat} {stat : Stat Value} {s : RecordMem}
  {r : AStat Value}

/-- The count in memory is that of the record. -/
theorem RecordMem.Sound.loadWord_count (h : s.Sound nameData values p stat r)
    (hvalues : 0 < values) (hsize : recordSize values stat < 2 ^ 63) :
    loadWord s.mem (p + offsetofValuesCount) = r.stat.values.length := by
  have hslots := valueSlots_lt hvalues hsize
  have hroom := h.room
  exact loadWord_of_read h.recordAt.valuesCount (by omega)

theorem RecordMem.Sound.addCounter [Add Value] (h : s.Sound nameData values p stat r)
    (hvalues : 0 < values) (hkeys : stat.keys.length ≤ keysMax) (value : Value) :
    RecordMem.Sound nameData values p stat { s with mem := addCounterAt p value s.mem }
      (r.addCounter value) := by
  have hoff := offsets
  have hend := slots_end hvalues p stat
  have hpos := List.length_pos_of_ne_nil h.nonempty
  have hroom := h.room
  simp only [sizeofStatValue] at hend
  refine ⟨?_, ?_, h.type, h.keys, by simp [AStat.addCounter], ?_, h.retired⟩
  · apply h.recordAt.addCounterAt hvalues (by rw [h.keys]; exact hkeys) h.nonempty
    rw [h.type]
    exact h.room
  · apply h.within.write
    · omega
    · rw [length_valueBytes]
      omega
  · simp only [AStat.addCounter, List.length_cons, List.length_tail]
    omega

theorem RecordMem.Sound.appendValue (h : s.Sound nameData values p stat r) (hvalues : 0 < values)
    (hkeys : stat.keys.length ≤ keysMax) (hsize : recordSize values stat < 2 ^ 63)
    (hfree : r.stat.values.length < valueSlots values stat.type) (value : Value) :
    RecordMem.Sound nameData values p stat { s with mem := appendValueAt p value s.mem }
      (r.appendValue value) := by
  have hoff := offsets
  have hend := slots_end hvalues p stat
  have hcount := h.loadWord_count hvalues hsize
  simp only [sizeofStatValue] at hend
  refine ⟨?_, ?_, h.type, h.keys, by simp [AStat.appendValue], ?_, h.retired⟩
  · apply h.recordAt.appendValueAt hvalues (by rw [h.keys]; exact hkeys) _ hcount
    rw [h.type]
    exact hfree
  · -- the slot, and then the count
    simp only [appendValueAt, hcount, sizeofStatValue]
    refine (h.within.write ?_ ?_).write ?_ ?_
    · omega
    · rw [length_valueBytes]
      omega
    · omega
    · rw [length_leBytes]
      omega
  · simp only [AStat.appendValue, List.length_append, List.length_singleton]
    omega

theorem RecordMem.Sound.retire (h : s.Sound nameData values p stat r) (hvalues : 0 < values)
    (hkeys : stat.keys.length ≤ keysMax) :
    RecordMem.Sound nameData values p stat ⟨s.mem.write p (leBytes 8 0), true⟩
      { r with key := 0, retired := true } := by
  have hoff := offsets
  have hend := slots_end hvalues p stat
  have hkeys' : r.stat.keys.length ≤ keysMax := by
    rw [h.keys]
    exact hkeys
  refine ⟨h.recordAt.write_key hvalues hkeys', ?_, h.type, h.keys, h.nonempty, h.room, rfl⟩
  apply h.within.write
  · omega
  · rw [length_leBytes]
    omega

/-- The tree and the queue set their links inside the block. -/
theorem RecordMem.Sound.write_links {a : Nat} {bs : List UInt8}
    (h : s.Sound nameData values p stat r) (hvalues : 0 < values)
    (hkeys : stat.keys.length ≤ keysMax)
    (ha : (p + 8 ≤ a ∧ a + bs.length ≤ p + 40) ∨ (p + 56 ≤ a ∧ a + bs.length ≤ p + 72)) :
    RecordMem.Sound nameData values p stat { s with mem := s.mem.write a bs } r := by
  have hoff := offsets
  have hend := slots_end hvalues p stat
  have hkeys' : r.stat.keys.length ≤ keysMax := by
    rw [h.keys]
    exact hkeys
  refine ⟨h.recordAt.write_links hvalues hkeys' ha, ?_, h.type, h.keys, h.nonempty, h.room,
    h.retired⟩
  apply h.within.write
  · omega
  · omega

/-- Every call does the same to the memory and to the record. -/
theorem RecordMem.Sound.step [Add Value] (hvalues : 0 < values)
    (hkeys : stat.keys.length ≤ keysMax) (hsize : recordSize values stat < 2 ^ 63)
    (h : s.Sound nameData values p stat r) (call : RecordCall) :
    (s.step values stat.type p call).Sound nameData values p stat (r.receive values call) := by
  have hoff := offsets
  cases call with
  | merge value =>
      have hret : s.retired = true ↔ r.retired = true := by rw [h.retired]
      simp only [RecordMem.step, AStat.receive, hret, h.type]
      by_cases hretired : r.retired = true
      · -- a retired record gets no merges
        rw [if_pos hretired, if_pos hretired]
        exact h
      · rw [if_neg hretired, if_neg hretired]
        by_cases htype : stat.type = .counter
        · rw [if_pos htype, if_pos htype]
          exact h.addCounter hvalues hkeys value
        · rw [if_neg htype, if_neg htype, h.loadWord_count hvalues hsize]
          have hall : valueSlots values stat.type = values := if_neg htype
          by_cases hfree : r.stat.values.length < values
          · rw [if_pos hfree, if_pos hfree]
            exact h.appendValue hvalues hkeys hsize (by rw [hall]; exact hfree) value
          · -- a full record is taken out of the tree
            rw [if_neg hfree, if_neg hfree]
            exact h.retire hvalues hkeys
  | rbtree left right parent color =>
      apply h.write_links hvalues hkeys
      left
      simp only [List.length_append, length_leBytes, List.length_singleton]
      omega
  | queue prev next =>
      apply h.write_links hvalues hkeys
      right
      simp only [List.length_append, length_leBytes]
      omega

/-- The stats merged by a list of calls. -/
def merged (calls : List RecordCall) : List Value :=
  calls.filterMap fun
    | .merge value => some value
    | _ => none

/-- A counter holds the sum, in the order of the merges. -/
theorem receive_counter [Add Value] (htype : r.stat.type = .counter) (hret : r.retired = false)
    (hvalues : ∃ v, r.stat.values = [v]) (calls : List RecordCall) :
    (Run.exec (AStat.receive values) r calls).stat.values =
      [(merged calls).foldl (· + ·) r.stat.value0] := by
  induction calls generalizing r with
  | nil =>
      obtain ⟨v, hv⟩ := hvalues
      simp [Run.exec, merged, Stat.value0, hv]
  | cons call calls ih =>
      obtain ⟨v, hv⟩ := hvalues
      rw [Run.exec]
      cases call with
      | merge value =>
          have hcall : r.receive values (.merge value) = r.addCounter value := by
            simp [AStat.receive, hret, htype]
          have hone : ∃ w, (r.addCounter value).stat.values = [w] :=
            ⟨v + value, by simp [AStat.addCounter, Stat.value0, hv]⟩
          rw [hcall, ih (r := r.addCounter value) htype hret hone]
          simp [merged, AStat.addCounter, Stat.value0]
      | rbtree left right parent color => exact ih htype hret ⟨v, hv⟩
      | queue prev next => exact ih htype hret ⟨v, hv⟩

/-- Other records hold the values in order, up to the number of slots. -/
theorem receive_values [Add Value] (htype : r.stat.type ≠ .counter)
    (hlen : r.stat.values.length ≤ values)
    (hret : r.retired = true → r.stat.values.length = values) (calls : List RecordCall) :
    (Run.exec (AStat.receive values) r calls).stat.values =
      (r.stat.values ++ merged calls).take values := by
  induction calls generalizing r with
  | nil => simp [Run.exec, merged, List.take_of_length_le hlen]
  | cons call calls ih =>
      rw [Run.exec]
      cases call with
      | merge value =>
          have hmerged : merged (.merge value :: calls) = value :: merged calls := rfl
          rw [hmerged]
          by_cases hfull : r.stat.values.length = values
          · -- a full record keeps its values, retired now or before
            have hkeep : (r.receive values (.merge value)).stat = r.stat ∧
                ((r.receive values (.merge value)).retired = true) := by
              by_cases hr : r.retired = true
              · simp [AStat.receive, hr]
              · simp [AStat.receive, AStat.retire, hr, htype, hfull]
            rw [ih (by rw [hkeep.1]; exact htype) (by rw [hkeep.1]; exact hlen)
              (fun _ => by rw [hkeep.1]; exact hfull), hkeep.1]
            rw [List.take_append_of_le_length (by omega), List.take_append_of_le_length (by omega)]
          · have hopen : r.retired = false := by
              cases hr : r.retired with
              | false => rfl
              | true => exact absurd (hret hr) hfull
            have hcall : r.receive values (.merge value) = r.appendValue value := by
              have hroom : r.stat.values.length < values := by omega
              simp [AStat.receive, hopen, htype, hroom]
            have hlen' : (r.appendValue value).stat.values.length ≤ values := by
              simp only [AStat.appendValue, List.length_append, List.length_singleton]
              omega
            have hret' : (r.appendValue value).retired = true →
                (r.appendValue value).stat.values.length = values := by
              intro hr
              rw [show (r.appendValue value).retired = r.retired from rfl, hopen] at hr
              cases hr
            rw [hcall, ih (r := r.appendValue value) htype hlen' hret']
            simp [AStat.appendValue]
      | rbtree left right parent color => exact ih htype hlen hret
      | queue prev next => exact ih htype hlen hret

end Runs

/-! ## What is read back -/

section Load

variable {nameData : Str → Nat} {values p : Nat} {r : AStat Value} {mem : Mem UInt8}

/-- The table entry and the bytes of a key. -/
theorem mem_keyPieces_of_getElem? (nameData : Str → Nat) (e data : Nat) {keys : List StatKey}
    {i : Nat} {k : StatKey} (hk : keys[i]? = some k) :
    ∃ a, (laid data (keyLengths keys))[i]? = some (a, k.value.length) ∧
      (e + sizeofStatKey * i + 24, leBytes 8 a) ∈ keyPieces nameData keys e data ∧
      (e + sizeofStatKey * i + 16, leBytes 8 k.value.length) ∈ keyPieces nameData keys e data ∧
      (a, k.value) ∈ keyPieces nameData keys e data := by
  induction keys generalizing e data i with
  | nil => simp at hk
  | cons k' keys ih =>
      cases i with
      | zero =>
          have hhead : k' = k := by simpa using hk
          subst hhead
          exact ⟨data, by simp [laid, keyLengths], by simp [keyPieces], by simp [keyPieces],
            by simp [keyPieces]⟩
      | succ i =>
          have hk' : keys[i]? = some k := by simpa using hk
          obtain ⟨a, hget, hdata, hlen, hbytes⟩ :=
            ih (e + sizeofStatKey) (data + k'.value.length) hk'
          -- the table of the rest starts one entry later
          have hnext : e + sizeofStatKey + sizeofStatKey * i = e + sizeofStatKey * (i + 1) := by
            rw [Nat.mul_succ]
            omega
          rw [hnext] at hdata hlen
          refine ⟨a, by simpa [laid, keyLengths] using hget, ?_, ?_, ?_⟩
          · simp only [keyPieces, List.mem_cons]
            exact Or.inr (Or.inr (Or.inr (Or.inr hdata)))
          · simp only [keyPieces, List.mem_cons]
            exact Or.inr (Or.inr (Or.inr (Or.inr hlen)))
          · simp only [keyPieces, List.mem_cons]
            exact Or.inr (Or.inr (Or.inr (Or.inr hbytes)))

theorem mem_valuePieces_of_getElem? {vs : List Value} {a i : Nat} {v : Value}
    (hv : vs[i]? = some v) : (a + sizeofStatValue * i, valueBytes v) ∈ valuePieces vs a := by
  induction vs generalizing a i with
  | nil => simp at hv
  | cons u vs ih =>
      cases i with
      | zero =>
          have hhead : u = v := by simpa using hv
          subst hhead
          simp [valuePieces]
      | succ i =>
          have hrest := ih (a := a + sizeofStatValue) (by simpa using hv)
          have hnext : a + sizeofStatValue + sizeofStatValue * i =
              a + sizeofStatValue * (i + 1) := by
            rw [Nat.mul_succ]
            omega
          rw [hnext] at hrest
          exact List.mem_cons_of_mem _ hrest

/-- The table leads to the key values, laid one behind the other. -/
theorem RecordAt.keyRange (h : RecordAt nameData values p r mem)
    (hend : p + recordSize values r.stat < 2 ^ 64) {i : Nat} {k : StatKey}
    (hk : r.stat.keys[i]? = some k) :
    (laid (keyData p values r.stat.type) (keyLengths r.stat.keys))[i]? =
        some (keyRange mem p i) ∧
      mem.read (StatsHouse.keyRange mem p i).1 (StatsHouse.keyRange mem p i).2 = k.value := by
  obtain ⟨a, hget, hdata, hlen, hbytes⟩ :=
    mem_keyPieces_of_getElem? nameData (p + offsetofKeys) (keyData p values r.stat.type) hk
  have hinside := mem_laid (List.mem_of_getElem? hget)
  rw [keyData_add] at hinside
  have hfixed : ∀ w ∈ keyPieces nameData r.stat.keys (p + offsetofKeys)
      (keyData p values r.stat.type), mem.read w.1 w.2.length = w.2 :=
    fun w hw => h.fixed w (List.mem_append_right _ hw)
  have hrange : StatsHouse.keyRange mem p i = (a, k.value.length) := by
    unfold StatsHouse.keyRange
    rw [loadWord_of_read (hfixed _ hdata) (by omega), loadWord_of_read (hfixed _ hlen) (by omega)]
  rw [hrange]
  exact ⟨hget, hfixed _ hbytes⟩

end Load

/-! ## The main result -/

/-- The slot `values[k]`. -/
def valueSlot (p k : Nat) : Block := (p + offsetofValues + sizeofStatValue * k, sizeofStatValue)

/-- What the memory of the record of `stat` is like, when the values `vs` were merged. -/
structure RecordKept [Add Value] (values p : Nat) (stat : Stat Value) (vs : List Value)
    (mem : Mem UInt8) : Prop where
  /-- Every write was inside the block. -/
  within : mem.Within p (p + recordSize values stat)
  /-- No two value slots or key values overlap. -/
  apart : ((List.range (valueSlots values stat.type)).map (valueSlot p) ++
    (List.range stat.keys.length).map (keyRange mem p)).Pairwise Apart
  /-- The last key value ends with the block. -/
  last : ∀ i, i + 1 = stat.keys.length →
    (keyRange mem p i).1 + (keyRange mem p i).2 = p + recordSize values stat
  keys : loadKeys mem p = stat.keys.map fun k => k.value
  values : loadValues mem p =
    if stat.type = .counter then [vs.foldl (· + ·) stat.value0] else (stat.value0 :: vs).take values

section Main

variable {nameData : Str → Nat} {values p : Nat} {stat : Stat Value}

/-- Slots and key values are consecutive. -/
theorem map_valueSlot (p n : Nat) :
    (List.range n).map (valueSlot p) =
      laid (p + offsetofValues) (List.replicate n sizeofStatValue) := by
  induction n with
  | zero => rfl
  | succ n ih =>
      rw [List.range_succ, List.map_append, ih, List.replicate_succ', laid_append,
        List.sum_replicate_nat, Nat.mul_comm]
      rfl

theorem RecordAt.map_keyRange {r : AStat Value} {mem : Mem UInt8}
    (h : RecordAt nameData values p r mem) (hend : p + recordSize values r.stat < 2 ^ 64) :
    (List.range r.stat.keys.length).map (StatsHouse.keyRange mem p) =
      laid (keyData p values r.stat.type) (keyLengths r.stat.keys) := by
  apply List.ext_getElem?
  intro i
  by_cases hi : i < r.stat.keys.length
  · have hk : r.stat.keys[i]? = some r.stat.keys[i] := List.getElem?_eq_getElem hi
    rw [(h.keyRange hend hk).1, List.getElem?_map, List.getElem?_range hi]
    rfl
  · rw [List.getElem?_eq_none (by simpa using hi), List.getElem?_eq_none
      (by simpa [keyLengths] using hi)]

/-- What a handler finds is the record of the aggregator's model. -/
theorem RecordAt.load {r : AStat Value} {mem : Mem UInt8}
    (h : RecordAt nameData values p r mem) (hend : p + recordSize values r.stat < 2 ^ 64)
    (hkeys : r.stat.keys.length ≤ keysMax) (hcount : r.stat.values.length < 2 ^ 64) :
    loadKeys mem p = r.stat.keys.map (fun k => k.value) ∧ loadValues mem p = r.stat.values := by
  have hoff := offsets
  have hkeysCount : loadWord mem (p + offsetofKeysCount) = r.stat.keys.length := by
    have hread := h.fixed (p + offsetofKeysCount, leBytes 8 r.stat.keys.length)
      (by simp [fixedPieces])
    rw [length_leBytes] at hread
    exact loadWord_of_read hread (by omega)
  constructor
  · unfold loadKeys
    rw [hkeysCount]
    apply List.ext_getElem?
    intro i
    by_cases hi : i < r.stat.keys.length
    · have hk : r.stat.keys[i]? = some r.stat.keys[i] := List.getElem?_eq_getElem hi
      rw [List.getElem?_map, List.getElem?_map, List.getElem?_range hi, hk]
      exact congrArg some (h.keyRange hend hk).2
    · rw [List.getElem?_eq_none (by simpa using hi), List.getElem?_eq_none (by simpa using hi)]
  · unfold loadValues
    rw [loadWord_of_read h.valuesCount hcount]
    apply List.ext_getElem?
    intro i
    by_cases hi : i < r.stat.values.length
    · have hv : r.stat.values[i]? = some r.stat.values[i] := List.getElem?_eq_getElem hi
      have hread := h.values _ (mem_valuePieces_of_getElem? hv)
      rw [length_valueBytes] at hread
      rw [List.getElem?_map, List.getElem?_range hi, hv]
      exact congrArg some (loadValue_of_read hread)
    · rw [List.getElem?_eq_none (by simpa using hi), List.getElem?_eq_none (by simpa using hi)]

/-- A sound memory after a run is what it should be. -/
theorem RecordMem.Sound.kept [Add Value] {s : RecordMem} {r : AStat Value} {vs : List Value}
    (h : s.Sound nameData values p stat r) (hvalues : 0 < values)
    (hkeys : stat.keys.length ≤ keysMax) (hsize : recordSize values stat < 2 ^ 63)
    (hend : p + recordSize values stat < 2 ^ 64)
    (hvs : r.stat.values = if stat.type = .counter then [vs.foldl (· + ·) stat.value0]
      else (stat.value0 :: vs).take values) : RecordKept values p stat vs s.mem := by
  have hsame : recordSize values r.stat = recordSize values stat := by
    rw [recordSize_eq, recordSize_eq, valuesLength, valuesLength, h.type, h.keys]
  rw [← hsame] at hend
  have hranges := h.recordAt.map_keyRange hend
  have hdata := keyData_eq hvalues p stat.type
  have hslots := valueSlots_lt hvalues hsize
  have hroom := h.room
  rw [h.keys, h.type] at hranges
  rcases h.recordAt.load hend (by rw [h.keys]; exact hkeys) (by omega) with ⟨hload, hloadValues⟩
  refine ⟨h.within, ?_, ?_, by rw [hload, h.keys], by rw [hloadValues, hvs]⟩
  · -- the slots and the key values are laid behind each other from the first slot on
    have hall := laid_pairwise (p + offsetofValues)
      (List.replicate (valueSlots values stat.type) sizeofStatValue ++ keyLengths stat.keys)
    rw [laid_append, List.sum_replicate_nat, Nat.mul_comm, ← hdata] at hall
    rw [map_valueSlot, hranges]
    exact hall
  · intro i hi
    have hget : (laid (keyData p values stat.type) (keyLengths stat.keys))[i]? =
        some (keyRange s.mem p i) := by
      rw [← hranges, List.getElem?_map, List.getElem?_range (by omega)]
      rfl
    rw [laid_end (by simpa [keyLengths] using hi) hget, keyData_add]

/-- For every number of values and every stat, a block of the computed size holds the
record and everything merged into it: no write leaves the block, no slot and no key
value overlap, the last key value ends the block, and the keys and values are read back
as they were given, until the record is full. -/
theorem record_layout [Add Value] (nameData : Str → Nat) {values p : Nat} {stat : Stat Value}
    (hash now : Nat) (cell : Nat → UInt8) (calls : List RecordCall) (hvalues : 0 < values)
    (hkeys : stat.keys.length ≤ keysMax) (hsize : recordSize values stat < 2 ^ 63)
    (hend : p + recordSize values stat < 2 ^ 64) :
    (writeRecord nameData values stat hash (recordSize values stat) now p ⟨cell, []⟩).2 =
        p + recordSize values stat ∧
      RecordKept values p stat (merged calls)
        (Run.exec (RecordMem.step values stat.type p)
          ⟨(writeRecord nameData values stat hash (recordSize values stat) now p ⟨cell, []⟩).1,
            false⟩ calls).mem := by
  constructor
  · rw [writeRecord_eq]
  · -- the memory and the record of the model go through the calls side by side
    have hinit : RecordMem.Sound nameData values p stat
        ⟨(writeRecord nameData values stat hash (recordSize values stat) now p ⟨cell, []⟩).1,
          false⟩
        (newRecord stat hash (recordSize values stat) now) := by
      refine ⟨writeRecord_recordAt hvalues hkeys _, ?_, rfl, rfl, by simp [newRecord], ?_, rfl⟩
      · apply writeRecord_within hvalues hkeys
        intro a ha
        cases ha
      · simp only [newRecord, List.length_singleton, valueSlots]
        split
        · exact Nat.le_refl 1
        · exact hvalues
    have hrun := Run.exec_related (fun s r call h => h.step hvalues hkeys hsize call) hinit calls
    apply hrun.kept hvalues hkeys hsize hend
    by_cases htype : stat.type = .counter
    · rw [if_pos htype]
      exact receive_counter htype rfl ⟨_, rfl⟩ calls
    · rw [if_neg htype]
      exact receive_values htype hvalues (fun hret => by cases hret) calls

end Main

attribute [local instance] sampleAdd in
/-- A value with two keys, one of them empty, and three more values of which the last finds
the record full. -/
theorem record_layout_sample :
    RecordKept 3 4096 ⟨.value, [109], [⟨[49], [97, 98]⟩, ⟨[50], []⟩], [⟨7⟩]⟩ [⟨8⟩, ⟨9⟩, ⟨10⟩]
      (Run.exec (RecordMem.step 3 .value 4096)
        ⟨(writeRecord (fun _ => 64) 3 ⟨.value, [109], [⟨[49], [97, 98]⟩, ⟨[50], []⟩], [⟨7⟩]⟩ 1
          682 0 4096 ⟨fun _ => 0, []⟩).1, false⟩
        [.merge ⟨8⟩, .queue 1 2, .merge ⟨9⟩, .merge ⟨10⟩]).mem :=
  (record_layout (fun _ => 64) 1 0 (fun _ => 0)
    [.merge ⟨8⟩, .queue 1 2, .merge ⟨9⟩, .merge ⟨10⟩] (by decide) (by decide) (by decide)
    (by decide)).2

end StatsHouse
