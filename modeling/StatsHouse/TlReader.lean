import StatsHouse.Tl

/-! # Reading a datagram back

The receiving side of the TL encoding: a batch is a tag, a mask, a count and
that many metrics; a metric is a field mask, a name, counted key pairs and one
8-byte counter or a counted list of 8-byte values; a string is its length, its
bytes and zeros up to a multiple of four. Nothing here looks at the writer.

* `roundTrips_unique_iff`: a unique metric is read back exactly when it holds
  one value, because the writer's count word is the constant 1.
* `readDatagram_tlDatagram`: every datagram of counter and value metrics is read
  back, as long as a value metric's count fits its 32-bit word.
-/

namespace StatsHouse

open Codec

/-! ## The reader -/

/-- The bytes of a string and the zeros up to the next word, behind a header of
`header` bytes. -/
def readBody (header n : Nat) : Reader UInt8 Str := do
  let str ← take n
  expect (List.replicate ((4 - (header + n) % 4) % 4) 0)
  pure str

/-- A string in its short or long form. -/
def readString : Reader UInt8 Str := do
  let b ← next
  if b.toNat ≤ tlTinyStringLen then
    readBody 1 b.toNat
  else if b.toNat = tlBigStringMarker then
    let n ← readLe 3
    readBody 4 n
  else
    failure

def readKey : Reader UInt8 StatKey := do
  let name ← readString
  let value ← readString
  pure ⟨name, value⟩

def readValue : Reader UInt8 Value := do
  let n ← readLe 8
  pure ⟨UInt64.ofNat n⟩

/-- A count word and that many 8-byte values. -/
def readCounted : Reader UInt8 (List Value) := do
  let n ← readLe 4
  times readValue n

/-- The values of a metric, as its field mask selects them. -/
def readKind (mask : Nat) : Reader UInt8 (MetricType × List Value) :=
  if mask = 1 then do
    let v ← readValue
    pure (.counter, [v])
  else if mask = 2 then do
    let vs ← readCounted
    pure (.value, vs)
  else if mask = 4 then do
    let vs ← readCounted
    pure (.unique, vs)
  else
    failure

def readMetric : Reader UInt8 (Stat Value) := do
  let mask ← readLe 4
  let name ← readString
  let keysCount ← readLe 4
  let keys ← times readKey keysCount
  let kind ← readKind mask
  pure { type := kind.1, name := name, keys := keys, values := kind.2 }

/-- A batch of metrics. -/
def readMetrics : Reader UInt8 (List (Stat Value)) := do
  let tag ← readLe 4
  if tag = tlTag then
    let _mask ← readLe 4
    let count ← readLe 4
    times readMetric count
  else
    failure

/-- The metrics of a datagram, read batch by batch to its end. -/
def readDatagram (bs : List UInt8) : Option (List (Stat Value)) :=
  (drain readMetrics bs).map List.flatten

/-- The encodings of stats one after another, as the server appends them. -/
def tlDatagram (stats : List (Stat Value)) : List UInt8 :=
  stats.flatMap fun stat => tlMetrics [stat]

/-! ## What the writer's pieces carry -/

/-- The strings of a stat are short enough for the three length bytes. -/
def ShortStrings (stat : Stat Value) : Prop :=
  stat.name.length < 2 ^ 24 ∧
    ∀ k ∈ stat.keys, k.name.length < 2 ^ 24 ∧ k.value.length < 2 ^ 24

instance (stat : Stat Value) : Decidable (ShortStrings stat) := inferInstanceAs (Decidable (_ ∧ _))

/-- The zeros of the writer are those the reader expects. -/
theorem tlStringPadding_eq {header n : Nat} (h : header = if n ≤ tlTinyStringLen then 1 else 4) :
    tlStringPadding n = (4 - (header + n) % 4) % 4 := by
  subst h
  unfold tlStringPadding
  rw [sizeNeg_mod_four]
  split <;> omega

theorem reads_body {header : Nat} {str : Str}
    (h : header = if str.length ≤ tlTinyStringLen then 1 else 4) :
    Reads (readBody header str.length)
      (str ++ List.replicate (tlStringPadding str.length) 0) str := by
  rw [tlStringPadding_eq h]
  have hzeros := reads_expect (List.replicate ((4 - (header + str.length) % 4) % 4) (0 : UInt8))
  have hread : Reads (readBody header str.length) (str ++ (_ ++ [])) str :=
    (reads_take rfl).bind (hzeros.bind (reads_pure str))
  simpa using hread

/-- The three length bytes of the long form, as a little-endian word. -/
theorem lengthBytes_eq (n : Nat) :
    [UInt8.ofNat n, UInt8.ofNat (n >>> 8), UInt8.ofNat (n >>> 16)] = leBytes 3 n := by
  simp [leBytes, Nat.shiftRight_eq_div_pow, Nat.div_div_eq_div_mul]

/-- A string is read back in both forms, at every length below `2 ^ 24`. -/
theorem reads_tlString {str : Str} (h : str.length < 2 ^ 24) :
    Reads readString (tlString str) str := by
  have hbody : ∀ header, header = (if str.length ≤ tlTinyStringLen then 1 else 4) →
      Reads (readBody header str.length)
        (str ++ List.replicate (tlStringPadding str.length) 0) str :=
    fun header hheader => reads_body hheader
  by_cases htiny : str.length ≤ tlTinyStringLen
  · -- short form: the length is the first byte
    have hb : (UInt8.ofNat str.length).toNat = str.length := by
      simp only [tlTinyStringLen] at htiny
      simp
      omega
    have hread : Reads readString ([UInt8.ofNat str.length] ++
        (str ++ List.replicate (tlStringPadding str.length) 0)) str := by
      apply (reads_next _).bind
      rw [hb, if_pos htiny]
      exact hbody 1 (by rw [if_pos htiny])
    simpa [tlString, htiny] using hread
  · -- long form: the marker, then three length bytes
    have hm : (UInt8.ofNat tlBigStringMarker).toNat = tlBigStringMarker := by decide
    have hread : Reads readString ([UInt8.ofNat tlBigStringMarker] ++
        (leBytes 3 str.length ++ (str ++ List.replicate (tlStringPadding str.length) 0))) str := by
      apply (reads_next _).bind
      rw [hm, if_neg (by decide), if_pos rfl]
      apply (reads_leBytes_of_lt (by simpa using h)).bind
      exact hbody 4 (by rw [if_neg htiny])
    rw [← lengthBytes_eq] at hread
    simpa [tlString, htiny] using hread

/-- Whatever is read, no string from `2 ^ 24` bytes on comes out: three bytes
carry its length. -/
theorem length_lt_of_run_readString {s t : List UInt8} {str : Str}
    (h : readString.run s = some (str, t)) : str.length < 2 ^ 24 := by
  have hbody : ∀ {header n : Nat} {s : List UInt8},
      (readBody header n).run s = some (str, t) → str.length = n := by
    intro header n s hrun
    rcases run_bind_eq_some hrun with ⟨bs, mid, htake, hrest⟩
    rcases run_bind_eq_some hrest with ⟨-, mid', -, hpure⟩
    have hbs : (bs, mid') = (str, t) := Option.some.inj hpure
    rcases Prod.mk.inj hbs with ⟨rfl, -⟩
    exact length_of_run_take htake
  rcases run_bind_eq_some h with ⟨b, mid, -, hform⟩
  split at hform
  · -- short form
    have hb := b.toNat_lt
    have hlen := hbody hform
    omega
  · split at hform
    · -- long form
      rcases run_bind_eq_some hform with ⟨n, mid', hn, hrest⟩
      rw [hbody hrest]
      exact lt_of_run_readLe hn
    · have hnone : none = some (str, t) := hform
      cases hnone

theorem reads_tlKey {k : StatKey} (h : k.name.length < 2 ^ 24 ∧ k.value.length < 2 ^ 24) :
    Reads readKey (tlString k.name ++ tlString k.value) k := by
  have hread : Reads readKey (tlString k.name ++ (tlString k.value ++ [])) ⟨k.name, k.value⟩ :=
    (reads_tlString h.1).bind ((reads_tlString h.2).bind (reads_pure _))
  simpa using hread

/-- Eight bytes carry a value, whichever member of the union is meant. -/
theorem reads_tlDouble (v : Value) : Reads readValue (tlDouble v) v := by
  have hlt : v.bits.toNat < 256 ^ 8 := v.bits.toNat_lt
  have hread : Reads readValue (tlDouble v ++ []) ⟨UInt64.ofNat v.bits.toNat⟩ :=
    (reads_leBytes_of_lt hlt).bind (reads_pure _)
  simpa using hread

theorem reads_tlUint32 {n : Nat} (h : n < 2 ^ 32) : Reads (readLe 4) (tlUint32 n) n :=
  reads_leBytes_of_lt (by simpa using h)

/-- A count word `w` makes the reader take `w % 2 ^ 32` values, not more and not
fewer. -/
theorem reads_counted {w : Nat} {values : List Value} (h : values.length = w % 2 ^ 32) :
    Reads readCounted (tlUint32 w ++ values.flatMap tlDouble) values := by
  have hw : Reads (readLe 4) (tlUint32 w) values.length := by
    rw [h]
    exact reads_leBytes 4 w
  exact hw.bind (reads_times fun v _ => reads_tlDouble v)

/-! ## What the reader returns off a metric -/

/-- The bytes of a metric up to its values. -/
def tlMetricHead (stat : Stat Value) : List UInt8 :=
  tlInt32 (fieldMask stat.type) ++ tlString stat.name ++ tlUint32 stat.keys.length ++
    stat.keys.flatMap fun k => tlString k.name ++ tlString k.value

theorem reads_fieldMask (type : MetricType) :
    Reads (readLe 4) (tlInt32 (fieldMask type)) (fieldMask type) := by
  cases type <;> exact reads_leBytes_of_lt (by decide)

/-- Whatever values the reader takes behind the head of a metric, it returns
them under the name and the keys of that metric. -/
theorem reads_metric {stat : Stat Value} {bs : List UInt8} {kind : MetricType × List Value}
    (hs : ShortStrings stat) (hkeys : stat.keys.length ≤ keysMax)
    (hkind : Reads (readKind (fieldMask stat.type)) bs kind) :
    Reads readMetric (tlMetricHead stat ++ bs)
      { type := kind.1, name := stat.name, keys := stat.keys, values := kind.2 } := by
  have hcount : Reads (readLe 4) (tlUint32 stat.keys.length) stat.keys.length :=
    reads_tlUint32 (by simp only [keysMax] at hkeys; omega)
  have hpairs : Reads (times readKey stat.keys.length)
      (stat.keys.flatMap fun k => tlString k.name ++ tlString k.value) stat.keys :=
    reads_times fun k hk => reads_tlKey (hs.2 k hk)
  have hread : Reads readMetric (tlInt32 (fieldMask stat.type) ++ (tlString stat.name ++
      (tlUint32 stat.keys.length ++ (_ ++ (bs ++ []))))) _ :=
    (reads_fieldMask stat.type).bind ((reads_tlString hs.1).bind (hcount.bind
      (hpairs.bind (hkind.bind (reads_pure _)))))
  simpa [tlMetricHead] using hread

/-- A batch of one metric. -/
theorem reads_metrics {bs : List UInt8} {stat : Stat Value} (h : Reads readMetric bs stat) :
    Reads readMetrics (tlUint32 tlTag ++ tlUint32 0 ++ tlUint32 1 ++ bs) [stat] := by
  have hread : Reads readMetrics (tlUint32 tlTag ++ (tlUint32 0 ++ (tlUint32 1 ++
      (bs ++ ([] ++ []))))) [stat] := by
    apply (reads_tlUint32 (by decide)).bind
    rw [if_pos rfl]
    refine (reads_tlUint32 (by decide)).bind ((reads_tlUint32 (by decide)).bind ?_)
    exact h.bind ((reads_pure []).bind (reads_pure [stat]))
  simpa using hread

theorem tlMetrics_singleton (stat : Stat Value) :
    tlMetrics [stat] = tlUint32 tlTag ++ tlUint32 0 ++ tlUint32 1 ++ tlMetric stat := by
  simp [tlMetrics]

theorem tlMetrics_ne_nil (stats : List (Stat Value)) : tlMetrics stats ≠ [] := by
  intro h
  have hlen := congrArg List.length h
  simp [tlMetrics, tlUint32Len] at hlen

/-- A counter, whose one value follows the head. -/
theorem reads_tlMetric_counter {stat : Stat Value} (htype : stat.type = .counter)
    (hs : ShortStrings stat) (hkeys : stat.keys.length ≤ keysMax)
    (hvalues : stat.values.length = 1) : Reads readMetric (tlMetric stat) stat := by
  rcases List.length_eq_one_iff.mp hvalues with ⟨v, hv⟩
  have hkind : Reads (readKind (fieldMask stat.type)) (tlDouble v ++ []) (.counter, [v]) := by
    rw [htype]
    exact (reads_tlDouble v).bind (reads_pure _)
  have hread := reads_metric hs hkeys hkind
  rcases stat with ⟨type, name, keys, values⟩
  subst htype hv
  simpa [tlMetric, tlMetricHead, Stat.value0] using hread

/-- A metric with a count word `w`, read up to as many values as `w` says. -/
theorem reads_metric_counted {stat : Stat Value} {w : Nat} (htype : stat.type ≠ .counter)
    (hs : ShortStrings stat) (hkeys : stat.keys.length ≤ keysMax)
    (hw : w % 2 ^ 32 ≤ stat.values.length) :
    Reads readMetric
      (tlMetricHead stat ++ (tlUint32 w ++ (stat.values.take (w % 2 ^ 32)).flatMap tlDouble))
      { stat with values := stat.values.take (w % 2 ^ 32) } := by
  have hcounted : Reads readCounted
      (tlUint32 w ++ (stat.values.take (w % 2 ^ 32)).flatMap tlDouble)
      (stat.values.take (w % 2 ^ 32)) :=
    reads_counted (by rw [List.length_take]; omega)
  have hkind : Reads (readKind (fieldMask stat.type))
      (tlUint32 w ++ (stat.values.take (w % 2 ^ 32)).flatMap tlDouble ++ [])
      (stat.type, stat.values.take (w % 2 ^ 32)) := by
    cases ht : stat.type with
    | counter => exact absurd ht htype
    | value => exact hcounted.bind (reads_pure _)
    | unique => exact hcounted.bind (reads_pure _)
  simpa using reads_metric hs hkeys hkind

/-- The count word a metric carries in front of its values. -/
def countWord (stat : Stat Value) : Nat :=
  match stat.type with
  | .unique => 1
  | _ => stat.values.length

/-- The bytes of a counted metric, cut where its count word makes the reader stop. -/
theorem tlMetric_eq_counted {stat : Stat Value} (htype : stat.type ≠ .counter) (n : Nat) :
    tlMetric stat =
      tlMetricHead stat ++ (tlUint32 (countWord stat) ++ (stat.values.take n).flatMap tlDouble) ++
        (stat.values.drop n).flatMap tlDouble := by
  have hcut : stat.values.flatMap tlDouble =
      (stat.values.take n).flatMap tlDouble ++ (stat.values.drop n).flatMap tlDouble := by
    rw [← List.flatMap_append, List.take_append_drop]
  have hwhole : tlMetric stat =
      tlMetricHead stat ++ (tlUint32 (countWord stat) ++ stat.values.flatMap tlDouble) := by
    cases ht : stat.type with
    | counter => exact absurd ht htype
    | value => simp only [tlMetric, tlMetricHead, countWord, ht]
    | unique =>
        -- `tlInt64` and `tlDouble` copy the same eight bytes
        simp only [tlMetric, tlMetricHead, countWord, ht]
        rfl
  rw [hwhole, hcut]
  simp only [List.append_assoc]

/-- A counted metric is read back when its count word is the number of its values. -/
theorem reads_tlMetric_counted {stat : Stat Value} (htype : stat.type ≠ .counter)
    (hs : ShortStrings stat) (hkeys : stat.keys.length ≤ keysMax)
    (hcount : countWord stat % 2 ^ 32 = stat.values.length) :
    Reads readMetric (tlMetric stat) stat := by
  have hread := reads_metric_counted htype hs hkeys (Nat.le_of_eq hcount)
  rw [hcount, List.take_length] at hread
  rw [tlMetric_eq_counted htype stat.values.length]
  simpa using hread

/-! ## Round trips -/

/-- The batch of one stat is read back as that stat, to its last byte and
whatever follows it. -/
def RoundTrips (stat : Stat Value) : Prop := Reads readMetrics (tlMetrics [stat]) [stat]

theorem roundTrips_of_reads {stat : Stat Value} (h : Reads readMetric (tlMetric stat) stat) :
    RoundTrips stat := by
  show Reads readMetrics (tlMetrics [stat]) [stat]
  rw [tlMetrics_singleton]
  exact reads_metrics h

/-- The reader stops at the count word, so a datagram that starts with a counted
metric starts with as many of its values as the word says. -/
theorem run_readMetrics_counted {stat : Stat Value} (htype : stat.type ≠ .counter)
    (hs : ShortStrings stat) (hkeys : stat.keys.length ≤ keysMax)
    (hcount : countWord stat % 2 ^ 32 ≤ stat.values.length) :
    ∃ bs tail, tlMetrics [stat] = bs ++ tail ∧ bs ≠ [] ∧
      Reads readMetrics bs
        [{ stat with values := stat.values.take (countWord stat % 2 ^ 32) }] := by
  have hread := reads_metrics (reads_metric_counted htype hs hkeys hcount)
  refine ⟨_, (stat.values.drop (countWord stat % 2 ^ 32)).flatMap tlDouble, ?_, ?_, hread⟩
  · rw [tlMetrics_singleton, tlMetric_eq_counted htype (countWord stat % 2 ^ 32),
      ← List.append_assoc]
  · intro h
    -- the tag alone makes the batch longer than nothing
    have hlen := congrArg List.length h
    simp [tlUint32Len] at hlen

/-- A counted metric that is read back has as many values as its count word says. -/
theorem countWord_of_roundTrips {stat : Stat Value} (htype : stat.type ≠ .counter)
    (hs : ShortStrings stat) (hkeys : stat.keys.length ≤ keysMax)
    (hcount : countWord stat % 2 ^ 32 ≤ stat.values.length) (h : RoundTrips stat) :
    countWord stat % 2 ^ 32 = stat.values.length := by
  rcases run_readMetrics_counted htype hs hkeys hcount with ⟨bs, tail, hbytes, -, hread⟩
  -- both readings start on the same bytes, so they return the same values
  have hwhole := h []
  rw [hbytes, List.append_assoc, hread] at hwhole
  simp only [Option.some.injEq, Prod.mk.injEq, List.cons.injEq, and_true] at hwhole
  have hvalues := congrArg (fun s : Stat Value => s.values.length) hwhole.1
  simp only [List.length_take] at hvalues
  omega

/-- A unique metric of one or more values is read back, with a following batch
at its true start, exactly when it holds one value. -/
theorem roundTrips_unique_iff {stat : Stat Value} (htype : stat.type = .unique)
    (hs : ShortStrings stat) (hkeys : stat.keys.length ≤ keysMax) (hvalues : stat.values ≠ []) :
    RoundTrips stat ↔ stat.values.length = 1 := by
  have hne : stat.type ≠ .counter := by simp [htype]
  have hword : countWord stat % 2 ^ 32 = 1 := by simp [countWord, htype]
  have hpos : 0 < stat.values.length := List.length_pos_of_ne_nil hvalues
  constructor
  · intro h
    have hcount := countWord_of_roundTrips hne hs hkeys (by omega) h
    omega
  · intro h
    exact roundTrips_of_reads (reads_tlMetric_counted hne hs hkeys (by omega))

theorem roundTrips_unique_one :
    RoundTrips ⟨.unique, [109], [⟨[49], [97, 98]⟩], [⟨7⟩]⟩ ↔ [(⟨7⟩ : Value)].length = 1 :=
  roundTrips_unique_iff rfl (by decide) (by decide) (by decide)

/-- Two aggregated values: the reader takes one and leaves the other in front of
the next batch. -/
theorem not_roundTrips_unique_two : ¬ RoundTrips ⟨.unique, [109], [], [⟨7⟩, ⟨8⟩]⟩ := by
  intro h
  have hcount := countWord_of_roundTrips (by decide) (by decide) (by decide) (by decide) h
  revert hcount
  decide

/-- A stat the writer and the reader agree on: a counter has its one value, and
the values of a value metric fit the count word. -/
def Countable (stat : Stat Value) : Prop :=
  stat.type = .counter ∧ stat.values.length = 1 ∨
    stat.type = .value ∧ stat.values.length < 2 ^ 32

instance (stat : Stat Value) : Decidable (Countable stat) := inferInstanceAs (Decidable (_ ∨ _))

/-- Every datagram of counter and value metrics is read back, to its last byte. -/
theorem readDatagram_tlDatagram {stats : List (Stat Value)}
    (hcount : ∀ stat ∈ stats, Countable stat) (hs : ∀ stat ∈ stats, ShortStrings stat)
    (hkeys : ∀ stat ∈ stats, stat.keys.length ≤ keysMax) :
    readDatagram (tlDatagram stats) = some stats := by
  have hread : ∀ batch ∈ stats.map (fun stat => [stat]),
      Reads readMetrics (tlMetrics batch) batch := by
    intro batch hbatch
    rcases List.mem_map.mp hbatch with ⟨stat, hstat, rfl⟩
    rcases hcount stat hstat with ⟨htype, hvalues⟩ | ⟨htype, hvalues⟩
    · exact roundTrips_of_reads
        (reads_tlMetric_counter htype (hs stat hstat) (hkeys stat hstat) hvalues)
    · refine roundTrips_of_reads
        (reads_tlMetric_counted (by simp [htype]) (hs stat hstat) (hkeys stat hstat) ?_)
      simp only [countWord, htype]
      omega
  have hdrain := drain_flatMap hread fun batch _ => tlMetrics_ne_nil batch
  have hbytes : tlDatagram stats = (stats.map fun stat => [stat]).flatMap tlMetrics := by
    simp [tlDatagram, List.flatMap_map]
  rw [readDatagram, hbytes, hdrain, Option.map_some, ← List.flatMap_def]
  simp

theorem readDatagram_tlDatagram_two :
    readDatagram (tlDatagram [⟨.counter, [109], [⟨[49], [97, 98]⟩], [⟨1⟩]⟩,
        ⟨.value, [110], [], [⟨2⟩, ⟨3⟩, ⟨4⟩]⟩]) =
      some [⟨.counter, [109], [⟨[49], [97, 98]⟩], [⟨1⟩]⟩, ⟨.value, [110], [], [⟨2⟩, ⟨3⟩, ⟨4⟩]⟩] :=
  readDatagram_tlDatagram (by decide) (by decide) (by decide)

/-- A datagram that is read back starts with a metric whose count word is the
number of its values. -/
theorem countWord_of_readDatagram {stat : Stat Value} (htype : stat.type ≠ .counter)
    (hs : ShortStrings stat) (hkeys : stat.keys.length ≤ keysMax)
    (hcount : countWord stat % 2 ^ 32 ≤ stat.values.length) {stats rest : List (Stat Value)}
    (h : readDatagram (tlDatagram (stat :: stats)) = some (stat :: rest)) :
    countWord stat % 2 ^ 32 = stat.values.length := by
  rcases run_readMetrics_counted htype hs hkeys hcount with ⟨bs, tail, hbytes, hne, hread⟩
  have hsplit : tlDatagram (stat :: stats) = bs ++ (tail ++ tlDatagram stats) := by
    rw [tlDatagram, List.flatMap_cons, hbytes, List.append_assoc]
    rfl
  obtain ⟨fuel, hfuel⟩ : ∃ n, (tlDatagram (stat :: stats)).length = n + 1 := by
    have hpos := List.length_pos_of_ne_nil hne
    rw [hsplit, List.length_append]
    exact ⟨bs.length - 1 + (tail ++ tlDatagram stats).length, by omega⟩
  -- the first batch that is read holds the values that the count word covers
  rw [readDatagram, drain, hfuel, hsplit, drainUpTo_append hread hne, Option.map_map,
    Option.map_eq_some_iff] at h
  rcases h with ⟨batches, -, hbatches⟩
  simp only [Function.comp_apply, List.flatten_cons, List.cons_append, List.cons.injEq] at hbatches
  have hvalues := congrArg (fun s : Stat Value => s.values.length) hbatches.1
  simp only [List.length_take] at hvalues
  omega

/-- With `2 ^ 32` values the count word is 0, and the reader takes the first
value for the tag of a next batch. -/
theorem readDatagram_wrapped_ne :
    readDatagram (tlDatagram [⟨.value, [109], [], List.replicate (2 ^ 32) ⟨0⟩⟩]) ≠
      some [⟨.value, [109], [], List.replicate (2 ^ 32) ⟨0⟩⟩] := by
  intro h
  have hlen : (List.replicate (2 ^ 32) (⟨0⟩ : Value)).length = 2 ^ 32 := List.length_replicate
  have hcount := countWord_of_readDatagram (by simp) ⟨by simp, by simp⟩ (by simp)
    (by simp only [countWord, hlen]; omega) h
  simp only [countWord, hlen] at hcount
  omega

end StatsHouse
