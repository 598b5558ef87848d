import StatsHouse.Columns
import StatsHouse.Tokens

/-! # The matrix of stats

`ngx_statshouse_stat_compile` as a whole, on the splitter of the source or any
other. `Splitter.items` is what its loops see of a splitter: the items up to the
end of the array, whatever finite list a splitter yields.

* `statCompile_matrix`: the stats returned are the rows of the matrix.
* `items_ofParts` and `items_statSplitter` say which splitters that covers: one for any finite
  lists of items, and that of the source, whose items are the parts its calls return.
-/

namespace StatsHouse

open Generator Outcome

variable {C V P ε : Type}

/-! ## The whole function -/

/-- The strings of the keys: where one is not empty the key has a name and is not
disabled. -/
theorem liveKeys_zip {complex : C → Option Str} {keys : List (ConfKey C)} {strs : List Str}
    (h : evalKeys complex keys = some strs) :
    liveKeys (keys.zip strs) = activeKeys complex keys ∧
      ∀ key ∈ keys.zip strs, key.1.name.length = 0 → statIsEmpty key.2 = true := by
  induction keys generalizing strs with
  | nil =>
      cases h
      exact ⟨rfl, by simp⟩
  | cons key keys ih =>
      have hempty : statIsEmpty [] = true := rfl
      -- what the four branches share: the string of the first key, and whether it counts
      have hcons : ∀ str strs', evalKeys complex keys = some strs' → strs = str :: strs' →
          (key.name.length = 0 → statIsEmpty str = true) →
          activeKeys complex (key :: keys) =
            (if statIsEmpty str then [] else [(key, str)]) ++ activeKeys complex keys →
          liveKeys ((key :: keys).zip strs) = activeKeys complex (key :: keys) ∧
            ∀ key' ∈ (key :: keys).zip strs, key'.1.name.length = 0 →
              statIsEmpty key'.2 = true := by
        rintro str strs' hstrs rfl hname hactive
        rcases ih hstrs with ⟨hlive, hnames⟩
        rw [hactive, ← hlive]
        constructor
        · by_cases hstr : statIsEmpty str = true <;> simp [liveKeys, hstr]
        · intro key' hkey'
          rcases List.mem_cons.mp hkey' with rfl | hkey'
          · exact hname
          · exact hnames key' hkey'
      rw [evalKeys] at h
      by_cases hdisable : key.disable = true
      · rw [if_pos hdisable] at h
        rcases Option.map_eq_some_iff.mp h with ⟨strs', hstrs, rfl⟩
        exact hcons [] strs' hstrs rfl (fun _ => hempty) (by simp [activeKeys, hdisable, hempty])
      · rw [if_neg hdisable] at h
        by_cases hname : key.name.length = 0
        · rw [if_pos hname] at h
          rcases Option.map_eq_some_iff.mp h with ⟨strs', hstrs, rfl⟩
          exact hcons [] strs' hstrs rfl (fun _ => hempty)
            (by simp [activeKeys, List.length_eq_zero_iff.mp hname, hempty])
        · rw [if_neg hname] at h
          cases hstr : complex key.complex with
          | none =>
              rw [hstr] at h
              cases h
          | some str =>
              rw [hstr] at h
              rcases Option.map_eq_some_iff.mp h with ⟨strs', hstrs, rfl⟩
              refine hcons str strs' hstrs rfl (fun h => absurd h hname) ?_
              have hne : key.name ≠ [] := fun h => hname (by rw [h]; rfl)
              by_cases hempty' : statIsEmpty str = true <;>
                simp [activeKeys, hdisable, hne, hstr, hempty']

section Compile

variable [Inhabited V] {num : Numbers V} {sp : Splitter P ε} {conf : Conf C}
  {complex : C → Option Str} {max : Nat}

/-- What the function returns: the value and the keys evaluate, the parts of the
value parse, and the stats are the rows of the matrix. -/
def IsMatrix (num : Numbers V) (sp : Splitter P ε) (conf : Conf C) (complex : C → Option Str)
    (max n : Nat) (stats : List (Stat V)) : Prop :=
  ∃ s values, complex conf.value.complex = some s ∧
    (valueParts sp conf.value max s).mapM (statPartValue num conf.value.type) = some values ∧
    n = rowCount sp max values (activeKeys complex conf.keys) ∧
    ∀ j < n, stats[j]? = some (row num sp conf max values (activeKeys complex conf.keys) j)

/-- After the value loop the stats are the rows of the matrix without keys. -/
theorem ValuesInv.keysInv {values : List V} {splits : Nat} {stats : List (Stat V)}
    (h : ValuesInv conf max values splits stats) :
    KeysInv num sp conf max values [] splits stats := by
  constructor
  · exact h.splits_eq
  · exact h.le_max
  · exact h.length
  · intro j hj
    rw [h.splits_eq] at hj
    rw [h.rows j hj, row, valueAt, dif_pos hj]
    rfl

theorem ends_statCompileSplits {stats : List (Stat V)} (hstats : stats.length = max)
    (hmax : 0 < max) :
    Ends Halt.Inside
      (fun r => 0 < r.1 ∧ r.1 ≤ max ∧ r.2.length = max ∧
        IsMatrix num sp conf complex max r.1 r.2)
      (statCompileSplits num sp conf complex max stats) := by
  unfold statCompileSplits
  simp only
  split
  · exact Halt.inside_ret _
  · split
    · exact Halt.inside_ret _
    · rename_i s hs
      split
      · exact Halt.inside_ret _
      · rename_i strs hstrs
        have hinit : ValuesInv conf max [] 0 stats := by
          constructor
          · rfl
          · exact Nat.zero_le _
          · exact hstats
          · intro j hj
            cases hj
        refine (ends_valuesLoop s sp.start hinit hmax).bind ?_
        rintro ⟨splits, stats'⟩ ⟨values, hvalues, hinv⟩
        rw [List.nil_append] at hinv
        rcases liveKeys_zip hstrs with ⟨hlive, hnames⟩
        split
        · exact Halt.inside_ret _
        · rename_i hsplits
          have hpos : 0 < values.length := by
            rw [← hinv.splits_eq]
            exact Nat.pos_of_ne_zero hsplits
          rcases valuePartsFrom_eq hvalues hpos with ⟨hparts, hsingle⟩
          -- the value loop has made the rows without keys, which the loop over the keys extends
          refine (ends_keysLoop (conf.keys.zip strs) [] hnames hpos hsingle hinv.keysInv).imp ?_
          rintro ⟨n, stats''⟩ hkeys
          rw [List.nil_append, hlive] at hkeys
          refine ⟨?_, hkeys.le_max, hkeys.length, s, values, hs, hparts, hkeys.count, hkeys.rows⟩
          have hcount : n = rowCount sp max values (activeKeys complex conf.keys) := hkeys.count
          show 0 < n
          rw [hcount]
          exact Nat.lt_of_lt_of_le hpos (length_le_rowCount values _)

end Compile

/-- The split array of a server, as `ngx_statshouse_server_init` allocates it. -/
structure SplitArray (V : Type) where
  splitsMax : Nat
  splits : List (Stat V)
  length_splits : splits.length = splitsMax

/-- In an array that is not empty, the stats returned are the rows of the matrix. -/
theorem statCompile_matrix [Inhabited V] (num : Numbers V) (sp : Splitter P ε) (conf : Conf C)
    (complex : C → Option Str) (last now : Nat) (server : SplitArray V)
    (hmax : 1 ≤ server.splitsMax) (n : Nat) (stats : List (Stat V))
    (h : (statCompile num sp conf complex last now server.splitsMax server.splits).2 =
      .ok (n, stats)) :
    IsMatrix num sp conf complex server.splitsMax n stats := by
  unfold statCompile at h
  split at h
  · cases h
  · split at h
    · cases h
    · exact ((ends_statCompileSplits server.length_splits hmax).of_ok h).2.2.2

/-- A counter with a split key "k" and its string. -/
def splitKeyConf (str : Str) : Conf Str :=
  { name := [0x6d], condition := none, timeout := 0, disable := false
    value := ⟨[0x31], .counter, false⟩
    keys := ⟨str, [0x6b], true, false⟩ :: List.replicate 16 ⟨[], [], false, false⟩
    length_keys := rfl }

/-- The key "a, b" makes two stats. -/
theorem statCompile_matrix_two :
    IsMatrix wholeNumbers statSplitter (splitKeyConf [97, comma, space, 98]) some 2 2
      [⟨.counter, [0x6d], [⟨[0x6b], [97]⟩], [1]⟩, ⟨.counter, [0x6d], [⟨[0x6b], [98]⟩], [1]⟩] :=
  statCompile_matrix wholeNumbers statSplitter (splitKeyConf [97, comma, space, 98]) some 0 0
    ⟨2, List.replicate 2 ⟨.counter, [], [], []⟩, rfl⟩ (by decide) 2 _ (by decide +kernel)

/-! ## The items -/

/-- The calls of a splitter on one string. -/
def Splitter.gen (sp : Splitter P ε) (str : Str) : Str × P → Except ε (Option (Str × P)) :=
  fun call => sp.part str call.2

/-- Where the splitter comes to an end, the items are those it yields. -/
theorem itemsFrom_of_yields {sp : Splitter P ε} {str : Str} {items : List Str} {call : Str × P}
    (h : Yields (sp.gen str) Prod.fst call items) (n : Nat) :
    sp.itemsFrom str n call.2 = items.take n := by
  induction n generalizing call items with
  | zero => simp [Splitter.itemsFrom]
  | succ n ih =>
      rw [Splitter.itemsFrom]
      cases items with
      | nil =>
          have hpart : sp.part str call.2 = .ok none := h
          rw [hpart]
          rfl
      | cons item items =>
          rcases h with ⟨call', hpart, rfl, hrest⟩
          rw [Splitter.gen] at hpart
          rw [hpart, List.take_succ_cons, ← ih hrest]

/-- A splitter that answers the lists `parts`. -/
def Splitter.ofParts (parts : Str → List Str) : Splitter (Option (List Str)) Fault where
  start := none
  part := fun str rest =>
    match rest.getD (parts str) with
    | [] => .ok none
    | item :: items => .ok (some (item, some items))

/-- Any finite lists are the items of a splitter. -/
theorem items_ofParts (parts : Str → List Str) (max : Nat) (str : Str) :
    (Splitter.ofParts parts).items max str = (parts str).take max := by
  have hyields : ∀ (items : List Str) (item : Str) (rest : Option (List Str)),
      rest.getD (parts str) = items →
      Yields ((Splitter.ofParts parts).gen str) Prod.fst (item, rest) items := by
    intro items
    induction items with
    | nil =>
        intro item rest hrest
        show (Splitter.ofParts parts).part str rest = .ok none
        simp only [Splitter.ofParts, hrest]
    | cons next items ih =>
        intro item rest hrest
        refine ⟨(next, some items), ?_, rfl, ih next (some items) rfl⟩
        show (Splitter.ofParts parts).part str rest = .ok (some (next, some items))
        simp only [Splitter.ofParts, hrest]
  have hitems := itemsFrom_of_yields (hyields (parts str) [] none rfl) max
  exact hitems

/-- The items of the splitter of the source are those its calls return. -/
theorem items_statSplitter {str : Str} {items : List Str} (h : StatParts str items) (max : Nat) :
    statSplitter.items max str = items.take max := by
  have hyields : ∀ (items : List Str) (item : Str) (split : Split),
      Yields (statPart str) Split.str split items →
      Yields (statSplitter.gen str) Prod.fst (item, split) items := by
    intro items
    induction items with
    | nil =>
        intro item split hsplit
        have hpart : statPart str split = .ok none := hsplit
        show statSplitter.part str split = .ok none
        simp only [statSplitter, hpart]
        rfl
    | cons next items ih =>
        rintro item split ⟨split', hpart, rfl, hrest⟩
        refine ⟨(split'.str, split'), ?_, rfl, ih _ split' hrest⟩
        show statSplitter.part str split = .ok (some (split'.str, split'))
        simp only [statSplitter, hpart]
        rfl
  have hitems := itemsFrom_of_yields (hyields items [] Split.init h) max
  exact hitems

end StatsHouse
