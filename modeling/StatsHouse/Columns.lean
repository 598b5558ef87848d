import Mathlib.Algebra.BigOperators.Group.List.Basic
import Mathlib.Algebra.Ring.Nat
import StatsHouse.Compile

/-! # The columns of the matrix

What `ngx_statshouse_stat_compile` is for, cell by cell: stat `j` has the `j`-th
part of the value and, of each key that is not empty, the whole string or the
`j`-th part. The loops fill the matrix column by column; a column that is longer
than those before adds rows to it.

`ends_valuesLoop`, `ends_splitKeyLoop`, `ends_plainKeyLoop` and `ends_keysLoop`
say what the loops have done, inside the array in any case.
-/

namespace StatsHouse

open Outcome

variable {C V P ε : Type}

/-! ## The matrix -/

/-- The first `n` items the splitter finds from `p` on. -/
def Splitter.itemsFrom (sp : Splitter P ε) (str : Str) : Nat → P → List Str
  | 0, _ => []
  | n + 1, p =>
    match sp.part str p with
    | .ok (some (item, p)) => item :: sp.itemsFrom str n p
    | _ => []

/-- The items the splitter finds in a string, truncated to `max`. -/
def Splitter.items (sp : Splitter P ε) (max : Nat) (str : Str) : List Str :=
  sp.itemsFrom str max sp.start

/-- The parts of the value. -/
def valueParts (sp : Splitter P ε) (value : ConfValue C) (max : Nat) (s : Str) : List Str :=
  if value.split then sp.items max s else [s]

/-- The keys that are configured, not disabled and not empty, with their strings. -/
def activeKeys (complex : C → Option Str) (keys : List (ConfKey C)) : List (ConfKey C × Str) :=
  keys.filterMap fun key =>
    if key.name.length = 0 ∨ key.disable then none
    else
      match complex key.complex with
      | none => none
      | some str => if statIsEmpty str then none else some (key, str)

/-- What a key adds to stat `j`. -/
def keyAt (sp : Splitter P ε) (max j : Nat) (key : ConfKey C × Str) : Option StatKey :=
  if key.1.split then ((sp.items max key.2)[j]?).map (StatKey.mk key.1.name)
  else some (StatKey.mk key.1.name key.2)

/-- The value of stat `j`. -/
def valueAt [Inhabited V] (num : Numbers V) (split : Bool) (values : List V) (j : Nat) : V :=
  if h : j < values.length then values[j]
  else if split then num.zero
  else values.headD default

/-- Stat `j`. -/
def row [Inhabited V] (num : Numbers V) (sp : Splitter P ε) (conf : Conf C) (max : Nat)
    (values : List V) (active : List (ConfKey C × Str)) (j : Nat) : Stat V :=
  { type := conf.value.type
    name := conf.name
    keys := active.filterMap (keyAt sp max j)
    values := [valueAt num conf.value.split values j] }

/-- The number of stats: as many as the longest column has parts. -/
def rowCount (sp : Splitter P ε) (max : Nat) (values : List V) (active : List (ConfKey C × Str)) :
    Nat :=
  (active.filter fun key => key.1.split).foldl
    (fun n key => Nat.max n (sp.items max key.2).length) values.length

/-! ## The array -/

/-- An end that is no access outside the array. -/
def Halt.Inside (halt : Halt ε) : Prop := ∀ k, halt ≠ .outside k

theorem Halt.inside_ret (rc : Rc) : (Halt.ret rc : Halt ε).Inside := by
  intro k hk
  cases hk

theorem Halt.inside_splitter (fault : ε) : (Halt.splitter fault).Inside := by
  intro k hk
  cases hk

theorem ends_setStat {stats : List (Stat V)} {k : Nat} (h : k < stats.length)
    (f : Stat V → Stat V) :
    Ends Halt.Inside (· = stats.modify k f) (setStat stats k f : Except (Halt ε) _) := by
  rw [setStat, if_pos h]
  rfl

theorem ends_statAt {stats : List (Stat V)} {k : Nat} {stat : Stat V} (h : stats[k]? = some stat) :
    Ends Halt.Inside (· = stat) (statAt stats k : Except (Halt ε) _) := by
  rw [statAt, h]
  rfl

/-! ## The value loop -/

section Loops

variable {num : Numbers V} {sp : Splitter P ε} {conf : Conf C} {max : Nat}

/-- A stat with a value and no keys. -/
def baseStat (conf : Conf C) (value : V) : Stat V :=
  { type := conf.value.type, name := conf.name, keys := [], values := [value] }

/-- The parts of the value from `p` on, of which the loop takes at most `left`. -/
def valuePartsFrom (sp : Splitter P ε) (value : ConfValue C) (s : Str) (left : Nat) (p : P) :
    List Str :=
  if value.split then sp.itemsFrom s left p else if s.length = 0 then [] else [s]

/-- What the value loop has done: `values` are the values of the first stats. -/
structure ValuesInv (conf : Conf C) (max : Nat) (values : List V) (splits : Nat)
    (stats : List (Stat V)) : Prop where
  splits_eq : splits = values.length
  le_max : splits ≤ max
  length : stats.length = max
  rows : ∀ j (h : j < values.length), stats[j]? = some (baseStat conf values[j])

theorem ValuesInv.snoc {values : List V} {splits : Nat} {stats : List (Stat V)}
    (h : ValuesInv conf max values splits stats) (hsplits : splits < max) (value : V) :
    ValuesInv conf max (values ++ [value]) (splits + 1)
      ((stats.modify splits fun _ => Stat.init conf.name conf.value.type).modify splits
        (·.addValue value)) := by
  constructor
  · rw [List.length_append, h.splits_eq, List.length_singleton]
  · exact hsplits
  · rw [List.length_modify, List.length_modify, h.length]
  · intro j hj
    rw [List.length_append, List.length_singleton, ← h.splits_eq] at hj
    by_cases hjs : j = splits
    · -- the new stat
      subst hjs
      have hstat : j < stats.length := by
        rw [h.length]
        exact hsplits
      rw [List.getElem?_modify_eq, List.getElem?_modify_eq, List.getElem?_eq_getElem hstat]
      simp [Stat.init, Stat.addValue, baseStat, h.splits_eq]
    · have hlt : j < values.length := by
        have := h.splits_eq
        omega
      rw [List.getElem?_modify_ne _ _ (Ne.symm hjs), List.getElem?_modify_ne _ _ (Ne.symm hjs),
        h.rows j hlt, List.getElem_append_left hlt]

/-- One value more: the body of the loop behind the splitter. -/
theorem ends_valueBody {values : List V} {splits : Nat} {stats : List (Stat V)}
    (h : ValuesInv conf max values splits stats) (hsplits : splits < max) (part : Str)
    {next : List (Stat V) → Except (Halt ε) (Nat × List (Stat V))} {rest : List Str}
    (hnext : ∀ value stats', statPartValue num conf.value.type part = some value →
      ValuesInv conf max (values ++ [value]) (splits + 1) stats' →
      Ends Halt.Inside
        (fun r => ∃ more, rest.mapM (statPartValue num conf.value.type) = some more ∧
          ValuesInv conf max (values ++ [value] ++ more) r.1 r.2) (next stats')) :
    Ends Halt.Inside
      (fun r => ∃ more, (part :: rest).mapM (statPartValue num conf.value.type) = some more ∧
        ValuesInv conf max (values ++ more) r.1 r.2)
      (do
        let stats ← setStat stats splits fun _ => Stat.init conf.name conf.value.type
        match statPartValue num conf.value.type part with
        | none => throw (.ret .error)
        | some value =>
          let stats ← setStat stats splits (·.addValue value)
          next stats) := by
  have hlength := h.length
  refine (ends_setStat (by omega) _).bind ?_
  rintro stats' rfl
  cases hvalue : statPartValue num conf.value.type part with
  | none => exact Halt.inside_ret .error
  | some value =>
      -- the stat is made and gets its value, and the rest of the loop takes over
      refine (ends_setStat (by simpa using by omega) _).bind ?_
      rintro stats' rfl
      refine (hnext value _ hvalue (h.snoc hsplits value)).imp ?_
      rintro r ⟨more, hmore, hinv⟩
      refine ⟨value :: more, ?_, by rwa [List.append_assoc] at hinv⟩
      rw [List.mapM_cons, hvalue, hmore]
      rfl

theorem ends_valuesLoop (s : Str) (p : P) {values : List V} {splits : Nat}
    {stats : List (Stat V)} (h : ValuesInv conf max values splits stats) (hsplits : splits < max) :
    Ends Halt.Inside
      (fun r => ∃ more,
        (valuePartsFrom sp conf.value s (max - splits) p).mapM
          (statPartValue num conf.value.type) = some more ∧
        ValuesInv conf max (values ++ more) r.1 r.2)
      (valuesLoop num sp conf max s p splits stats) := by
  -- where the loop ends no values are left
  have hend : ∀ {values : List V} {splits : Nat} {stats : List (Stat V)},
      ValuesInv conf max values splits stats →
      ∃ more, ([] : List Str).mapM (statPartValue num conf.value.type) = some more ∧
        ValuesInv conf max (values ++ more) splits stats := by
    intro values splits stats h
    exact ⟨[], rfl, by rwa [List.append_nil]⟩
  induction hleft : max - splits generalizing p values splits stats with
  | zero => omega
  | succ left ih =>
      rw [valuesLoop]
      unfold valuePart valuePartsFrom
      by_cases hsplit : conf.value.split = true
      · rw [if_pos hsplit, if_pos hsplit, Splitter.itemsFrom]
        cases hpart : sp.part s p with
        | error fault => exact Halt.inside_splitter fault
        | ok part =>
            rcases part with _ | ⟨part, p'⟩
            · exact ends_pure (hend h)
            · refine ends_valueBody h hsplits part ?_
              intro value stats' hvalue hinv
              split
              · rename_i hmore
                have hrest := ih p' hinv hmore.2 (by omega)
                rwa [valuePartsFrom, if_pos hsplit] at hrest
              · rename_i hmore
                have hleft' : left = 0 := by
                  rw [not_and] at hmore
                  have := hmore hsplit
                  omega
                rw [hleft']
                exact ends_pure (hend hinv)
      · rw [if_neg hsplit, if_neg hsplit]
        by_cases hs : s.length = 0
        · rw [if_pos hs, if_pos hs]
          exact ends_pure (hend h)
        · rw [if_neg hs, if_neg hs]
          refine ends_valueBody h hsplits s ?_
          intro value stats' hvalue hinv
          rw [if_neg (by simp [hsplit])]
          exact ends_pure (hend hinv)

/-- Where the value has a part, its parts are as many as the matrix says: one, if it
is not split. -/
theorem valuePartsFrom_eq {s : Str} {values : List V}
    (h : (valuePartsFrom sp conf.value s (max - 0) sp.start).mapM
      (statPartValue num conf.value.type) = some values) (hpos : 0 < values.length) :
    (valueParts sp conf.value max s).mapM (statPartValue num conf.value.type) = some values ∧
      (conf.value.split ≠ true → values.length = 1) := by
  unfold valuePartsFrom at h
  unfold valueParts
  by_cases hsplit : conf.value.split = true
  · rw [if_pos hsplit] at h ⊢
    exact ⟨h, fun hne => absurd hsplit hne⟩
  · rw [if_neg hsplit] at h ⊢
    by_cases hs : s.length = 0
    · rw [if_pos hs] at h
      cases h
      cases hpos
    · rw [if_neg hs] at h
      refine ⟨h, fun _ => ?_⟩
      cases hvalue : statPartValue num conf.value.type s with
      | none => simp [hvalue] at h
      | some value =>
          simp [hvalue] at h
          rw [← h]
          rfl

/-! ## The key loops -/

/-- The keys that are not empty. -/
def liveKeys (keys : List (ConfKey C × Str)) : List (ConfKey C × Str) :=
  keys.filter fun key => !statIsEmpty key.2

theorem liveKeys_snoc_empty {key : ConfKey C × Str} (h : statIsEmpty key.2 = true)
    (keys : List (ConfKey C × Str)) : liveKeys (keys ++ [key]) = liveKeys keys := by
  simp [liveKeys, h]

theorem liveKeys_snoc {key : ConfKey C × Str} (h : statIsEmpty key.2 ≠ true)
    (keys : List (ConfKey C × Str)) : liveKeys (keys ++ [key]) = liveKeys keys ++ [key] := by
  simp [liveKeys, h]

theorem le_foldl_max {α : Type} (f : α → Nat) (xs : List α) (n : Nat) :
    n ≤ xs.foldl (fun n x => Nat.max n (f x)) n ∧
      ∀ x ∈ xs, f x ≤ xs.foldl (fun n x => Nat.max n (f x)) n := by
  induction xs generalizing n with
  | nil => simp
  | cons x xs ih =>
      rcases ih (Nat.max n (f x)) with ⟨hle, hall⟩
      rw [List.foldl_cons]
      constructor
      · exact (Nat.le_max_left n (f x)).trans hle
      · intro y hy
        rcases List.mem_cons.mp hy with rfl | hy
        · exact (Nat.le_max_right n (f y)).trans hle
        · exact hall y hy

theorem length_le_rowCount (values : List V) (active : List (ConfKey C × Str)) :
    values.length ≤ rowCount sp max values active := (le_foldl_max _ _ _).1

/-- A split key has no part for a stat behind the last. -/
theorem items_length_le_rowCount (values : List V) {active : List (ConfKey C × Str)}
    {key : ConfKey C × Str} (hkey : key ∈ active) (hsplit : key.1.split = true) :
    (sp.items max key.2).length ≤ rowCount sp max values active :=
  (le_foldl_max (fun key : ConfKey C × Str => (sp.items max key.2).length) _ _).2 key
    (List.mem_filter.mpr ⟨hkey, hsplit⟩)

theorem rowCount_snoc_plain (values : List V) (active : List (ConfKey C × Str))
    {key : ConfKey C × Str} (h : key.1.split ≠ true) :
    rowCount sp max values (active ++ [key]) = rowCount sp max values active := by
  simp [rowCount, h]

theorem rowCount_snoc_split (values : List V) (active : List (ConfKey C × Str))
    {key : ConfKey C × Str} (h : key.1.split = true) :
    rowCount sp max values (active ++ [key]) =
      Nat.max (rowCount sp max values active) (sp.items max key.2).length := by
  simp [rowCount, h]

theorem length_itemsFrom_le (str : Str) (n : Nat) (p : P) :
    (sp.itemsFrom str n p).length ≤ n := by
  induction n generalizing p with
  | zero => exact Nat.le_refl 0
  | succ n ih =>
      rw [Splitter.itemsFrom]
      split
      · exact Nat.succ_le_succ (ih _)
      · exact Nat.zero_le _

/-- The keys a new stat is filled with are those its row has so far. -/
theorem backfill_eq {before : List (ConfKey C × Str)} {j : Nat}
    (hnames : ∀ key ∈ before, key.1.name.length = 0 → statIsEmpty key.2 = true)
    (hlong : ∀ key ∈ liveKeys before, key.1.split = true → (sp.items max key.2).length ≤ j)
    (stat : Stat V) :
    backfill before stat =
      { stat with keys := stat.keys ++ (liveKeys before).filterMap (keyAt sp max j) } := by
  unfold backfill
  induction before generalizing stat with
  | nil => simp [liveKeys]
  | cons key before ih =>
      have hnames' : ∀ key ∈ before, key.1.name.length = 0 → statIsEmpty key.2 = true :=
        fun key' hkey' => hnames key' (List.mem_cons_of_mem key hkey')
      rw [List.foldl_cons]
      by_cases hempty : statIsEmpty key.2 = true
      · -- an empty key, which may have no name
        have hlive : liveKeys (key :: before) = liveKeys before := by simp [liveKeys, hempty]
        rw [hlive] at hlong ⊢
        rw [if_pos (Or.inr (Or.inr hempty)), ih hnames' hlong]
      · have hlive : liveKeys (key :: before) = key :: liveKeys before := by
          simp [liveKeys, hempty]
        rw [hlive] at hlong ⊢
        have hlong' := fun key' hkey' => hlong key' (List.mem_cons_of_mem key hkey')
        have hname : key.1.name.length ≠ 0 := fun h => hempty (hnames key (by simp) h)
        rw [List.filterMap_cons]
        by_cases hsplit : key.1.split = true
        · -- a split key has no part for a new stat
          have hnone : keyAt sp max j key = none := by
            rw [keyAt, if_pos hsplit, List.getElem?_eq_none (hlong key (by simp) hsplit)]
            rfl
          rw [if_pos (Or.inr (Or.inl hsplit)), ih hnames' hlong', hnone]
        · have hsome : keyAt sp max j key = some (StatKey.mk key.1.name key.2) := by
            rw [keyAt, if_neg hsplit]
          rw [if_neg (by simp [hname, hsplit, hempty]), ih hnames' hlong', hsome]
          simp [Stat.addKey]

section Keys

variable [Inhabited V] {values : List V} {active : List (ConfKey C × Str)}
  {key : ConfKey C × Str} {j : Nat}

theorem row_snoc_none (h : keyAt sp max j key = none) :
    row num sp conf max values (active ++ [key]) j = row num sp conf max values active j := by
  simp [row, h]

theorem row_snoc_some {name str : Str} (h : keyAt sp max j key = some (StatKey.mk name str)) :
    row num sp conf max values (active ++ [key]) j =
      (row num sp conf max values active j).addKey name str := by
  simp [row, h, Stat.addKey]

/-- What the loops over the keys have done: the first stats are the rows of the
matrix with the columns so far. -/
structure KeysInv (num : Numbers V) (sp : Splitter P ε) (conf : Conf C) (max : Nat)
    (values : List V) (active : List (ConfKey C × Str)) (splits : Nat) (stats : List (Stat V)) :
    Prop where
  count : splits = rowCount sp max values active
  le_max : splits ≤ max
  length : stats.length = max
  rows : ∀ j < splits, stats[j]? = some (row num sp conf max values active j)

/-- A column half way: the first `j` stats have their part of the key. -/
def halfRow (num : Numbers V) (sp : Splitter P ε) (conf : Conf C) (max : Nat)
    (values : List V) (active : List (ConfKey C × Str)) (key : ConfKey C × Str) (j i : Nat) :
    Stat V :=
  if i < j then row num sp conf max values (active ++ [key]) i
  else row num sp conf max values active i

/-- The loop over the stats adds a key that is not split to all of them. -/
theorem ends_plainKeyLoop {splits : Nat} {stats : List (Stat V)} (hsplit : key.1.split ≠ true)
    (h : KeysInv num sp conf max values active splits stats) :
    Ends Halt.Inside (KeysInv num sp conf max values (active ++ [key]) splits)
      (plainKeyLoop key.1.name key.2 splits stats : Except (Halt ε) _) := by
  have hkey : ∀ j, keyAt sp max j key = some (StatKey.mk key.1.name key.2) := by
    intro j
    rw [keyAt, if_neg hsplit]
  -- the loop counts up to `splits`; before `j` the rows have the key
  have hloop : Ends Halt.Inside
      (fun stats' => stats'.length = max ∧
        ∀ i < splits, stats'[i]? = some (halfRow num sp conf max values active key splits i))
      (plainKeyLoop key.1.name key.2 splits stats : Except (Halt ε) _) := by
    refine Ends.count (I := fun j (stats' : List (Stat V)) => stats'.length = max ∧
      ∀ i < splits, stats'[i]? = some (halfRow num sp conf max values active key j i)) ?_
      ⟨h.length, ?_⟩
    · rintro j hj stats' ⟨hlength, hrows⟩
      have hmax := h.le_max
      refine (ends_setStat (by omega) _).imp ?_
      rintro stats'' rfl
      refine ⟨by simpa using hlength, ?_⟩
      intro i hi
      by_cases hij : j = i
      · subst hij
        rw [List.getElem?_modify_eq, hrows j hi]
        simp [halfRow, row_snoc_some (hkey j)]
      · have hlt : i < j + 1 ↔ i < j := by omega
        rw [List.getElem?_modify_ne _ _ hij, hrows i hi]
        simp only [halfRow, hlt]
    · intro i hi
      rw [h.rows i hi, halfRow, if_neg (Nat.not_lt_zero i)]
  refine hloop.imp ?_
  rintro stats' ⟨hlength, hrows⟩
  constructor
  · rw [rowCount_snoc_plain values active hsplit]
    exact h.count
  · exact h.le_max
  · exact hlength
  · intro j hj
    rw [hrows j hj, halfRow, if_pos hj]

/-- Behind the values the value of a stat is that of the first, or zero. -/
theorem ends_newSplitValue {stats : List (Stat V)} {stat : Stat V}
    (hsingle : conf.value.split ≠ true → values.length = 1) (hj : values.length ≤ j)
    (hstat : stats[0]? = some stat)
    (hvalue : stat.values = [valueAt num conf.value.split values 0]) :
    Ends Halt.Inside (· = valueAt num conf.value.split values j)
      (newSplitValue num conf stats : Except (Halt ε) _) := by
  unfold newSplitValue
  by_cases hsplit : conf.value.split = true
  · rw [if_pos hsplit]
    refine ends_pure ?_
    rw [valueAt, dif_neg (by omega), if_pos hsplit]
  · have hlength := hsingle hsplit
    rw [if_neg hsplit]
    refine (ends_statAt hstat).bind ?_
    rintro _ rfl
    refine ends_pure ?_
    rw [Stat.value0, hvalue, valueAt, valueAt, dif_pos (by omega), dif_neg (by omega),
      if_neg hsplit]
    rcases values with _ | ⟨value, values⟩
    · cases hlength
    · rfl

/-- The array while a split key is added: `j` parts are done. -/
structure HalfInv (num : Numbers V) (sp : Splitter P ε) (conf : Conf C) (max : Nat)
    (values : List V) (active : List (ConfKey C × Str)) (key : ConfKey C × Str)
    (splits j : Nat) (stats : List (Stat V)) : Prop where
  le_max : j ≤ max
  length : stats.length = max
  rows : ∀ i, i < splits ∨ i < j →
    stats[i]? = some (halfRow num sp conf max values active key j i)

/-- The columns before a split key, for the loop over its items. -/
structure ColumnsBefore (sp : Splitter P ε) (conf : Conf C) (max : Nat) (values : List V)
    (before : List (ConfKey C × Str)) (splits : Nat) : Prop where
  names : ∀ key ∈ before, key.1.name.length = 0 → statIsEmpty key.2 = true
  count : splits = rowCount sp max values (liveKeys before)
  values_pos : 0 < values.length
  single : conf.value.split ≠ true → values.length = 1

/-- A new stat is the row of the columns so far. -/
theorem ends_newSplit {before : List (ConfKey C × Str)} {splits : Nat} {stats : List (Stat V)}
    (hbefore : ColumnsBefore sp conf max values before splits)
    (h : HalfInv num sp conf max values (liveKeys before) key splits j stats)
    (hsplits : splits ≤ j) (hj : j < max) :
    Ends Halt.Inside
      (fun stats' => stats'.length = max ∧ (∀ i, i ≠ j → stats'[i]? = stats[i]?) ∧
        stats'[j]? = some (row num sp conf max values (liveKeys before) j))
      (newSplit num conf before j stats : Except (Halt ε) _) := by
  have hlength := h.length
  have hvalues : values.length ≤ splits := by
    rw [hbefore.count]
    exact length_le_rowCount values _
  have hpos := hbefore.values_pos
  refine (ends_setStat (by omega) _).bind ?_
  rintro stats' rfl
  -- the first stat is another one, and has the value of its row
  have hfirst := h.rows 0 (Or.inl (by omega))
  have hvalue : (halfRow num sp conf max values (liveKeys before) key j 0).values =
      [valueAt num conf.value.split values 0] := by
    unfold halfRow
    split <;> rfl
  refine (ends_newSplitValue (j := j) hbefore.single (by omega)
    (by rw [List.getElem?_modify_ne _ _ (by omega), hfirst]) hvalue).bind ?_
  rintro value rfl
  refine (ends_setStat (by simpa using by omega) _).imp ?_
  rintro stats' rfl
  refine ⟨by simpa using hlength, ?_, ?_⟩
  · intro i hi
    rw [List.getElem?_modify_ne _ _ (Ne.symm hi), List.getElem?_modify_ne _ _ (Ne.symm hi)]
  · have hlong : ∀ key ∈ liveKeys before, key.1.split = true →
        (sp.items max key.2).length ≤ j := by
      intro key' hkey' hsplit
      have hle : (sp.items max key'.2).length ≤ rowCount sp max values (liveKeys before) :=
        items_length_le_rowCount values hkey' hsplit
      rw [← hbefore.count] at hle
      omega
    rw [List.getElem?_modify_eq, List.getElem?_modify_eq, List.getElem?_eq_getElem (by omega)]
    simp [backfill_eq hbefore.names hlong, row, Stat.addValue, Stat.init]

/-- One part more: the stat of the part is there, or is made. -/
theorem ends_splitKeyStat {before : List (ConfKey C × Str)} {splits : Nat} {item : Str}
    {stats : List (Stat V)} (hbefore : ColumnsBefore sp conf max values before splits)
    (h : HalfInv num sp conf max values (liveKeys before) key splits j stats) (hj : j < max)
    (hkey : keyAt sp max j key = some (StatKey.mk key.1.name item)) :
    Ends Halt.Inside
      (HalfInv num sp conf max values (liveKeys before) key splits (j + 1))
      (do
        let stats ← (if splits ≤ j then newSplit num conf before j stats else pure stats)
        setStat stats j (·.addKey key.1.name item) : Except (Halt ε) _) := by
  have hstat : Ends Halt.Inside
      (fun stats' => stats'.length = max ∧ (∀ i, i ≠ j → stats'[i]? = stats[i]?) ∧
        stats'[j]? = some (row num sp conf max values (liveKeys before) j))
      (if splits ≤ j then newSplit num conf before j stats else pure stats :
        Except (Halt ε) _) := by
    split
    · rename_i hsplits
      exact ends_newSplit hbefore h hsplits hj
    · rename_i hsplits
      refine ends_pure ⟨h.length, fun i _ => rfl, ?_⟩
      rw [h.rows j (Or.inl (by omega)), halfRow, if_neg (Nat.lt_irrefl j)]
  -- now the stat of the part is the row of the columns before, and gets the part
  refine hstat.bind ?_
  rintro stats' ⟨hlength, hother, hsame⟩
  refine (ends_setStat (by omega) _).imp ?_
  rintro stats'' rfl
  constructor
  · exact hj
  · simpa using hlength
  · intro i hi
    by_cases hij : j = i
    · subst hij
      rw [List.getElem?_modify_eq, hsame]
      simp [halfRow, row_snoc_some hkey]
    · have hi' : i < splits ∨ i < j := by omega
      have hlt : i < j + 1 ↔ i < j := by omega
      rw [List.getElem?_modify_ne _ _ hij, hother i (Ne.symm hij), h.rows i hi']
      simp only [halfRow, hlt]

/-- The loop over the items of a split key. -/
theorem ends_splitKeyLoop {before : List (ConfKey C × Str)} {splits : Nat} {p : P}
    {stats : List (Stat V)} (hbefore : ColumnsBefore sp conf max values before splits)
    (hsplit : key.1.split = true)
    (h : HalfInv num sp conf max values (liveKeys before) key splits j stats)
    (hj : j ≤ (sp.items max key.2).length)
    (hitems : (sp.items max key.2).drop j = sp.itemsFrom key.2 (max - j) p) :
    Ends Halt.Inside
      (fun r => r.1 = (sp.items max key.2).length ∧
        HalfInv num sp conf max values (liveKeys before) key splits r.1 r.2)
      (splitKeyLoop num sp conf max before key.1.name key.2 splits p j stats) := by
  induction hleft : max - j generalizing p j stats with
  | zero =>
      have hle : (sp.items max key.2).length ≤ max := length_itemsFrom_le _ _ _
      have hmax := h.le_max
      rw [splitKeyLoop, if_neg (by omega)]
      exact ends_pure ⟨by show j = _; omega, h⟩
  | succ left ih =>
      rw [hleft, Splitter.itemsFrom] at hitems
      rw [splitKeyLoop, if_pos (by omega)]
      cases hpart : sp.part key.2 p with
      | error fault => exact Halt.inside_splitter fault
      | ok part =>
          rw [hpart] at hitems
          rcases part with _ | ⟨item, p'⟩
          · -- the items are at their end
            have hle := List.drop_eq_nil_iff.mp hitems
            exact ends_pure ⟨by show j = _; omega, h⟩
          · have hitem : (sp.items max key.2)[j]? = some item := by
              have hhead := congrArg List.head? hitems
              rwa [List.head?_drop] at hhead
            have hkey : keyAt sp max j key = some (StatKey.mk key.1.name item) := by
              rw [keyAt, if_pos hsplit, hitem]
              rfl
            have htail : (sp.items max key.2).drop (j + 1) = sp.itemsFrom key.2 left p' := by
              have htail := congrArg List.tail hitems
              rwa [List.tail_drop] at htail
            have hlt : j < (sp.items max key.2).length := (List.getElem?_eq_some_iff.mp hitem).1
            have hleft' : max - (j + 1) = left := by omega
            have hnext : ∀ stats', HalfInv num sp conf max values (liveKeys before) key splits
                (j + 1) stats' → Ends Halt.Inside
                  (fun r => r.1 = (sp.items max key.2).length ∧
                    HalfInv num sp conf max values (liveKeys before) key splits r.1 r.2)
                  (splitKeyLoop num sp conf max before key.1.name key.2 splits p' (j + 1)
                    stats') := by
              intro stats' hstats'
              rw [← hleft'] at htail
              exact ih hstats' hlt htail hleft'
            have hstep := (ends_splitKeyStat hbefore h (by omega) hkey).bind hnext
            rwa [bind_assoc] at hstep

/-- A split key that is done is a column of the matrix. -/
theorem HalfInv.keysInv {splits : Nat} {stats : List (Stat V)} (hsplit : key.1.split = true)
    (hcount : splits = rowCount sp max values active) (hmax : splits ≤ max)
    (hj : j = (sp.items max key.2).length)
    (h : HalfInv num sp conf max values active key splits j stats) :
    KeysInv num sp conf max values (active ++ [key]) (if splits < j then j else splits) stats := by
  have hle := h.le_max
  have hif : (if splits < j then j else splits) = Nat.max splits j := by
    split
    · rename_i hlt
      exact (Nat.max_eq_right hlt.le).symm
    · rename_i hlt
      exact (Nat.max_eq_left (Nat.le_of_not_lt hlt)).symm
  constructor
  · rw [hif, rowCount_snoc_split values active hsplit, ← hcount, hj]
  · split
    · exact hle
    · exact hmax
  · exact h.length
  · intro i hi
    have hi' : i < splits ∨ i < j := by
      split at hi
      · exact Or.inr hi
      · exact Or.inl hi
    rw [h.rows i hi', halfRow]
    split
    · rfl
    · -- behind the last part nothing is added
      rename_i hij
      have hnone : keyAt sp max i key = none := by
        rw [keyAt, if_pos hsplit, List.getElem?_eq_none (by omega)]
        rfl
      rw [row_snoc_none hnone]

theorem ends_keysLoop (keys before : List (ConfKey C × Str)) {splits : Nat}
    {stats : List (Stat V)}
    (hnames : ∀ key ∈ before ++ keys, key.1.name.length = 0 → statIsEmpty key.2 = true)
    (hpos : 0 < values.length) (hsingle : conf.value.split ≠ true → values.length = 1)
    (h : KeysInv num sp conf max values (liveKeys before) splits stats) :
    Ends Halt.Inside
      (fun r => KeysInv num sp conf max values (liveKeys (before ++ keys)) r.1 r.2)
      (keysLoop num sp conf max before keys splits stats) := by
  induction keys generalizing before splits stats with
  | nil =>
      rw [List.append_nil]
      exact ends_pure h
  | cons key keys ih =>
      rcases key with ⟨key, str⟩
      rw [List.append_cons] at hnames ⊢
      rw [keysLoop]
      by_cases hempty : statIsEmpty str = true
      · -- an empty key is no column
        rw [if_pos hempty]
        apply ih _ hnames
        rw [show liveKeys (before ++ [(key, str)]) = liveKeys before from
          liveKeys_snoc_empty hempty before]
        exact h
      · have hlive : liveKeys (before ++ [(key, str)]) = liveKeys before ++ [(key, str)] :=
          liveKeys_snoc hempty before
        rw [if_neg hempty]
        by_cases hsplit : key.split = true
        · -- the loop over the items starts with no part of the column done
          rw [if_pos hsplit]
          have hbefore : ColumnsBefore sp conf max values before splits :=
            ⟨fun key hkey => hnames key (by simp [hkey]), h.count, hpos, hsingle⟩
          have hhalf :
              HalfInv num sp conf max values (liveKeys before) (key, str) splits 0 stats := by
            constructor
            · exact Nat.zero_le _
            · exact h.length
            · intro i hi
              rw [h.rows i (by omega), halfRow, if_neg (Nat.not_lt_zero i)]
          refine (ends_splitKeyLoop hbefore hsplit hhalf (Nat.zero_le _) rfl).bind ?_
          rintro ⟨j, stats'⟩ ⟨hj, hdone⟩
          apply ih _ hnames
          rw [hlive]
          exact hdone.keysInv hsplit h.count h.le_max hj
        · rw [if_neg hsplit]
          have hplain : (key, str).1.split ≠ true := hsplit
          refine (ends_plainKeyLoop hplain h).bind ?_
          intro stats' hstats'
          apply ih _ hnames
          rw [hlive]
          exact hstats'

end Keys

end Loops

end StatsHouse
