import StatsHouse.SplitterSafe
import StatsHouse.Window

/-! # The rows of a metric

The matrix says what the stats of a call are, if there are any. `metricRows` says when
there are, so that a call is a function of the configuration and the variables of the
request.

* `statCompile_rows`: in an array that is not empty, with a splitter that does not fault, a
  call of `ngx_statshouse_stat_compile` that is neither disabled nor limited ends with the
  rows of the metric, or returns where it has none.
-/

namespace StatsHouse

open Outcome

variable {C V P ε : Type}

/-! ## Rows -/

/-- The stats of a metric: the predicates hold, the value and the keys evaluate, and each
part of the value parses. -/
def metricRows [Inhabited V] (num : Numbers V) (sp : Splitter P ε) (conf : Conf C)
    (complex : C → Option Str) (max : Nat) : List (Stat V) :=
  if testRequiredPredicates complex conf.condition ≠ .ok ∨ evalKeys complex conf.keys = none then
    []
  else
    match complex conf.value.complex with
    | none => []
    | some s =>
      match (valuePartsFrom sp conf.value s max sp.start).mapM
          (statPartValue num conf.value.type) with
      | none => []
      -- a value without parts makes no stats, whatever the keys are
      | some [] => []
      | some values =>
        (List.range (rowCount sp max values (activeKeys complex conf.keys))).map
          (row num sp conf max values (activeKeys complex conf.keys))

/-- The calls on a string, from variables that are good, do not fault and leave good ones. -/
def Splitter.Keeps (sp : Splitter P ε) (str : Str) (good : P → Prop) : Prop :=
  ∀ p, good p → ∃ part, sp.part str p = .ok part ∧ ∀ item p', part = some (item, p') → good p'

/-- The splitter goes through the string without a fault. -/
def Splitter.Total (sp : Splitter P ε) (str : Str) : Prop :=
  ∃ good : P → Prop, good sp.start ∧ sp.Keeps str good

/-- The strings of a request that are split are gone through without a fault. -/
structure SplitsTotal (sp : Splitter P ε) (conf : Conf C) (complex : C → Option Str) : Prop where
  value : conf.value.split = true → ∀ s, complex conf.value.complex = some s → sp.Total s
  keys : ∀ key ∈ conf.keys, key.split = true → ∀ s, complex key.complex = some s → sp.Total s

/-- What a call is for: the new `conf->last`, and the stats. -/
def statCompiled [Inhabited V] (num : Numbers V) (sp : Splitter P ε) (conf : Conf C)
    (complex : C → Option Str) (last now max : Nat) : Nat × List (Stat V) :=
  if conf.disable = true ∨ Limited conf last now then (last, [])
  else (if conf.timeout ≠ 0 then now else last, metricRows num sp conf complex max)

theorem row_of_mem_metricRows [Inhabited V] {num : Numbers V} {sp : Splitter P ε} {conf : Conf C}
    {complex : C → Option Str} {max : Nat} {stat : Stat V}
    (h : stat ∈ metricRows num sp conf complex max) :
    ∃ values j, stat = row num sp conf max values (activeKeys complex conf.keys) j := by
  unfold metricRows at h
  split at h
  · cases h
  · split at h
    · cases h
    · split at h
      · cases h
      · cases h
      -- the branch with values
      · rcases List.mem_map.mp h with ⟨j, -, rfl⟩
        exact ⟨_, j, rfl⟩

/-- What a call is for is rows. -/
theorem mem_metricRows_of_statCompiled [Inhabited V] {num : Numbers V} {sp : Splitter P ε}
    {conf : Conf C} {complex : C → Option Str} {last now max : Nat} {stat : Stat V}
    (h : stat ∈ (statCompiled num sp conf complex last now max).2) :
    stat ∈ metricRows num sp conf complex max := by
  unfold statCompiled at h
  split at h
  · cases h
  · exact h

/-- The splitter of the source is total on the strings it is safe on. -/
theorem statSplitter_total {str : Str} (h : Settled (lastPiece str)) :
    statSplitter.Total str := by
  refine ⟨fun split => split.Inside str, ?_, ?_⟩
  · refine ⟨?_, List.suffix_rfl, h⟩
    intro item hitem
    cases hitem
  -- a variable inside the string, which the next call leaves inside it
  · intro split hsplit
    rcases statPart_ok hsplit.settled with ⟨part, hpart⟩
    refine ⟨part.map fun split' => (split'.str, split'), ?_, ?_⟩
    · show (statPart str split >>= fun part => _) = _
      rw [hpart]
      cases part <;> rfl
    · intro item split' hsome
      rcases Option.map_eq_some_iff.mp hsome with ⟨split'', rfl, heq⟩
      cases heq
      exact (hsplit.step hpart).1

/-! ## Without a fault -/

/-- An end that is no fault of the splitter. -/
def Halt.NoFault (halt : Halt ε) : Prop := ∀ fault, halt ≠ .splitter fault

theorem noFault_setStat (stats : List (Stat V)) (k : Nat) (f : Stat V → Stat V) :
    Ends Halt.NoFault (fun _ => True) (setStat stats k f : Except (Halt ε) _) := by
  unfold setStat
  split
  · trivial
  · intro fault h
    cases h

section Loops

variable {num : Numbers V} {sp : Splitter P ε} {conf : Conf C} {max : Nat}

theorem valuePart_total (good : P → Prop) {value : ConfValue C} {s : Str} {p : P}
    (h : value.split = true → good p ∧ sp.Keeps s good) :
    ∃ part, valuePart sp value s p = .ok part ∧
      ∀ item p', part = some (item, p') → value.split = true → good p' := by
  unfold valuePart
  by_cases hsplit : value.split = true
  · rw [if_pos hsplit]
    rcases (h hsplit).2 p (h hsplit).1 with ⟨part, hpart, hgood⟩
    rw [hpart]
    exact ⟨part, rfl, fun item p' hsome _ => hgood item p' hsome⟩
  · rw [if_neg hsplit]
    split
    · exact ⟨none, rfl, fun _ _ hsome => by cases hsome⟩
    · exact ⟨some (s, p), rfl, fun _ _ _ h => absurd h hsplit⟩

/-- The value has a first part or none. -/
theorem SplitsTotal.valuePart {complex : C → Option Str} (h : SplitsTotal sp conf complex) {s : Str}
    (hs : complex conf.value.complex = some s) :
    ∃ part, StatsHouse.valuePart sp conf.value s sp.start = .ok part := by
  by_cases hsplit : conf.value.split = true
  · rcases h.value hsplit s hs with ⟨good, hstart, hkeeps⟩
    rcases valuePart_total good fun _ => ⟨hstart, hkeeps⟩ with ⟨part, hpart, -⟩
    exact ⟨part, hpart⟩
  -- the whole string is the part, and the splitter is not asked
  · rcases valuePart_total (fun _ => False) fun hsplit' => absurd hsplit' hsplit with
      ⟨part, hpart, -⟩
    exact ⟨part, hpart⟩

theorem noFault_valuesLoop (good : P → Prop) (s : Str) (p : P) (splits : Nat)
    (stats : List (Stat V)) (h : conf.value.split = true → good p ∧ sp.Keeps s good) :
    Ends Halt.NoFault (fun _ => True) (valuesLoop num sp conf max s p splits stats) := by
  fun_induction valuesLoop num sp conf max s p splits stats with
  | case1 p splits stats ih =>
      rcases valuePart_total good h with ⟨part, hpart, hgood⟩
      rw [hpart]
      cases part with
      | none => trivial
      | some part =>
          obtain ⟨item, p'⟩ := part
          refine (noFault_setStat _ _ _).bind ?_
          intro a _
          cases hvalue : statPartValue num conf.value.type item with
          | none =>
              intro fault hfault
              cases hfault
          | some value =>
              refine (noFault_setStat _ _ _).bind ?_
              intro b _
              split
              · rename_i hmore
                exact ih p' b hmore fun hsplit => ⟨hgood item p' rfl hsplit, (h hsplit).2⟩
              · trivial

variable [Inhabited V]

theorem noFault_newSplit (before : List (ConfKey C × Str)) (j : Nat) (stats : List (Stat V)) :
    Ends Halt.NoFault (fun _ => True)
      (newSplit num conf before j stats : Except (Halt ε) (List (Stat V))) := by
  unfold newSplit
  refine (noFault_setStat _ _ _).bind ?_
  intro a _
  -- a first stat that is not there is outside the array, which is no fault of the splitter
  have hvalue :
      Ends Halt.NoFault (fun _ => True) (newSplitValue num conf a : Except (Halt ε) V) := by
    unfold newSplitValue statAt
    split
    · trivial
    · split
      · trivial
      · intro fault hfault
        cases hfault
  refine hvalue.bind ?_
  intro value _
  exact noFault_setStat _ _ _

theorem noFault_splitKeyLoop {good : P → Prop} (before : List (ConfKey C × Str)) (name str : Str)
    (splits : Nat) (p : P) (j : Nat) (stats : List (Stat V)) (hp : good p)
    (hkeeps : sp.Keeps str good) :
    Ends Halt.NoFault (fun _ => True)
      (splitKeyLoop num sp conf max before name str splits p j stats) := by
  fun_induction splitKeyLoop num sp conf max before name str splits p j stats with
  -- a fault, which the variables exclude
  | case1 p j stats hj fault hpart =>
      rcases hkeeps p hp with ⟨part, hok, -⟩
      rw [hok] at hpart
      cases hpart
  | case2 p j stats hj hpart => trivial
  | case3 p j stats hj split p' hpart ih =>
      rcases hkeeps p hp with ⟨part, hok, hgood⟩
      rw [hok] at hpart
      have hp' := hgood split p' (Except.ok.inj hpart)
      have hnew : Ends Halt.NoFault (fun _ => True)
          (if splits ≤ j then newSplit num conf before j stats else pure stats :
            Except (Halt ε) _) := by
        split
        · exact noFault_newSplit before j stats
        · trivial
      refine hnew.bind ?_
      intro a _
      refine (noFault_setStat _ _ _).bind ?_
      intro b _
      exact ih b hp'
  | case4 p j stats hj => trivial

theorem noFault_keysLoop (keys before : List (ConfKey C × Str)) (splits : Nat)
    (stats : List (Stat V))
    (h : ∀ key ∈ keys, key.1.split = true → statIsEmpty key.2 ≠ true → sp.Total key.2) :
    Ends Halt.NoFault (fun _ => True) (keysLoop num sp conf max before keys splits stats) := by
  induction keys generalizing before splits stats with
  | nil => trivial
  | cons key keys ih =>
      obtain ⟨key, str⟩ := key
      have hrest := fun before splits stats =>
        ih before splits stats fun key' hkey' => h key' (List.mem_cons_of_mem _ hkey')
      unfold keysLoop
      by_cases hempty : statIsEmpty str
      · rw [if_pos hempty]
        exact hrest _ _ _
      · rw [if_neg hempty]
        by_cases hsplit : key.split
        · rw [if_pos hsplit]
          rcases h (key, str) List.mem_cons_self hsplit hempty with ⟨good, hstart, hkeeps⟩
          refine (noFault_splitKeyLoop before key.name str splits sp.start 0 stats hstart
            hkeeps).bind ?_
          intro r _
          exact hrest _ _ _
        · rw [if_neg hsplit]
          have hplain : Ends Halt.NoFault (fun _ => True)
              (plainKeyLoop key.name str splits stats : Except (Halt ε) _) :=
            Ends.count (I := fun _ _ => True) (fun j _ a _ => noFault_setStat a j _) trivial
          refine hplain.bind ?_
          intro a _
          exact hrest _ _ _

end Loops

/-! ## One call -/

section Compile

variable [Inhabited V] {num : Numbers V} {sp : Splitter P ε} {conf : Conf C}
  {complex : C → Option Str} {max : Nat} {stats : List (Stat V)}

/-- A string that a key is given is the one its variables make. -/
theorem complex_of_mem_zip {keys : List (ConfKey C)} {strs : List Str}
    (hstrs : evalKeys complex keys = some strs) {key : ConfKey C × Str}
    (hkey : key ∈ keys.zip strs) (hempty : statIsEmpty key.2 ≠ true) :
    complex key.1.complex = some key.2 := by
  -- a key whose string is not empty is live, and the live keys are those of the variables
  have hlive : key ∈ liveKeys (keys.zip strs) := by
    rw [liveKeys, List.mem_filter]
    exact ⟨hkey, by simpa using hempty⟩
  rw [(liveKeys_zip hstrs).1, activeKeys, List.mem_filterMap] at hlive
  rcases hlive with ⟨key', -, hsome⟩
  split at hsome
  · cases hsome
  · split at hsome
    · cases hsome
    · rename_i str hstr
      split at hsome
      · cases hsome
      · cases hsome
        exact hstr

theorem noFault_statCompileSplits (h : SplitsTotal sp conf complex) :
    Ends Halt.NoFault (fun _ => True) (statCompileSplits num sp conf complex max stats) := by
  have hret : ∀ rc, (Halt.ret rc : Halt ε).NoFault := by
    intro rc fault hfault
    cases hfault
  unfold statCompileSplits
  simp only
  -- the early returns, in the order of the function
  split
  · exact hret _
  · split
    · exact hret _
    · rename_i s hs
      split
      · exact hret _
      · rename_i strs hstrs
        have hvalues : Ends Halt.NoFault (fun _ => True)
            (valuesLoop num sp conf max s sp.start 0 stats) := by
          by_cases hsplit : conf.value.split = true
          · rcases h.value hsplit s hs with ⟨good, hstart, hkeeps⟩
            exact noFault_valuesLoop good s sp.start 0 stats fun _ => ⟨hstart, hkeeps⟩
          · exact noFault_valuesLoop (fun _ => False) s sp.start 0 stats
              fun hsplit' => absurd hsplit' hsplit
        refine hvalues.bind ?_
        intro r _
        split
        · exact hret _
        · apply noFault_keysLoop
          intro key hkey hsplit hempty
          have hmem : key.1 ∈ conf.keys := (List.of_mem_zip hkey).1
          exact h.keys key.1 hmem hsplit key.2 (complex_of_mem_zip hstrs hkey hempty)

/-- Where a call comes to nothing the metric has no rows. -/
theorem metricRows_of_nothing (hmax : 0 < max) (h : NothingToSend num sp conf complex max) :
    metricRows num sp conf complex max = [] := by
  unfold metricRows
  cases h with
  | predicates h => rw [if_pos (Or.inl h)]
  | value h =>
      rw [h]
      exact ite_self []
  | keys h => rw [if_pos (Or.inr h)]
  -- no first part, so no parts at all: the window is not empty
  | empty s hs h =>
      have hparts : valuePartsFrom sp conf.value s max sp.start = [] := by
        obtain ⟨n, rfl⟩ : ∃ n, max = n + 1 := ⟨max - 1, by omega⟩
        unfold valuePart at h
        unfold valuePartsFrom
        by_cases hsplit : conf.value.split = true
        · rw [if_pos hsplit] at h ⊢
          cases hpart : sp.part s sp.start with
          | error fault =>
              rw [hpart] at h
              cases h
          | ok part =>
              rw [hpart] at h
              cases h
              rw [Splitter.itemsFrom, hpart]
        · rw [if_neg hsplit] at h ⊢
          by_cases hlen : s.length = 0
          · rw [if_pos hlen]
          · rw [if_neg hlen] at h
            cases h
      simp only [hs, hparts, List.mapM_nil]
      exact ite_self []
  | parse s hs hmax h =>
      simp only [hs, h]
      exact ite_self []

/-- The rows of a matrix that is not empty are the rows of the metric. -/
theorem metricRows_of_matrix {n : Nat} (hmatrix : IsMatrix num sp conf complex max n stats)
    (hlength : n ≤ stats.length) (hmax : 0 < max) (htotal : SplitsTotal sp conf complex)
    (h : ¬ NothingToSend num sp conf complex max) :
    metricRows num sp conf complex max = stats.take n := by
  rcases hmatrix with ⟨s, values, hs, hvalues, hcount, hrows⟩
  have hpredicates : testRequiredPredicates complex conf.condition = .ok := by
    by_contra hne
    exact h (.predicates hne)
  have hkeys : evalKeys complex conf.keys ≠ none := fun hnone => h (.keys hnone)
  -- the two ways to say what the parts are differ only on the empty string
  have hparts : valuePartsFrom sp conf.value s max sp.start = valueParts sp conf.value max s := by
    unfold valuePartsFrom valueParts
    by_cases hsplit : conf.value.split = true
    · rw [if_pos hsplit, if_pos hsplit, Splitter.items]
    · rw [if_neg hsplit, if_neg hsplit]
      by_cases hlen : s.length = 0
      · refine absurd (NothingToSend.empty s hs ?_) h
        rw [valuePart, if_neg hsplit, if_pos hlen]
      · rw [if_neg hlen]
  have hstats : (List.range n).map (row num sp conf max values (activeKeys complex conf.keys)) =
      stats.take n := by
    apply List.ext_getElem?
    intro j
    rw [List.getElem?_map]
    by_cases hj : j < n
    · rw [List.getElem?_range hj, List.getElem?_take_of_lt hj, hrows j hj]
      rfl
    · rw [List.getElem?_eq_none (by simpa using hj), List.getElem?_eq_none (by simp; omega)]
      rfl
  -- a first part is there, so there is a first value
  have hne : values ≠ [] := by
    rcases htotal.valuePart hs with ⟨part, hpart⟩
    cases part with
    | none => exact absurd (NothingToSend.empty s hs hpart) h
    | some part =>
        have hsome := valuePartsFrom_ne_nil hpart hmax
        rw [hparts] at hsome
        intro hnil
        rw [hnil] at hvalues
        cases hlist : valueParts sp conf.value max s with
        | nil => exact hsome hlist
        | cons part parts =>
            rw [hlist, List.mapM_cons] at hvalues
            cases hvalue : statPartValue num conf.value.type part with
            | none =>
                rw [hvalue] at hvalues
                cases hvalues
            | some value =>
                cases hrest : parts.mapM (statPartValue num conf.value.type) with
                | none => simp [hvalue, hrest] at hvalues
                | some rest => simp [hvalue, hrest] at hvalues
  unfold metricRows
  rw [if_neg (by simp [hpredicates, hkeys])]
  simp only [hs, hparts, hvalues]
  cases values with
  | nil => exact absurd rfl hne
  | cons value values =>
      subst hcount
      exact hstats

/-- What is behind the timeout ends with the rows, or returns where there are none. -/
theorem ends_rows (hstats : stats.length = max) (hmax : 0 < max)
    (htotal : SplitsTotal sp conf complex) :
    Ends (fun halt => (∃ rc, halt = .ret rc) ∧ metricRows num sp conf complex max = [])
      (fun r => r.2.length = max ∧ r.1 = (metricRows num sp conf complex max).length ∧
        0 < r.1 ∧ r.2.take r.1 = metricRows num sp conf complex max)
      (statCompileSplits num sp conf complex max stats) := by
  have hinside : Ends Halt.Inside _ (statCompileSplits num sp conf complex max stats) :=
    ends_statCompileSplits hstats hmax
  have hnoFault : Ends Halt.NoFault _ (statCompileSplits num sp conf complex max stats) :=
    noFault_statCompileSplits htotal
  have hfruitless : Fruitless (statCompileSplits num sp conf complex max stats) ↔
      NothingToSend num sp conf complex max := fruitless_statCompileSplits_iff hstats
  -- a return is the only early end that is left, and it is fruitless
  cases hres : statCompileSplits num sp conf complex max stats with
  | error halt =>
      cases halt with
      | ret rc =>
          rw [hres] at hfruitless
          exact ⟨⟨rc, rfl⟩, metricRows_of_nothing hmax (hfruitless.mp trivial)⟩
      | splitter fault => exact absurd rfl (hnoFault.of_error hres fault)
      | outside k => exact absurd rfl (hinside.of_error hres k)
  | ok r =>
      rcases hinside.of_ok hres with ⟨hpos, hle, hlength, hmatrix⟩
      have hnothing : ¬ NothingToSend num sp conf complex max := by
        rw [← hfruitless, hres]
        exact Nat.ne_of_gt hpos
      have hrows := metricRows_of_matrix hmatrix (hlength ▸ hle) hmax htotal hnothing
      refine ⟨hlength, ?_, hpos, hrows.symm⟩
      rw [hrows, List.length_take, hlength, Nat.min_eq_left hle]

/-- A call ends with the stats it is for, or returns where there are none. -/
theorem ends_statCompile (last now : Nat) (hstats : stats.length = max) (hmax : 0 < max)
    (htotal : SplitsTotal sp conf complex) :
    (statCompile num sp conf complex last now max stats).1 =
        (statCompiled num sp conf complex last now max).1 ∧
      Ends (fun halt => (∃ rc, halt = .ret rc) ∧
          (statCompiled num sp conf complex last now max).2 = [])
        (fun r => r.2.length = max ∧
          r.1 = (statCompiled num sp conf complex last now max).2.length ∧
          0 < r.1 ∧ r.2.take r.1 = (statCompiled num sp conf complex last now max).2)
        (statCompile num sp conf complex last now max stats).2 := by
  unfold statCompile statCompiled
  by_cases hdisable : conf.disable = true
  · rw [if_pos hdisable, if_pos (Or.inl hdisable)]
    exact ⟨rfl, ⟨.declined, rfl⟩, rfl⟩
  · rw [if_neg hdisable]
    by_cases hlimited : Limited conf last now
    · rw [if_pos hlimited, if_pos (Or.inr hlimited)]
      exact ⟨rfl, ⟨.declined, rfl⟩, rfl⟩
    · rw [if_neg hlimited, if_neg (not_or.mpr ⟨hdisable, hlimited⟩)]
      exact ⟨rfl, ends_rows hstats hmax htotal⟩

end Compile

/-- A call ended with the rows of the metric, which has some, and it was neither disabled nor
limited; or it returned, because it was, or because the metric has none. -/
def EndsWithRows [Inhabited V] (num : Numbers V) (sp : Splitter P ε) (conf : Conf C)
    (complex : C → Option Str) (last now max : Nat) :
    Except (Halt ε) (Nat × List (Stat V)) → Prop :=
  Ends
    (fun halt => (∃ rc, halt = .ret rc) ∧ (conf.disable = true ∨ Limited conf last now ∨
      metricRows num sp conf complex max = []))
    (fun r => ¬ (conf.disable = true ∨ Limited conf last now) ∧ 0 < r.1 ∧
      r.2.take r.1 = metricRows num sp conf complex max)

/-- In an array that is not empty, and with strings that the splitter is safe on, a call
ends with the rows of the metric, or returns because there is nothing to send. -/
theorem statCompile_rows [Inhabited V] (num : Numbers V) (conf : Conf C) (complex : C → Option Str)
    (last now : Nat) (server : SplitArray V) (hmax : 1 ≤ server.splitsMax)
    (hvalue : conf.value.split = true → ∀ s, complex conf.value.complex = some s →
      Settled (lastPiece s))
    (hkeys : ∀ key ∈ conf.keys, key.split = true → ∀ s, complex key.complex = some s →
      Settled (lastPiece s)) :
    EndsWithRows num statSplitter conf complex last now server.splitsMax
      (statCompile num statSplitter conf complex last now server.splitsMax server.splits).2 := by
  have htotal : SplitsTotal statSplitter conf complex := by
    constructor
    · intro hsplit s hs
      exact statSplitter_total (hvalue hsplit s hs)
    · intro key hkey hsplit s hs
      exact statSplitter_total (hkeys key hkey hsplit s hs)
  refine (ends_statCompile last now server.length_splits hmax htotal).2.mono ?_ ?_
  · rintro halt ⟨hret, hrows⟩
    refine ⟨hret, ?_⟩
    by_cases hstop : conf.disable = true ∨ Limited conf last now
    · exact or_assoc.mp (Or.inl hstop)
    · rw [statCompiled, if_neg hstop] at hrows
      exact Or.inr (Or.inr hrows)
  · rintro r ⟨-, hn, hpos, hrows⟩
    have hstop : ¬ (conf.disable = true ∨ Limited conf last now) := by
      intro hstop
      rw [statCompiled, if_pos hstop] at hn
      exact absurd hn (Nat.ne_of_gt hpos)
    rw [statCompiled, if_neg hstop] at hrows
    exact ⟨hstop, hpos, hrows⟩

/-- The two stats of the key "a, b". -/
theorem statCompile_rows_two :
    EndsWithRows wholeNumbers statSplitter (splitKeyConf [97, comma, space, 98]) some 0 0 2
      (statCompile wholeNumbers statSplitter (splitKeyConf [97, comma, space, 98]) some 0 0 2
        (List.replicate 2 ⟨.counter, [], [], []⟩)).2 := by
  refine statCompile_rows wholeNumbers (splitKeyConf [97, comma, space, 98]) some 0 0
    ⟨2, List.replicate 2 ⟨.counter, [], [], []⟩, rfl⟩ (by decide) ?_ ?_
  · intro hsplit
    cases hsplit
  · intro key hkey hsplit s hs
    have hkey' : key.complex = [97, comma, space, 98] := by
      rcases List.mem_cons.mp hkey with rfl | hrest
      · rfl
      · rw [List.eq_of_mem_replicate hrest] at hsplit
        cases hsplit
    rw [hkey'] at hs
    cases hs
    refine Or.inl ?_
    rintro (h | h)
    · exact absurd h (by decide)
    · exact absurd h (by decide)

end StatsHouse
