import StatsHouse.Bounds
import StatsHouse.Timeout

/-! # What starts the window of a timeout

`conf->last` is set when a call passes the timeout, before the predicates are
tested and the value is evaluated and parsed. A call that comes to nothing after
that has started the window all the same, and the calls within it are declined
although nothing was sent.

* `window_kept_iff`: a call that produces nothing leaves `last` alone, unless it
  passed the timeout and then came to nothing; where no call of a run does that,
  a call is limited only by one that produced stats.
-/

namespace StatsHouse

open Outcome

variable {C V P ε : Type}

/-- The function returned, and what it returned is not positive. -/
def Fruitless (res : Except (Halt ε) (Nat × List (Stat V))) : Prop :=
  match res with
  | .ok (n, _) => n = 0
  | .error (.ret _) => True
  | .error _ => False

instance (res : Except (Halt ε) (Nat × List (Stat V))) : Decidable (Fruitless res) :=
  match res with
  | .ok (n, _) => inferInstanceAs (Decidable (n = 0))
  | .error (.ret _) => isTrue trivial
  | .error (.splitter _) => isFalse id
  | .error (.outside _) => isFalse id

/-- The call passes the timeout at a time that is not in `last` yet. -/
def TakesTime (conf : Conf C) (last now : Nat) : Prop :=
  conf.disable = false ∧ conf.timeout ≠ 0 ∧ ¬ Limited conf last now ∧ last ≠ now

/-- The ways a call that passed the timeout comes to nothing: by the predicates, by
what does not evaluate, by a value without parts, by a part that does not parse. -/
inductive NothingToSend (num : Numbers V) (sp : Splitter P ε) (conf : Conf C)
    (complex : C → Option Str) (max : Nat) : Prop where
  | predicates (h : testRequiredPredicates complex conf.condition ≠ .ok)
  | value (h : complex conf.value.complex = none)
  | keys (h : evalKeys complex conf.keys = none)
  | empty (s : Str) (hs : complex conf.value.complex = some s)
      (h : valuePart sp conf.value s sp.start = .ok none)
  | parse (s : Str) (hs : complex conf.value.complex = some s) (hmax : 0 < max)
      (h : (valuePartsFrom sp conf.value s max sp.start).mapM
        (statPartValue num conf.value.type) = none)

/-! ## The value loop -/

section Loops

variable {num : Numbers V} {sp : Splitter P ε} {conf : Conf C} {max : Nat}

/-- The end is a `return`, without a number of stats. -/
def Returns {α : Type} (res : Except (Halt ε) α) : Prop := ∃ rc, res = .error (.ret rc)

theorem not_returns_ok {α : Type} (a : α) : ¬ Returns (.ok a : Except (Halt ε) α) := by
  rintro ⟨rc, hrc⟩
  cases hrc

theorem not_returns_splitter {α : Type} (fault : ε) :
    ¬ Returns (.error (.splitter fault) : Except (Halt ε) α) := by
  rintro ⟨rc, hrc⟩
  cases hrc

theorem not_returns_outside {α : Type} (k : Nat) :
    ¬ Returns (.error (.outside k) : Except (Halt ε) α) := by
  rintro ⟨rc, hrc⟩
  cases hrc

theorem fruitless_error_iff {halt : Halt ε} :
    Fruitless (.error halt : Except (Halt ε) (Nat × List (Stat V))) ↔
      Returns (.error halt : Except (Halt ε) (Nat × List (Stat V))) := by
  cases halt with
  | ret rc => exact iff_of_true trivial ⟨rc, rfl⟩
  | splitter fault => exact iff_of_false id (not_returns_splitter fault)
  | outside k => exact iff_of_false id (not_returns_outside k)

/-- The body of the loop returns if its part does not parse, or what follows returns. -/
theorem returns_valueBody_iff {splits : Nat} {stats : List (Stat V)}
    (hsplits : splits < stats.length) (part : Str)
    {next : List (Stat V) → Except (Halt ε) (Nat × List (Stat V))} {rest : List Str}
    (hnext : ∀ stats', stats'.length = stats.length →
      (Returns (next stats') ↔ rest.mapM (statPartValue num conf.value.type) = none)) :
    Returns (do
        let stats ← setStat stats splits fun _ => Stat.init conf.name conf.value.type
        match statPartValue num conf.value.type part with
        | none => throw (.ret .error)
        | some value =>
          let stats ← setStat stats splits (·.addValue value)
          next stats) ↔
      (part :: rest).mapM (statPartValue num conf.value.type) = none := by
  rw [setStat, if_pos hsplits, List.mapM_cons]
  cases hvalue : statPartValue num conf.value.type part with
  | none =>
      constructor
      · intro _
        rfl
      · intro _
        exact ⟨.error, rfl⟩
  | some value =>
      have hlength : splits < (stats.modify splits fun _ =>
          Stat.init conf.name conf.value.type).length := by
        rw [List.length_modify]
        exact hsplits
      have hrest := hnext ((stats.modify splits fun _ =>
        Stat.init conf.name conf.value.type).modify splits (·.addValue value)) (by simp)
      show Returns (setStat _ splits (·.addValue value) >>= next) ↔ _
      rw [setStat, if_pos hlength]
      show Returns (next _) ↔ _
      rw [hrest]
      cases hmore : rest.mapM (statPartValue num conf.value.type) with
      | none => simp
      | some more => simp

theorem valuesLoop_of_none {s : Str} {p : P} (h : valuePart sp conf.value s p = .ok none)
    (splits : Nat) (stats : List (Stat V)) :
    valuesLoop num sp conf max s p splits stats = .ok (splits, stats) := by
  rw [valuesLoop, h]
  rfl

theorem valuesLoop_of_error {s : Str} {p : P} {halt : Halt ε}
    (h : valuePart sp conf.value s p = .error halt) (splits : Nat) (stats : List (Stat V)) :
    valuesLoop num sp conf max s p splits stats = .error halt := by
  rw [valuesLoop, h]
  rfl

/-- The value loop returns exactly if a part does not parse. -/
theorem returns_valuesLoop_iff (s : Str) (p : P) {splits : Nat} {stats : List (Stat V)}
    (hstats : stats.length = max) (hsplits : splits < max) :
    Returns (valuesLoop num sp conf max s p splits stats) ↔
      (valuePartsFrom sp conf.value s (max - splits) p).mapM
        (statPartValue num conf.value.type) = none := by
  -- where the loop ends without a return no part is left
  have hend : ∀ {res : Except (Halt ε) (Nat × List (Stat V))}, ¬ Returns res →
      (Returns res ↔ ([] : List Str).mapM (statPartValue num conf.value.type) = none) :=
    fun h => iff_of_false h (by simp)
  induction hleft : max - splits generalizing p splits stats with
  | zero => omega
  | succ left ih =>
      rw [valuesLoop]
      unfold valuePart valuePartsFrom
      by_cases hsplit : conf.value.split = true
      · rw [if_pos hsplit, if_pos hsplit, Splitter.itemsFrom]
        cases hpart : sp.part s p with
        | error fault => exact hend (not_returns_splitter fault)
        | ok part =>
            rcases part with _ | ⟨part, p'⟩
            · exact hend (not_returns_ok (splits, stats))
            · apply returns_valueBody_iff (by omega) part
              intro stats' hlength
              split
              · rename_i hmore
                have hrest := ih p' (hlength.trans hstats) hmore.2 (by omega)
                rwa [valuePartsFrom, if_pos hsplit] at hrest
              · rename_i hmore
                have hleft' : left = 0 := by
                  rw [not_and] at hmore
                  have := hmore hsplit
                  omega
                rw [hleft']
                exact hend (not_returns_ok (splits + 1, stats'))
      · rw [if_neg hsplit, if_neg hsplit]
        by_cases hs : s.length = 0
        · rw [if_pos hs, if_pos hs]
          exact hend (not_returns_ok (splits, stats))
        · rw [if_neg hs, if_neg hs]
          apply returns_valueBody_iff (by omega) s
          intro stats' _
          rw [if_neg (by simp [hsplit])]
          exact hend (not_returns_ok (splits + 1, stats'))

theorem valuePart_error {value : ConfValue C} {s : Str} {p : P} {halt : Halt ε}
    (h : valuePart sp value s p = .error halt) : ∃ fault, halt = .splitter fault := by
  unfold valuePart at h
  split at h
  · split at h
    · cases h
      exact ⟨_, rfl⟩
    · cases h
  · split at h <;> cases h

/-- A first part is one of the parts. -/
theorem valuePartsFrom_ne_nil {s : Str} {p : P} {part : Str × P}
    (h : valuePart sp conf.value s p = .ok (some part)) (hmax : 0 < max) :
    valuePartsFrom sp conf.value s max p ≠ [] := by
  obtain ⟨left, rfl⟩ : ∃ left, max = left + 1 := ⟨max - 1, by omega⟩
  unfold valuePart at h
  unfold valuePartsFrom
  split
  · rename_i hsplit
    rw [if_pos hsplit] at h
    split at h
    · cases h
    · rename_i hpart
      cases h
      rw [Splitter.itemsFrom, hpart]
      exact List.cons_ne_nil _ _
  · rename_i hsplit
    rw [if_neg hsplit] at h
    split
    · rename_i hs
      rw [if_pos hs] at h
      cases h
    · exact List.cons_ne_nil _ _

/-- A loop that ends has no stats exactly if the value has no part. -/
theorem valuesLoop_zero_iff {s : Str} {splits : Nat} {stats stats' : List (Stat V)}
    (hstats : stats.length = max) (hmax : 0 < max)
    (hloop : valuesLoop num sp conf max s sp.start 0 stats = .ok (splits, stats')) :
    splits = 0 ↔ valuePart sp conf.value s sp.start = .ok none := by
  cases hpart : valuePart sp conf.value s sp.start with
  | error halt =>
      rw [valuesLoop_of_error hpart] at hloop
      cases hloop
  | ok part =>
      cases part with
      | none =>
          rw [valuesLoop_of_none hpart] at hloop
          cases hloop
          exact iff_of_true rfl rfl
      | some part =>
          have hinit : ValuesInv conf max [] 0 stats := by
            constructor
            · rfl
            · exact Nat.zero_le _
            · exact hstats
            · intro j hj
              cases hj
          obtain ⟨values, hvalues, hinv⟩ := (ends_valuesLoop s sp.start hinit hmax).of_ok hloop
          refine iff_of_false ?_ (by simp)
          have hsplits := hinv.splits_eq
          have hne := valuePartsFrom_ne_nil hpart hmax
          rw [List.nil_append] at hsplits
          intro hzero
          have hnil : values = [] := List.length_eq_zero_iff.mp (hsplits.symm.trans hzero)
          rcases List.exists_cons_of_ne_nil hne with ⟨first, rest, hcons⟩
          rw [Nat.sub_zero, hcons, hnil, List.mapM_cons] at hvalues
          simp [Option.bind_eq_some_iff] at hvalues

/-- A call that gets as far as the value comes to nothing by the value alone. -/
theorem nothingToSend_iff {complex : C → Option Str} {s : Str} {strs : List Str}
    (hpredicates : testRequiredPredicates complex conf.condition = .ok)
    (hs : complex conf.value.complex = some s) (hstrs : evalKeys complex conf.keys = some strs) :
    NothingToSend num sp conf complex max ↔
      valuePart sp conf.value s sp.start = .ok none ∨
        (0 < max ∧ (valuePartsFrom sp conf.value s max sp.start).mapM
          (statPartValue num conf.value.type) = none) := by
  constructor
  · intro h
    cases h with
    | predicates h => exact absurd hpredicates h
    | value h => simp [hs] at h
    | keys h => simp [hstrs] at h
    | empty s' hs' h =>
        rw [hs] at hs'
        cases hs'
        exact Or.inl h
    | parse s' hs' hmax h =>
        rw [hs] at hs'
        cases hs'
        exact Or.inr ⟨hmax, h⟩
  · rintro (h | ⟨hmax, h⟩)
    · exact .empty s hs h
    · exact .parse s hs hmax h

end Loops

/-! ## The key loops -/

section Keys

variable {num : Numbers V} {sp : Splitter P ε} {conf : Conf C} {max : Nat}

/-- An end that is no `return`. -/
def Halt.Fault (halt : Halt ε) : Prop := ∀ rc, halt ≠ .ret rc

theorem ends_fault_setStat (stats : List (Stat V)) (k : Nat) (f : Stat V → Stat V) :
    Ends Halt.Fault (fun _ => True) (setStat stats k f : Except (Halt ε) _) := by
  unfold setStat
  split
  · trivial
  · intro rc hrc
    cases hrc

variable [Inhabited V]

theorem ends_fault_newSplit (before : List (ConfKey C × Str)) (j : Nat) (stats : List (Stat V)) :
    Ends Halt.Fault (fun _ => True) (newSplit num conf before j stats : Except (Halt ε) _) := by
  refine (ends_fault_setStat _ _ _).bind fun stats' _ => ?_
  have hvalue : Ends Halt.Fault (fun _ => True)
      (newSplitValue num conf stats' : Except (Halt ε) V) := by
    unfold newSplitValue statAt
    split
    · trivial
    · split
      · trivial
      · intro rc hrc
        cases hrc
  exact hvalue.bind fun value _ => ends_fault_setStat _ _ _

theorem ends_fault_splitKeyLoop (before : List (ConfKey C × Str)) (name str : Str) (splits : Nat)
    (p : P) (j : Nat) (stats : List (Stat V)) :
    Ends Halt.Fault (fun _ => True)
      (splitKeyLoop num sp conf max before name str splits p j stats) := by
  induction hleft : max - j generalizing p j stats with
  | zero =>
      rw [splitKeyLoop, if_neg (by omega)]
      trivial
  | succ left ih =>
      rw [splitKeyLoop, if_pos (by omega)]
      split
      · intro rc hrc
        cases hrc
      · trivial
      · have hnew : Ends Halt.Fault (fun _ => True)
            (if splits ≤ j then newSplit num conf before j stats else pure stats :
              Except (Halt ε) _) := by
          split
          · exact ends_fault_newSplit _ _ _
          · trivial
        refine hnew.bind fun stats' _ => ?_
        refine (ends_fault_setStat _ _ _).bind fun stats'' _ => ?_
        exact ih _ _ _ (by omega)

/-- The loop over the keys does not return. -/
theorem ends_fault_keysLoop (before keys : List (ConfKey C × Str)) (splits : Nat)
    (stats : List (Stat V)) :
    Ends Halt.Fault (fun _ => True) (keysLoop num sp conf max before keys splits stats) := by
  induction keys generalizing before splits stats with
  | nil => trivial
  | cons key keys ih =>
      rw [keysLoop]
      split
      · exact ih _ _ _
      · split
        · exact (ends_fault_splitKeyLoop _ _ _ _ _ _ _).bind fun _ _ => ih _ _ _
        · have hplain : Ends Halt.Fault (fun _ => True)
              (plainKeyLoop key.1.name key.2 splits stats : Except (Halt ε) _) :=
            Ends.count (I := fun _ _ => True) (fun _ _ _ _ => ends_fault_setStat _ _ _) trivial
          exact hplain.bind fun _ _ => ih _ _ _

/-! ## One call -/

variable {complex : C → Option Str} {stats : List (Stat V)}

/-- What a call that gets as far as the value does. -/
theorem statCompileSplits_eq {s : Str} {strs : List Str}
    (hpredicates : testRequiredPredicates complex conf.condition = .ok)
    (hs : complex conf.value.complex = some s) (hstrs : evalKeys complex conf.keys = some strs) :
    statCompileSplits num sp conf complex max stats =
      valuesLoop num sp conf max s sp.start 0 stats >>= fun r =>
        if r.1 = 0 then throw (.ret .declined)
        else keysLoop num sp conf max [] (conf.keys.zip strs) r.1 r.2 := by
  simp only [statCompileSplits, hpredicates, hs, hstrs]
  rfl

/-- With all its parts parsed, the call produces stats or ends in a fault. -/
theorem not_fruitless_of_values {s : Str} {strs : List Str} {splits : Nat}
    {stats' : List (Stat V)} (hstats : stats.length = max) (hmax : 0 < max)
    (hpredicates : testRequiredPredicates complex conf.condition = .ok)
    (hs : complex conf.value.complex = some s) (hstrs : evalKeys complex conf.keys = some strs)
    (hloop : valuesLoop num sp conf max s sp.start 0 stats = .ok (splits, stats'))
    (hsplits : splits ≠ 0) : ¬ Fruitless (statCompileSplits num sp conf complex max stats) := by
  have hkeys : statCompileSplits num sp conf complex max stats =
      keysLoop num sp conf max [] (conf.keys.zip strs) splits stats' := by
    rw [statCompileSplits_eq hpredicates hs hstrs, hloop]
    exact if_neg hsplits
  cases hres : statCompileSplits num sp conf complex max stats with
  | error halt =>
      rw [hkeys] at hres
      have hfault := (ends_fault_keysLoop [] (conf.keys.zip strs) splits stats').of_error hres
      cases halt with
      | ret rc => exact absurd rfl (hfault rc)
      | splitter fault => exact id
      | outside k => exact id
  | ok r =>
      have hpos := ((ends_statCompileSplits hstats hmax).of_ok hres).1
      exact Nat.pos_iff_ne_zero.mp hpos

/-- In an array that is not empty, a call that gets as far as the value is fruitless
without a part and where a part does not parse. -/
theorem fruitless_value_iff {s : Str} {strs : List Str} (hstats : stats.length = max)
    (hmax : 0 < max) (hpredicates : testRequiredPredicates complex conf.condition = .ok)
    (hs : complex conf.value.complex = some s) (hstrs : evalKeys complex conf.keys = some strs) :
    Fruitless (statCompileSplits num sp conf complex max stats) ↔
      valuePart sp conf.value s sp.start = .ok none ∨
        (valuePartsFrom sp conf.value s max sp.start).mapM
          (statPartValue num conf.value.type) = none := by
  have hreturns : Returns (valuesLoop num sp conf max s sp.start 0 stats) ↔ _ :=
    returns_valuesLoop_iff s sp.start hstats hmax
  rw [Nat.sub_zero] at hreturns
  cases hloop : valuesLoop num sp conf max s sp.start 0 stats with
  | error halt =>
      -- the end of the loop is the end of the function
      have hpart : valuePart sp conf.value s sp.start ≠ .ok none := by
        intro hpart
        rw [valuesLoop_of_none hpart] at hloop
        cases hloop
      rw [hloop] at hreturns
      rw [statCompileSplits_eq hpredicates hs hstrs, hloop, ← hreturns, or_iff_right hpart]
      exact fruitless_error_iff
  | ok r =>
      rcases r with ⟨splits, stats'⟩
      have hparse := mt hreturns.mpr (by rw [hloop]; exact not_returns_ok _)
      rw [or_iff_left hparse, ← valuesLoop_zero_iff hstats hmax hloop]
      by_cases hsplits : splits = 0
      · rw [statCompileSplits_eq hpredicates hs hstrs, hloop]
        refine iff_of_true ?_ hsplits
        show Fruitless (if splits = 0 then _ else _)
        rw [if_pos hsplits]
        trivial
      · exact iff_of_false (not_fruitless_of_values hstats hmax hpredicates hs hstrs hloop hsplits)
          hsplits

/-- In an array without elements a first part ends in a fault. -/
theorem fruitless_value_iff_nil {s : Str} {strs : List Str}
    (hpredicates : testRequiredPredicates complex conf.condition = .ok)
    (hs : complex conf.value.complex = some s) (hstrs : evalKeys complex conf.keys = some strs) :
    Fruitless (statCompileSplits num sp conf complex max ([] : List (Stat V))) ↔
      valuePart sp conf.value s sp.start = .ok none := by
  rw [statCompileSplits_eq hpredicates hs hstrs]
  cases hpart : valuePart sp conf.value s sp.start with
  | error halt =>
      rcases valuePart_error hpart with ⟨fault, rfl⟩
      rw [valuesLoop_of_error hpart]
      exact iff_of_false id (by simp)
  | ok part =>
      cases part with
      | none =>
          rw [valuesLoop_of_none hpart]
          exact iff_of_true trivial rfl
      | some part =>
          rw [valuesLoop, hpart]
          exact iff_of_false id (by simp)

/-- Behind the timeout a call comes to nothing exactly in the ways that are listed. -/
theorem fruitless_statCompileSplits_iff (hstats : stats.length = max) :
    Fruitless (statCompileSplits num sp conf complex max stats) ↔
      NothingToSend num sp conf complex max := by
  by_cases hpredicates : testRequiredPredicates complex conf.condition = .ok
  swap
  · unfold statCompileSplits
    simp only
    rw [if_pos hpredicates]
    exact iff_of_true trivial (.predicates hpredicates)
  cases hs : complex conf.value.complex with
  | none =>
      simp only [statCompileSplits, hpredicates, hs]
      exact iff_of_true trivial (.value hs)
  | some s =>
      cases hstrs : evalKeys complex conf.keys with
      | none =>
          simp only [statCompileSplits, hpredicates, hs, hstrs]
          exact iff_of_true trivial (.keys hstrs)
      | some strs =>
          rw [nothingToSend_iff hpredicates hs hstrs]
          by_cases hmax : 0 < max
          · rw [fruitless_value_iff hstats hmax hpredicates hs hstrs]
            simp [hmax]
          · have hnil : stats = [] := List.length_eq_zero_iff.mp (by omega)
            rw [hnil, fruitless_value_iff_nil hpredicates hs hstrs]
            simp [hmax]

/-- The call moves `last` and produces nothing, exactly if it passes the timeout at a new
time and comes to nothing after that. -/
theorem statCompile_moved_iff {last now : Nat} (hstats : stats.length = max) :
    Fruitless (statCompile num sp conf complex last now max stats).2 ∧
        (statCompile num sp conf complex last now max stats).1 ≠ last ↔
      TakesTime conf last now ∧ NothingToSend num sp conf complex max := by
  by_cases hstop : conf.disable = true ∨ Limited conf last now
  · have hlast : (statCompile num sp conf complex last now max stats).1 = last := by
      unfold statCompile
      split
      · rfl
      · rename_i hdisable
        rw [if_pos (hstop.resolve_left hdisable)]
    refine iff_of_false (fun h => h.2 hlast) ?_
    rintro ⟨⟨henabled, -, hlimited, -⟩, -⟩
    rcases hstop with hdisable | hlimited'
    · rw [henabled] at hdisable
      cases hdisable
    · exact hlimited hlimited'
  · rw [not_or, Bool.not_eq_true] at hstop
    rw [statCompile_splits hstop.1 hstop.2, fruitless_statCompileSplits_iff hstats]
    rw [statCompile, if_neg (by simp [hstop.1]), if_neg hstop.2]
    simp only [TakesTime, hstop.1, hstop.2, not_false_eq_true, true_and]
    by_cases htimeout : conf.timeout = 0
    · simp [htimeout]
    · rw [if_pos htimeout, and_comm]
      simp [htimeout, ne_comm]

end Keys

/-! ## Runs -/

/-- A call of `ngx_statshouse_stat_compile` for one configuration: the time, the variables of
the request and the split array of the server. -/
structure Attempt (C V : Type) where
  now : Nat
  complex : C → Option Str
  server : SplitArray V

/-- A configuration in a worker: `conf->last`, the times of the calls that produced stats,
and whether a call ended in a fault, after which there are no more. -/
structure Window where
  last : Nat
  sent : List Nat
  faulted : Bool
deriving DecidableEq, Repr

/-- Before the first request. -/
def Window.init : Window := { last := 0, sent := [], faulted := false }

/-- The call ended in a fault. -/
def faults (res : Except (Halt ε) (Nat × List (Stat V))) : Bool :=
  match res with
  | .ok _ => false
  | .error (.ret _) => false
  | .error _ => true

section Runs

variable [Inhabited V] (num : Numbers V) (sp : Splitter P ε) (conf : Conf C)

def Attempt.compile (call : Attempt C V) (last : Nat) :
    Nat × Except (Halt ε) (Nat × List (Stat V)) :=
  statCompile num sp conf call.complex last call.now call.server.splitsMax call.server.splits

def Window.step (w : Window) (call : Attempt C V) : Window :=
  if w.faulted then w
  else
    let res := call.compile num sp conf w.last
    { last := res.1
      sent := if produced res.2 then w.sent ++ [call.now] else w.sent
      faulted := faults res.2 }

/-- A call that is limited is so by an earlier one that produced stats. -/
def LimitedBySent (w : Window) (call : Attempt C V) : Prop :=
  w.faulted = false → Limited conf w.last call.now →
    ∃ t ∈ w.sent, call.now < t + conf.timeout

instance (w : Window) (call : Attempt C V) : Decidable (LimitedBySent conf w call) :=
  inferInstanceAs (Decidable (_ → _ → _))

/-- The call does not pass the timeout to come to nothing after that. -/
def Worthwhile (w : Window) (call : Attempt C V) : Prop :=
  ¬ (TakesTime conf w.last call.now ∧
    NothingToSend num sp conf call.complex call.server.splitsMax)

variable {num sp conf}

theorem compile_kept_iff (call : Attempt C V) (last : Nat) :
    (Fruitless (call.compile num sp conf last).2 → (call.compile num sp conf last).1 = last) ↔
      ¬ (TakesTime conf last call.now ∧
        NothingToSend num sp conf call.complex call.server.splitsMax) := by
  rw [← statCompile_moved_iff call.server.length_splits, not_and, not_not]
  rfl

/-- Where `last` is the time of a call that produced stats, or was never set. -/
def Window.Inv (w : Window) : Prop := w.faulted = false → w.last = 0 ∨ w.last ∈ w.sent

theorem Window.step_inv (w : Window) (call : Attempt C V) (hcall : Worthwhile num sp conf w call)
    (h : w.Inv) : (w.step num sp conf call).Inv := by
  unfold step
  cases hfaulted : w.faulted with
  | true =>
      rw [if_pos rfl]
      exact h
  | false =>
      rw [if_neg (by decide)]
      have hkept := (compile_kept_iff call w.last).mpr hcall
      intro hfault
      simp only at hfault ⊢
      split
      · -- the time of the call is in `sent`, whether or not it is in `last`
        rcases statCompile_last num sp conf call.complex w.last call.now call.server.splitsMax
          call.server.splits with hlast | hlast
        · rcases h hfaulted with hzero | hmem
          · exact Or.inl (hlast.trans hzero)
          · exact Or.inr (List.mem_append_left _ (by rw [Attempt.compile, hlast]; exact hmem))
        · exact Or.inr (List.mem_append_right _ (by rw [Attempt.compile, hlast]; simp))
      · rename_i hproduced
        have hfruitless : Fruitless (call.compile num sp conf w.last).2 := by
          cases hres : (call.compile num sp conf w.last).2 with
          | ok r =>
              rw [hres] at hproduced
              simpa [produced, Fruitless] using hproduced
          | error halt =>
              rw [hres] at hfault
              cases halt with
              | ret rc => trivial
              | splitter fault => cases hfault
              | outside k => cases hfault
        rw [hkept hfruitless]
        exact h hfaulted

/-- A call that produces nothing leaves `last` as it was, unless it passed the timeout at
a new time and came to nothing in one of the listed ways. In every run without such a
call, a limited call comes less than a timeout after one that produced stats. -/
theorem window_kept_iff (num : Numbers V) (sp : Splitter P ε) (conf : Conf C) :
    (∀ (call : Attempt C V) (last : Nat),
      (Fruitless (call.compile num sp conf last).2 → (call.compile num sp conf last).1 = last) ↔
        ¬ (TakesTime conf last call.now ∧
          NothingToSend num sp conf call.complex call.server.splitsMax)) ∧
    ∀ calls : List (Attempt C V),
      Run.Meets (Window.step num sp conf) (Worthwhile num sp conf) Window.init calls →
        Run.Meets (Window.step num sp conf) (LimitedBySent conf) Window.init calls := by
  constructor
  · exact compile_kept_iff
  · intro calls hcalls
    have hgood : ∀ (w : Window) (call : Attempt C V), Worthwhile num sp conf w call → w.Inv →
        LimitedBySent conf w call := by
      intro w call _ hinv hfaulted hlimited
      rcases hinv hfaulted with hzero | hmem
      · exact absurd hzero hlimited.2.1
      · exact ⟨w.last, hmem, hlimited.lt⟩
    exact Run.meets_of_invariant Window.step_inv hgood (fun _ => Or.inl rfl) hcalls

end Runs

/-- A metric with the value 1, a timeout of a minute and the condition `$a`. -/
def conditionConf : Conf Str :=
  { Conf.ofValue ⟨[0x31], .value, false⟩ with timeout := 60, condition := some [[0x24, 0x61]] }

/-- A request in which `$a` has a value. -/
def conditionCall (now : Nat) (a : Str) : Attempt Str Int :=
  { now := now, complex := fun str => some (if str = [0x24, 0x61] then a else str)
    server := ⟨1, [Stat.init [] .value], rfl⟩ }

/-- The second call is limited by the first, which sent the metric. -/
theorem window_kept_two :
    Run.Meets (Window.step wholeNumbers statSplitter conditionConf)
      (LimitedBySent conditionConf) Window.init
      [conditionCall 1000 [0x31], conditionCall 1001 [0x31]] := by
  apply (window_kept_iff wholeNumbers statSplitter conditionConf).2
  refine ⟨?_, ?_, trivial⟩
  · -- the first call produces a stat
    rintro ⟨-, hnothing⟩
    have hlength : ([Stat.init [] .value] : List (Stat Int)).length = 1 := rfl
    have hfruitless : Fruitless (statCompileSplits wholeNumbers statSplitter conditionConf
        (conditionCall 1000 [0x31]).complex 1 [Stat.init [] .value]) :=
      (fruitless_statCompileSplits_iff hlength).mpr hnothing
    revert hfruitless
    decide +kernel
  · -- the second does not pass the timeout
    rintro ⟨⟨-, -, hlimited, -⟩, -⟩
    revert hlimited
    decide +kernel

/-- With the condition false the first call sends nothing, and moves `last`: the second
call is limited, and nothing was ever sent. -/
theorem false_condition_limits :
    ¬ (Fruitless ((conditionCall 1000 [0x30]).compile wholeNumbers statSplitter
          conditionConf 0).2 →
        ((conditionCall 1000 [0x30]).compile wholeNumbers statSplitter conditionConf 0).1 = 0) ∧
      ¬ Run.Meets (Window.step wholeNumbers statSplitter conditionConf)
        (LimitedBySent conditionConf) Window.init
        [conditionCall 1000 [0x30], conditionCall 1001 [0x31]] := by
  constructor <;> decide +kernel

end StatsHouse
