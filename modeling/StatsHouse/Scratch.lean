import StatsHouse.Matrix

/-! # What is left in the array

A server has one array of stats, `server->splits`, for all the metrics and requests
that send to it, and `ngx_statshouse_stat_compile` does not clear it: a call finds the
stats of the call before it, with names and key values of another request.

* `statCompile_scratch`: what a call returns does not depend on what it finds there.
-/

namespace StatsHouse

open Outcome

variable {C V P ε : Type}

/-- Two arrays of one length that agree up to the place `k`. -/
structure AgreeTo (k : Nat) (stats stats' : List (Stat V)) : Prop where
  length : stats.length = stats'.length
  take : stats.take k = stats'.take k

section Arrays

variable {k j : Nat} {stats stats' : List (Stat V)}

theorem AgreeTo.zero (h : stats.length = stats'.length) : AgreeTo 0 stats stats' := ⟨h, rfl⟩

theorem AgreeTo.get (h : AgreeTo k stats stats') (hj : j < k) : stats[j]? = stats'[j]? := by
  rw [← List.getElem?_take_of_lt hj, h.take, List.getElem?_take_of_lt hj]

/-- Where the elements below `k` are the same, the arrays agree. -/
theorem agreeTo_of_get (hlength : stats.length = stats'.length)
    (h : ∀ i < k, stats[i]? = stats'[i]?) : AgreeTo k stats stats' := by
  refine ⟨hlength, List.ext_getElem? ?_⟩
  intro i
  by_cases hi : i < k
  · rw [List.getElem?_take_of_lt hi, List.getElem?_take_of_lt hi, h i hi]
  -- behind `k` both have ended
  · rw [List.getElem?_eq_none, List.getElem?_eq_none]
    · rw [List.length_take]
      omega
    · rw [List.length_take]
      omega

theorem AgreeTo.modify (h : AgreeTo k stats stats') (j : Nat) (f : Stat V → Stat V) :
    AgreeTo k (stats.modify j f) (stats'.modify j f) := by
  apply agreeTo_of_get
  · rw [List.length_modify, List.length_modify, h.length]
  · intro i hi
    rw [List.getElem?_modify, List.getElem?_modify, h.get hi]

/-- An element that is overwritten agrees too. -/
theorem AgreeTo.overwrite (h : AgreeTo k stats stats') (hj : k < stats.length) (stat : Stat V) :
    AgreeTo (k + 1) (stats.modify k fun _ => stat) (stats'.modify k fun _ => stat) := by
  apply agreeTo_of_get
  · rw [List.length_modify, List.length_modify, h.length]
  · intro i hi
    by_cases hik : i = k
    -- the new element, whatever was there before
    · subst hik
      rw [List.getElem?_modify_eq, List.getElem?_modify_eq, List.getElem?_eq_getElem hj,
        List.getElem?_eq_getElem (h.length ▸ hj)]
      rfl
    · rw [List.getElem?_modify_ne _ _ (Ne.symm hik), List.getElem?_modify_ne _ _ (Ne.symm hik)]
      exact h.get (by omega)

theorem alike_setStat (h : AgreeTo k stats stats') (j : Nat) (f : Stat V → Stat V) :
    Alike (AgreeTo k) (setStat stats j f : Except (Halt ε) _) (setStat stats' j f) := by
  unfold setStat
  -- the arrays are equally long, so both writes are inside or both are not
  rw [h.length]
  split
  · exact alike_ok (h.modify j f)
  · exact alike_error _

theorem alike_overwrite (h : AgreeTo k stats stats') (stat : Stat V) :
    Alike (AgreeTo (k + 1)) (setStat stats k (fun _ => stat) : Except (Halt ε) _)
      (setStat stats' k fun _ => stat) := by
  unfold setStat
  rw [← h.length]
  split
  · rename_i hk
    exact alike_ok (h.overwrite hk stat)
  · exact alike_error _

end Arrays

/-! ## The loops -/

/-- The same number of stats, which are the same. -/
def SameStats (r r' : Nat × List (Stat V)) : Prop := r.1 = r'.1 ∧ AgreeTo r.1 r.2 r'.2

section Loops

variable {num : Numbers V} {sp : Splitter P ε} {conf : Conf C} {max : Nat}
  {stats stats' : List (Stat V)}

theorem AgreeTo.mono {j k : Nat} (h : AgreeTo k stats stats') (hjk : j ≤ k) :
    AgreeTo j stats stats' := by
  apply agreeTo_of_get h.length
  intro i hi
  exact h.get (by omega)

/-- The value loop overwrites each stat before it uses it. -/
theorem alike_valuesLoop (s : Str) (p : P) {splits : Nat} (h : AgreeTo splits stats stats') :
    Alike SameStats (valuesLoop num sp conf max s p splits stats)
      (valuesLoop num sp conf max s p splits stats') := by
  fun_induction valuesLoop num sp conf max s p splits stats generalizing stats' with
  | case1 p splits stats ih =>
      rw [valuesLoop]
      cases hpart : valuePart sp conf.value s p with
      | error e => exact alike_error e
      | ok part =>
          cases part with
          | none => exact alike_ok ⟨rfl, h⟩
          | some part =>
              obtain ⟨split, p'⟩ := part
              -- `ngx_statshouse_stat_init` at `splits`: from here the arrays agree there too
              refine (alike_overwrite h _).bind ?_
              intro a a' ha
              cases hvalue : statPartValue num conf.value.type split with
              | none => exact alike_error _
              | some value =>
                  refine (alike_setStat ha splits _).bind ?_
                  intro b b' hb
                  split
                  · rename_i hmore
                    exact ih p' b hmore hb
                  · exact alike_ok ⟨rfl, hb⟩

variable [Inhabited V]

theorem alike_newSplitValue {k : Nat} (h : AgreeTo (k + 1) stats stats') :
    Alike Eq (newSplitValue num conf stats : Except (Halt ε) V)
      (newSplitValue num conf stats') := by
  unfold newSplitValue statAt
  split
  · exact alike_ok rfl
  -- the value of the first stat, which is below `k + 1`
  · rw [h.get (Nat.succ_pos k)]
    cases stats'[0]? with
    | none => exact alike_error _
    | some stat => exact alike_ok rfl

/-- A new stat copies the value of the first one, which is then there. -/
theorem alike_newSplit (before : List (ConfKey C × Str)) {j : Nat} (h : AgreeTo j stats stats') :
    Alike (AgreeTo (j + 1)) (newSplit num conf before j stats : Except (Halt ε) _)
      (newSplit num conf before j stats') := by
  unfold newSplit
  refine (alike_overwrite h _).bind ?_
  intro a a' ha
  refine (alike_newSplitValue ha).bind ?_
  rintro value _ rfl
  exact alike_setStat ha j _

/-- A split key adds to the stats there are, and behind them it makes new ones. -/
theorem alike_splitKeyLoop (before : List (ConfKey C × Str)) (name str : Str) {splits : Nat}
    (p : P) {j : Nat} (hthere : AgreeTo splits stats stats') (h : AgreeTo j stats stats') :
    Alike (fun r r' => SameStats r r' ∧ AgreeTo splits r.2 r'.2)
      (splitKeyLoop num sp conf max before name str splits p j stats)
      (splitKeyLoop num sp conf max before name str splits p j stats') := by
  fun_induction splitKeyLoop num sp conf max before name str splits p j stats
    generalizing stats' with
  | case1 p j stats hj fault hpart =>
      rw [splitKeyLoop, if_pos hj, hpart]
      exact alike_error _
  | case2 p j stats hj hpart =>
      rw [splitKeyLoop, if_pos hj, hpart]
      exact alike_ok ⟨⟨rfl, h⟩, hthere⟩
  -- a part more: a place behind `splits` is overwritten, one before it agreed already
  | case3 p j stats hj split p' hpart ih =>
      rw [splitKeyLoop, if_pos hj, hpart]
      have hnew : Alike (fun a a' => AgreeTo splits a a' ∧ AgreeTo (j + 1) a a')
          (if splits ≤ j then newSplit num conf before j stats else pure stats :
            Except (Halt ε) _)
          (if splits ≤ j then newSplit num conf before j stats' else pure stats') := by
        by_cases hsplits : splits ≤ j
        · rw [if_pos hsplits, if_pos hsplits]
          refine (alike_newSplit before h).imp ?_
          intro a a' ha
          exact ⟨ha.mono (by omega), ha⟩
        · rw [if_neg hsplits, if_neg hsplits]
          exact alike_ok ⟨hthere, hthere.mono (by omega)⟩
      refine hnew.bind ?_
      rintro a a' ⟨hathere, ha⟩
      refine ((alike_setStat hathere j _).and (alike_setStat ha j _)).bind ?_
      rintro b b' ⟨hbthere, hb⟩
      exact ih b hbthere hb
  | case4 p j stats hj =>
      rw [splitKeyLoop, if_neg hj]
      exact alike_ok ⟨⟨rfl, h⟩, hthere⟩

omit [Inhabited V] in
theorem alike_plainKeyLoop (name str : Str) {splits : Nat} (h : AgreeTo splits stats stats') :
    Alike (AgreeTo splits) (plainKeyLoop name str splits stats : Except (Halt ε) _)
      (plainKeyLoop name str splits stats') := by
  apply Alike.foldlM _ h
  intro j _ a a' ha
  exact alike_setStat ha j _

theorem alike_keysLoop (keys before : List (ConfKey C × Str)) {splits : Nat}
    (h : AgreeTo splits stats stats') :
    Alike SameStats (keysLoop num sp conf max before keys splits stats)
      (keysLoop num sp conf max before keys splits stats') := by
  induction keys generalizing before splits stats stats' with
  | nil => exact alike_ok ⟨rfl, h⟩
  | cons key keys ih =>
      obtain ⟨key, str⟩ := key
      unfold keysLoop
      -- the three branches of the body: no string, a split key, a plain key
      by_cases hempty : statIsEmpty str
      · rw [if_pos hempty, if_pos hempty]
        exact ih _ h
      · rw [if_neg hempty, if_neg hempty]
        by_cases hsplit : key.split
        · rw [if_pos hsplit, if_pos hsplit]
          refine (alike_splitKeyLoop before key.name str sp.start h (AgreeTo.zero h.length)).bind ?_
          rintro ⟨j, a⟩ ⟨j', a'⟩ ⟨⟨hj, ha⟩, hathere⟩
          -- both columns are equally long
          obtain rfl : j = j' := hj
          have hlonger : AgreeTo (if splits < j then j else splits) a a' := by
            split
            · exact ha
            · exact hathere
          exact ih _ hlonger
        · rw [if_neg hsplit, if_neg hsplit]
          refine (alike_plainKeyLoop key.name str h).bind ?_
          intro a a' ha
          exact ih _ ha

theorem alike_statCompileSplits (complex : C → Option Str) (h : stats.length = stats'.length) :
    Alike SameStats (statCompileSplits num sp conf complex max stats)
      (statCompileSplits num sp conf complex max stats') := by
  unfold statCompileSplits
  simp only
  split
  · exact alike_error _
  · split
    · exact alike_error _
    · split
      · exact alike_error _
      · refine (alike_valuesLoop _ _ (AgreeTo.zero h)).bind ?_
        rintro ⟨splits, a⟩ ⟨_, a'⟩ ⟨rfl, ha⟩
        simp only
        split
        · exact alike_error _
        · exact alike_keysLoop _ _ ha

end Loops

/-! ## The function -/

/-- With two arrays of one length, `ngx_statshouse_stat_compile` leaves the same
`conf->last` and ends alike: in the same early end, or with the same stats. -/
theorem statCompile_scratch [Inhabited V] (num : Numbers V) (sp : Splitter P ε) (conf : Conf C)
    (complex : C → Option Str) (last now max : Nat) (stats stats' : List (Stat V))
    (h : stats.length = stats'.length) :
    (statCompile num sp conf complex last now max stats).1 =
        (statCompile num sp conf complex last now max stats').1 ∧
      Alike SameStats (statCompile num sp conf complex last now max stats).2
        (statCompile num sp conf complex last now max stats').2 := by
  unfold statCompile
  -- neither the flag nor the timeout looks at the array
  split
  · exact ⟨rfl, alike_error _⟩
  · split
    · exact ⟨rfl, alike_error _⟩
    · exact ⟨rfl, alike_statCompileSplits complex h⟩

/-- The key "a, b", in a new array and behind a request with a key "k" of its own. -/
theorem statCompile_scratch_two :
    Alike SameStats
      (statCompile wholeNumbers statSplitter (splitKeyConf [97, comma, space, 98]) some 0 0 2
        (List.replicate 2 ⟨.counter, [], [], []⟩)).2
      (statCompile wholeNumbers statSplitter (splitKeyConf [97, comma, space, 98]) some 0 0 2
        (List.replicate 2 ⟨.unique, [0x6e], [⟨[0x6b], [0x78]⟩], [7, 8]⟩)).2 :=
  (statCompile_scratch wholeNumbers statSplitter (splitKeyConf [97, comma, space, 98]) some 0 0 2
    (List.replicate 2 ⟨.counter, [], [], []⟩)
    (List.replicate 2 ⟨.unique, [0x6e], [⟨[0x6b], [0x78]⟩], [7, 8]⟩) rfl).2

end StatsHouse
