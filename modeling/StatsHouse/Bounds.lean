import Mathlib.Algebra.BigOperators.Group.List.Basic
import Mathlib.Algebra.Ring.Nat
import StatsHouse.Matrix

/-! # The array of the splits

`ngx_statshouse_stat_compile` gets `server->splits` and its length. Both of its
loops that make stats test the length before they go on, but the value loop tests
it behind its body: the body runs once in any case.

* `statCompile_inside_iff`: every access is inside the array exactly if the array
  is not empty or the function ends before its first value.
-/

namespace StatsHouse

open Outcome

variable {C V P ε : Type}

/-- The function gets as far as its first value: it is neither disabled nor limited,
the predicates hold, the value and the keys evaluate, and the value has a part. -/
structure ReachesValue (sp : Splitter P ε) (conf : Conf C) (complex : C → Option Str)
    (last now : Nat) : Prop where
  enabled : conf.disable = false
  not_limited : ¬ Limited conf last now
  predicates : testRequiredPredicates complex conf.condition = .ok
  part : ∃ s keys part, complex conf.value.complex = some s ∧
    evalKeys complex conf.keys = some keys ∧
    valuePart sp conf.value s sp.start = .ok (some part)

/-- Every access is to an element of the array, and no more stats are returned than
it has elements. -/
def StaysInside (max : Nat) (res : Except (Halt ε) (Nat × List (Stat V))) : Prop :=
  (∀ k, res ≠ .error (.outside k)) ∧ ∀ n stats, res = .ok (n, stats) → n ≤ max

theorem staysInside_of_ends {max : Nat} {res : Except (Halt ε) (Nat × List (Stat V))}
    (h : Ends Halt.Inside (fun r => r.1 ≤ max) res) : StaysInside max res := by
  constructor
  · intro k hk
    exact h.of_error hk k rfl
  · intro n stats hres
    exact h.of_ok hres

/-- Where there is no part because the splitter faulted. -/
theorem inside_of_valuePart {sp : Splitter P ε} {value : ConfValue C} {s : Str} {p : P}
    {halt : Halt ε} (h : valuePart sp value s p = .error halt) : halt.Inside := by
  unfold valuePart at h
  split at h
  · split at h
    · cases h
      exact Halt.inside_splitter _
    · cases h
  · split at h <;> cases h

section Compile

variable [Inhabited V] {num : Numbers V} {sp : Splitter P ε} {conf : Conf C}
  {complex : C → Option Str} {last now : Nat}

theorem statCompile_ret (h : conf.disable = true ∨ Limited conf last now) (max : Nat)
    (stats : List (Stat V)) :
    (statCompile num sp conf complex last now max stats).2 = .error (.ret .declined) := by
  unfold statCompile
  split
  · rfl
  · rename_i hdisable
    rw [if_pos (h.resolve_left hdisable)]

theorem statCompile_splits (henabled : conf.disable = false) (hlimited : ¬ Limited conf last now)
    (max : Nat) (stats : List (Stat V)) :
    (statCompile num sp conf complex last now max stats).2 =
      statCompileSplits num sp conf complex max stats := by
  rw [statCompile, if_neg (by simp [henabled]), if_neg hlimited]

/-- The first value is written before the size of the array is looked at. -/
theorem statCompile_outside (h : ReachesValue sp conf complex last now) (max : Nat) :
    (statCompile num sp conf complex last now max []).2 = .error (.outside 0) := by
  rcases h with ⟨henabled, hlimited, hpredicates, s, keys, part, hs, hkeys, hpart⟩
  rw [statCompile_splits henabled hlimited]
  simp only [statCompileSplits, hpredicates, hs, hkeys, ne_eq, not_true_eq_false, if_false]
  rw [valuesLoop, hpart]
  rfl

/-- Where the function ends before its first value it accesses nothing and returns
no stats. -/
theorem statCompile_inside_of_not (h : ¬ ReachesValue sp conf complex last now) (max : Nat)
    (stats : List (Stat V)) :
    Ends Halt.Inside (fun _ => False)
      (statCompile num sp conf complex last now max stats).2 := by
  by_cases hstop : conf.disable = true ∨ Limited conf last now
  · rw [statCompile_ret hstop]
    exact Halt.inside_ret _
  · rw [not_or, Bool.not_eq_true] at hstop
    rw [statCompile_splits hstop.1 hstop.2]
    unfold statCompileSplits
    simp only
    split
    · exact Halt.inside_ret _
    · rename_i hpredicates
      split
      · exact Halt.inside_ret _
      · rename_i s hs
        split
        · exact Halt.inside_ret _
        · rename_i keys hkeys
          rw [valuesLoop]
          cases hpart : valuePart sp conf.value s sp.start with
          | error halt =>
              exact inside_of_valuePart hpart
          | ok part =>
              cases part with
              | none => exact Halt.inside_ret _
              | some part =>
                  -- a first part is what the condition excludes
                  exact absurd ⟨hstop.1, hstop.2, by simpa using hpredicates, s, keys, part, hs,
                    hkeys, hpart⟩ h

/-- The function stays inside the array of the server exactly if the array is not
empty or no first value is reached. -/
theorem statCompile_inside_iff (num : Numbers V) (sp : Splitter P ε) (conf : Conf C)
    (complex : C → Option Str) (last now : Nat) (server : SplitArray V) :
    StaysInside server.splitsMax
        (statCompile num sp conf complex last now server.splitsMax server.splits).2 ↔
      0 < server.splitsMax ∨ ¬ ReachesValue sp conf complex last now := by
  constructor
  · intro h
    by_cases hreaches : ReachesValue sp conf complex last now
    · left
      refine Nat.pos_of_ne_zero fun hzero => ?_
      -- an array without elements
      have hsplits : server.splits = [] := by
        rw [← List.length_eq_zero_iff, server.length_splits, hzero]
      rw [hsplits] at h
      exact h.1 0 (statCompile_outside hreaches _)
    · exact Or.inr hreaches
  · rintro (hmax | hreaches)
    · by_cases hreaches : ReachesValue sp conf complex last now
      · rw [statCompile_splits hreaches.enabled hreaches.not_limited]
        refine staysInside_of_ends ((ends_statCompileSplits server.length_splits hmax).imp ?_)
        intro r hr
        exact hr.2.1
      · exact staysInside_of_ends ((statCompile_inside_of_not hreaches _ _).imp fun _ => False.elim)
    · exact staysInside_of_ends ((statCompile_inside_of_not hreaches _ _).imp fun _ => False.elim)

end Compile

/-- `splits_max=0`, and a counter with the value "1". -/
theorem empty_splits_not_inside :
    ¬ StaysInside 0
      (statCompile wholeNumbers statSplitter (Conf.ofValue ⟨[49], .counter, false⟩) some 0 0 0
        ([] : List (Stat Int))).2 := by
  intro h
  exact h.1 0 (by decide +kernel)

end StatsHouse
