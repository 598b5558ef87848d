import Mathlib.Data.List.Basic

/-! # Generators

A generator moves a cursor: a call finds the next cursor, or nothing more, or
fails. Calls are made until nothing more is found. A measure that every call
lowers bounds their number, and what a call keeps holds of every cursor found.
-/

namespace Generator

variable {σ ε α : Type*}

/-- Up to `n` calls from `s`: the cursors found, and whether the last call found
nothing more. -/
def calls (gen : σ → Except ε (Option σ)) : Nat → σ → Except ε (List σ × Bool)
  | 0, _ => .ok ([], false)
  | n + 1, s =>
    match gen s with
    | .error e => .error e
    | .ok none => .ok ([], true)
    | .ok (some s') =>
      match calls gen n s' with
      | .error e => .error e
      | .ok (ss, ended) => .ok (s' :: ss, ended)

/-- The calls from `s` find cursors with the values `xs` under `out`, and then
nothing more. -/
def Yields (gen : σ → Except ε (Option σ)) (out : σ → α) : σ → List α → Prop
  | s, [] => gen s = .ok none
  | s, x :: xs => ∃ s', gen s = .ok (some s') ∧ out s' = x ∧ Yields gen out s' xs

section Calls

variable {gen : σ → Except ε (Option σ)} {s s' : σ} {n : Nat}

theorem calls_none (h : gen s = .ok none) : calls gen (n + 1) s = .ok ([], true) := by
  rw [calls, h]

theorem calls_some (h : gen s = .ok (some s')) {ss : List σ} {ended : Bool}
    (hcalls : calls gen n s' = .ok (ss, ended)) :
    calls gen (n + 1) s = .ok (s' :: ss, ended) := by
  simp only [calls, h, hcalls]

/-- Calls that keep an invariant do not fail, keep it, lower the measure each time
and end as soon as there are more of them than the measure. -/
theorem calls_of_measure {I : σ → Prop} {size : σ → Nat}
    (hok : ∀ s, I s → ∃ r, gen s = .ok r)
    (hstep : ∀ s s', I s → gen s = .ok (some s') → I s' ∧ size s' < size s) (n : Nat) {s : σ}
    (hs : I s) :
    ∃ ss ended, calls gen n s = .ok (ss, ended) ∧ (∀ s' ∈ ss, I s') ∧
      (s :: ss).Pairwise (fun a b => size b < size a) ∧ ss.length ≤ size s ∧
      (size s < n → ended = true) := by
  induction n generalizing s with
  | zero => exact ⟨[], false, rfl, by simp, by simp, Nat.zero_le _, by omega⟩
  | succ n ih =>
      rcases hok s hs with ⟨_ | s', hgen⟩
      · exact ⟨[], true, calls_none hgen, by simp, by simp, Nat.zero_le _, by simp⟩
      · rcases hstep s s' hs hgen with ⟨hs', hlt⟩
        rcases ih hs' with ⟨ss, ended, hcalls, hall, hpairwise, hlength, hended⟩
        refine ⟨s' :: ss, ended, calls_some hgen hcalls, ?_, ?_, ?_, fun h => hended (by omega)⟩
        · intro t ht
          rcases List.mem_cons.mp ht with rfl | ht
          · exact hs'
          · exact hall t ht
        · -- the cursors after `s'` are smaller than `s'`, which is smaller than `s`
          refine List.pairwise_cons.mpr ⟨?_, hpairwise⟩
          intro t ht
          rcases List.mem_cons.mp ht with rfl | ht
          · exact hlt
          · exact Nat.lt_trans ((List.pairwise_cons.mp hpairwise).1 t ht) hlt
        · rw [List.length_cons]
          omega

/-- Each cursor found is the result of a call. -/
theorem exists_of_mem_calls {ss : List σ} {ended : Bool}
    (h : calls gen n s = .ok (ss, ended)) (hs' : s' ∈ ss) : ∃ t, gen t = .ok (some s') := by
  induction n generalizing s ss with
  | zero =>
      cases h
      cases hs'
  | succ n ih =>
      rw [calls] at h
      split at h
      · cases h
      · cases h
        cases hs'
      · rename_i t hgen
        split at h
        · cases h
        · rename_i tt ended' hcalls
          cases h
          rcases List.mem_cons.mp hs' with rfl | hs'
          · exact ⟨s, hgen⟩
          · exact ih hcalls hs'

/-- Calls that came to an end without a failure: what holds where nothing more is
found, and is handed back from each cursor, holds at the start. -/
theorem of_calls_ended {P : σ → Prop} (hnone : ∀ s, gen s = .ok none → P s)
    (hsome : ∀ s s', gen s = .ok (some s') → P s' → P s) {ss : List σ}
    (h : calls gen n s = .ok (ss, true)) : P s := by
  induction n generalizing s ss with
  | zero => simp [calls] at h
  | succ n ih =>
      rw [calls] at h
      split at h
      · cases h
      · rename_i hgen
        exact hnone s hgen
      · rename_i s' hgen
        split at h
        · cases h
        · rename_i ss' ended hcalls
          simp only [Except.ok.injEq, Prod.mk.injEq] at h
          rw [h.2] at hcalls
          exact hsome s s' hgen (ih hcalls)

end Calls

/-- The values a generator yields are determined. -/
theorem Yields.unique {gen : σ → Except ε (Option σ)} {out : σ → α} {s : σ} {xs ys : List α}
    (hx : Yields gen out s xs) (hy : Yields gen out s ys) : xs = ys := by
  induction xs generalizing s ys with
  | nil =>
      cases ys with
      | nil => rfl
      | cons y ys =>
          rcases hy with ⟨s', hs', -⟩
          rw [hx] at hs'
          cases hs'
  | cons x xs ih =>
      rcases hx with ⟨s', hs', rfl, hxs⟩
      cases ys with
      | nil =>
          rw [Yields, hs'] at hy
          cases hy
      | cons y ys =>
          rcases hy with ⟨t, ht, rfl, hys⟩
          rw [hs'] at ht
          cases ht
          rw [ih hxs hys]

end Generator
