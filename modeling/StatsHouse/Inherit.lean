import Mathlib.Data.List.Nodup
import StatsHouse.Contexts

/-! # The metrics a context inherits

An inner context without metrics of its own points to the array of the outer one,
and its own array is pushed to when it has one. An array is pushed to at most once,
by the merge of the context it was created for, and until then no other context
points to it: `Contexts.Pending`.

* `metrics_inherited`: in any tree of contexts, each has its own blocks and behind
  them what the context around it has, and no merge changes another context. It starts from
  the numbers of blocks (`Contexts.parsed`).
* `Contexts.parse_eq`: that start is what the slot function makes of the directives, in
  whatever order they are written.
-/

namespace StatsHouse

/-! ## Directives -/

/-- Before the configuration is read. -/
def Contexts.empty : Contexts := { confs := fun _ => none, arrays := fun _ => [] }

/-- The part of `ngx_http_statshouse_metric_slot` about the array of the context, which
an array is named after. -/
def Contexts.metricSlot (s : Contexts) (c : Nat) : Contexts :=
  match s.confs c with
  | none =>
    { confs := Function.update s.confs c (some c)
      arrays := Function.update s.arrays c [(c, 0)] }
  | some array =>
    { s with
      arrays := Function.update s.arrays array
        (s.arrays array ++ [(c, (s.arrays array).length)]) }

/-- The contexts after the `statshouse_metric` directives of a configuration, each in the
context it is written in. -/
def Contexts.parse (directives : List Nat) : Contexts :=
  Run.exec Contexts.metricSlot Contexts.empty directives

/-- One block more in a context. -/
theorem Contexts.metricSlot_parsed (own : Nat → Nat) (c : Nat) :
    (Contexts.parsed own).metricSlot c =
      Contexts.parsed (Function.update own c (own c + 1)) := by
  have harrays : (Contexts.parsed (Function.update own c (own c + 1))).arrays =
      Function.update (Contexts.parsed own).arrays c ((Contexts.parsed own).arrays c ++
        [(c, own c)]) := by
    funext d
    by_cases hd : d = c
    · subst hd
      simp [parsed, List.range_succ]
    · simp [parsed, hd]
  have hconfs : (Contexts.parsed (Function.update own c (own c + 1))).confs =
      Function.update (Contexts.parsed own).confs c (some c) := by
    funext d
    by_cases hd : d = c
    · subst hd
      simp [parsed]
    · simp [parsed, hd]
  have hnext : Contexts.parsed (Function.update own c (own c + 1)) =
      { confs := Function.update (Contexts.parsed own).confs c (some c)
        arrays := Function.update (Contexts.parsed own).arrays c
          ((Contexts.parsed own).arrays c ++ [(c, own c)]) } := by
    rw [← hconfs, ← harrays]
  rw [hnext]
  by_cases hown : own c = 0
  · -- the first block makes the array
    have hnone : (Contexts.parsed own).confs c = none := if_pos hown
    rw [metricSlot, hnone]
    simp [parsed, hown]
  · have hsome : (Contexts.parsed own).confs c = some c := if_neg hown
    have hself : Function.update (Contexts.parsed own).confs c (some c) =
        (Contexts.parsed own).confs := by
      rw [← hsome, Function.update_eq_self]
    rw [metricSlot, hsome, hself]
    simp [parsed]

/-- Whatever the order of the directives, a context has its blocks in the order they
stand in it. -/
theorem Contexts.parse_eq (directives : List Nat) :
    Contexts.parse directives = Contexts.parsed fun c => directives.count c := by
  have hrun : ∀ own : Nat → Nat, Run.exec Contexts.metricSlot (Contexts.parsed own) directives =
      Contexts.parsed fun c => own c + directives.count c := by
    induction directives with
    | nil =>
        intro own
        rfl
    | cons c directives ih =>
        intro own
        rw [Run.exec, metricSlot_parsed, ih]
        congr
        funext d
        by_cases hd : d = c
        · subst hd
          rw [Function.update_self, List.count_cons_self]
          omega
        · rw [Function.update_of_ne hd, List.count_cons_of_ne (Ne.symm hd)]
  have hempty : Contexts.empty = Contexts.parsed fun _ => 0 := by
    simp [empty, parsed]
  rw [parse, hempty, hrun]
  simp

/-! ## Merges -/

/-- What a context has: the elements of the array it points to. -/
def Contexts.metrics (s : Contexts) (c : Nat) : List Metric :=
  match s.confs c with
  | none => []
  | some array => s.arrays array

/-- The blocks written in a context. -/
def ownBlocks (own : Nat → Nat) (c : Nat) : List Metric := (List.range (own c)).map fun j => (c, j)

/-- The order in which nginx merges a tree of contexts: each inner context once, and the
one around it before. -/
def TreeOrder (merges : List (Nat × Nat)) : Prop :=
  (∀ e ∈ merges, e.1 ≠ e.2) ∧ merges.Pairwise fun e e' => e'.2 ≠ e.1 ∧ e'.2 ≠ e.2

instance (merges : List (Nat × Nat)) : Decidable (TreeOrder merges) :=
  inferInstanceAs (Decidable (_ ∧ _))

/-- The state before the merges that are left: a context that is still to be merged is as
it was parsed, and no other one points to its array or has its blocks. -/
structure Contexts.Pending (own : Nat → Nat) (merges : List (Nat × Nat)) (s : Contexts) :
    Prop where
  order : TreeOrder merges
  confs : ∀ e ∈ merges, s.confs e.2 = (Contexts.parsed own).confs e.2
  arrays : ∀ e ∈ merges, s.arrays e.2 = ownBlocks own e.2
  unshared : ∀ e ∈ merges, ∀ c, c ≠ e.2 → s.confs c ≠ some e.2
  apart : ∀ e ∈ merges, ∀ c, c ≠ e.2 → ∀ metric ∈ s.metrics c, metric.1 ≠ e.2
  nodup : ∀ c, (s.metrics c).Nodup

theorem Contexts.parsed_metrics (own : Nat → Nat) (c : Nat) :
    (Contexts.parsed own).metrics c = ownBlocks own c := by
  unfold metrics
  by_cases hown : own c = 0
  · have hnone : (Contexts.parsed own).confs c = none := if_pos hown
    rw [hnone, ownBlocks, hown]
    rfl
  · have hsome : (Contexts.parsed own).confs c = some c := if_neg hown
    rw [hsome]
    rfl

theorem nodup_ownBlocks (own : Nat → Nat) (c : Nat) : (ownBlocks own c).Nodup := by
  apply List.Nodup.map _ List.nodup_range
  intro i j hij
  exact (Prod.mk.inj hij).2

theorem fst_of_mem_ownBlocks {own : Nat → Nat} {c : Nat} {metric : Metric}
    (h : metric ∈ ownBlocks own c) : metric.1 = c := by
  rcases List.mem_map.mp h with ⟨j, -, rfl⟩
  rfl

theorem Contexts.parsed_pending (own : Nat → Nat) {merges : List (Nat × Nat)}
    (horder : TreeOrder merges) : (Contexts.parsed own).Pending own merges := by
  constructor
  · exact horder
  · intro e _
    rfl
  · intro e _
    rfl
  · intro e _ c hc hconfs
    have hself : (if own c = 0 then none else some c) = some e.2 := hconfs
    split at hself
    · cases hself
    · exact hc (Option.some.inj hself)
  · intro e _ c hc metric hmetric
    rw [parsed_metrics] at hmetric
    rw [fst_of_mem_ownBlocks hmetric]
    exact hc
  · intro c
    rw [parsed_metrics]
    exact nodup_ownBlocks own c

/-! ## One merge -/

theorem Contexts.merge_confs_of_ne (s : Contexts) (prev : Nat) {conf c : Nat} (hc : c ≠ conf) :
    (s.merge prev conf).confs c = s.confs c := by
  unfold merge
  split
  · rfl
  · split
    · exact Function.update_of_ne hc ..
    · rfl

/-- The inner context keeps its array or gets the outer one. -/
theorem Contexts.merge_confs_self (s : Contexts) (prev conf : Nat) :
    (s.merge prev conf).confs conf = s.confs conf ∨
      (s.merge prev conf).confs conf = s.confs prev := by
  unfold merge
  split
  · exact Or.inl rfl
  · rename_i array harray
    split
    · right
      rw [harray]
      exact Function.update_self ..
    · exact Or.inl rfl

/-- Only the array of the inner context is pushed to. -/
theorem Contexts.merge_arrays_of_ne (s : Contexts) (prev : Nat) {conf a : Nat}
    (ha : s.confs conf ≠ some a) : (s.merge prev conf).arrays a = s.arrays a := by
  unfold merge
  split
  · rfl
  · split
    · rfl
    · rename_i own hown
      apply Function.update_of_ne
      rintro rfl
      exact ha hown

section Merge

variable {own : Nat → Nat} {s : Contexts} {e : Nat × Nat} {rest : List (Nat × Nat)}

theorem Contexts.Pending.outer_ne (h : s.Pending own (e :: rest)) : e.1 ≠ e.2 :=
  h.order.1 e List.mem_cons_self

theorem Contexts.Pending.later (h : s.Pending own (e :: rest)) :
    ∀ e' ∈ rest, e'.2 ≠ e.1 ∧ e'.2 ≠ e.2 := (List.pairwise_cons.mp h.order.2).1

/-- The array of the inner context is the one created for it, if any. -/
theorem Contexts.Pending.confs_ne (h : s.Pending own (e :: rest)) {a : Nat} (ha : a ≠ e.2) :
    s.confs e.2 ≠ some a := by
  intro hconfs
  rw [h.confs e List.mem_cons_self] at hconfs
  have hself : (if own e.2 = 0 then none else some e.2) = some a := hconfs
  split at hself
  · cases hself
  · exact ha (Option.some.inj hself).symm

/-- The inner context has its own blocks and those of the outer one. -/
theorem Contexts.Pending.merge_inner (h : s.Pending own (e :: rest)) :
    (s.merge e.1 e.2).metrics e.2 = ownBlocks own e.2 ++ s.metrics e.1 := by
  have hconfs : s.confs e.2 = if own e.2 = 0 then none else some e.2 :=
    h.confs e List.mem_cons_self
  have harrays := h.arrays e List.mem_cons_self
  unfold merge
  cases hprev : s.confs e.1 with
  | none =>
      have houter : s.metrics e.1 = [] := by rw [metrics, hprev]
      rw [houter, List.append_nil]
      show s.metrics e.2 = _
      rw [metrics, hconfs]
      split
      · rename_i hnone
        have hown : own e.2 = 0 := by simpa using hnone
        rw [ownBlocks, hown]
        rfl
      · rename_i array hsome
        split at hsome
        · cases hsome
        · cases hsome
          exact harrays
  | some array =>
      have houter : s.metrics e.1 = s.arrays array := by rw [metrics, hprev]
      rw [houter]
      by_cases hown : own e.2 = 0
      · -- the outer array is shared
        rw [hconfs, if_pos hown]
        have hblocks : ownBlocks own e.2 = [] := by
          rw [ownBlocks, hown]
          rfl
        simp [metrics, hblocks]
      · rw [hconfs, if_neg hown]
        simp [metrics, hconfs, hown, harrays]

/-- No other context changes: none points to the array that is pushed to. -/
theorem Contexts.Pending.merge_others (h : s.Pending own (e :: rest)) {c : Nat} (hc : c ≠ e.2) :
    (s.merge e.1 e.2).metrics c = s.metrics c := by
  unfold metrics
  rw [s.merge_confs_of_ne e.1 hc]
  cases hconfs : s.confs c with
  | none => rfl
  | some array =>
      have hne : array ≠ e.2 := by
        rintro rfl
        exact h.unshared e List.mem_cons_self c hc hconfs
      exact s.merge_arrays_of_ne e.1 (h.confs_ne hne)

theorem Contexts.Pending.merge (h : s.Pending own (e :: rest)) :
    (s.merge e.1 e.2).Pending own rest := by
  have hmem : ∀ e' ∈ rest, e' ∈ e :: rest := fun e' he' => List.mem_cons_of_mem e he'
  constructor
  · exact ⟨fun e' he' => h.order.1 e' (hmem e' he'), (List.pairwise_cons.mp h.order.2).2⟩
  · intro e' he'
    rw [s.merge_confs_of_ne e.1 (h.later e' he').2]
    exact h.confs e' (hmem e' he')
  · intro e' he'
    rw [s.merge_arrays_of_ne e.1 (h.confs_ne (h.later e' he').2)]
    exact h.arrays e' (hmem e' he')
  · -- an array that is shared now was the outer context's
    intro e' he' c hc
    have hold : ∀ d, d ≠ e'.2 → s.confs d ≠ some e'.2 := h.unshared e' (hmem e' he')
    by_cases hinner : c = e.2
    · rw [hinner]
      rcases s.merge_confs_self e.1 e.2 with hsame | hshared
      · rw [hsame]
        exact hold e.2 (h.later e' he').2.symm
      · rw [hshared]
        exact hold e.1 (h.later e' he').1.symm
    · rw [s.merge_confs_of_ne e.1 hinner]
      exact hold c hc
  · intro e' he' c hc metric hmetric
    have hold : ∀ d, d ≠ e'.2 → ∀ metric ∈ s.metrics d, metric.1 ≠ e'.2 :=
      h.apart e' (hmem e' he')
    by_cases hinner : c = e.2
    · rw [hinner, h.merge_inner] at hmetric
      rcases List.mem_append.mp hmetric with hown | houter
      · rw [fst_of_mem_ownBlocks hown]
        exact (h.later e' he').2.symm
      · exact hold e.1 (h.later e' he').1.symm metric houter
    · rw [h.merge_others hinner] at hmetric
      exact hold c hc metric hmetric
  · intro c
    by_cases hinner : c = e.2
    · rw [hinner, h.merge_inner, List.nodup_append]
      refine ⟨nodup_ownBlocks own e.2, h.nodup e.1, ?_⟩
      intro metric hown metric' houter heq
      have hne := h.apart e List.mem_cons_self e.1 h.outer_ne metric' houter
      rw [← heq, fst_of_mem_ownBlocks hown] at hne
      exact hne rfl
    · rw [h.merge_others hinner]
      exact h.nodup c

end Merge

/-! ## All merges -/

section Run

variable {own : Nat → Nat} {merges : List (Nat × Nat)} {s : Contexts}

/-- A context that is not to be merged any more keeps its metrics. -/
theorem Contexts.Pending.exec_others (h : s.Pending own merges) {c : Nat}
    (hc : ∀ e ∈ merges, e.2 ≠ c) :
    (Run.exec (fun s e => Kind.http.merge s e.1 e.2) s merges).metrics c = s.metrics c := by
  induction merges generalizing s with
  | nil => rfl
  | cons e rest ih =>
      rw [Run.exec, Kind.merge_eq, ih h.merge fun e' he' => hc e' (List.mem_cons_of_mem e he')]
      exact h.merge_others (hc e List.mem_cons_self).symm

/-- In the end a context has its own blocks and what the one around it has in the end. -/
theorem Contexts.Pending.exec_inner (h : s.Pending own merges) :
    ∀ e ∈ merges, (Run.exec (fun s e => Kind.http.merge s e.1 e.2) s merges).metrics e.2 =
      ownBlocks own e.2 ++
        (Run.exec (fun s e => Kind.http.merge s e.1 e.2) s merges).metrics e.1 := by
  induction merges generalizing s with
  | nil =>
      intro e he
      cases he
  | cons e rest ih =>
      intro e' he'
      rw [Run.exec, Kind.merge_eq]
      rcases List.mem_cons.mp he' with rfl | hrest
      · -- neither of the two is merged again
        rw [h.merge.exec_others fun e'' he'' => (h.later e'' he'').2,
          h.merge.exec_others fun e'' he'' => (h.later e'' he'').1, h.merge_inner,
          h.merge_others h.outer_ne]
      · exact ih h.merge e' hrest

/-- In any tree of contexts, merged in any order from the outside in: a context has its
own blocks in order and behind them what the one around it has, each block once; a
context that is in no other has its own blocks; and each merge changes what its inner
context has and no other. -/
theorem metrics_inherited (own : Nat → Nat) (merges : List (Nat × Nat))
    (horder : TreeOrder merges) :
    (∀ e ∈ merges, (Kind.http.merged own merges).metrics e.2 =
      ownBlocks own e.2 ++ (Kind.http.merged own merges).metrics e.1) ∧
    (∀ c, (∀ e ∈ merges, e.2 ≠ c) →
      (Kind.http.merged own merges).metrics c = ownBlocks own c) ∧
    (∀ c, ((Kind.http.merged own merges).metrics c).Nodup) ∧
    Run.Meets (fun s e => Kind.http.merge s e.1 e.2)
      (fun s e => ∀ c, c ≠ e.2 → (Kind.http.merge s e.1 e.2).metrics c = s.metrics c)
      (Contexts.parsed own) merges := by
  have hparsed := Contexts.parsed_pending own horder
  have hstep : ∀ (s : Contexts) (e : Nat × Nat) (rest : List (Nat × Nat)),
      s.Pending own (e :: rest) → (Kind.http.merge s e.1 e.2).Pending own rest := by
    intro s e rest h
    exact h.merge
  refine ⟨hparsed.exec_inner, ?_, ?_, ?_⟩
  · intro c hc
    exact (hparsed.exec_others hc).trans (Contexts.parsed_metrics own c)
  · have hfinal : (Kind.http.merged own merges).Pending own [] :=
      Run.exec_invariant_of_rest hstep hparsed
    exact hfinal.nodup
  · refine Run.meets_of_rest hstep ?_ hparsed
    intro s e rest h c hc
    exact h.merge_others hc

end Run

/-- A server with two blocks and two locations in it, of which one has a block of its own
and the other shares what the server has. -/
theorem metrics_inherited_locations :
    (Kind.http.merged (fun c => if c = 1 then 2 else if c = 2 then 1 else 0)
        [(0, 1), (1, 3), (1, 2)]).metrics 2 = [(2, 0)] ++
      (Kind.http.merged (fun c => if c = 1 then 2 else if c = 2 then 1 else 0)
        [(0, 1), (1, 3), (1, 2)]).metrics 1 :=
  (metrics_inherited _ _ (by decide)).1 (1, 2) (by decide)

end StatsHouse
