import Mathlib.Logic.Function.Basic
import StatsHouse.Lib.Run

/-! # Contexts and their metrics

A context of the configuration (`http`, `server`, `location`) has an array of its
`statshouse_metric` blocks, or none. nginx merges each context into those inside it:
`ngx_http_statshouse_merge_loc_conf` and `ngx_stream_statshouse_merge_srv_conf` share
the array of the outer context, or add its elements to the array of the inner one.

The code of the two is the same, and the elements are not: the HTTP module keeps
pointers, so the element added is the same configuration, and the stream module keeps
the configurations themselves, so it is a copy. `Contexts.object` is that difference.
-/

namespace StatsHouse

/-- A `statshouse_metric` block: the context it is written in and its place there. -/
abbrev Metric := Nat × Nat

/-- The arrays of metrics (`confs`), and the one each context points to. -/
structure Contexts where
  confs : Nat → Option Nat
  arrays : Nat → List Metric

/-- After parsing: the blocks of a context, put into a new array by
`ngx_*_statshouse_metric_slot`. The array of a context without blocks is null. -/
def Contexts.parsed (own : Nat → Nat) : Contexts :=
  { confs := fun c => if own c = 0 then none else some c
    arrays := fun c => (List.range (own c)).map fun j => (c, j) }

/-- The part of the merge functions about the metrics. -/
def Contexts.merge (s : Contexts) (prev conf : Nat) : Contexts :=
  match s.confs prev with
  | none => s
  | some array =>
    match s.confs conf with
    | none => { s with confs := Function.update s.confs conf (some array) }
    | some own =>
      -- the loop of `ngx_array_push`, into the array the inner context points to
      { s with arrays := Function.update s.arrays own (s.arrays own ++ s.arrays array) }

/-- `ngx_http_statshouse_merge_loc_conf`: the elements are pointers. -/
def mergeLocConf (s : Contexts) (prev conf : Nat) : Contexts := s.merge prev conf

/-- `ngx_stream_statshouse_merge_srv_conf`: the elements are configurations. Before the
first request they differ from the block's own in nothing, so a copy is named after
its block too. -/
def mergeSrvConf (s : Contexts) (prev conf : Nat) : Contexts := s.merge prev conf

/-- The module a context belongs to. -/
inductive Kind where
  | http
  | stream
deriving DecidableEq, Repr

/-- The merge function of a module. -/
def Kind.merge : Kind → Contexts → Nat → Nat → Contexts
  | .http => mergeLocConf
  | .stream => mergeSrvConf

theorem Kind.merge_eq (kind : Kind) (s : Contexts) (prev conf : Nat) :
    kind.merge s prev conf = s.merge prev conf := by
  cases kind <;> rfl

/-- The contexts after the merges, each of an outer context and an inner one. -/
def Kind.merged (kind : Kind) (own : Nat → Nat) (merges : List (Nat × Nat)) : Contexts :=
  Run.exec (fun s e => kind.merge s e.1 e.2) (Contexts.parsed own) merges

/-- A configuration in memory, which has a `conf->last` of its own: what the HTTP module
allocated for a block, or an element of an array of the stream module. -/
inductive Object where
  | block (metric : Metric)
  | element (array index : Nat)
deriving DecidableEq, Repr

/-- The configuration that a handler finds at an index of `confs`, and its block. -/
def Contexts.object (s : Contexts) (kind : Kind) (c i : Nat) : Option (Object × Metric) :=
  match s.confs c with
  | none => none
  | some array =>
    match (s.arrays array)[i]? with
    | none => none
    | some metric =>
      match kind with
      | .http => some (.block metric, metric)
      | .stream => some (.element array i, metric)

/-- An HTTP context has the configuration of the block itself. -/
theorem Contexts.object_http {s : Contexts} {c i : Nat} {o : Object} {metric : Metric}
    (h : s.object .http c i = some (o, metric)) : o = .block metric := by
  unfold Contexts.object at h
  split at h
  · cases h
  · split at h
    · cases h
    · cases h
      rfl

/-- A stream context has an element of the array it points to. -/
theorem Contexts.object_stream {s : Contexts} {c i : Nat} {o : Object} {metric : Metric}
    (h : s.object .stream c i = some (o, metric)) :
    ∃ array, o = .element array i ∧ (s.arrays array)[i]? = some metric := by
  unfold Contexts.object at h
  split at h
  · cases h
  · rename_i array _
    split at h
    · cases h
    · rename_i metric' hget
      cases h
      exact ⟨array, rfl, hget⟩

/-! ## Without copies -/

/-- The merge adds no copy of a metric in `timed`: the inner context has no array, or
the outer one no such metric. -/
def NoCopy (timed : Metric → Prop) (s : Contexts) (e : Nat × Nat) : Prop :=
  ∀ array, s.confs e.1 = some array → s.confs e.2 = none ∨
    ∀ metric ∈ s.arrays array, ¬ timed metric

/-- The metrics in `timed` are where they were parsed. -/
def Contexts.InPlace (timed : Metric → Prop) (s : Contexts) : Prop :=
  ∀ array i metric, (s.arrays array)[i]? = some metric → timed metric → metric = (array, i)

theorem Contexts.parsed_inPlace (timed : Metric → Prop) (own : Nat → Nat) :
    (Contexts.parsed own).InPlace timed := by
  intro array i metric hget _
  have hlt : i < own array := by
    have hlength := (List.getElem?_eq_some_iff.mp hget).1
    simpa [parsed] using hlength
  have helem : ((List.range (own array)).map fun j => (array, j))[i]? = some metric := hget
  rw [List.getElem?_map, List.getElem?_range hlt] at helem
  exact (Option.some.inj helem).symm

theorem Contexts.InPlace.merge {timed : Metric → Prop} {s : Contexts} {e : Nat × Nat}
    (h : s.InPlace timed) (hcopy : NoCopy timed s e) : (s.merge e.1 e.2).InPlace timed := by
  unfold Contexts.merge
  split
  · exact h
  · rename_i array harray
    split
    · -- the array is shared
      exact h
    · rename_i own hown
      have hnone : ∀ metric ∈ s.arrays array, ¬ timed metric := by
        rcases hcopy array harray with hnull | hnone
        · rw [hown] at hnull
          cases hnull
        · exact hnone
      intro array' i metric hget htimed
      simp only at hget
      by_cases heq : array' = own
      · -- the element is an old one, as the new ones are not in `timed`
        subst heq
        rw [Function.update_self, List.getElem?_append] at hget
        split at hget
        · exact h array' i metric hget htimed
        · exact absurd htimed (hnone metric (List.mem_of_getElem? hget))
      · rw [Function.update_of_ne heq] at hget
        exact h array' i metric hget htimed

theorem Kind.merged_inPlace (kind : Kind) {timed : Metric → Prop} {own : Nat → Nat}
    {merges : List (Nat × Nat)}
    (hcopy : Run.Meets (fun s e => kind.merge s e.1 e.2) (NoCopy timed) (Contexts.parsed own)
      merges) : (kind.merged own merges).InPlace timed := by
  refine Run.exec_invariant_of_meets ?_ (Contexts.parsed_inPlace timed own) hcopy
  intro s e he h
  rw [Kind.merge_eq]
  exact h.merge he

end StatsHouse
