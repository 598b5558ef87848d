import Mathlib.Data.List.Forall2
import Mathlib.Data.List.Nodup
import Mathlib.Data.List.Perm.Basic

/-! # Fields that are set once

A record is filled in by settings. A setting of a field is refused when the field is set
already; a setting of no field is always taken. What a field holds in the end is its one
setting, wherever it stands among the others.
-/

namespace Once

variable {ε φ σ ρ δ : Type} [DecidableEq φ]

/-- Records `ρ` with fields `φ` that settings `σ` set: the setting a field was set by. -/
structure Form (φ σ ρ : Type) [DecidableEq φ] where
  field : σ → Option φ
  get : ρ → φ → Option σ
  put : ρ → σ → ρ
  get_put : ∀ r s f, get (put r s) f = if field s = some f then some s else get r f

namespace Form

variable (form : Form φ σ ρ)

/-- The fields that some settings set. -/
def fields (ss : List σ) : List φ := ss.filterMap form.field

/-- A setting is taken, unless its field is set. -/
def add (r : ρ) (s : σ) : Option ρ :=
  if ∀ f ∈ form.field s, form.get r f = none then some (form.put r s) else none

/-- The fields of the settings are not set. -/
def Free (r : ρ) (ss : List σ) : Prop := ∀ f ∈ form.fields ss, form.get r f = none

variable {form} {r r' : ρ} {s : σ} {ss ss' : List σ}

theorem add_eq_some_iff :
    form.add r s = some r' ↔ (∀ f ∈ form.field s, form.get r f = none) ∧ r' = form.put r s := by
  unfold add
  split
  · rename_i hfree
    rw [Option.some.injEq, eq_comm, and_iff_right hfree]
  · rename_i hset
    exact iff_of_false (fun h => nomatch h) fun h => hset h.1

theorem free_put (hnew : ∀ f ∈ form.field s, f ∉ form.fields ss) (h : form.Free r ss) :
    form.Free (form.put r s) ss := by
  intro f hf
  have hne : form.field s ≠ some f := fun hfield => hnew f hfield hf
  rw [form.get_put, if_neg hne]
  exact h f hf

theorem fields_cons (form : Form φ σ ρ) (s : σ) (ss : List σ) :
    form.fields (s :: ss) = (form.field s).toList ++ form.fields ss := by
  unfold fields
  cases hfield : form.field s with
  | none => rw [List.filterMap_cons_none hfield]; rfl
  | some f => rw [List.filterMap_cons_some hfield]; rfl

/-- All settings are taken: no two are of one field, and their fields were not set. -/
theorem foldlM_add_iff :
    ss.foldlM form.add r = some r' ↔
      (form.fields ss).Nodup ∧ form.Free r ss ∧ r' = ss.foldl form.put r := by
  induction ss generalizing r with
  | nil =>
      rw [List.foldlM_nil, List.foldl_nil]
      show some r = some r' ↔ _
      rw [Option.some.injEq, eq_comm]
      have hfree : form.Free r [] := fun f hf => nomatch hf
      exact ⟨fun h => ⟨List.nodup_nil, hfree, h⟩, fun h => h.2.2⟩
  | cons s ss ih =>
      rw [List.foldlM_cons, List.foldl_cons, fields_cons, List.nodup_append']
      constructor
      -- from what was taken to the fields, and back
      · intro h
        rcases Option.bind_eq_some_iff.mp h with ⟨r₁, hadd, hrest⟩
        rcases add_eq_some_iff.mp hadd with ⟨hfree, rfl⟩
        rcases ih.mp hrest with ⟨hnodup, hfree', rfl⟩
        -- the rest does not set the field of `s`, which is set by now
        have hdisjoint : (form.field s).toList.Disjoint (form.fields ss) := by
          intro f hf hf'
          have hnone := hfree' f hf'
          rw [form.get_put, if_pos (Option.mem_toList.mp hf)] at hnone
          cases hnone
        refine ⟨⟨Option.toList_nodup (form.field s), hnodup, hdisjoint⟩, ?_, rfl⟩
        intro f hf
        rcases List.mem_append.mp (fields_cons form s ss ▸ hf) with hf | hf
        · exact hfree f (Option.mem_toList.mp hf)
        · have hnone := hfree' f hf
          rw [form.get_put, if_neg] at hnone
          · exact hnone
          · intro hfield
            exact hdisjoint (Option.mem_toList.mpr hfield) hf
      · rintro ⟨⟨-, hnodup, hdisjoint⟩, hfree, rfl⟩
        have hhead : ∀ f ∈ form.field s, form.get r f = none := fun f hf =>
          hfree f (fields_cons form s ss ▸ List.mem_append_left _ (Option.mem_toList.mpr hf))
        have htail : form.Free r ss := fun f hf =>
          hfree f (fields_cons form s ss ▸ List.mem_append_right _ hf)
        refine Option.bind_eq_some_iff.mpr ⟨_, add_eq_some_iff.mpr ⟨hhead, rfl⟩, ih.mpr ?_⟩
        refine ⟨hnodup, free_put ?_ htail, rfl⟩
        intro f hf
        exact hdisjoint (Option.mem_toList.mpr hf)

/-- What a field holds is what it held, or the one setting of it. -/
theorem get_foldl_put (hnodup : (form.fields ss).Nodup) (hfree : form.Free r ss) (f : φ) :
    form.get (ss.foldl form.put r) f = some s ↔
      form.get r f = some s ∨ s ∈ ss ∧ form.field s = some f := by
  induction ss generalizing r with
  | nil =>
      rw [List.foldl_nil]
      exact ⟨Or.inl, fun h => h.elim id fun hs => nomatch hs.1⟩
  | cons t ss ih =>
      rw [fields_cons, List.nodup_append'] at hnodup
      rcases hnodup with ⟨-, hrest, hdisjoint⟩
      have htail : form.Free r ss := fun f hf =>
        hfree f (fields_cons form t ss ▸ List.mem_append_right _ hf)
      have hnew : ∀ f ∈ form.field t, f ∉ form.fields ss := fun f hf =>
        hdisjoint (Option.mem_toList.mpr hf)
      rw [List.foldl_cons, ih hrest (free_put hnew htail), form.get_put, List.mem_cons]
      -- either `t` is the setting of `f`, or the rest decides
      by_cases hfield : form.field t = some f
      · rw [if_pos hfield]
        have hnone : form.get r f = none :=
          hfree f (fields_cons form t ss ▸ List.mem_append_left _ (Option.mem_toList.mpr hfield))
        rw [hnone]
        constructor
        · rintro (h | ⟨hs, hf⟩)
          · cases h
            exact Or.inr ⟨Or.inl rfl, hfield⟩
          · exact Or.inr ⟨Or.inr hs, hf⟩
        · rintro (h | ⟨rfl | hs, hf⟩)
          · cases h
          · exact Or.inl rfl
          · exact Or.inr ⟨hs, hf⟩
      · rw [if_neg hfield]
        constructor
        · rintro (h | ⟨hs, hf⟩)
          · exact Or.inl h
          · exact Or.inr ⟨Or.inr hs, hf⟩
        · rintro (h | ⟨rfl | hs, hf⟩)
          · exact Or.inl h
          · exact absurd hf hfield
          · exact Or.inr ⟨hs, hf⟩

end Form

/-- Pieces are read in a row if each is good. -/
theorem mapM_eq_some_iff {read : δ → Option σ} {ds : List δ} {ss : List σ} :
    ds.mapM read = some ss ↔ (∀ d ∈ ds, (read d).isSome) ∧ ss = ds.filterMap read := by
  induction ds generalizing ss with
  | nil =>
      show some [] = some ss ↔ _
      rw [Option.some.injEq, eq_comm]
      exact ⟨fun h => ⟨fun _ hd => (nomatch hd), h⟩, fun h => h.2⟩
  | cons d ds ih =>
      rw [List.mapM_cons]
      cases hread : read d with
      | none =>
          refine iff_of_false (fun h => nomatch h) fun h => ?_
          have hd := h.1 d List.mem_cons_self
          rw [hread] at hd
          cases hd
      | some s =>
          show ((ds.mapM read).bind fun ss => some (s :: ss)) = some ss ↔ _
          rw [Option.bind_eq_some_iff, List.filterMap_cons_some hread]
          simp only [ih, Option.some.injEq, List.forall_mem_cons, hread, Option.isSome_some,
            true_and]
          constructor
          · rintro ⟨ss', ⟨hgood, rfl⟩, rfl⟩
            exact ⟨hgood, rfl⟩
          · rintro ⟨hgood, rfl⟩
            exact ⟨_, ⟨hgood, rfl⟩, rfl⟩

/-- Pieces and what is read of them, one by one. -/
theorem forall₂_of_mapM {read : δ → Option σ} {ds : List δ} {ss : List σ}
    (h : ds.mapM read = some ss) : List.Forall₂ (fun d s => read d = some s) ds ss := by
  rcases mapM_eq_some_iff.mp h with ⟨hgood, rfl⟩
  clear h
  induction ds with
  | nil => exact .nil
  | cons d ds ih =>
      rcases Option.isSome_iff_exists.mp (hgood d List.mem_cons_self) with ⟨s, hs⟩
      rw [List.filterMap_cons_some hs]
      exact .cons hs (ih fun d hd => hgood d (List.mem_cons_of_mem _ hd))

theorem mapM_congr {read again : δ → Option σ} {ds : List δ} (h : ∀ d ∈ ds, read d = again d) :
    ds.mapM read = ds.mapM again := by
  induction ds with
  | nil => rfl
  | cons d ds ih =>
      rw [List.mapM_cons, List.mapM_cons, h d List.mem_cons_self,
        ih fun d hd => h d (List.mem_cons_of_mem _ hd)]

/-- To read pieces, and then what was read, is to do both for each piece. -/
theorem mapM_bind_mapM {τ : Type} (read : δ → Option σ) (again : σ → Option τ) (ds : List δ) :
    (ds.mapM read).bind (fun ss => ss.mapM again) = ds.mapM fun d => (read d).bind again := by
  induction ds with
  | nil => rfl
  | cons d ds ih =>
      rw [List.mapM_cons, List.mapM_cons, ← ih]
      cases hread : read d with
      | none => rfl
      | some s =>
          show Option.bind (Option.bind _ _) _ = Option.bind (again s) _
          -- a piece behind that cannot be read fails both, whatever is read again of `s`
          cases hrest : ds.mapM read with
          | none => simp
          | some ss => simp [List.mapM_cons]

theorem toOption_eq_some {α : Type} {x : Except ε α} {a : α} :
    x.toOption = some a ↔ x = .ok a := by
  cases x with
  | error e => exact iff_of_false (fun h => nomatch h) fun h => nomatch h
  | ok b =>
      show some b = some a ↔ _
      rw [Option.some.injEq, Except.ok.injEq]

theorem toOption_bind {α β : Type} (x : Except ε α) (f : α → Except ε β) :
    (x >>= f).toOption = x.toOption.bind fun a => (f a).toOption := by
  cases x with
  | error e => rfl
  | ok a => rfl

/-- A program that reads each piece on its own and then adds what it reads. -/
theorem toOption_foldlM {body : ρ → δ → Except ε ρ} {read : δ → Option σ} {add : ρ → σ → Option ρ}
    (h : ∀ r d, (body r d).toOption = (read d).bind (add r)) (r : ρ) (ds : List δ) :
    (ds.foldlM body r).toOption = (ds.mapM read).bind fun ss => ss.foldlM add r := by
  induction ds generalizing r with
  | nil => rfl
  | cons d ds ih =>
      rw [List.foldlM_cons, List.mapM_cons, toOption_bind, h]
      simp only [ih]
      cases read d with
      | none => rfl
      | some s =>
          show (add r s).bind _ = ((ds.mapM read).bind _).bind _
          -- what cannot be read behind fails both, whatever is added before
          cases hrest : ds.mapM read with
          | none => simp
          | some ss => rfl

end Once
