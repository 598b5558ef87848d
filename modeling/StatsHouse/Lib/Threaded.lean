import Mathlib.Data.List.Forall2

/-! # Loops that thread a state

A loop makes a result of each element of a list and hands a state on, or fails.

* `mapAccum_alone`: where the steps keep the state such that no step can tell, each result
  is what it would be from the state at the start.
-/

namespace Threaded

variable {σ α β : Type}

/-- The results of the steps, in order, and the last state. -/
def mapAccum (step : σ → α → Option (β × σ)) : σ → List α → Option (List β × σ)
  | s, [] => some ([], s)
  | s, a :: as =>
    (step s a).bind fun r => (mapAccum step r.2 as).map fun rs => (r.1 :: rs.1, rs.2)

variable {step : σ → α → Option (β × σ)} {s s' : σ} {a : α} {as : List α} {bs : List β}

theorem mapAccum_cons_eq_some :
    mapAccum step s (a :: as) = some (bs, s') ↔
      ∃ b s₁ bs', step s a = some (b, s₁) ∧ mapAccum step s₁ as = some (bs', s') ∧
        bs = b :: bs' := by
  rw [mapAccum, Option.bind_eq_some_iff]
  constructor
  · rintro ⟨⟨b, s₁⟩, hstep, hmap⟩
    rcases Option.map_eq_some_iff.mp hmap with ⟨⟨bs', s₂⟩, hrest, heq⟩
    cases heq
    exact ⟨b, s₁, bs', hstep, hrest, rfl⟩
  · rintro ⟨b, s₁, bs', hstep, hrest, rfl⟩
    exact ⟨(b, s₁), hstep, by rw [hrest]; rfl⟩

/-- The results of the first elements, and those of the rest from the state they leave. -/
theorem mapAccum_append_eq_some {as' : List α} :
    mapAccum step s (as ++ as') = some (bs, s') ↔
      ∃ bs₁ s₁ bs₂, mapAccum step s as = some (bs₁, s₁) ∧ mapAccum step s₁ as' = some (bs₂, s') ∧
        bs = bs₁ ++ bs₂ := by
  induction as generalizing s bs with
  | nil =>
      constructor
      · intro h
        exact ⟨[], s, bs, rfl, h, rfl⟩
      · rintro ⟨bs₁, s₁, bs₂, hfirst, hrest, rfl⟩
        cases hfirst
        exact hrest
  | cons a as ih =>
      rw [List.cons_append, mapAccum_cons_eq_some]
      constructor
      · rintro ⟨b, s₁, bs', hstep, hmap, rfl⟩
        rcases ih.mp hmap with ⟨bs₁, s₂, bs₂, hfirst, hrest, rfl⟩
        exact ⟨b :: bs₁, s₂, bs₂, mapAccum_cons_eq_some.mpr ⟨b, s₁, bs₁, hstep, hfirst, rfl⟩,
          hrest, rfl⟩
      · rintro ⟨bs₁, s₂, bs₂, hfirst, hrest, rfl⟩
        rcases mapAccum_cons_eq_some.mp hfirst with ⟨b, s₁, bs', hstep, hmap, rfl⟩
        exact ⟨b, s₁, bs' ++ bs₂, hstep, ih.mpr ⟨bs', s₂, bs₂, hmap, hrest, rfl⟩, rfl⟩

/-- A loop without results, with one element more. -/
theorem foldlM_snoc_eq_some {f : σ → α → Option σ} :
    (as ++ [a]).foldlM f s = some s' ↔ ∃ s₁, as.foldlM f s = some s₁ ∧ f s₁ a = some s' := by
  rw [List.foldlM_append]
  constructor
  · intro h
    rcases Option.bind_eq_some_iff.mp h with ⟨s₁, hbefore, hlast⟩
    rw [List.foldlM_cons] at hlast
    rcases Option.bind_eq_some_iff.mp hlast with ⟨s₂, hstep, hnil⟩
    cases hnil
    exact ⟨s₁, hbefore, hstep⟩
  · rintro ⟨s₁, hbefore, hstep⟩
    refine Option.bind_eq_some_iff.mpr ⟨s₁, hbefore, ?_⟩
    rw [List.foldlM_cons]
    exact Option.bind_eq_some_iff.mpr ⟨s', hstep, rfl⟩

/-- A result for each element. -/
theorem forall₂_of_mapAccum {R : α → β → Prop}
    (hstep : ∀ s a b s', step s a = some (b, s') → R a b)
    (h : mapAccum step s as = some (bs, s')) : List.Forall₂ R as bs := by
  induction as generalizing s bs with
  | nil =>
      cases h
      exact .nil
  | cons a as ih =>
      rcases mapAccum_cons_eq_some.mp h with ⟨b, s₁, bs', hb, hrest, rfl⟩
      exact .cons (hstep s a b s₁ hb) (ih hrest)

theorem length_of_mapAccum (h : mapAccum step s as = some (bs, s')) : bs.length = as.length := by
  have hall : List.Forall₂ (fun _ _ => True) as bs :=
    forall₂_of_mapAccum (fun _ _ _ _ _ => trivial) h
  exact hall.length_eq.symm

/-- What a step makes, from whatever state, is good. -/
theorem forall_of_mapAccum {good : β → Prop}
    (hstep : ∀ s a b s', step s a = some (b, s') → good b)
    (h : mapAccum step s as = some (bs, s')) : ∀ b ∈ bs, good b := by
  have hall : List.Forall₂ (fun _ b => good b) as bs := forall₂_of_mapAccum hstep h
  -- the relation says it of each result
  clear h
  induction hall with
  | nil => exact fun b hb => nomatch hb
  | cons hgood _ ih => exact List.forall_mem_cons.mpr ⟨hgood, ih⟩

/-- What a step is made of, in whatever state, is good. -/
theorem forall_of_mapAccum_left {good : α → Prop}
    (hstep : ∀ s a b s', step s a = some (b, s') → good a)
    (h : mapAccum step s as = some (bs, s')) : ∀ a ∈ as, good a := by
  have hall : List.Forall₂ (fun a _ => good a ∧ True) as bs :=
    forall₂_of_mapAccum (fun s a b s' h => ⟨hstep s a b s' h, trivial⟩) h
  exact ((List.forall₂_and_left as bs).mp hall).1

/-- Where each step can be made from any state, all are. -/
theorem mapAccum_of_forall₂ {R : α → β → Prop}
    (hstep : ∀ s a b, R a b → ∃ s', step s a = some (b, s')) (h : List.Forall₂ R as bs) (s : σ) :
    ∃ s', mapAccum step s as = some (bs, s') := by
  induction h generalizing s with
  | nil => exact ⟨s, rfl⟩
  | cons hab _ ih =>
      rcases hstep s _ _ hab with ⟨s₁, hs₁⟩
      rcases ih s₁ with ⟨s', hs'⟩
      exact ⟨s', mapAccum_cons_eq_some.mpr ⟨_, s₁, _, hs₁, hs', rfl⟩⟩

/-! ## Lists that correspond -/

section Correspond

variable {R : α → β → Prop}

theorem getElem?_of_forall₂ (h : List.Forall₂ R as bs) {k : Nat} {b : β} (hb : bs[k]? = some b) :
    ∃ a, as[k]? = some a ∧ R a b := by
  induction h generalizing k with
  | nil => cases hb
  | @cons a b' as bs hab _ ih =>
      cases k with
      | zero =>
          cases hb
          exact ⟨a, rfl, hab⟩
      | succ k => exact ih hb

/-- What is found at the place of an element corresponds to it. -/
theorem forall₂_getD [BEq α] [LawfulBEq α] (h : List.Forall₂ R as bs) (ha : a ∈ as) (b : β) :
    R a (bs.getD (as.idxOf a) b) ∧ bs.getD (as.idxOf a) b ∈ bs := by
  induction h with
  | nil => cases ha
  | @cons a' b' as bs hab _ ih =>
      -- the first place of `a`, which is this one or behind
      by_cases heq : a' = a
      · subst heq
        rw [List.idxOf_cons_self]
        exact ⟨hab, List.mem_cons_self⟩
      · rw [List.idxOf_cons_ne _ heq]
        have hrest := ih ((List.mem_cons.mp ha).resolve_left (Ne.symm heq))
        exact ⟨hrest.1, List.mem_cons_of_mem _ hrest.2⟩

end Correspond

/-! ## Two runs side by side -/

/-- Both fail, or both have the same result and hand on states in `K`. -/
def Alike (K : σ → Prop) (x y : Option (β × σ)) : Prop :=
  Option.Rel (fun p q => p.1 = q.1 ∧ K p.2 ∧ K q.2) x y

section Alike

variable {K : σ → Prop} {x y : Option (β × σ)}

theorem Alike.fst_eq (h : Alike K x y) : x.map Prod.fst = y.map Prod.fst := by
  cases h with
  | some hpq => exact congrArg some hpq.1
  | none => rfl

/-- Where nothing is asked of the states, the results are all there is. -/
theorem Alike.of_fst_eq (h : x.map Prod.fst = y.map Prod.fst) : Alike (fun _ => True) x y := by
  cases x with
  | none =>
      cases y with
      | none => exact Option.Rel.none
      | some q => cases h
  | some p =>
      cases y with
      | none => cases h
      | some q => exact Option.Rel.some ⟨Option.some.inj h, trivial, trivial⟩

theorem Alike.keeps {b : β} (h : Alike K x y) (hx : x = some (b, s)) : K s := by
  subst hx
  cases h with
  | some hpq => exact hpq.2.1

theorem Alike.some {b : β} (hs : K s) (hs' : K s') : Alike K (some (b, s)) (some (b, s')) :=
  Option.Rel.some ⟨rfl, hs, hs'⟩

theorem Alike.bind {γ : Type} {f g : β × σ → Option (γ × σ)} (h : Alike K x y)
    (hf : ∀ b s s', K s → K s' → Alike K (f (b, s)) (g (b, s'))) :
    Alike K (x.bind f) (y.bind g) := by
  cases h with
  | none => exact Option.Rel.none
  | @some p q hpq =>
      rcases p with ⟨b, s⟩
      rcases q with ⟨b', s'⟩
      rcases hpq with ⟨rfl, hs, hs'⟩
      exact hf b s s' hs hs'

theorem Alike.map {γ : Type} (f : β → γ) (h : Alike K x y) :
    Alike K (x.map fun r => (f r.1, r.2)) (y.map fun r => (f r.1, r.2)) := by
  cases h with
  | none => exact Option.Rel.none
  | some hpq => exact Option.Rel.some ⟨congrArg f hpq.1, hpq.2⟩

/-- Loops whose bodies are alike are alike. -/
theorem Alike.mapAccum (hstep : ∀ a ∈ as, ∀ s s', K s → K s' → Alike K (step s a) (step s' a))
    (hs : K s) (hs' : K s') :
    Alike K (Threaded.mapAccum step s as) (Threaded.mapAccum step s' as) := by
  induction as generalizing s s' with
  | nil => exact Alike.some hs hs'
  | cons a as ih =>
      refine (hstep a List.mem_cons_self s s' hs hs').bind ?_
      intro b s s' hs hs'
      exact (ih (fun a ha => hstep a (List.mem_cons_of_mem _ ha)) hs hs').map (b :: ·)

/-- A step does in every state of `K` what it does in `s₀`. -/
theorem mapAccum_alone {s₀ : σ}
    (hstep : ∀ a ∈ as, ∀ s s', K s → K s' → Alike K (step s a) (step s' a)) (hs₀ : K s₀)
    (hs : K s) :
    (mapAccum step s as).map Prod.fst = as.mapM fun a => (step s₀ a).map Prod.fst := by
  induction as generalizing s with
  | nil => rfl
  | cons a as ih =>
      have halike := hstep a List.mem_cons_self s s₀ hs hs₀
      -- the first result is the same from `s₀`, and the state behind it is in `K` again
      rw [mapAccum, List.mapM_cons, ← halike.fst_eq]
      cases hr : step s a with
      | none => rfl
      | some r =>
          have hih := ih (fun a ha => hstep a (List.mem_cons_of_mem _ ha)) (halike.keeps hr)
          show Option.map _ (Option.map _ _) = Option.bind (some r.1) _
          rw [Option.bind_some, ← hih]
          cases mapAccum step r.2 as <;> rfl

end Alike

end Threaded
