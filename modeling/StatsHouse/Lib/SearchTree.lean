import Mathlib.Data.List.Basic

/-! # Search trees as in-order sequences

A binary tree is searched by a three-way comparison and grown by a two-way one,
and a balancer may rotate it in between. What both rely on is the in-order
sequence alone: `search_isSome_iff` and `toList_insertBy` speak of `toList`, so
they hold of every shape a balancer leaves.
-/

/-- A binary tree; the mark of a node is for the balancer. -/
inductive SearchTree (α : Type) where
  | leaf
  | node (red : Bool) (left : SearchTree α) (a : α) (right : SearchTree α)
deriving DecidableEq, Repr

namespace SearchTree

variable {α : Type}

/-- The in-order sequence. -/
def toList : SearchTree α → List α
  | .leaf => []
  | .node _ l a r => l.toList ++ a :: r.toList

@[simp] theorem toList_leaf : (leaf : SearchTree α).toList = [] := rfl

@[simp] theorem toList_node (red : Bool) (l : SearchTree α) (a : α) (r : SearchTree α) :
    (node red l a r).toList = l.toList ++ a :: r.toList := rfl

/-- The node the goal leads to: `cmp a` tells whether the goal is before, at or
after `a`. -/
def search (cmp : α → Ordering) : SearchTree α → Option α
  | .leaf => none
  | .node _ l a r =>
    match cmp a with
    | .lt => search cmp l
    | .eq => some a
    | .gt => search cmp r

/-- `a` put where the descent ends that goes left at `b` when `goLeft b`. -/
def insertBy (goLeft : α → Bool) (a : α) : SearchTree α → SearchTree α
  | .leaf => .node true .leaf a .leaf
  | .node red l b r =>
    if goLeft b then .node red (insertBy goLeft a l) b r else .node red l b (insertBy goLeft a r)

/-! ## Search -/

/-- What a search finds is in the tree, at the goal. -/
theorem search_eq_some {cmp : α → Ordering} {t : SearchTree α} {a : α}
    (h : t.search cmp = some a) : a ∈ t.toList ∧ cmp a = .eq := by
  induction t with
  | leaf => simp [search] at h
  | node red l b r ihl ihr =>
      simp only [search] at h
      cases hb : cmp b with
      | lt =>
          rw [hb] at h
          have hl := ihl h
          exact ⟨by simp [hl.1], hl.2⟩
      | eq =>
          rw [hb] at h
          cases h
          exact ⟨by simp, hb⟩
      | gt =>
          rw [hb] at h
          have hr := ihr h
          exact ⟨by simp [hr.1], hr.2⟩

/-- The comparison runs along the sequence: past an element at or behind the
goal, every element is behind it. -/
def Monotone (cmp : α → Ordering) (as : List α) : Prop :=
  as.Pairwise fun a b => cmp a ≠ .gt → cmp b = .lt

/-- A search finds the goal whenever the tree holds it. -/
theorem search_eq_some_of_mem {cmp : α → Ordering} {t : SearchTree α}
    (hmono : Monotone cmp t.toList) {a : α} (ha : a ∈ t.toList) (hcmp : cmp a = .eq) :
    t.search cmp = some a := by
  induction t with
  | leaf => simp at ha
  | node red l b r ihl ihr =>
      rcases List.pairwise_append.mp hmono with ⟨hl, hbr, hcross⟩
      rcases List.pairwise_cons.mp hbr with ⟨hb, hr⟩
      rw [toList_node, List.mem_append, List.mem_cons] at ha
      simp only [search]
      rcases ha with ha | rfl | ha
      · -- the goal is on the left, so `b` is behind it
        have hlt : cmp b = .lt := hcross a ha b (by simp) (by simp [hcmp])
        rw [hlt]
        exact ihl hl ha
      · rw [hcmp]
      · -- the goal is on the right, so `b` is before it
        have hgt : cmp b = .gt := by
          by_contra hne
          have hlt := hb a ha hne
          simp [hcmp] at hlt
        rw [hgt]
        exact ihr hr ha

/-- A search succeeds exactly when the tree holds the goal. -/
theorem search_isSome_iff {cmp : α → Ordering} {t : SearchTree α}
    (hmono : Monotone cmp t.toList) :
    (∃ a, t.search cmp = some a) ↔ ∃ a ∈ t.toList, cmp a = .eq := by
  constructor
  · rintro ⟨a, ha⟩
    exact ⟨a, search_eq_some ha⟩
  · rintro ⟨a, ha, hcmp⟩
    exact ⟨a, search_eq_some_of_mem hmono ha hcmp⟩

/-- The goal occurs at most once. -/
theorem eq_of_cmp_eq {cmp : α → Ordering} {as : List α} (hmono : Monotone cmp as) {a b : α}
    (ha : a ∈ as) (hb : b ∈ as) (hcmpa : cmp a = .eq) (hcmpb : cmp b = .eq) : a = b := by
  induction as with
  | nil => simp at ha
  | cons c as ih =>
      rcases List.pairwise_cons.mp hmono with ⟨hc, has⟩
      rcases List.mem_cons.mp ha with rfl | ha' <;> rcases List.mem_cons.mp hb with rfl | hb'
      · rfl
      · -- `a` is at the goal, so what comes later is behind it
        have hlt := hc b hb' (by simp [hcmpa])
        simp [hcmpb] at hlt
      · have hlt := hc a ha' (by simp [hcmpb])
        simp [hcmpa] at hlt
      · exact ih has ha' hb'

/-! ## Insertion -/

/-- Insertion puts the element somewhere into the sequence. -/
theorem perm_insertBy (goLeft : α → Bool) (a : α) (t : SearchTree α) :
    (t.insertBy goLeft a).toList.Perm (a :: t.toList) := by
  induction t with
  | leaf => exact List.Perm.refl _
  | node red l b r ihl ihr =>
      simp only [insertBy]
      split
      · exact ihl.append_right _
      · -- on the right, `a` has to pass `b` and the left subtree to come to the front
        rw [toList_node, toList_node]
        apply ((ihr.cons b).append_left l.toList).trans
        apply ((List.Perm.swap a b r.toList).append_left l.toList).trans
        exact List.perm_middle

/-- Insertion keeps a strict order of the sequence, when going left means to come
before a node and going right means to come after it. -/
theorem pairwise_insertBy {before : α → α → Prop} {goLeft : α → Bool} {a : α}
    {t : SearchTree α} (h : t.toList.Pairwise before)
    (htrans : ∀ b c, before b c → goLeft b = true → goLeft c = true)
    (hleft : ∀ b ∈ t.toList, goLeft b = true → before a b)
    (hright : ∀ b ∈ t.toList, goLeft b = false → before b a) :
    (t.insertBy goLeft a).toList.Pairwise before := by
  induction t with
  | leaf => simp [insertBy]
  | node red l b r ihl ihr =>
      rcases List.pairwise_append.mp h with ⟨hl, hbr, hcross⟩
      rcases List.pairwise_cons.mp hbr with ⟨hb, hr⟩
      have inl : ∀ c ∈ l.toList, c ∈ (node red l b r).toList := fun c hc => by simp [hc]
      have inr : ∀ c ∈ r.toList, c ∈ (node red l b r).toList := fun c hc => by simp [hc]
      simp only [insertBy]
      split
      · rename_i hgo
        -- everything from `b` on lies behind `a`
        have hbehind : ∀ c ∈ b :: r.toList, before a c := by
          intro c hc
          rcases List.mem_cons.mp hc with rfl | hc
          · exact hleft c (by simp) hgo
          · exact hleft c (inr c hc) (htrans b c (hb c hc) hgo)
        have hl' := ihl hl (fun c hc => hleft c (inl c hc)) (fun c hc => hright c (inl c hc))
        rw [toList_node, List.pairwise_append]
        refine ⟨hl', hbr, ?_⟩
        intro c hc d hd
        rcases List.mem_cons.mp ((perm_insertBy goLeft a l).mem_iff.mp hc) with rfl | hc
        · exact hbehind d hd
        · exact hcross c hc d hd
      · rename_i hgo
        have hgo : goLeft b = false := by simpa using hgo
        -- everything up to `b` lies before `a`
        have hbefore : ∀ c, c ∈ l.toList ∨ c = b → before c a := by
          rintro c (hc | rfl)
          · apply hright c (inl c hc)
            by_contra hne
            have hc' : goLeft c = true := by simpa using hne
            have hb' := htrans c b (hcross c hc b (by simp)) hc'
            rw [hgo] at hb'
            exact Bool.false_ne_true hb'
          · exact hright c (by simp) hgo
        have hr' := ihr hr (fun c hc => hleft c (inr c hc)) (fun c hc => hright c (inr c hc))
        rw [toList_node, List.pairwise_append, List.pairwise_cons]
        refine ⟨hl, ⟨?_, hr'⟩, ?_⟩
        · intro c hc
          rcases List.mem_cons.mp ((perm_insertBy goLeft a r).mem_iff.mp hc) with rfl | hc
          · exact hbefore b (Or.inr rfl)
          · exact hb c hc
        · intro c hc d hd
          rcases List.mem_cons.mp hd with rfl | hd
          · exact hcross c hc d (by simp)
          · rcases List.mem_cons.mp ((perm_insertBy goLeft a r).mem_iff.mp hd) with rfl | hd
            · exact hbefore c (Or.inl hc)
            · exact hcross c hc d (by simp [hd])

/-! ## A plain balancer -/

/-- Two trees joined in order. -/
def join : SearchTree α → SearchTree α → SearchTree α
  | .leaf, t => t
  | .node red l a r, t => .node red l a (join r t)

@[simp] theorem toList_join (s t : SearchTree α) : (s.join t).toList = s.toList ++ t.toList := by
  induction s with
  | leaf => rfl
  | node red l a r ihl ihr => simp [join, ihr]

/-- The tree without one node `a`. -/
def remove [DecidableEq α] (a : α) : SearchTree α → SearchTree α
  | .leaf => .leaf
  | .node red l b r =>
    if a ∈ l.toList then .node red (remove a l) b r
    else if b = a then l.join r
    else .node red l b (remove a r)

theorem toList_remove [DecidableEq α] (a : α) (t : SearchTree α) :
    (t.remove a).toList = t.toList.erase a := by
  induction t with
  | leaf => rfl
  | node red l b r ihl ihr =>
      simp only [remove]
      split
      · rename_i hmem
        rw [toList_node, toList_node, ihl, List.erase_append_left _ hmem]
      · -- the first occurrence is not on the left
        rename_i hmem
        rw [toList_node, List.erase_append_right _ hmem]
        split
        · rename_i hb
          rw [hb, List.erase_cons_head, toList_join]
        · rename_i hb
          rw [toList_node, ihr, List.erase_cons_tail (by simpa using hb)]

/-- The root painted black. -/
def blacken : SearchTree α → SearchTree α
  | .leaf => .leaf
  | .node _ l a r => .node false l a r

@[simp] theorem toList_blacken (t : SearchTree α) : t.blacken.toList = t.toList := by
  cases t <;> rfl

end SearchTree
