import Mathlib.Algebra.BigOperators.Group.List.Basic
import Mathlib.Data.List.Perm.Basic

/-! # Ledgers

Items arrive one by one and are merged into records. `Accounts` says that
nothing is lost and nothing counted twice: the items split into groups, in the
order in which they arrived, and each record holds one group. What it means to
hold a group is a parameter, so the rules do not depend on how records merge.
-/

namespace Ledger

variable {α β : Type}

/-- Every item is in exactly one group, and a group keeps the order of the items. -/
structure Splits (items : List α) (groups : List (List α)) : Prop where
  perm : groups.flatten.Perm items
  ordered : ∀ group ∈ groups, group.Sublist items

/-- The items split into groups, one for each record, and each record holds its group. -/
def Accounts (holds : List α → β → Prop) (items : List α) (records : List β) : Prop :=
  ∃ groups, Splits items groups ∧ List.Forall₂ holds groups records

variable {holds : List α → β → Prop} {items : List α} {records : List β}

theorem accounts_nil : Accounts holds [] [] :=
  ⟨[], ⟨List.Perm.nil, by simp⟩, List.Forall₂.nil⟩

/-- What the records hold may be said of their images. -/
theorem Accounts.map {γ : Type} {holds' : List α → γ → Prop} (h : Accounts holds items records)
    (f : β → γ) (himp : ∀ group b, holds group b → holds' group (f b)) :
    Accounts holds' items (records.map f) := by
  rcases h with ⟨groups, hsplits, hholds⟩
  refine ⟨groups, hsplits, ?_⟩
  rw [List.forall₂_map_right_iff]
  exact hholds.imp fun group b => himp group b

/-- Without records there are no items. -/
theorem Accounts.eq_nil (h : Accounts holds items []) : items = [] := by
  rcases h with ⟨groups, hsplits, hholds⟩
  cases hholds
  exact List.nil_perm.mp hsplits.perm

theorem Accounts.imp {holds' : List α → β → Prop} (h : Accounts holds items records)
    (himp : ∀ group b, holds group b → holds' group b) : Accounts holds' items records := by
  have hmap : Accounts holds' items (records.map id) := h.map id himp
  rwa [List.map_id] at hmap

/-- The order of the records does not matter. -/
theorem Accounts.perm {records' : List β} (h : Accounts holds items records)
    (hperm : records.Perm records') : Accounts holds items records' := by
  rcases h with ⟨groups, hsplits, hholds⟩
  rcases List.perm_comp_forall₂ hperm.symm hholds.flip with ⟨groups', hholds', hgroups⟩
  have hsplits' : Splits items groups' := by
    constructor
    · exact (List.Perm.flatten hgroups.symm).symm.trans hsplits.perm
    · intro group hgroup
      exact hsplits.ordered group (hgroups.mem_iff.mp hgroup)
  exact ⟨groups', hsplits', hholds'.flip⟩

/-- The group of a record is made of items. -/
theorem Accounts.exists_group {b : β} (h : Accounts holds items records) (hb : b ∈ records) :
    ∃ group, holds group b ∧ group.Sublist items := by
  rcases List.append_of_mem hb with ⟨before, after, rfl⟩
  rcases h.perm List.perm_middle with ⟨groups, hsplits, hholds⟩
  rcases List.forall₂_cons_right_iff.mp hholds with ⟨group, rest, hgroup, -, rfl⟩
  exact ⟨group, hgroup, hsplits.ordered group (by simp)⟩

/-- A new record for a new item. -/
theorem Accounts.add {x : α} {b : β} (h : Accounts holds items records) (hb : holds [x] b) :
    Accounts holds (items ++ [x]) (records ++ [b]) := by
  rcases h with ⟨groups, hsplits, hholds⟩
  have hsplits' : Splits (items ++ [x]) (groups ++ [[x]]) := by
    constructor
    · simpa using hsplits.perm.append_right [x]
    · intro group hgroup
      rcases List.mem_append.mp hgroup with hgroup | hgroup
      · exact (hsplits.ordered group hgroup).trans (List.sublist_append_left _ _)
      · rw [List.mem_singleton.mp hgroup]
        exact List.sublist_append_right _ _
  exact ⟨groups ++ [[x]], hsplits', List.rel_append hholds (List.Forall₂.cons hb .nil)⟩

/-- A new item merged into the record `b`. -/
theorem Accounts.merge {x : α} {b b' : β} {before after : List β}
    (h : Accounts holds items (before ++ b :: after))
    (hb : ∀ group, holds group b → holds (group ++ [x]) b') :
    Accounts holds (items ++ [x]) (before ++ b' :: after) := by
  -- bring the record to the front, so that its group is the first
  have hfront : Accounts holds items (b :: (before ++ after)) := h.perm List.perm_middle
  rcases hfront with ⟨groups, hsplits, hholds⟩
  rcases List.forall₂_cons_right_iff.mp hholds with ⟨group, rest, hgroup, hrest, rfl⟩
  have hsplits' : Splits (items ++ [x]) ((group ++ [x]) :: rest) := by
    constructor
    · have hflat : ((group ++ [x]) :: rest).flatten.Perm ((group :: rest).flatten ++ [x]) := by
        simp only [List.flatten_cons, List.append_assoc]
        exact List.perm_append_comm.append_left group
      exact hflat.trans (hsplits.perm.append_right [x])
    · intro g hg
      rcases List.mem_cons.mp hg with rfl | hg
      · exact (hsplits.ordered group (by simp)).append_right [x]
      · exact (hsplits.ordered g (by simp [hg])).trans (List.sublist_append_left _ _)
  have hmerged : Accounts holds (items ++ [x]) (b' :: (before ++ after)) :=
    ⟨(group ++ [x]) :: rest, hsplits', List.Forall₂.cons (hb group hgroup) hrest⟩
  exact hmerged.perm List.perm_middle.symm

/-- An account of one class of items, if no record mixes it with others. -/
theorem Accounts.filter {p : α → Bool} {q : β → Bool} (h : Accounts holds items records)
    (hpure : ∀ group b, holds group b → ∀ x ∈ group, p x = q b) :
    Accounts holds (items.filter p) (records.filter q) := by
  rcases h with ⟨groups, hsplits, hholds⟩
  have hfilter : ∃ groups', List.Forall₂ holds groups' (records.filter q) ∧
      groups'.flatten = groups.flatten.filter p ∧ ∀ group ∈ groups', group.filter p = group ∧
        group ∈ groups := by
    clear hsplits
    induction hholds with
    | nil => exact ⟨[], List.Forall₂.nil, rfl, fun group hgroup => nomatch hgroup⟩
    | @cons group b groups records hb _ ih =>
        rcases ih with ⟨groups', hholds', hflat, hmem⟩
        cases hq : q b with
        | false =>
            have hnone : group.filter p = [] := by
              rw [List.filter_eq_nil_iff]
              intro x hx
              rw [hpure group b hb x hx, hq]
              exact Bool.false_ne_true
            refine ⟨groups', ?_, ?_, ?_⟩
            · rwa [List.filter_cons_of_neg (by rw [hq]; exact Bool.false_ne_true)]
            · rw [List.flatten_cons, List.filter_append, hnone, List.nil_append, hflat]
            · intro g hg
              exact ⟨(hmem g hg).1, List.mem_cons_of_mem _ (hmem g hg).2⟩
        | true =>
            have hall : group.filter p = group := by
              rw [List.filter_eq_self]
              intro x hx
              rw [hpure group b hb x hx, hq]
            refine ⟨group :: groups', ?_, ?_, ?_⟩
            · rw [List.filter_cons_of_pos hq]
              exact List.Forall₂.cons hb hholds'
            · rw [List.flatten_cons, List.flatten_cons, List.filter_append, hall, hflat]
            · intro g hg
              rcases List.mem_cons.mp hg with rfl | hg
              · exact ⟨hall, List.mem_cons_self⟩
              · exact ⟨(hmem g hg).1, List.mem_cons_of_mem _ (hmem g hg).2⟩
  rcases hfilter with ⟨groups', hholds', hflat, hmem⟩
  refine ⟨groups', ⟨?_, ?_⟩, hholds'⟩
  · rw [hflat]
    exact hsplits.perm.filter p
  · intro group hgroup
    rcases hmem group hgroup with ⟨hself, hin⟩
    rw [← hself]
    exact (hsplits.ordered group hin).filter p

end Ledger
