import Mathlib.Data.List.Infix

/-! # Words recognised by their beginning

A table of keys, searched in order for one that a word begins with. If no key is
the beginning of another, the order does not matter: `lookup_eq_some_iff`.
-/

namespace Keywords

variable {α κ : Type}

/-- The first entry of the table whose key the word begins with. -/
def lookup [DecidableEq α] (key : κ → List α) (table : List κ) (word : List α) : Option κ :=
  table.find? fun k => (key k).isPrefixOf word

/-- No key is the beginning of the key of another entry. -/
def PrefixFree (key : κ → List α) (table : List κ) : Prop :=
  ∀ k ∈ table, ∀ k' ∈ table, key k <+: key k' → k = k'

instance [DecidableEq α] [DecidableEq κ] (key : κ → List α) (table : List κ) :
    Decidable (PrefixFree key table) :=
  inferInstanceAs (Decidable (∀ k ∈ table, ∀ k' ∈ table, _))

variable {key : κ → List α} {table : List κ} {word : List α}

/-- Two keys at the beginning of a word are of one entry. -/
theorem PrefixFree.unique (h : PrefixFree key table) {k k' : κ} (hk : k ∈ table)
    (hk' : k' ∈ table) (hword : key k <+: word) (hword' : key k' <+: word) : k = k' := by
  rcases List.prefix_or_prefix_of_prefix hword hword' with hle | hle
  · exact h k hk k' hk' hle
  · exact (h k' hk' k hk hle).symm

/-- Neither of two words is the beginning of the other. -/
def Incomparable (xs ys : List α) : Prop := ¬ xs <+: ys ∧ ¬ ys <+: xs

instance [DecidableEq α] (xs ys : List α) : Decidable (Incomparable xs ys) :=
  inferInstanceAs (Decidable (_ ∧ _))

/-- No word begins with both. -/
theorem Incomparable.not_both {xs ys : List α} (h : Incomparable xs ys) (hxs : xs <+: word) :
    ¬ ys <+: word := by
  intro hys
  rcases List.prefix_or_prefix_of_prefix hxs hys with hle | hle
  · exact h.1 hle
  · exact h.2 hle

variable [DecidableEq α]

theorem mem_of_lookup {k : κ} (h : lookup key table word = some k) :
    k ∈ table ∧ key k <+: word := by
  constructor
  · exact List.mem_of_find?_eq_some h
  · unfold lookup at h
    have hfound := List.find?_some h
    exact List.isPrefixOf_iff_prefix.mp hfound

theorem lookup_eq_none_iff : lookup key table word = none ↔ ∀ k ∈ table, ¬ key k <+: word := by
  simp [lookup, List.find?_eq_none]

theorem lookup_eq_some_iff (h : PrefixFree key table) {k : κ} :
    lookup key table word = some k ↔ k ∈ table ∧ key k <+: word := by
  constructor
  · exact mem_of_lookup
  · rintro ⟨hk, hword⟩
    cases hlookup : lookup key table word with
    | none => exact absurd hword (lookup_eq_none_iff.mp hlookup k hk)
    | some k' =>
        rcases mem_of_lookup hlookup with ⟨hk', hword'⟩
        rw [h.unique hk hk' hword hword']

end Keywords
