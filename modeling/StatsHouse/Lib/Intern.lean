import Mathlib.Data.List.Nodup

/-! # Sharing by a key

A table that is searched for an entry with the key of a new one before it grows:
the entry found is used in its place. Entries keep their places, and each key has
one entry.
-/

namespace Intern

variable {α κ : Type} [DecidableEq κ] (key : α → κ)

/-- The table with an entry for `a`, and the place of that entry. -/
def intern (table : List α) (a : α) : List α × Nat :=
  match table.findIdx? fun b => key b = key a with
  | some i => (table, i)
  | none => (table ++ [a], table.length)

variable {key} {table : List α} {a b : α}

theorem intern_cases (key : α → κ) (table : List α) (a : α) :
    (∃ i b, table[i]? = some b ∧ key b = key a ∧ intern key table a = (table, i)) ∨
      ((∀ b ∈ table, key b ≠ key a) ∧ intern key table a = (table ++ [a], table.length)) := by
  unfold intern
  cases hfind : table.findIdx? fun b => key b = key a with
  | some i =>
      left
      obtain ⟨hi, hkey, -⟩ := List.findIdx?_eq_some_iff_getElem.mp hfind
      exact ⟨i, table[i], List.getElem?_eq_getElem hi, by simpa using hkey, rfl⟩
  | none =>
      right
      rw [List.findIdx?_eq_none_iff] at hfind
      exact ⟨fun b hb => by simpa using hfind b hb, rfl⟩

/-- The entry has the key that was asked for. -/
theorem exists_intern (key : α → κ) (table : List α) (a : α) :
    ∃ b, (intern key table a).1[(intern key table a).2]? = some b ∧ key b = key a := by
  rcases intern_cases key table a with ⟨i, b, hget, hkey, heq⟩ | ⟨-, heq⟩
  · exact ⟨b, by rw [heq]; exact hget, hkey⟩
  · exact ⟨a, by rw [heq]; exact List.getElem?_concat_length, rfl⟩

/-- Entries keep their places. -/
theorem getElem?_intern {i : Nat} (h : table[i]? = some b) :
    (intern key table a).1[i]? = some b := by
  rcases intern_cases key table a with ⟨j, c, -, -, heq⟩ | ⟨-, heq⟩
  · rw [heq]
    exact h
  · rw [heq, List.getElem?_append_left (List.getElem?_eq_some_iff.mp h).1]
    exact h

theorem mem_intern (h : b ∈ (intern key table a).1) : b ∈ table ∨ b = a := by
  rcases intern_cases key table a with ⟨j, c, -, -, heq⟩ | ⟨-, heq⟩
  · rw [heq] at h
    exact Or.inl h
  · rw [heq] at h
    simpa using h

/-- No key gets a second entry. -/
theorem nodup_intern (h : (table.map key).Nodup) :
    ((intern key table a).1.map key).Nodup := by
  rcases intern_cases key table a with ⟨j, c, -, -, heq⟩ | ⟨hnew, heq⟩
  · rw [heq]
    exact h
  · rw [heq, List.map_append, List.map_singleton, List.nodup_append]
    refine ⟨h, List.nodup_singleton _, ?_⟩
    intro k hk k' hk' hkk
    rcases List.mem_map.mp hk with ⟨b, hb, rfl⟩
    exact hnew b hb (hkk.trans (List.mem_singleton.mp hk'))

end Intern
