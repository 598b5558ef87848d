import StatsHouse.Lib.Generator
import StatsHouse.Splitter

/-! # Lists of tokens

nginx joins the entries of a list variable with ", " and its groups with " : ".
The delimiter test recognises " : " only at the end of the string, so that the
splitter takes tokens joined by it for one item.

* `statParts_joined_iff`: the splitter returns the tokens exactly if no gap is
  " : ".
-/

namespace StatsHouse

open Generator

/-! ## Joined tokens -/

/-- The separators of a list variable of nginx. -/
inductive Separator where
  | list
  | group
deriving DecidableEq, Repr

def Separator.str : Separator → Str
  | .list => [comma, space]
  | .group => groupDelimiter

/-- An entry of a list variable. -/
structure Token where
  str : Str
  ne_nil : str ≠ []
  no_space : space ∉ str
  no_comma : comma ∉ str
  ne_colon : str ≠ [colon]

/-- A beginning `x` and the tokens that follow it. -/
def joinFrom (x : Str) (rest : List (Separator × Token)) : Str :=
  x ++ rest.flatMap fun u => u.1.str ++ u.2.str

/-- A list variable with the tokens `t` and `rest`. -/
def joined (t : Token) (rest : List (Separator × Token)) : Str := joinFrom t.str rest

/-- The calls on `s` return the items `items`, and then null. -/
def StatParts (s : Str) (items : List Str) : Prop :=
  Yields (statPart s) Split.str Split.init items

/-- What the splitter takes for one item: tokens with " : " between them. -/
structure Plain (x : Str) : Prop where
  ne_nil : x ≠ []
  no_comma : comma ∉ x
  head : x.head? ≠ some space
  not_dangling : ¬ Dangling x

/-- A string that ends with a token is not dangling. -/
theorem Token.not_dangling (t : Token) (x : Str) : ¬ Dangling (x ++ t.str) := by
  have hsuffix : t.str <:+ x ++ t.str := List.suffix_append x t.str
  rintro (h | h)
  · rcases List.suffix_or_suffix_of_suffix h hsuffix with h | h
    · exact t.no_space (h.subset (by simp))
    · rcases List.suffix_cons_iff.mp h with h | h
      · exact t.no_space (by simp [h])
      · exact t.ne_nil (List.suffix_nil.mp h)
  · rcases List.suffix_or_suffix_of_suffix h hsuffix with h | h
    · exact t.no_space (h.subset (by simp))
    · -- the token is no longer than " :"
      rcases List.suffix_cons_iff.mp h with h | h
      · exact t.no_space (by simp [h])
      · rcases List.suffix_cons_iff.mp h with h | h
        · exact t.ne_colon h
        · exact t.ne_nil (List.suffix_nil.mp h)

/-- What starts with a token does not start with a space, and is not the end of a
delimiter. -/
theorem Token.starts (t : Token) (x : Str) :
    (t.str ++ x).head? ≠ some space ∧ t.str ++ x ≠ [] ∧ t.str ++ x ≠ [colon] ∧
      t.str ++ x ≠ [colon, space] := by
  have hprefix : t.str <+: t.str ++ x := List.prefix_append t.str x
  refine ⟨?_, by simp [t.ne_nil], ?_, ?_⟩
  · rw [List.head?_append_of_ne_nil _ t.ne_nil]
    intro h
    exact t.no_space (List.mem_of_mem_head? h)
  · intro h
    rw [h] at hprefix
    rcases List.prefix_cons_iff.mp hprefix with h | ⟨y, h, hy⟩
    · exact t.ne_nil h
    · rw [List.prefix_nil.mp hy] at h
      exact t.ne_colon h
  · intro h
    rw [h] at hprefix
    rcases List.prefix_cons_iff.mp hprefix with h | ⟨y, h, hy⟩
    · exact t.ne_nil h
    · rcases List.prefix_cons_iff.mp hy with rfl | ⟨z, rfl, -⟩
      · exact t.ne_colon h
      · exact t.no_space (by simp [h])

/-- After ", " the next call starts at the next token. -/
theorem Token.statSkip_space (t : Token) (x : Str) :
    statSkip (space :: (t.str ++ x)) = .ok (t.str ++ x) := by
  rcases t.starts x with ⟨hhead, hne, hcolon, hdelim⟩
  rw [StatsHouse.statSkip_space, if_neg hdelim, if_neg (not_or.mpr ⟨hne, hcolon⟩)]
  exact statSkip_of_head hhead

theorem Token.plain (t : Token) : Plain t.str := by
  have hstarts := t.starts []
  rw [List.append_nil] at hstarts
  constructor
  · exact t.ne_nil
  · exact t.no_comma
  · exact hstarts.1
  · exact t.not_dangling []

/-- Tokens joined by " : " are one item to the splitter. -/
theorem Plain.group {x : Str} (h : Plain x) (u : Token) :
    Plain (x ++ groupDelimiter ++ u.str) := by
  constructor
  · simp [h.ne_nil]
  · have hdelim : comma ∉ groupDelimiter := by decide
    simp [h.no_comma, u.no_comma, hdelim]
  · rw [List.append_assoc, List.head?_append_of_ne_nil _ h.ne_nil]
    exact h.head
  · exact u.not_dangling _

theorem Plain.trimmed_eq {x : Str} (h : Plain x) : trimmed x = x := by
  unfold trimmed
  split
  · rename_i hlast
    refine absurd (Or.inl ?_) h.not_dangling
    rcases List.eq_nil_or_concat x with rfl | ⟨y, b, rfl⟩
    · simp at hlast
    · exact ⟨y, by simpa using hlast.symm⟩
  · rfl

/-- The items the splitter finds in a beginning `x` and the tokens that follow it. -/
def pieces (x : Str) : List (Separator × Token) → List Str
  | [] => [x]
  | (.list, u) :: rest => x :: pieces u.str rest
  | (.group, u) :: rest => pieces (x ++ groupDelimiter ++ u.str) rest

/-- A plain item before a comma is returned, and the next call starts where the
string goes on. -/
theorem Plain.statPart_comma {str x y next : Str} {split : Split} (h : Plain x)
    (hpos : split.pos str = x ++ comma :: y) (hnext : statSkip y = .ok next) :
    ∃ split', statPart str split = .ok (some split') ∧ split'.str = undash x ∧
      split'.pos str = next := by
  have hhead : (x ++ comma :: y).head? ≠ some space := by
    rw [List.head?_append_of_ne_nil _ h.ne_nil]
    exact h.head
  have hskip : statSkip (split.pos str) = .ok (x ++ comma :: y) := by
    rw [hpos]
    exact statSkip_of_head hhead
  have hpart := statPart_eq hskip (by simp) (statScan_comma h.no_comma y) hnext
  rw [h.trimmed_eq, if_neg (not_and_of_not_left _ h.ne_nil)] at hpart
  refine ⟨_, hpart, ?_, rfl⟩
  have hstr := str_undash_trimmed x (comma :: y)
  rwa [h.trimmed_eq] at hstr

/-- A plain item at the end of the string is returned, and the next call starts
at the end. -/
theorem Plain.statPart_end {str x : Str} {split : Split} (h : Plain x)
    (hpos : split.pos str = x) :
    ∃ split', statPart str split = .ok (some split') ∧ split'.str = undash x ∧
      split'.pos str = [] := by
  have hskip : statSkip (split.pos str) = .ok (x ++ []) := by
    rw [hpos, List.append_nil]
    exact statSkip_of_head h.head
  have hscan : statScan (x ++ []) = .ok [] := by
    rw [List.append_nil]
    exact statScan_end h.no_comma h.not_dangling
  have hpart := statPart_eq hskip (by simp [h.ne_nil]) hscan statSkip_nil
  rw [h.trimmed_eq, if_neg (not_and_of_not_left _ h.ne_nil)] at hpart
  refine ⟨_, hpart, ?_, rfl⟩
  have hstr := str_undash_trimmed x []
  rwa [h.trimmed_eq] at hstr

/-- The splitter finds the pieces between the commas, and nothing after them. -/
theorem yields_pieces {str x : Str} (rest : List (Separator × Token)) (hx : Plain x)
    {split : Split} (hpos : split.pos str = joinFrom x rest) :
    Yields (statPart str) Split.str split ((pieces x rest).map undash) := by
  induction rest generalizing x split with
  | nil =>
      rw [joinFrom, List.flatMap_nil, List.append_nil] at hpos
      rcases hx.statPart_end hpos with ⟨split', hpart, hstr, hpos'⟩
      exact ⟨split', hpart, hstr, statPart_nil hpos'⟩
  | cons u rest ih =>
      rcases u with ⟨_ | _, u⟩
      · -- ", " ends the item
        have hjoin : joinFrom x ((.list, u) :: rest) =
            x ++ comma :: space :: joinFrom u.str rest := by
          simp [joinFrom, Separator.str]
        rw [hjoin] at hpos
        rcases hx.statPart_comma hpos (u.statSkip_space _) with ⟨split', hpart, hstr, hpos'⟩
        exact ⟨split', hpart, hstr, ih u.plain hpos'⟩
      · -- " : " does not
        have hjoin : joinFrom x ((.group, u) :: rest) =
            joinFrom (x ++ groupDelimiter ++ u.str) rest := by
          simp [joinFrom, Separator.str]
        rw [hjoin] at hpos
        exact ih (hx.group u) hpos

/-- Each " : " is an item less. -/
theorem length_pieces (x : Str) (rest : List (Separator × Token)) :
    (pieces x rest).length + rest.countP (fun u => u.1 = .group) = rest.length + 1 := by
  induction rest generalizing x with
  | nil => rfl
  | cons u rest ih =>
      rcases u with ⟨_ | _, u⟩
      · have hrest := ih u.str
        rw [pieces, List.countP_cons_of_neg (by simp), List.length_cons, List.length_cons]
        omega
      · have hrest := ih (x ++ groupDelimiter ++ u.str)
        rw [pieces, List.countP_cons_of_pos (by simp), List.length_cons]
        omega

theorem pieces_eq {x : Str} {rest : List (Separator × Token)} (h : ∀ u ∈ rest, u.1 = .list) :
    pieces x rest = x :: rest.map fun u => u.2.str := by
  induction rest generalizing x with
  | nil => rfl
  | cons u rest ih =>
      rcases u with ⟨sep, u⟩
      have hsep : sep = .list := h (sep, u) (by simp)
      rw [hsep, pieces, ih fun v hv => h v (by simp [hv]), List.map_cons]

/-- The splitter returns exactly the tokens of a joined string, a dash as the empty
string, and then null, if and only if no gap is " : ". -/
theorem statParts_joined_iff (t : Token) (rest : List (Separator × Token)) :
    StatParts (joined t rest) ((t.str :: rest.map fun u => u.2.str).map undash) ↔
      ∀ u ∈ rest, u.1 = .list := by
  have hpieces : StatParts (joined t rest) ((pieces t.str rest).map undash) :=
    yields_pieces rest t.plain rfl
  constructor
  · intro h
    have hlength := congrArg List.length (h.unique hpieces)
    have hcount := length_pieces t.str rest
    simp only [List.length_map, List.length_cons] at hlength
    have hzero : rest.countP (fun u => u.1 = .group) = 0 := by omega
    intro u hu
    have hgroup := List.countP_eq_zero.mp hzero u hu
    rcases u with ⟨_ | _, u⟩
    · rfl
    · simp at hgroup
  · intro h
    rw [← pieces_eq h]
    exact hpieces

/-- "a : b" is returned as one item. -/
theorem group_not_statParts :
    ¬ StatParts
      (joined ⟨[97], by decide, by decide, by decide, by decide⟩
        [(.group, ⟨[98], by decide, by decide, by decide, by decide⟩)])
      [[97], [98]] := by
  rintro ⟨split, hpart, hstr, -⟩
  have hwhole : statPart [97, space, colon, space, 98] Split.init =
      .ok (some { item := some ⟨[97, space, colon, space, 98], 5⟩, next := [] }) := by
    decide +kernel
  rw [show joined _ _ = [97, space, colon, space, 98] from rfl, hwhole] at hpart
  cases hpart
  exact absurd hstr (by decide)

end StatsHouse
