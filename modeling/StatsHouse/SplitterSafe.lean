import StatsHouse.Lib.Generator
import StatsHouse.Splitter

/-! # The memory the splitter reads

Close to the end of the string the delimiter test reads bytes that are not there,
and at a final " : " the second loop uses its null `next_ptr`. Whether that
happens is decided by what follows the last comma: `Settled` says so, every call
that does not fault keeps it, and where it holds no call faults.

* `splitterSafe_iff`: the strings on which all calls are safe.
-/

namespace StatsHouse

open Generator

/-! ## The last piece -/

/-- What follows the last comma. -/
def lastPiece : Str → Str
  | [] => []
  | b :: rest => if comma ∈ rest then lastPiece rest else if b = comma then rest else b :: rest

/-- The string ends neither with a space nor with " :", or it is spaces and then
" : ". -/
def Settled (s : Str) : Prop :=
  ¬ Dangling s ∨ ∃ k, s = List.replicate k space ++ groupDelimiter

theorem lastPiece_of_not_mem {s : Str} (h : comma ∉ s) : lastPiece s = s := by
  cases s with
  | nil => rfl
  | cons b rest =>
      rw [List.mem_cons, not_or] at h
      rw [lastPiece, if_neg h.2, if_neg (Ne.symm h.1)]

theorem lastPiece_comma (x y : Str) : lastPiece (x ++ comma :: y) = lastPiece y := by
  induction x with
  | nil =>
      rw [List.nil_append, lastPiece]
      split
      · rfl
      · rename_i hy
        rw [if_pos rfl, lastPiece_of_not_mem hy]
  | cons b x ih => rw [List.cons_append, lastPiece, if_pos (by simp), ih]

theorem settled_nil : Settled [] := Or.inl not_dangling_nil

/-- A space in front changes nothing, except before the end of a delimiter. -/
theorem settled_space {rest : Str} (hne : rest ≠ []) (hcolon : rest ≠ [colon])
    (hdelim : rest ≠ [colon, space]) : Settled (space :: rest) ↔ Settled rest := by
  have hdangling : Dangling (space :: rest) ↔ Dangling rest := by
    rw [dangling_cons]
    simp [hne, hcolon]
  unfold Settled
  rw [hdangling]
  constructor
  · rintro (h | ⟨_ | k, hk⟩)
    · exact Or.inl h
    · exact absurd (List.cons.inj hk).2 hdelim
    · exact Or.inr ⟨k, (List.cons.inj hk).2⟩
  · rintro (h | ⟨k, rfl⟩)
    · exact Or.inl h
    · exact Or.inr ⟨k + 1, rfl⟩

theorem settled_lastPiece_space {rest : Str} (hne : rest ≠ []) (hcolon : rest ≠ [colon])
    (hdelim : rest ≠ [colon, space]) :
    Settled (lastPiece (space :: rest)) ↔ Settled (lastPiece rest) := by
  by_cases hcomma : comma ∈ rest
  · rw [lastPiece, if_pos hcomma]
  · rw [lastPiece_of_not_mem hcomma, lastPiece, if_neg hcomma, if_neg (by decide)]
    exact settled_space hne hcolon hdelim

/-- A string that is not dangling starts its last piece with a space only before
" : ". -/
theorem settled_iff_of_head {s : Str} (h : s.head? ≠ some space) : Settled s ↔ ¬ Dangling s := by
  constructor
  · rintro (hd | ⟨_ | k, rfl⟩)
    · exact hd
    · exact absurd rfl h
    · exact absurd rfl h
  · exact Or.inl

/-- Where the delimiter test reads behind the end, the string is not settled. -/
theorem not_settled_end {rest : Str} (h : rest = [] ∨ rest = [colon]) :
    ¬ Settled (lastPiece (space :: rest)) := by
  have hlast : lastPiece (space :: rest) = space :: rest := by
    apply lastPiece_of_not_mem
    rcases h with rfl | rfl <;> decide
  rw [hlast]
  rintro (hd | ⟨k, hk⟩)
  · rcases h with rfl | rfl
    · exact hd (Or.inl List.suffix_rfl)
    · exact hd (Or.inr List.suffix_rfl)
  · have hlength := congrArg List.length hk
    rcases h with rfl | rfl <;> simp [groupDelimiter] at hlength

/-- Skipping keeps whether the last piece is settled, and ends before a byte that is
no space. -/
theorem of_statSkip {p q : Str} (h : statSkip p = .ok q) :
    q.head? ≠ some space ∧ q <:+ p ∧ (Settled (lastPiece p) ↔ Settled (lastPiece q)) := by
  induction p with
  | nil =>
      rw [statSkip_nil] at h
      cases h
      exact ⟨by simp, List.suffix_rfl, Iff.rfl⟩
  | cons b rest ih =>
      by_cases hb : b = space
      · subst hb
        rw [statSkip_space] at h
        by_cases hdelim : rest = [colon, space]
        · -- the delimiter ends the string, and the skip is at the end
          rw [if_pos hdelim] at h
          cases h
          subst hdelim
          have hsettled : Settled (lastPiece [space, colon, space]) := Or.inr ⟨0, rfl⟩
          exact ⟨by simp, List.nil_suffix, fun _ => settled_nil, fun _ => hsettled⟩
        · rw [if_neg hdelim] at h
          by_cases hend : rest = [] ∨ rest = [colon]
          · -- too short for the test, which faults
            rw [if_pos hend] at h
            cases h
          · rw [if_neg hend] at h
            rw [not_or] at hend
            rcases ih h with ⟨hhead, hsuffix, hsettled⟩
            refine ⟨hhead, hsuffix.trans (List.suffix_cons space rest), ?_⟩
            rw [settled_lastPiece_space hend.1 hend.2 hdelim, hsettled]
      · rw [statSkip_of_ne hb] at h
        cases h
        exact ⟨by simpa using hb, List.suffix_rfl, Iff.rfl⟩

theorem statSkip_ok {p : Str} (h : Settled (lastPiece p)) : ∃ q, statSkip p = .ok q := by
  induction p with
  | nil => exact ⟨[], statSkip_nil⟩
  | cons b rest ih =>
      by_cases hb : b = space
      · subst hb
        rw [statSkip_space]
        by_cases hdelim : rest = [colon, space]
        · exact ⟨[], by rw [if_pos hdelim]⟩
        · by_cases hend : rest = [] ∨ rest = [colon]
          · exact absurd h (not_settled_end hend)
          · rw [if_neg hdelim, if_neg hend]
            rw [not_or] at hend
            exact ih ((settled_lastPiece_space hend.1 hend.2 hdelim).mp h)
      · exact ⟨b :: rest, statSkip_of_ne hb rest⟩

/-- So does scanning, which ends behind the item. -/
theorem of_statScan {p e : Str} (h : statScan p = .ok e) :
    ∃ x, p = x ++ e ∧ afterItem e <:+ p ∧ (p ≠ [] → (afterItem e).length < p.length) ∧
      (Settled (lastPiece p) ↔ Settled (lastPiece (afterItem e))) := by
  rcases statScan_cases h with ⟨x, y, rfl, -, rfl⟩ | ⟨hcomma, hdangling, rfl⟩
  · refine ⟨x, rfl, ⟨x ++ [comma], by simp⟩, fun _ => by simp; omega, ?_⟩
    rw [lastPiece_comma, afterItem_comma]
  · refine ⟨p, by simp, List.nil_suffix, fun hp => List.length_pos_of_ne_nil hp, ?_⟩
    rw [lastPiece_of_not_mem hcomma]
    exact ⟨fun _ => settled_nil, fun _ => Or.inl hdangling⟩

theorem statScan_ok {p : Str} (hhead : p.head? ≠ some space) (h : Settled (lastPiece p)) :
    ∃ e, statScan p = .ok e := by
  by_cases hcomma : comma ∈ p
  · rcases List.eq_append_cons_of_mem hcomma with ⟨x, y, rfl, hx⟩
    exact ⟨comma :: y, statScan_comma hx y⟩
  · rw [lastPiece_of_not_mem hcomma, settled_iff_of_head hhead] at h
    exact ⟨[], statScan_end hcomma h⟩

/-- A call does not fault where the last piece is settled. -/
theorem statPart_ok {str : Str} {split : Split} (h : Settled (lastPiece (split.pos str))) :
    ∃ r, statPart str split = .ok r := by
  rcases statSkip_ok h with ⟨q, hskip⟩
  rcases of_statSkip hskip with ⟨hhead, -, hsettled⟩
  rw [hsettled] at h
  by_cases hq : q = []
  · refine ⟨none, ?_⟩
    simp only [statPart, hskip, bind, Except.bind, hq, if_true]
    rfl
  · rcases statScan_ok hhead h with ⟨e, hscan⟩
    rcases of_statScan hscan with ⟨x, rfl, -, -, hsettled'⟩
    rcases statSkip_ok (hsettled'.mp h) with ⟨next, hnext⟩
    exact ⟨_, statPart_eq hskip hq hscan hnext⟩

/-- What a call that does not fault does. Where it finds nothing more, the last piece
was settled. Otherwise the item and the next call are inside the string, the next
call starts further on, and it is settled if this one was. -/
theorem of_statPart {str : Str} {split : Split} {r : Option Split}
    (h : statPart str split = .ok r) :
    (r = none ∧ Settled (lastPiece (split.pos str))) ∨
    ∃ item next, r = some { item := some item, next := next } ∧
      item.data <:+ split.pos str ∧ item.len ≤ item.data.length ∧ next <:+ split.pos str ∧
      next.length < (split.pos str).length ∧
      (Settled (lastPiece (split.pos str)) ↔ Settled (lastPiece next)) := by
  cases hskip : statSkip (split.pos str) with
  | error fault => simp [statPart, hskip, bind, Except.bind] at h
  | ok q =>
      rcases of_statSkip hskip with ⟨hhead, hsuffix, hsettled⟩
      by_cases hq : q = []
      · left
        simp only [statPart, hskip, bind, Except.bind, hq, if_true] at h
        rw [hq] at hsettled
        exact ⟨(Except.ok.inj h).symm, hsettled.mpr settled_nil⟩
      · cases hscan : statScan q with
        | error fault => simp [statPart, hskip, hscan, hq, bind, Except.bind] at h
        | ok e =>
            rcases of_statScan hscan with ⟨x, rfl, hafter, hlt, hsettled'⟩
            cases hnext : statSkip (afterItem e) with
            | error fault =>
                have hlen : (x ++ e).length - e.length = x.length := by simp
                unfold afterItem at hnext
                simp only [statPart, hskip, hscan, hnext, bind, Except.bind, hq, if_false, hlen,
                  statTrim_eq] at h
                cases h
            | ok next =>
                rcases of_statSkip hnext with ⟨-, hsuffix', hsettled''⟩
                rw [statPart_eq hskip hq hscan hnext] at h
                have hiff := hsettled.trans (hsettled'.trans hsettled'')
                -- null is returned for an empty item with nothing behind it
                by_cases hempty : trimmed x = [] ∧ next = []
                · left
                  rw [if_pos hempty] at h
                  rw [hempty.2] at hiff
                  exact ⟨(Except.ok.inj h).symm, hiff.mpr settled_nil⟩
                · right
                  rw [if_neg hempty] at h
                  have hlt' := hlt hq
                  have hle := hsuffix.length_le
                  have hle' := hsuffix'.length_le
                  have hlen := (undash_length_le (trimmed x)).trans (prefix_trimmed x).length_le
                  refine ⟨_, next, (Except.ok.inj h).symm, hsuffix, ?_,
                    hsuffix'.trans (hafter.trans hsuffix), by omega, hiff⟩
                  rw [List.length_append]
                  exact Nat.le_add_right_of_le hlen

/-- Calls on `s` read nothing outside it and use no null pointer, return items
inside it, move forward each time, and end. -/
def SplitterSafe (s : Str) : Prop :=
  ∀ n, ∃ splits ended, calls (statPart s) n Split.init = .ok (splits, ended) ∧
    (∀ split ∈ splits, ∃ item, split.item = some item ∧ item.data <:+ s ∧
      item.len ≤ item.data.length ∧ split.next <:+ s) ∧
    splits.Pairwise (fun a b => b.next.length < a.next.length) ∧
    splits.length ≤ s.length ∧ (s.length < n → ended = true)

/-- A caller whose variables point into `s`, where no call faults. -/
structure Split.Inside (s : Str) (split : Split) : Prop where
  item : ∀ item, split.item = some item → item.data <:+ s ∧ item.len ≤ item.data.length
  next : split.pos s <:+ s
  settled : Settled (lastPiece (split.pos s))

/-- A call that finds an item sets the item. -/
theorem item_of_statPart {s : Str} {split split' : Split}
    (h : statPart s split = .ok (some split')) :
    ∃ item, split'.item = some item ∧ split'.pos s = split'.next := by
  rcases of_statPart h with ⟨hnone, -⟩ | ⟨item, next, hsome, -⟩
  · cases hnone
  · cases hsome
    exact ⟨item, rfl, rfl⟩

theorem Split.Inside.step {s : Str} {split split' : Split} (h : split.Inside s)
    (hpart : statPart s split = .ok (some split')) :
    split'.Inside s ∧ (split'.pos s).length < (split.pos s).length := by
  rcases of_statPart hpart with ⟨hnone, -⟩ | ⟨item, next, hsome, hdata, hlen, hnext, hlt, hiff⟩
  · cases hnone
  · cases hsome
    refine ⟨⟨?_, hnext.trans h.next, hiff.mp h.settled⟩, hlt⟩
    rintro _ ⟨⟩
    exact ⟨hdata.trans h.next, hlen⟩

/-- The splitter is safe exactly on the strings whose last piece, behind the last
comma, ends neither with a space nor with " :", or is spaces and then " : ". -/
theorem splitterSafe_iff (s : Str) : SplitterSafe s ↔ Settled (lastPiece s) := by
  constructor
  · intro h
    -- enough calls come to an end, and settle what was before them
    rcases h (s.length + 1) with ⟨splits, ended, hcalls, -, -, -, hended⟩
    rw [hended (Nat.lt_succ_self _)] at hcalls
    refine of_calls_ended (P := fun split => Settled (lastPiece (split.pos s))) ?_ ?_ hcalls
    · intro split hpart
      rcases of_statPart hpart with ⟨-, hsettled⟩ | ⟨item, next, hsome, -⟩
      · exact hsettled
      · cases hsome
    · intro split split' hpart hsettled
      rcases of_statPart hpart with ⟨hnone, -⟩ | ⟨item, next, hsome, -, -, -, -, hiff⟩
      · cases hnone
      · cases hsome
        exact hiff.mpr hsettled
  · intro h n
    have hinit : Split.init.Inside s := by
      constructor
      · intro item hitem
        cases hitem
      · exact List.suffix_rfl
      · exact h
    rcases calls_of_measure (I := fun split => split.Inside s)
      (fun split hsplit => statPart_ok hsplit.settled)
      (fun split split' hsplit hpart => hsplit.step hpart) n hinit with
      ⟨splits, ended, hcalls, hinside, hpairwise, hlength, hended⟩
    refine ⟨splits, ended, hcalls, ?_, ?_, hlength, hended⟩
    · intro split hsplit
      rcases exists_of_mem_calls hcalls hsplit with ⟨before, hpart⟩
      rcases item_of_statPart hpart with ⟨item, hitem, hpos⟩
      have hsplit' := hinside split hsplit
      rcases hsplit'.item item hitem with ⟨hdata, hlen⟩
      refine ⟨item, hitem, hdata, hlen, ?_⟩
      rw [← hpos]
      exact hsplit'.next
    · -- both cursors were found, so their calls start at `next`
      refine (List.pairwise_cons.mp hpairwise).2.imp_of_mem ?_
      intro a b ha hb hlt
      rcases exists_of_mem_calls hcalls ha with ⟨before, hpart⟩
      rcases exists_of_mem_calls hcalls hb with ⟨before', hpart'⟩
      rcases item_of_statPart hpart with ⟨item, -, hpos⟩
      rcases item_of_statPart hpart' with ⟨item', -, hpos'⟩
      rwa [hpos, hpos'] at hlt

/-- "a, b : " makes the second loop use the null `next_ptr`. -/
theorem trailing_group_not_splitterSafe :
    ¬ SplitterSafe [97, comma, space, 98, space, colon, space] := by
  intro h
  rcases h 2 with ⟨splits, ended, hcalls, -⟩
  have hfault : calls (statPart [97, comma, space, 98, space, colon, space]) 2 Split.init =
      .error .nullPointer := by
    decide +kernel
  rw [hfault] at hcalls
  cases hcalls

/-- "a " makes it read behind the end of the string. -/
example : calls (statPart [97, space]) 1 Split.init = .error .outOfBounds := by decide +kernel

end StatsHouse
