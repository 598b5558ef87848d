import StatsHouse.Stat

/-! # The splitter

`ngx_statshouse_stat_part` takes the items of a list variable of nginx off one
after another. A pointer into the string is the rest of the string from it on,
so that `end` is the empty rest, and a read behind the end of the string is a
fault, as is the use of a null pointer.
-/

namespace StatsHouse

/-- What a correct program never does to memory. -/
inductive Fault where
  | outOfBounds
  | nullPointer
deriving DecidableEq, Repr

/-! ## The characters -/

abbrev space : UInt8 := 0x20
abbrev comma : UInt8 := 0x2c
abbrev dash : UInt8 := 0x2d
abbrev colon : UInt8 := 0x3a

/-- The delimiter between the groups of a list variable. -/
def groupDelimiter : Str := [space, colon, space]

/-! ## The functions -/

/-- `p[k]`. -/
def readAt (p : Str) (k : Nat) : Except Fault UInt8 :=
  match p[k]? with
  | some b => .ok b
  | none => .error .outOfBounds

/-- `ngx_statshouse_stat_is_group_delimiter`, with the end of `p` for `end`.
`nextPtr` says that `next_ptr` is not null; it then points to a pointer that is
not null. The result `none` is 0, and `some next` is 1 with `next` stored in
`*next_ptr`. -/
def statIsGroupDelimiter (p : Str) (nextPtr : Bool) : Except Fault (Option Str) :=
  -- `p + 3 < end`: with more than three bytes left it does not look
  if 3 < p.length then .ok none
  else do
    let p0 ← readAt p 0
    if p0 ≠ space then pure none
    else
      let p1 ← readAt p 1
      if p1 ≠ colon then pure none
      else
        let p2 ← readAt p 2
        if p2 ≠ space then pure none
        else if nextPtr then pure (some (p.drop 3))
        else throw .nullPointer

/-- What the delimiter test does: it finds a delimiter only at the very end. -/
theorem statIsGroupDelimiter_eq (p : Str) (nextPtr : Bool) :
    statIsGroupDelimiter p nextPtr =
      if p = groupDelimiter then
        if nextPtr then .ok (some []) else .error .nullPointer
      else if p = [] ∨ p = [space] ∨ p = [space, colon] then .error .outOfBounds
      else .ok none := by
  rcases p with _ | ⟨a, _ | ⟨b, _ | ⟨c, _ | ⟨d, p⟩⟩⟩⟩
  · rfl
  · by_cases ha : a = space <;>
      simp [statIsGroupDelimiter, groupDelimiter, readAt, bind, Except.bind, pure, Except.pure, ha]
  · by_cases ha : a = space <;> by_cases hb : b = colon <;>
      simp [statIsGroupDelimiter, groupDelimiter, readAt, bind, Except.bind, pure, Except.pure, ha,
        hb]
  · by_cases ha : a = space <;> by_cases hb : b = colon <;> by_cases hc : c = space <;>
      cases nextPtr <;>
      simp [statIsGroupDelimiter, groupDelimiter, readAt, bind, Except.bind, pure, Except.pure,
        throw, throwThe, MonadExceptOf.throw, ha, hb, hc]
  · simp [statIsGroupDelimiter, groupDelimiter]

theorem of_statIsGroupDelimiter {p next : Str}
    (h : statIsGroupDelimiter p true = .ok (some next)) : p = groupDelimiter ∧ next = [] := by
  rw [statIsGroupDelimiter_eq] at h
  split at h
  · rename_i hp
    simp only [if_true, Except.ok.injEq, Option.some.injEq] at h
    exact ⟨hp, h.symm⟩
  · split at h <;> cases h

/-- The first and the last loop of `ngx_statshouse_stat_part`: over delimiters and
spaces. -/
def statSkip (p : Str) : Except Fault Str :=
  match p with
  | [] => .ok []
  | b :: rest =>
    match _hdelim : statIsGroupDelimiter (b :: rest) true with
    | .error fault => .error fault
    | .ok (some next) => statSkip next
    | .ok none => if b = space then statSkip rest else .ok (b :: rest)
termination_by p.length
decreasing_by
  · rw [(of_statIsGroupDelimiter _hdelim).2]
    exact Nat.succ_pos _
  · exact Nat.lt_succ_self _

/-- The second loop: to the end of the item. -/
def statScan : Str → Except Fault Str
  | [] => .ok []
  | b :: rest =>
    if b = comma then .ok (b :: rest)
    else
      match statIsGroupDelimiter (b :: rest) false with
      | .error fault => .error fault
      | .ok (some _) => .ok (b :: rest)
      | .ok none => statScan rest

/-- An `ngx_str_t` inside the string: `data` is the rest of the string from its
first byte on. -/
structure Slice where
  data : Str
  len : Nat
deriving DecidableEq, Repr

/-- The bytes of a slice. -/
def Slice.str (item : Slice) : Str := item.data.take item.len

/-- `--item->len`, when the item ends with a space. -/
def statTrim (item : Slice) : Except Fault Slice :=
  if 0 < item.len then do
    let b ← readAt item.data (item.len - 1)
    if b = space then pure { item with len := item.len - 1 } else pure item
  else pure item

/-- `item->len = 0`, when the item is a dash. -/
def statDash (item : Slice) : Except Fault Slice :=
  if item.len = 1 then do
    let b ← readAt item.data 0
    if b = dash then pure { item with len := 0 } else pure item
  else pure item

/-- The variables of a caller. `item` is `none` while `item->data` is null, and
`*next_ptr` is not read then. -/
structure Split where
  item : Option Slice
  next : Str
deriving DecidableEq, Repr

/-- A caller before its first call. -/
def Split.init : Split := { item := none, next := [] }

/-- The bytes of the item of a caller. -/
def Split.str (split : Split) : Str :=
  match split.item with
  | none => []
  | some item => item.str

/-- Where the next call starts. -/
def Split.pos (str : Str) (split : Split) : Str :=
  match split.item with
  | none => str
  | some _ => split.next

/-- `ngx_statshouse_stat_part`. The result `none` is null. -/
def statPart (str : Str) (split : Split) : Except Fault (Option Split) := do
  let p ← statSkip (split.pos str)
  if p = [] then pure none
  else
    let data := p
    let p ← statScan p
    let item := Slice.mk data (data.length - p.length)
    let p := if p.head? = some comma then p.tail else p
    let item ← statTrim item
    let p ← statSkip p
    if item.len = 0 ∧ p = [] then pure none
    else
      let item ← statDash item
      pure (some { item := some item, next := p })

/-! ## What the loops do -/

theorem statSkip_nil : statSkip [] = .ok [] := by rw [statSkip]

theorem statSkip_cons (b : UInt8) (rest : Str) :
    statSkip (b :: rest) =
      match statIsGroupDelimiter (b :: rest) true with
      | .error fault => .error fault
      | .ok (some next) => statSkip next
      | .ok none => if b = space then statSkip rest else .ok (b :: rest) := by
  rw [statSkip]
  split <;> simp [*]

theorem statSkip_of_ne {b : UInt8} (h : b ≠ space) (rest : Str) :
    statSkip (b :: rest) = .ok (b :: rest) := by
  simp [statSkip_cons, statIsGroupDelimiter_eq, groupDelimiter, h]

/-- At a space the delimiter test reads two bytes more, which are there except
close to the end. -/
theorem statSkip_space (rest : Str) :
    statSkip (space :: rest) =
      if rest = [colon, space] then .ok []
      else if rest = [] ∨ rest = [colon] then .error .outOfBounds
      else statSkip rest := by
  rw [statSkip_cons, statIsGroupDelimiter_eq]
  by_cases hdelim : rest = [colon, space]
  · simp [groupDelimiter, hdelim, statSkip_nil]
  · by_cases hend : rest = [] ∨ rest = [colon]
    · simp [groupDelimiter, hdelim, hend]
    · simp [groupDelimiter, hdelim, hend]

/-- A string that ends with a space or with " :", where the delimiter test reads
behind the end. -/
def Dangling (s : Str) : Prop := [space] <:+ s ∨ [space, colon] <:+ s

theorem dangling_cons (b : UInt8) (rest : Str) :
    Dangling (b :: rest) ↔
      b :: rest = [space] ∨ b :: rest = [space, colon] ∨ Dangling rest := by
  unfold Dangling
  rw [List.suffix_cons_iff, List.suffix_cons_iff]
  constructor
  · rintro ((h | h) | h | h)
    · exact Or.inl h.symm
    · exact Or.inr (Or.inr (Or.inl h))
    · exact Or.inr (Or.inl h.symm)
    · exact Or.inr (Or.inr (Or.inr h))
  · rintro (h | h | h | h)
    · exact Or.inl (Or.inl h.symm)
    · exact Or.inr (Or.inl h.symm)
    · exact Or.inl (Or.inr h)
    · exact Or.inr (Or.inr h)

theorem not_dangling_nil : ¬ Dangling [] := by simp [Dangling]

/-- Before a comma, and in a string that is not dangling, the delimiter test
without `next_ptr` reads inside the string and finds nothing. -/
theorem statIsGroupDelimiter_of_not_dangling {b : UInt8} {rest : Str}
    (h : comma ∈ rest ∨ ¬ Dangling (b :: rest)) :
    statIsGroupDelimiter (b :: rest) false = .ok none := by
  -- the three texts the test reacts to have no comma, and dangle
  have hdelim : b :: rest ≠ groupDelimiter := by
    intro hdelim
    rcases h with h | h
    · rw [(List.cons.inj hdelim).2] at h
      exact absurd h (by decide)
    · rw [hdelim] at h
      exact h (Or.inl ⟨[space, colon], rfl⟩)
  have hend : ¬ (b :: rest = [] ∨ b :: rest = [space] ∨ b :: rest = [space, colon]) := by
    rintro (hend | hend | hend)
    · cases hend
    · rcases h with h | h
      · rw [(List.cons.inj hend).2] at h
        cases h
      · exact h ((dangling_cons b rest).mpr (Or.inl hend))
    · rcases h with h | h
      · rw [(List.cons.inj hend).2] at h
        exact absurd h (by decide)
      · exact h ((dangling_cons b rest).mpr (Or.inr (Or.inl hend)))
  rw [statIsGroupDelimiter_eq, if_neg hdelim, if_neg hend]

/-- The second loop stops at the first comma. -/
theorem statScan_comma {x : Str} (hx : comma ∉ x) (y : Str) :
    statScan (x ++ comma :: y) = .ok (comma :: y) := by
  induction x with
  | nil => simp [statScan]
  | cons b x ih =>
      rw [List.mem_cons, not_or] at hx
      rw [List.cons_append, statScan, if_neg (Ne.symm hx.1),
        statIsGroupDelimiter_of_not_dangling (Or.inl (by simp))]
      exact ih hx.2

/-- Without a comma it goes to the end of a string that is not dangling. -/
theorem statScan_end {x : Str} (hx : comma ∉ x) (hdangling : ¬ Dangling x) :
    statScan x = .ok [] := by
  induction x with
  | nil => rfl
  | cons b x ih =>
      rw [List.mem_cons, not_or] at hx
      rw [statScan, if_neg (Ne.symm hx.1),
        statIsGroupDelimiter_of_not_dangling (Or.inr hdangling)]
      rw [dangling_cons] at hdangling
      exact ih hx.2 fun h => hdangling (Or.inr (Or.inr h))

/-- In a dangling string without a comma it faults. -/
theorem statScan_dangling {x e : Str} (hx : comma ∉ x) (hdangling : Dangling x) :
    statScan x ≠ .ok e := by
  induction x with
  | nil => exact absurd hdangling not_dangling_nil
  | cons b x ih =>
      rw [List.mem_cons, not_or] at hx
      rw [statScan, if_neg (Ne.symm hx.1), statIsGroupDelimiter_eq]
      by_cases hdelim : b :: x = groupDelimiter
      · simp [hdelim]
      · by_cases hend : b :: x = [] ∨ b :: x = [space] ∨ b :: x = [space, colon]
        · rw [if_neg hdelim, if_pos hend]
          simp
        · rw [if_neg hdelim, if_neg hend]
          rw [not_or, not_or] at hend
          rcases (dangling_cons b x).mp hdangling with h | h | h
          · exact absurd h hend.2.1
          · exact absurd h hend.2.2
          · exact ih hx.2 h

/-- After the item: behind the comma, if that is where the second loop stopped. -/
def afterItem (e : Str) : Str := if e.head? = some comma then e.tail else e

@[simp] theorem afterItem_comma (y : Str) : afterItem (comma :: y) = y := rfl

theorem statScan_cases {p e : Str} (h : statScan p = .ok e) :
    (∃ x y, p = x ++ comma :: y ∧ comma ∉ x ∧ e = comma :: y) ∨
      (comma ∉ p ∧ ¬ Dangling p ∧ e = []) := by
  by_cases hcomma : comma ∈ p
  · rcases List.eq_append_cons_of_mem hcomma with ⟨x, y, rfl, hx⟩
    rw [statScan_comma hx] at h
    exact Or.inl ⟨x, y, rfl, hx, (Except.ok.inj h).symm⟩
  · by_cases hdangling : Dangling p
    · exact absurd h (statScan_dangling hcomma hdangling)
    · rw [statScan_end hcomma hdangling] at h
      exact Or.inr ⟨hcomma, hdangling, (Except.ok.inj h).symm⟩

/-- The bytes of an item without a space at the end. -/
def trimmed (x : Str) : Str := if x.getLast? = some space then x.dropLast else x

/-- A single dash stands for the empty item. -/
def undash (x : Str) : Str := if x = [dash] then [] else x

theorem prefix_trimmed (x : Str) : trimmed x <+: x := by
  unfold trimmed
  split
  · exact List.dropLast_prefix x
  · exact List.prefix_rfl

theorem undash_length_le (x : Str) : (undash x).length ≤ x.length := by
  unfold undash
  split <;> simp

theorem statTrim_eq (x e : Str) :
    statTrim (Slice.mk (x ++ e) x.length) = .ok (Slice.mk (x ++ e) (trimmed x).length) := by
  rcases List.eq_nil_or_concat x with rfl | ⟨x, b, rfl⟩
  · rfl
  · by_cases hb : b = space <;>
      simp [statTrim, trimmed, readAt, bind, Except.bind, pure, Except.pure, hb]

theorem statDash_eq (x e : Str) :
    statDash (Slice.mk (x ++ e) x.length) = .ok (Slice.mk (x ++ e) (undash x).length) := by
  rcases x with _ | ⟨b, _ | ⟨c, x⟩⟩
  · rfl
  · by_cases hb : b = dash <;>
      simp [statDash, undash, readAt, bind, Except.bind, pure, Except.pure, hb]
  · simp [statDash, undash, pure, Except.pure]

/-- A call that finds an item: the bytes `x` up to the end of the item, and the
start of the next call. -/
theorem statPart_eq {str x e next : Str} {split : Split}
    (hskip : statSkip (split.pos str) = .ok (x ++ e)) (hne : x ++ e ≠ [])
    (hscan : statScan (x ++ e) = .ok e) (hnext : statSkip (afterItem e) = .ok next) :
    statPart str split = .ok (
      if trimmed x = [] ∧ next = [] then none
      else some { item := some ⟨x ++ e, (undash (trimmed x)).length⟩, next := next }) := by
  rcases prefix_trimmed x with ⟨y, hy⟩
  have hlen : (x ++ e).length - e.length = x.length := by simp
  have hdash : statDash (Slice.mk (x ++ e) (trimmed x).length) =
      .ok (Slice.mk (x ++ e) (undash (trimmed x)).length) := by
    rw [show x ++ e = trimmed x ++ (y ++ e) by rw [← List.append_assoc, hy]]
    exact statDash_eq _ _
  unfold afterItem at hnext
  simp only [statPart, hskip, hscan, hnext, bind, Except.bind, hne, if_false, hlen, statTrim_eq,
    List.length_eq_zero_iff]
  split
  · rfl
  · rw [hdash]
    rfl

/-- The bytes of the item found. -/
theorem str_undash_trimmed (x e : Str) :
    Slice.str ⟨x ++ e, (undash (trimmed x)).length⟩ = undash (trimmed x) := by
  have hprefix : undash (trimmed x) <+: x ++ e := by
    refine List.IsPrefix.trans ?_ ((prefix_trimmed x).trans (List.prefix_append x e))
    unfold undash
    split
    · exact List.nil_prefix
    · exact List.prefix_rfl
  exact (List.prefix_iff_eq_take.mp hprefix).symm

theorem statPart_nil {str : Str} {split : Split} (hpos : split.pos str = []) :
    statPart str split = .ok none := by
  simp only [statPart, hpos, statSkip_nil, bind, Except.bind, if_true]
  rfl

theorem statSkip_of_head {p : Str} (h : p.head? ≠ some space) : statSkip p = .ok p := by
  rcases p with _ | ⟨b, rest⟩
  · exact statSkip_nil
  · exact statSkip_of_ne (by simpa using h) rest

end StatsHouse
