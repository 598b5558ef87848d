import StatsHouse.Lib.Run
import StatsHouse.Lib.Tiling

/-! # The ring allocator

`ngx_statshouse_aggregate_alloc` and `ngx_statshouse_aggregate_free`. The arena
is used as a ring: blocks are handed out at `pos` and given back in the same
order at `last`, and nothing but the order of the two cursors says which part
is in use. `Layout` is the invariant that reads them: the live blocks tile
`last` to `pos`, or, once `pos` has wrapped, `last` to some end of the tail and
then `start` to `pos`.
-/

namespace StatsHouse

open Tiling

/-- The `ngx_buf_t` of the arena. -/
structure Alloc where
  start : Nat
  stop : Nat
  pos : Nat
  last : Nat
deriving DecidableEq, Repr

/-- The cursors `ngx_statshouse_aggregate_init` sets. -/
def Alloc.init (start size : Nat) : Alloc :=
  { start := start, stop := start + size, pos := start, last := start }

/-- `ngx_statshouse_aggregate_alloc`. The source compares with `(ptrdiff_t) size`;
sizes are taken below `2 ^ 63`, where the cast keeps them. -/
def aggregateAlloc (alloc : Alloc) (size : Nat) : Option (Nat × Alloc) :=
  if alloc.pos ≥ alloc.last then
    if alloc.stop - alloc.pos > size then
      some (alloc.pos, { alloc with pos := alloc.pos + size })
    -- back to the start; what is left behind `pos` is not used
    else if alloc.last - alloc.start > size then
      some (alloc.start, { alloc with pos := alloc.start + size })
    else
      none
  else
    if alloc.last - alloc.pos > size then
      some (alloc.pos, { alloc with pos := alloc.pos + size })
    else
      none

/-- `ngx_statshouse_aggregate_free`. -/
def aggregateFree (alloc : Alloc) (ptr size : Nat) : Alloc :=
  let alloc := if ptr = alloc.start then { alloc with last := alloc.start } else alloc
  { alloc with last := alloc.last + size }

@[simp] theorem aggregateFree_start (alloc : Alloc) (ptr size : Nat) :
    (aggregateFree alloc ptr size).start = alloc.start := by
  unfold aggregateFree
  split <;> rfl

@[simp] theorem aggregateFree_stop (alloc : Alloc) (ptr size : Nat) :
    (aggregateFree alloc ptr size).stop = alloc.stop := by
  unfold aggregateFree
  split <;> rfl

@[simp] theorem aggregateFree_pos (alloc : Alloc) (ptr size : Nat) :
    (aggregateFree alloc ptr size).pos = alloc.pos := by
  unfold aggregateFree
  split <;> rfl

/-! ## The layout of the live blocks -/

/-- Where the live blocks, oldest first, lie in the arena. -/
inductive Layout (alloc : Alloc) (live : List Block) : Prop where
  /-- The live blocks tile `last` to `pos`. -/
  | straight (hlast : alloc.start ≤ alloc.last) (hlive : Tiles alloc.last alloc.pos live)
      (hpos : alloc.pos ≤ alloc.stop)
  /-- The older blocks tile `last` to `tailEnd`, the younger ones `start` to `pos`.
  From `tailEnd` to `stop` is the gap left at the wrap. -/
  | wrapped (tail head : List Block) (tailEnd : Nat) (hlive : live = tail ++ head)
      (hhead : head ≠ []) (hpos : alloc.pos < alloc.last)
      (htail : Tiles alloc.last tailEnd tail) (htailEnd : tailEnd ≤ alloc.stop)
      (hhead' : Tiles alloc.start alloc.pos head)

theorem layout_init (start size : Nat) : Layout (Alloc.init start size) [] :=
  .straight (Nat.le_refl _) rfl (Nat.le_add_right _ _)

/-- Every live block lies inside the arena. -/
theorem Layout.mem {alloc : Alloc} {live : List Block} (h : Layout alloc live) {b : Block}
    (hb : b ∈ live) : alloc.start ≤ b.1 ∧ b.1 + b.2 ≤ alloc.stop ∧ 0 < b.2 := by
  cases h with
  | straight hlast hlive hpos =>
      have hmem := hlive.mem hb
      omega
  | wrapped tail head tailEnd hlive hhead hpos htail htailEnd hhead' =>
      have hstart := hhead'.le
      have hend := htail.le
      subst hlive
      rcases List.mem_append.mp hb with hb | hb
      · -- between `last` and `tailEnd`
        have hmem := htail.mem hb
        omega
      · -- between `start` and `pos`
        have hmem := hhead'.mem hb
        omega

/-- The live blocks are pairwise apart. -/
theorem Layout.pairwise {alloc : Alloc} {live : List Block} (h : Layout alloc live) :
    live.Pairwise Apart := by
  cases h with
  | straight hlast hlive hpos => exact hlive.pairwise
  | wrapped tail head tailEnd hlive hhead hpos htail htailEnd hhead' =>
      subst hlive
      rw [List.pairwise_append]
      refine ⟨htail.pairwise, hhead'.pairwise, ?_⟩
      intro b hb c hc
      exact (hhead'.apart htail (Nat.le_of_lt hpos) hc hb).symm

/-- A block the allocator returns lies inside the arena, apart from every live
block, and the layout goes on with it. -/
theorem Layout.alloc {alloc alloc' : Alloc} {live : List Block} (h : Layout alloc live)
    {p size : Nat} (hsize : 0 < size) (hp : aggregateAlloc alloc size = some (p, alloc')) :
    Layout alloc' (live ++ [(p, size)]) := by
  unfold aggregateAlloc at hp
  cases h with
  | straight hlast hlive hpos =>
      -- `last ≤ pos` is how the source tells this layout from the other
      have hle := hlive.le
      rw [if_pos hle] at hp
      split at hp
      · -- the room behind `pos`
        cases hp
        exact .straight hlast (hlive.snoc hsize) (by simp only; omega)
      · split at hp
        · -- wrap: the room between `start` and `last`
          cases hp
          exact .wrapped live [(alloc.start, size)] alloc.pos rfl (by simp) (by simp only; omega)
            hlive hpos ⟨rfl, hsize, rfl⟩
        · cases hp
  | wrapped tail head tailEnd hlive hhead hpos htail htailEnd hhead' =>
      rw [if_neg (by omega)] at hp
      split at hp
      · -- the room between `pos` and `last`
        cases hp
        refine .wrapped tail (head ++ [(alloc.pos, size)]) tailEnd ?_ (by simp)
          (by simp only; omega) htail htailEnd (hhead'.snoc hsize)
        rw [hlive, List.append_assoc]
      · cases hp

/-- Giving the oldest block back keeps the layout of the others. -/
theorem Layout.free {alloc : Alloc} {p size : Nat} {live : List Block}
    (h : Layout alloc ((p, size) :: live)) : Layout (aggregateFree alloc p size) live := by
  cases h with
  | straight hlast hlive hpos =>
      rcases hlive with ⟨hp, hsize, hrest⟩
      simp only at hp hsize hrest
      -- the oldest block starts at `last`, so the reset to `start` changes nothing
      have hfree : (aggregateFree alloc p size).last = alloc.last + size := by
        unfold aggregateFree
        split
        · simp only
          omega
        · rfl
      exact .straight (by rw [hfree]; simp only [aggregateFree_start]; omega)
        (by rw [hfree]; simpa using hrest) (by simpa using hpos)
  | wrapped tail head tailEnd hlive hhead hpos htail htailEnd hhead' =>
      have hstart := hhead'.le
      cases tail with
      | nil =>
          -- the tail is used up: the oldest block is the one at `start`
          rw [List.nil_append] at hlive
          subst hlive
          rcases hhead' with ⟨hp, hsize, hrest⟩
          simp only at hp hsize hrest
          have hfree : (aggregateFree alloc p size).last = alloc.start + size := by
            simp [aggregateFree, hp]
          have hend := htail.le
          exact .straight (by rw [hfree]; simp) (by rw [hfree]; simpa using hrest)
            (by simp only [aggregateFree_pos, aggregateFree_stop]; omega)
      | cons b tail =>
          -- the oldest block is in the tail, behind `start`
          rw [List.cons_append, List.cons.injEq] at hlive
          rcases hlive with ⟨rfl, rfl⟩
          rcases htail with ⟨hp, hsize, hrest⟩
          simp only at hp hsize hrest
          have hne : p ≠ alloc.start := by omega
          have hfree : (aggregateFree alloc p size).last = alloc.last + size := by
            simp [aggregateFree, hne]
          exact .wrapped tail head tailEnd rfl hhead
            (by rw [hfree]; simp only [aggregateFree_pos]; omega)
            (by rw [hfree]; exact hrest) (by simpa using htailEnd) (by simpa using hhead')

/-- The block that comes last in a layout is apart from those before it. -/
theorem Layout.apart_last {alloc : Alloc} {live : List Block} {b : Block}
    (h : Layout alloc (live ++ [b])) {c : Block} (hc : c ∈ live) : Apart b c := by
  have hpairs := (List.pairwise_append.mp h.pairwise).2.2
  exact (hpairs c hc b (by simp)).symm

/-! ## Runs of the allocator -/

/-- A call of the allocator: a block of some size, or the oldest live block given
back. -/
inductive RingCall where
  | alloc (size : Nat)
  | free
deriving DecidableEq, Repr

/-- The cursors and the live blocks, oldest first. -/
structure Ring where
  alloc : Alloc
  live : List Block
deriving DecidableEq, Repr

def Ring.init (start size : Nat) : Ring := { alloc := Alloc.init start size, live := [] }

def Ring.step (r : Ring) : RingCall → Ring
  | .alloc size =>
    match aggregateAlloc r.alloc size with
    | some (p, alloc) => { alloc := alloc, live := r.live ++ [(p, size)] }
    | none => r
  | .free =>
    match r.live with
    | [] => r
    | b :: live => { alloc := aggregateFree r.alloc b.1 b.2, live := live }

theorem aggregateAlloc_bounds {alloc alloc' : Alloc} {size p : Nat}
    (h : aggregateAlloc alloc size = some (p, alloc')) :
    alloc'.start = alloc.start ∧ alloc'.stop = alloc.stop := by
  unfold aggregateAlloc at h
  split at h <;> split at h
  · cases h
    exact ⟨rfl, rfl⟩
  · split at h <;> cases h
    exact ⟨rfl, rfl⟩
  · cases h
    exact ⟨rfl, rfl⟩
  · cases h

/-- What every call keeps: the layout and the ends of the arena. -/
def Ring.Inv (start size : Nat) (r : Ring) : Prop :=
  Layout r.alloc r.live ∧ r.alloc.start = start ∧ r.alloc.stop = start + size

theorem Ring.step_inv {start size : Nat} (r : Ring) (call : RingCall)
    (hcall : ∀ n, call = .alloc n → 0 < n) (h : r.Inv start size) :
    (r.step call).Inv start size := by
  rcases h with ⟨hlayout, hstart, hstop⟩
  cases call with
  | alloc n =>
      cases hp : aggregateAlloc r.alloc n with
      | none =>
          -- no room, and nothing changes
          have hstep : r.step (.alloc n) = r := by simp only [Ring.step, hp]
          rw [hstep]
          exact ⟨hlayout, hstart, hstop⟩
      | some res =>
          rcases res with ⟨p, alloc⟩
          have hstep : r.step (.alloc n) = { alloc := alloc, live := r.live ++ [(p, n)] } := by
            simp only [Ring.step, hp]
          rcases aggregateAlloc_bounds hp with ⟨hstart', hstop'⟩
          rw [hstep]
          exact ⟨hlayout.alloc (hcall n rfl) hp, hstart'.trans hstart, hstop'.trans hstop⟩
  | free =>
      cases hlive : r.live with
      | nil =>
          have hstep : r.step .free = r := by simp only [Ring.step, hlive]
          rw [hstep]
          exact ⟨hlayout, hstart, hstop⟩
      | cons b live =>
          -- the oldest block is given back
          have hstep : r.step .free =
              { alloc := aggregateFree r.alloc b.1 b.2, live := live } := by
            simp only [Ring.step, hlive]
          rw [hlive] at hlayout
          rw [hstep]
          exact ⟨hlayout.free, by simpa using hstart, by simpa using hstop⟩

theorem Ring.run_inv (start arena : Nat) {calls : List RingCall}
    (hcalls : ∀ n, .alloc n ∈ calls → 0 < n) :
    (Run.exec Ring.step (Ring.init start arena) calls).Inv start arena := by
  have hmeets : Run.Meets Ring.step (fun _ call => ∀ n, call = .alloc n → 0 < n)
      (Ring.init start arena) calls := by
    refine Run.meets_of_forall ?_ _
    intro call hmem _ n hn
    exact hcalls n (hn ▸ hmem)
  exact Run.exec_invariant_of_meets (fun r call hcall h => r.step_inv call hcall h)
    ⟨layout_init start arena, rfl, rfl⟩ hmeets

/-- After any calls, a returned block lies inside the arena and has no address in
common with a block still live. -/
theorem aggregateAlloc_safe (start arena : Nat) {calls : List RingCall}
    (hcalls : ∀ n, .alloc n ∈ calls → 0 < n) {size p : Nat} {alloc : Alloc} (hsize : 0 < size)
    (hp : aggregateAlloc (Run.exec Ring.step (Ring.init start arena) calls).alloc size =
      some (p, alloc)) :
    start ≤ p ∧ p + size ≤ start + arena ∧
      ∀ b ∈ (Run.exec Ring.step (Ring.init start arena) calls).live, Apart (p, size) b := by
  rcases Ring.run_inv start arena hcalls with ⟨hlayout, hstart, hstop⟩
  -- the layout with the new block says all three things
  have hnext := hlayout.alloc hsize hp
  have hends := aggregateAlloc_bounds hp
  have hmem := hnext.mem (b := (p, size)) (by simp)
  simp only at hmem
  exact ⟨by omega, by omega, fun b hb => hnext.apart_last hb⟩

/-- A wrap: the third block goes to the start of the arena, below the second. -/
theorem aggregateAlloc_safe_wrap :
    0 ≤ 0 ∧ 0 + 30 ≤ 0 + 100 ∧
      ∀ b ∈ (Run.exec Ring.step (Ring.init 0 100) [.alloc 40, .alloc 40, .free]).live,
        Apart (0, 30) b :=
  aggregateAlloc_safe 0 100 (by intro n hn; simp at hn; omega) (by decide) rfl

end StatsHouse
