import Mathlib.Data.List.Pairwise
import StatsHouse.Aggregate

/-! # Live records

The queue holds the addresses of the live records. Three invariants say what the
arena, the tree and the sizes have to do with it:

* `Aggregate.Live`: the blocks of the queued records are those the allocator
  holds to be in use, so they are apart and a new record overwrites none.
* `Aggregate.Indexed`: the tree holds exactly the queued records that are not
  retired, which are those with a key other than 0.
* `Sized`: each queued record has the room its stat and its slots need, so that
  what is written into it stays in its block.

They need that no stat hashes to 0 and that no size wraps. A change of one record
then leaves the others as they are (`Aggregate.Changed`), and `aggregate_rule_inv`
is the rule of a call that says so.
-/

namespace StatsHouse

open Tiling

variable {V σ : Type}

/-- The blocks of the queued records. -/
def Aggregate.blocks (a : Aggregate V) : List Block := a.queue.map fun p => (p, (a.mem p).size)

/-- The stats of the queued records. -/
def Aggregate.stats (a : Aggregate V) : List (Stat V) := a.queue.map fun p => (a.mem p).stat

/-- The blocks of the queued records are those in use. -/
def Aggregate.Live (a : Aggregate V) : Prop := Layout a.alloc a.blocks

/-- The tree holds exactly the queued records that are not retired. -/
structure Aggregate.Indexed (a : Aggregate V) : Prop where
  nodup : a.rbtree.toList.Nodup
  mem_iff : ∀ p, p ∈ a.rbtree.toList ↔ p ∈ a.queue ∧ (a.mem p).retired = false
  key_iff : ∀ p ∈ a.queue, (a.mem p).key = 0 ↔ (a.mem p).retired = true

/-- The record has the size of its stat, and no more values than it has slots. -/
structure Sized (conf : AggregateConf) (r : AStat V) : Prop where
  size : r.size = recordSize conf.values r.stat
  slots : r.stat.values.length ≤ valueSlots conf.values r.stat.type

structure Aggregate.Inv (conf : AggregateConf) (a : Aggregate V) : Prop where
  live : a.Live
  indexed : a.Indexed
  sized : ∀ p ∈ a.queue, Sized conf (a.mem p)

theorem aggregateInit_live (env : Env V) (start size : Nat) :
    (aggregateInit env start size).Live := layout_init start size

theorem aggregateInit_inv (env : Env V) (conf : AggregateConf) (start size : Nat) :
    (aggregateInit env start size).Inv conf :=
  ⟨aggregateInit_live env start size,
    ⟨List.nodup_nil, by simp [aggregateInit], by simp [aggregateInit]⟩, by simp [aggregateInit]⟩

/-! ## Sizes -/

section Sized

variable {conf : AggregateConf} {r : AStat V}

/-- The values and the key values fill the block at most. -/
theorem Sized.fits (h : Sized conf r) : r.Fits := by
  have hroom := slots_le_recordSize conf.values r.stat
  have hslots := h.slots
  unfold AStat.Fits
  rw [h.size]
  simp only [sizeofStatValue] at hroom ⊢
  omega

theorem AStat.Fits.extent_eq (h : r.Fits) : r.extent = r.size := by
  unfold AStat.Fits at h
  exact Nat.max_eq_left (by omega)

theorem Sized.extent_eq (h : Sized conf r) : r.extent = r.size := h.fits.extent_eq

theorem Sized.header_le (h : Sized conf r) : sizeofAggregateStat ≤ r.size := by
  rw [h.size]
  exact sizeof_le_recordSize _ _

/-- A counter is added where it stands. -/
theorem Sized.addCounter [Inhabited V] [Add V] (h : Sized conf r) (htype : r.stat.type = .counter)
    (counter : V) : Sized conf (r.addCounter counter) := by
  have hslots := h.slots
  rw [valueSlots, if_pos htype] at hslots
  constructor
  · exact h.size
  · show _ ≤ valueSlots conf.values r.stat.type
    rw [valueSlots, if_pos htype]
    simp only [AStat.addCounter, List.length_cons, List.length_tail]
    omega

/-- A value is appended while there is a slot left. -/
theorem Sized.appendValue (h : Sized conf r) (htype : r.stat.type ≠ .counter)
    (hroom : r.stat.values.length < conf.values) (value : V) :
    Sized conf (r.appendValue value) := by
  constructor
  · exact h.size
  · show _ ≤ valueSlots conf.values r.stat.type
    rw [valueSlots, if_neg htype]
    simp only [AStat.appendValue, List.length_append, List.length_singleton]
    exact hroom

theorem Sized.retire (h : Sized conf r) : Sized conf r.retire := ⟨h.size, h.slots⟩

/-- A new record has one value and the size its stat asks for. -/
theorem sized_newRecord [Inhabited V] {env : Env V} {exiting : Bool} {stat : Stat V}
    (hadm : Admitted conf exiting stat) (hreg : Regular env conf stat) (hash now : Nat) :
    Sized conf (newRecord stat hash (aggregateSize conf.values stat) now) := by
  constructor
  · exact aggregateSize_eq_recordSize hreg.2
  · show 1 ≤ valueSlots conf.values stat.type
    unfold valueSlots
    split_ifs with htype
    · exact Nat.le_refl 1
    · exact Nat.one_le_iff_ne_zero.mpr (hadm.1.resolve_left htype)

end Sized

/-! ## Blocks apart -/

theorem Aggregate.mem_blocks {a : Aggregate V} {p : Nat} (hp : p ∈ a.queue) :
    (p, (a.mem p).size) ∈ a.blocks := List.mem_map.mpr ⟨p, hp, rfl⟩

/-- No block is queued twice. -/
theorem Aggregate.Live.nodup {a : Aggregate V} (h : a.Live) : a.queue.Nodup := by
  have hapart : a.queue.Pairwise fun p q => Apart (p, (a.mem p).size) (q, (a.mem q).size) :=
    List.pairwise_map.mp h.pairwise
  apply hapart.imp_of_mem
  intro p q hp hq hpq
  have hsizep := (h.mem (mem_blocks hp)).2.2
  have hsizeq := (h.mem (mem_blocks hq)).2.2
  exact hpq.ne hsizep hsizeq

/-- The blocks of two queued records have no byte in common. -/
theorem Aggregate.Live.apart {a : Aggregate V} (h : a.Live) {p q : Nat} (hp : p ∈ a.queue)
    (hq : q ∈ a.queue) (hne : p ≠ q) : Apart (p, (a.mem p).size) (q, (a.mem q).size) := by
  have hsymm : Std.Symm fun p q => Apart (p, (a.mem p).size) (q, (a.mem q).size) :=
    ⟨fun _ _ hpq => hpq.symm⟩
  have hapart : a.queue.Pairwise fun p q => Apart (p, (a.mem p).size) (q, (a.mem q).size) :=
    List.pairwise_map.mp h.pairwise
  exact hapart.forall hp hq hne

section Insert

variable {env : Env V} {conf : AggregateConf} {a : Aggregate V} {alloc : Alloc} {p : Nat}
  {r : AStat V}

/-- A new block is apart from those of the queued records. -/
theorem Aggregate.Live.apart_new (h : a.Live) (hsize : 0 < r.size)
    (hp : aggregateAlloc a.alloc r.size = some (p, alloc)) {q : Nat} (hq : q ∈ a.queue) :
    q ≠ p ∧ Apart (p, r.size) (q, (a.mem q).size) := by
  have hapart := (h.alloc hsize hp).apart_last (mem_blocks hq)
  have hsizeq := (h.mem (mem_blocks hq)).2.2
  exact ⟨(hapart.ne hsize hsizeq).symm, hapart⟩

theorem Sized.size_pos (h : Sized conf r) : 0 < r.size := by
  have hoff := offsets
  have hheader := h.header_le
  omega

/-- The new record is read as it was written. -/
theorem Aggregate.insert_mem (hr : Sized conf r) : (a.insert env alloc p r).mem p = r := by
  simp [Aggregate.insert, store, hr.fits]

/-- A new record overwrites no queued one. -/
theorem Aggregate.Inv.insert_mem_old (h : a.Inv conf) (hr : Sized conf r)
    (hp : aggregateAlloc a.alloc r.size = some (p, alloc)) {q : Nat} (hq : q ∈ a.queue) :
    (a.insert env alloc p r).mem q = a.mem q := by
  rcases h.live.apart_new hr.size_pos hp hq with ⟨hne, hapart⟩
  simp [Aggregate.insert, store, hne, hr.extent_eq, (h.sized q hq).extent_eq, hapart]

/-- What is said of each queued record by its contents goes on, with the new one. -/
theorem Aggregate.Inv.map_insert {β : Type} (h : a.Inv conf) (hr : Sized conf r)
    (hp : aggregateAlloc a.alloc r.size = some (p, alloc)) (f : Nat → AStat V → β) :
    (a.insert env alloc p r).queue.map (fun q => f q ((a.insert env alloc p r).mem q)) =
      a.queue.map (fun q => f q (a.mem q)) ++ [f p r] := by
  rw [insert_queue, List.map_append, List.map_singleton, insert_mem hr]
  congr 1
  apply List.map_congr_left
  intro q hq
  rw [h.insert_mem_old hr hp hq]

/-- What holds of the queued records and of the new one. -/
theorem Aggregate.Inv.forall_insert {P : AStat V → Prop} (h : a.Inv conf) (hr : Sized conf r)
    (hp : aggregateAlloc a.alloc r.size = some (p, alloc)) (hall : ∀ q ∈ a.queue, P (a.mem q))
    (hnew : P r) :
    ∀ q ∈ (a.insert env alloc p r).queue, P ((a.insert env alloc p r).mem q) := by
  intro q hq
  rw [insert_queue, List.mem_append, List.mem_singleton] at hq
  rcases hq with hq | rfl
  · rw [h.insert_mem_old hr hp hq]
    exact hall q hq
  · rw [insert_mem hr]
    exact hnew

theorem Aggregate.Inv.insert_live (h : a.Inv conf) (hr : Sized conf r)
    (hp : aggregateAlloc a.alloc r.size = some (p, alloc)) : (a.insert env alloc p r).Live := by
  have hblocks : (a.insert env alloc p r).blocks = a.blocks ++ [(p, r.size)] :=
    h.map_insert hr hp fun q r => (q, r.size)
  show Layout alloc (a.insert env alloc p r).blocks
  rw [hblocks]
  exact h.live.alloc hr.size_pos hp

theorem Aggregate.Inv.insert (h : a.Inv conf) (hr : Sized conf r) (hkey : r.key ≠ 0)
    (hretired : r.retired = false) (hp : aggregateAlloc a.alloc r.size = some (p, alloc)) :
    (a.insert env alloc p r).Inv conf := by
  have hold : ∀ q ∈ a.queue, (a.insert env alloc p r).mem q = a.mem q :=
    fun q hq => h.insert_mem_old hr hp hq
  have hnew : p ∉ a.queue := fun hq => (h.live.apart_new hr.size_pos hp hq).1 rfl
  have htree : (a.insert env alloc p r).rbtree.toList.Perm (p :: a.rbtree.toList) :=
    env.rb.perm_insert _ _ _
  refine ⟨h.insert_live hr hp, ⟨?_, ?_, ?_⟩, h.forall_insert hr hp h.sized hr⟩
  · have hp' : p ∉ a.rbtree.toList := fun hq => hnew ((h.indexed.mem_iff p).mp hq).1
    exact htree.nodup_iff.mpr (List.nodup_cons.mpr ⟨hp', h.indexed.nodup⟩)
  · intro q
    rw [htree.mem_iff, List.mem_cons, h.indexed.mem_iff, insert_queue, List.mem_append,
      List.mem_singleton]
    constructor
    · rintro (rfl | ⟨hq, hret⟩)
      · -- the new node
        constructor
        · exact Or.inr rfl
        · rw [insert_mem hr]
          exact hretired
      · -- an old node, whose record is as before
        constructor
        · exact Or.inl hq
        · rw [hold q hq]
          exact hret
    · rintro ⟨hq | rfl, hret⟩
      · rw [hold q hq] at hret
        exact Or.inr ⟨hq, hret⟩
      · exact Or.inl rfl
  · exact h.forall_insert (P := fun r => r.key = 0 ↔ r.retired = true) hr hp h.indexed.key_iff
      (by simp [hkey, hretired])

end Insert

/-! ## Changes in place -/

/-- `b` has the record at `p` changed by `f`, and the other queued records as in `a`. -/
structure Aggregate.Changed (a b : Aggregate V) (p : Nat) (f : AStat V → AStat V) : Prop where
  mem_queue : p ∈ a.queue
  queue : b.queue = a.queue
  alloc : b.alloc = a.alloc
  timerEvent : b.timerEvent = a.timerEvent
  same : b.mem p = f (a.mem p)
  other : ∀ q ∈ a.queue, q ≠ p → b.mem q = a.mem q

section Changed

variable {a b : Aggregate V} {p : Nat} {f : AStat V → AStat V}

/-- What holds of the queued records goes on to hold, if the change keeps it. -/
theorem Aggregate.Changed.forall {P : AStat V → Prop} (h : a.Changed b p f)
    (hf : P (a.mem p) → P (f (a.mem p))) (hall : ∀ q ∈ a.queue, P (a.mem q)) :
    ∀ q ∈ b.queue, P (b.mem q) := by
  intro q hq
  rw [h.queue] at hq
  by_cases hqp : q = p
  · rw [hqp, h.same]
    exact hf (hall p h.mem_queue)
  · rw [h.other q hq hqp]
    exact hall q hq

/-- A change that keeps some part of each record keeps it of every queued one. -/
theorem Aggregate.Changed.part {β : Type} (h : a.Changed b p f) {g : AStat V → β}
    (hf : ∀ r, g (f r) = g r) {q : Nat} (hq : q ∈ a.queue) :
    g (b.mem q) = g (a.mem q) := by
  by_cases hqp : q = p
  · rw [hqp, h.same, hf]
  · rw [h.other q hq hqp]

/-- It keeps the list of these parts. -/
theorem Aggregate.Changed.map {β : Type} (h : a.Changed b p f) {g : Nat → AStat V → β}
    (hf : ∀ q r, g q (f r) = g q r) :
    b.queue.map (fun q => g q (b.mem q)) = a.queue.map fun q => g q (a.mem q) := by
  rw [h.queue]
  apply List.map_congr_left
  intro q hq
  exact h.part (hf q) hq

theorem Aggregate.Changed.blocks (h : a.Changed b p f) (hsize : ∀ r, (f r).size = r.size) :
    b.blocks = a.blocks :=
  h.map (g := fun q r => (q, r.size)) fun q r => by rw [hsize]

theorem Aggregate.Changed.live (h : a.Changed b p f) (hsize : ∀ r, (f r).size = r.size)
    (hlive : a.Live) : b.Live := by
  unfold Live
  rw [h.blocks hsize, h.alloc]
  exact hlive

/-- The stats of the queue when one of its records changes. -/
theorem Aggregate.Changed.stats (h : a.Changed b p f) (hlive : a.Live) :
    ∃ before after, a.stats = before ++ (a.mem p).stat :: after ∧
      b.stats = before ++ (f (a.mem p)).stat :: after := by
  rcases List.append_of_mem h.mem_queue with ⟨before, after, hqueue⟩
  -- no block is queued twice, so the change touches one entry only
  have hnodup := hlive.nodup
  rw [hqueue] at hnodup
  have hother : ∀ q ∈ before ++ after, q ≠ p := by
    have hcons := List.perm_middle.nodup_iff.mp hnodup
    intro q hq heq
    exact (List.nodup_cons.mp hcons).1 (heq ▸ hq)
  have hsame : ∀ qs : List Nat, (∀ q ∈ qs, q ∈ a.queue ∧ q ≠ p) →
      (qs.map fun q => (b.mem q).stat) = qs.map fun q => (a.mem q).stat := by
    intro qs hqs
    apply List.map_congr_left
    intro q hq
    rw [h.other q (hqs q hq).1 (hqs q hq).2]
  refine ⟨before.map fun q => (a.mem q).stat, after.map fun q => (a.mem q).stat, ?_⟩
  constructor
  · simp [Aggregate.stats, hqueue]
  · rw [Aggregate.stats, h.queue, hqueue, List.map_append, List.map_cons, h.same,
      hsame before fun q hq => ⟨by rw [hqueue]; simp [hq], hother q (by simp [hq])⟩,
      hsame after fun q hq => ⟨by rw [hqueue]; simp [hq], hother q (by simp [hq])⟩]

end Changed

section Steps

variable {env : Env V} {conf : AggregateConf} {a : Aggregate V} {p : Nat}

/-- Writes inside the block of a queued record change no other. -/
theorem Aggregate.Inv.changed_modify {f : AStat V → AStat V} {ws : List Block} (h : a.Inv conf)
    (hp : p ∈ a.queue) (hf : Sized conf (f (a.mem p)))
    (hws : ∀ w ∈ ws, p ≤ w.1 ∧ w.1 + w.2 ≤ p + (a.mem p).size) :
    a.Changed (a.modify env p ws f) p f := by
  refine ⟨hp, rfl, rfl, rfl, ?_, ?_⟩
  · simp [Aggregate.modify, store, hf.fits]
  · intro q hq hne
    have hblocks := h.live.apart hp hq hne.symm
    have hapart : ∀ w ∈ ws, Apart w (q, (a.mem q).extent) := by
      intro w hw
      have hin := hws w hw
      rw [(h.sized q hq).extent_eq]
      rcases hblocks with hle | hle
      · left
        simp only at hle ⊢
        omega
      · right
        simp only at hle ⊢
        omega
    simp only [Aggregate.modify, store, if_neg hne, if_pos hapart]

/-- Merging leaves the tree alone, and changes what only the record found reads. -/
theorem Aggregate.Inv.of_changed {b : Aggregate V} {f : AStat V → AStat V} (h : a.Inv conf)
    (hchanged : a.Changed b p f) (hrbtree : b.rbtree = a.rbtree)
    (hf : Sized conf (f (a.mem p))) (hsize : ∀ r, (f r).size = r.size)
    (hkey : ∀ r, (f r).key = r.key) (hretired : ∀ r, (f r).retired = r.retired) : b.Inv conf := by
  refine ⟨hchanged.live hsize h.live, ⟨?_, ?_, ?_⟩, hchanged.forall (fun _ => hf) h.sized⟩
  · rw [hrbtree]
    exact h.indexed.nodup
  · intro q
    rw [hrbtree, h.indexed.mem_iff, hchanged.queue]
    apply and_congr_right
    intro hq
    rw [hchanged.part hretired hq]
  · exact hchanged.forall (P := fun r => r.key = 0 ↔ r.retired = true)
      (fun hp => by rw [hkey, hretired]; exact hp) h.indexed.key_iff

/-- A counter is added in the first slot of its record. -/
theorem Aggregate.Inv.changed_addCounter [Inhabited V] [Add V] (h : a.Inv conf) (hp : p ∈ a.queue)
    (htype : (a.mem p).stat.type = .counter) (counter : V) :
    a.Changed (a.addCounter env p counter) p (·.addCounter counter) := by
  have hoff := offsets
  have hheader := (h.sized p hp).header_le
  apply h.changed_modify hp ((h.sized p hp).addCounter htype counter)
  intro w hw
  rw [List.mem_singleton.mp hw]
  simp only [valueBlock, sizeofStatValue]
  omega

/-- A value is appended in the next slot of its record, which is there. -/
theorem Aggregate.Inv.changed_appendValue (h : a.Inv conf) (hp : p ∈ a.queue)
    (htype : (a.mem p).stat.type ≠ .counter)
    (hroom : (a.mem p).stat.values.length < conf.values) (value : V) :
    a.Changed (a.appendValue env p value) p (·.appendValue value) := by
  have hoff := offsets
  have hheader := (h.sized p hp).header_le
  have hsized := (h.sized p hp).appendValue htype hroom value
  -- the slot is the last of the record with the value in it
  have hfits := hsized.fits
  simp only [AStat.Fits, AStat.appendValue, List.length_append, List.length_singleton,
    sizeofStatValue] at hfits
  apply h.changed_modify hp hsized
  intro w hw
  rcases List.mem_cons.mp hw with rfl | hw
  · simp only [valueBlock, sizeofStatValue]
    omega
  · rw [List.mem_singleton.mp hw]
    simp only
    omega

/-- The key is cleared in the first word of the record. -/
theorem Aggregate.Inv.changed_retire (h : a.Inv conf) (hp : p ∈ a.queue) :
    a.Changed (a.retire env p) p (·.retire) := by
  have hoff := offsets
  have hheader := (h.sized p hp).header_le
  have hchanged : a.Changed (a.modify env p [(p, 8)] (·.retire)) p (·.retire) := by
    apply h.changed_modify hp (h.sized p hp).retire
    intro w hw
    rw [List.mem_singleton.mp hw]
    simp only
    omega
  exact ⟨hp, rfl, rfl, rfl, hchanged.same, hchanged.other⟩

/-- The timer matters to none of it. -/
theorem Aggregate.Inv.timerEvent (h : a.Inv conf) (ev : TimerEvent) :
    Aggregate.Inv conf { a with timerEvent := ev } :=
  ⟨h.live, ⟨h.indexed.nodup, h.indexed.mem_iff, h.indexed.key_iff⟩, h.sized⟩

theorem Aggregate.Inv.retire (h : a.Inv conf) (hp : p ∈ a.rbtree.toList) :
    (a.retire env p).Inv conf := by
  have hqueue := ((h.indexed.mem_iff p).mp hp).1
  have hchanged : a.Changed (a.retire env p) p (·.retire) := h.changed_retire hqueue
  have htree : (a.retire env p).rbtree.toList = a.rbtree.toList.erase p :=
    env.rb.toList_delete _ _ hp
  refine ⟨hchanged.live (fun _ => rfl) h.live, ⟨?_, ?_, ?_⟩,
    hchanged.forall (fun hr => hr.retire) h.sized⟩
  · rw [htree]
    exact h.indexed.nodup.erase p
  · intro q
    rw [htree, h.indexed.nodup.mem_erase_iff, h.indexed.mem_iff, hchanged.queue]
    by_cases hq : q = p
    · -- it stays in the queue, but with the mark
      subst hq
      simp [hchanged.same, AStat.retire]
    · constructor
      · rintro ⟨-, hqueue, hret⟩
        rw [hchanged.other q hqueue hq]
        exact ⟨hqueue, hret⟩
      · rintro ⟨hqueue, hret⟩
        rw [hchanged.other q hqueue hq] at hret
        exact ⟨hq, hqueue, hret⟩
  · exact hchanged.forall (P := fun r => r.key = 0 ↔ r.retired = true)
      (fun _ => by simp [AStat.retire]) h.indexed.key_iff

theorem Aggregate.Live.dropHead {rest : List Nat} (h : a.Live) (hqueue : a.queue = p :: rest) :
    (a.dropHead env p rest).Live := by
  have hlayout : Layout a.alloc ((p, (a.mem p).size) :: rest.map fun q => (q, (a.mem q).size)) := by
    have hblocks := h
    rw [Live, blocks, hqueue] at hblocks
    exact hblocks
  exact hlayout.free

theorem Aggregate.Inv.dropHead {rest : List Nat} (h : a.Inv conf)
    (hqueue : a.queue = p :: rest) : (a.dropHead env p rest).Inv conf := by
  have hnodup : p ∉ rest := by
    have hq := h.live.nodup
    rw [hqueue] at hq
    exact (List.nodup_cons.mp hq).1
  have hkey := h.indexed.key_iff p (by rw [hqueue]; simp)
  -- the head is in the tree exactly if it is not retired, and it is then deleted
  have htree : (a.dropHead env p rest).rbtree.toList = a.rbtree.toList.erase p := by
    by_cases hret : (a.mem p).retired = true
    · have hp : p ∉ a.rbtree.toList := fun hp => by
        have hopen := ((h.indexed.mem_iff p).mp hp).2
        rw [hret] at hopen
        cases hopen
      simp [Aggregate.dropHead, hkey.mpr hret, List.erase_of_not_mem hp]
    · have hp : p ∈ a.rbtree.toList := by
        rw [h.indexed.mem_iff, hqueue]
        constructor
        · simp
        · simpa using hret
      have hne : (a.mem p).key ≠ 0 := fun h0 => hret (hkey.mp h0)
      simp only [Aggregate.dropHead, if_pos hne]
      exact env.rb.toList_delete _ _ hp
  have hrest : ∀ q ∈ rest, q ∈ a.queue := by
    intro q hq
    rw [hqueue]
    exact List.mem_cons_of_mem _ hq
  refine ⟨h.live.dropHead hqueue, ⟨?_, ?_, ?_⟩, fun q hq => h.sized q (hrest q hq)⟩
  · rw [htree]
    exact h.indexed.nodup.erase p
  · intro q
    rw [htree, h.indexed.nodup.mem_erase_iff, h.indexed.mem_iff, hqueue, List.mem_cons]
    constructor
    · rintro ⟨hne, hq | hq, hret⟩
      · -- the head itself has just been deleted
        exact absurd hq hne
      · exact ⟨hq, hret⟩
    · rintro ⟨hq, hret⟩
      exact ⟨fun heq => hnodup (heq ▸ hq), Or.inr hq, hret⟩
  · exact fun q hq => h.indexed.key_iff q (hrest q hq)

end Steps

/-! ## The stats of the queue -/

theorem Aggregate.stats_dropHead {env : Env V} {a : Aggregate V} {p : Nat} {rest : List Nat}
    (hqueue : a.queue = p :: rest) :
    a.stats = (a.mem p).stat :: (a.dropHead env p rest).stats := by
  simp [stats, hqueue]

/-! ## The rules under the invariant -/

/-- What a lookup finds is a queued record that is not retired. -/
theorem Aggregate.Inv.of_found {env : Env V} {conf : AggregateConf} {a : Aggregate V}
    {stat : Stat V} {p : Nat} (h : a.Inv conf) (hp : Found env conf a stat p) :
    p ∈ a.queue ∧ (a.mem p).retired = false := by
  exact (h.indexed.mem_iff p).mp (of_aggregateLookup hp).1

section Rules

variable {env : Env V} {conf : AggregateConf} {handler : Handler V σ} {exiting : Bool}
  {now : Nat} {P : Aggregate V → σ → Prop} {Q : Rc → Aggregate V → σ → Prop}

theorem Aggregate.Inv.process {a : Aggregate V} (h : a.Inv conf) (ctx : σ) :
    (aggregateProcess env conf handler exiting now a ctx).2.1.Inv conf := by
  refine aggregateProcess_rule (K := fun a _ => a.Inv conf) ?_ ?_ h
  · intro a ctx p rest h hqueue _
    exact h.dropHead hqueue
  · intro a ctx h
    exact h

theorem aggregateProcess_rule_inv
    (hdrop : ∀ a ctx p rest, a.Inv conf → P a ctx → a.queue = p :: rest →
      Expired conf exiting now (a.mem p) →
      P (a.dropHead env p rest) (handler (some (a.mem p).stat) ctx).2)
    (hnull : ∀ a ctx, P a ctx → P a (handler none ctx).2)
    {a : Aggregate V} {ctx : σ} (hinv : a.Inv conf) (h : P a ctx) :
    Post (fun _ a ctx => a.Inv conf ∧ P a ctx)
      (aggregateProcess env conf handler exiting now a ctx) := by
  refine aggregateProcess_rule ?_ ?_ ⟨hinv, h⟩
  · rintro a ctx p rest ⟨hinv, h⟩ hqueue hexpired
    exact ⟨hinv.dropHead hqueue, hdrop a ctx p rest hinv h hqueue hexpired⟩
  · rintro a ctx ⟨hinv, h⟩
    exact ⟨hinv, hnull a ctx h⟩

/-- As `aggregate_rule`, for a stat whose hash and size are what they are used for: a merge
changes the record found and no other, and a new record has the size of its stat. -/
theorem aggregate_rule_inv [Inhabited V] [Add V] {stat : Stat V} {a : Aggregate V} {ctx : σ}
    (hregular : Admitted conf exiting stat → Regular env conf stat) (hinv : a.Inv conf)
    (hdecline : Q .declined a ctx)
    (hcounter : Admitted conf exiting stat → ∀ p, Found env conf a stat p →
      stat.type = .counter →
      a.Changed (a.addCounter env p stat.value0) p (·.addCounter stat.value0) →
      Q .ok (a.addCounter env p stat.value0) ctx)
    (happend : Admitted conf exiting stat → ∀ p, Found env conf a stat p →
      stat.type ≠ .counter → (a.mem p).stat.values.length < conf.values →
      a.Changed (a.appendValue env p stat.value0) p (·.appendValue stat.value0) →
      Q .ok (a.appendValue env p stat.value0) ctx)
    (hretire : Admitted conf exiting stat → ∀ p, Found env conf a stat p →
      stat.type ≠ .counter → conf.values ≤ (a.mem p).stat.values.length →
      a.Changed (a.retire env p) p (·.retire) → P (a.retire env p) ctx)
    (hnone : Admitted conf exiting stat → (∀ p, ¬ Found env conf a stat p) → P a ctx)
    (hdrop : ∀ a ctx p rest, a.Inv conf → P a ctx → a.queue = p :: rest →
      Expired conf exiting now (a.mem p) →
      P (a.dropHead env p rest) (handler (some (a.mem p).stat) ctx).2)
    (hnull : ∀ a ctx, P a ctx → P a (handler none ctx).2)
    (hfail : ∀ rc a ctx, rc ≠ .ok → P a ctx → Q rc a ctx)
    (hinsert : ∀ a ctx p alloc r, Admitted conf exiting stat → a.Inv conf → P a ctx →
      r = newRecord stat (aggregateHash env.crc stat) (aggregateSize conf.values stat) now →
      Sized conf r → aggregateAlloc a.alloc r.size = some (p, alloc) →
      Q .ok (aggregateTimer conf now (a.insert env alloc p r)) ctx) :
    Post (fun rc a ctx => a.Inv conf ∧ Q rc a ctx)
      (aggregate env conf handler exiting stat now a ctx) := by
  refine aggregate_rule (K := fun a ctx => a.Inv conf ∧ P a ctx) ?_ ?_ ?_ ?_ ?_ ?_ ?_ ?_ ?_
  · exact ⟨hinv, hdecline⟩
  · -- a counter is added in place
    intro hadm p hp htype
    have hrecord := (of_aggregateLookup hp).2.2.2.trans htype
    have hqueue := (hinv.of_found hp).1
    have hchanged : a.Changed (a.addCounter env p stat.value0) p (·.addCounter stat.value0) :=
      hinv.changed_addCounter hqueue hrecord _
    constructor
    · exact hinv.of_changed hchanged rfl ((hinv.sized p hqueue).addCounter hrecord _)
        (fun _ => rfl) (fun _ => rfl) fun _ => rfl
    · exact hcounter hadm p hp htype hchanged
  · -- a value is appended in place
    intro hadm p hp htype hroom
    have hrecord := fun hc => htype ((of_aggregateLookup hp).2.2.2.symm.trans hc)
    have hqueue := (hinv.of_found hp).1
    have hchanged : a.Changed (a.appendValue env p stat.value0) p (·.appendValue stat.value0) :=
      hinv.changed_appendValue hqueue hrecord hroom _
    constructor
    · exact hinv.of_changed hchanged rfl ((hinv.sized p hqueue).appendValue hrecord hroom _)
        (fun _ => rfl) (fun _ => rfl) fun _ => rfl
    · exact happend hadm p hp htype hroom hchanged
  · -- a full record is taken out of the tree
    intro hadm p hp htype hfull
    constructor
    · exact hinv.retire (of_aggregateLookup hp).1
    · exact hretire hadm p hp htype hfull (hinv.changed_retire (hinv.of_found hp).1)
  · intro hadm hnot
    exact ⟨hinv, hnone hadm hnot⟩
  · -- an expired head is handed over while a record is created
    rintro a ctx p rest ⟨hinv, h⟩ hqueue hexpired
    constructor
    · exact hinv.dropHead hqueue
    · exact hdrop a ctx p rest hinv h hqueue hexpired
  · rintro a ctx ⟨hinv, h⟩
    exact ⟨hinv, hnull a ctx h⟩
  · rintro rc a ctx hrc ⟨hinv, h⟩
    exact ⟨hinv, hfail rc a ctx hrc h⟩
  · -- the new record, after which only the timer changes
    rintro hadm a ctx p alloc ⟨hinv, h⟩ hp
    have hsized := sized_newRecord hadm (hregular hadm) (aggregateHash env.crc stat) now
    constructor
    · obtain ⟨ev, hev⟩ := aggregateTimer_eq conf now (a.insert env alloc p
        (newRecord stat (aggregateHash env.crc stat) (aggregateSize conf.values stat) now))
      rw [hev]
      exact (hinv.insert hsized (hregular hadm).1 rfl hp).timerEvent ev
    · exact hinsert a ctx p alloc _ hadm hinv h rfl hsized hp

/-- A call keeps the invariant. -/
theorem Aggregate.Inv.aggregate [Inhabited V] [Add V] {stat : Stat V} {a : Aggregate V}
    (h : a.Inv conf) (hregular : Admitted conf exiting stat → Regular env conf stat) (ctx : σ) :
    (aggregate env conf handler exiting stat now a ctx).2.1.Inv conf := by
  -- the rule carries the invariant; there is nothing else to keep
  refine (aggregate_rule_inv (P := fun _ _ => True) (Q := fun _ _ _ => True) hregular h
    trivial ?_ ?_ ?_ ?_ ?_ ?_ ?_ ?_).1
  all_goals
    intros
    trivial

/-- A property of the aggregator alone that every small step at the time `now` keeps. -/
structure Kept (env : Env V) (conf : AggregateConf) (now : Nat) (I : Aggregate V → Prop) :
    Prop where
  change : ∀ a b p f, I a → a.Changed b p f → (∀ r : AStat V, (f r).size = r.size) →
    (∀ r, (f r).time = r.time) → I b
  dropHead : ∀ a p rest, I a → a.queue = p :: rest → I (a.dropHead env p rest)
  insert : ∀ a p alloc r, a.Inv conf → I a → Sized conf r → r.time = now →
    aggregateAlloc a.alloc r.size = some (p, alloc) → I (a.insert env alloc p r)
  timer : ∀ a, I a → I (aggregateTimer conf now a)

variable {I : Aggregate V → Prop} {a : Aggregate V}

theorem Kept.process (hkept : Kept env conf now I) (h : I a) (ctx : σ) :
    I (aggregateProcess env conf handler exiting now a ctx).2.1 := by
  refine aggregateProcess_rule (K := fun a _ => I a) ?_ ?_ h
  · intro a ctx p rest h hqueue _
    exact hkept.dropHead a p rest h hqueue
  · intro a ctx h
    exact h

theorem Kept.aggregate [Inhabited V] [Add V] {stat : Stat V} (hkept : Kept env conf now I)
    (hregular : Admitted conf exiting stat → Regular env conf stat) (hinv : a.Inv conf) (h : I a)
    (ctx : σ) : I (aggregate env conf handler exiting stat now a ctx).2.1 := by
  refine (aggregate_rule_inv (P := fun a _ => I a) (Q := fun _ a _ => I a) hregular hinv h
    ?_ ?_ ?_ ?_ ?_ ?_ ?_ ?_).2
  · intro _ p _ _ hchanged
    exact hkept.change _ _ p _ h hchanged (fun _ => rfl) fun _ => rfl
  · intro _ p _ _ _ hchanged
    exact hkept.change _ _ p _ h hchanged (fun _ => rfl) fun _ => rfl
  · intro _ p _ _ _ hchanged
    exact hkept.change _ _ p _ h hchanged (fun _ => rfl) fun _ => rfl
  · intro _ _
    exact h
  · intro a ctx p rest _ h hqueue _
    exact hkept.dropHead a p rest h hqueue
  · intro a ctx h
    exact h
  · intro rc a ctx _ h
    exact h
  · -- the new record, and then the timer
    intro a ctx p alloc r _ hinv h hr hsized hp
    exact hkept.timer _ (hkept.insert a p alloc r hinv h hsized (by rw [hr]; rfl) hp)

end Rules

end StatsHouse
