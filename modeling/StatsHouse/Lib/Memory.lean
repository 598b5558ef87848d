import Mathlib.Data.List.Basic
import Mathlib.Logic.Function.Basic
import StatsHouse.Lib.Tiling

/-! # Memory cell by cell

A memory gives the cell at each address and remembers which addresses were
written. Runs of cells are written and read from a first address on; a read gets
back what was written there last, and a write leaves alone what lies apart from
it.
-/

namespace Memory

open Tiling

variable {β : Type*}

/-- The cell at each address, and the addresses written so far, in order. -/
structure Mem (β : Type*) where
  cell : Nat → β
  writes : List Nat

/-- The cells `bs` written from `a` on. -/
def Mem.write (m : Mem β) (a : Nat) : List β → Mem β
  | [] => m
  | b :: bs =>
    Mem.write { cell := Function.update m.cell a b, writes := m.writes ++ [a] } (a + 1) bs

/-- The `n` cells from `a` on. -/
def Mem.read (m : Mem β) (a : Nat) : Nat → List β
  | 0 => []
  | n + 1 => m.cell a :: Mem.read m (a + 1) n

/-- Every write so far was between `lo` and `hi`. -/
def Mem.Within (m : Mem β) (lo hi : Nat) : Prop := ∀ a ∈ m.writes, lo ≤ a ∧ a < hi

@[simp] theorem Mem.length_read (m : Mem β) (a n : Nat) : (m.read a n).length = n := by
  induction n generalizing a with
  | zero => rfl
  | succ n ih => rw [read, List.length_cons, ih]

/-! ## In sequence -/

theorem Mem.write_append (m : Mem β) (a : Nat) (bs cs : List β) :
    m.write a (bs ++ cs) = (m.write a bs).write (a + bs.length) cs := by
  induction bs generalizing m a with
  | nil => rfl
  | cons b bs ih =>
      rw [List.cons_append, write, write, ih, List.length_cons, Nat.add_right_comm, Nat.add_assoc]

theorem Mem.read_add (m : Mem β) (a n k : Nat) :
    m.read a (n + k) = m.read a n ++ m.read (a + n) k := by
  induction n generalizing a with
  | zero => simp [read]
  | succ n ih =>
      rw [Nat.add_right_comm, read, read, ih, List.cons_append, Nat.add_right_comm, Nat.add_assoc]

theorem Mem.Within.write {m : Mem β} {lo hi : Nat} (h : m.Within lo hi) {a : Nat} {bs : List β}
    (hlo : lo ≤ a) (hhi : a + bs.length ≤ hi) : (m.write a bs).Within lo hi := by
  induction bs generalizing m a with
  | nil => exact h
  | cons b bs ih =>
      rw [List.length_cons] at hhi
      refine ih ?_ (by omega) (by omega)
      intro q hq
      rcases List.mem_append.mp hq with hq | hq
      · exact h q hq
      · -- the cell at `a` itself
        rw [List.mem_singleton.mp hq]
        omega

/-! ## Reads after writes -/

/-- A write changes no cell outside its block. -/
theorem Mem.cell_write {m : Mem β} {a q : Nat} {bs : List β} (h : q < a ∨ a + bs.length ≤ q) :
    (m.write a bs).cell q = m.cell q := by
  induction bs generalizing m a with
  | nil => rfl
  | cons b bs ih =>
      rw [List.length_cons] at h
      rw [write, ih (by omega)]
      exact Function.update_of_ne (by omega) _ _

theorem Mem.read_congr {m m' : Mem β} {a n : Nat}
    (h : ∀ q, a ≤ q → q < a + n → m.cell q = m'.cell q) : m.read a n = m'.read a n := by
  induction n generalizing a with
  | zero => rfl
  | succ n ih =>
      rw [read, read, h a (by omega) (by omega), ih fun q hq hq' => h q (by omega) (by omega)]

/-- A read apart from the write finds what was there. -/
theorem Mem.read_write_apart {m : Mem β} {a b n : Nat} {bs : List β}
    (h : Apart (a, n) (b, bs.length)) : (m.write b bs).read a n = m.read a n := by
  apply Mem.read_congr
  intro q hq hq'
  apply Mem.cell_write
  rcases h with h | h
  · left
    exact Nat.lt_of_lt_of_le hq' h
  · right
    exact Nat.le_trans h hq

/-- A read of the block written finds what was written. -/
theorem Mem.read_write_same (m : Mem β) (a : Nat) (bs : List β) :
    (m.write a bs).read a bs.length = bs := by
  induction bs generalizing m a with
  | nil => rfl
  | cons b bs ih =>
      rw [List.length_cons, read, write, ih, cell_write (Or.inl (Nat.lt_succ_self a))]
      simp

/-! ## Several pieces -/

/-- A first address and the cells from there on. -/
abbrev Piece (β : Type*) := Nat × List β

/-- Where a piece lies. -/
def block (w : Piece β) : Block := (w.1, w.2.length)

/-- The pieces written in order. -/
def Mem.writeAll (m : Mem β) : List (Piece β) → Mem β
  | [] => m
  | w :: ws => Mem.writeAll (m.write w.1 w.2) ws

/-- Each piece is found in its place. -/
def Mem.Holds (m : Mem β) (ws : List (Piece β)) : Prop := ∀ w ∈ ws, m.read w.1 w.2.length = w.2

theorem Mem.writeAll_append (m : Mem β) (ws ws' : List (Piece β)) :
    m.writeAll (ws ++ ws') = (m.writeAll ws).writeAll ws' := by
  induction ws generalizing m with
  | nil => rfl
  | cons w ws ih => exact ih _

theorem Mem.Holds.write {m : Mem β} {ws : List (Piece β)} (h : m.Holds ws) {a : Nat}
    {bs : List β} (hapart : ∀ w ∈ ws, Apart (block w) (a, bs.length)) :
    (m.write a bs).Holds ws := by
  intro w hw
  rw [read_write_apart (hapart w hw)]
  exact h w hw

/-- Pieces written apart from each other and from those already there. -/
theorem Mem.Holds.writeAll {m : Mem β} {ws ws' : List (Piece β)} (h : m.Holds ws)
    (hapart : (ws ++ ws').Pairwise fun w w' => Apart (block w) (block w')) :
    (m.writeAll ws').Holds (ws ++ ws') := by
  induction ws' generalizing m ws with
  | nil =>
      rw [List.append_nil]
      exact h
  | cons w ws' ih =>
      have hnext : (m.write w.1 w.2).Holds (ws ++ [w]) := by
        have hold := (List.pairwise_append.mp hapart).2.2
        intro v hv
        rcases List.mem_append.mp hv with hv | hv
        · exact h.write (fun u hu => hold u hu w (by simp)) v hv
        · rw [List.mem_singleton.mp hv]
          exact read_write_same m w.1 w.2
      have hrest : (ws ++ [w] ++ ws').Pairwise fun w w' => Apart (block w) (block w') := by
        rwa [List.append_assoc, List.singleton_append]
      have hall := ih hnext hrest
      rwa [List.append_assoc, List.singleton_append] at hall

/-- Pieces that lie apart are all found after they were written. -/
theorem Mem.holds_writeAll (m : Mem β) {ws : List (Piece β)}
    (hapart : ws.Pairwise fun w w' => Apart (block w) (block w')) : (m.writeAll ws).Holds ws := by
  have hnone : m.Holds [] := by
    intro w hw
    cases hw
  exact hnone.writeAll (by rwa [List.nil_append])

theorem Mem.Within.writeAll {m : Mem β} {lo hi : Nat} (h : m.Within lo hi) {ws : List (Piece β)}
    (hws : ∀ w ∈ ws, lo ≤ w.1 ∧ w.1 + w.2.length ≤ hi) : (m.writeAll ws).Within lo hi := by
  induction ws generalizing m with
  | nil => exact h
  | cons w ws ih =>
      have hw := hws w (by simp)
      exact ih (h.write hw.1 hw.2) fun v hv => hws v (by simp [hv])

end Memory
