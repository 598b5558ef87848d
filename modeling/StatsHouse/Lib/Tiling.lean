import Mathlib.Algebra.BigOperators.Group.List.Basic
import Mathlib.Algebra.Ring.Nat
import Mathlib.Data.List.Basic

/-! # Blocks laid end to end

A block is a pair of a first address and a size. `Tiles lo hi bs` says that the
blocks `bs` cover the addresses from `lo` to `hi` in order and without gaps. It
is the shape of a queue of blocks in an arena, and it gives disjointness of the
blocks without any arithmetic at the place of use.
-/

namespace Tiling

/-- A first address and a size. -/
abbrev Block := Nat × Nat

/-- Two blocks with no address in common. -/
def Apart (b c : Block) : Prop := b.1 + b.2 ≤ c.1 ∨ c.1 + c.2 ≤ b.1

instance : DecidableRel Apart := fun _ _ => inferInstanceAs (Decidable (_ ∨ _))

/-- The blocks cover `lo` to `hi` in order and without gaps. -/
def Tiles (lo hi : Nat) : List Block → Prop
  | [] => lo = hi
  | b :: bs => b.1 = lo ∧ 0 < b.2 ∧ Tiles (lo + b.2) hi bs

theorem Apart.symm {b c : Block} (h : Apart b c) : Apart c b := Or.symm h

/-- Non-empty blocks that are apart start at different addresses. -/
theorem Apart.ne {b c : Block} (h : Apart b c) (hb : 0 < b.2) (hc : 0 < c.2) : b.1 ≠ c.1 := by
  rcases h with h | h <;> omega

theorem Tiles.le {lo hi : Nat} {bs : List Block} (h : Tiles lo hi bs) : lo ≤ hi := by
  induction bs generalizing lo with
  | nil => exact Nat.le_of_eq h
  | cons b bs ih =>
      have hle := ih h.2.2
      omega

/-- A block of a tiling lies between its ends. -/
theorem Tiles.mem {lo hi : Nat} {bs : List Block} (h : Tiles lo hi bs) {b : Block}
    (hb : b ∈ bs) : lo ≤ b.1 ∧ b.1 + b.2 ≤ hi ∧ 0 < b.2 := by
  induction bs generalizing lo with
  | nil => simp at hb
  | cons c bs ih =>
      rcases h with ⟨hc, hpos, hbs⟩
      rcases List.mem_cons.mp hb with rfl | hb
      · have hle := hbs.le
        omega
      · have hmem := ih hbs hb
        omega

/-- A block added at the end. -/
theorem Tiles.snoc {lo hi n : Nat} {bs : List Block} (h : Tiles lo hi bs) (hn : 0 < n) :
    Tiles lo (hi + n) (bs ++ [(hi, n)]) := by
  induction bs generalizing lo with
  | nil =>
      have hlo : lo = hi := h
      exact ⟨hlo.symm, hn, by rw [hlo]; rfl⟩
  | cons b bs ih => exact ⟨h.1, h.2.1, ih h.2.2⟩

/-- The blocks of a tiling are pairwise apart. -/
theorem Tiles.pairwise {lo hi : Nat} {bs : List Block} (h : Tiles lo hi bs) :
    bs.Pairwise Apart := by
  induction bs generalizing lo with
  | nil => exact List.Pairwise.nil
  | cons b bs ih =>
      refine List.Pairwise.cons ?_ (ih h.2.2)
      intro c hc
      have hmem := h.2.2.mem hc
      have hb := h.1
      left
      omega

/-! ## Blocks of given sizes -/

/-- Blocks of the given sizes, one behind the other from `lo` on. A size may be 0. -/
def laid (lo : Nat) : List Nat → List Block
  | [] => []
  | n :: ns => (lo, n) :: laid (lo + n) ns

@[simp] theorem length_laid (lo : Nat) (ns : List Nat) : (laid lo ns).length = ns.length := by
  induction ns generalizing lo with
  | nil => rfl
  | cons n ns ih => rw [laid, List.length_cons, ih, List.length_cons]

theorem laid_append (lo : Nat) (ns ms : List Nat) :
    laid lo (ns ++ ms) = laid lo ns ++ laid (lo + ns.sum) ms := by
  induction ns generalizing lo with
  | nil => simp [laid]
  | cons n ns ih => simp [laid, ih, Nat.add_assoc]

theorem mem_laid {lo : Nat} {ns : List Nat} {b : Block} (hb : b ∈ laid lo ns) :
    lo ≤ b.1 ∧ b.1 + b.2 ≤ lo + ns.sum := by
  induction ns generalizing lo with
  | nil => simp [laid] at hb
  | cons n ns ih =>
      rw [List.sum_cons]
      rcases List.mem_cons.mp hb with rfl | hb
      · simp only
        omega
      · have hmem := ih hb
        omega

theorem laid_pairwise (lo : Nat) (ns : List Nat) : (laid lo ns).Pairwise Apart := by
  induction ns generalizing lo with
  | nil => exact List.Pairwise.nil
  | cons n ns ih =>
      refine List.Pairwise.cons ?_ (ih _)
      intro c hc
      left
      exact (mem_laid hc).1

/-- The last block ends where the sizes say. -/
theorem laid_end {lo : Nat} {ns : List Nat} {i : Nat} {b : Block} (hi : i + 1 = ns.length)
    (hb : (laid lo ns)[i]? = some b) : b.1 + b.2 = lo + ns.sum := by
  induction ns generalizing lo i with
  | nil => simp at hi
  | cons n ns ih =>
      cases i with
      | zero =>
          have hns : ns = [] := List.length_eq_zero_iff.mp (by simpa using hi.symm)
          subst hns
          simp [laid] at hb
          simp [← hb]
      | succ i =>
          have hend := ih (by simpa using hi) (by simpa [laid] using hb)
          rw [hend, List.sum_cons, Nat.add_assoc]

/-- Blocks of two tilings, one behind the other, are apart. -/
theorem Tiles.apart {lo mid mid' hi : Nat} {bs cs : List Block} (hbs : Tiles lo mid bs)
    (hcs : Tiles mid' hi cs) (hmid : mid ≤ mid') {b c : Block} (hb : b ∈ bs) (hc : c ∈ cs) :
    Apart b c := by
  have hbmem := hbs.mem hb
  have hcmem := hcs.mem hc
  left
  omega

end Tiling
