import Mathlib.Data.List.Basic

/-! # One timer for a queue of deadlines

Entries join a queue at the time of the clock and are due an interval later. One
timer serves them all: `OnTime` says that it fires no later than any entry is
due. The timer need not be armed for the present head; one armed for a head that
has left fires earlier.
-/

namespace Deadline

/-- The entries joined in order, not after the clock, and the timer fires before
any of them, or one that joins now, is overdue. -/
structure OnTime (interval clock : Nat) (times : List Nat) (timer : Option Nat) : Prop where
  past : ∀ t ∈ times, t ≤ clock
  sorted : times.Pairwise (· ≤ ·)
  due : ∀ d, timer = some d → d ≤ clock + interval ∧ ∀ t ∈ times, d ≤ t + interval

variable {interval clock : Nat} {times : List Nat} {timer : Option Nat}

theorem onTime_nil (interval clock : Nat) : OnTime interval clock [] none :=
  ⟨by simp, List.Pairwise.nil, by simp⟩

/-- Time passes. -/
theorem OnTime.mono {clock' : Nat} (h : OnTime interval clock times timer)
    (hle : clock ≤ clock') : OnTime interval clock' times timer := by
  refine ⟨?_, h.sorted, ?_⟩
  · intro t ht
    exact Nat.le_trans (h.past t ht) hle
  · intro d hd
    have hdue := h.due d hd
    constructor
    · omega
    · exact hdue.2

/-- The head leaves. -/
theorem OnTime.tail {t : Nat} (h : OnTime interval clock (t :: times) timer) :
    OnTime interval clock times timer := by
  refine ⟨?_, (List.pairwise_cons.mp h.sorted).2, ?_⟩
  · intro u hu
    exact h.past u (List.mem_cons_of_mem _ hu)
  · intro d hd
    have hdue := h.due d hd
    exact ⟨hdue.1, fun u hu => hdue.2 u (List.mem_cons_of_mem _ hu)⟩

/-- An entry joins. -/
theorem OnTime.snoc (h : OnTime interval clock times timer) :
    OnTime interval clock (times ++ [clock]) timer := by
  refine ⟨?_, ?_, ?_⟩
  · intro t ht
    rcases List.mem_append.mp ht with ht | ht
    · exact h.past t ht
    · exact Nat.le_of_eq (List.mem_singleton.mp ht)
  · refine List.pairwise_append.mpr ⟨h.sorted, List.pairwise_singleton _ _, ?_⟩
    intro t ht u hu
    rw [List.mem_singleton.mp hu]
    exact h.past t ht
  · intro d hd
    have hdue := h.due d hd
    constructor
    · exact hdue.1
    · intro t ht
      rcases List.mem_append.mp ht with ht | ht
      · exact hdue.2 t ht
      · -- the new entry is due an interval from now, and the timer fires by then
        rw [List.mem_singleton.mp ht]
        exact hdue.1

/-- The timer is taken off. -/
theorem OnTime.disarm (h : OnTime interval clock times timer) :
    OnTime interval clock times none :=
  ⟨h.past, h.sorted, by simp⟩

/-- The timer is armed for the head. -/
theorem OnTime.arm {t : Nat} (h : OnTime interval clock (t :: times) timer) :
    OnTime interval clock (t :: times) (some (t + interval)) := by
  refine ⟨h.past, h.sorted, ?_⟩
  intro d hd
  cases hd
  have ht := h.past t (by simp)
  constructor
  · omega
  · intro u hu
    rcases List.mem_cons.mp hu with rfl | hu
    · exact Nat.le_refl _
    · -- the others joined after the head
      have htu := (List.pairwise_cons.mp h.sorted).1 u hu
      omega

/-! ## What is due -/

/-- Where an entry is due only if those before it are, the due ones are at the front. -/
theorem filter_due {α : Type*} {due : α → Bool} {entries : List α}
    (h : entries.Pairwise fun x y => due y = true → due x = true) :
    entries.takeWhile due = entries.filter due ∧
      entries.dropWhile due = entries.filter fun x => !due x := by
  induction entries with
  | nil => exact ⟨rfl, rfl⟩
  | cons x entries ih =>
      rcases List.pairwise_cons.mp h with ⟨hhead, hrest⟩
      rcases ih hrest with ⟨htake, hdrop⟩
      cases hx : due x with
      | true => simp [hx, htake, hdrop]
      | false =>
          -- the head is not due, so no other entry is
          have hnone : ∀ y ∈ entries, due y = false := by
            intro y hy
            cases hy' : due y with
            | false => rfl
            | true => exact absurd (hhead y hy hy') (by simp [hx])
          have hfilter : entries.filter due = [] :=
            List.filter_eq_nil_iff.mpr fun y hy => by simp [hnone y hy]
          have hothers : (entries.filter fun y => !due y) = entries :=
            List.filter_eq_self.mpr fun y hy => by simp [hnone y hy]
          simp [hx, hfilter, hothers]

end Deadline
