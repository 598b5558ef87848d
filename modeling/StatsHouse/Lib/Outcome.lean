import Mathlib.Data.List.Basic
import StatsHouse.Lib.Run

/-! # Outcomes of programs that may stop early

A program either stops early or ends with a result. `Ends E Q` says that a result
meets `Q` and an early stop meets `E`: the postconditions of a Hoare triple whose
precondition is what stands in the context. The rules follow the program.
-/

namespace Outcome

variable {ε α β : Type}

/-- A result meets `Q`, an early stop meets `E`. -/
def Ends (E : ε → Prop) (Q : α → Prop) : Except ε α → Prop
  | .error e => E e
  | .ok a => Q a

variable {E : ε → Prop} {Q : α → Prop} {R : β → Prop} {x : Except ε α}

theorem ends_pure {a : α} (h : Q a) : Ends E Q (pure a : Except ε α) := h

theorem Ends.imp {Q' : α → Prop} (h : Ends E Q x) (hQ : ∀ a, Q a → Q' a) : Ends E Q' x := by
  cases x with
  | error e => exact h
  | ok a => exact hQ a h

theorem Ends.mono {E' : ε → Prop} {Q' : α → Prop} (h : Ends E Q x) (hE : ∀ e, E e → E' e)
    (hQ : ∀ a, Q a → Q' a) : Ends E' Q' x := by
  cases x with
  | error e => exact hE e h
  | ok a => exact hQ a h

/-- Programs in sequence. -/
theorem Ends.bind {f : α → Except ε β} (h : Ends E Q x) (hf : ∀ a, Q a → Ends E R (f a)) :
    Ends E R (x >>= f) := by
  cases x with
  | error e => exact h
  | ok a => exact hf a h

/-- What is known of a result. -/
theorem Ends.of_ok {a : α} (h : Ends E Q x) (hx : x = .ok a) : Q a := by
  rw [hx] at h
  exact h

theorem Ends.of_error {e : ε} (h : Ends E Q x) (hx : x = .error e) : E e := by
  rw [hx] at h
  exact h

/-- A loop that counts to `n`. -/
theorem Ends.count {f : α → Nat → Except ε α} {I : Nat → α → Prop} {n : Nat}
    (hstep : ∀ j < n, ∀ a, I j a → Ends E (I (j + 1)) (f a j)) {a : α} (h : I 0 a) :
    Ends E (I n) ((List.range n).foldlM f a) := by
  induction n with
  | zero => exact h
  | succ n ih =>
      rw [List.range_succ, List.foldlM_append]
      refine Ends.bind (ih fun j hj => hstep j (by omega)) fun b hb => ?_
      rw [List.foldlM_cons]
      exact Ends.bind (hstep n (Nat.lt_succ_self n) b hb) fun c hc => hc

/-- A loop that does what a step function does, on the elements that meet a condition. -/
theorem Ends.foldlM_exec {γ : Type} {f : α → γ → Except ε α} {step : β → γ → β} {ok : γ → Prop}
    {rel : α → β → Prop}
    (hstep : ∀ a b c, ok c → rel a b → Ends E (fun a' => rel a' (step b c)) (f a c)) {cs : List γ}
    (hcs : ∀ c ∈ cs, ok c) {a : α} {b : β} (h : rel a b) :
    Ends E (fun a' => rel a' (Run.exec step b cs)) (cs.foldlM f a) := by
  induction cs generalizing a b with
  | nil => exact h
  | cons c cs ih =>
      rw [List.foldlM_cons]
      refine (hstep a b c (hcs c List.mem_cons_self) h).bind ?_
      intro a' h'
      exact ih (fun c' hc' => hcs c' (List.mem_cons_of_mem c hc')) h'

/-! ## Loops over a list -/

theorem foldlM_snoc_ok_iff {f : α → β → Except ε α} {a c : α} {bs : List β} {b : β} :
    (bs ++ [b]).foldlM f a = .ok c ↔ ∃ m, bs.foldlM f a = .ok m ∧ f m b = .ok c := by
  rw [List.foldlM_append]
  cases hbs : bs.foldlM f a with
  | error e =>
      refine iff_of_false (fun h => ?_) (by simp)
      cases h
  | ok m =>
      have hone : ((.ok m : Except ε α) >>= fun a => [b].foldlM f a) = f m b := by
        show (f m b >>= pure) = f m b
        exact bind_pure _
      rw [hone]
      simp

/-- What is evaluated of a result holds of it. -/
theorem eq_of_toOption_map {x : Except ε α} {a : α} {f : α → β} {b : β} (hx : x = .ok a)
    (h : x.toOption.map f = some b) : f a = b := by
  rw [hx] at h
  exact Option.some.inj h

theorem foldlM_cons_ok_iff {f : α → β → Except ε α} {a c : α} {b : β} {bs : List β} :
    (b :: bs).foldlM f a = .ok c ↔ ∃ m, f a b = .ok m ∧ bs.foldlM f m = .ok c := by
  rw [List.foldlM_cons]
  cases hb : f a b with
  | error e =>
      refine iff_of_false (fun h => ?_) (by simp)
      cases h
  | ok m =>
      show bs.foldlM f m = .ok c ↔ _
      simp

/-- Two loops over lists of which one is made from the other, with bodies that agree. -/
theorem foldlM_map_ok_iff {γ : Type} {f : α → β → Except ε α} {f' : α → γ → Except ε α} {g : β → γ}
    {bs : List β} (h : ∀ b ∈ bs, ∀ a c, f' a (g b) = .ok c ↔ f a b = .ok c) {a c : α} :
    (bs.map g).foldlM f' a = .ok c ↔ bs.foldlM f a = .ok c := by
  induction bs generalizing a with
  | nil => rfl
  | cons b bs ih =>
      rw [List.map_cons, foldlM_cons_ok_iff, foldlM_cons_ok_iff]
      simp only [h b List.mem_cons_self, ih fun b' hb' => h b' (List.mem_cons_of_mem _ hb')]

/-- A loop whose body accepts an element by the element alone accepts the lists of such
elements. -/
theorem foldlM_isOk_iff {f : α → β → Except ε α} {ok : β → Prop}
    (hf : ∀ a b, (∃ c, f a b = .ok c) ↔ ok b) (a : α) (bs : List β) :
    (∃ c, bs.foldlM f a = .ok c) ↔ ∀ b ∈ bs, ok b := by
  induction bs generalizing a with
  | nil =>
      refine iff_of_true ⟨a, rfl⟩ ?_
      intro b hb
      cases hb
  | cons b bs ih =>
      simp only [foldlM_cons_ok_iff, List.forall_mem_cons]
      constructor
      · rintro ⟨c, m, hb, hbs⟩
        exact ⟨(hf a b).mp ⟨m, hb⟩, (ih m).mp ⟨c, hbs⟩⟩
      · rintro ⟨hb, hbs⟩
        obtain ⟨m, hm⟩ := (hf a b).mpr hb
        obtain ⟨c, hc⟩ := (ih m).mpr hbs
        exact ⟨c, m, hm, hc⟩

/-! ## Two programs side by side -/

/-- Two programs end alike: with results that are related, or early in the same way. -/
def Alike (R : α → β → Prop) : Except ε α → Except ε β → Prop
  | .ok a, .ok b => R a b
  | .error e, .error e' => e = e'
  | _, _ => False

section Alike

variable {γ δ : Type} {R : α → β → Prop} {S : γ → δ → Prop} {x : Except ε α} {y : Except ε β}

theorem alike_ok {a : α} {b : β} (h : R a b) : Alike R (.ok a : Except ε α) (.ok b) := h

theorem alike_error (e : ε) : Alike R (.error e : Except ε α) (.error e : Except ε β) := rfl

theorem Alike.imp {R' : α → β → Prop} (h : Alike R x y) (hR : ∀ a b, R a b → R' a b) :
    Alike R' x y := by
  cases x with
  | error e =>
      cases y with
      | error e' => exact h
      | ok b => exact h
  | ok a =>
      cases y with
      | error e' => exact h
      | ok b => exact hR a b h

theorem Alike.and {R' : α → β → Prop} (h : Alike R x y) (h' : Alike R' x y) :
    Alike (fun a b => R a b ∧ R' a b) x y := by
  cases x with
  | error e =>
      cases y with
      | error e' => exact h
      | ok b => exact h
  | ok a =>
      cases y with
      | error e' => exact h
      | ok b => exact ⟨h, h'⟩

theorem Alike.bind {f : α → Except ε γ} {g : β → Except ε δ} (h : Alike R x y)
    (hf : ∀ a b, R a b → Alike S (f a) (g b)) : Alike S (x >>= f) (y >>= g) := by
  cases x with
  | error e =>
      cases y with
      | error e' => exact h
      | ok b => exact absurd h id
  | ok a =>
      cases y with
      | error e' => exact absurd h id
      | ok b => exact hf a b h

/-- Loops over one list, with bodies that keep a relation. -/
theorem Alike.foldlM {f : α → γ → Except ε α} {g : β → γ → Except ε β} {cs : List γ}
    (hf : ∀ c ∈ cs, ∀ a b, R a b → Alike R (f a c) (g b c)) {a : α} {b : β} (h : R a b) :
    Alike R (cs.foldlM f a) (cs.foldlM g b) := by
  induction cs generalizing a b with
  | nil => exact h
  | cons c cs ih =>
      rw [List.foldlM_cons, List.foldlM_cons]
      refine (hf c List.mem_cons_self a b h).bind ?_
      intro a' b' h'
      exact ih (fun c' hc' => hf c' (List.mem_cons_of_mem c hc')) h'

/-- What is known of the two results. -/
theorem Alike.of_ok {a : α} (h : Alike R x y) (hx : x = .ok a) : ∃ b, y = .ok b ∧ R a b := by
  rw [hx] at h
  cases y with
  | error e => exact absurd h id
  | ok b => exact ⟨b, rfl, h⟩

end Alike

end Outcome
