import Mathlib.Algebra.BigOperators.Group.List.Basic
import Mathlib.Control.Monad.Basic
import Mathlib.Data.List.Flatten

/-! # Self-delimiting codecs

A reader takes a value off the front of its input. `Reads r bs x` says that `r`
reads `x` off `bs` and stops at its end whatever follows, so that codes can be
written one after another: `Reads` is closed under `bind`, under a counted
repetition and under reading to the end of the input.
-/

namespace Codec

variable {α β γ : Type}

/-- A reader: the value at the front of the input and the input after it. -/
abbrev Reader (α β : Type) := StateT (List α) Option β

/-- `r` reads `x` off `bs`, in front of any further input. -/
def Reads (r : Reader α β) (bs : List α) (x : β) : Prop :=
  ∀ rest, r.run (bs ++ rest) = some (x, rest)

theorem reads_pure (x : β) : Reads (pure x : Reader α β) [] x := by
  intro rest
  rfl

/-- Codes in sequence are read in sequence. -/
theorem Reads.bind {r : Reader α β} {k : β → Reader α γ} {bs cs : List α} {x : β} {y : γ}
    (hr : Reads r bs x) (hk : Reads (k x) cs y) : Reads (r >>= k) (bs ++ cs) y := by
  intro rest
  have h := hr (cs ++ rest)
  rw [List.append_assoc, StateT.run_bind, h]
  exact hk rest

/-- A sequence that returns has returned at both its steps. -/
theorem run_bind_eq_some {r : Reader α β} {k : β → Reader α γ} {s t : List α} {y : γ}
    (h : (r >>= k).run s = some (y, t)) :
    ∃ x mid, r.run s = some (x, mid) ∧ (k x).run mid = some (y, t) := by
  rw [StateT.run_bind] at h
  rcases Option.bind_eq_some_iff.mp h with ⟨⟨x, mid⟩, hr, hk⟩
  exact ⟨x, mid, hr, hk⟩

/-- What a reader returns off the same code is determined. -/
theorem Reads.unique {r : Reader α β} {bs : List α} {x y : β}
    (hx : Reads r bs x) (hy : Reads r bs y) : x = y := by
  have h := (hx []).symm.trans (hy [])
  simpa using h

/-! ## Fixed pieces -/

/-- The next `n` symbols. -/
def take (n : Nat) : Reader α (List α) := fun s =>
  if n ≤ s.length then some (s.take n, s.drop n) else none

/-- The next symbol. -/
def next : Reader α α
  | [] => none
  | b :: rest => some (b, rest)

/-- Exactly the symbols `bs`. -/
def expect [DecidableEq α] (bs : List α) : Reader α Unit := do
  let cs ← take bs.length
  if cs = bs then pure () else failure

theorem reads_take {n : Nat} {bs : List α} (h : bs.length = n) : Reads (take n) bs bs := by
  intro rest
  subst h
  simp [take, StateT.run]

/-- `take n` returns `n` symbols or nothing. -/
theorem length_of_run_take {n : Nat} {s t xs : List α} (h : (take n).run s = some (xs, t)) :
    xs.length = n := by
  simp only [take, StateT.run, Option.ite_none_right_eq_some, Option.some.injEq,
    Prod.mk.injEq] at h
  rcases h with ⟨hle, rfl, -⟩
  exact List.length_take_of_le hle

theorem reads_next (b : α) : Reads next [b] b := by
  intro rest
  rfl

theorem reads_expect [DecidableEq α] (bs : List α) : Reads (expect bs) bs () := by
  have h : Reads (expect bs) (bs ++ []) () := by
    apply Reads.bind (reads_take rfl)
    rw [if_pos rfl]
    exact reads_pure ()
  simpa using h

/-! ## Repetition -/

/-- `n` values, one after another. -/
def times (r : Reader α β) : Nat → Reader α (List β)
  | 0 => pure []
  | n + 1 => do
    let x ← r
    let xs ← times r n
    pure (x :: xs)

/-- A counted list is read back off the concatenation of its codes. -/
theorem reads_times {r : Reader α β} {code : β → List α} {xs : List β}
    (h : ∀ x ∈ xs, Reads r (code x) x) : Reads (times r xs.length) (xs.flatMap code) xs := by
  induction xs with
  | nil => exact reads_pure []
  | cons x xs ih =>
      -- one value, then the others, each in front of what follows it
      have hx : Reads r (code x) x := h x (by simp)
      have hxs := ih fun y hy => h y (by simp [hy])
      have hcons : Reads (times r (x :: xs).length) (code x ++ (xs.flatMap code ++ [])) (x :: xs) :=
        hx.bind (hxs.bind (reads_pure (x :: xs)))
      simpa using hcons

/-- The values of an input, read to its end; `fuel` bounds their number. -/
def drainUpTo (r : Reader α β) : Nat → List α → Option (List β)
  | _, [] => some []
  | 0, _ :: _ => none
  | fuel + 1, b :: bs => do
    let (x, rest) ← r.run (b :: bs)
    let xs ← drainUpTo r fuel rest
    pure (x :: xs)

/-- The values of an input, read to its end. Each takes at least one symbol, so
the length of the input bounds their number. -/
def drain (r : Reader α β) (bs : List α) : Option (List β) := drainUpTo r bs.length bs

/-- One value off the front of the input, then the rest. -/
theorem drainUpTo_append {r : Reader α β} {bs rest : List α} {x : β} {fuel : Nat}
    (hr : Reads r bs x) (hne : bs ≠ []) :
    drainUpTo r (fuel + 1) (bs ++ rest) = (drainUpTo r fuel rest).map (x :: ·) := by
  rcases List.exists_cons_of_ne_nil hne with ⟨b, cs, rfl⟩
  have h := hr rest
  rw [List.cons_append] at h ⊢
  rw [drainUpTo, h]
  show (drainUpTo r fuel rest).bind (fun xs => some (x :: xs)) = _
  exact Option.map_eq_bind.symm

theorem drainUpTo_flatMap {r : Reader α β} {code : β → List α} {xs : List β}
    (h : ∀ x ∈ xs, Reads r (code x) x) (hne : ∀ x ∈ xs, code x ≠ []) {fuel : Nat}
    (hfuel : xs.length ≤ fuel) : drainUpTo r fuel (xs.flatMap code) = some xs := by
  induction xs generalizing fuel with
  | nil => cases fuel <;> rfl
  | cons x xs ih =>
      -- there is fuel for `x`
      obtain ⟨fuel, rfl⟩ : ∃ n, fuel = n + 1 := ⟨fuel - 1, by simp at hfuel; omega⟩
      have hle : xs.length ≤ fuel := by simpa using hfuel
      have hxs := ih (fun y hy => h y (by simp [hy])) (fun y hy => hne y (by simp [hy])) hle
      rw [List.flatMap_cons, drainUpTo_append (h x (by simp)) (hne x (by simp)), hxs]
      rfl

/-- A list of non-empty codes is at most as long as their concatenation. -/
theorem length_le_length_flatMap {code : β → List α} {xs : List β}
    (hne : ∀ x ∈ xs, code x ≠ []) : xs.length ≤ (xs.flatMap code).length := by
  induction xs with
  | nil => simp
  | cons x xs ih =>
      have hx : 0 < (code x).length := List.length_pos_of_ne_nil (hne x (by simp))
      have hxs := ih fun y hy => hne y (by simp [hy])
      rw [List.flatMap_cons, List.length_append, List.length_cons]
      omega

/-- Reading to the end of a concatenation of codes gives the values back. -/
theorem drain_flatMap {r : Reader α β} {code : β → List α} {xs : List β}
    (h : ∀ x ∈ xs, Reads r (code x) x) (hne : ∀ x ∈ xs, code x ≠ []) :
    drain r (xs.flatMap code) = some xs :=
  drainUpTo_flatMap h hne (length_le_length_flatMap hne)

/-! ## Little-endian words -/

/-- The `k` low bytes of `n`, lowest first. -/
def leBytes : Nat → Nat → List UInt8
  | 0, _ => []
  | k + 1, n => UInt8.ofNat n :: leBytes k (n / 256)

/-- The number whose `k` bytes come next, lowest first. -/
def readLe : Nat → Reader UInt8 Nat
  | 0 => pure 0
  | k + 1 => do
    let b ← next
    let n ← readLe k
    pure (b.toNat + 256 * n)

@[simp] theorem length_leBytes (k n : Nat) : (leBytes k n).length = k := by
  induction k generalizing n with
  | zero => rfl
  | succ k ih => simp [leBytes, ih]

/-- The number that bytes stand for, lowest first. -/
def leNat : List UInt8 → Nat
  | [] => 0
  | b :: bs => b.toNat + 256 * leNat bs

/-- A number that fits its bytes is what they stand for. -/
theorem leNat_leBytes {k n : Nat} (h : n < 256 ^ k) : leNat (leBytes k n) = n := by
  induction k generalizing n with
  | zero => exact (Nat.lt_one_iff.mp h).symm
  | succ k ih =>
      have hdiv : n / 256 < 256 ^ k := by
        rw [Nat.pow_succ] at h
        exact Nat.div_lt_of_lt_mul (by omega)
      have hbyte : (UInt8.ofNat n).toNat = n % 256 := by simp
      rw [leBytes, leNat, ih hdiv, hbyte]
      omega

/-- `k` bytes carry a number modulo `256 ^ k`. -/
theorem reads_leBytes (k n : Nat) : Reads (readLe k) (leBytes k n) (n % 256 ^ k) := by
  induction k generalizing n with
  | zero =>
      rw [Nat.pow_zero, Nat.mod_one]
      exact reads_pure 0
  | succ k ih =>
      -- the low byte and the number above it, as the reader puts them together
      have hmod : n % 256 ^ (k + 1) = (UInt8.ofNat n).toNat + 256 * (n / 256 % 256 ^ k) := by
        rw [Nat.pow_succ', Nat.mod_mul]
        simp
      have h : Reads (readLe (k + 1)) ([UInt8.ofNat n] ++ (leBytes k (n / 256) ++ []))
          ((UInt8.ofNat n).toNat + 256 * (n / 256 % 256 ^ k)) :=
        (reads_next _).bind ((ih (n / 256)).bind (reads_pure _))
      rw [hmod]
      simpa [leBytes] using h

/-- `k` bytes carry no number from `256 ^ k` on. -/
theorem lt_of_run_readLe {k n : Nat} {s t : List UInt8} (h : (readLe k).run s = some (n, t)) :
    n < 256 ^ k := by
  induction k generalizing n s t with
  | zero =>
      have hzero : (0, s) = (n, t) := Option.some.inj h
      rcases Prod.mk.inj hzero with ⟨rfl, -⟩
      exact Nat.one_pos
  | succ k ih =>
      rcases run_bind_eq_some h with ⟨b, mid, -, hrest⟩
      rcases run_bind_eq_some hrest with ⟨m, mid', hm, hpure⟩
      have hn : (b.toNat + 256 * m, mid') = (n, t) := Option.some.inj hpure
      rcases Prod.mk.inj hn with ⟨rfl, -⟩
      have hlt : m < 256 ^ k := ih hm
      have hb := b.toNat_lt
      rw [Nat.pow_succ]
      omega

/-- A number that fits its `k` bytes is read back. -/
theorem reads_leBytes_of_lt {k n : Nat} (h : n < 256 ^ k) : Reads (readLe k) (leBytes k n) n := by
  simpa [Nat.mod_eq_of_lt h] using reads_leBytes k n

end Codec
