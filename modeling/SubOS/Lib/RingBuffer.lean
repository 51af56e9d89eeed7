import Mathlib.Algebra.Group.Fin.Basic
import Mathlib.Algebra.Order.Ring.Nat
import Mathlib.Data.Int.ModEq
import Mathlib.Data.List.Basic

set_option autoImplicit false

/-!
# Ring buffers

A ring of `n` cells with a read cursor and a fill count. The cell `k` places behind the cursor
is `(head + k) % n`; the contents are the first `count` cells in that order, and everything
else in the buffer is stale.

## Main definitions

* `RingBuffer.contents`, `RingBuffer.between` — the queued elements; the ring between two cursors.

## Main results

* `RingBuffer.contents_pushMany`, `RingBuffer.contents_between_push` — appending.
-/

/-- A ring of `n` cells: the storage, the read cursor and the number of queued elements. -/
structure RingBuffer (n : ℕ) (α : Type*) where
  buf : Fin n → α
  head : ℕ
  count : ℕ

namespace RingBuffer

open Nat Fin List

variable {n : ℕ} [NeZero n] {α : Type*}

/-- The cell `k` places behind the read cursor. -/
def cell (r : RingBuffer n α) (k : ℕ) : Fin n := Fin.ofNat n (r.head + k)

/-- The queued elements, oldest first. -/
def contents (r : RingBuffer n α) : List α := (List.range r.count).map fun k => r.buf (r.cell k)

/-- Store one element behind the queued ones. -/
def push (r : RingBuffer n α) (x : α) : RingBuffer n α :=
  { r with buf := Function.update r.buf (r.cell r.count) x, count := r.count + 1 }

/-- Store elements one by one while there is room; also return how many were stored. -/
def pushMany (r : RingBuffer n α) : List α → RingBuffer n α × ℕ
  | [] => (r, 0)
  | x :: xs =>
    if r.count < n then
      let p := pushMany (r.push x) xs
      (p.1, p.2 + 1)
    else (r, 0)

/-- Read the `k` cells behind the cursor. -/
def peekMany (r : RingBuffer n α) (k : ℕ) : List α := (List.range k).map fun j => r.buf (r.cell j)

/-- Advance the read cursor past `k` elements. -/
def dropMany (r : RingBuffer n α) (k : ℕ) : RingBuffer n α :=
  { r with head := (r.head + k) % n, count := r.count - k }

section

variable (r : RingBuffer n α)
include r

@[simp] lemma length_contents : r.contents.length = r.count := by
  simp [contents]

/-- Distinct offsets below `n` name distinct cells.

**Proof sketch.** If the two sums agree modulo `n`, so do the offsets, and both are their own
remainders. -/
lemma cell_inj {j k : ℕ} (hj : j < n) (hk : k < n) (h : r.cell j = r.cell k) : j = k := by
  have hmod : ModEq n (r.head + j) (r.head + k) := by
    simpa [cell, Fin.ofNat, ModEq] using congrArg val h
  have := ModEq.add_left_cancel' r.head hmod
  rwa [ModEq, mod_eq_of_lt hj, mod_eq_of_lt hk] at this

lemma contents_push (x : α) (h : r.count < n) : (r.push x).contents = r.contents ++ [x] := by
  have hold : ∀ k ∈ range r.count,
      (r.push x).buf ((r.push x).cell k) = r.buf (r.cell k) := by
    intro k hk
    rw [mem_range] at hk
    have hne : r.cell k ≠ r.cell r.count := fun he => by
      have := r.cell_inj (by omega) h he
      omega
    exact Function.update_of_ne hne _ _
  have hnew : (r.push x).buf ((r.push x).cell r.count) = x := Function.update_self _ _ _
  rw [contents, show (r.push x).count = r.count + 1 from rfl, List.range_succ, map_append,
    map_congr_left hold, map_singleton, hnew]
  rfl

lemma pushMany_snd (xs : List α) : (r.pushMany xs).2 = min xs.length (n - r.count) := by
  induction xs generalizing r with
  | nil => simp [pushMany]
  | cons x xs ih =>
    by_cases h : r.count < n
    · simp only [pushMany, h, ↓reduceIte, ih, push, length_cons]
      omega
    · simp only [pushMany, h, ↓reduceIte]
      omega

@[simp] lemma pushMany_head (xs : List α) : (r.pushMany xs).1.head = r.head := by
  induction xs generalizing r with
  | nil => rfl
  | cons x xs ih =>
    by_cases h : r.count < n
    · simp only [pushMany, h, ↓reduceIte, ih]
      rfl
    · simp only [pushMany, h, ↓reduceIte]

/-- **Appending to a ring** stores a prefix of the input behind the queued elements.

**Proof sketch.** Induction on the input. While there is room one element moves to the back of
the contents (`contents_push`); a full ring takes nothing. -/
theorem contents_pushMany (xs : List α) :
    (r.pushMany xs).1.contents = r.contents ++ xs.take (r.pushMany xs).2 := by
  induction xs generalizing r with
  | nil => simp [pushMany]
  | cons x xs ih =>
    by_cases h : r.count < n
    · simp only [pushMany, h, ↓reduceIte, ih, contents_push r x h, take_succ_cons,
        List.append_assoc, singleton_append]
    · simp only [pushMany, h, ↓reduceIte, List.take_zero, append_nil]

lemma pushMany_count (xs : List α) : (r.pushMany xs).1.count = r.count + (r.pushMany xs).2 := by
  have hlen := congrArg length (r.contents_pushMany xs)
  have hle : (r.pushMany xs).2 ≤ xs.length := by rw [pushMany_snd]; omega
  simpa [min_eq_left hle] using hlen

lemma peekMany_eq_take {k : ℕ} (h : k ≤ r.count) : r.peekMany k = r.contents.take k := by
  rw [contents, peekMany, ← map_take, take_range, min_eq_left h]

lemma contents_dropMany (k : ℕ) : (r.dropMany k).contents = r.contents.drop k := by
  apply ext_getElem
  · simp [dropMany]
  · intro j h₁ h₂
    simp only [contents, getElem_map, getElem_range, getElem_drop]
    have hcell : (r.dropMany k).cell j = r.cell (k + j) :=
      Fin.ext (by simp [cell, dropMany, Fin.ofNat, add_assoc])
    rw [hcell]
    rfl

end

/-! ## Two cursors -/

/-- The ring from the read cursor `head` up to the write cursor `tail`. -/
def between (buf : Fin n → α) (head tail : Fin n) : RingBuffer n α := ⟨buf, head, (tail - head).val⟩

variable {buf : Fin n → α} {head tail : Fin n}

lemma val_add_one {d : Fin n} (h : d + 1 ≠ 0) : (d + 1).val = d.val + 1 := by
  have hval : (d + 1).val = (d.val + 1) % n := by
    rw [val_add, val_one', add_mod_mod]
  by_cases hd : d.val + 1 < n
  · rw [hval, mod_eq_of_lt hd]
  · refine absurd (Fin.ext ?_) h
    rw [hval, show d.val + 1 = n by omega, mod_self]
    rfl

lemma cell_between : (between buf head tail).cell (tail - head).val = tail := by
  refine Fin.ext ?_
  have hsum : head + (tail - head) = tail := add_sub_cancel head tail
  conv_rhs => rw [← hsum, val_add]
  rfl

lemma val_add_one_sub (h : tail + 1 ≠ head) : (tail + 1 - head).val = (tail - head).val + 1 := by
  rw [add_sub_right_comm]
  refine val_add_one fun hzero => h ?_
  rwa [← add_sub_right_comm, sub_eq_zero] at hzero

lemma between_push (h : tail + 1 ≠ head) (x : α) :
    between (Function.update buf tail x) head (tail + 1) = (between buf head tail).push x := by
  unfold between
  rw [val_add_one_sub h]
  congr 2
  exact cell_between.symm

/-- **Storing at the write cursor** appends at the back. -/
theorem contents_between_push (h : tail + 1 ≠ head) (x : α) :
    (between (Function.update buf tail x) head (tail + 1)).contents =
      (between buf head tail).contents ++ [x] := by
  rw [between_push h, contents_push _ _ (tail - head).isLt]

/-- **The element at the read cursor** is the first one. -/
theorem contents_between_pop (h : head ≠ tail) :
    (between buf head tail).contents = buf head :: (between buf (head + 1) tail).contents := by
  have hback : (tail - (head + 1)) + 1 = tail - head := by
    rw [sub_add_eq_sub_sub, sub_add_cancel]
  have hcount : (tail - head).val = (tail - (head + 1)).val + 1 := by
    rw [← hback]
    refine val_add_one fun hzero => h ?_
    rw [hback, sub_eq_zero] at hzero
    exact hzero.symm
  have hcell : ∀ k, (between buf head tail).cell (k + 1) =
    (between buf (head + 1) tail).cell k := by
    intro k
    refine Fin.ext ?_
    show (head.val + (k + 1)) % n = ((head + 1).val + k) % n
    rw [val_add, val_one', add_mod_mod, mod_add_mod]
    congr 1
    omega
  have hfirst : (between buf head tail).cell 0 = head := by
    refine Fin.ext ?_
    show (head.val + 0) % n = head.val
    rw [add_zero, mod_eq_of_lt head.isLt]
  unfold contents
  rw [show (between buf head tail).count = (between buf (head + 1) tail).count + 1 from hcount,
    range_succ_eq_map, map_cons, map_map, hfirst]
  refine congrArg _ (map_congr_left fun k _ => ?_)
  show buf ((between buf head tail).cell (k + 1)) = buf ((between buf (head + 1) tail).cell k)
  rw [hcell]

lemma contents_between_self : (between buf head head).contents = [] := by
  unfold between
  rw [sub_self]
  rfl

lemma length_between : (between buf head tail).contents.length = (tail - head).val :=
  length_contents _

lemma length_between_of_full (buf : Fin n → α) (h : tail + 1 = head) :
    (between buf head tail).contents.length = n - 1 := by
  have hzero : (tail - head) + 1 = 0 := by
    rw [← add_sub_right_comm, h, sub_self]
  rw [length_between]
  have hval := congrArg val hzero
  rw [val_add, val_one', add_mod_mod, val_zero] at hval
  have hdvd := dvd_of_mod_eq_zero hval
  have hle := le_of_dvd (Nat.succ_pos _) hdvd
  omega

lemma length_between_of_room (h : tail + 1 ≠ head) :
    (between buf head tail).contents.length < n - 1 := by
  have hcount := val_add_one_sub h
  rw [length_between]
  omega

end RingBuffer
