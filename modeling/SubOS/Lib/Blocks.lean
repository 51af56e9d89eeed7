import Mathlib.Data.UInt

set_option autoImplicit false

/-!
# Byte strings, block by block

Two ways to go through a string in blocks of `n`. A hash or a MAC changes its state with each full
block, and what is left over waits for the next piece; a stream cipher combines the string with
one block of the key stream after the other, the last one cut short.

## Main definitions

* `feed`, `Buffered`, `mask` — the two ways, and the state between two pieces.

## Main results

* `feed_append`, `getElem?_mask`, `mask_mask` — feeding in pieces; the bytes; masking twice.
-/

namespace Blocks

open List Nat Option

universe u v

/-! ## Full blocks -/

section Feed

variable {σ : Type u} {α : Type v}

/-- What is behind the last full block. -/
def rest (n : ℕ) (l : List α) : List α := l.drop (l.length / n * n)

lemma length_rest (n : ℕ) (l : List α) : (rest n l).length = l.length % n := by
  rw [rest, length_drop]
  have := div_add_mod l.length n
  rw [mul_comm] at this
  omega

lemma rest_of_lt {n : ℕ} {l : List α} (h : l.length < n) : rest n l = l := by
  rw [rest, div_eq_of_lt h, zero_mul, drop_zero]

/-- The state after the full blocks of a string. -/
def feed (n : ℕ) [NeZero n] (f : σ → List α → σ) (s : σ) (l : List α) : σ :=
  if n ≤ l.length then feed n f (f s (l.take n)) (l.drop n) else s
termination_by l.length
decreasing_by
  have := Nat.pos_of_neZero n
  rw [List.length_drop]
  omega

variable {n : ℕ} [NeZero n] {f : σ → List α → σ} {s : σ} {l m p : List α}

lemma feed_of_lt (h : l.length < n) : feed n f s l = s := by
  unfold feed
  exact if_neg (by omega)

lemma feed_of_le (h : n ≤ l.length) : feed n f s l = feed n f (f s (l.take n)) (l.drop n) := by
  conv_lhs => unfold feed
  exact if_pos h

lemma feed_of_length_eq (h : l.length = n) : feed n f s l = f s l := by
  have hn := pos_of_neZero n
  rw [feed_of_le h.ge, take_of_length_le h.le, drop_of_length_le h.le]
  exact feed_of_lt hn

lemma feed_block {b : List α} (hb : b.length = n) (l : List α) :
    feed n f s (b ++ l) = feed n f (f s b) l := by
  rw [feed_of_le (by rw [length_append]; omega), take_left' hb, drop_left' hb]

omit [NeZero n] in
/-- A string of full blocks is empty, or a block and a string of full blocks. -/
@[elab_as_elim]
lemma block_induction {P : List α → Prop} (hnil : P [])
    (hblock : ∀ b l, b.length = n → P l → P (b ++ l)) (h : n ∣ l.length) : P l := by
  obtain ⟨k, hk⟩ := h
  induction k generalizing l with
  | zero =>
    rw [length_eq_zero_iff.1 hk]
    exact hnil
  | succ k ih =>
    rw [mul_add_one] at hk
    rw [← take_append_drop n l]
    exact hblock _ _ (by rw [length_take]; omega) (ih (by rw [length_drop]; omega))

lemma feed_append_of_dvd (h : n ∣ l.length) : feed n f s (l ++ m) = feed n f (feed n f s l) m := by
  refine block_induction (P := fun l => ∀ s, feed n f s (l ++ m) = feed n f (feed n f s l) m)
    (fun s => ?_) (fun b l hb ih s => ?_) h s
  · have hnil : feed n f s ([] : List α) = s := feed_of_lt (pos_of_neZero n)
    rw [hnil, nil_append]
  · rw [append_assoc, feed_block hb, feed_block hb, ih]

lemma length_rest_lt (l : List α) : (rest n l).length < n := by
  rw [length_rest]
  exact mod_lt _ (pos_of_neZero n)

lemma rest_of_le (h : n ≤ l.length) : rest n l = rest n (l.drop n) := by
  have hdiv : l.length / n = (l.length - n) / n + 1 := by
    rw [← add_div_right _ (pos_of_neZero n), Nat.sub_add_cancel h]
  rw [rest, rest, drop_drop, length_drop, hdiv, add_mul, one_mul, add_comm]

lemma dvd_length_take (n : ℕ) (l : List α) : n ∣ (l.take (l.length / n * n)).length := by
  rw [length_take, min_eq_left (div_mul_le_self _ _)]
  exact dvd_mul_left n _

lemma feed_take (l : List α) : feed n f s (l.take (l.length / n * n)) = feed n f s l := by
  have hrest : (l.drop (l.length / n * n)).length < n := length_rest_lt l
  conv_rhs => rw [← take_append_drop (l.length / n * n) l]
  rw [feed_append_of_dvd (dvd_length_take n l), feed_of_lt hrest]

/-- **Feeding in pieces.** After a first piece, only its rest and the second piece matter. -/
theorem feed_append : feed n f s (l ++ m) = feed n f (feed n f s l) (rest n l ++ m) := by
  rw [← feed_take l, ← feed_append_of_dvd (dvd_length_take n l), ← append_assoc, rest,
    take_append_drop]

theorem rest_append : rest n (l ++ m) = rest n (rest n l ++ m) := by
  have hdiv := div_add_mod l.length n
  have hlen : (l ++ m).length = l.length / n * n + (rest n l ++ m).length := by
    rw [length_append, length_append, length_rest, mul_comm]
    omega
  have hdrop : (l ++ m).drop (l.length / n * n) = rest n l ++ m := by
    rw [drop_append_of_le_length (div_mul_le_self _ _), rest]
  conv_lhs => rw [rest, hlen]
  rw [add_comm, add_mul_div_right _ _ (pos_of_neZero n), add_mul, add_comm, ← drop_drop, hdrop]
  rfl

lemma feed_congr {g : σ → List α → σ} (P : σ → Prop)
    (h : ∀ s b, P s → b.length = n → f s b = g s b ∧ P (f s b)) (hs : P s) (l : List α) :
    feed n f s l = feed n g s l := by
  induction hk : l.length using Nat.strong_induction_on generalizing s l with
  | h k ih =>
    rcases lt_or_ge l.length n with hlt | hge
    · rw [feed_of_lt hlt, feed_of_lt hlt]
    · have hn := pos_of_neZero n
      obtain ⟨heq, hnext⟩ := h s (l.take n) hs (by rw [length_take, min_eq_left hge])
      rw [feed_of_le hge, feed_of_le hge, ← heq]
      exact ih _ (by rw [← hk, length_drop]; omega) hnext _ rfl

/-! ## A buffer -/

/-- Write `data` into a buffer at an offset. -/
def writeAt (buffer : List α) (off : ℕ) (data : List α) : List α :=
  buffer.take off ++ data ++ buffer.drop (off + data.length)

lemma take_writeAt {buffer : List α} {off : ℕ} (hp : buffer.take off = p) (hlen : off = p.length)
    (data : List α) : (writeAt buffer off data).take (off + data.length) = p ++ data := by
  rw [writeAt, hp, take_append_of_le_length (by rw [length_append, hlen]),
    take_of_length_le (by rw [length_append, hlen])]

variable (n f) in
/-- The state `s` has taken the full blocks of `msg` from `s₀` on, and the rest waits at the front
of the buffer `buf`, `k` bytes of it. -/
structure Buffered (s₀ : σ) (msg : List α) (s : σ) (k : ℕ) (buf : List α) : Prop where
  state : s = feed n f s₀ msg
  leftover : k = (rest n msg).length
  buffer : buf.take k = rest n msg

namespace Buffered

variable {s₀ : σ} {msg buffer : List α} {k : ℕ}

lemma init (s₀ : σ) (buffer : List α) : Buffered n f s₀ [] s₀ 0 buffer where
  state := (feed_of_lt (pos_of_neZero n)).symm
  leftover := by rw [length_rest, length_nil, zero_mod]
  buffer := by rw [take_zero, rest, drop_nil]

section

variable (h : Buffered n f s₀ msg s k buffer)
include h

lemma lt : k < n := by
  rw [h.leftover]
  exact length_rest_lt msg

lemma short (hm : k + m.length < n) :
    Buffered n f s₀ (msg ++ m) s (k + m.length) (writeAt buffer k m) := by
  have hlen : (rest n msg ++ m).length < n := by
    rw [length_append, ← h.leftover]
    exact hm
  have hrest : rest n (msg ++ m) = rest n msg ++ m := by
    rw [rest_append, rest_of_lt hlen]
  refine ⟨?_, ?_, ?_⟩
  · rw [feed_append, feed_of_lt hlen]
    exact h.state
  · rw [hrest, length_append, ← h.leftover]
  · rw [hrest]
    exact take_writeAt h.buffer h.leftover m

lemma take_fill (hm : n - k ≤ m.length) :
    (writeAt buffer k (m.take (n - k))).take n = rest n msg ++ m.take (n - k) := by
  have hk := h.lt
  have htake := take_writeAt h.buffer h.leftover (m.take (n - k))
  rwa [length_take, min_eq_left hm, Nat.add_sub_cancel' hk.le] at htake

lemma fill (hm : n - k ≤ m.length) (buffer' : List α) :
    Buffered n f s₀ (msg ++ m.take (n - k))
      (feed n f s ((writeAt buffer k (m.take (n - k))).take n)) 0 buffer' := by
  have hk := h.lt
  have hlen : (rest n msg ++ m.take (n - k)).length = n := by
    rw [length_append, length_take, min_eq_left hm, ← h.leftover]
    omega
  have hrest : rest n (msg ++ m.take (n - k)) = [] := by
    rw [rest_append, rest_of_le hlen.ge, drop_of_length_le hlen.le, rest, drop_nil]
  refine ⟨?_, ?_, ?_⟩
  · rw [h.take_fill hm, h.state, ← feed_append]
  · rw [hrest]
    rfl
  · rw [hrest, take_zero]

end

/-- With an empty buffer the full blocks of a piece are taken, and its rest is put into the
buffer. -/
lemma whole (h : Buffered n f s₀ msg s 0 buffer) (m : List α) :
    Buffered n f s₀ (msg ++ m) (feed n f s m) (rest n m).length (writeAt buffer 0 (rest n m)) := by
  have hnil : rest n msg = [] := length_eq_zero_iff.1 h.leftover.symm
  have hrest : rest n (msg ++ m) = rest n m := by
    rw [rest_append, hnil, nil_append]
  refine ⟨?_, ?_, ?_⟩
  · rw [feed_append, hnil, nil_append, h.state]
  · rw [hrest]
  · rw [hrest]
    have htake := take_writeAt (take_zero : buffer.take 0 = []) rfl (rest n m)
    rwa [zero_add, nil_append] at htake

end Buffered

/-! ## The list of blocks -/

/-- The blocks of a string. The last one may be shorter. -/
def cut (n : ℕ) [NeZero n] (l : List α) : List (List α) :=
  if l = [] then [] else l.take n :: cut n (l.drop n)
termination_by l.length
decreasing_by
  have := Nat.pos_of_neZero n
  have := List.length_pos_iff.2 ‹_›
  rw [List.length_drop]
  omega

@[simp] lemma cut_nil : cut n ([] : List α) = [] := by
  unfold cut
  exact if_pos rfl

lemma cut_of_ne_nil (h : l ≠ []) : cut n l = l.take n :: cut n (l.drop n) := by
  conv_lhs => unfold cut
  exact if_neg h

lemma cut_of_le (h : l ≠ []) (hle : l.length ≤ n) : cut n l = [l] := by
  rw [cut_of_ne_nil h, take_of_length_le hle, drop_of_length_le hle, cut_nil]

lemma cut_block {b : List α} (hb : b.length = n) (l : List α) : cut n (b ++ l) = b :: cut n l := by
  have hn := pos_of_neZero n
  have hne : b ++ l ≠ [] := length_pos_iff.1 (by rw [length_append]; omega)
  rw [cut_of_ne_nil hne, take_left' hb, drop_left' hb]

lemma cut_append_of_dvd (h : n ∣ l.length) : cut n (l ++ m) = cut n l ++ cut n m := by
  refine block_induction ?_ (fun b l hb ih => ?_) h
  · rw [cut_nil, nil_append, nil_append]
  · rw [append_assoc, cut_block hb, cut_block hb, ih, cons_append]

lemma cut_eq (l : List α) : cut n l = cut n (l.take (l.length / n * n)) ++ cut n (rest n l) := by
  rw [← cut_append_of_dvd (dvd_length_take n l), rest, take_append_drop]

lemma length_of_mem_cut (h : n ∣ l.length) : ∀ b ∈ cut n l, b.length = n := by
  refine block_induction (by simp) (fun b l hb ih => ?_) h
  rw [cut_block hb, forall_mem_cons]
  exact ⟨hb, ih⟩

lemma feed_eq_foldl (h : n ∣ l.length) : feed n f s l = (cut n l).foldl f s := by
  refine block_induction (P := fun l => ∀ s, feed n f s l = (cut n l).foldl f s)
    (fun s => ?_) (fun b l hb ih s => ?_) h s
  · rw [cut_nil]
    exact feed_of_lt (pos_of_neZero n)
  · rw [feed_block hb, cut_block hb, foldl_cons, ih]

end Feed

/-! ## Streams of blocks -/

section Mask

variable {σ : Type u}

/-- A string combined with a stream of blocks. -/
def mask (n : ℕ) [NeZero n] (block : σ → List UInt8) (next : σ → σ) (s : σ) (src : List UInt8) :
    List UInt8 :=
  if src = [] then []
  else
    List.zipWith (· ^^^ ·) (src.take n) (block s) ++ mask n block next (next s) (src.drop n)
termination_by src.length
decreasing_by
  have := Nat.pos_of_neZero n
  have := List.length_pos_iff.2 ‹_›
  rw [List.length_drop]
  omega

variable {n : ℕ} [NeZero n] {block : σ → List UInt8} {next : σ → σ} {s : σ} {src : List UInt8}

@[simp] lemma mask_nil : mask n block next s [] = [] := by
  unfold mask
  exact if_pos rfl

lemma mask_of_ne_nil (h : src ≠ []) : mask n block next s src =
    zipWith (· ^^^ ·) (src.take n) (block s) ++ mask n block next (next s) (src.drop n) := by
  conv_lhs => unfold mask
  exact if_neg h

section

variable (hblock : ∀ s, (block s).length = n)
include hblock

/-- The bytes of a masked string: byte `i` is combined with byte `i % n` of block `i / n`. -/
theorem getElem?_mask (i : ℕ) :
    (mask n block next s src)[i]? =
      src[i]?.map (· ^^^ (block (next^[i / n] s)).getD (i % n) 0) := by
  induction hk : src.length using Nat.strong_induction_on generalizing s src i with
  | h k ih =>
    by_cases hnil : src = []
    · rw [hnil, mask_nil]
      rfl
    have hn := pos_of_neZero n
    have hfirst : (zipWith (· ^^^ ·) (src.take n) (block s)).length = min n src.length := by
      rw [length_zipWith, length_take, hblock]
      omega
    rw [mask_of_ne_nil hnil]
    rcases lt_or_ge i n with hin | hin
    · -- a byte of the first block
      rw [div_eq_of_lt hin, mod_eq_of_lt hin, Function.iterate_zero_apply]
      rcases lt_or_ge i src.length with his | his
      · rw [getElem?_append_left (by omega), getElem?_zipWith, getElem?_take_of_lt hin,
          getElem?_eq_getElem his,
          getElem?_eq_getElem (by rw [hblock]; exact hin)]
        simp [getD_eq_getElem?_getD, hblock, hin]
      · rw [drop_of_length_le (by omega), mask_nil, append_nil,
          getElem?_eq_none (by omega), getElem?_eq_none his]
        rfl
    · -- a byte of the blocks behind it
      rcases lt_or_ge src.length n with hsn | hsn
      · rw [drop_of_length_le hsn.le, mask_nil, append_nil,
          getElem?_eq_none (by omega), getElem?_eq_none (by omega)]
        rfl
      · have hdiv : i / n = (i - n) / n + 1 := by
          rw [← add_div_right _ hn, Nat.sub_add_cancel hin]
        have hmod : (i - n) % n = i % n := by
          rw [← add_mod_right, Nat.sub_add_cancel hin]
        rw [getElem?_append_right (by omega), hfirst, min_eq_left hsn,
          ih _ (by rw [← hk, length_drop]; omega) _ rfl, getElem?_drop,
          Nat.add_sub_cancel' hin, hdiv, Function.iterate_succ_apply, hmod]

lemma length_mask (s : σ) (src : List UInt8) : (mask n block next s src).length = src.length := by
  have hget : ∀ i, (mask n block next s src)[i]? = none ↔ src[i]? = none := fun i => by
    rw [getElem?_mask hblock, map_eq_none_iff]
  simp only [getElem?_eq_none_iff] at hget
  exact le_antisymm ((hget _).2 le_rfl) ((hget _).1 le_rfl)

/-- **Masking twice gives the string back.** -/
theorem mask_mask (s : σ) (src : List UInt8) :
    mask n block next s (mask n block next s src) = src := by
  refine ext_getElem? fun i => ?_
  rw [getElem?_mask hblock, getElem?_mask hblock, Option.map_map]
  cases src[i]? with
  | none => rfl
  | some x =>
    show some (x ^^^ _ ^^^ _) = some x
    rw [UInt8.xor_assoc, UInt8.xor_self, UInt8.xor_zero]

end

end Mask

end Blocks
