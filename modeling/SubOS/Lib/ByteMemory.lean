import Mathlib.Tactic.Ring

set_option autoImplicit false

/-!
# Byte-addressed memory

A memory maps addresses to bytes. Numbers are stored in little-endian order.

## Main definitions

* `load`, `store`, `copy`, `put` — numbers and bytes.

## Main results

* `load_store_self`, `load_store_apart` — what is loaded after a store.
-/

abbrev ByteMemory := ℕ → UInt8

namespace ByteMemory

open Nat List

variable {m m' : ByteMemory} {a b n k v : ℕ}

/-- The number in the `n` bytes from `a`, the least significant first. -/
def load (m : ByteMemory) (a : ℕ) : ℕ → ℕ
  | 0 => 0
  | n + 1 => (m a).toNat + 256 * load m (a + 1) n

/-- Store `v` in the `n` bytes from `a`. -/
def store (m : ByteMemory) (a n v : ℕ) : ByteMemory := fun x =>
  if a ≤ x ∧ x < a + n then UInt8.ofNat (v / 256 ^ (x - a)) else m x

/-- Set the `n` bytes from `a` to one value. -/
def fill (m : ByteMemory) (a n : ℕ) (c : UInt8) : ByteMemory := fun x =>
  if a ≤ x ∧ x < a + n then c else m x

/-- Copy the `n` bytes from `src` to `dst`. -/
def copy (m : ByteMemory) (dst src n : ℕ) : ByteMemory := fun x =>
  if dst ≤ x ∧ x < dst + n then m (src + (x - dst)) else m x

/-- Copy `n` bytes of another memory, from `src` there to `dst` here. -/
def paste (m : ByteMemory) (dst : ℕ) (m' : ByteMemory) (src n : ℕ) : ByteMemory := fun x =>
  if dst ≤ x ∧ x < dst + n then m' (src + (x - dst)) else m x

/-- Write a list of bytes from `a` on. -/
def put (m : ByteMemory) (a : ℕ) (l : List UInt8) : ByteMemory := fun x =>
  if a ≤ x ∧ x < a + l.length then l.getD (x - a) 0 else m x

/-- The `n` bytes from `a`. -/
def bytes (m : ByteMemory) (a n : ℕ) : List UInt8 := (List.range n).map fun k => m (a + k)

/-- The bytes of an ASCII string. -/
def ascii (s : String) : List UInt8 := s.toList.map fun c => UInt8.ofNat c.toNat

/-- `m'` agrees with `m` outside the `n` bytes from `a`. -/
def SameOutside (m m' : ByteMemory) (a n : ℕ) : Prop := ∀ x, x < a ∨ a + n ≤ x → m' x = m x

lemma store_of_outside {x : ℕ} (h : x < a ∨ a + n ≤ x) : store m a n v x = m x := by
  unfold store
  rw [if_neg]
  omega

lemma sameOutside_store (m : ByteMemory) (a n v : ℕ) : m.SameOutside (store m a n v) a n :=
  fun _ h => store_of_outside h

lemma sameOutside_fill (m : ByteMemory) (a n : ℕ) (c : UInt8) :
    m.SameOutside (fill m a n c) a n := by
  intro x h
  unfold fill
  rw [if_neg]
  omega

lemma sameOutside_copy (m : ByteMemory) (dst src n : ℕ) :
    m.SameOutside (copy m dst src n) dst n := by
  intro x h
  unfold copy
  rw [if_neg]
  omega

theorem load_congr (h : ∀ x, a ≤ x → x < a + n → m' x = m x) : load m' a n = load m a n := by
  induction n generalizing a with
  | zero => rfl
  | succ n ih =>
    unfold load
    rw [h a le_rfl (by omega), ih fun x hx hx' => h x (by omega) (by omega)]

lemma SameOutside.load_eq (h : m.SameOutside m' a n) (hapart : a + n ≤ b ∨ b + k ≤ a) :
    load m' b k = load m b k :=
  load_congr fun x hx hx' => h x (by omega)

lemma load_lt (m : ByteMemory) (a n : ℕ) : load m a n < 256 ^ n := by
  induction n generalizing a with
  | zero => simp [load]
  | succ n ih =>
    have hbyte := (m a).toNat_lt
    have hrest := ih (a + 1)
    unfold load
    omega

lemma load_of_bytes (h : ∀ i < n, m (a + i) = UInt8.ofNat (v / 256 ^ i)) :
    load m a n = v % 256 ^ n := by
  induction n generalizing a v with
  | zero => simp [load, mod_one]
  | succ n ih =>
    have hfirst : (m a).toNat = v % 256 := by
      have h0 := h 0 (by omega)
      rw [add_zero, pow_zero, Nat.div_one] at h0
      rw [h0]
      simp
    have hrest : load m (a + 1) n = v / 256 % 256 ^ n := by
      refine ih fun i hi => ?_
      have hi' := h (i + 1) (by omega)
      rw [show a + 1 + i = a + (i + 1) by omega, hi', pow_succ', Nat.div_div_eq_div_mul]
    rw [load, hfirst, hrest, pow_succ', mod_mul]

/-- **What was stored is loaded**, as far as it fits. -/
theorem load_store_self (m : ByteMemory) (a n v : ℕ) : load (store m a n v) a n = v % 256 ^ n := by
  refine load_of_bytes fun i hi => ?_
  unfold store
  rw [if_pos (by omega), show a + i - a = i by omega]

/-- **A store elsewhere does not matter.** -/
theorem load_store_apart (h : a + n ≤ b ∨ b + k ≤ a) : load (store m a n v) b k = load m b k :=
  (sameOutside_store m a n v).load_eq h

/-! ## Ranges of bytes -/

lemma paste_inside {dst src x : ℕ} (h : dst ≤ x ∧ x < dst + n) :
    m.paste dst m' src n x = m' (src + (x - dst)) := if_pos h

lemma paste_outside {dst src x : ℕ} (h : ¬ (dst ≤ x ∧ x < dst + n)) :
    m.paste dst m' src n x = m x :=
  if_neg h

lemma paste_add (m m' : ByteMemory) (dst src n k : ℕ) :
    (m.paste dst m' src n).paste (dst + n) m' (src + n) k = m.paste dst m' src (n + k) := by
  funext x
  by_cases hlow : dst ≤ x ∧ x < dst + n
  · rw [paste_outside (by omega), paste_inside hlow, paste_inside (by omega)]
  · by_cases hhigh : dst + n ≤ x ∧ x < dst + n + k
    · rw [paste_inside hhigh, paste_inside (by omega)]
      congr 1
      omega
    · rw [paste_outside hhigh, paste_outside hlow, paste_outside (by omega)]

@[simp] lemma paste_zero (m m' : ByteMemory) (dst src : ℕ) : m.paste dst m' src 0 = m :=
  funext fun _ => paste_outside (by omega)

@[simp] lemma length_bytes (m : ByteMemory) (a n : ℕ) : (m.bytes a n).length = n := by
  simp [bytes]

lemma getElem?_bytes_eq_some {m : ByteMemory} {a n k : ℕ} {b : UInt8} :
    (m.bytes a n)[k]? = some b ↔ k < n ∧ m (a + k) = b := by
  simp [bytes, getElem?_eq_some_iff]

lemma bytes_congr (h : ∀ i < n, m (a + i) = m' (b + i)) : m.bytes a n = m'.bytes b n :=
  map_congr_left fun i hi => h i (mem_range.1 hi)

lemma bytes_append (m : ByteMemory) (a n k : ℕ) :
    m.bytes a n ++ m.bytes (a + n) k = m.bytes a (n + k) := by
  simp only [bytes, range_add, map_append, map_map, Function.comp_def, add_assoc]

lemma bytes_put_append (m : ByteMemory) (a n : ℕ) (l : List UInt8) :
    (m.put (a + n) l).bytes a (n + l.length) = m.bytes a n ++ l := by
  rw [← bytes_append]
  congr 1
  · refine bytes_congr fun i hi => ?_
    rw [put, if_neg (by omega)]
  · refine ext_getElem (by simp) fun i hi hi' => ?_
    simp only [bytes, getElem_map, getElem_range]
    rw [put, if_pos (by omega), Nat.add_sub_cancel_left, getD, getElem?_eq_getElem hi',
      Option.getD_some]

lemma take_bytes (m : ByteMemory) (a n k : ℕ) : (m.bytes a n).take k = m.bytes a (min k n) := by
  simp [bytes, ← map_take, take_range]

lemma drop_bytes (m : ByteMemory) (a n k : ℕ) : (m.bytes a n).drop k = m.bytes (a + k) (n - k) := by
  refine ext_getElem (by simp) fun i hi hi' => ?_
  simp only [bytes, getElem_drop, getElem_map, getElem_range, add_assoc]

/-- A range after a write that begins in it or behind it: what stands before, what has been left
out, what is written, and what stands behind. -/
lemma bytes_put (m : ByteMemory) (n o : ℕ) (l : List UInt8) :
    (m.put o l).bytes 0 (max n (o + l.length)) =
      (m.bytes 0 n).take o ++ m.bytes n (o - n) ++ l ++ (m.bytes 0 n).drop (o + l.length) := by
  have hfront : m.bytes 0 o = (m.bytes 0 n).take o ++ m.bytes n (o - n) := by
    rw [take_bytes]
    rcases le_total o n with h | h
    · rw [min_eq_left h, Nat.sub_eq_zero_of_le h]
      simp [bytes]
    · rw [min_eq_right h]
      have happ := bytes_append m 0 n (o - n)
      rwa [zero_add, Nat.add_sub_cancel' h, eq_comm] at happ
  have hback : (m.put o l).bytes (o + l.length) (n - (o + l.length)) =
      (m.bytes 0 n).drop (o + l.length) := by
    rw [drop_bytes, zero_add]
    refine bytes_congr fun i _ => ?_
    rw [put, if_neg (by omega)]
  have hwritten := bytes_put_append m 0 o l
  rw [zero_add] at hwritten
  rw [← hfront, ← hback, ← hwritten]
  have happ := bytes_append (m.put o l) 0 (o + l.length) (n - (o + l.length))
  rw [zero_add] at happ
  rw [happ]
  congr 1
  omega

lemma bytes_update (m : ByteMemory) {a n k : ℕ} (h : a + n ≤ k) (b : UInt8) :
    bytes (Function.update m k b) a n = m.bytes a n :=
  bytes_congr fun i hi => Function.update_of_ne (by omega) _ _

end ByteMemory
