import Mathlib.Data.List.Induction
import Mathlib.Data.List.Nodup

set_option autoImplicit false

/-!
# Trees of nodes in memory

The nodes of a tree are cells that point to each other: `child a i` is the node under index `i` of
node `a`. Nothing about `child` alone prevents two pointers to one node.

## Main definitions

* `follow`, `Distinct` — the node at the end of a path; no two paths lead to the same node.

## Main results

* `follow_hang`, `Distinct.hang` — what hanging a node in does.
* `mem_collect`, `nodup_collect` — every node is collected once.
-/

namespace Radix

open List Option Nat

variable {α ι : Type*} (child : α → ι → Option α)

/-- The node at the end of a path from `a`. -/
def follow (a : α) : List ι → Option α
  | [] => some a
  | i :: p => (child a i).bind fun b => follow b p

/-- Different paths of at most `d` steps from `a` lead to different nodes. -/
def Distinct (a : α) (d : ℕ) : Prop :=
  ∀ p q b, p.length ≤ d → q.length ≤ d → follow child a p = some b → follow child a q = some b →
    p = q

/-- The nodes at most `d` steps below `a` under the indices `idx`, every node after those below
it. -/
def collect (idx : List ι) : ℕ → α → List α
  | 0, a => [a]
  | d + 1, a => (idx.flatMap fun i => (child a i).elim [] (collect idx d)) ++ [a]

variable {child} {a b t : α} {p q : List ι} {i : ι} {d : ℕ}

@[simp] lemma follow_nil : follow child a [] = some a := rfl

@[simp] lemma follow_cons : follow child a (i :: p) = (child a i).bind (follow child · p) := rfl

lemma follow_append : follow child a (p ++ q) = (follow child a p).bind (follow child · q) := by
  induction p generalizing a with
  | nil => rfl
  | cons i p ih =>
    rw [cons_append, follow_cons, follow_cons]
    cases child a i with
    | none => rfl
    | some b => exact ih

lemma follow_concat : follow child a (p ++ [i]) = (follow child a p).bind (child · i) := by
  rw [follow_append]
  cases follow child a p with
  | none => rfl
  | some b =>
    exact bind_fun_some _

lemma follow_congr {child' : α → ι → Option α}
    (h : ∀ q b, q.length < d → follow child a q = some b → ∀ k, child' b k = child b k)
    (hp : p.length ≤ d) : follow child' a p = follow child a p := by
  induction p using reverseRecOn with
  | nil => rfl
  | append_singleton p i ih =>
    rw [length_append, length_singleton] at hp
    rw [follow_concat, follow_concat, ih (by omega)]
    cases hb : follow child a p with
    | none => rfl
    | some b => exact h p b (by omega) hb i

lemma Distinct.congr {child' : α → ι → Option α} (h : Distinct child a d)
    (hsame : ∀ q b, q.length < d → follow child a q = some b → ∀ k, child' b k = child b k) :
    Distinct child' a d := by
  intro p q b hp hq hpb hqb
  rw [follow_congr hsame hp] at hpb
  rw [follow_congr hsame hq] at hqb
  exact h p q b hp hq hpb hqb

/-! ### Hanging a node into a tree -/

section Hang

variable {child' : α → ι → Option α} {g : α} [DecidableEq ι]

/-- `child'` is `child` with the node `g` hung in under index `i` of the node at path `p`; nothing
is below `g`. -/
structure Hangs (child child' : α → ι → Option α) (a : α) (d : ℕ) (p : List ι) (i : ι) (g : α) :
    Prop where
  short : p.length < d
  empty : follow child a (p ++ [i]) = none
  hung : ∀ t, follow child a p = some t → child' t i = some g
  bare : p.length + 1 < d → ∀ k, child' g k = none
  other : ∀ q b k, q.length < d → follow child a q = some b → (q ≠ p ∨ k ≠ i) →
    child' b k = child b k

/-- **Hanging a node into a tree changes one path.** -/
theorem follow_hang (h : Hangs child child' a d p i g) (ht : follow child a p = some t)
    (hq : q.length ≤ d) :
    follow child' a q = if q = p ++ [i] then some g else follow child a q := by
  induction q using reverseRecOn with
  | nil => simp
  | append_singleton q k ih =>
    rw [length_append, length_singleton] at hq
    rw [follow_concat, follow_concat, ih (by omega)]
    by_cases hpath : q = p ++ [i]
    · -- nothing is below the new node, and nothing was at its place
      have hlen := congrArg length hpath
      rw [length_append, length_singleton] at hlen
      have hne : q ++ [k] ≠ p ++ [i] := by
        intro heq
        have := congrArg length heq
        simp only [length_append, length_singleton] at this
        omega
      rw [if_pos hpath, if_neg hne, hpath, h.empty]
      exact h.bare (by omega) k
    · rw [if_neg hpath]
      by_cases hnew : q ++ [k] = p ++ [i]
      · obtain ⟨rfl, hk⟩ := append_inj' hnew rfl
        cases hk
        rw [if_pos rfl, ht]
        exact h.hung t ht
      · rw [if_neg hnew]
        cases hb : follow child a q with
        | none => rfl
        | some b =>
          refine h.other q b k (by omega) hb (not_and_or.1 fun hsame => hnew ?_)
          rw [hsame.1, hsame.2]

/-- **Hanging a fresh node into a tree keeps its paths apart.** -/
theorem Distinct.hang (hd : Distinct child a d) (h : Hangs child child' a d p i g)
    (ht : follow child a p = some t)
    (hfresh : ∀ q, q.length ≤ d → follow child a q ≠ some g) : Distinct child' a d := by
  intro q r b hq hr hqb hrb
  rw [follow_hang h ht hq] at hqb
  rw [follow_hang h ht hr] at hrb
  by_cases hqn : q = p ++ [i] <;> by_cases hrn : r = p ++ [i]
  · rw [hqn, hrn]
  · rw [if_pos hqn, some_inj] at hqb
    rw [if_neg hrn, ← hqb] at hrb
    exact absurd hrb (hfresh r hr)
  · rw [if_pos hrn, some_inj] at hrb
    rw [if_neg hqn, ← hrb] at hqb
    exact absurd hqb (hfresh q hq)
  · rw [if_neg hqn] at hqb
    rw [if_neg hrn] at hrb
    exact hd q r b hq hr hqb hrb

end Hang

/-! ### Collecting the nodes -/

variable {idx : List ι}

/-- **The collected nodes are those at the end of the paths.** -/
theorem mem_collect (hidx : ∀ a i b, child a i = some b → i ∈ idx) :
    b ∈ collect child idx d a ↔ ∃ p, p.length ≤ d ∧ follow child a p = some b := by
  induction d generalizing a with
  | zero =>
    rw [collect, mem_singleton]
    constructor
    · rintro rfl
      exact ⟨[], Nat.le_refl _, rfl⟩
    · rintro ⟨p, hp, h⟩
      rw [eq_nil_of_length_eq_zero (le_zero.1 hp), follow_nil, some_inj] at h
      exact h.symm
  | succ d ih =>
    rw [collect, mem_append, mem_flatMap, mem_singleton]
    constructor
    · rintro (⟨i, -, hb⟩ | rfl)
      · cases hc : child a i with
        | none =>
          rw [hc] at hb
          exact nomatch hb
        | some c =>
          rw [hc] at hb
          obtain ⟨p, hp, h⟩ := ih.1 hb
          exact ⟨i :: p, succ_le_succ hp, by rw [follow_cons, hc]; exact h⟩
      · exact ⟨[], zero_le _, rfl⟩
    · rintro ⟨p, hp, h⟩
      cases p with
      | nil => exact .inr (some_inj.1 h).symm
      | cons i p =>
        rw [follow_cons, bind_eq_some_iff] at h
        obtain ⟨c, hc, h⟩ := h
        refine .inl ⟨i, hidx a i c hc, ?_⟩
        rw [hc]
        exact ih.2 ⟨p, le_of_succ_le_succ hp, h⟩

lemma Distinct.below (hd : Distinct child a (d + 1)) (hc : child a i = some b) :
    Distinct child b d := by
  intro p q c hp hq hpc hqc
  have h := hd (i :: p) (i :: q) c (succ_le_succ hp) (succ_le_succ hq)
    (by rw [follow_cons, hc]; exact hpc) (by rw [follow_cons, hc]; exact hqc)
  exact cons_inj_right i |>.1 h

/-- **Every node is collected once.** -/
theorem nodup_collect (hidx : ∀ a i b, child a i = some b → i ∈ idx) (hnodup : idx.Nodup)
    (hd : Distinct child a d) : (collect child idx d a).Nodup := by
  induction d generalizing a with
  | zero => exact nodup_singleton a
  | succ d ih =>
    -- a node collected below index `i` is at the end of a path that begins with `i`
    have hpath : ∀ i b, b ∈ (child a i).elim [] (collect child idx d) →
        ∃ p, (i :: p).length ≤ d + 1 ∧ follow child a (i :: p) = some b := by
      intro i b hb
      cases hc : child a i with
      | none =>
        rw [hc] at hb
        exact nomatch hb
      | some c =>
        rw [hc] at hb
        obtain ⟨p, hp, h⟩ := (mem_collect hidx).1 hb
        exact ⟨p, succ_le_succ hp, by rw [follow_cons, hc]; exact h⟩
    rw [collect]
    refine nodup_append.2 ⟨nodup_flatMap.2 ⟨fun i _ => ?_, ?_⟩, nodup_singleton a, ?_⟩
    · cases hc : child a i with
      | none => exact nodup_nil
      | some c => exact ih (hd.below hc)
    · refine hnodup.imp fun {i k} hik b hb hb' => ?_
      obtain ⟨p, hp, hpb⟩ := hpath i b hb
      obtain ⟨q, hq, hqb⟩ := hpath k b hb'
      exact hik (cons.inj (hd _ _ b hp hq hpb hqb)).1
    · intro b hb c hc
      rw [mem_singleton] at hc
      subst hc
      rintro rfl
      obtain ⟨i, -, hb⟩ := mem_flatMap.1 hb
      obtain ⟨p, hp, hpb⟩ := hpath i b hb
      exact nomatch hd _ [] b hp (zero_le _) hpb rfl

end Radix
