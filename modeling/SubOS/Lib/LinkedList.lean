import Mathlib.Data.List.Chain
import Mathlib.Data.List.Nodup

set_option autoImplicit false

/-!
# Circular doubly linked lists

Intrusive lists: every node has a link to the next and to the previous node, a list is given by a
head node, and the links of the last node and of the head close the circle. The operations write
single links.

## Main definitions

* `Links.addTail`, `Links.del`, `Links.Ring` — the operations; the nodes between head and head.

## Main results

* `Links.Ring.addTail`, `Links.Ring.del` — what the operations do to the nodes.
* `Links.Ring.unique`, `Links.Ring.walk_eq` — the links determine the nodes.
-/

namespace LinkedList

open List

/-- The links of the nodes; `none` is the null pointer. -/
structure Links (N : Type*) where
  next : N → Option N
  prev : N → Option N

namespace Links

variable {N : Type*} {a b : N}

def null : Links N := ⟨fun _ => none, fun _ => none⟩

section Operations

variable [DecidableEq N]

/-! ## Operations -/

/-- Write the link to the next node. -/
def setNext (L : Links N) (n : N) (x : Option N) : Links N :=
  { L with next := Function.update L.next n x }

/-- Write the link to the previous node. -/
def setPrev (L : Links N) (n : N) (x : Option N) : Links N :=
  { L with prev := Function.update L.prev n x }

/-- Make `h` a list without nodes. -/
def init (L : Links N) (h : N) : Links N := (L.setNext h (some h)).setPrev h (some h)

/-- Link `n` between the neighbours `p` and `x`. -/
def insert (L : Links N) (n p x : N) : Links N :=
  (((L.setPrev x (some n)).setNext n (some x)).setPrev n (some p)).setNext p (some n)

/-- Link `n` in front of the head, that is, behind the last node. -/
def addTail (L : Links N) (n h : N) : Links N :=
  match L.prev h with
  | none => L
  | some p => L.insert n p h

/-- Unlink `n`. -/
def del (L : Links N) (n : N) : Links N :=
  match L.next n, L.prev n with
  | some x, some p => (((L.setPrev x (some p)).setNext p (some x)).setNext n none).setPrev n none
  | _, _ => L

/-- The nodes met when following the links from `n` until `h`, at most `k` of them. -/
def walk (L : Links N) (h : N) : ℕ → Option N → List N
  | 0, _ => []
  | _ + 1, none => []
  | k + 1, some n => if n = h then [] else n :: walk L h k (L.next n)

end Operations

/-! ## Lists -/

/-- `a` and `b` are neighbours, in this order. -/
def Linked (L : Links N) (a b : N) : Prop := L.next a = some b ∧ L.prev b = some a

instance [DecidableEq N] (L : Links N) : DecidableRel L.Linked := fun a b =>
  inferInstanceAs (Decidable (L.next a = some b ∧ L.prev b = some a))

/-- From `h` the links lead through the distinct nodes `xs` and back to `h`. -/
structure Ring (L : Links N) (h : N) (xs : List N) : Prop where
  chain : (h :: xs ++ [h]).IsChain L.Linked
  nodup : (h :: xs).Nodup

lemma Linked.next_inj {L : Links N} {c : N} (h : L.Linked a b) (h' : L.Linked a c) : b = c :=
  Option.some.inj (h.1.symm.trans h'.1)

lemma Linked.prev_inj {L : Links N} {c : N} (h : L.Linked a c) (h' : L.Linked b c) : a = b :=
  Option.some.inj (h.2.symm.trans h'.2)

namespace Ring

variable {L L' : Links N} {h g n : N} {xs ys zs : List N}

lemma head_notMem (hr : L.Ring h xs) : h ∉ xs := (nodup_cons.1 hr.nodup).1

lemma congr (hr : L.Ring h xs) (hnext : ∀ a ∈ h :: xs, L'.next a = L.next a)
    (hprev : ∀ a ∈ h :: xs, L'.prev a = L.prev a) : L'.Ring h xs where
  chain := by
    refine hr.chain.imp_of_mem_imp fun a b ha hb hab => ?_
    have hmem : ∀ c ∈ h :: xs ++ [h], c ∈ h :: xs := by
      intro c hc
      simpa [or_comm, or_assoc] using hc
    exact ⟨(hnext a (hmem a ha)).trans hab.1, (hprev b (hmem b hb)).trans hab.2⟩
  nodup := hr.nodup

lemma exists_last (hr : L.Ring h xs) :
    ∃ p ∈ (h :: xs).getLast?, L.Linked p h ∧ (h :: xs).IsChain L.Linked := by
  obtain ⟨hl, -, hlast⟩ := isChain_append.1 hr.chain
  obtain ⟨p, hp⟩ : ∃ p, (h :: xs).getLast? = some p := ⟨_, getLast?_eq_some_getLast (by simp)⟩
  exact ⟨p, hp, hlast p hp h rfl, hl⟩

lemma exists_neighbours (hr : L.Ring h (xs ++ n :: ys)) :
    ∃ p ∈ (h :: xs).getLast?, ∃ x ∈ (ys ++ [h]).head?, L.Linked p n ∧ L.Linked n x ∧
      (h :: xs).IsChain L.Linked ∧ (ys ++ [h]).IsChain L.Linked := by
  have hchain := hr.chain
  rw [show h :: (xs ++ n :: ys) ++ [h] = (h :: xs) ++ n :: (ys ++ [h]) by simp] at hchain
  obtain ⟨hl, hrest, hlast⟩ := isChain_append.1 hchain
  obtain ⟨hfirst, hl'⟩ := isChain_cons.1 hrest
  obtain ⟨p, hp⟩ : ∃ p, (h :: xs).getLast? = some p := ⟨_, getLast?_eq_some_getLast (by simp)⟩
  obtain ⟨x, hx⟩ : ∃ x, (ys ++ [h]).head? = some x := ⟨_, head?_eq_some_head (by simp)⟩
  exact ⟨p, hp, x, hx, hlast p hp n rfl, hfirst x hx, hl, hl'⟩

/-- The links determine the nodes: two ways from `a` to `h` are one.

**Proof sketch.** Induction on the first way. The first node of both is the successor of `a`, and
neither way ends before the other, since `h` is on neither. -/
lemma eq_of_isChain (hx : (a :: xs ++ [h]).IsChain L.Linked)
    (hy : (a :: ys ++ [h]).IsChain L.Linked) (hxs : h ∉ xs) (hys : h ∉ ys) : xs = ys := by
  induction xs generalizing a ys with
  | nil =>
    cases ys with
    | nil => rfl
    | cons y ys =>
      have heq : h = y := (isChain_cons_cons.1 hx).1.next_inj (isChain_cons_cons.1 hy).1
      exact absurd (heq ▸ mem_cons_self) hys
  | cons x xs ih =>
    cases ys with
    | nil =>
      have heq : x = h := (isChain_cons_cons.1 hx).1.next_inj (isChain_cons_cons.1 hy).1
      exact absurd (heq ▸ mem_cons_self) hxs
    | cons y ys =>
      obtain ⟨hax, hx'⟩ := isChain_cons_cons.1 hx
      obtain ⟨hay, hy'⟩ := isChain_cons_cons.1 hy
      obtain rfl : x = y := hax.next_inj hay
      rw [ih hx' hy' (not_mem_of_not_mem_cons hxs) (not_mem_of_not_mem_cons hys)]

/-- **The links determine the nodes.** -/
theorem unique (hx : L.Ring h xs) (hy : L.Ring h ys) : xs = ys :=
  eq_of_isChain hx.chain hy.chain hx.head_notMem hy.head_notMem

lemma next_head (hr : L.Ring h xs) : L.next h = some (xs.head?.getD h) := by
  have hchain := hr.chain
  cases xs with
  | nil | cons x xs => exact (isChain_cons_cons.1 hchain).1.1

lemma next_of_mem (hr : L.Ring h (xs ++ n :: ys)) : ∃ x, L.next n = some x ∧ x ≠ n := by
  obtain ⟨-, -, x, hx, -, hnx, -, -⟩ := hr.exists_neighbours
  refine ⟨x, hnx.1, ?_⟩
  rintro rfl
  have hnodup := hr.nodup
  rw [nodup_cons, nodup_append, nodup_cons] at hnodup
  obtain ⟨hh, -, ⟨hnys, -⟩, -⟩ := hnodup
  rcases mem_append.1 (mem_of_head? hx) with hx | hx
  · exact hnys hx
  · exact hh (mem_singleton.1 hx ▸ by simp)

/-! ## The operations -/

variable [DecidableEq N]

lemma init_other (hr : L.Ring h xs) (hg : g ∉ h :: xs) : (L.init g).Ring h xs := by
  have hne : ∀ a ∈ h :: xs, a ≠ g := fun a ha e => hg (e ▸ ha)
  exact hr.congr (fun a ha => Function.update_of_ne (hne a ha) _ _)
    fun a ha => Function.update_of_ne (hne a ha) _ _

attribute [local simp] setPrev setNext insert

/-- **Linking a node at the end.**

**Proof sketch.** Only the links of the last node, of the head and of the new node are written.
Inside the list neighbours stay neighbours: the last node has no successor there, and the head no
predecessor. -/
theorem addTail (hr : L.Ring h xs) (hn : n ∉ h :: xs) : (L.addTail n h).Ring h (xs ++ [n]) := by
  obtain ⟨p, hp, hph, hl⟩ := hr.exists_last
  have hpmem : p ∈ h :: xs := mem_of_getLast? hp
  have hpn : p ≠ n := fun e => hn (e ▸ hpmem)
  have hhn : h ≠ n := fun e => hn (e ▸ mem_cons_self)
  have hadd : L.addTail n h = L.insert n p h := by simp [Links.addTail, hph.2]
  rw [hadd]
  refine ⟨?_, ?_⟩
  · rw [show h :: (xs ++ [n]) ++ [h] = (h :: xs) ++ [n, h] by simp]
    refine isChain_append.2 ⟨?_, ?_, ?_⟩
    · refine hl.imp_of_mem_tail_imp fun a b ha hb hab => ?_
      have hbh : b ≠ h := fun e => hr.head_notMem (e ▸ hb)
      have hap : a ≠ p := by
        rintro rfl
        exact hbh (hab.next_inj hph)
      have han : a ≠ n := fun e => hn (e ▸ ha)
      have hbn : b ≠ n := fun e => hn (e ▸ mem_cons_of_mem _ hb)
      refine ⟨?_, ?_⟩
      · simp [hap, han, hab.1]
      · simp [hbh, hbn, hab.2]
    · simp [Linked, hhn, hpn.symm]
    · intro a ha b hb
      obtain rfl : p = a := Option.some.inj (hp.symm.trans ha)
      obtain rfl : n = b := Option.some.inj hb
      simp [Linked]
  · rw [← cons_append, nodup_append_comm]
    exact nodup_cons.2 ⟨hn, hr.nodup⟩

lemma addTail_other (hg : L.Ring g ys) (hr : L.Ring h xs) (hn : n ∉ g :: ys)
    (hdisj : ∀ a ∈ g :: ys, a ∉ h :: xs) : (L.addTail n h).Ring g ys := by
  obtain ⟨p, hp, hph, -⟩ := hr.exists_last
  have hpmem : p ∈ h :: xs := mem_of_getLast? hp
  have hadd : L.addTail n h = L.insert n p h := by simp [Links.addTail, hph.2]
  rw [hadd]
  refine hg.congr (fun a ha => ?_) fun a ha => ?_
  · have hap : a ≠ p := fun e => hdisj a ha (e ▸ hpmem)
    have han : a ≠ n := fun e => hn (e ▸ ha)
    simp [hap, han]
  · have hah : a ≠ h := fun e => hdisj a ha (e ▸ mem_cons_self)
    have han : a ≠ n := fun e => hn (e ▸ ha)
    simp [hah, han]

lemma del_eq {p x : N} (hp : L.Linked p n) (hx : L.Linked n x) :
    L.del n = (((L.setPrev x (some p)).setNext p (some x)).setNext n none).setPrev n none := by
  simp [Links.del, hx.1, hp.2]

lemma linked_del {p x : N} (hp : L.Linked p n) (hx : L.Linked n x) (han : a ≠ n) (hbn : b ≠ n)
    (hab : L.Linked a b) : (L.del n).Linked a b := by
  have hap : a ≠ p := by
    rintro rfl
    exact hbn (hab.next_inj hp)
  have hbx : b ≠ x := by
    rintro rfl
    exact han (hab.prev_inj hx)
  rw [del_eq hp hx]
  exact ⟨by simp [han, hap, hab.1], by simp [hbn, hbx, hab.2]⟩

/-- **Unlinking a node.** -/
theorem del (hr : L.Ring h (xs ++ n :: ys)) : (L.del n).Ring h (xs ++ ys) := by
  obtain ⟨p, hp, x, hx, hpn, hnx, hl, hl'⟩ := hr.exists_neighbours
  have hnodup := hr.nodup
  rw [← cons_append, nodup_append] at hnodup
  obtain ⟨hnd, hnd', hdisj⟩ := hnodup
  have hnl : ∀ a ∈ h :: xs, a ≠ n := fun a ha => hdisj a ha n mem_cons_self
  have hnr : ∀ a ∈ ys ++ [h], a ≠ n := by
    intro a ha
    rcases mem_append.1 ha with ha | ha
    · exact fun e => (nodup_cons.1 hnd').1 (e ▸ ha)
    · exact mem_singleton.1 ha ▸ hnl h mem_cons_self
  refine ⟨?_, ?_⟩
  · rw [show h :: (xs ++ ys) ++ [h] = (h :: xs) ++ (ys ++ [h]) by simp]
    refine isChain_append.2 ⟨?_, ?_, ?_⟩
    · exact hl.imp_of_mem_imp fun a b ha hb => linked_del hpn hnx (hnl a ha) (hnl b hb)
    · exact hl'.imp_of_mem_imp fun a b ha hb => linked_del hpn hnx (hnr a ha) (hnr b hb)
    · intro a ha b hb
      obtain rfl : p = a := Option.some.inj (hp.symm.trans ha)
      obtain rfl : x = b := Option.some.inj (hx.symm.trans hb)
      have hpn' : p ≠ n := hnl p (mem_of_getLast? hp)
      have hxn : x ≠ n := hnr x (mem_of_head? hx)
      rw [del_eq hpn hnx]
      simp [Linked, hpn', hxn]
  · rw [← cons_append, nodup_append]
    exact ⟨hnd, (nodup_cons.1 hnd').2, fun a ha b hb => hdisj a ha b (mem_cons_of_mem _ hb)⟩

lemma del_other (hg : L.Ring g zs) (hr : L.Ring h (xs ++ n :: ys))
    (hdisj : ∀ a ∈ g :: zs, a ∉ h :: (xs ++ n :: ys)) : (L.del n).Ring g zs := by
  obtain ⟨p, hp, x, hx, hpn, hnx, -, -⟩ := hr.exists_neighbours
  have hpmem : p ∈ h :: (xs ++ n :: ys) := by
    exact mem_append_left _ (mem_of_getLast? hp)
  have hxmem : x ∈ h :: (xs ++ n :: ys) := by
    rcases mem_append.1 (mem_of_head? hx) with hx | hx
    · simp [hx]
    · simp [mem_singleton.1 hx]
  have hne : ∀ a ∈ g :: zs, a ≠ n := fun a ha e => hdisj a ha (by simp [e])
  rw [del_eq hpn hnx]
  refine hg.congr (fun a ha => ?_) fun a ha => ?_
  · have hap : a ≠ p := fun e => hdisj a ha (e ▸ hpmem)
    simp [hne a ha, hap]
  · have hax : a ≠ x := fun e => hdisj a ha (e ▸ hxmem)
    simp [hne a ha, hax]

lemma next_addTail (hr : L.Ring h xs) (ha : a ∉ h :: xs) (han : a ≠ n) :
    (L.addTail n h).next a = L.next a := by
  obtain ⟨p, hp, hph, -⟩ := hr.exists_last
  have hap : a ≠ p := fun e => ha (e ▸ mem_of_getLast? hp)
  have hadd : L.addTail n h = L.insert n p h := by simp [Links.addTail, hph.2]
  simp [hadd, hap, han]

lemma next_del_self (hr : L.Ring h (xs ++ n :: ys)) : (L.del n).next n = none := by
  obtain ⟨p, -, x, -, hpn, hnx, -, -⟩ := hr.exists_neighbours
  simp [del_eq hpn hnx]

lemma next_del (hr : L.Ring h (xs ++ n :: ys)) (ha : a ∉ h :: (xs ++ n :: ys)) :
    (L.del n).next a = L.next a := by
  obtain ⟨p, hp, x, -, hpn, hnx, -, -⟩ := hr.exists_neighbours
  have hap : a ≠ p := by
    rintro rfl
    refine ha ?_
    exact mem_append_left _ (mem_of_getLast? hp)
  have han : a ≠ n := fun e => ha (by simp [e])
  simp [del_eq hpn hnx, hap, han]

lemma walk_eq_of_isChain {k : ℕ} (hx : (a :: xs ++ [h]).IsChain L.Linked) (hh : h ∉ xs)
    (hk : xs.length ≤ k) : L.walk h k (L.next a) = xs := by
  induction xs generalizing a k with
  | nil =>
    have hnext := (isChain_cons_cons.1 hx).1.1
    cases k with
    | zero => rfl
    | succ k => simp [walk, hnext]
  | cons x xs ih =>
    obtain ⟨hax, hx'⟩ := isChain_cons_cons.1 hx
    obtain ⟨k, rfl⟩ : ∃ k', k = k' + 1 := ⟨k - 1, by simp at hk; omega⟩
    have hxh : x ≠ h := fun e => hh (e ▸ mem_cons_self)
    rw [hax.1, walk, if_neg hxh]
    rw [ih hx' (not_mem_of_not_mem_cons hh) (Nat.le_of_succ_le_succ hk)]

/-- **Following the links from the head gives the nodes.** -/
theorem walk_eq (hr : L.Ring h xs) {k : ℕ} (hk : xs.length ≤ k) : L.walk h k (L.next h) = xs :=
  walk_eq_of_isChain hr.chain hr.head_notMem hk

end Ring

end Links

end LinkedList
