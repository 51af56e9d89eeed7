import Mathlib.Data.Set.Card
import Mathlib.Order.Interval.Finset.Nat
import SubOS.Lib.Radix
import SubOS.Mm.Vmspace

set_option autoImplicit false

/-!
# The tree of page tables of an address space

The tables below the user slot, with the pages they map, are a tree of frames in physical memory. An
address space owns the frames of its tree: they were free before, each is at one place, and nothing
else in memory has changed.

## Main definitions

* `Space.node` — the table or page at a path from the root.
* `Space.Owns` — the address space owns the frames of its tree.
* `Space.Installed`, `Space.SameTree` — a frame is hung into the tree; the tree stays.

## Main results

* `Space.Owns.install`, `Space.Owns.of_sameTree` — the two kinds of changes keep the frames owned.

## Design

Only the user slot of the root belongs to the tree: the first entry of the root leads to the tables
of the kernel, and the others are empty. Paths have up to four indices; those of four lead to pages.
-/

namespace SubOS.Mm

open Nat ByteMemory

/-! ## Entries -/

section Entries

variable {a e f : ℕ}

/-- An aligned address is its own page. -/
lemma pageDown_of_mod (h : a % 4096 = 0) : pageDown a = a :=
  Nat.div_mul_cancel (dvd_of_mod_eq_zero h)

/-- Flags do not change the page that an entry points to. -/
lemma pageDown_or (hf : f < 4096) : pageDown (a ||| f) = pageDown a := by
  have hzero : f / 2 ^ 12 = 0 := div_eq_of_lt hf
  have hdiv : (a ||| f) / 2 ^ 12 = a / 2 ^ 12 := by
    rw [or_div_two_pow, hzero, or_zero]
  unfold pageDown
  rw [show 4096 = 2 ^ 12 from rfl, hdiv]

/-- An aligned address has no flags. -/
lemma testBit_of_mod (h : a % 4096 = 0) {j : ℕ} (hj : j < 12) : a.testBit j = false := by
  obtain ⟨k, rfl⟩ := dvd_of_mod_eq_zero h
  have hnot : ¬ 12 ≤ j := by omega
  rw [show 4096 = 2 ^ 12 from rfl, mul_comm, testBit_mul_two_pow]
  simp [hnot]

/-- The tests of an entry that flags are added to. -/
@[simp] lemma isPresent_or : isPresent (e ||| f) = (isPresent e || isPresent f) := testBit_or ..

@[simp] lemma isWritable_or : isWritable (e ||| f) = (isWritable e || isWritable f) :=
  testBit_or ..

@[simp] lemma isUser_or : isUser (e ||| f) = (isUser e || isUser f) := testBit_or ..

@[simp] lemma isHuge_or : isHuge (e ||| f) = (isHuge e || isHuge f) := testBit_or ..

section

variable (prot : Prot)

/-- The flags that stand for the rights of a page. -/
@[simp] lemma isPresent_archFlagsOf : isPresent (archFlagsOf prot) = true := by
  rcases prot with ⟨_ | _, _ | _⟩ <;> rfl

@[simp] lemma isWritable_archFlagsOf : isWritable (archFlagsOf prot) = prot.write := by
  rcases prot with ⟨_ | _, _ | _⟩ <;> rfl

@[simp] lemma isUser_archFlagsOf : isUser (archFlagsOf prot) = prot.user := by
  rcases prot with ⟨_ | _, _ | _⟩ <;> rfl

@[simp] lemma isHuge_archFlagsOf : isHuge (archFlagsOf prot) = false := by
  rcases prot with ⟨_ | _, _ | _⟩ <;> rfl

/-- The flags are below the address of the page. -/
lemma archFlagsOf_lt : archFlagsOf prot < 4096 := by
  rcases prot with ⟨_ | _, _ | _⟩ <;> decide

end

end Entries

/-! ## Frames -/

/-- The address of a frame that the kernel can address. -/
structure IsFrame (a : ℕ) : Prop where
  aligned : a % 4096 = 0
  pos : 0 < a
  low : a < identityMapLimit

section Frames

variable {m : ByteMemory} {t t' g i k e : ℕ}

/-- Writing an entry leaves the other entries. -/
lemma load_store_entry (ht : t % 4096 = 0) (ht' : t' % 4096 = 0) (hi : i < 512) (hk : k < 512)
    (hne : t' ≠ t ∨ k ≠ i) : (m.store (t + 8 * i) 8 e).load (t' + 8 * k) 8 =
      m.load (t' + 8 * k) 8 := by
  refine load_store_apart ?_
  rcases hne with hne | hne <;> omega

/-- An entry is read as it was written. -/
lemma load_store_entry_self (he : e < 2 ^ 64) :
    (m.store (t + 8 * i) 8 e).load (t + 8 * i) 8 = e := by
  rw [load_store_self]
  exact mod_eq_of_lt he

/-- Clearing a frame leaves the entries of the other tables. -/
lemma load_fill_entry (ht : t % 4096 = 0) (hg : g % 4096 = 0) (hk : k < 512) (hne : t ≠ g) :
    (m.fill g vmPageSize 0).load (t + 8 * k) 8 = m.load (t + 8 * k) 8 := by
  refine (sameOutside_fill m g vmPageSize 0).load_eq ?_
  rw [vmPageSize]
  omega

/-- The entries of a cleared frame are zero. -/
lemma load_fill_self (hk : k < 512) : (m.fill g vmPageSize 0).load (g + 8 * k) 8 = 0 := by
  have hzero : ∀ j < 8, m.fill g vmPageSize 0 (g + 8 * k + j) = UInt8.ofNat (0 / 256 ^ j) := by
    intro j hj
    rw [fill, if_pos (by rw [vmPageSize]; omega), Nat.zero_div]
    rfl
  rw [load_of_bytes hzero, zero_mod]

end Frames

/-! ## The tree -/

namespace Space

/-- The table or page that an entry of a table points to, in the private part of the tree: below
the root only the user slot counts. -/
def child (s : Space) (t i : ℕ) : Option ℕ :=
  let e := s.entryAt (t + 8 * i)
  if i < entriesPerTable ∧ (t = s.pml4Phys → i = userPml4Slot) ∧ isPresent e = true ∧
      isHuge e = false then
    some (pageDown e)
  else none

/-- The table or page at a path from the root: tables at the paths of up to three indices, pages
at those of four. -/
def node (s : Space) (p : List ℕ) : Option ℕ := Radix.follow s.child s.pml4Phys p

/-- The address space, built from the memory `m₀` and the page allocator `p₀`, owns the frames of
its tree and has changed nothing else. -/
structure Owns (m₀ : ByteMemory) (p₀ : Pmm) (s : Space) : Prop where
  /-- No frame is at two places. -/
  distinct : Radix.Distinct s.child s.pml4Phys 4
  frame : ∀ p a, p.length ≤ 4 → s.node p = some a → IsFrame a
  /-- The frames were free, and are the only ones that have been taken. -/
  fresh : ∀ p a, p.length ≤ 4 → s.node p = some a →
    p₀.used (a / 4096) = false ∧ a / 4096 < p₀.totalPages
  used : ∀ j, s.pmm.used j = true ↔
    p₀.used j = true ∨ ∃ p, p.length ≤ 4 ∧ s.node p = some (j * 4096)
  total : s.pmm.totalPages = p₀.totalPages
  /-- The frames that have been taken are counted. -/
  tally : s.pmm.usedPages = p₀.usedPages + {j | s.pmm.used j = true ∧ p₀.used j = false}.ncard
  /-- The first entry of the root is the kernel's. -/
  shared : s.entryAt (s.pml4Phys + 8 * 0) = m₀.load kernelPml4Phys 8
  /-- No entry is huge, and those above the last level leave the rights to the last. -/
  plain : ∀ p t i, p.length < 4 → s.node p = some t → i < entriesPerTable →
    (t = s.pml4Phys → i = userPml4Slot) → isPresent (s.entryAt (t + 8 * i)) = true →
      isHuge (s.entryAt (t + 8 * i)) = false ∧ (p.length < 3 →
        isWritable (s.entryAt (t + 8 * i)) = true ∧ isUser (s.entryAt (t + 8 * i)) = true)
  outside : ∀ x, (∀ p, p.length ≤ 4 → s.node p ≠ some (pageDown x)) → s.mem x = m₀ x

variable {m₀ : ByteMemory} {p₀ : Pmm} {s s' : Space} {p : List ℕ} {t i g fl : ℕ}

/-- An absent entry leads nowhere. -/
lemma child_of_absent (h : isPresent (s.entryAt (t + 8 * i)) = false) : s.child t i = none := by
  simp [child, h]

/-- A present entry leads to its page. -/
lemma child_of_present (hi : i < entriesPerTable) (hroot : t = s.pml4Phys → i = userPml4Slot)
    (hpres : isPresent (s.entryAt (t + 8 * i)) = true)
    (hhuge : isHuge (s.entryAt (t + 8 * i)) = false) :
    s.child t i = some (pageDown (s.entryAt (t + 8 * i))) := by
  rw [child]
  exact if_pos ⟨hi, hroot, hpres, hhuge⟩

/-- Where an entry leads depends on the entry only. -/
lemma child_congr (hroot : s'.pml4Phys = s.pml4Phys)
    (h : i < entriesPerTable → s'.entryAt (t + 8 * i) = s.entryAt (t + 8 * i)) :
    s'.child t i = s.child t i := by
  unfold child
  by_cases hi : i < entriesPerTable
  · rw [h hi, hroot]
  · simp [hi]

/-- The empty path leads to the root. -/
lemma node_nil (s : Space) : s.node [] = some s.pml4Phys := rfl

/-- A longer path leads one entry further. -/
lemma node_concat : s.node (p ++ [i]) = (s.node p).bind (s.child · i) := Radix.follow_concat

namespace Owns

/-- The root is at the empty path only. -/
lemma eq_nil (h : Owns m₀ p₀ s) (hp : p.length ≤ 4) (hnode : s.node p = some s.pml4Phys) : p = [] :=
  h.distinct p [] _ hp (zero_le _) hnode rfl

/-- The other frames are not the root. -/
lemma ne_root (h : Owns m₀ p₀ s) (hp : p.length ≤ 4) (hne : p ≠ []) (hnode : s.node p = some t) :
    t ≠ s.pml4Phys := by
  rintro rfl
  exact hne (h.eq_nil hp hnode)

/-- A free frame is not in the tree. -/
lemma not_node_of_free (h : Owns m₀ p₀ s) {j : ℕ} (hj : s.pmm.used j = false)
    (hp : p.length ≤ 4) : s.node p ≠ some (j * 4096) := by
  intro hnode
  have hused : s.pmm.used j = true := (h.used j).2 (.inr ⟨p, hp, hnode⟩)
  cases hj.symm.trans hused

/-- The frames that have been taken are finitely many. -/
lemma finite_taken (h : Owns m₀ p₀ s) : {j | s.pmm.used j = true ∧ p₀.used j = false}.Finite := by
  refine (Set.finite_Iio p₀.totalPages).subset ?_
  rintro j ⟨hused, hfree⟩
  rcases (h.used j).1 hused with hold | ⟨p, hp, hnode⟩
  · cases hfree.symm.trans hold
  · have hlt := (h.fresh p _ hp hnode).2
    rwa [Nat.mul_div_cancel j (by decide)] at hlt

/-- Entries of different tables or with different indices are at different places. -/
lemma apart (h : Owns m₀ p₀ s) {q : List ℕ} {b k : ℕ} (hq : q.length ≤ 4) (hp : p.length ≤ 4)
    (hb : s.node q = some b) (ht : s.node p = some t) (hne : q ≠ p ∨ k ≠ i) : b ≠ t ∨ k ≠ i :=
  hne.imp_left fun hqp heq => hqp (h.distinct q p b hq hp hb (heq ▸ ht))

end Owns

/-- The state after a cleared frame `g`, the page `j` of the allocator, has been hung under entry
`i` of the table `t`. -/
structure Installed (s s' : Space) (t i j fl : ℕ) : Prop where
  root : s'.pml4Phys = s.pml4Phys
  mem : s'.mem = (s.mem.fill (j * 4096) vmPageSize 0).store (t + 8 * i) 8 (j * 4096 ||| fl)
  used : s'.pmm.used = Function.update s.pmm.used j true
  total : s'.pmm.totalPages = s.pmm.totalPages
  count : s'.pmm.usedPages = s.pmm.usedPages + 1

/-- What has to hold for that. -/
structure Installable (s : Space) (p : List ℕ) (t i j fl : ℕ) : Prop where
  short : p.length < 4
  node : s.node p = some t
  index : i < entriesPerTable
  slot : p = [] → i = userPml4Slot
  absent : isPresent (s.entryAt (t + 8 * i)) = false
  free : s.pmm.used j = false
  bound : j < s.pmm.totalPages
  frame : IsFrame (j * 4096)
  small : fl < 4096
  present : isPresent fl = true
  notHuge : isHuge fl = false
  rights : p.length < 3 → isWritable fl = true ∧ isUser fl = true

section Install

variable {j : ℕ} {q : List ℕ}

/-- The new frame is none of the tree. -/
lemma Installable.ne_of_node (ho : Owns m₀ p₀ s) (h : Installable s p t i j fl)
    {b : ℕ} (hq : q.length ≤ 4) (hb : s.node q = some b) : b ≠ j * 4096 := by
  rintro rfl
  exact ho.not_node_of_free h.free hq hb

/-- In the root only the user slot is written. -/
lemma Installable.root (ho : Owns m₀ p₀ s) (h : Installable s p t i j fl)
    (ht : t = s.pml4Phys) : i = userPml4Slot :=
  h.slot (ho.eq_nil (le_of_lt h.short) (ht ▸ h.node))

/-- The other entries stay. -/
lemma Installed.entryAt_other (ho : Owns m₀ p₀ s) (hc : Installable s p t i j fl)
    (h : Installed s s' t i j fl) {b k : ℕ} (hq : q.length ≤ 4)
    (hb : s.node q = some b) (hk : k < entriesPerTable) (hne : q ≠ p ∨ k ≠ i) :
    s'.entryAt (b + 8 * k) = s.entryAt (b + 8 * k) := by
  have hbf := (ho.frame q b hq hb).aligned
  have htf := (ho.frame p t (le_of_lt hc.short) hc.node).aligned
  have hapart := ho.apart hq (le_of_lt hc.short) hb hc.node hne
  unfold entryAt
  rw [h.mem, load_store_entry htf hbf hc.index hk hapart,
    load_fill_entry hbf hc.frame.aligned hk (hc.ne_of_node ho hq hb)]

/-- The entry that is written. -/
lemma Installed.entryAt_self (hc : Installable s p t i j fl) (h : Installed s s' t i j fl) :
    s'.entryAt (t + 8 * i) = j * 4096 ||| fl := by
  have hlow := hc.frame.low
  have hsmall := hc.small
  rw [identityMapLimit] at hlow
  unfold entryAt
  rw [h.mem, load_store_entry_self]
  exact or_lt_two_pow (by omega) (by omega)

section

variable (ho : Owns m₀ p₀ s) (hc : Installable s p t i j fl) (h : Installed s s' t i j fl)
include ho hc h

/-- The new frame has no entries. -/
lemma Installed.entryAt_new {k : ℕ} (hk : k < entriesPerTable) :
    s'.entryAt (j * 4096 + 8 * k) = 0 := by
  have htf := (ho.frame p t (le_of_lt hc.short) hc.node).aligned
  have hne : j * 4096 ≠ t := (hc.ne_of_node ho (le_of_lt hc.short) hc.node).symm
  unfold entryAt
  rw [h.mem, load_store_entry htf hc.frame.aligned hc.index hk (.inl hne), load_fill_self hk]

/-- The entry that is written leads to the new frame. -/
lemma Installed.child_self : s'.child t i = some (j * 4096) := by
  have he := h.entryAt_self hc
  have hmod := hc.frame.aligned
  rw [child_of_present hc.index (fun ht => hc.root ho (ht.trans h.root)), he, pageDown_or hc.small,
    pageDown_of_mod hmod]
  · rw [he, isPresent_or, hc.present, Bool.or_true]
  · rw [he, isHuge_or, hc.notHuge, Bool.or_false]
    exact testBit_of_mod hmod (by decide)

/-- The new frame hangs under the end of the path. -/
lemma Installed.hangs : Radix.Hangs s.child s'.child s.pml4Phys 4 p i (j * 4096) where
  short := hc.short
  empty := by
    show s.node (p ++ [i]) = none
    rw [node_concat, hc.node]
    exact child_of_absent hc.absent
  hung := by
    intro t' ht'
    have heq : t' = t := Option.some_inj.1 (ht'.symm.trans hc.node)
    rw [heq]
    exact h.child_self ho hc
  bare := by
    intro _ k
    by_cases hk : k < entriesPerTable
    · refine child_of_absent ?_
      rw [h.entryAt_new ho hc hk]
      rfl
    · simp [child, hk]
  other := fun q b k hq hb hne =>
    child_congr h.root fun hk => h.entryAt_other ho hc (le_of_lt hq) hb hk hne

/-- The tree has one frame more. -/
lemma Installed.node_eq (hq : q.length ≤ 4) :
    s'.node q = if q = p ++ [i] then some (j * 4096) else s.node q := by
  unfold node
  rw [h.root]
  exact Radix.follow_hang (h.hangs ho hc) hc.node hq

/-- The other frames stay at their places. -/
lemma Installed.node_of_node {b : ℕ} (hq : q.length ≤ 4)
    (hb : s.node q = some b) : s'.node q = some b := by
  rw [h.node_eq ho hc hq, if_neg, hb]
  rintro rfl
  rw [node_concat, hc.node] at hb
  exact nomatch hb.symm.trans (child_of_absent hc.absent)

/-- The bytes outside the new frame and its table stay. -/
lemma Installed.mem_outside {x : ℕ} (hnew : pageDown x ≠ j * 4096) (hold : pageDown x ≠ t) :
    s'.mem x = s.mem x := by
  have htf := (ho.frame p t (le_of_lt hc.short) hc.node).aligned
  have hi := hc.index
  rw [entriesPerTable] at hi
  unfold pageDown at hnew hold
  rw [h.mem, store_of_outside (by omega)]
  exact sameOutside_fill _ _ _ _ x (by rw [vmPageSize]; omega)

/-- **Hanging a fresh frame into the tree** keeps the address space in order. -/
theorem Owns.install : Owns m₀ p₀ s' := by
  have hnode := fun q hq => h.node_eq ho hc (q := q) hq
  have hdiv : j * 4096 / 4096 = j := Nat.mul_div_cancel j (by decide)
  have hlen : (p ++ [i]).length ≤ 4 := by
    rw [List.length_append, List.length_singleton]
    exact hc.short
  have hj : p₀.used j = false := by
    by_contra hused
    rw [Bool.not_eq_false] at hused
    cases hc.free.symm.trans ((ho.used j).2 (.inl hused))
  constructor
  · rw [h.root]
    exact ho.distinct.hang (h.hangs ho hc) hc.node fun q hq => ho.not_node_of_free hc.free hq
  · intro q a hq ha
    rw [hnode q hq] at ha
    split_ifs at ha with hnew
    · rw [← Option.some_inj.1 ha]
      exact hc.frame
    · exact ho.frame q a hq ha
  · intro q a hq ha
    rw [hnode q hq] at ha
    split_ifs at ha with hnew
    · rw [← Option.some_inj.1 ha, hdiv]
      exact ⟨hj, ho.total ▸ hc.bound⟩
    · exact ho.fresh q a hq ha
  · intro k
    rw [h.used]
    by_cases hk : k = j
    · subst hk
      rw [Function.update_self]
      exact ⟨fun _ => .inr ⟨p ++ [i], hlen, by rw [hnode _ hlen, if_pos rfl]⟩, fun _ => rfl⟩
    · rw [Function.update_of_ne hk, ho.used]
      refine or_congr_right ⟨?_, ?_⟩
      · rintro ⟨q, hq, hb⟩
        exact ⟨q, hq, h.node_of_node ho hc hq hb⟩
      · rintro ⟨q, hq, hb⟩
        rw [hnode q hq] at hb
        split_ifs at hb with hnew
        · rw [Option.some_inj] at hb
          omega
        · exact ⟨q, hq, hb⟩
  · rw [h.total, ho.total]
  · have htaken : {k | s'.pmm.used k = true ∧ p₀.used k = false} =
        insert j {k | s.pmm.used k = true ∧ p₀.used k = false} := by
      refine Set.ext fun k => ?_
      show s'.pmm.used k = true ∧ p₀.used k = false ↔
        k = j ∨ s.pmm.used k = true ∧ p₀.used k = false
      rw [h.used]
      by_cases hk : k = j
      · subst hk
        rw [Function.update_self]
        exact iff_of_true ⟨rfl, hj⟩ (.inl rfl)
      · rw [Function.update_of_ne hk]
        exact ⟨.inr, fun hor => hor.resolve_left hk⟩
    have hnew : j ∉ {k | s.pmm.used k = true ∧ p₀.used k = false} := by
      rintro ⟨hused, -⟩
      cases hc.free.symm.trans hused
    rw [htaken, Set.ncard_insert_of_notMem hnew ho.finite_taken, h.count, ho.tally, add_assoc]
  · have hne : ([] : List ℕ) ≠ p ∨ 0 ≠ i := by
      by_cases hp : p = []
      · right
        rw [hc.slot hp]
        decide
      · exact .inl (.symm hp)
    rw [h.root, h.entryAt_other ho hc (q := []) (zero_le 4) s.node_nil (by decide) hne]
    exact ho.shared
  · intro q b k hq hb hk hroot hpres
    rw [hnode q (le_of_lt hq)] at hb
    split_ifs at hb with hnew
    · -- the new frame has no entries
      rw [← Option.some_inj.1 hb, h.entryAt_new ho hc hk] at hpres
      exact nomatch hpres
    · by_cases hself : q = p ∧ k = i
      · obtain ⟨rfl, rfl⟩ := hself
        have hbt : b = t := Option.some_inj.1 (hb.symm.trans hc.node)
        rw [hbt, h.entryAt_self hc]
        refine ⟨?_, fun hshort => ?_⟩
        · rw [isHuge_or, hc.notHuge, Bool.or_false]
          exact testBit_of_mod hc.frame.aligned (by decide)
        · rw [isWritable_or, isUser_or, (hc.rights hshort).1, (hc.rights hshort).2, Bool.or_true,
            Bool.or_true]
          exact ⟨rfl, rfl⟩
      · have hother := h.entryAt_other ho hc (le_of_lt hq) hb hk (not_and_or.1 hself)
        rw [h.root] at hroot
        rw [hother] at hpres ⊢
        exact ho.plain q b k hq hb hk hroot hpres
  · intro x hx
    have hnew : pageDown x ≠ j * 4096 := by
      intro heq
      exact hx _ hlen (by rw [hnode _ hlen, if_pos rfl, heq])
    have hold : pageDown x ≠ t := by
      intro heq
      exact hx p (le_of_lt hc.short) (heq ▸ h.node_of_node ho hc (le_of_lt hc.short) hc.node)
    rw [h.mem_outside ho hc hnew hold]
    exact ho.outside x fun q hq hb => hx q hq (h.node_of_node ho hc hq hb)

end

end Install

/-! ## Changes that leave the tree as it is -/

/-- The entries of the tables lead where they led. -/
structure SameTree (s s' : Space) : Prop where
  root : s'.pml4Phys = s.pml4Phys
  pmm : s'.pmm = s.pmm
  child : ∀ q b k, q.length < 4 → s.node q = some b → s'.child b k = s.child b k

/-- The frames stay at their places. -/
lemma SameTree.node_eq (h : SameTree s s') {q : List ℕ} (hq : q.length ≤ 4) :
    s'.node q = s.node q := by
  unfold node
  rw [h.root]
  exact Radix.follow_congr (fun q b hq hb k => h.child q b k hq hb) hq

/-- A change that leaves the tree keeps the frames owned, if it writes into them only and leaves the
entries above the last level their rights. -/
lemma Owns.of_sameTree (ho : Owns m₀ p₀ s) (h : SameTree s s')
    (hshared : s'.entryAt (s.pml4Phys + 8 * 0) = s.entryAt (s.pml4Phys + 8 * 0))
    (hplain : ∀ q b k, q.length < 4 → s.node q = some b → k < entriesPerTable →
      (b = s.pml4Phys → k = userPml4Slot) → isPresent (s'.entryAt (b + 8 * k)) = true →
        isHuge (s'.entryAt (b + 8 * k)) = false ∧ (q.length < 3 →
          isWritable (s'.entryAt (b + 8 * k)) = true ∧ isUser (s'.entryAt (b + 8 * k)) = true))
    (houtside : ∀ x, (∀ q, q.length ≤ 4 → s.node q ≠ some (pageDown x)) → s'.mem x = s.mem x) :
    Owns m₀ p₀ s' := by
  constructor
  · rw [h.root]
    exact ho.distinct.congr fun q b hq hb k => h.child q b k hq hb
  · intro q a hq ha
    rw [h.node_eq hq] at ha
    exact ho.frame q a hq ha
  · intro q a hq ha
    rw [h.node_eq hq] at ha
    exact ho.fresh q a hq ha
  · intro j
    rw [h.pmm, ho.used]
    refine or_congr_right (exists_congr fun q => and_congr_right fun hq => ?_)
    rw [h.node_eq hq]
  · rw [h.pmm, ho.total]
  · rw [h.pmm, ho.tally]
  · rw [h.root, hshared, ho.shared]
  · intro q b k hq hb hk hroot
    rw [h.node_eq (le_of_lt hq)] at hb
    rw [h.root] at hroot
    exact hplain q b k hq hb hk hroot
  · intro x hx
    have hx' : ∀ q, q.length ≤ 4 → s.node q ≠ some (pageDown x) :=
      fun q hq => h.node_eq hq ▸ hx q hq
    rw [houtside x hx']
    exact ho.outside x hx'

end Space

end SubOS.Mm
