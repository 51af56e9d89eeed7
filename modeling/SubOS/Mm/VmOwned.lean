import SubOS.Lib.EventRun
import SubOS.Mm.VmOps

set_option autoImplicit false

/-!
# What an address space takes and gives back

`vmspace_create`, any number of calls of `vmspace_alloc` in the user slot, and `vmspace_destroy`:
the frames that are given back are the frames that were taken, whatever the allocator answered in
between. A call that fails half-way leaves tables without pages and pages that the caller does not
know of; they are nodes of the tree like the others.

## Main definitions

* `Accounted` — the frames of an address space are accounted for.

## Main results

* `Owns.destroy_eq`, `requests_accounted` — the allocator is as it was before, after any calls.
-/

namespace SubOS.Mm

open Radix List Option

namespace Space

variable {m₀ : ByteMemory} {p₀ : Pmm} {s s' : Space} {p : List ℕ} {t d : ℕ}

/-! ## The pages that are handed back -/

lemma freeEntry_eq (hroot : t ≠ s.pml4Phys) {i : ℕ} (hi : i < entriesPerTable) (free : ℕ → List ℕ) :
    freeEntry s.mem (t + 8 * i) free = (s.child t i).elim [] free := by
  unfold freeEntry
  dsimp only
  cases hpres : isPresent (s.mem.load (t + 8 * i) 8) with
  | false =>
    rw [child_of_absent hpres]
    rfl
  | true =>
    cases hhuge : isHuge (s.mem.load (t + 8 * i) 8) with
    | true =>
      have hchild : s.child t i = none := by
        refine if_neg fun h => ?_
        exact nomatch hhuge.symm.trans h.2.2.2
      rw [hchild]
      rfl
    | false =>
      rw [child_of_present hi (fun h => absurd h hroot) hpres hhuge]
      rfl

/-- **`free_level` goes through the nodes below a table**, every node after those below it.

**Proof sketch.** Induction on the level: the entries of the table lead to its children, which are
tables one level down, or pages at the last level. None of them is the root, because the root has
no other path than the empty one. -/
theorem freeLevel_eq_collect (ho : Owns m₀ p₀ s) :
    ∀ {d : ℕ} {p : List ℕ} {t : ℕ}, s.node p = some t → p ≠ [] → p.length + d + 1 ≤ 4 →
      freeLevel s.mem d t = collect s.child (range entriesPerTable) (d + 1) t := by
  intro d
  induction d with
  | zero =>
    intro p t hnode hne hlen
    have hroot := ho.ne_root (by omega) hne hnode
    rw [freeLevel, collect]
    refine congrArg (· ++ [t]) (flatMap_congr fun i hi => ?_)
    exact freeEntry_eq hroot (mem_range.1 hi) _
  | succ d ih =>
    intro p t hnode hne hlen
    have hroot := ho.ne_root (by omega) hne hnode
    rw [freeLevel, collect]
    refine congrArg (· ++ [t]) (flatMap_congr fun i hi => ?_)
    rw [freeEntry_eq hroot (mem_range.1 hi)]
    cases hc : s.child t i with
    | none => rw [elim_none, elim_none]
    | some b =>
      have hb : s.node (p ++ [i]) = some b := by
        rw [node_concat, hnode]
        exact hc
      have hlen' : (p ++ [i]).length = p.length + 1 := length_append
      exact ih hb (by simp) (by omega)

lemma flatMap_eq_of_single {l : List ℕ} {f : ℕ → List ℕ} {i : ℕ} (hnodup : l.Nodup) (hi : i ∈ l)
    (hf : ∀ k, k ≠ i → f k = []) : l.flatMap f = f i := by
  obtain ⟨l₁, l₂, rfl⟩ := append_of_mem hi
  rw [nodup_middle, nodup_cons, mem_append, not_or] at hnodup
  have hnil : ∀ l' : List ℕ, i ∉ l' → l'.flatMap f = [] := by
    intro l' hl'
    rw [flatMap_eq_nil_iff]
    intro k hk
    exact hf k fun heq => hl' (heq ▸ hk)
  rw [flatMap_append, flatMap_cons, hnil l₁ hnodup.1.1, hnil l₂ hnodup.1.2, nil_append, append_nil]

/-- **`vmspace_destroy` hands back the nodes of the tree.** -/
theorem Owns.destroyed_eq (ho : Owns m₀ p₀ s) :
    s.destroyed = collect s.child (range entriesPerTable) 4 s.pml4Phys := by
  have hslot : userPml4Slot < entriesPerTable := by decide
  have hsingle := flatMap_eq_of_single
    (f := fun i => (s.child s.pml4Phys i).elim []
      (collect s.child (range entriesPerTable) 3))
    nodup_range (mem_range.2 hslot) (fun k hk => by
      have hnone : s.child s.pml4Phys k = none := if_neg fun h => hk (h.2.1 rfl)
      rw [hnone]
      rfl)
  rw [collect, hsingle]
  refine congrArg (· ++ [s.pml4Phys]) ?_
  cases hpres : isPresent (s.entryAt (s.pml4Phys + 8 * userPml4Slot)) with
  | false =>
    rw [child_of_absent hpres]
    rfl
  | true =>
    obtain ⟨hhuge, -⟩ :=
      ho.plain [] _ _ (by decide) s.node_nil hslot (fun _ => rfl) hpres
    have hc := child_of_present hslot (fun _ => rfl) hpres hhuge
    have hnode : s.node [userPml4Slot] =
        some (pageDown (s.entryAt (s.pml4Phys + 8 * userPml4Slot))) := by
      rw [← nil_append [userPml4Slot], node_concat, node_nil]
      exact hc
    rw [hc]
    exact freeLevel_eq_collect ho hnode (by simp) (by decide)

lemma mem_range_of_child (a i b : ℕ) (h : s.child a i = some b) : i ∈ range entriesPerTable := by
  rw [child, ite_none_right_eq_some] at h
  exact mem_range.2 h.1.1

section

variable (ho : Owns m₀ p₀ s)
include ho

lemma Owns.mem_destroyed {a : ℕ} :
    a ∈ s.destroyed ↔
      a % 4096 = 0 ∧ s.pmm.used (a / 4096) = true ∧ p₀.used (a / 4096) = false := by
  rw [ho.destroyed_eq, mem_collect mem_range_of_child]
  constructor
  · rintro ⟨p, hp, hnode⟩
    have hmod := (ho.frame p a hp hnode).aligned
    have haddr : a / 4096 * 4096 = a := pageDown_of_mod hmod
    exact ⟨hmod, (ho.used _).2 (.inr ⟨p, hp, by rw [haddr]; exact hnode⟩),
      (ho.fresh p a hp hnode).1⟩
  · rintro ⟨hmod, hused, hfree⟩
    have haddr : a / 4096 * 4096 = a := pageDown_of_mod hmod
    rcases (ho.used _).1 hused with hold | ⟨p, hp, hnode⟩
    · cases hfree.symm.trans hold
    · rw [haddr] at hnode
      exact ⟨p, hp, hnode⟩

lemma Owns.nodup_destroyed : s.destroyed.Nodup := by
  rw [ho.destroyed_eq]
  exact nodup_collect mem_range_of_child nodup_range ho.distinct

lemma Owns.length_destroyed :
    s.destroyed.length = {j | s.pmm.used j = true ∧ p₀.used j = false}.ncard := by
  have hset : (fun j => j * 4096) '' {j | s.pmm.used j = true ∧ p₀.used j = false} =
      s.destroyed.toFinset := by
    refine Set.ext fun a => ?_
    rw [coe_toFinset]
    show _ ↔ a ∈ s.destroyed
    rw [ho.mem_destroyed]
    constructor
    · rintro ⟨j, ⟨hused, hfree⟩, rfl⟩
      rw [Nat.mul_div_cancel j (by decide)]
      exact ⟨Nat.mul_mod_left j 4096, hused, hfree⟩
    · rintro ⟨hmod, hused, hfree⟩
      exact ⟨a / 4096, ⟨hused, hfree⟩, pageDown_of_mod hmod⟩
  have hinj : Function.Injective fun j : ℕ => j * 4096 :=
    fun a b h => Nat.eq_of_mul_eq_mul_right (by decide) h
  rw [← Set.ncard_image_of_injective _ hinj, hset, Set.ncard_coe_finset,
    toFinset_card_of_nodup ho.nodup_destroyed]

/-- **After `vmspace_destroy` the allocator is as it was before `vmspace_create`.** -/
theorem Owns.destroy_eq : s.destroy = p₀ := by
  have hlen := ho.length_destroyed
  have htally := ho.tally
  rw [destroy, Pmm.foldl_freePage ho.nodup_destroyed]
  · have hcount : s.pmm.usedPages - s.destroyed.length = p₀.usedPages := by omega
    have hused : (fun j => s.pmm.used j && decide (j * pmmPageSize ∉ s.destroyed)) = p₀.used := by
      funext j
      have hkeep : p₀.used j = true → s.pmm.used j = true := fun h => (ho.used j).2 (.inl h)
      have hmem : j * pmmPageSize ∈ s.destroyed ↔ s.pmm.used j = true ∧ p₀.used j = false := by
        rw [pmmPageSize, ho.mem_destroyed, Nat.mul_div_cancel j (by decide)]
        exact and_iff_right (Nat.mul_mod_left j 4096)
      simp only [hmem]
      cases hold : p₀.used j with
      | true => simp [hkeep hold]
      | false => simp
    rw [hused, hcount, ho.total]
  · intro a ha
    rw [ho.destroyed_eq, mem_collect mem_range_of_child] at ha
    obtain ⟨p, hp, hnode⟩ := ha
    have hframe := ho.frame p a hp hnode
    have haddr : a / 4096 * 4096 = a := pageDown_of_mod hframe.aligned
    refine ⟨hframe.aligned, Nat.ne_of_gt hframe.pos, ?_, ?_⟩
    · rw [ho.total]
      exact (ho.fresh p a hp hnode).2
    · exact (ho.used _).2 (.inr ⟨p, hp, by rw [pmmPageSize, haddr]; exact hnode⟩)
  · omega

end

/-! ## The pages that are counted -/

lemma exists_page_of_node {p : List ℕ} (hlen : p.length = 4) (hp : s.node p ≠ none) :
    ∃ v, IsUserPage v ∧ p = tables v ++ [leafIndex v] := by
  match p, hlen with
  | [a, b, c, d], _ =>
    obtain ⟨f, hf⟩ := ne_none_iff_exists'.1 hp
    simp only [node, follow_cons, follow_nil, bind_eq_some_iff] at hf
    obtain ⟨t₁, h₁, t₂, h₂, t₃, h₃, t₄, h₄, -⟩ := hf
    have hslot : a = 1 := by
      rw [child, ite_none_right_eq_some] at h₁
      exact h₁.1.2.1 rfl
    have hb := mem_range.1 (mem_range_of_child _ _ _ h₂)
    have hc := mem_range.1 (mem_range_of_child _ _ _ h₃)
    have hd := mem_range.1 (mem_range_of_child _ _ _ h₄)
    rw [entriesPerTable] at hb hc hd
    refine ⟨((a * 512 + b) * 512 + c) * 512 + d, ⟨by omega, by omega⟩, ?_⟩
    simp only [tables, leafIndex, tableIndex, cons_append, nil_append, cons.injEq, and_true]
    omega

lemma Owns.view_ne_none_iff (ho : Owns m₀ p₀ s) {v : ℕ} (hv : IsUserPage v) :
    s.view v ≠ none ↔ s.node (tables v ++ [leafIndex v]) ≠ none := by
  cases ht : s.node (tables v) with
  | none =>
    rw [view_of_no_table ht, node_concat, ht, bind_none]
    exact iff_of_false (fun h => h rfl) fun h => h rfl
  | some t =>
    cases hpres : isPresent (s.entryAt (t + 8 * leafIndex v)) with
    | false =>
      rw [view_of_node hv ht, pageOf_of_absent hpres, node_concat, ht, bind_some,
        child_of_absent hpres]
      exact iff_of_false (fun h => h rfl) fun h => h rfl
    | true =>
      rw [view_of_node hv ht, pageOf, if_pos hpres, ho.node_leaf ht hpres]
      exact iff_of_true (some_ne_none _) (some_ne_none _)

/-- **The pages of user memory are the entries of the last level that are present.** -/
theorem Owns.size_view (ho : Owns m₀ p₀ s) :
    s.view.size = {p : List ℕ | p.length = 4 ∧ s.node p ≠ none}.ncard := by
  have hset : (fun v => tables v ++ [leafIndex v]) '' {v | s.view v ≠ none} =
      {p : List ℕ | p.length = 4 ∧ s.node p ≠ none} := by
    refine Set.ext fun p => ⟨?_, ?_⟩
    · rintro ⟨v, hv, rfl⟩
      exact ⟨rfl, (ho.view_ne_none_iff (isUserPage_of_view hv)).1 hv⟩
    · rintro ⟨hlen, hp⟩
      obtain ⟨v, hv, rfl⟩ := exists_page_of_node hlen hp
      exact ⟨v, (ho.view_ne_none_iff hv).2 hp, rfl⟩
  have hinj : Set.InjOn (fun v => tables v ++ [leafIndex v]) {v | s.view v ≠ none} := by
    intro v hv w hw heq
    exact page_eq_of_path (isUserPage_of_view hv) (isUserPage_of_view hw) heq
  rw [UserMemory.size, ← hset, hinj.ncard_image]

/-! ## Runs -/

/-- The arguments of a call of `vmspace_alloc`. -/
structure Request where
  virt : ℕ
  len : ℕ
  prot : Prot

/-- One call of `vmspace_alloc`, whether it succeeds or not. -/
def request (s : Space) (r : Request) : Space := (s.alloc r.virt r.len r.prot).2

/-- What holds of an address space that was made when memory was `m₀` and the page allocator
`p₀`. -/
structure Accounted (m₀ : ByteMemory) (p₀ : Pmm) (s : Space) : Prop where
  /-- `vmspace_destroy` hands every page back at most once, -/
  nodup : s.destroyed.Nodup
  /-- it hands back the pages that have been taken and no others, -/
  exactly : ∀ a, a ∈ s.destroyed ↔
    a % 4096 = 0 ∧ s.pmm.used (a / 4096) = true ∧ p₀.used (a / 4096) = false
  /-- and leaves the allocator as it was. -/
  restored : s.destroy = p₀
  /-- Pages that were in use, the kernel's tables among them, have not changed, -/
  kernel : ∀ x, p₀.used (x / 4096) = true → s.mem x = m₀ x
  /-- and the first entry of the root is the kernel's. -/
  slot : s.entryAt s.pml4Phys = m₀.load kernelPml4Phys 8
  /-- `resident_pages` is the number of entries at the last level that are present. -/
  resident : s.residentPages = {p : List ℕ | p.length = 4 ∧ s.node p ≠ none}.ncard
  /-- No frame has two places in the tree, as a table or as a page. -/
  once : ∀ p q a, p.length ≤ 4 → q.length ≤ 4 → s.node p = some a → s.node q = some a → p = q

lemma Owns.accounted (ho : Owns m₀ p₀ s) (hres : s.residentPages = s.view.size) :
    Accounted m₀ p₀ s where
  nodup := ho.nodup_destroyed
  exactly _ := ho.mem_destroyed
  restored := ho.destroy_eq
  kernel x hx := by
    refine ho.outside x fun p hp hnode => ?_
    have hfree := (ho.fresh p _ hp hnode).1
    rw [pageDown, Nat.mul_div_cancel _ (by decide), hx] at hfree
    cases hfree
  slot := ho.shared
  resident := hres.trans ho.size_view
  once := ho.distinct

lemma Owns.request (hp : p₀.Reserved) {r : Request}
    (h : Owns m₀ p₀ s ∧ s.residentPages = s.view.size) (hr : InUser r.virt r.len) :
    Owns m₀ p₀ (s.request r) ∧ (s.request r).residentPages = (s.request r).view.size := by
  obtain ⟨ho, hres⟩ := h
  rcases halloc : s.alloc r.virt r.len r.prot with ⟨ok, s'⟩
  obtain ⟨k, -, hm, -⟩ := ho.alloc_spec hp hr halloc
  have hcount := hm.resident
  have hs' : s.request r = s' := by rw [Space.request, halloc]
  rw [hs']
  exact ⟨hm.owns, by omega⟩

/-- **Frames are accounted for**, after every sequence of calls of `vmspace_alloc` in the user slot
on a new address space. -/
theorem requests_accounted (hp : p₀.Reserved) {p₁ : Pmm} (hcreate : create m₀ p₀ = (some s, p₁))
    (rs : List Request) (hrs : ∀ r ∈ rs, InUser r.virt r.len) :
    Accounted m₀ p₀ (EventRun.run request s rs) := by
  obtain ⟨ho, hview, hres, -⟩ := create_spec hp hcreate
  have hzero : s.residentPages = s.view.size := by
    rw [hres, hview, UserMemory.size]
    simp
  have hstep : ∀ (s : Space) (r : Request), Owns m₀ p₀ s ∧ s.residentPages = s.view.size →
      InUser r.virt r.len →
        Owns m₀ p₀ (s.request r) ∧ (s.request r).residentPages = (s.request r).view.size :=
    fun s r hs hr => Owns.request hp hs hr
  have halong : EventRun.Along .request (fun _ r => InUser r.virt r.len) s rs :=
    EventRun.along_of_mem hrs
  obtain ⟨ho', hres'⟩ := EventRun.run_invariant_of_along hstep ⟨ho, hzero⟩ halong
  exact ho'.accounted hres'

/-- Five pages are free above the kernel's tables, not enough for two pages and their tables. -/
def fivePages : Pmm := ⟨fun i => decide (i < 7), 12, 7⟩

/-- A call that fails after its first page. -/
theorem requests_accounted_halfway : ∃ s p₁, create (fun _ => 0) fivePages = (some s, p₁) ∧
    (s.alloc userBase 0x2000 ⟨true, true⟩).1 = false ∧
    (s.request ⟨userBase, 0x2000, ⟨true, true⟩⟩).residentPages = 1 ∧
    Accounted (fun _ => 0) fivePages
      (EventRun.run request s [⟨userBase, 0x2000, ⟨true, true⟩⟩]) := by
  have hrun : (create (fun _ => 0) fivePages).1.any (fun s =>
      !(s.alloc userBase 0x2000 ⟨true, true⟩).1 &&
        (s.request ⟨userBase, 0x2000, ⟨true, true⟩⟩).residentPages == 1) = true := by
    decide +kernel
  obtain ⟨s, hs, hfail⟩ := (any_eq_true _ _).1 hrun
  rw [Bool.and_eq_true, Bool.not_eq_true', beq_iff_eq] at hfail
  have hcreate : create (fun _ => 0) fivePages = (some s, (create (fun _ => 0) fivePages).2) :=
    Prod.ext hs rfl
  refine ⟨s, _, hcreate, hfail.1, hfail.2, requests_accounted ?_ hcreate _ ?_⟩
  · exact ⟨by decide, by decide⟩
  · intro r hr
    rw [mem_singleton] at hr
    subst hr
    exact ⟨by decide, by decide⟩

end Space

end SubOS.Mm
