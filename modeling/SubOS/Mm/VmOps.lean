import SubOS.Mm.VmView

set_option autoImplicit false

/-!
# What the functions of an address space do to user memory

One specification for each function of `vmspace.c`. The failures are part of them: a function that
runs out of frames half-way leaves new tables, and the pages it has got so far.

## Main definitions

* `Maps`, `Puts` — what mapping pages and writing bytes does to user memory.

## Main results

* `Owns.alloc_spec`, `Owns.write_spec`, `create_spec` — the specifications.
-/

namespace SubOS.Mm

open Function Nat Option

/-- Page 0 and the page of the kernel's root table are in use: `pmm_init` reserves them with all the
low memory. -/
structure Pmm.Reserved (p : Pmm) : Prop where
  zero : p.used 0 = true
  root : p.used 1 = true

namespace Space

variable {m₀ : ByteMemory} {p₀ : Pmm} {s s' : Space} {p : List ℕ} {t v virt level len o : ℕ}
  {prot : Prot} {ok : Bool}

/-! ## Allocation of frames -/

lemma allocIdentityFrame_cases (hzero : s.pmm.used 0 = true) :
    s.allocIdentityFrame = (0, s) ∨
      ∃ j, s.pmm.used j = false ∧ j < s.pmm.totalPages ∧ IsFrame (j * 4096) ∧
        s.allocIdentityFrame = (j * 4096,
          { s with
            mem := s.mem.fill (j * 4096) vmPageSize 0
            pmm := { s.pmm with used := update s.pmm.used j true
                                usedPages := s.pmm.usedPages + 1 } }) := by
  unfold allocIdentityFrame
  rcases s.pmm.allocPage_cases with heq | ⟨j, hfree, hlt, heq⟩
  · left
    rw [heq]
    rfl
  · have hj : j ≠ 0 := by
      rintro rfl
      cases hfree.symm.trans hzero
    have hpage : j * pmmPageSize ≠ 0 := by
      rw [pmmPageSize]
      omega
    rw [heq]
    dsimp only
    rw [if_neg hpage]
    split
    · left
      rw [Pmm.freePage_take hfree hlt (by omega)]
    · rename_i hlow
      right
      refine ⟨j, hfree, hlt, ⟨mul_mod_left _ _, ?_, ?_⟩, rfl⟩
      · omega
      · rw [pmmPageSize] at hlow
        omega

lemma Owns.used_zero (hp : p₀.Reserved) (ho : Owns m₀ p₀ s) : s.pmm.used 0 = true :=
  (ho.used 0).2 (.inl hp.zero)

/-! ## The walk -/

/-- What a walk leaves behind: at most new tables. -/
structure Walked (m₀ : ByteMemory) (p₀ : Pmm) (s s' : Space) : Prop where
  owns : Owns m₀ p₀ s'
  root : s'.pml4Phys = s.pml4Phys
  view : s'.view = s.view
  nodes : ∀ q b, q.length ≤ 4 → s.node q = some b → s'.node q = some b
  resident : s'.residentPages = s.residentPages

lemma Walked.refl (ho : Owns m₀ p₀ s) : Walked m₀ p₀ s s :=
  ⟨ho, rfl, rfl, fun _ _ _ h => h, rfl⟩

lemma Walked.trans {s₁ s₂ : Space} (h : Walked m₀ p₀ s s₁) (h' : Walked m₀ p₀ s₁ s₂) :
    Walked m₀ p₀ s s₂ where
  owns := h'.owns
  root := h'.root.trans h.root
  view := h'.view.trans h.view
  nodes q b hq hb := h'.nodes q b hq (h.nodes q b hq hb)
  resident := h'.resident.trans h.resident

lemma walkStep_of_present {create : Bool}
    (hpres : isPresent (s.entryAt (t + 8 * tableIndex virt level)) = true)
    (hhuge : isHuge (s.entryAt (t + 8 * tableIndex virt level)) = false) :
    s.walkStep virt create t level =
      (some (pageDown (s.entryAt (t + 8 * tableIndex virt level))), s) := by
  simp [walkStep, hpres, hhuge]

section

variable (hpres : isPresent (s.entryAt (t + 8 * tableIndex virt level)) = false)
include hpres

lemma walkStep_of_absent : s.walkStep virt false t level = (none, s) := by
  simp [walkStep, hpres]

lemma walkStep_of_full
    (hfull : s.allocIdentityFrame = (0, s)) : s.walkStep virt true t level = (none, s) := by
  simp [walkStep, allocTable, hpres, hfull]

lemma walkStep_of_frame {g : ℕ} {s₁ : Space}
    (hframe : s.allocIdentityFrame = (g, s₁)) (hg : IsFrame g) :
    s.walkStep virt true t level =
      (some g, setEntry { s₁ with tablePages := s₁.tablePages + 1 } virt
        (t + 8 * tableIndex virt level) (g ||| tableFlags)) := by
  have hpos : g ≠ 0 := ne_of_gt hg.pos
  have hdown : pageDown (g ||| tableFlags) = g := by
    rw [pageDown_or (by decide), pageDown_of_mod hg.aligned]
  simp [walkStep, allocTable, hpres, hframe, hpos, hdown]

end

lemma Owns.slot_of_node (ho : Owns m₀ p₀ s) (hnode : s.node p = some t) (hlen : p.length ≤ 4)
    (hslot : p = [] → tableIndex virt level = userPml4Slot) (ht : t = s.pml4Phys) :
    tableIndex virt level = userPml4Slot :=
  hslot (ho.eq_nil hlen (ht ▸ hnode))

/-- **One level of a walk** goes to the next node, and leaves at most a new table. -/
lemma Owns.walkStep_spec (hp : p₀.Reserved) (ho : Owns m₀ p₀ s) (hnode : s.node p = some t)
    (hlen : p.length < 3) (hslot : p = [] → tableIndex virt level = userPml4Slot)
    {create : Bool} {r : Option ℕ} (h : s.walkStep virt create t level = (r, s')) :
    Walked m₀ p₀ s s' ∧
      ∀ t', r = some t' → s'.node (p ++ [tableIndex virt level]) = some t' := by
  have hidx := tableIndex_lt virt level
  have hroot := ho.slot_of_node hnode (by omega) hslot
  cases hpres : isPresent (s.entryAt (t + 8 * tableIndex virt level)) with
  | true =>
    obtain ⟨hhuge, -⟩ := ho.plain p t _ (by omega) hnode hidx hroot hpres
    rw [walkStep_of_present hpres hhuge] at h
    cases h
    refine ⟨.refl ho, fun t' ht' => ?_⟩
    rw [node_concat, hnode, ← ht']
    exact child_of_present hidx hroot hpres hhuge
  | false =>
    cases create with
    | false =>
      rw [walkStep_of_absent hpres] at h
      cases h
      exact ⟨.refl ho, fun t' ht' => nomatch ht'⟩
    | true =>
      rcases allocIdentityFrame_cases (ho.used_zero hp) with heq | ⟨j, hfree, hlt, hframe, heq⟩
      · rw [walkStep_of_full hpres heq] at h
        cases h
        exact ⟨.refl ho, fun t' ht' => nomatch ht'⟩
      · have hc : Installable s p t (tableIndex virt level) j tableFlags :=
          ⟨by omega, hnode, hidx, hslot, hpres, hfree, hlt, hframe, by decide, by decide,
            by decide, fun _ => ⟨by decide, by decide⟩⟩
        rw [walkStep_of_frame hpres heq hframe, Prod.mk.injEq] at h
        obtain ⟨hr, hs'⟩ := h
        have hi : Installed s s' t (tableIndex virt level) j tableFlags := by
          subst hs'
          exact ⟨rfl, rfl, rfl, rfl, rfl⟩
        refine ⟨⟨ho.install hc hi, hi.root, hi.view_table ho hc hlen,
          fun q b hq hb => hi.node_of_node ho hc hq hb, ?_⟩, fun t' ht' => ?_⟩
        · subst hs'
          rfl
        · rw [hi.node_eq ho hc (by simp; omega), if_pos rfl, hr]
          exact ht'

/-- Without creating tables, one level of a walk finds the next node and changes nothing. -/
lemma Owns.walkStep_false (ho : Owns m₀ p₀ s) (hnode : s.node p = some t)
    (hlen : p.length < 4) (hslot : p = [] → tableIndex virt level = userPml4Slot) :
    s.walkStep virt false t level = (s.node (p ++ [tableIndex virt level]), s) := by
  have hidx := tableIndex_lt virt level
  have hroot := ho.slot_of_node hnode (by omega) hslot
  rw [node_concat, hnode, bind_some]
  cases hpres : isPresent (s.entryAt (t + 8 * tableIndex virt level)) with
  | true =>
    obtain ⟨hhuge, -⟩ := ho.plain p t _ hlen hnode hidx hroot hpres
    rw [walkStep_of_present hpres hhuge, child_of_present hidx hroot hpres hhuge]
  | false => rw [walkStep_of_absent hpres, child_of_absent hpres]

lemma Owns.walkLoop_spec (hp : p₀.Reserved) (create : Bool) (levels : List ℕ) :
    ∀ {s s' : Space} {p : List ℕ} {t : ℕ} {r : Option ℕ}, Owns m₀ p₀ s → s.node p = some t →
      p.length + levels.length ≤ 3 →
      (p = [] → ∀ l ∈ levels.head?, tableIndex virt l = userPml4Slot) →
      s.walkLoop virt create t levels = (r, s') →
      Walked m₀ p₀ s s' ∧
        ∀ t', r = some t' → s'.node (p ++ levels.map (tableIndex virt)) = some t' := by
  induction levels with
  | nil =>
    intro s s' p t r ho hnode _ _ h
    rw [walkLoop] at h
    cases h
    refine ⟨.refl ho, fun t' ht' => ?_⟩
    rw [List.map_nil, List.append_nil, hnode]
    exact ht'
  | cons level levels ih =>
    intro s s' p t r ho hnode hlen hslot h
    rw [List.length_cons] at hlen
    rw [walkLoop] at h
    rcases hstep : s.walkStep virt create t level with ⟨r₁, s₁⟩
    obtain ⟨hw, hnext⟩ := ho.walkStep_spec hp hnode (by omega) (fun hnil => hslot hnil _ rfl) hstep
    rw [hstep] at h
    cases r₁ with
    | none =>
      cases h
      exact ⟨hw, fun t' ht' => by cases ht'⟩
    | some next =>
      obtain ⟨hw', hlast⟩ := ih hw.owns (hnext next rfl) (by simp; omega) (by simp) h
      refine ⟨hw.trans hw', fun t' ht' => ?_⟩
      rw [List.map_cons, List.append_cons]
      exact hlast t' ht'

/-- **A walk in the user range** leaves at most new tables; where it arrives, the page table of the
page is there. -/
lemma Owns.walk_spec (hp : p₀.Reserved) (ho : Owns m₀ p₀ s) (hv : IsUserPage v) {create : Bool}
    {r : Option ℕ} (h : s.walk (v * 4096) create = (r, s')) :
    Walked m₀ p₀ s s' ∧ ∀ pte, r = some pte →
      ∃ t, s'.node (tables v) = some t ∧ pte = t + 8 * leafIndex v := by
  rcases hloop : s.walkLoop (v * 4096) create s.pml4Phys [0, 1, 2] with ⟨r₁, s₁⟩
  obtain ⟨hw, hlast⟩ := Owns.walkLoop_spec hp create [0, 1, 2] ho s.node_nil (by simp)
    (fun _ l hl => by
      obtain rfl : l = 0 := by simpa using hl.symm
      exact tableIndex_root hv) hloop
  rw [walk, hloop] at h
  cases r₁ with
  | none =>
    cases h
    exact ⟨hw, fun pte hpte => by cases hpte⟩
  | some t =>
    cases h
    refine ⟨hw, fun pte hpte => ⟨t, hlast t rfl, ?_⟩⟩
    exact (some_inj.1 hpte).symm

lemma Owns.walkLoop_false (ho : Owns m₀ p₀ s) (levels : List ℕ) :
    ∀ {p : List ℕ} {t : ℕ}, s.node p = some t → p.length + levels.length ≤ 4 →
      (p = [] → ∀ l ∈ levels.head?, tableIndex virt l = userPml4Slot) →
      s.walkLoop virt false t levels = (s.node (p ++ levels.map (tableIndex virt)), s) := by
  induction levels with
  | nil =>
    intro p t hnode _ _
    rw [walkLoop, List.map_nil, List.append_nil, hnode]
  | cons level levels ih =>
    intro p t hnode hlen hslot
    rw [List.length_cons] at hlen
    rw [List.map_cons, List.append_cons, walkLoop,
      ho.walkStep_false hnode (by omega) fun hnil => hslot hnil _ rfl]
    cases hnext : s.node (p ++ [tableIndex virt level]) with
    | none =>
      have hnone : s.node (p ++ [tableIndex virt level] ++ levels.map (tableIndex virt)) =
        none := by
        unfold node at hnext ⊢
        rw [Radix.follow_append, hnext]
        rfl
      rw [hnone]
    | some next => exact ih hnext (by simp; omega) (by simp)

/-- Without creating tables, a walk finds the page table of the page and changes nothing. -/
lemma Owns.walk_false (ho : Owns m₀ p₀ s) (hv : IsUserPage v) :
    s.walk (v * 4096) false =
      ((s.node (tables v)).map fun t => t + 8 * leafIndex v, s) := by
  have hloop : s.walkLoop (v * 4096) false s.pml4Phys [0, 1, 2] = (s.node (tables v), s) :=
    ho.walkLoop_false [0, 1, 2] s.node_nil (by simp) (by simpa using tableIndex_root hv)
  rw [walk, hloop]
  cases s.node (tables v) <;> rfl

/-! ## Mapping -/

/-- What mapping the `k` pages from page `v` on does. -/
structure Maps (m₀ : ByteMemory) (p₀ : Pmm) (prot : Prot) (v k : ℕ) (s s' : Space) : Prop where
  owns : Owns m₀ p₀ s'
  root : s'.pml4Phys = s.pml4Phys
  view : s'.view = s.view.map prot v k
  /-- The pages that are counted are the ones that are there. -/
  resident : s'.residentPages + s.view.size = s.residentPages + s'.view.size

lemma Walked.maps (h : Walked m₀ p₀ s s') : Maps m₀ p₀ prot v 0 s s' where
  owns := h.owns
  root := h.root
  view := by rw [UserMemory.map_zero, h.view]
  resident := by rw [h.view, h.resident]

lemma finite_view (s : Space) : {v | s.view v ≠ none}.Finite := by
  exact (Set.finite_Iio (2 ^ 28)).subset fun v hv => (isUserPage_of_view hv).2

section

variable {pte : ℕ} {s₁ : Space} {prot : Prot} (hwalk : s.walk virt true = (some pte, s₁))
include hwalk

lemma allocPage_of_present (hpres : isPresent (s₁.entryAt pte) = true) :
    s.allocPage virt prot =
      (true, s₁.setEntry virt pte (s₁.entryAt pte ||| archFlagsOf prot)) := by
  simp [allocPage, hwalk, hpres]

variable (hpres : isPresent (s₁.entryAt pte) = false)
include hpres

lemma allocPage_of_full (hfull : s₁.allocIdentityFrame = (0, s₁)) :
    s.allocPage virt prot = (false, s₁) := by
  simp [allocPage, hwalk, hpres, hfull]

lemma allocPage_of_frame {g : ℕ} {s₂ : Space} (hframe : s₁.allocIdentityFrame = (g, s₂))
    (hg : IsFrame g) : s.allocPage virt prot =
      (true, { s₂.setEntry virt pte (g ||| archFlagsOf prot) with
        residentPages := s₂.residentPages + 1 }) := by
  have hpos : g ≠ 0 := ne_of_gt hg.pos
  simp [allocPage, hwalk, hpres, hframe, hpos, pageDown_of_mod hg.aligned, setEntry]

end

/-- **One page of `vmspace_alloc`** is mapped, or nothing is. -/
lemma Owns.allocPage_spec (hp : p₀.Reserved) (ho : Owns m₀ p₀ s) (hv : IsUserPage v)
    (h : s.allocPage (v * 4096) prot = (ok, s')) :
    Maps m₀ p₀ prot v (if ok then 1 else 0) s s' := by
  rcases hwalk : s.walk (v * 4096) true with ⟨r, s₁⟩
  obtain ⟨hw, hleaf⟩ := ho.walk_spec hp hv hwalk
  cases r with
  | none =>
    rw [allocPage, hwalk] at h
    cases h
    exact hw.maps
  | some pte =>
    obtain ⟨t, ht, rfl⟩ := hleaf pte rfl
    cases hpres : isPresent (s₁.entryAt (t + 8 * leafIndex v)) with
    | true =>
      rw [allocPage_of_present hwalk hpres, Prod.mk.injEq] at h
      obtain ⟨rfl, hs'⟩ := h
      have hwid : Widens s₁ s' t v prot := by
        subst hs'
        exact ⟨rfl, rfl, rfl⟩
      have hview := hwid.view_eq hw.owns hv ht hpres
      have hthere : (s.view v).isSome := by
        rw [← hw.view, view_of_node hv ht, pageOf, if_pos hpres]
        rfl
      have hcount : s'.residentPages = s₁.residentPages := by
        subst hs'
        rfl
      rw [hw.view] at hview
      refine ⟨hw.owns.widen ht hpres hwid, hwid.root.trans hw.root, hview, ?_⟩
      rw [hview, UserMemory.size_map_one_of_some hthere, hcount, hw.resident]
    | false =>
      have hnone : s.view v = none := by
        rw [← hw.view, view_of_node hv ht, pageOf_of_absent hpres]
      rcases allocIdentityFrame_cases (hw.owns.used_zero hp) with heq | ⟨j, hfree, hlt, hframe, heq⟩
      · rw [allocPage_of_full hwalk hpres heq] at h
        cases h
        exact hw.maps
      · have hc : Installable s₁ (tables v) t (leafIndex v) j (archFlagsOf prot) :=
          ⟨length_tables_lt v, ht, tableIndex_lt _ 3, (fun hnil => by cases hnil), hpres,
            hfree, hlt, hframe, archFlagsOf_lt prot, isPresent_archFlagsOf prot,
            isHuge_archFlagsOf prot,
            fun hshort => absurd hshort (lt_irrefl 3)⟩
        rw [allocPage_of_frame hwalk hpres heq hframe, Prod.mk.injEq] at h
        obtain ⟨rfl, hs'⟩ := h
        have hi : Installed s₁ s' t (leafIndex v) j (archFlagsOf prot) := by
          subst hs'
          exact ⟨rfl, rfl, rfl, rfl, rfl⟩
        have hcount : s'.residentPages = s₁.residentPages + 1 := by
          subst hs'
          rfl
        have hview : s'.view = s.view.map prot v 1 := by
          rw [hi.view_page hw.owns hv hc, UserMemory.map_one, hw.view, hnone]
          rfl
        refine ⟨hw.owns.install hc hi, hi.root.trans hw.root, hview, ?_⟩
        rw [hview, UserMemory.size_map_one_of_none s.finite_view hnone, hcount, hw.resident]
        omega

lemma Owns.allocLoop_spec (hp : p₀.Reserved) (n : ℕ) :
    ∀ {s s' : Space} {v : ℕ} {ok : Bool}, Owns m₀ p₀ s → (∀ i < n, IsUserPage (v + i)) →
      s.allocLoop prot (v * 4096) n = (ok, s') →
      ∃ k ≤ n, Maps m₀ p₀ prot v k s s' ∧ (ok = true → k = n) := by
  induction n with
  | zero =>
    intro s s' v ok ho _ h
    rw [allocLoop] at h
    cases h
    exact ⟨0, le_refl 0, (Walked.refl ho).maps, fun _ => rfl⟩
  | succ n ih =>
    intro s s' v ok ho hv h
    rcases hstep : s.allocPage (v * 4096) prot with ⟨r, s₁⟩
    have hm : Maps m₀ p₀ prot v (if r then 1 else 0) s s₁ :=
      ho.allocPage_spec hp (hv 0 (succ_pos n)) hstep
    rw [allocLoop, hstep] at h
    cases r with
    | false =>
      cases h
      exact ⟨0, zero_le _, hm, fun hok => by cases hok⟩
    | true =>
      have hnext : v * 4096 + vmPageSize = (v + 1) * 4096 := by
        rw [vmPageSize]
        omega
      rw [hnext] at h
      obtain ⟨k, hk, hm', hall⟩ := ih hm.owns (fun i hi => by
        rw [add_right_comm, add_assoc]
        exact hv (i + 1) (by omega)) h
      refine ⟨k + 1, by omega, ⟨hm'.owns, hm'.root.trans hm.root, ?_, ?_⟩, fun hok => ?_⟩
      · rw [hm'.view, hm.view, if_pos rfl, ← UserMemory.map_succ]
      · have h₁ := hm.resident
        have h₂ := hm'.resident
        omega
      · rw [hall hok]

/-- The pages that a range of addresses lies on. -/
def pagesOf (virt len : ℕ) : ℕ := (virt + len + 4095) / 4096 - virt / 4096

/-- A range of addresses in the user slot. -/
structure InUser (virt len : ℕ) : Prop where
  low : userBase ≤ virt
  high : virt + len ≤ userLimit

lemma InUser.pageEnd_eq (h : InUser virt len) :
    pageEnd virt len = (virt + len + 4095) / 4096 * 4096 := by
  have hhigh := h.high
  rw [userLimit] at hhigh
  rw [pageEnd, pageDown, vmPageSize, mod_eq_of_lt (by omega)]
  omega

lemma InUser.isUserPage {i : ℕ} (h : InUser virt len) (hi : i < pagesOf virt len) :
    IsUserPage (virt / 4096 + i) := by
  have hlow := h.low
  have hhigh := h.high
  rw [userBase] at hlow
  rw [userLimit] at hhigh
  unfold pagesOf at hi
  constructor <;> omega

/-- **`vmspace_alloc` in the user slot** maps the pages of the range, or some of the first ones. -/
theorem Owns.alloc_spec (hp : p₀.Reserved) (ho : Owns m₀ p₀ s) (hr : InUser virt len)
    (h : s.alloc virt len prot = (ok, s')) :
    ∃ k ≤ pagesOf virt len, Maps m₀ p₀ prot (virt / 4096) k s s' ∧
      (ok = true → k = pagesOf virt len) := by
  have hnothing : (false, s) = (ok, s') → ∃ k ≤ pagesOf virt len,
      Maps m₀ p₀ prot (virt / 4096) k s s' ∧ (ok = true → k = pagesOf virt len) := by
    intro heq
    cases heq
    exact ⟨0, zero_le _, (Walked.refl ho).maps, fun hok => nomatch hok⟩
  unfold alloc at h
  split at h
  · exact hnothing h
  · split at h
    · exact hnothing h
    · have hcount : (pageEnd virt len - pageDown virt) / vmPageSize = pagesOf virt len := by
        rw [hr.pageEnd_eq, pageDown, vmPageSize, pagesOf]
        omega
      rw [hcount, pageDown] at h
      exact Owns.allocLoop_spec hp _ ho (fun i hi => hr.isUserPage hi) h

/-! ## Reading the tables -/

lemma Owns.resolve_of_some (ho : Owns m₀ p₀ s) (hoff : o < 4096) {pg : UserPage}
    (hpg : s.view v = some pg) :
    ∃ t, s.node (tables v) = some t ∧ isPresent (s.entryAt (t + 8 * leafIndex v)) = true ∧
      s.resolve (v * 4096 + o) = pageDown (s.entryAt (t + 8 * leafIndex v)) + o ∧
      0 < pageDown (s.entryAt (t + 8 * leafIndex v)) := by
  have hv : IsUserPage v := isUserPage_of_view (hpg ▸ some_ne_none pg)
  have hpage : pageDown (v * 4096 + o) = v * 4096 := by
    unfold pageDown
    omega
  cases ht : s.node (tables v) with
  | none =>
    rw [view_of_no_table ht] at hpg
    exact nomatch hpg
  | some t =>
    cases hpres : isPresent (s.entryAt (t + 8 * leafIndex v)) with
    | false =>
      rw [view_of_node hv ht, pageOf_of_absent hpres] at hpg
      exact nomatch hpg
    | true =>
      refine ⟨t, rfl, hpres, ?_, (ho.frame _ _ (length_leaf_le v) (ho.node_leaf ht hpres)).pos⟩
      have hmod : (v * 4096 + o) % vmPageSize = o := by
        rw [vmPageSize]
        omega
      simp only [resolve, hpage, ho.walk_false hv, ht, map_some, hpres, if_true, hmod]

lemma Owns.resolve_of_none (ho : Owns m₀ p₀ s) (hv : IsUserPage v) (hoff : o < 4096)
    (hnone : s.view v = none) : s.resolve (v * 4096 + o) = 0 := by
  have hpage : pageDown (v * 4096 + o) = v * 4096 := by
    unfold pageDown
    omega
  cases ht : s.node (tables v) with
  | none => simp [resolve, hpage, ho.walk_false hv, ht]
  | some t =>
    have hpres : isPresent (s.entryAt (t + 8 * leafIndex v)) = false := by
      rw [view_of_node hv ht, pageOf] at hnone
      by_contra hcon
      rw [Bool.not_eq_false] at hcon
      rw [if_pos hcon] at hnone
      cases hnone
    simp [resolve, hpage, ho.walk_false hv, ht, hpres]

/-! ## Writing -/

/-- What writing a list of bytes to user memory does. -/
structure Puts (m₀ : ByteMemory) (p₀ : Pmm) (a : ℕ) (l : List UInt8) (s s' : Space) : Prop where
  owns : Owns m₀ p₀ s'
  root : s'.pml4Phys = s.pml4Phys
  view : s'.view = s.view.put a l
  resident : s'.residentPages = s.residentPages

lemma Puts.refl {a : ℕ} (ho : Owns m₀ p₀ s) : Puts m₀ p₀ a [] s s :=
  ⟨ho, rfl, UserMemory.put_nil.symm, rfl⟩

lemma Owns.put_page (ho : Owns m₀ p₀ s) {l : List UInt8} {pg : UserPage}
    (hfit : o + l.length ≤ 4096) (hoff : o < 4096) (hpg : s.view v = some pg) (touched : List ℕ) :
    s.resolve (v * 4096 + o) ≠ 0 ∧ Puts m₀ p₀ (v * 4096 + o) l s
      { s with mem := s.mem.put (s.resolve (v * 4096 + o)) l, touched := touched } := by
  have hv : IsUserPage v := isUserPage_of_view (hpg ▸ some_ne_none pg)
  obtain ⟨t, ht, hpres, heq, hpos⟩ := ho.resolve_of_some hoff hpg
  rw [heq]
  have hpoke : Pokes s
      { s with mem := s.mem.put (pageDown (s.entryAt (t + 8 * leafIndex v)) + o) l
               touched := touched }
      (pageDown (s.entryAt (t + 8 * leafIndex v))) o l := ⟨rfl, rfl, rfl⟩
  refine ⟨by omega, (ho.poke hpoke (ho.node_leaf ht hpres) hfit).2, rfl, ?_, rfl⟩
  exact hpoke.view_eq ho hv ht hpres hfit

lemma Owns.writeLoop_spec (n : ℕ) :
    ∀ {s s' : Space} {dst : ℕ} {src : List UInt8} {ok : Bool}, Owns m₀ p₀ s →
      InUser dst src.length → src.length ≤ n → s.writeLoop dst src n = (ok, s') →
      ∃ k ≤ src.length, Puts m₀ p₀ dst (src.take k) s s' ∧ (ok = true → k = src.length) := by
  induction n with
  | zero =>
    intro s s' dst src ok ho _ hn h
    have hnil : src = [] := List.length_eq_zero_iff.1 (by omega)
    subst hnil
    rw [writeLoop] at h
    cases h
    exact ⟨0, le_refl 0, .refl ho, fun _ => rfl⟩
  | succ n ih =>
    intro s s' dst src ok ho hr hn h
    rw [writeLoop] at h
    split at h
    · rename_i hempty
      have hnil : src = [] := List.isEmpty_iff.1 hempty
      subst hnil
      cases h
      exact ⟨0, le_refl 0, .refl ho, fun _ => rfl⟩
    · rename_i hempty
      have hlow := hr.low
      have hhigh := hr.high
      rw [userBase] at hlow
      rw [userLimit] at hhigh
      have hpos : 0 < src.length := List.length_pos_iff.2 fun hnil => hempty (by rw [hnil]; rfl)
      have hv : IsUserPage (dst / 4096) := by constructor <;> omega
      have hdst : dst / 4096 * 4096 + dst % 4096 = dst := div_add_mod' dst 4096
      have hoff : dst % 4096 < 4096 := mod_lt _ (by decide)
      cases hpg : s.view (dst / 4096) with
      | none =>
        -- the page is missing: the copy stops before it
        have hzero := ho.resolve_of_none hv hoff hpg
        rw [hdst] at hzero
        rw [if_pos hzero] at h
        cases h
        exact ⟨0, zero_le _, .refl ho, fun hok => by cases hok⟩
      | some pg =>
        obtain ⟨chunk, hchunk⟩ :
            ∃ chunk, chunk = min (vmPageSize - dst % vmPageSize) src.length := ⟨_, rfl⟩
        have hsize := hchunk
        rw [vmPageSize] at hsize
        have hlen : (src.take chunk).length = chunk := List.length_take_of_le (by omega)
        obtain ⟨hne, hput⟩ := ho.put_page (l := src.take chunk) (by omega) hoff hpg
          (pageDown dst :: s.touched)
        rw [hdst] at hne hput
        rw [if_neg hne, ← hchunk] at h
        dsimp only at h
        rw [mod_eq_of_lt (by omega)] at h
        have hdrop : (src.drop chunk).length = src.length - chunk := List.length_drop ..
        obtain ⟨k, hk, hput', hall⟩ := ih hput.owns
          ⟨by rw [userBase]; omega, by rw [userLimit]; omega⟩ (by omega) h
        refine ⟨chunk + k, by omega, ⟨hput'.owns, hput'.root.trans hput.root, ?_,
          hput'.resident.trans hput.resident⟩, fun hok => ?_⟩
        · rw [hput'.view, hput.view, List.take_add]
          have happ := UserMemory.put_append (u := s.view) (a := dst) (src.take chunk)
            ((src.drop chunk).take k)
          rw [hlen] at happ
          exact happ
        · have := hall hok
          omega

/-- **`vmspace_write` in the user slot** writes the bytes, or some of the first ones. -/
theorem Owns.write_spec (ho : Owns m₀ p₀ s) {dst : ℕ} {src : List UInt8}
    (hr : InUser dst src.length) (h : s.write dst src = (ok, s')) :
    ∃ k ≤ src.length, Puts m₀ p₀ dst (src.take k) s s' ∧ (ok = true → k = src.length) :=
  Owns.writeLoop_spec src.length ho hr (le_refl _) h

/-! ## Creation -/

/-- The root of a new address space, with the entry that it shares with the kernel. -/
lemma create_cases (hp : p₀.Reserved) {p₁ : Pmm} (h : create m₀ p₀ = (some s, p₁)) :
    ∃ j, p₀.used j = false ∧ j < p₀.totalPages ∧ IsFrame (j * 4096) ∧
      s = { mem := (m₀.fill (j * 4096) vmPageSize 0).store (j * 4096) 8
              ((m₀.fill (j * 4096) vmPageSize 0).load kernelPml4Phys 8)
            pmm := { p₀ with used := update p₀.used j true
                             usedPages := p₀.usedPages + 1 }
            pml4Phys := j * 4096, residentPages := 0, tablePages := 1, touched := [] } := by
  obtain ⟨s₀, hs₀⟩ : ∃ s₀ : Space, s₀ = ⟨m₀, p₀, 0, 0, 0, []⟩ := ⟨_, rfl⟩
  have hzero : s₀.pmm.used 0 = true := by
    rw [hs₀]
    exact hp.zero
  rw [create, ← hs₀, allocTable] at h
  rcases allocIdentityFrame_cases hzero with heq | ⟨j, hfree, hlt, hframe, heq⟩
  · rw [heq] at h
    cases (Prod.mk.inj h).1
  · have hpos : j * 4096 ≠ 0 := ne_of_gt hframe.pos
    rw [heq] at h
    dsimp only at h
    rw [if_neg hpos] at h
    rw [if_neg hpos, Prod.mk.injEq, some_inj] at h
    rw [hs₀] at hfree hlt h
    exact ⟨j, hfree, hlt, hframe, h.1.symm⟩

lemma node_of_bare (hbare : isPresent (s.entryAt (s.pml4Phys + 8 * userPml4Slot)) = false)
    {a : ℕ} (h : s.node p = some a) : p = [] ∧ a = s.pml4Phys := by
  cases p with
  | nil => exact ⟨rfl, (some_inj.1 h).symm⟩
  | cons i p =>
    have hchild : s.child s.pml4Phys i = none := by
      by_cases hi : i = userPml4Slot
      · rw [hi]
        exact child_of_absent hbare
      · simp [child, hi]
    rw [node, Radix.follow, hchild] at h
    cases h

/-- **`vmspace_create`** gives an address space without pages. -/
theorem create_spec (hp : p₀.Reserved) {p₁ : Pmm} (h : create m₀ p₀ = (some s, p₁)) :
    Owns m₀ p₀ s ∧ s.view = (fun _ => none) ∧ s.residentPages = 0 ∧ s.touched = [] := by
  obtain ⟨j, hfree, hlt, hframe, hs⟩ := create_cases hp h
  have hroot : s.pml4Phys = j * 4096 := by rw [hs]
  have hkernel : (m₀.fill (j * 4096) vmPageSize 0).load kernelPml4Phys 8 =
      m₀.load kernelPml4Phys 8 := by
    -- the kernel's table is not a free page
    have hone : j ≠ 1 := by
      rintro rfl
      rw [hp.root] at hfree
      cases hfree
    refine load_fill_entry (t := kernelPml4Phys) (k := 0) (by decide) hframe.aligned (by decide) ?_
    rw [kernelPml4Phys]
    omega
  rw [hkernel] at hs
  have hmem : s.mem = (m₀.fill (j * 4096) vmPageSize 0).store (j * 4096 + 8 * 0) 8
      (m₀.load kernelPml4Phys 8) := by
    rw [mul_zero, add_zero, hs]
  have hbare : isPresent (s.entryAt (s.pml4Phys + 8 * userPml4Slot)) = false := by
    have hentry : s.entryAt (j * 4096 + 8 * userPml4Slot) = 0 := by
      rw [entryAt, hmem, load_store_entry hframe.aligned hframe.aligned (by decide) (by decide)
        (.inr (by decide)), load_fill_self (by decide)]
    rw [hroot, hentry]
    rfl
  have hnode : ∀ {q a}, s.node q = some a → q = [] ∧ a = j * 4096 := by
    intro q a hq
    rw [← hroot]
    exact node_of_bare hbare hq
  have hused : s.pmm.used = update p₀.used j true := by rw [hs]
  refine ⟨⟨?_, ?_, ?_, ?_, ?_, ?_, ?_, ?_, ?_⟩, ?_, by rw [hs], by rw [hs]⟩
  · intro q q' a _ _ hq hq'
    rw [(hnode hq).1, (hnode hq').1]
  · intro q a _ hq
    rw [(hnode hq).2]
    exact hframe
  · intro q a _ hq
    rw [(hnode hq).2, Nat.mul_div_cancel j (by decide)]
    exact ⟨hfree, hlt⟩
  · intro k
    rw [hused]
    by_cases hk : k = j
    · subst hk
      rw [update_self]
      exact iff_of_true rfl (.inr ⟨[], zero_le _, by rw [node_nil, hroot]⟩)
    · rw [update_of_ne hk]
      refine ⟨.inl, fun hor => hor.resolve_right ?_⟩
      rintro ⟨q, _, hq⟩
      have := (hnode hq).2
      omega
  · rw [hs]
  · have htaken : {k | s.pmm.used k = true ∧ p₀.used k = false} = {j} := by
      refine Set.ext fun k => ?_
      show s.pmm.used k = true ∧ p₀.used k = false ↔ k = j
      rw [hused]
      by_cases hk : k = j
      · subst hk
        rw [update_self]
        exact iff_of_true ⟨rfl, hfree⟩ rfl
      · rw [update_of_ne hk]
        refine iff_of_false (fun hcon => ?_) hk
        rw [hcon.2] at hcon
        cases hcon.1
    rw [htaken, Set.ncard_singleton, hs]
  · rw [hroot, entryAt, hmem, load_store_entry_self (ByteMemory.load_lt m₀ _ 8)]
  · intro q t i _ hq _ hslot hpres
    have ht : t = s.pml4Phys := (hnode hq).2.trans hroot.symm
    rw [ht, hslot ht, hbare] at hpres
    cases hpres
  · intro x hx
    have hne : pageDown x ≠ j * 4096 := by
      intro heq
      exact hx [] (zero_le _) (by rw [node_nil, hroot, heq])
    unfold pageDown at hne
    rw [hs]
    dsimp only
    rw [ByteMemory.store_of_outside (by omega)]
    exact ByteMemory.sameOutside_fill _ _ _ _ x (by rw [vmPageSize]; omega)
  · funext v
    refine view_of_no_table ?_
    cases ht : s.node (tables v) with
    | none => rfl
    | some t => cases (hnode ht).1

end Space

end SubOS.Mm
