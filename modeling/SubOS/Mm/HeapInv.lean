import SubOS.Mm.HeapBlocks

set_option autoImplicit false

/-!
# What the calls do to the list of blocks

The calls of the heap change its list of blocks by a few kinds of edits: a block is marked, cut in
two, or takes up the one behind it, and a new run is appended.

## Main definitions

* `Edit` — an edit of a heap and its list of blocks.

## Main results

* `Shape.kfree`, `Shape.kmalloc` — a used block is given up; a free one becomes used.
-/

namespace SubOS.Mm

open Blk List HeapState

namespace Heap

/-- **Writes to the payload of a block** do not change the list. -/
theorem Shape.payload {h : Heap} {bs : List Blk} {x : Blk} (hs : h.Shape bs) (hx : x ∈ bs)
    {m : ByteMemory} {p n : ℕ} (hsame : h.mem.SameOutside m p n)
    (hlow : x.addr + blockHeaderSize ≤ p) (hhigh : p + n ≤ x.stop) :
    ({ h with mem := m } : Heap).Shape bs := by
  refine hs.congr (fun b hb => block_of_sameOutside hsame ?_) rfl rfl rfl
  simp only [stop, blockHeaderSize] at hlow hhigh
  obtain ⟨l, r, rfl⟩ := append_of_mem hx
  rcases mem_append.1 hb with hb | hb
  · have hdisj := hs.disj b (mem_append_left _ hb)
    simp only [Span.Disj, Blk.span, stop, blockHeaderSize] at hdisj
    omega
  · rcases mem_cons.1 hb with rfl | hb
    · exact .inr hlow
    · have hdisj := hs.disj b (mem_append_right _ hb)
      simp only [Span.Disj, Blk.span, stop, blockHeaderSize] at hdisj
      omega

/-- **An edit** of a heap and its list of blocks. Only blocks with an address in `V` are marked as
free or have their payload written. -/
inductive Edit (V : Set ℕ) : Heap × List Blk → Heap × List Blk → Prop
  | claim {h : Heap} {l r : List Blk} {x : Blk} (hs : h.Shape (l ++ x :: r)) (hx : x.free = true) :
    Edit V (h, l ++ x :: r) (h.claim x.addr, l ++ { x with free := false } :: r)
  | split {h : Heap} {l r : List Blk} {x : Blk} {size : ℕ} (hs : h.Shape (l ++ x :: r))
      (hx : x.free = true) (hle : size + blockHeaderSize ≤ x.size) (hmod : size % 16 = 0) :
    Edit V (h, l ++ x :: r) (h.splitBlock x.addr size, l ++ ⟨x.addr, size, x.free⟩ ::
      ⟨x.addr + blockHeaderSize + size, x.size - size - blockHeaderSize, true⟩ :: r)
  | absorb {h : Heap} {l r : List Blk} {x y : Blk} (hs : h.Shape (l ++ x :: y :: r))
      (hx : x.free = true) (hy : y.free = true) (hadj : x.stop = y.addr) :
    Edit V (h, l ++ x :: y :: r) (h.absorb x.addr y.addr,
      l ++ ⟨x.addr, x.size + (blockHeaderSize + y.size), x.free⟩ :: r)
  | region {h : Heap} {bs : List Blk} {run : Run} (hs : h.Shape bs) (hbase : 0 < run.base)
      (hlt : run.base + run.bytes ≤ 2 ^ 64) (hbytes : blockHeaderSize ≤ run.bytes)
      (hmod : run.bytes % 16 = 0) (hdisj : ∀ w ∈ h.runs, run.span.Disj w.span) :
    Edit V (h, bs) (h.addRegion run, bs ++ [⟨run.base, run.bytes - blockHeaderSize, true⟩])
  | release {h : Heap} {l r : List Blk} {x : Blk} (hs : h.Shape (l ++ x :: r)) (hx : x.free = false)
      (hv : x.addr ∈ V) :
    Edit V (h, l ++ x :: r) (h.release x.addr, l ++ { x with free := true } :: r)
  | payload {h : Heap} {bs : List Blk} {x : Blk} {m : ByteMemory} {p n : ℕ} (hs : h.Shape bs)
      (hx : x ∈ bs) (hv : x.addr ∈ V) (hsame : h.mem.SameOutside m p n)
      (hlow : x.addr + blockHeaderSize ≤ p) (hhigh : p + n ≤ x.stop) :
    Edit V (h, bs) ({ h with mem := m }, bs)

abbrev Edits (V : Set ℕ) : Heap × List Blk → Heap × List Blk → Prop :=
  Relation.ReflTransGen (Edit V)

variable {V W : Set ℕ} {h h' : Heap} {bs bs' : List Blk}

lemma Edits.mono {s t : Heap × List Blk} (hsub : V ⊆ W) (he : Edits V s t) : Edits W s t := by
  refine Relation.ReflTransGen.mono (fun a b hab => ?_) _ _ he
  cases hab with
  | claim hs hx => exact .claim hs hx
  | split hs hx hle hmod => exact .split hs hx hle hmod
  | absorb hs hx hy hadj => exact .absorb hs hx hy hadj
  | region hs hbase hlt hbytes hmod hdisj => exact .region hs hbase hlt hbytes hmod hdisj
  | release hs hx hv => exact .release hs hx (hsub hv)
  | payload hs hx hv hsame hlow hhigh => exact .payload hs hx (hsub hv) hsame hlow hhigh

lemma Edit.shape_snd {s t : Heap × List Blk} (he : Edit V s t) : t.1.Shape t.2 := by
  cases he with
  | claim hs hx =>
    exact hs.claim
  | split hs hx hle hmod =>
    exact hs.splitBlock hle hmod
  | absorb hs hx hy hadj =>
    dsimp only
    exact hs.absorb hadj
  | region hs hbase hlt hbytes hmod hdisj =>
    exact hs.addRegion hbase hlt hbytes hmod hdisj
  | release hs hx hv =>
    exact hs.release
  | payload hs hx hv hsame hlow hhigh =>
    exact hs.payload hx hsame hlow hhigh

/-- **An edit keeps the shape.** -/
lemma Edit.shape (he : Edit V (h, bs) (h', bs')) : h'.Shape bs' := he.shape_snd

theorem Edits.shape (he : Edits V (h, bs) (h', bs')) (hs : h.Shape bs) : h'.Shape bs' := by
  rcases Relation.ReflTransGen.cases_tail he with heq | ⟨s, -, hedit⟩
  · rw [Prod.mk.injEq] at heq
    rw [heq.1, heq.2]
    exact hs
  · exact hedit.shape_snd

end Heap

/-- The block `c` may follow `b` in the list: not both are free if `c` is directly behind `b`. -/
def MayFollow (b c : Blk) : Prop := ¬ (b.free = true ∧ c.free = true ∧ b.stop = c.addr)

/-- No free block has a free block directly behind it as its successor. -/
def Merged (bs : List Blk) : Prop := bs.IsChain MayFollow

/-- The blocks that are not free. -/
def used (bs : List Blk) : Set Blk := {b | b ∈ bs ∧ b.free = false}

variable {b : Blk}

lemma mem_used {bs : List Blk} : b ∈ used bs ↔ b ∈ bs ∧ b.free = false := Iff.rfl

lemma used_append (l r : List Blk) : used (l ++ r) = used l ∪ used r := by
  ext b
  simp only [mem_used, mem_append, Set.mem_union, or_and_right]

lemma used_cons_of_free (h : b.free = true) (l : List Blk) : used (b :: l) = used l := by
  ext c
  simp only [mem_used, mem_cons]
  constructor
  · rintro ⟨rfl | hc, hfree⟩
    · cases h.symm.trans hfree
    · exact ⟨hc, hfree⟩
  · exact fun ⟨hc, hfree⟩ => ⟨.inr hc, hfree⟩

lemma used_cons_of_used (h : b.free = false) (l : List Blk) :
    used (b :: l) = insert b (used l) := by
  ext c
  simp only [mem_used, mem_cons, Set.mem_insert_iff]
  constructor
  · rintro ⟨rfl | hc, hfree⟩
    · exact .inl rfl
    · exact .inr ⟨hc, hfree⟩
  · rintro (rfl | ⟨hc, hfree⟩)
    · exact ⟨.inl rfl, h⟩
    · exact ⟨.inr hc, hfree⟩

namespace Heap

namespace Shape

variable {h : Heap} {l r bs : List Blk} {x y : Blk} {V : Set ℕ} {size mem₁ mem₂ need : ℕ}

/-! ## `kfree` -/

section

variable (hs : h.Shape (l ++ x :: r))
include hs

/-- **A free block and its successor**: the block takes it up if it is free and directly behind. -/
lemma coalesceNext (hx : x.free = true) (hr : Merged r) :
    ∃ y r', Edits V (h, l ++ x :: r) (h.coalesceNext x.addr, l ++ y :: r') ∧ y.addr = x.addr ∧
      y.free = true ∧ Merged (y :: r') ∧ used r' = used r := by
  unfold Heap.coalesceNext
  cases r with
  | nil =>
    refine ⟨x, [], ?_, rfl, hx, isChain_singleton _, rfl⟩
    rw [if_neg (by simp [hs.block_eq])]
  | cons c r =>
    have hnext : (h.block x.addr).next = c.addr := by
      rw [hs.block_eq]
      rfl
    have hs' : h.Shape ((l ++ [x]) ++ c :: r) := by simpa using hs
    have hfree : (h.block c.addr).isFree = c.free := by rw [hs'.block_eq]
    have hc := hs'.bounds_self
    simp only [hnext, hfree, hs.blocksAdjacent_iff]
    split
    · next hcond =>
      obtain ⟨-, hcfree, hadj⟩ := hcond
      refine ⟨_, r, .single (.absorb hs hx hcfree hadj), rfl, hx, ?_,
        (used_cons_of_free hcfree r).symm⟩
      obtain ⟨hcr, hr⟩ := isChain_cons.1 hr
      refine isChain_cons.2 ⟨fun d hd hboth => hcr d hd ⟨hcfree, hboth.2.1, ?_⟩, hr⟩
      rw [← hboth.2.2]
      simp only [stop, blockHeaderSize] at hadj ⊢
      omega
    · next hcond =>
      refine ⟨x, c :: r, .refl, rfl, hx, isChain_cons_cons.2 ⟨fun hboth => hcond ?_, hr⟩, rfl⟩
      exact ⟨hc.1.ne', hboth.2.1, hboth.2.2⟩

/-- **A free block and its predecessor.** -/
lemma coalescePrev (hx : x.free = true) (hl : Merged l) (hr : Merged (x :: r)) :
    ∃ bs, Edits V (h, l ++ x :: r) (h.coalescePrev x.addr, bs) ∧ Merged bs ∧
      used bs = used (l ++ r) ∧ ∃ b ∈ bs, b.free = true := by
  unfold Heap.coalescePrev
  rcases eq_nil_or_concat' l with rfl | ⟨l, a, rfl⟩
  · refine ⟨x :: r, ?_, hr, used_cons_of_free hx r, x, mem_cons_self, hx⟩
    rw [if_neg (by simp [hs.block_eq])]
    exact .refl
  · have happ : (l ++ [a]) ++ x :: r = l ++ a :: x :: r := by simp
    have hs' : h.Shape (l ++ a :: x :: r) := happ ▸ hs
    have hprev : (h.block x.addr).prev = a.addr := by
      rw [hs.block_eq, map_append, map_cons, getLastD_append_cons]
      rfl
    have hfree : (h.block a.addr).isFree = a.free := by rw [hs'.block_eq]
    have ha := hs'.bounds_self
    rw [happ]
    obtain ⟨hl, -, hla⟩ := isChain_append.1 hl
    simp only [hprev, hfree, hs'.blocksAdjacent_iff]
    split
    · next hcond =>
      obtain ⟨-, hafree, hadj⟩ := hcond
      refine ⟨_, .single (.absorb hs' hafree hx hadj), ?_, ?_, _,
        mem_append_right _ mem_cons_self, hafree⟩
      · obtain ⟨hxr, hr⟩ := isChain_cons.1 hr
        refine isChain_append.2 ⟨hl, isChain_cons.2 ⟨fun d hd hboth => ?_, hr⟩, ?_⟩
        · refine hxr d hd ⟨hx, hboth.2.1, ?_⟩
          rw [← hboth.2.2]
          simp only [stop, blockHeaderSize] at hadj ⊢
          omega
        · intro b hb c hc hboth
          obtain rfl := Option.some.inj hc
          exact hla b hb a rfl ⟨hboth.1, hafree, hboth.2.2⟩
      · rw [used_append, used_cons_of_free (by exact hafree), used_append, used_append,
          used_cons_of_free hafree]
        ext b
        simp [used]
    · next hcond =>
      refine ⟨l ++ a :: x :: r, .refl, ?_, ?_, x, by simp, hx⟩
      · refine isChain_append.2 ⟨hl, isChain_cons_cons.2 ⟨fun hboth => hcond ?_, hr⟩, ?_⟩
        · exact ⟨ha.1.ne', hboth.1, hboth.2.2⟩
        · intro b hb c hc
          obtain rfl := Option.some.inj hc
          exact hla b hb a rfl
      · have hxr := used_cons_of_free hx r
        rw [← happ, used_append, hxr, ← used_append]

lemma wsub_header : wsub (x.addr + blockHeaderSize) blockHeaderSize = x.addr := by
  have hlt := hs.addr_lt
  simp only [wsub, blockHeaderSize]
  omega

/-- **What `kfree` does**: the block of the pointer is no longer used, and the others stay. -/
theorem kfree (hm : Merged (l ++ x :: r)) (hx : x.free = false) (hv : x.addr ∈ V) :
    ∃ bs, Edits V (h, l ++ x :: r) (h.kfree (x.addr + blockHeaderSize), bs) ∧ Merged bs ∧
      used bs = used (l ++ r) := by
  have heq : h.kfree (x.addr + blockHeaderSize) =
      ((h.release x.addr).coalesceNext x.addr).coalescePrev x.addr := by
    unfold Heap.kfree
    rw [if_neg (by simp [blockHeaderSize])]
    simp only [hs.wsub_header, hs.block_eq, ne_eq, not_true_eq_false, if_false]
  obtain ⟨hl, hxr, -⟩ := isChain_append.1 hm
  obtain ⟨z, hz, hzaddr, hzfree⟩ : ∃ z : Blk, z = { x with free := true } ∧ z.addr = x.addr ∧
    z.free = true := ⟨_, rfl, rfl, rfl⟩
  have he₀ := Edit.release hs hx hv
  rw [heq]
  rw [← hz] at he₀
  rw [← hzaddr] at he₀ ⊢
  generalize h.release z.addr = h₀ at he₀ ⊢
  have hs₀ := he₀.shape
  obtain ⟨y, r', he1, hyaddr, hyfree, hyr, hused⟩ :=
    hs₀.coalesceNext hzfree (isChain_cons.1 hxr).2
  obtain ⟨bs, he2, hbs, hused', -⟩ := (he1.shape hs₀).coalescePrev hyfree hl hyr
  refine ⟨bs, ?_, hbs, ?_⟩
  · rw [hyaddr] at he2
    exact .head he₀ (he1.trans he2)
  · rw [hused', used_append, hused, ← used_append]

end

/-! ## `kmalloc` -/

lemma nodup_addr (hs : h.Shape bs) : (bs.map addr).Nodup := by
  refine pairwise_map.2 (hs.pairwise_apart.imp fun {b c} hap heq => ?_)
  unfold Apart at hap
  omega

lemma addr_inj (hs : h.Shape bs) (hx : x ∈ bs) (hy : y ∈ bs) (heq : x.addr = y.addr) : x = y :=
  inj_on_of_nodup_map hs.nodup_addr hx hy heq

lemma length_lt (hs : h.Shape bs) : bs.length < 2 ^ 64 := by
  have hsub : (bs.map addr).toFinset ⊆ Finset.Ico 1 (2 ^ 64) := by
    intro a ha
    obtain ⟨b, hb, rfl⟩ := mem_map.1 (mem_toFinset.1 ha)
    have hbounds := hs.bounds b hb
    simp only [stop, blockHeaderSize] at hbounds
    rw [Finset.mem_Ico]
    omega
  have hcard := Finset.card_le_card hsub
  rw [toFinset_card_of_nodup hs.nodup_addr, length_map, Nat.card_Ico] at hcard
  omega

/-- The loop over a chain of headers finds the first free block that is large enough. -/
lemma scan_eq {p : ℕ} (hchain : Chain h.block p bs 0) (hpos : ∀ b ∈ bs, 0 < b.addr) {fuel : ℕ}
    (hfuel : bs.length < fuel) :
    h.scan size fuel ((bs.map addr).headD 0) =
      match bs.find? fun b => b.free && decide (size ≤ b.size) with
      | some b => .fit b.addr
      | none => .missing := by
  induction bs generalizing p fuel with
  | nil =>
    obtain ⟨n, rfl⟩ : ∃ n, fuel = n + 1 := ⟨fuel - 1, by simp at hfuel; omega⟩
    rfl
  | cons b bs ih =>
    obtain ⟨n, rfl⟩ : ∃ n, fuel = n + 1 := ⟨fuel - 1, by simp at hfuel; omega⟩
    obtain ⟨hb, hrest⟩ := hchain
    have hne : b.addr ≠ 0 := (hpos b mem_cons_self).ne'
    have hih := ih hrest (fun c hc => hpos c (mem_cons_of_mem _ hc))
      (Nat.lt_of_succ_lt_succ hfuel)
    rw [map_cons, headD_cons, scan, hb, if_neg hne]
    simp only [ne_eq, not_true_eq_false, if_false, find?_cons]
    by_cases hfit : b.free = true ∧ size ≤ b.size
    · rw [if_pos hfit]
      simp [hfit.1, hfit.2]
    · rw [if_neg hfit]
      have hnot : (b.free && decide (size ≤ b.size)) = false := by
        simpa using hfit
      rw [hnot]
      exact hih

lemma scan_start (hs : h.Shape bs) (size : ℕ) :
    (∃ l x r, bs = l ++ x :: r ∧ x.free = true ∧ size ≤ x.size ∧
      h.scan size (2 ^ 64) h.start = .fit x.addr) ∨ h.scan size (2 ^ 64) h.start = .missing := by
  rw [hs.start, scan_eq hs.chain (fun b hb => (hs.bounds b hb).1) hs.length_lt]
  cases hfind : bs.find? fun b => b.free && decide (size ≤ b.size) with
  | none => exact .inr rfl
  | some x =>
    have hx := find?_some hfind
    obtain ⟨l, r, rfl⟩ := append_of_mem (mem_of_find?_eq_some hfind)
    simp only [Bool.and_eq_true, decide_eq_true_eq] at hx
    exact .inl ⟨l, x, r, rfl, hx.1, hx.2, rfl⟩

/-- **What `heap_take` does**: the block that it is given, cut down if that pays, becomes used. -/
theorem heapTake (hs : h.Shape (l ++ x :: r)) (hm : Merged (l ++ x :: r)) (hx : x.free = true)
    (hpos : 0 < size) (hle : size ≤ x.size) (hmod : size % 16 = 0)
    (hlt : size + blockHeaderSize + 16 < 2 ^ 64) :
    ∃ bs sz, Edits V (h, l ++ x :: r) ((h.heapTake x.addr size).1, bs) ∧ Merged bs ∧ size ≤ sz ∧
      (h.heapTake x.addr size).2 = x.addr + blockHeaderSize ∧
      used bs = insert ⟨x.addr, sz, false⟩ (used (l ++ x :: r)) := by
  have hb := hs.bounds_self
  have hptr : wrap (x.addr + blockHeaderSize) = x.addr + blockHeaderSize := by
    simp only [stop, blockHeaderSize] at hb ⊢
    exact wrap_of_lt (by omega)
  obtain ⟨hl, hxr, -⟩ := isChain_append.1 hm
  obtain ⟨hnext, hr⟩ := isChain_cons.1 hxr
  -- a used block may stand between any two
  have hmerged : ∀ (sz : ℕ) {r' : List Blk}, Merged r' →
      Merged (l ++ ⟨x.addr, sz, false⟩ :: r') := by
    intro sz r' hr'
    refine isChain_append.2 ⟨hl, isChain_cons.2 ⟨fun d _ hboth => ?_, hr'⟩, ?_⟩
    · cases hboth.1
    · intro b _ c hc hboth
      obtain rfl := Option.some.inj hc
      cases hboth.2.1
  have hinsert : ∀ (sz : ℕ) {r' : List Blk}, used r' = used r →
      used (l ++ ⟨x.addr, sz, false⟩ :: r') =
        insert ⟨x.addr, sz, false⟩ (used (l ++ x :: r)) := by
    intro sz r' hr'
    rw [used_append, used_cons_of_used rfl, hr', used_append, used_cons_of_free hx,
      Set.union_insert]
  unfold Heap.heapTake
  simp only [hs.block_eq, wrap_of_lt hlt, hptr]
  split
  · next hsplit =>
    have hroom : size + blockHeaderSize ≤ x.size := by omega
    have hs' := hs.splitBlock hroom hmod
    have hsplit' : Edit V _ _ := .split hs hx hroom hmod
    refine ⟨_, size, .head hsplit' (.single (.claim hs' hx)),
      hmerged size ?_, le_rfl, trivial, hinsert size (used_cons_of_free rfl r)⟩
    -- the rest ends where the block ended
    refine isChain_cons.2 ⟨fun d hd hboth => hnext d hd ⟨hx, hboth.2.1, ?_⟩, hr⟩
    rw [← hboth.2.2]
    simp only [stop, blockHeaderSize] at hsplit ⊢
    omega
  · exact ⟨_, x.size, .single (.claim hs hx), hmerged x.size hr, hle, trivial, hinsert x.size rfl⟩

lemma fuse_eq_absorb {a b : ℕ} (hab : Apart a b) (hnext : (h.block b).next = 0) :
    h.fuse a b = h.absorb a b := by
  unfold Heap.fuse Heap.absorb relink
  rw [if_neg]
  rw [block_setNext, block_setSize_apart hab, hnext, wrap_of_lt (Nat.two_pow_pos 64)]
  simp

lemma needPages_pos (hneed : need + blockHeaderSize + pmmPageSize - 1 < 2 ^ 64) :
    0 < needPages need := by
  unfold needPages
  rw [wrap_of_lt hneed]
  simp only [blockHeaderSize, pmmPageSize]
  omega

lemma growRun_fresh {runs : List Run} (hzero : needPages need = 0 → mem₂ = 0)
    (h₁ : FreshRun runs mem₁ (growPages need)) (h₂ : FreshRun runs mem₂ (needPages need))
    (hbase : (growRun need mem₁ mem₂).base ≠ 0) :
    ∃ run, growRun need mem₁ mem₂ = run ∧ run.base + run.bytes ≤ 2 ^ 64 ∧
      blockHeaderSize ≤ run.bytes ∧ run.bytes % 16 = 0 ∧ ∀ w ∈ runs, run.span.Disj w.span := by
  have hgrow : 1 ≤ growPages need := by
    unfold growPages heapGrowPages
    split
    · omega
    · omega
  have key : ∀ {base pages : ℕ}, 1 ≤ pages → base ≠ 0 → FreshRun runs base pages →
      base + wrap (pages * pmmPageSize) ≤ 2 ^ 64 ∧ blockHeaderSize ≤ wrap (pages * pmmPageSize) ∧
        wrap (pages * pmmPageSize) % 16 = 0 ∧
        ∀ w ∈ runs, (Run.mk base (wrap (pages * pmmPageSize))).span.Disj w.span := by
    intro base pages hpos hne hfresh
    obtain ⟨hlt, hdisj⟩ := hfresh.resolve_left hne
    rw [wrap_of_lt (by omega)]
    refine ⟨hlt, ?_, ?_, hdisj⟩
    · simp only [blockHeaderSize, pmmPageSize]
      omega
    · simp only [pmmPageSize]
      omega
  refine ⟨_, rfl, ?_⟩
  unfold growRun at hbase ⊢
  split
  · next hcond =>
    rw [if_pos hcond] at hbase
    exact key (Nat.one_le_iff_ne_zero.2 fun hnone => hbase (hzero hnone)) hbase h₂
  · next hcond =>
    rw [if_neg hcond] at hbase
    exact key hgrow hbase h₁

/-- A free block at the end of the list is fused with its predecessor if that is free and directly
in front of it. -/
lemma fused (hs : h.Shape (bs ++ [x])) (hm : Merged bs) (hx : x.free = true) :
    ∃ bs', Edits V (h, bs ++ [x]) ((if (h.block x.addr).prev ≠ 0 ∧
        (h.block (h.block x.addr).prev).isFree = true ∧
        h.blocksAdjacent (h.block x.addr).prev x.addr = true then
        (h.fuse (h.block x.addr).prev x.addr, (h.block x.addr).prev) else (h, x.addr)).1, bs') ∧
      Merged bs' ∧ used bs' = used bs ∧ ∃ b ∈ bs', b.free = true := by
  obtain ⟨bs', hedits, hm', hused, hfree⟩ :=
    hs.coalescePrev (V := V) hx hm (isChain_singleton _)
  rw [append_nil] at hused
  -- the last block is taken up as by `kfree`, for it has no successor
  have heq : (if (h.block x.addr).prev ≠ 0 ∧ (h.block (h.block x.addr).prev).isFree = true ∧
      h.blocksAdjacent (h.block x.addr).prev x.addr = true then
      (h.fuse (h.block x.addr).prev x.addr, (h.block x.addr).prev) else (h, x.addr)).1 =
      h.coalescePrev x.addr := by
    unfold Heap.coalescePrev
    dsimp only
    split
    · next hcond =>
      rcases eq_nil_or_concat' bs with rfl | ⟨l, a, rfl⟩
      · exact absurd (by simp [hs.block_eq]) hcond.1
      have hs' : h.Shape (l ++ a :: x :: []) := by simpa using hs
      have hprev : (h.block x.addr).prev = a.addr := by
        rw [hs.block_eq, map_append, map_cons, getLastD_append_cons]
        rfl
      rw [hprev]
      exact fuse_eq_absorb (hs'.apart x (by simp)) (by rw [hs.block_eq]; rfl)
    · rfl
  rw [heq]
  exact ⟨bs', hedits, hm', hused, hfree⟩

/-- **What `heap_grow` does**: no block becomes used. -/
theorem heapGrow (hs : h.Shape bs) (hm : Merged bs) (hzero : needPages need = 0 → mem₂ = 0)
    (h₁ : FreshRun h.runs mem₁ (growPages need)) (h₂ : FreshRun h.runs mem₂ (needPages need)) :
    ∃ bs', Edits V (h, bs) ((h.heapGrow need mem₁ mem₂).1, bs') ∧ Merged bs' ∧
      used bs' = used bs ∧ ((growRun need mem₁ mem₂).base ≠ 0 → ∃ b ∈ bs', b.free = true) := by
  unfold Heap.heapGrow
  dsimp only
  split
  · next hnull => exact ⟨bs, .refl, hm, rfl, absurd hnull⟩
  · next hbase =>
    obtain ⟨run, hrun, hlt, hbytes, hmod, hdisj⟩ := growRun_fresh hzero h₁ h₂ hbase
    rw [hrun] at hbase ⊢
    have hregion : Edit V _ _ := .region hs (Nat.pos_of_ne_zero hbase) hlt hbytes hmod hdisj
    obtain ⟨bs', hedits, hm', hused, hfree⟩ := hregion.shape.fused hm rfl
    exact ⟨bs', .head hregion hedits, hm', hused, fun _ => hfree⟩

lemma addr_ne_of_used (hs : h.Shape bs) (hx : x ∈ bs) (hfree : x.free = true) :
    ∀ b ∈ used bs, b.addr ≠ x.addr := by
  intro b hb heq
  obtain ⟨hmem, hused⟩ := hb
  rw [hs.addr_inj hmem hx heq, hfree] at hused
  cases hused

/-- The pointer that a call returns for a size: NULL, or the payload of a block that becomes used.
-/
def Allocates (size p : ℕ) (before after : Set Blk) : Prop :=
  p = 0 ∧ after = before ∨ ∃ x : Blk, p = x.addr + blockHeaderSize ∧ size ≤ x.size ∧
    x.free = false ∧ (∀ b ∈ before, b.addr ≠ x.addr) ∧ after = insert x before

/-- **`kmalloc` serves the request**: it returns NULL or the payload of a block that becomes used,
and edits the list for it. -/
def Serves (h : Heap) (bs : List Blk) (size mem₁ mem₂ : ℕ) : Prop :=
  ∃ h' p bs', h.kmalloc size mem₁ mem₂ = some (h', p) ∧ Edits ∅ (h, bs) (h', bs') ∧ Merged bs' ∧
    Allocates size p (used bs) (used bs')

lemma take_or_null (hs : h.Shape bs) (hm : Merged bs) (hpos : 0 < size)
    (hmod : size % 16 = 0) (hlt : size + blockHeaderSize + 16 < 2 ^ 64) :
    (∃ curr h' p bs', h.scan size (2 ^ 64) h.start = .fit curr ∧ h.heapTake curr size = (h', p) ∧
      Edits V (h, bs) (h', bs') ∧ Merged bs' ∧ Allocates size p (used bs) (used bs')) ∨
    h.scan size (2 ^ 64) h.start = .missing := by
  rcases hs.scan_start size with ⟨l, x, r, rfl, hfree, hle, hscan⟩ | hscan
  · obtain ⟨bs', sz, hedits, hm', hsz, hptr, hused⟩ := hs.heapTake hm hfree hpos hle hmod hlt
    refine .inl ⟨x.addr, _, _, bs', hscan, rfl, hedits, hm', .inr ⟨⟨x.addr, sz, false⟩, ?_⟩⟩
    have hx : x ∈ l ++ x :: r := by simp
    exact ⟨hptr, hsz, rfl, hs.addr_ne_of_used (x := x) hx hfree, hused⟩
  · exact .inr hscan

lemma align_spec (hsize : SizeOk size) (hne : size ≠ 0) :
    0 < align size ∧ size ≤ align size ∧ align size % 16 = 0 ∧
      align size + blockHeaderSize + 16 < 2 ^ 64 := by
  obtain ⟨hlt, hpage⟩ := hsize
  have heq : align size = (size + 15) / 16 * 16 := by
    unfold align
    rw [wrap_of_lt hlt]
  simp only [heq, blockHeaderSize, pmmPageSize] at hpage ⊢
  omega

/-- **What `kmalloc` does**: it returns NULL or makes a block used. -/
theorem kmalloc (hs : h.Shape bs) (hm : Merged bs) (hsize : SizeOk size)
    (hfresh : FreshRuns h.runs size mem₁ mem₂) : Serves h bs size mem₁ mem₂ := by
  unfold Serves Heap.kmalloc
  split
  · exact ⟨h, 0, bs, rfl, .refl, hm, .inl ⟨rfl, rfl⟩⟩
  · next hne =>
    obtain ⟨hpos, hle, hmod, hlt⟩ := align_spec hsize hne
    have hpages := needPages_pos hsize.2
    -- a block for the rounded size is one for the size
    have hround : ∀ {p : ℕ} {before after : Set Blk}, Allocates (align size) p before after →
        Allocates size p before after := by
      rintro p before after (hnull | ⟨x, hp, hx, hrest⟩)
      · exact .inl hnull
      · exact .inr ⟨x, hp, hle.trans hx, hrest⟩
    rcases hs.take_or_null hm hpos hmod hlt with
      ⟨curr, h', p, bs', hscan, htake, hedits, hm', hall⟩ | hscan
    · simp only [hscan, htake]
      exact ⟨h', p, bs', rfl, hedits, hm', hround hall⟩
    · simp only [hscan]
      obtain ⟨bs₁, hgrow, hm₁, hused₁, -⟩ :=
        hs.heapGrow hm (fun hzero => absurd hzero hpages.ne') hfresh.1 hfresh.2
      split
      · exact ⟨_, 0, bs₁, rfl, hgrow, hm₁, .inl ⟨rfl, hused₁⟩⟩
      · unfold kmallocRetry
        rw [← hused₁]
        rcases (hgrow.shape hs).take_or_null hm₁ hpos hmod hlt with
          ⟨curr, h', p, bs', hscan, htake, hedits, hm', hall⟩ | hscan
        · simp only [hscan, htake]
          exact ⟨h', p, bs', rfl, hgrow.trans hedits, hm', hround hall⟩
        · simp only [hscan]
          exact ⟨_, 0, bs₁, rfl, hgrow, hm₁, .inl ⟨rfl, rfl⟩⟩

/-! ## `kzalloc` and `krealloc` -/

theorem kzalloc (hs : h.Shape bs) (hserve : Serves h bs size mem₁ mem₂) :
    ∃ h' p bs', h.kzalloc size mem₁ mem₂ = some (h', p) ∧
      Edits {p - blockHeaderSize} (h, bs) (h', bs') ∧ Merged bs' ∧
      Allocates size p (used bs) (used bs') := by
  obtain ⟨h₁, p, bs', heq, hedits, hm', hall⟩ := hserve
  unfold Heap.kzalloc
  rw [heq]
  refine ⟨_, p, bs', rfl, ?_, hm', hall⟩
  split
  · next hp =>
    obtain ⟨x, hptr, hle, -, -, hafter⟩ := hall.resolve_left fun hnull => hp hnull.1
    have hx : x ∈ used bs' := hafter ▸ Set.mem_insert x _
    refine (hedits.mono (Set.empty_subset _)).tail (.payload (hedits.shape hs) hx.1 ?_
      (h₁.mem.sameOutside_fill p size 0) hptr.ge ?_)
    · rw [hptr, Nat.add_sub_cancel]
      exact Set.mem_singleton _
    · simp only [hptr, stop]
      omega
  · exact hedits.mono (Set.empty_subset _)

/-- **What `kfree` does to the used blocks.** -/
lemma kfree_used (hs : h.Shape bs) (hm : Merged bs) (hx : x ∈ used bs) (hv : x.addr ∈ V) :
    ∃ bs', Edits V (h, bs) (h.kfree (x.addr + blockHeaderSize), bs') ∧ Merged bs' ∧
      used bs' = used bs \ {x} := by
  obtain ⟨hx, hxfree⟩ := hx
  obtain ⟨l, r, rfl⟩ := append_of_mem hx
  obtain ⟨bs', hedits, hm', hused⟩ := hs.kfree hm hxfree hv
  refine ⟨bs', hedits, hm', hused.trans ?_⟩
  have hnot : x ∉ l ++ r := by
    intro hmem
    have hap := hs.apart x hmem
    unfold Apart at hap
    omega
  ext b
  simp only [mem_used, mem_append, mem_cons, Set.mem_sdiff, Set.mem_singleton_iff] at hnot ⊢
  constructor
  · rintro ⟨hb, hfree⟩
    refine ⟨⟨?_, hfree⟩, fun heq => hnot (heq ▸ hb)⟩
    rcases hb with hb | hb
    · exact .inl hb
    · exact .inr (.inr hb)
  · rintro ⟨⟨hb | rfl | hb, hfree⟩, hne⟩
    · exact ⟨.inl hb, hfree⟩
    · exact absurd rfl hne
    · exact ⟨.inr hb, hfree⟩

end Shape

end Heap

end SubOS.Mm
