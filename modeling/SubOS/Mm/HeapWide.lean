import SubOS.Mm.HeapSums

set_option autoImplicit false

/-!
# Requests of any size

`kmalloc` rounds a size up to 16 bytes and to pages, in 64 bits. Where only the rounding to pages
overflows, the heap may grow by a few pages to no purpose, and the request fails. Where the rounding
to 16 overflows, which it does for the last 15 sizes, the rounded size is 0 and every free block is
large enough.

## Main definitions

* `Wide`, `Granted` — sizes that can be rounded up to 16 bytes; the answer to a request.

## Main results

* `granted_iff`, `empty_payload` — which requests are granted, and one with an empty payload.
-/

namespace SubOS.Mm

open EventRun HeapState Heap

namespace HeapState

/-- What `pmm_alloc_pages` answers: NULL if it is asked for no pages, and otherwise NULL or a new
run at the start of a page; the last page of the address space is not among those that it manages.
-/
def PmmRun (runs : List Run) (base pages : ℕ) : Prop :=
  FreshRun runs base pages ∧ base % pmmPageSize = 0 ∧ base + pages * pmmPageSize < 2 ^ 64 ∧
    (pages = 0 → base = 0)
  deriving Decidable

/-- The answers to the requests of `heap_grow`. -/
def PmmRuns (runs : List Run) (size mem₁ mem₂ : ℕ) : Prop :=
  PmmRun runs mem₁ (Heap.growPages (Heap.align size)) ∧
    PmmRun runs mem₂ (Heap.needPages (Heap.align size))
  deriving Decidable

/-- Only live pointers are passed on and written to, and sizes can be rounded up to 16 bytes. -/
def Wide (s : HeapState) : Event → Prop
  | .kmalloc size mem₁ mem₂ | .kzalloc size mem₁ mem₂ =>
    size + 15 < 2 ^ 64 ∧ PmmRuns s.heap.runs size mem₁ mem₂
  | .krealloc ptr newSize mem₁ mem₂ =>
    s.LivePtr ptr ∧ newSize + 15 < 2 ^ 64 ∧ PmmRuns s.heap.runs newSize mem₁ mem₂
  | .kfree ptr => s.LivePtr ptr
  | .write addr _ => s.InLive addr

instance (s : HeapState) : DecidablePred s.Wide := by
  rintro ⟨⟩ <;> dsimp only [Wide] <;> infer_instance

end HeapState

namespace Heap

/-! ## The runs -/

/-- No run contains the first page or the last address. -/
def InnerRuns (h : Heap) : Prop := ∀ r ∈ h.runs, pmmPageSize ≤ r.base ∧ r.base + r.bytes < 2 ^ 64

variable {h h' : Heap} {size need mem₁ mem₂ p : ℕ}

section

variable (h : Heap)

lemma release_runs (a : ℕ) : (h.release a).runs = h.runs := rfl

lemma fuse_runs (a b : ℕ) : (h.fuse a b).runs = h.runs := rfl

lemma heapTake_runs (curr size : ℕ) : (h.heapTake curr size).1.runs = h.runs := by
  unfold heapTake
  show (ite _ _ _ : Heap).runs = _
  split
  · exact (splitBlock_counters h curr size).2.2
  · rfl

lemma coalesceNext_runs (a : ℕ) : (h.coalesceNext a).runs = h.runs := by
  unfold coalesceNext
  dsimp only
  split
  · exact (absorb_counters h _ _).2.2
  · rfl

lemma coalescePrev_runs (a : ℕ) : (h.coalescePrev a).runs = h.runs := by
  unfold coalescePrev
  dsimp only
  split
  · exact (absorb_counters h _ _).2.2
  · rfl

lemma kfree_runs (ptr : ℕ) : (h.kfree ptr).runs = h.runs := by
  unfold kfree
  split
  · rfl
  dsimp only
  split
  · rfl
  · rw [coalescePrev_runs, coalesceNext_runs, release_runs]

lemma heapGrow_runs (need mem₁ mem₂ : ℕ) :
    (h.heapGrow need mem₁ mem₂).1.runs = h.runs ∨ (growRun need mem₁ mem₂).base ≠ 0 ∧
      (h.heapGrow need mem₁ mem₂).1.runs = growRun need mem₁ mem₂ :: h.runs := by
  unfold heapGrow
  dsimp only
  split
  · exact .inl rfl
  · next hbase =>
    refine .inr ⟨hbase, ?_⟩
    split
    · rw [fuse_runs, Shape.addRegion_runs]
    · rw [Shape.addRegion_runs]

end

lemma growRun_inner {runs : List Run} (hpmm : PmmRuns runs size mem₁ mem₂)
    (hbase : (growRun (align size) mem₁ mem₂).base ≠ 0) :
    pmmPageSize ≤ (growRun (align size) mem₁ mem₂).base ∧
      (growRun (align size) mem₁ mem₂).base + (growRun (align size) mem₁ mem₂).bytes < 2 ^ 64 := by
  have key : ∀ {base pages : ℕ}, PmmRun runs base pages → base ≠ 0 →
      pmmPageSize ≤ base ∧ base + wrap (pages * pmmPageSize) < 2 ^ 64 := by
    rintro base pages ⟨-, hmod, hlt, -⟩ hne
    rw [wrap_of_lt (by omega)]
    simp only [pmmPageSize] at hmod hlt ⊢
    omega
  unfold growRun at hbase ⊢
  split
  · next hcond =>
    rw [if_pos hcond] at hbase
    exact key hpmm.2 hbase
  · next hcond =>
    rw [if_neg hcond] at hbase
    exact key hpmm.1 hbase

lemma InnerRuns.congr (hh : h.InnerRuns) (heq : h'.runs = h.runs) : h'.InnerRuns := by
  unfold InnerRuns
  rwa [heq]

lemma InnerRuns.heapGrow (hh : h.InnerRuns) (hpmm : PmmRuns h.runs size mem₁ mem₂) :
    (h.heapGrow (align size) mem₁ mem₂).1.InnerRuns := by
  rcases heapGrow_runs h (align size) mem₁ mem₂ with heq | ⟨hbase, heq⟩
  · exact hh.congr heq
  · intro r hr
    rw [heq] at hr
    rcases List.mem_cons.1 hr with rfl | hr
    · exact growRun_inner hpmm hbase
    · exact hh r hr

lemma InnerRuns.kmalloc (hh : h.InnerRuns) (hpmm : HeapState.PmmRuns h.runs size mem₁ mem₂)
    (heq : h.kmalloc size mem₁ mem₂ = some (h', p)) : h'.InnerRuns := by
  have htake : ∀ {g : Heap} {curr : ℕ}, g.InnerRuns → g.heapTake curr (align size) = (h', p) →
      h'.InnerRuns := by
    intro g curr hg htake
    have hruns := heapTake_runs g curr (align size)
    rw [htake] at hruns
    exact hg.congr hruns
  unfold Heap.kmalloc at heq
  split at heq
  · cases heq
    exact hh
  dsimp only at heq
  split at heq
  · exact htake hh (Option.some.inj heq)
  · cases heq
    exact hh
  · cases heq
  · split at heq
    · cases heq
      exact hh.heapGrow hpmm
    · unfold kmallocRetry at heq
      split at heq
      · exact htake (hh.heapGrow hpmm) (Option.some.inj heq)
      · cases heq
        exact hh.heapGrow hpmm
      · cases heq
        exact hh.heapGrow hpmm
      · cases heq

/-! ## Large requests -/

namespace Shape

variable {bs : List Blk}

lemma inner (hs : h.Shape bs) (hh : h.InnerRuns) {b : Blk} (hb : b ∈ bs) :
    pmmPageSize ≤ b.addr ∧ b.stop < 2 ^ 64 := by
  have hcov : ∀ y, b.span.Has y → ∃ r ∈ h.runs, r.span.Has y := by
    intro y hy
    obtain ⟨w, hw, hhas⟩ := (hs.tiles.covers y).1 ⟨b.span, List.mem_map_of_mem hb, hy⟩
    obtain ⟨r, hr, rfl⟩ := List.mem_map.1 hw
    exact ⟨r, hr, hhas⟩
  have hpos : b.addr < b.stop := by
    simp only [Blk.stop, blockHeaderSize]
    omega
  obtain ⟨r, hr, hlow, -⟩ := hcov b.addr ⟨le_rfl, hpos⟩
  obtain ⟨w, hw, -, hhigh⟩ :=
    hcov (b.stop - 1) ⟨Nat.le_sub_one_of_lt hpos, Nat.sub_one_lt (by omega)⟩
  have hrin := hh r hr
  have hwin := hh w hw
  simp only [Run.span] at hlow hhigh
  omega

lemma scan_large (hs : h.Shape bs) (hh : h.InnerRuns)
    (hlarge : 2 ^ 64 ≤ align size + blockHeaderSize + pmmPageSize - 1) :
    h.scan (align size) (2 ^ 64) h.start = .missing := by
  rcases hs.scan_start (align size) with ⟨l, x, r, rfl, -, hle, -⟩ | hscan
  · have hstop := hs.bounds_self.2.1
    have hlow := (hs.inner hh (b := x) (by simp)).1
    simp only [Blk.stop, blockHeaderSize, pmmPageSize] at hstop hlow hlarge
    omega
  · exact hscan

/-- **`kmalloc` serves all requests that can be rounded up to 16 bytes.** -/
theorem serves (hs : h.Shape bs) (hm : Merged bs) (hh : h.InnerRuns) (hsize : size + 15 < 2 ^ 64)
    (hpmm : HeapState.PmmRuns h.runs size mem₁ mem₂) : Serves h bs size mem₁ mem₂ := by
  have hfresh : HeapState.FreshRuns h.runs size mem₁ mem₂ := ⟨hpmm.1.1, hpmm.2.1⟩
  by_cases hok : HeapState.SizeOk size
  · exact hs.kmalloc hm hok hfresh
  -- the request fails, before and after the heap has grown
  have hlarge : 2 ^ 64 ≤ align size + blockHeaderSize + pmmPageSize - 1 := by
    by_contra hnot
    exact hok ⟨hsize, by omega⟩
  have hne : size ≠ 0 := by
    rintro rfl
    exact hok (by decide +kernel)
  obtain ⟨bs₁, hgrow, hm₁, hused₁, -⟩ := hs.heapGrow (V := ∅) hm hpmm.2.2.2.2 hfresh.1 hfresh.2
  have hscan₁ := (hgrow.shape hs).scan_large (hh.heapGrow hpmm) hlarge
  unfold Serves Heap.kmalloc
  rw [if_neg hne]
  simp only [hs.scan_large hh hlarge]
  split
  · exact ⟨_, 0, bs₁, rfl, hgrow, hm₁, .inl ⟨rfl, hused₁⟩⟩
  · unfold kmallocRetry
    simp only [hscan₁]
    exact ⟨_, 0, bs₁, rfl, hgrow, hm₁, .inl ⟨rfl, hused₁⟩⟩

end Shape

end Heap

namespace HeapState

variable {s : HeapState} {bs : List Blk}

open Heap (InnerRuns)

lemma innerRuns_kzalloc {h h' : Heap} {size mem₁ mem₂ p : ℕ} (hh : h.InnerRuns)
    (hpmm : PmmRuns h.runs size mem₁ mem₂) (heq : h.kzalloc size mem₁ mem₂ = some (h', p)) :
    h'.InnerRuns := by
  unfold kzalloc at heq
  split at heq
  · cases heq
  · next g q hk =>
    have hg := hh.kmalloc hpmm hk
    cases heq
    split <;> exact hg

lemma innerRuns_krealloc {h h' : Heap} {ptr newSize mem₁ mem₂ p : ℕ} (hh : h.InnerRuns)
    (hpmm : PmmRuns h.runs newSize mem₁ mem₂)
    (heq : h.krealloc ptr newSize mem₁ mem₂ = some (h', p)) : h'.InnerRuns := by
  have hfree : ∀ {g : Heap}, g.InnerRuns → (g.kfree ptr).InnerRuns :=
    fun hg => hg.congr (kfree_runs _ ptr)
  unfold krealloc at heq
  split at heq
  · exact hh.kmalloc hpmm heq
  split at heq
  · cases heq
    exact hfree hh
  dsimp only at heq
  split at heq
  · cases heq
    exact hh
  split at heq
  · cases heq
    exact hh
  split at heq
  · cases heq
  · next g q hk =>
    have hg := hh.kmalloc hpmm hk
    split at heq
    · rw [Option.some.injEq, Prod.mk.injEq] at heq
      rw [← heq.1]
      exact hfree hg
    · cases heq
      exact hg

/-- **A call keeps the first page and the last address out of the heap.** -/
lemma innerRuns_step (hh : s.heap.InnerRuns) {e : Event} (hv : s.Wide e) :
    (s.step e).heap.InnerRuns := by
  have hfinish : ∀ (live : ℕ → List Alloc) (r : Option (Heap × ℕ)),
      (∀ h' p, r = some (h', p) → h'.InnerRuns) → (s.finish live r).heap.InnerRuns := by
    intro live r hr
    rcases r with - | ⟨h', p⟩
    · exact hh
    · exact hr h' p rfl
  cases e with
  | kmalloc size mem₁ mem₂ => exact hfinish _ _ fun h' p heq => hh.kmalloc hv.2 heq
  | kzalloc size mem₁ mem₂ => exact hfinish _ _ fun h' p heq => innerRuns_kzalloc hh hv.2 heq
  | krealloc ptr newSize mem₁ mem₂ =>
    exact hfinish _ _ fun h' p heq => innerRuns_krealloc hh hv.2.2 heq
  | kfree ptr => exact hh.congr (kfree_runs s.heap ptr)
  | write addr value => exact hh

/-- **A call whose size can be rounded up to 16 bytes keeps the invariant.** -/
lemma Inv.step_wide (hi : s.Inv bs) (hh : s.heap.InnerRuns) {e : Event} (hv : s.Wide e) :
    Reached s bs (s.step e) e.Names := by
  cases e with
  | kmalloc size mem₁ mem₂ => exact hi.kmalloc (hi.shape.serves hi.merged hh hv.1 hv.2)
  | kzalloc size mem₁ mem₂ => exact hi.kzalloc (hi.shape.serves hi.merged hh hv.1 hv.2)
  | krealloc ptr newSize mem₁ mem₂ =>
    exact hi.krealloc hv.1 (hi.shape.serves hi.merged hh hv.2.1 hv.2.2)
  | kfree ptr => exact hi.kfree hv
  | write addr value => exact hi.write hv

lemma inv_run_wide (m : ByteMemory) {initialMem : ℕ} (es : List Event)
    (hpmm : PmmRun [] initialMem heapInitialPages)
    (hwide : Along step Wide (init m initialMem) es) :
    ∃ bs, (run step (init m initialMem) es).Inv bs ∧
      (run step (init m initialMem) es).heap.InnerRuns := by
  have hstep : ∀ (s : HeapState) (e : Event), (∃ bs, s.Inv bs ∧ s.heap.InnerRuns) → s.Wide e →
      ∃ bs, (s.step e).Inv bs ∧ (s.step e).heap.InnerRuns := by
    rintro s e ⟨bs, hi, hh⟩ hv
    obtain ⟨-, bs', hi', -⟩ := hi.step_wide hh hv
    exact ⟨bs', hi', innerRuns_step hh hv⟩
  refine run_invariant_of_along hstep ⟨_, inv_init m hpmm.1, ?_⟩ hwide
  by_cases hne : initialMem = 0
  · simp [init, heapInit, InnerRuns, hne]
  · have hruns : (heapInit m initialMem).runs =
        [⟨initialMem, heapInitialPages * pmmPageSize⟩] := by
      simp only [heapInit, if_neg hne]
      rfl
    obtain ⟨-, hmod, hlt, -⟩ := hpmm
    simp only [init, InnerRuns, hruns, List.mem_singleton, forall_eq]
    simp only [pmmPageSize] at hmod hlt ⊢
    omega

end HeapState

namespace Heap

variable {h h' : Heap} {bs : List Blk} {size mem₁ mem₂ : ℕ}

/-- **`kmalloc` and `kzalloc` return NULL or as many bytes as they were asked for**: they belong to
the payload of a used block and to no other block, and `kzalloc` writes to no others. -/
def Granted (h : Heap) (size mem₁ mem₂ : ℕ) : Prop :=
  ∃ h' p m, h.kmalloc size mem₁ mem₂ = some (h', p) ∧
    h.kzalloc size mem₁ mem₂ = some ({ h' with mem := m }, p) ∧
    (p = 0 ∧ m = h'.mem ∨ h'.mem.SameOutside m p size ∧ ∃ bs x, h'.Shape bs ∧ x ∈ bs ∧
      x.free = false ∧ p = x.addr + blockHeaderSize ∧ p + size ≤ x.stop ∧
      ∀ y ∈ bs, y ≠ x → Span.Disj ⟨p, p + size⟩ y.span)

lemma kzalloc_eq {p : ℕ} (heq : h.kmalloc size mem₁ mem₂ = some (h', p)) :
    h.kzalloc size mem₁ mem₂ =
      some ({ h' with mem := if p = 0 then h'.mem else h'.mem.fill p size 0 }, p) := by
  unfold kzalloc
  rw [heq]
  dsimp only
  by_cases hp : p = 0
  · rw [if_neg (not_not_intro hp), if_pos hp]
  · rw [if_pos hp, if_neg hp]

lemma Shape.granted (hs : h.Shape bs) (hserve : Shape.Serves h bs size mem₁ mem₂) :
    h.Granted size mem₁ mem₂ := by
  obtain ⟨h', p, bs', heq, hedits, -, hall⟩ := hserve
  refine ⟨h', p, _, heq, kzalloc_eq heq, ?_⟩
  rcases hall with ⟨hp, -⟩ | ⟨x, hp, hle, hfree, -, hused⟩
  · exact .inl ⟨hp, if_pos hp⟩
  · have hne : p ≠ 0 := by
      rw [hp]
      simp [blockHeaderSize]
    have hs' := hedits.shape hs
    have hx : x ∈ used bs' := hused ▸ Set.mem_insert x _
    rw [if_neg hne]
    refine .inr ⟨h'.mem.sameOutside_fill p size 0, bs', x, hs', hx.1, hfree, hp, ?_, ?_⟩
    · rw [hp, Blk.stop]
      omega
    · intro y hy hyx
      have hdisj := hs'.disj_of_ne hx.1 hy hyx.symm
      simp only [Span.Disj, Blk.span, Blk.stop] at hdisj ⊢
      omega

lemma align_overflow (hlt : size < 2 ^ 64) (hlarge : 2 ^ 64 ≤ size + 15) : align size = 0 := by
  unfold align wrap
  omega

lemma Shape.scan_zero (hs : h.Shape bs) {b : Blk} (hb : b ∈ bs) (hfree : b.free = true) :
    ∃ l x r, bs = l ++ x :: r ∧ x.free = true ∧ h.scan 0 (2 ^ 64) h.start = .fit x.addr := by
  rcases hs.scan_start 0 with ⟨l, x, r, heq, hx, -, hscan⟩ | hscan
  · exact ⟨l, x, r, heq, hx, hscan⟩
  · rw [hs.start, Shape.scan_eq hs.chain (fun b hb => (hs.bounds b hb).1) hs.length_lt] at hscan
    cases hfind : bs.find? fun b => b.free && decide (0 ≤ b.size) with
    | none => exact absurd (List.find?_eq_none.1 hfind b hb) (by simp [hfree])
    | some x =>
      rw [hfind] at hscan
      cases hscan

lemma Shape.heapTake_ne_zero {l r : List Blk} {x : Blk} (hs : h.Shape (l ++ x :: r))
    (hh : h.InnerRuns) (size : ℕ) : (h.heapTake x.addr size).2 ≠ 0 := by
  have hstop := (hs.inner hh (b := x) (by simp)).2
  unfold Heap.heapTake
  simp only [Blk.stop, blockHeaderSize] at hstop ⊢
  rw [wrap_of_lt (by omega)]
  omega

lemma heapGrow_ne_zero (h : Heap) (hbase : (growRun size mem₁ mem₂).base ≠ 0) :
    (h.heapGrow size mem₁ mem₂).2 ≠ 0 := by
  unfold heapGrow
  dsimp only
  rw [if_neg hbase]
  split
  · next hcond => exact hcond.1
  · exact hbase

/-- **A size that is rounded up to 0 gets a pointer** if a block is free or the heap grows. -/
lemma Shape.overflow_ne_zero (hs : h.Shape bs) (hm : Merged bs) (hh : h.InnerRuns)
    (hlt : size < 2 ^ 64) (hlarge : 2 ^ 64 ≤ size + 15)
    (hpmm : HeapState.PmmRuns h.runs size mem₁ mem₂)
    (hroom : ¬ (h.scan 0 (2 ^ 64) h.start = .missing ∧ (growRun 0 mem₁ mem₂).base = 0)) :
    ∃ h' p, h.kmalloc size mem₁ mem₂ = some (h', p) ∧ p ≠ 0 := by
  have halign := align_overflow hlt hlarge
  have hne : size ≠ 0 := by omega
  unfold Heap.kmalloc
  rw [if_neg hne]
  simp only [halign]
  rcases hs.scan_start 0 with ⟨l, x, r, rfl, -, -, hscan⟩ | hscan
  · simp only [hscan]
    exact ⟨_, _, rfl, hs.heapTake_ne_zero hh 0⟩
  · -- the heap grows, and the new run is free
    have hbase : (growRun 0 mem₁ mem₂).base ≠ 0 := fun hnull => hroom ⟨hscan, hnull⟩
    have hh₁ := hh.heapGrow hpmm
    obtain ⟨⟨hfresh₁, -⟩, hfresh₂, -, -, hzero⟩ := hpmm
    rw [halign] at hfresh₁ hfresh₂ hzero hh₁
    obtain ⟨bs₁, hgrow, hm₁, -, hfree⟩ := hs.heapGrow (V := ∅) hm hzero hfresh₁ hfresh₂
    obtain ⟨b, hb, hbfree⟩ := hfree hbase
    have hs₁ := hgrow.shape hs
    obtain ⟨l, x, r, rfl, -, hscan₁⟩ := hs₁.scan_zero hb hbfree
    simp only [hscan, if_neg (heapGrow_ne_zero h hbase)]
    unfold kmallocRetry
    simp only [hscan₁]
    exact ⟨_, _, rfl, hs₁.heapTake_ne_zero hh₁ 0⟩

end Heap

namespace HeapState

/-- **The requests that are granted.** In every state that is reached with sizes that can be rounded
up to 16 bytes, a request is granted if and only if its own size can be, or no block is free and the
page allocator has no run. -/
theorem granted_iff (m : ByteMemory) (initialMem : ℕ) (es : List Event)
    (hpmm : PmmRun [] initialMem heapInitialPages)
    (hwide : Along step Wide (init m initialMem) es) (size mem₁ mem₂ : ℕ) (hlt : size < 2 ^ 64)
    (hanswer : PmmRuns (run step (init m initialMem) es).heap.runs size mem₁ mem₂) :
    (run step (init m initialMem) es).heap.Granted size mem₁ mem₂ ↔
      size + 15 < 2 ^ 64 ∨
        ((run step (init m initialMem) es).heap.scan 0 (2 ^ 64)
          (run step (init m initialMem) es).heap.start = .missing ∧
          (Heap.growRun 0 mem₁ mem₂).base = 0) := by
  obtain ⟨bs, hi, hh⟩ := inv_run_wide m es hpmm hwide
  generalize run step (init m initialMem) es = s at *
  constructor
  · intro hgranted
    by_contra hnot
    rw [not_or] at hnot
    obtain ⟨h', p, heq, hne⟩ := hi.shape.overflow_ne_zero hi.merged hh hlt (by omega) hanswer hnot.2
    obtain ⟨h'', p', m', heq', -, hcase⟩ := hgranted
    rw [heq, Option.some.injEq, Prod.mk.injEq] at heq'
    obtain ⟨rfl, rfl⟩ := heq'
    -- so many bytes do not fit behind any address
    obtain ⟨-, bs', x, hs', hx, -, hp, hstop, -⟩ := hcase.resolve_left fun hnull => hne hnull.1
    have hbound := (hs'.bounds x hx).2.1
    simp only [blockHeaderSize] at hp
    omega
  · rintro (hsize | ⟨hscan, hbase⟩)
    · exact hi.shape.granted (hi.shape.serves hi.merged hh hsize hanswer)
    · by_cases hsize : size + 15 < 2 ^ 64
      · exact hi.shape.granted (hi.shape.serves hi.merged hh hsize hanswer)
      · have heq : s.heap.kmalloc size mem₁ mem₂ = some (s.heap, 0) := by
          unfold kmalloc
          rw [if_neg (by omega)]
          simp only [align_overflow hlt (Nat.le_of_not_lt hsize), hscan, heapGrow, hbase,
            if_true]
        exact ⟨s.heap, 0, _, heq, kzalloc_eq heq, .inl ⟨rfl, if_pos rfl⟩⟩

/-- A size that overflows when it is rounded up to pages: the heap grows to no purpose. -/
theorem granted_iff_large :
    (run step (init (fun _ => 0) 0x4000000) [.kmalloc 100 0 0,
      .write 0x4000020 7]).heap.Granted (2 ^ 64 - 16) 0x8000000 0 := by
  refine (granted_iff (fun _ => 0) 0x4000000 [.kmalloc 100 0 0, .write 0x4000020 7]
    (by decide +kernel) (by decide +kernel) (2 ^ 64 - 16) 0x8000000 0 (by decide)
    (by decide +kernel)).2 (.inl (by decide))

/-- **An empty payload.** The rounded size of `2 ^ 64 - 1` bytes is 0: `kmalloc` cuts a block with
an empty payload off the free block and returns a pointer to it. -/
theorem empty_payload :
    PmmRun [] 0x4000000 heapInitialPages ∧
    PmmRuns (init (fun _ => 0) 0x4000000).heap.runs (2 ^ 64 - 1) 0 0 ∧
    ((init (fun _ => 0) 0x4000000).heap.kmalloc (2 ^ 64 - 1) 0 0).map
      (fun r => (r.2, (r.1.block 0x4000000).size, (r.1.block 0x4000000).isFree)) =
      some (0x4000020, 0, false) := by
  refine ⟨by decide +kernel, by decide +kernel, by decide +kernel⟩

end HeapState

end SubOS.Mm
