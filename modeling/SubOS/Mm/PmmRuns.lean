import Mathlib.Data.Nat.Count
import Mathlib.Order.Interval.Finset.Nat
import SubOS.Lib.EventRun
import SubOS.Mm.Pmm

set_option autoImplicit false

/-!
# Runs of pages

`pmm_init`, `pmm_alloc_pages` and `pmm_free_pages` of `mm/pmm.c`, and any sequence of allocations
and of frees of runs that were allocated. `pmm_init` is called without a memory map, or with any; in
both cases page 0 is not free, so that the null pointer is never the address of a run.

## Main definitions

* `Tracked`, `Meets` — the allocator with the live runs; what a call should do.

## Main results

* `Tracked.runs_sound` — every call does what it should.
-/

namespace SubOS.Mm

open EventRun List Nat

def maxPhysicalPages : ℕ := 1024 * 1024

/-- The fields of `e820_entry_t` that are read. -/
structure E820Entry where
  base : UInt64
  length : UInt64
  type : UInt32

def e820TypeUsable : UInt32 := 1

/-- How `pmm_init` is called: on a PC with a memory map, and on the ARM boards without one. -/
inductive Boot where
  | x86 (map : List E820Entry)
  | arm

namespace Pmm

/-! ## The bitmap at the start -/

/-- The bits of `n` pages from `start` on are set to `b`. -/
def fill (used : ℕ → Bool) (start n : ℕ) (b : Bool) : ℕ → Bool :=
  (List.range n).foldl (fun used p => Function.update used (start + p) b) used

/-- One page of a usable region: the bitmap and `total_pages`. -/
def addPage (a : (ℕ → Bool) × ℕ) (page : ℕ) : (ℕ → Bool) × ℕ :=
  if page < maxPhysicalPages then
    (Function.update a.1 page false, if a.2 ≤ page then page + 1 else a.2)
  else a

/-- One entry of the memory map: the bitmap, `total_pages` and `usable_memory_bytes`. -/
def addRegion (a : ((ℕ → Bool) × ℕ) × UInt64) (e : E820Entry) : ((ℕ → Bool) × ℕ) × UInt64 :=
  if e.type = e820TypeUsable then
    let startPage := e.base.toNat / pmmPageSize
    let pageCount := e.length.toNat / pmmPageSize
    ((List.range pageCount).foldl (fun a p => addPage a (startPage + p)) a.1, a.2 + e.length)
  else a

/-- The loop at the end of `pmm_init`. -/
def countUsed (used : ℕ → Bool) : ℕ → ℕ
  | 0 => 0
  | n + 1 => countUsed used n + if used n then 1 else 0

/-- The first page of the memory of the ARM boards. -/
def dramStartPage : ℕ := 0x40000000 / pmmPageSize

/-- The bitmap and `total_pages` before the area of the kernel is reserved. -/
def usablePages : Boot → (ℕ → Bool) × ℕ
  | .x86 map =>
    let a := map.foldl addRegion ((fun _ => true, 0), 0)
    if a.2 = 0 ∨ a.1.2 = 0 then (fill a.1.1 0 32768 false, 32768) else a.1
  | .arm =>
    let countPages := 128 * 1024 * 1024 / pmmPageSize
    (fill (fun _ => true) dramStartPage countPages false, dramStartPage + countPages)

/-- The first page of the area of the kernel. -/
def kernelStartPage : Boot → ℕ
  | .x86 _ => 0
  | .arm => dramStartPage

def pmmInit (boot : Boot) : Pmm :=
  let used := fill (usablePages boot).1 (kernelStartPage boot) 2048 true
  ⟨used, (usablePages boot).2, countUsed used (usablePages boot).2⟩

/-! ## Taking and giving back runs -/

/-- The loop of `pmm_alloc_pages` over the `n` pages from page `i` on, with `consecutive_free` and
`start_page`. -/
def findRun (used : ℕ → Bool) (count : ℕ) : ℕ → ℕ → ℕ → ℕ → Option ℕ
  | 0, _, _, _ => none
  | n + 1, i, consecutive, start =>
    if used i then findRun used count n (i + 1) 0 start
    else
      let start := if consecutive = 0 then i else start
      if consecutive + 1 = count then some start
      else findRun used count n (i + 1) (consecutive + 1) start

/-- `pmm_alloc_pages`. -/
def allocPages (p : Pmm) (count : ℕ) : ℕ × Pmm :=
  if count = 0 then (0, p)
  else
    match findRun p.used count p.totalPages 0 0 0 with
    | some start =>
      (start * pmmPageSize,
        { p with used := fill p.used start count true, usedPages := p.usedPages + count })
    | none => (0, p)

/-- One round of the loop of `pmm_free_pages`. -/
def clearPage (p : Pmm) (page : ℕ) : Pmm :=
  if page < p.totalPages ∧ p.used page = true then
    { p with used := Function.update p.used page false,
             usedPages := if p.usedPages > 0 then p.usedPages - 1 else p.usedPages }
  else p

/-- `pmm_free_pages`. -/
def freePages (p : Pmm) (ptr count : ℕ) : Pmm :=
  if ptr = 0 ∨ count = 0 then p
  else (List.range count).foldl (fun p i => p.clearPage (ptr / pmmPageSize + i)) p

variable {p : Pmm} {used : ℕ → Bool} {b : Bool} {i j n s count start consecutive : ℕ}

lemma freePage_eq (p : Pmm) (ptr : ℕ) :
    p.freePage ptr = if ptr = 0 then p else p.clearPage (ptr / pmmPageSize) := rfl

abbrev InRun (s n j : ℕ) : Prop := s ≤ j ∧ j < s + n

lemma fill_apply (used : ℕ → Bool) (s n : ℕ) (b : Bool) (j : ℕ) :
    fill used s n b j = if InRun s n j then b else used j := by
  induction n with
  | zero =>
    rw [if_neg (by omega)]
    rfl
  | succ n ih =>
    unfold fill at ih ⊢
    rw [range_succ, foldl_append, foldl_cons, foldl_nil]
    by_cases hj : j = s + n
    · rw [hj, Function.update_self, if_pos (by omega)]
    · rw [Function.update_of_ne hj, ih]
      by_cases hin : s ≤ j ∧ j < s + n
      · rw [if_pos hin, if_pos (by omega)]
      · rw [if_neg hin, if_neg (by omega)]

/-! ## The scan -/

/-- The pages from `s` on are free. -/
def FreeFrom (used : ℕ → Bool) (s n : ℕ) : Prop := ∀ j, InRun s n j → used j = false

/-- What the scan knows when it has come to page `i`: the last `consecutive` pages are free, the
page before them is not, and no run of the wanted length ends here or before. -/
structure Scanned (used : ℕ → Bool) (count i consecutive start : ℕ) : Prop where
  le : consecutive ≤ i
  lt : consecutive < count
  start : consecutive ≠ 0 → start = i - consecutive
  free : FreeFrom used (i - consecutive) consecutive
  maximal : consecutive < i → used (i - consecutive - 1) = true
  none : ∀ s, s + count ≤ i → ¬ FreeFrom used s count

/-- **The scan finds the lowest free run**, and finds one if there is one.

**Proof sketch.** Induction on the pages that are left. A page in use ends every run that reaches
it. A free page that does not complete the run adds one candidate, which would start before the page
that ended the run before. -/
lemma findRun_spec (h : Scanned used count i consecutive start) :
    match findRun used count n i consecutive start with
    | some s => s + count ≤ i + n ∧ FreeFrom used s count ∧ ∀ s' < s, ¬ FreeFrom used s' count
    | none => ∀ s, s + count ≤ i + n → ¬ FreeFrom used s count := by
  induction n generalizing i consecutive start with
  | zero => exact h.none
  | succ n ih =>
    have hle := h.le
    have hlt := h.lt
    unfold findRun
    by_cases hused : used i = true
    · have hnext : Scanned used count (i + 1) 0 start := by
        refine ⟨zero_le _, by omega, absurd rfl, fun j hj => ?_, fun _ => ?_, ?_⟩
        · omega
        · simpa using hused
        · intro s hs hfree
          by_cases hlast : s + count ≤ i
          · exact h.none s hlast hfree
          · have := hfree i ⟨by omega, by omega⟩
            rw [hused] at this
            exact nomatch this
      rw [if_pos hused, show i + (n + 1) = i + 1 + n by omega]
      exact ih hnext
    · have hfree' : used i = false := by simpa using hused
      have hstart : (if consecutive = 0 then i else start) = i - consecutive := by
        split_ifs with hzero
        · omega
        · exact h.start hzero
      have hrun : FreeFrom used (i - consecutive) (consecutive + 1) := by
        intro j hj
        by_cases hji : j = i
        · rw [hji, hfree']
        · exact h.free j ⟨by omega, by omega⟩
      rw [hstart]
      split_ifs with hdone
      · refine ⟨by omega, hdone ▸ hrun, fun s' hs' => h.none s' (by omega)⟩
      · have hnext : Scanned used count (i + 1) (consecutive + 1) (i - consecutive) := by
          refine ⟨by omega, by omega, fun _ => by omega, ?_, fun hlt' => ?_, ?_⟩
          · rwa [show i + 1 - (consecutive + 1) = i - consecutive by omega]
          · rw [show i + 1 - (consecutive + 1) - 1 = i - consecutive - 1 by omega]
            exact h.maximal (by omega)
          · intro s hs hfree
            by_cases hlast : s + count ≤ i
            · exact h.none s hlast hfree
            · -- the candidate contains the page before the consecutive ones
              have hbefore := h.maximal (by omega)
              rw [hfree (i - consecutive - 1) ⟨by omega, by omega⟩] at hbefore
              exact nomatch hbefore
        rw [show i + (n + 1) = i + 1 + n by omega]
        exact ih hnext

lemma scanned_zero (used : ℕ → Bool) (hcount : count ≠ 0) : Scanned used count 0 0 0 :=
  ⟨le_rfl, Nat.pos_of_ne_zero hcount, absurd rfl, fun j hj => by omega,
    fun h => absurd h (lt_irrefl 0), fun s hs => by omega⟩

lemma findRun_one (used : ℕ → Bool) (n i start : ℕ) :
    findRun used 1 n i 0 start = firstFree used n i := by
  induction n generalizing i with
  | zero => rfl
  | succ n ih =>
    unfold findRun
    rw [ih (i + 1)]
    rfl

/-! ## Allocation and release -/

/-- A run of free pages below `total_pages`. -/
structure FreeRun (p : Pmm) (s n : ℕ) : Prop where
  pos : 0 < n
  fits : s + n ≤ p.totalPages
  free : FreeFrom p.used s n

/-- The allocator after the run was taken. -/
def taken (p : Pmm) (s n : ℕ) : Pmm :=
  { p with used := fill p.used s n true, usedPages := p.usedPages + n }

/-- **`pmm_alloc_pages`** takes the lowest free run, if there is one. -/
lemma allocPages_cases (p : Pmm) (count : ℕ) :
    (∃ s, p.FreeRun s count ∧ (∀ s', p.FreeRun s' count → s ≤ s') ∧
        p.allocPages count = (s * pmmPageSize, p.taken s count)) ∨
      (∀ s, ¬ p.FreeRun s count) ∧ p.allocPages count = (0, p) := by
  unfold allocPages
  by_cases hcount : count = 0
  · refine .inr ⟨fun s h => ?_, if_pos hcount⟩
    have := h.pos
    omega
  · have hspec := findRun_spec (n := p.totalPages) (scanned_zero p.used hcount)
    rw [if_neg hcount]
    cases hfind : findRun p.used count p.totalPages 0 0 0 with
    | none =>
      rw [hfind] at hspec
      refine .inr ⟨fun s h => hspec s ?_ h.free, rfl⟩
      have := h.fits
      omega
    | some s =>
      rw [hfind] at hspec
      obtain ⟨hfits, hfree, hlowest⟩ := hspec
      refine .inl ⟨s, ⟨Nat.pos_of_ne_zero hcount, by omega, hfree⟩, fun s' h => ?_, rfl⟩
      by_contra hlt
      exact hlowest s' (by omega) h.free

lemma allocPage_eq (p : Pmm) : p.allocPage = p.allocPages 1 := by
  unfold allocPages
  rw [if_neg one_ne_zero, findRun_one]
  rfl

/-- **Giving a run back** clears its bits and no others. -/
lemma foldl_clearPage (hfits : s + n ≤ p.totalPages) (hused : ∀ j, InRun s n j → p.used j = true)
    (hcount : n ≤ p.usedPages) :
    (range n).foldl (fun p i => p.clearPage (s + i)) p =
      { p with used := fill p.used s n false, usedPages := p.usedPages - n } := by
  induction n with
  | zero => rfl
  | succ n ih =>
    have hlast : ¬ InRun s n (s + n) := by omega
    rw [range_succ, foldl_append, foldl_cons, foldl_nil,
      ih (by omega) (fun j hj => hused j ⟨hj.1, by omega⟩) (by omega)]
    have hbit : fill p.used s n false (s + n) = true := by
      rw [fill_apply, if_neg hlast]
      exact hused _ ⟨by omega, by omega⟩
    unfold clearPage
    dsimp only
    rw [if_pos ⟨by omega, hbit⟩, if_pos (by omega), show p.usedPages - n - 1 =
      p.usedPages - (n + 1) by omega]
    unfold fill
    rw [range_succ, foldl_append, foldl_cons, foldl_nil]

def setPages (p : Pmm) : Finset ℕ := (Finset.range p.totalPages).filter fun j => p.used j = true

lemma mem_setPages : j ∈ p.setPages ↔ j < p.totalPages ∧ p.used j = true := by
  simp [setPages]

lemma countUsed_eq (used : ℕ → Bool) (n : ℕ) :
    countUsed used n = ((Finset.range n).filter fun j => used j = true).card := by
  have hcount : countUsed used n = count (fun j => used j = true) n := by
    induction n with
    | zero => rfl
    | succ n ih => rw [countUsed, ih, count_succ]
  rw [hcount, count_eq_card_filter_range]

lemma card_run (s n : ℕ) : (Finset.Ico s (s + n)).card = n := by
  rw [card_Ico, Nat.add_sub_cancel_left]

lemma mem_run : j ∈ Finset.Ico s (s + n) ↔ InRun s n j := Finset.mem_Ico

lemma card_setPages_taken (h : p.FreeRun s n) :
    (p.taken s n).setPages.card = p.setPages.card + n := by
  have hfits := h.fits
  have hunion : (p.taken s n).setPages = p.setPages ∪ Finset.Ico s (s + n) := by
    ext j
    rw [Finset.mem_union, mem_setPages, mem_setPages, mem_run]
    show j < p.totalPages ∧ fill p.used s n true j = true ↔ _
    rw [fill_apply]
    split_ifs with hin
    · exact ⟨fun _ => .inr hin, fun _ => ⟨by omega, rfl⟩⟩
    · exact ⟨.inl, fun hj => hj.resolve_right hin⟩
  have hdisjoint : Disjoint p.setPages (Finset.Ico s (s + n)) := by
    rw [Finset.disjoint_left]
    intro j hj hin
    rw [mem_setPages, h.free j (mem_run.1 hin)] at hj
    exact nomatch hj.2
  rw [hunion, Finset.card_union_of_disjoint hdisjoint, card_run]

lemma run_subset_setPages (hfits : s + n ≤ p.totalPages)
    (hused : ∀ j, InRun s n j → p.used j = true) : Finset.Ico s (s + n) ⊆ p.setPages := by
  intro j hj
  have hin := mem_run.1 hj
  exact mem_setPages.2 ⟨by omega, hused j hin⟩

lemma card_setPages_released (hfits : s + n ≤ p.totalPages)
    (hused : ∀ j, InRun s n j → p.used j = true) :
    ((Finset.range p.totalPages).filter fun j => fill p.used s n false j = true).card =
      p.setPages.card - n := by
  have hsdiff : ((Finset.range p.totalPages).filter fun j => fill p.used s n false j = true) =
      p.setPages \ Finset.Ico s (s + n) := by
    ext j
    rw [Finset.mem_sdiff, mem_setPages, mem_run, Finset.mem_filter, Finset.mem_range, fill_apply]
    split_ifs with hin
    · exact ⟨fun hj => hj.2.elim, fun hj => absurd hin hj.2⟩
    · exact ⟨fun hj => ⟨hj, hin⟩, fun hj => hj.1⟩
  rw [hsdiff, Finset.card_sdiff_of_subset (run_subset_setPages hfits hused), card_run]

/-! ## Sequences of calls -/

/-- The allocator, the bitmap that it started with, and the runs that are allocated. -/
structure Tracked where
  pmm : Pmm
  base : ℕ → Bool
  live : List (ℕ × ℕ)

inductive Call where
  | pmmAllocPage
  | pmmAllocPages (count : ℕ)
  | pmmFreePage (ptr : ℕ)
  | pmmFreePages (ptr count : ℕ)

namespace Tracked

/-- The state after an allocation that answered `r`. -/
def alloc (t : Tracked) (count : ℕ) (r : ℕ × Pmm) : Tracked :=
  { t with
    pmm := r.2
    live := if r.1 = 0 then t.live else (r.1 / pmmPageSize, count) :: t.live }

/-- The state after a run was given back. -/
def release (t : Tracked) (ptr count : ℕ) (pmm : Pmm) : Tracked :=
  { t with pmm, live := t.live.erase (ptr / pmmPageSize, count) }

def step (t : Tracked) : Call → Tracked
  | .pmmAllocPage => t.alloc 1 t.pmm.allocPage
  | .pmmAllocPages count => t.alloc count (t.pmm.allocPages count)
  | .pmmFreePage ptr => t.release ptr 1 (t.pmm.freePage ptr)
  | .pmmFreePages ptr count => t.release ptr count (t.pmm.freePages ptr count)

end Tracked

/-- The system after `pmm_init`. -/
def afterInit (boot : Boot) : Tracked := ⟨pmmInit boot, (pmmInit boot).used, []⟩

/-- The pointer and the length are those of a run that is allocated. -/
def IsLive (t : Tracked) (ptr count : ℕ) : Prop :=
  ptr % pmmPageSize = 0 ∧ (ptr / pmmPageSize, count) ∈ t.live

/-- Only runs that are allocated are given back. -/
def OnRuns (t : Tracked) : Call → Prop
  | .pmmFreePage ptr => IsLive t ptr 1
  | .pmmFreePages ptr count => IsLive t ptr count
  | _ => True

def Apart (r r' : ℕ × ℕ) : Prop := ∀ j, InRun r.1 r.2 j → ¬ InRun r'.1 r'.2 j

/-- An allocation that answers `ptr`: the lowest free run, which meets no run that is allocated, or
the null pointer if there is no free run. -/
def Allocates (t : Tracked) (count ptr : ℕ) : Prop :=
  (ptr = 0 ∧ ∀ s, ¬ t.pmm.FreeRun s count) ∨
    ∃ s, ptr = s * pmmPageSize ∧ ptr ≠ 0 ∧ t.pmm.FreeRun s count ∧
      (∀ s', t.pmm.FreeRun s' count → s ≤ s') ∧ ∀ r ∈ t.live, Apart (s, count) r

/-- The bitmap after a run was given back: its pages are free, and nothing else has changed. -/
def Releases (t : Tracked) (ptr count : ℕ) (used : ℕ → Bool) : Prop :=
  ∀ j, used j = if InRun (ptr / pmmPageSize) count j then false else t.pmm.used j

def Meets (t : Tracked) : Call → Prop
  | .pmmAllocPage => Allocates t 1 t.pmm.allocPage.1
  | .pmmAllocPages count => Allocates t count (t.pmm.allocPages count).1
  | .pmmFreePage ptr => Releases t ptr 1 (t.pmm.freePage ptr).used
  | .pmmFreePages ptr count => Releases t ptr count (t.pmm.freePages ptr count).used

/-- What holds between calls: the bits that are set are those of the first bitmap and those of the
runs that are allocated, which lie apart below `total_pages`, and they are counted. -/
structure Sound (t : Tracked) : Prop where
  bitmap : ∀ j, t.pmm.used j = true ↔ t.base j = true ∨ ∃ r ∈ t.live, InRun r.1 r.2 j
  fresh : ∀ r ∈ t.live, ∀ j, InRun r.1 r.2 j → t.base j = false
  inside : ∀ r ∈ t.live, 0 < r.2 ∧ r.1 + r.2 ≤ t.pmm.totalPages
  apart : t.live.Pairwise Apart
  counted : t.pmm.usedPages = t.pmm.setPages.card
  null : t.base 0 = true

variable {t : Tracked} {ptr : ℕ}

lemma Apart.symm {r r' : ℕ × ℕ} (h : Apart r r') : Apart r' r := fun j hj hj' => h j hj' hj

namespace Sound

section

variable (h : Sound t)
include h

lemma used_of_mem {r : ℕ × ℕ} (hr : r ∈ t.live) (hj : InRun r.1 r.2 j) :
    t.pmm.used j = true := (h.bitmap j).2 (.inr ⟨r, hr, hj⟩)

lemma apart_of_freeRun (hfree : t.pmm.FreeRun s n) {r : ℕ × ℕ} (hr : r ∈ t.live) :
    Apart (s, n) r := by
  intro j hj hj'
  have hused := h.used_of_mem hr hj'
  rw [hfree.free j hj] at hused
  exact nomatch hused

lemma start_ne_zero (hfree : t.pmm.FreeRun s n) : s ≠ 0 := by
  rintro rfl
  have hpos := hfree.pos
  have hused := (h.bitmap 0).2 (.inl h.null)
  rw [hfree.free 0 ⟨le_rfl, by omega⟩] at hused
  exact nomatch hused

lemma taken (hfree : t.pmm.FreeRun s n) :
    Sound { t with pmm := t.pmm.taken s n, live := (s, n) :: t.live } := by
  refine ⟨fun j => ?_, ?_, ?_, ?_, ?_, h.null⟩
  · show fill t.pmm.used s n true j = true ↔ _
    rw [fill_apply]
    by_cases hin : InRun s n j
    · rw [if_pos hin]
      exact ⟨fun _ => .inr ⟨(s, n), mem_cons_self, hin⟩, fun _ => rfl⟩
    · rw [if_neg hin, h.bitmap j]
      refine or_congr_right ⟨fun ⟨r, hr, hj⟩ => ⟨r, mem_cons_of_mem _ hr, hj⟩, ?_⟩
      rintro ⟨r, hr, hj⟩
      rcases mem_cons.1 hr with rfl | hr
      · exact absurd hj hin
      · exact ⟨r, hr, hj⟩
  · intro r hr j hj
    rcases mem_cons.1 hr with rfl | hr
    · by_contra hbase
      have hused := (h.bitmap j).2 (.inl (by simpa using hbase))
      rw [hfree.free j hj] at hused
      exact nomatch hused
    · exact h.fresh r hr j hj
  · intro r hr
    rcases mem_cons.1 hr with rfl | hr
    · exact ⟨hfree.pos, hfree.fits⟩
    · exact h.inside r hr
  · exact pairwise_cons.2 ⟨fun r hr => h.apart_of_freeRun hfree hr, h.apart⟩
  · show t.pmm.usedPages + n = (t.pmm.taken s n).setPages.card
    rw [card_setPages_taken hfree, h.counted]

lemma alloc (count : ℕ) :
    Allocates t count (t.pmm.allocPages count).1 ∧
      Sound (t.alloc count (t.pmm.allocPages count)) := by
  rcases t.pmm.allocPages_cases count with ⟨s, hfree, hlowest, heq⟩ | ⟨hnone, heq⟩
  · have hne : s * pmmPageSize ≠ 0 := Nat.mul_ne_zero (h.start_ne_zero hfree) (by decide)
    refine ⟨.inr ⟨s, by rw [heq], by rwa [heq], hfree, hlowest,
      fun r hr => h.apart_of_freeRun hfree hr⟩, ?_⟩
    unfold Tracked.alloc
    rw [heq]
    rw [if_neg hne, Nat.mul_div_cancel s (by decide)]
    exact h.taken hfree
  · refine ⟨.inl ⟨by rw [heq], hnone⟩, ?_⟩
    rw [heq]
    exact h

lemma release (hr : (s, n) ∈ t.live) :
    Sound { t with
      pmm := { t.pmm with
        used := fill t.pmm.used s n false, usedPages := t.pmm.usedPages - n }
      live := t.live.erase (s, n) } := by
  have hperm : t.live.Perm ((s, n) :: t.live.erase (s, n)) := perm_cons_erase hr
  have hpairwise := (hperm.pairwise_iff fun {_ _} => .symm).1 h.apart
  obtain ⟨hapart, hrest⟩ := pairwise_cons.1 hpairwise
  have hmem : ∀ {r}, r ∈ t.live.erase (s, n) → r ∈ t.live := mem_of_mem_erase
  refine ⟨fun j => ?_, fun r hr' => h.fresh r (hmem hr'), fun r hr' => h.inside r (hmem hr'), hrest,
    ?_, h.null⟩
  · dsimp only
    rw [fill_apply]
    by_cases hin : InRun s n j
    · rw [if_pos hin]
      refine ⟨nofun, ?_⟩
      rintro (hbase | ⟨r, hr', hj⟩)
      · rw [h.fresh _ hr j hin] at hbase
        exact hbase
      · exact absurd hj (hapart r hr' j hin)
    · rw [if_neg hin, h.bitmap j]
      refine or_congr_right ⟨?_, fun ⟨r, hr', hj⟩ => ⟨r, hmem hr', hj⟩⟩
      rintro ⟨r, hr', hj⟩
      rcases mem_cons.1 (hperm.mem_iff.1 hr') with rfl | hr'
      · exact absurd hj hin
      · exact ⟨r, hr', hj⟩
  · obtain ⟨-, hfits⟩ := h.inside _ hr
    have hcard := card_setPages_released hfits fun j hj => h.used_of_mem hr hj
    rw [h.counted]
    exact hcard.symm

lemma count_le (hr : (s, n) ∈ t.live) : n ≤ t.pmm.usedPages := by
  obtain ⟨-, hfits⟩ := h.inside _ hr
  have hle := Finset.card_le_card
    (run_subset_setPages hfits fun j hj => h.used_of_mem hr hj)
  rwa [card_run, ← h.counted] at hle

lemma freePages_eq (hlive : IsLive t ptr count) :
    t.pmm.freePages ptr count = { t.pmm with
      used := fill t.pmm.used (ptr / pmmPageSize) count false
      usedPages := t.pmm.usedPages - count } := by
  obtain ⟨hmod, hr⟩ := hlive
  obtain ⟨hpos, hfits⟩ := h.inside _ hr
  have hptr : ptr ≠ 0 := by
    rintro rfl
    rw [Nat.zero_div] at hr
    have hbase := h.fresh _ hr 0 ⟨le_rfl, by omega⟩
    rw [h.null] at hbase
    exact nomatch hbase
  unfold freePages
  rw [if_neg (by omega)]
  exact foldl_clearPage hfits (fun j hj => h.used_of_mem hr hj) (h.count_le hr)

end

end Sound

lemma freePage_eq_freePages (p : Pmm) (ptr : ℕ) : p.freePage ptr = p.freePages ptr 1 := by
  rw [freePage_eq]
  unfold freePages
  by_cases hptr : ptr = 0
  · rw [if_pos hptr, if_pos (.inl hptr)]
  · rw [if_neg hptr, if_neg (by omega)]
    rfl

lemma step_spec (h : Sound t) {c : Call} (hon : OnRuns t c) : Meets t c ∧ Sound (t.step c) := by
  have hfree : ∀ ptr {count}, IsLive t ptr count →
      Releases t ptr count (t.pmm.freePages ptr count).used ∧
        Sound (t.release ptr count (t.pmm.freePages ptr count)) := by
    intro ptr count hlive
    have heq := h.freePages_eq hlive
    refine ⟨fun j => ?_, ?_⟩
    · rw [heq]
      exact fill_apply _ _ _ _ _
    · rw [heq]
      exact h.release hlive.2
  cases c with
  | pmmAllocPage =>
    have halloc := h.alloc 1
    rwa [← allocPage_eq] at halloc
  | pmmAllocPages count => exact h.alloc count
  | pmmFreePage ptr =>
    have hrelease := hfree ptr hon
    rwa [← freePage_eq_freePages] at hrelease
  | pmmFreePages ptr count => exact hfree ptr hon

/-! ## The start -/

/-- Page 0 is not free after `pmm_init`: it is reserved on a PC, and no memory on the ARM boards. -/
lemma pmmInit_zero (boot : Boot) : (pmmInit boot).used 0 = true := by
  unfold pmmInit
  dsimp only
  rw [fill_apply]
  cases boot with
  | x86 map => exact if_pos ⟨le_rfl, succ_pos _⟩
  | arm =>
    unfold usablePages
    dsimp only
    rw [fill_apply, if_neg (by decide), if_neg (by decide)]

lemma counted_countUsed (used : ℕ → Bool) (total : ℕ) :
    countUsed used total = (Pmm.mk used total (countUsed used total)).setPages.card :=
  countUsed_eq used total

lemma pmmInit_counted (boot : Boot) : (pmmInit boot).usedPages = (pmmInit boot).setPages.card := by
  unfold pmmInit
  generalize fill (usablePages boot).1 (kernelStartPage boot) 2048 true = used
  exact counted_countUsed used _

lemma sound_afterInit (boot : Boot) : Sound (afterInit boot) := by
  unfold afterInit
  have hzero := pmmInit_zero boot
  have hcounted := pmmInit_counted boot
  generalize pmmInit boot = p at hzero hcounted
  refine ⟨fun j => ?_, nofun, nofun, .nil, hcounted, hzero⟩
  refine ⟨.inl, ?_⟩
  rintro (hj | ⟨r, hr, -⟩)
  · exact hj
  · exact nomatch hr

/-- **Every call does what it should.** From the bitmap that `pmm_init` leaves, along any sequence
of allocations and of frees of runs that are allocated: an allocation takes the lowest run of free
pages, or there is none; a free clears exactly the bits of its run; the bitmap is the first one and
the runs that are allocated, which lie apart; and `used_pages` counts the bits that are set. -/
theorem runs_sound (boot : Boot) (cs : List Call)
    (hon : Along Tracked.step OnRuns (afterInit boot) cs) :
    Along Tracked.step Meets (afterInit boot) cs ∧
      Sound (run Tracked.step (afterInit boot) cs) := by
  have hsound := sound_afterInit boot
  generalize afterInit boot = t at hon hsound ⊢
  have hstep : ∀ t c, Sound t → OnRuns t c → Meets t c ∧ Sound (t.step c) :=
    fun _ _ h hc => step_spec h hc
  exact ⟨along_of_along hstep hsound hon,
    run_invariant_of_along (fun t c h hc => (hstep t c h hc).2) hsound hon⟩

/-- A PC with three usable pages behind the area of the kernel. -/
def threePages : Boot := .x86 [⟨0x800000, 0x3000, 1⟩]

lemma freeRun_threePages : (pmmInit threePages).FreeRun 2048 2 := by
  refine ⟨by decide, by decide +kernel, fun j hj => ?_⟩
  have hfree : ∀ j, InRun 2048 2 j → (usablePages threePages).1 j = false := by
    intro j hj
    obtain rfl | rfl : j = 2048 ∨ j = 2049 := by omega
    · decide +kernel
    · decide +kernel
  unfold pmmInit
  dsimp only
  rw [fill_apply, if_neg, hfree j hj]
  show ¬ InRun 0 2048 j
  omega

/-- Two pages are taken and given back. -/
def takeAndGiveBack : List Call :=
  [.pmmAllocPages 2, .pmmFreePages ((pmmInit threePages).allocPages 2).1 2]

/-- The run that is given back is the one that was taken. -/
theorem runs_sound_threePages :
    Along Tracked.step OnRuns (afterInit threePages) takeAndGiveBack ∧
    Along Tracked.step Meets (afterInit threePages) takeAndGiveBack ∧
    Sound (run Tracked.step (afterInit threePages) takeAndGiveBack) := by
  have hon : Along .step OnRuns (afterInit threePages) takeAndGiveBack := by
    refine ⟨trivial, ?_, trivial⟩
    rcases (pmmInit threePages).allocPages_cases 2 with ⟨s, hfree, -, heq⟩ | ⟨hnone, -⟩
    · have hne : s * pmmPageSize ≠ 0 :=
        Nat.mul_ne_zero ((sound_afterInit threePages).start_ne_zero hfree) (by decide)
      unfold OnRuns Tracked.step Tracked.alloc afterInit
      dsimp only
      rw [heq]
      rw [if_neg hne]
      exact ⟨mul_mod_left _ _, mem_cons_self⟩
    · exact absurd freeRun_threePages (hnone 2048)
  exact ⟨hon, runs_sound threePages takeAndGiveBack hon⟩

end Pmm

end SubOS.Mm
