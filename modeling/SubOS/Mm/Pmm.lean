import Mathlib.Data.List.Basic
import Mathlib.Data.Nat.Basic

set_option autoImplicit false

/-!
# The page allocator

`pmm_alloc_page` and `pmm_free_page` of `mm/pmm.c`: a bitmap with one bit for each physical page,
searched from the bottom.

## Main definitions

* `Pmm.allocPage`, `Pmm.freePage` — take and give back a page.

## Main results

* `Pmm.allocPage_cases` — the first free page is taken, or there is none.

## Design

A pointer is its address, and `0` is the null pointer. The bitmap is a function from page numbers;
`pmm_init` sets the number of pages, which is at most `MAX_PHYSICAL_PAGES`, but nothing here
depends on that bound. The statistics in bytes are left out.
-/

namespace SubOS.Mm

open Function

def pmmPageSize : ℕ := 4096

/-- `page_bitmap`, `total_pages` and `used_pages`. -/
structure Pmm where
  used : ℕ → Bool
  totalPages : ℕ
  usedPages : ℕ

namespace Pmm

/-- The first of the `n` pages from page `i` on that is free. -/
def firstFree (used : ℕ → Bool) : ℕ → ℕ → Option ℕ
  | 0, _ => none
  | n + 1, i => if used i then firstFree used n (i + 1) else some i

/-- `pmm_alloc_page`. -/
def allocPage (p : Pmm) : ℕ × Pmm :=
  match firstFree p.used p.totalPages 0 with
  | some i =>
    (i * pmmPageSize,
      { p with used := update p.used i true, usedPages := p.usedPages + 1 })
  | none => (0, p)

/-- `pmm_free_page`. -/
def freePage (p : Pmm) (ptr : ℕ) : Pmm :=
  if ptr = 0 then p
  else
    let page := ptr / pmmPageSize
    if page < p.totalPages ∧ p.used page = true then
      { p with used := update p.used page false,
               usedPages := if p.usedPages > 0 then p.usedPages - 1 else p.usedPages }
    else p

variable {p : Pmm} {used : ℕ → Bool} {i j n : ℕ}

lemma firstFree_eq_some (h : firstFree used n i = some j) : used j = false ∧ i ≤ j ∧ j < i + n := by
  induction n generalizing i with
  | zero => exact nomatch h
  | succ n ih =>
    unfold firstFree at h
    split at h
    · have := ih h
      exact ⟨this.1, by omega, by omega⟩
    · rename_i hi
      cases h
      exact ⟨by simpa using hi, le_rfl, by omega⟩

lemma allocPage_cases (p : Pmm) :
    p.allocPage = (0, p) ∨
      ∃ i, p.used i = false ∧ i < p.totalPages ∧
        p.allocPage = (i * pmmPageSize,
          { p with used := update p.used i true, usedPages := p.usedPages + 1 }) := by
  unfold allocPage
  cases h : firstFree p.used p.totalPages 0 with
  | none => exact .inl rfl
  | some i =>
    obtain ⟨hfree, -, hlt⟩ := firstFree_eq_some h
    exact .inr ⟨i, hfree, by omega, rfl⟩

lemma freePage_take (hfree : p.used i = false) (hlt : i < p.totalPages) (hpos : 0 < i) :
    freePage { p with used := update p.used i true, usedPages := p.usedPages + 1 }
      (i * pmmPageSize) = p := by
  have hptr : i * pmmPageSize ≠ 0 := by
    rw [pmmPageSize]
    omega
  have hpage : i * pmmPageSize / pmmPageSize = i := Nat.mul_div_cancel i (by decide)
  unfold freePage
  rw [if_neg hptr, hpage]
  rw [if_pos ⟨hlt, update_self ..⟩, if_pos (Nat.succ_pos _), Nat.add_sub_cancel, update_idem,
    ← hfree, update_eq_self]

lemma foldl_freePage {l : List ℕ} (hnodup : l.Nodup)
    (hl : ∀ a ∈ l, a % pmmPageSize = 0 ∧ a ≠ 0 ∧ a / pmmPageSize < p.totalPages ∧
      p.used (a / pmmPageSize) = true) (hcount : l.length ≤ p.usedPages) :
    l.foldl freePage p =
      { p with used := fun j => p.used j && decide (j * pmmPageSize ∉ l)
               usedPages := p.usedPages - l.length } := by
  induction l generalizing p with
  | nil => simp
  | cons a l ih =>
    rw [List.nodup_cons] at hnodup
    rw [List.length_cons] at hcount
    rw [List.forall_mem_cons] at hl
    obtain ⟨⟨hmod, hne, hlt, hused⟩, hrest⟩ := hl
    have hpos : p.usedPages > 0 := by omega
    have hstep : p.freePage a =
        { p with used := update p.used (a / pmmPageSize) false
                 usedPages := p.usedPages - 1 } := by
      unfold freePage
      rw [if_neg hne]
      rw [if_pos ⟨hlt, hused⟩, if_pos hpos]
    -- a later page of the list is another page
    have hother : ∀ b ∈ l, b / pmmPageSize ≠ a / pmmPageSize := by
      intro b hb heq
      have hmod' := (hrest b hb).1
      rw [pmmPageSize] at hmod hmod' heq
      have hba : b = a := by omega
      exact hnodup.1 (hba ▸ hb)
    rw [List.foldl_cons, hstep, ih hnodup.2]
    · have hcount' : p.usedPages - 1 - l.length = p.usedPages - (l.length + 1) := by omega
      simp only [mk.injEq, true_and, List.length_cons]
      refine ⟨funext fun j => ?_, hcount'⟩
      by_cases hj : j = a / pmmPageSize
      · have hja : j * pmmPageSize = a := by
          rw [pmmPageSize] at hmod hj ⊢
          omega
        rw [hj, update_self, ← hj, hja]
        simp
      · have hja : j * pmmPageSize ≠ a := by
          rintro rfl
          exact hj (Nat.mul_div_cancel j (by decide)).symm
        rw [update_of_ne hj]
        simp [hja]
    · intro b hb
      obtain ⟨hmod', hne', hlt', hused'⟩ := hrest b hb
      refine ⟨hmod', hne', hlt', ?_⟩
      dsimp only
      rw [update_of_ne (hother b hb)]
      exact hused'
    · dsimp only
      omega

end Pmm

end SubOS.Mm
