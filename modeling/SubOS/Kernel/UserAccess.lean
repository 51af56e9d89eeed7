import SubOS.Kernel.ElfConfined

set_option autoImplicit false

/-!
# The kernel's writes into the buffers of a process

`sys_read` and `uaccess_copy_to_user` write to the memory of a process after `vmspace_range_ok` has
approved of the buffer. The approval asks that the pages are there for the user. It does not ask
that they may be written, and neither does the processor when the kernel writes.

## Main definitions

* `Guarded` — a call writes only to pages that may be written.

## Main results

* `guarded_iff`, `readOnly_overwritten` — which calls are guarded, and one that is not.

## Design

Nothing is assumed about the address space: the tables of the process may be any tables, and
`Call.kernel` may replace memory altogether.
-/

namespace SubOS.Kernel

open Mm

variable {u : Uproc} {buf len : ℕ} {s : Space}

def bufferPages (buf len : ℕ) : List ℕ :=
  (List.range ((Space.pageEnd buf len - pageDown buf) / vmPageSize)).map fun i =>
    pageDown buf + i * vmPageSize

/-- Every page of a buffer is present, for the user and writable, and in the user range. -/
def bufferWritable (s : Space) (buf len : ℕ) : Prop :=
  userBase ≤ buf ∧ buf + len ≤ userLimit ∧ ∀ page ∈ bufferPages buf len, pageWritable s page = true

/-- A page is present and for the user, but not writable. -/
def pageReadOnly (s : Space) (page : ℕ) : Bool := s.pageOk page && !pageWritable s page

/-- The kernel writes into a buffer only if all its pages are writable; else the call is refused and
changes nothing. -/
def Guarded (u : Uproc) : Call → Prop
  | .read buf count data => count ≠ 0 → ¬ bufferWritable u.space buf count →
      u.sysRead buf count data = (efault, u)
  | .copyToUser udst src => src ≠ [] → ¬ bufferWritable u.space udst src.length →
      u.uaccessCopyToUser udst src = (-1, u)
  | _ => True

/-- A buffer in the user range whose pages are all there for the user has no read-only page. -/
def BufferPlain (s : Space) (buf len : ℕ) : Prop :=
  userBase ≤ buf → buf + len ≤ userLimit → (∀ page ∈ bufferPages buf len, s.pageOk page = true) →
    ∀ page ∈ bufferPages buf len, pageReadOnly s page = false

/-- The buffer of a call, if it has one, is plain. -/
def NoReadOnly (u : Uproc) : Call → Prop
  | .read buf count _ => count ≠ 0 → BufferPlain u.space buf count
  | .copyToUser udst src => src ≠ [] → BufferPlain u.space udst src.length
  | _ => True

/-! ## What the approval says -/

lemma pageOk_of_pageWritable {page : ℕ} (h : pageWritable s page = true) :
    s.pageOk page = true := by
  unfold pageWritable at h
  unfold Space.pageOk
  cases hwalk : (s.walk page false).1 with
  | none =>
    rw [hwalk] at h
    exact nomatch h
  | some pte =>
    rw [hwalk, Bool.and_eq_true] at h
    exact h.1

lemma rangeOk_iff_pages :
    s.rangeOk buf len = true ↔ len ≠ 0 ∧ userBase ≤ buf ∧ buf + len ≤ userLimit ∧
      ∀ page ∈ bufferPages buf len, s.pageOk page = true := by
  have hall : (∀ page ∈ bufferPages buf len, s.pageOk page = true) ↔
      ((List.range ((Space.pageEnd buf len - pageDown buf) / vmPageSize)).all fun i =>
        s.pageOk (pageDown buf + i * vmPageSize)) = true := by
    rw [List.all_eq_true, bufferPages, List.forall_mem_map]
  rw [hall]
  unfold Space.rangeOk
  split_ifs with hlen hrange hhigh
  · exact iff_of_false id fun h => h.1 hlen
  · refine iff_of_false id fun h => ?_
    have hbound := h.2.2.1
    omega
  · refine iff_of_false id fun h => ?_
    have hbound := h.2.2.1
    omega
  · exact ⟨fun h => ⟨hlen, by omega, by omega, h⟩, fun h => h.2.2.2⟩

/-- A buffer that is approved of can be written if and only if it has no read-only page. -/
lemma bufferWritable_iff (h : s.rangeOk buf len = true) :
    bufferWritable s buf len ↔ BufferPlain s buf len := by
  obtain ⟨-, hlow, hhigh, hpages⟩ := rangeOk_iff_pages.1 h
  constructor
  · rintro ⟨-, -, hwritable⟩ - - - page hpage
    rw [pageReadOnly, hwritable page hpage, Bool.not_true, Bool.and_false]
  · intro hplain
    refine ⟨hlow, hhigh, fun page hpage => ?_⟩
    have hnot := hplain hlow hhigh hpages page hpage
    rw [pageReadOnly, hpages page hpage, Bool.true_and, Bool.not_eq_false'] at hnot
    exact hnot

lemma not_bufferWritable (hlen : len ≠ 0)
    (h : s.rangeOk buf len = false) : ¬ bufferWritable s buf len ∧ BufferPlain s buf len := by
  have hnot : ∀ {Q : Prop}, userBase ≤ buf → buf + len ≤ userLimit →
      (∀ page ∈ bufferPages buf len, s.pageOk page = true) → Q := by
    intro Q hlow hhigh hpages
    rw [rangeOk_iff_pages.2 ⟨hlen, hlow, hhigh, hpages⟩] at h
    exact nomatch h
  refine ⟨?_, hnot⟩
  rintro ⟨hlow, hhigh, hwritable⟩
  exact hnot hlow hhigh fun page hpage => pageOk_of_pageWritable (hwritable page hpage)

/-! ## Calls -/

/-- A call that goes through the approval is guarded if and only if its buffer is plain: it answers
`refusal` without an effect when the approval fails, and `answer` otherwise. -/
lemma guarded_iff_plain {refusal : ℤ} {answer : ℤ × Uproc} (hlen : len ≠ 0)
    (hne : answer.1 ≠ refusal) :
    (¬ bufferWritable u.space buf len →
      (if !u.uaccessOk buf len then (refusal, u) else answer) = (refusal, u)) ↔
      BufferPlain u.space buf len := by
  have hok : u.uaccessOk buf len = u.space.rangeOk buf len := if_neg hlen
  rw [hok]
  cases hrange : u.space.rangeOk buf len with
  | false => exact iff_of_true (fun _ => rfl) (not_bufferWritable hlen hrange).2
  | true =>
    rw [← bufferWritable_iff hrange]
    refine ⟨fun h => ?_, absurd⟩
    by_contra hnot
    exact hne (congrArg Prod.fst (h hnot))

/-- **One call is guarded** if and only if its buffer has no read-only page among pages that are all
there for the user. -/
theorem guarded_iff_call (u : Uproc) (c : Call) : Guarded u c ↔ NoReadOnly u c := by
  cases c with
  | read buf count data =>
    refine forall_congr' fun hcount => ?_
    have hcall : u.sysRead buf count data = _ := if_neg hcount
    rw [hcall]
    refine guarded_iff_plain hcount ?_
    cases data with
    | none =>
      show (-1 : ℤ) ≠ -14
      decide
    | some bytes =>
      dsimp only [efault]
      omega
  | copyToUser udst src =>
    refine forall_congr' fun hsrc => ?_
    have hne : ((0 : ℤ), u.kernelWrite udst src).1 ≠ -1 := by
      show 0 ≠ -1
      decide
    exact guarded_iff_plain (fun h => hsrc (List.length_eq_zero_iff.1 h)) hne
  | brk addr | store a b | kernel mem pmm => exact Iff.rfl

/-- **The kernel's writes are guarded** in a sequence of calls if and only if no call of the
sequence names a buffer with a read-only page among pages that are all there for the user: for every
process and every address space. -/
theorem guarded_iff (u : Uproc) (cs : List Call) :
    EventRun.Along Uproc.call Guarded u cs ↔ EventRun.Along Uproc.call NoReadOnly u cs :=
  ⟨EventRun.Along.mono fun u c => (guarded_iff_call u c).1,
    EventRun.Along.mono fun u c => (guarded_iff_call u c).2⟩

/-- A process whose only segment may be read and executed reads one byte into it: `sys_read` returns
1, and the byte of the segment is another one. -/
theorem readOnly_overwritten : ∃ u,
    execUserImage bootMemory bootPmm [0x61] (oneSegment (userBase + 0x1000) 16 5) = some u ∧
    pageReadOnly u.space (userBase + 0x1000) = true ∧
    (u.sysRead (userBase + 0x1000) 1 (some [7])).1 = 1 ∧
    u.space.mem (u.space.resolve (userBase + 0x1000)) = 0 ∧
    (u.call (.read (userBase + 0x1000) 1 (some [7]))).space.mem
      (u.space.resolve (userBase + 0x1000)) = 7 ∧
    ¬ Guarded u (.read (userBase + 0x1000) 1 (some [7])) := by
  have hrun : (execUserImage bootMemory bootPmm [0x61] (oneSegment (userBase + 0x1000) 16 5)).any
      (fun u => pageReadOnly u.space (userBase + 0x1000) &&
        (decide ((u.sysRead (userBase + 0x1000) 1 (some [7])).1 = 1) &&
        (decide (u.space.mem (u.space.resolve (userBase + 0x1000)) = 0) &&
        decide ((u.call (.read (userBase + 0x1000) 1 (some [7]))).space.mem
          (u.space.resolve (userBase + 0x1000)) = 7)))) = true := by
    decide +kernel
  obtain ⟨u, hu, hfacts⟩ := (Option.any_eq_true _ _).1 hrun
  simp only [Bool.and_eq_true, decide_eq_true_iff] at hfacts
  obtain ⟨hreadOnly, hret, hbefore, hafter⟩ := hfacts
  refine ⟨u, hu, hreadOnly, hret, hbefore, hafter, fun hguarded => ?_⟩
  have hnot : ¬ bufferWritable u.space (userBase + 0x1000) 1 := by
    rintro ⟨-, -, hwritable⟩
    rw [pageReadOnly, hwritable _ (by decide), Bool.not_true, Bool.and_false] at hreadOnly
    exact nomatch hreadOnly
  have hrefused := hguarded (by decide) hnot
  rw [hrefused] at hret
  exact nomatch hret

end SubOS.Kernel
