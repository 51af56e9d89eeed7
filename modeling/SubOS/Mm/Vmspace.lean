import SubOS.Lib.ByteMemory
import SubOS.Mm.Pmm

set_option autoImplicit false

/-!
# Address spaces

`arch/x86_64/mm/vmspace.c`: the address space of a process is a tree of page tables in physical
memory. Its root shares the first entry with the kernel; user mappings live below the second.

## Main definitions

* `Space`, `Space.create`, `Space.destroy` — an address space, from its making to its end.
* `Space.walk`, `Space.alloc`, `Space.write`, `Space.rangeOk` — what is done with one.

## Main results

* `Space.allocPage_touched` — when mapping a page writes an entry.
* `Space.alloc_adds`, `Space.write_adds` — the pages that are touched.

## Design

Physical addresses below 4 GB are kernel pointers, so that page tables and pages are read and
written in physical memory, byte by byte. Values of type `uint64_t` are natural numbers below `2 ^
64`; `x & ~0xFFF` is `pageDown x`. `create` starts where the kernel heap has given the
`vmspace_t`. `vmspace_map_page` has no callers. `touched` records the virtual pages for which an
entry or bytes have been written, the latest first. No function reads it.
-/

namespace SubOS.Mm

open Nat List

/-! ## Constants and entries -/

def vmPageSize : ℕ := 4096

def userBase : ℕ := 2 ^ 39

def userLimit : ℕ := 2 ^ 40

def userPml4Slot : ℕ := 1

def kernelPml4Phys : ℕ := 0x1000

def identityMapLimit : ℕ := 2 ^ 32

def entriesPerTable : ℕ := 512

/-- `x & ~(VM_PAGE_SIZE - 1)`, and `entry & PTE_ADDR_MASK`. -/
def pageDown (x : ℕ) : ℕ := x / 4096 * 4096

/-- `entry & PAGE_PRESENT`. -/
def isPresent (e : ℕ) : Bool := e.testBit 0

/-- `entry & PAGE_WRITABLE`. -/
def isWritable (e : ℕ) : Bool := e.testBit 1

/-- `entry & PAGE_USER`. -/
def isUser (e : ℕ) : Bool := e.testBit 2

/-- `entry & PAGE_HUGE`. -/
def isHuge (e : ℕ) : Bool := e.testBit 7

/-- `PAGE_PRESENT | PAGE_WRITABLE | PAGE_USER`, the bits of an entry above the last level. -/
def tableFlags : ℕ := 0b111

/-- `prot`: the `VM_PROT_*` flags as far as they are told apart. -/
structure Prot where
  write : Bool
  user : Bool
  deriving DecidableEq, Repr

def archFlagsOf (prot : Prot) : ℕ :=
  0b001 ||| (if prot.write then 0b010 else 0) ||| (if prot.user then 0b100 else 0)

/-- The index of an address at a level of the tree, `idx[level]` in `walk`. -/
def tableIndex (virt level : ℕ) : ℕ := virt / 2 ^ (39 - 9 * level) % 512

/-! ## The address space -/

/-- Physical memory, the page allocator and one `vmspace_t`. -/
structure Space where
  mem : ByteMemory
  pmm : Pmm
  pml4Phys : ℕ
  residentPages : ℕ
  tablePages : ℕ
  touched : List ℕ

namespace Space

/-- The entry at a physical address. -/
def entryAt (s : Space) (pte : ℕ) : ℕ := s.mem.load pte 8

/-- Write the entry at a physical address, for the virtual page of `virt`. -/
def setEntry (s : Space) (virt pte e : ℕ) : Space :=
  { s with mem := s.mem.store pte 8 e, touched := pageDown virt :: s.touched }

/-- `alloc_identity_frame`: a zeroed frame that the kernel can address, or `0`. -/
def allocIdentityFrame (s : Space) : ℕ × Space :=
  let (page, pmm) := s.pmm.allocPage
  if page = 0 then (0, { s with pmm := pmm })
  else if page ≥ identityMapLimit then (0, { s with pmm := pmm.freePage page })
  else (page, { s with mem := s.mem.fill page vmPageSize 0, pmm := pmm })

def allocTable (s : Space) : ℕ × Space :=
  let (page, s') := s.allocIdentityFrame
  if page = 0 then (0, s') else (page, { s' with tablePages := s'.tablePages + 1 })

/-- The body of the loop in `walk`: from a table to the table of the next level, or nowhere. -/
def walkStep (s : Space) (virt : ℕ) (create : Bool) (table level : ℕ) : Option ℕ × Space :=
  let pte := table + 8 * tableIndex virt level
  let entry := s.entryAt pte
  if !isPresent entry then
    if !create then (none, s)
    else
      let (next, s') := s.allocTable
      if next = 0 then (none, s')
      else
        let entry := next ||| tableFlags
        (some (pageDown entry), s'.setEntry virt pte entry)
  else if isHuge entry then (none, s)
  else (some (pageDown entry), s)

/-- The loop in `walk`, over the levels that are left. -/
def walkLoop (s : Space) (virt : ℕ) (create : Bool) (table : ℕ) : List ℕ → Option ℕ × Space
  | [] => (some table, s)
  | level :: levels =>
    match s.walkStep virt create table level with
    | (none, s') => (none, s')
    | (some next, s') => walkLoop s' virt create next levels

/-- `walk`: the address of the page-table entry of `virt`, or nowhere. -/
def walk (s : Space) (virt : ℕ) (create : Bool) : Option ℕ × Space :=
  match s.walkLoop virt create s.pml4Phys [0, 1, 2] with
  | (none, s') => (none, s')
  | (some table, s') => (some (table + 8 * tableIndex virt 3), s')

/-- The body of the loop in `vmspace_alloc`: map one page. -/
def allocPage (s : Space) (page : ℕ) (prot : Prot) : Bool × Space :=
  match s.walk page true with
  | (none, s') => (false, s')
  | (some pte, s') =>
    let e := s'.entryAt pte
    if isPresent e then (true, s'.setEntry page pte (e ||| archFlagsOf prot))
    else
      let (frame, s'') := s'.allocIdentityFrame
      if frame = 0 then (false, s'')
      else
        let s₃ := s''.setEntry page pte (pageDown frame ||| archFlagsOf prot)
        (true, { s₃ with residentPages := s₃.residentPages + 1 })

/-- The loop in `vmspace_alloc`, over the `n` pages from `page` on. -/
def allocLoop (s : Space) (prot : Prot) (page : ℕ) : ℕ → Bool × Space
  | 0 => (true, s)
  | n + 1 =>
    match s.allocPage page prot with
    | (false, s') => (false, s')
    | (true, s') => allocLoop s' prot (page + vmPageSize) n

/-- The end of the range of pages that covers `len` bytes from `virt`, in `uint64_t` arithmetic. -/
def pageEnd (virt len : ℕ) : ℕ := pageDown ((virt + len + vmPageSize - 1) % 2 ^ 64)

/-- `vmspace_alloc`. -/
def alloc (s : Space) (virt len : ℕ) (prot : Prot) : Bool × Space :=
  if len = 0 then (false, s)
  else if pageEnd virt len ≤ pageDown virt then (false, s)
  else s.allocLoop prot (pageDown virt) ((pageEnd virt len - pageDown virt) / vmPageSize)

/-- `vmspace_resolve`. -/
def resolve (s : Space) (virt : ℕ) : ℕ :=
  match (s.walk (pageDown virt) false).1 with
  | none => 0
  | some pte =>
    let e := s.entryAt pte
    if isPresent e then pageDown e + virt % vmPageSize else 0

/-- The test of one page in `vmspace_range_ok`. -/
def pageOk (s : Space) (page : ℕ) : Bool :=
  match (s.walk page false).1 with
  | none => false
  | some pte => isPresent (s.entryAt pte) && isUser (s.entryAt pte)

/-- `vmspace_range_ok`. -/
def rangeOk (s : Space) (virt len : ℕ) : Bool :=
  if len = 0 then false
  else if virt < userBase ∨ virt ≥ userLimit then false
  else if len > userLimit - virt then false
  else
    (List.range ((pageEnd virt len - pageDown virt) / vmPageSize)).all fun i =>
      s.pageOk (pageDown virt + i * vmPageSize)

/-- The loop in `vmspace_write`. Every round writes at least one byte, so that as many rounds as
there are bytes are enough. -/
def writeLoop (s : Space) (dst : ℕ) (src : List UInt8) : ℕ → Bool × Space
  | 0 => (src.isEmpty, s)
  | n + 1 =>
    if src.isEmpty then (true, s)
    else
      let phys := s.resolve dst
      if phys = 0 then (false, s)
      else
        let chunk := min (vmPageSize - dst % vmPageSize) src.length
        writeLoop
          { s with mem := s.mem.put phys (src.take chunk), touched := pageDown dst :: s.touched }
          ((dst + chunk) % 2 ^ 64) (src.drop chunk) n

/-- `vmspace_write`. -/
def write (s : Space) (dst : ℕ) (src : List UInt8) : Bool × Space :=
  s.writeLoop dst src src.length

/-- One entry in `free_level`: nothing for an entry that is absent or huge, else what is done with
the page it points to. -/
def freeEntry (mem : ByteMemory) (pte : ℕ) (free : ℕ → List ℕ) : List ℕ :=
  let entry := mem.load pte 8
  if !isPresent entry || isHuge entry then [] else free (pageDown entry)

/-- `free_level`: the pages that are handed to `pmm_free_page`, in order. -/
def freeLevel (mem : ByteMemory) : ℕ → ℕ → List ℕ
  | 0, phys =>
    ((List.range entriesPerTable).flatMap fun i =>
      freeEntry mem (phys + 8 * i) fun page => [page]) ++ [phys]
  | level + 1, phys =>
    ((List.range entriesPerTable).flatMap fun i =>
      freeEntry mem (phys + 8 * i) (freeLevel mem level)) ++ [phys]

/-- The pages that `vmspace_destroy` hands to `pmm_free_page`, in order. -/
def destroyed (s : Space) : List ℕ :=
  let userEntry := s.entryAt (s.pml4Phys + 8 * userPml4Slot)
  (if isPresent userEntry then freeLevel s.mem 2 (pageDown userEntry) else []) ++ [s.pml4Phys]

/-- `vmspace_destroy`: the page allocator after it. -/
def destroy (s : Space) : Pmm := s.destroyed.foldl Pmm.freePage s.pmm

/-- `vmspace_create`, given the memory and the page allocator after the allocation of the
`vmspace_t`. -/
def create (mem : ByteMemory) (pmm : Pmm) : Option Space × Pmm :=
  let s₀ : Space := { mem := mem, pmm := pmm, pml4Phys := 0, residentPages := 0, tablePages := 0,
                      touched := [] }
  let (pml4, s) := s₀.allocTable
  if pml4 = 0 then (none, s.pmm)
  else
    let shared := s.entryAt kernelPml4Phys
    (some { s with mem := s.mem.store pml4 8 shared, pml4Phys := pml4 }, s.pmm)

/-! ## Touched pages -/

/-- The allocator has a frame that the kernel can address. -/
def frameFree (s : Space) : Bool := s.allocIdentityFrame.1 != 0

/-- A walk from a table, with the levels that are left, comes to write an entry. -/
def reaches (s : Space) (virt : ℕ) : ℕ → List ℕ → Bool
  | t, [] => isPresent (s.entryAt (t + 8 * tableIndex virt 3)) || s.frameFree
  | t, level :: levels =>
    let e := s.entryAt (t + 8 * tableIndex virt level)
    if isPresent e then !isHuge e && s.reaches virt (pageDown e) levels else s.frameFree

/-- Mapping the page at an address comes to write an entry. -/
def canMap (s : Space) (virt : ℕ) : Bool := s.reaches virt s.pml4Phys [0, 1, 2]

/-- Every page that has been touched before is there, and the new ones satisfy `P`. -/
structure Adds (P : ℕ → Prop) (s s' : Space) : Prop where
  keeps : ∀ x ∈ s.touched, x ∈ s'.touched
  only : ∀ x ∈ s'.touched, P x ∨ x ∈ s.touched

section Adds

variable {P Q : ℕ → Prop} {s s' s₁ s₂ : Space}

lemma Adds.of_eq (h : s'.touched = s.touched) : Adds P s s' :=
  ⟨fun x hx => by rwa [h], fun x hx => .inr (by rwa [← h])⟩

lemma Adds.trans (h : Adds P s s₁) (h' : Adds P s₁ s₂) : Adds P s s₂ :=
  ⟨fun x hx => h'.keeps x (h.keeps x hx), fun x hx => (h'.only x hx).elim .inl (h.only x)⟩

lemma Adds.mono (h : Adds P s s') (hPQ : ∀ x, P x → Q x) : Adds Q s s' :=
  ⟨h.keeps, fun x hx => (h.only x hx).imp_left (hPQ x)⟩

lemma Adds.of_cons {x : ℕ} (hx : P x) (h : s'.touched = x :: s.touched) : Adds P s s' := by
  refine ⟨fun y hy => ?_, fun y hy => ?_⟩
  · rw [h]
    exact mem_cons_of_mem x hy
  · rw [h, mem_cons] at hy
    rcases hy with rfl | hy
    · exact .inl hx
    · exact .inr hy

end Adds

/-! ## The walk -/

section

variable (s : Space)

@[simp] lemma touched_allocIdentityFrame : s.allocIdentityFrame.2.touched = s.touched := by
  simp only [allocIdentityFrame]
  split_ifs <;> rfl

lemma allocTable_eq : s.allocTable.1 = s.allocIdentityFrame.1 ∧
    s.allocTable.2.touched = s.touched := by
  simp only [allocTable]
  split_ifs with h
  · exact ⟨h.symm, s.touched_allocIdentityFrame⟩
  · exact ⟨rfl, s.touched_allocIdentityFrame⟩

/-- One level of a walk that creates tables follows an entry, stops, or writes one. -/
lemma walkStep_cases (virt t level : ℕ) :
    (∃ e, e = s.entryAt (t + 8 * tableIndex virt level) ∧ isPresent e = true ∧
      ((isHuge e = false ∧ s.walkStep virt true t level = (some (pageDown e), s)) ∨
        (isHuge e = true ∧ s.walkStep virt true t level = (none, s)))) ∨
    (isPresent (s.entryAt (t + 8 * tableIndex virt level)) = false ∧
      ((s.frameFree = false ∧ (s.walkStep virt true t level).1 = none ∧
          (s.walkStep virt true t level).2.touched = s.touched) ∨
        (s.frameFree = true ∧
          (s.walkStep virt true t level).2.touched = pageDown virt :: s.touched))) := by
  obtain ⟨hframe, htouched⟩ := s.allocTable_eq
  cases hpres : isPresent (s.entryAt (t + 8 * tableIndex virt level)) with
  | true =>
    refine .inl ⟨_, rfl, hpres, ?_⟩
    cases hhuge : isHuge (s.entryAt (t + 8 * tableIndex virt level)) with
    | false => exact .inl ⟨rfl, by simp [walkStep, hpres, hhuge]⟩
    | true => exact .inr ⟨rfl, by simp [walkStep, hpres, hhuge]⟩
  | false =>
    refine .inr ⟨rfl, ?_⟩
    by_cases hnone : s.allocTable.1 = 0
    · refine .inl ⟨?_, ?_, ?_⟩
      · rw [frameFree, ← hframe, hnone]
        rfl
      · simp [walkStep, hpres, hnone]
      · simp [walkStep, hpres, hnone, htouched]
    · refine .inr ⟨?_, ?_⟩
      · rw [frameFree, ← hframe]
        exact bne_iff_ne.2 hnone
      · simp [walkStep, hpres, hnone, setEntry, htouched]

lemma walkLoop_adds (virt : ℕ) (levels : List ℕ) :
    ∀ (s : Space) (t : ℕ), Adds (· = pageDown virt) s (s.walkLoop virt true t levels).2 := by
  induction levels with
  | nil => exact fun s t => .of_eq rfl
  | cons level levels ih =>
    intro s t
    have hstep : Adds (· = pageDown virt) s (s.walkStep virt true t level).2 := by
      rcases s.walkStep_cases virt t level with
        ⟨e, -, -, ⟨-, heq⟩ | ⟨-, heq⟩⟩ | ⟨-, ⟨-, -, heq⟩ | ⟨-, heq⟩⟩
      · exact .of_eq (by rw [heq])
      · exact .of_eq (by rw [heq])
      · exact .of_eq heq
      · exact .of_cons rfl heq
    rw [walkLoop]
    rcases hs : s.walkStep virt true t level with ⟨_ | next, s₁⟩
    · rw [hs] at hstep
      exact hstep
    · rw [hs] at hstep
      exact hstep.trans (ih s₁ next)

/-- **A walk that creates tables** stops without having written anything, arrives without having
written anything, or has written an entry; `reaches` tells which. -/
lemma walkLoop_cases (virt : ℕ) (levels : List ℕ) :
    ∀ (s : Space) (t : ℕ),
      (∃ t', s.walkLoop virt true t levels = (some t', s) ∧
        s.reaches virt t levels = s.reaches virt t' []) ∨
      ((s.walkLoop virt true t levels).1 = none ∧
        (s.walkLoop virt true t levels).2.touched = s.touched ∧
          s.reaches virt t levels = false) ∨
      (pageDown virt ∈ (s.walkLoop virt true t levels).2.touched ∧
        s.reaches virt t levels = true) := by
  induction levels with
  | nil => exact fun s t => .inl ⟨t, rfl, rfl⟩
  | cons level levels ih =>
    intro s t
    rcases s.walkStep_cases virt t level with
      ⟨e, he, hpres, ⟨hhuge, heq⟩ | ⟨hhuge, heq⟩⟩
        | ⟨hpres, ⟨hfree, hnone, htouched⟩ | ⟨hfree, htouched⟩⟩
    · have hreach : s.reaches virt t (level :: levels) = s.reaches virt (pageDown e) levels := by
        simp [reaches, ← he, hpres, hhuge]
      have hwalk : s.walkLoop virt true t (level :: levels) =
          s.walkLoop virt true (pageDown e) levels := by rw [walkLoop, heq]
      rw [hreach, hwalk]
      exact ih s (pageDown e)
    · have hwalk : s.walkLoop virt true t (level :: levels) = (none, s) := by rw [walkLoop, heq]
      refine .inr (.inl ?_)
      rw [hwalk]
      exact ⟨rfl, rfl, by simp [reaches, ← he, hpres, hhuge]⟩
    · refine .inr (.inl ?_)
      rcases hs : s.walkStep virt true t level with ⟨r, s₁⟩
      rw [hs] at hnone htouched
      subst hnone
      have hwalk : s.walkLoop virt true t (level :: levels) = (none, s₁) := by rw [walkLoop, hs]
      rw [hwalk]
      exact ⟨rfl, htouched, by simp [reaches, hpres, hfree]⟩
    · refine .inr (.inr ⟨?_, by simp [reaches, hpres, hfree]⟩)
      rcases hs : s.walkStep virt true t level with ⟨_ | next, s₁⟩
      · rw [walkLoop, hs]
        rw [hs] at htouched
        rw [htouched]
        exact mem_cons_self
      · rw [walkLoop, hs]
        rw [hs] at htouched
        refine (walkLoop_adds virt levels s₁ next).keeps _ ?_
        rw [htouched]
        exact mem_cons_self

/-! ## Mapping and writing -/

lemma allocPage_adds (virt : ℕ) (prot : Prot) :
    Adds (· = pageDown virt) s (s.allocPage virt prot).2 := by
  have hloop := walkLoop_adds virt [0, 1, 2] s s.pml4Phys
  unfold allocPage walk
  rcases hs : s.walkLoop virt true s.pml4Phys [0, 1, 2] with ⟨_ | table, s₁⟩
  · rw [hs] at hloop
    exact hloop
  · rw [hs] at hloop
    refine hloop.trans ?_
    dsimp only
    split_ifs
    · exact .of_cons rfl rfl
    · exact .of_eq s₁.touched_allocIdentityFrame
    · refine .of_cons rfl ?_
      simp [setEntry]

/-- **Mapping a page touches that page** if and only if it comes to write an entry; else it
fails. -/
theorem allocPage_touched (virt : ℕ) (prot : Prot) :
    if s.canMap virt then pageDown virt ∈ (s.allocPage virt prot).2.touched
    else (s.allocPage virt prot).1 = false ∧ (s.allocPage virt prot).2.touched = s.touched := by
  rcases walkLoop_cases virt [0, 1, 2] s s.pml4Phys with
    ⟨t, hwalk, hreach⟩ | ⟨hnone, htouched, hreach⟩ | ⟨hmem, hreach⟩
  · have hpage : s.walk virt true = (some (t + 8 * tableIndex virt 3), s) := by rw [walk, hwalk]
    rw [canMap, hreach, reaches]
    cases hpres : isPresent (s.entryAt (t + 8 * tableIndex virt 3)) with
    | true => simp [allocPage, hpage, hpres, setEntry]
    | false =>
      by_cases hframe : s.allocIdentityFrame.1 = 0
      · simp [allocPage, hpage, hpres, frameFree, hframe]
      · simp [allocPage, hpage, hpres, frameFree, hframe, setEntry]
  · rw [canMap, hreach]
    rcases hs : s.walkLoop virt true s.pml4Phys [0, 1, 2] with ⟨r, s₁⟩
    rw [hs] at hnone htouched
    dsimp only at hnone htouched
    subst hnone
    simp [allocPage, walk, hs, htouched]
  · rw [canMap, hreach, if_pos rfl]
    unfold allocPage walk
    rcases hs : s.walkLoop virt true s.pml4Phys [0, 1, 2] with ⟨_ | table, s₁⟩
    · rw [hs] at hmem
      exact hmem
    · rw [hs] at hmem
      dsimp only at hmem ⊢
      split_ifs
      · exact mem_cons_of_mem _ hmem
      · rw [touched_allocIdentityFrame]
        exact hmem
      · simp only [setEntry, touched_allocIdentityFrame]
        exact mem_cons_self

lemma allocLoop_adds (prot : Prot) (n : ℕ) :
    ∀ (s : Space) (page : ℕ), Adds (fun x => ∃ i < n, x = pageDown (page + i * vmPageSize)) s
      (s.allocLoop prot page n).2 := by
  induction n with
  | zero => exact fun s page => .of_eq rfl
  | succ n ih =>
    intro s page
    have hfirst : Adds (fun x => ∃ i < n + 1, x = pageDown (page + i * vmPageSize)) s
        (s.allocPage page prot).2 :=
      (s.allocPage_adds page prot).mono fun x hx => ⟨0, Nat.succ_pos n, hx⟩
    rw [allocLoop]
    rcases hs : s.allocPage page prot with ⟨_ | _, s₁⟩
    · rw [hs] at hfirst
      exact hfirst
    · rw [hs] at hfirst
      refine hfirst.trans ((ih s₁ (page + vmPageSize)).mono ?_)
      rintro x ⟨i, hi, rfl⟩
      refine ⟨i + 1, Nat.succ_lt_succ hi, ?_⟩
      rw [add_mul, one_mul, add_assoc, add_comm vmPageSize]

/-- **`vmspace_alloc` touches pages of its range only.** -/
theorem alloc_adds (virt len : ℕ) (prot : Prot) :
    Adds (fun x => x % 4096 = 0 ∧ pageDown virt ≤ x ∧ x < pageEnd virt len) s
      (s.alloc virt len prot).2 := by
  unfold alloc
  split_ifs
  · exact .of_eq rfl
  · exact .of_eq rfl
  · refine (allocLoop_adds prot _ s _).mono ?_
    rintro x ⟨i, hi, rfl⟩
    unfold pageDown vmPageSize at *
    omega

lemma writeLoop_adds {hi : ℕ} (hhi : hi < 2 ^ 64) (n : ℕ) :
    ∀ (s : Space) (dst : ℕ) (src : List UInt8), dst + src.length ≤ hi →
      Adds (fun x => pageDown dst ≤ x ∧ x < hi) s (s.writeLoop dst src n).2 := by
  induction n with
  | zero => exact fun s dst src _ => .of_eq rfl
  | succ n ih =>
    intro s dst src hle
    rw [writeLoop]
    by_cases hempty : src.isEmpty = true
    · rw [if_pos hempty]
      exact .of_eq rfl
    by_cases hphys : s.resolve dst = 0
    · rw [if_neg hempty, if_pos hphys]
      exact .of_eq rfl
    · have hpos : 0 < src.length := length_pos_iff.2 fun hnil => hempty (by rw [hnil]; rfl)
      obtain ⟨chunk, hchunk⟩ :
          ∃ chunk, chunk = min (vmPageSize - dst % vmPageSize) src.length := ⟨_, rfl⟩
      rw [if_neg hempty, if_neg hphys, ← hchunk]
      dsimp only
      have hmod : (dst + chunk) % 2 ^ 64 = dst + chunk := Nat.mod_eq_of_lt (by omega)
      have hdrop : (src.drop chunk).length = src.length - chunk := length_drop ..
      refine .trans (.of_cons ⟨le_refl _, ?_⟩ rfl)
        ((ih _ _ _ (by omega)).mono fun x hx => ⟨le_trans ?_ hx.1, hx.2⟩)
      · unfold pageDown
        omega
      · unfold pageDown
        omega

/-- **`vmspace_write` touches pages of its range only.** -/
theorem write_adds (dst : ℕ) (src : List UInt8) (h : dst + src.length < 2 ^ 64) :
    Adds (fun x => pageDown dst ≤ x ∧ x < dst + src.length) s (s.write dst src).2 :=
  writeLoop_adds h src.length s dst src (le_refl _)

end

end Space

end SubOS.Mm
