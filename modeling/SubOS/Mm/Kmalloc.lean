import SubOS.Lib.ByteMemory
import SubOS.Lib.EventRun
import SubOS.Lib.Tiling
import SubOS.Mm.Pmm

set_option autoImplicit false

/-!
# The kernel heap

`mm/kmalloc.c`: a first-fit allocator. The heap consists of runs of pages that it gets from the page
allocator. Each run is cut into blocks, and the headers of all blocks, which stand in the memory of
the heap itself, form one doubly linked list.

## Main definitions

* `Heap.kmalloc`, `Heap.kfree`, `Heap.krealloc` — the calls of the heap.
* `HeapState.step`, `HeapState.Valid` — sequences of calls, and the valid ones.

## Design

Addresses and sizes are those of a 64-bit machine; they are natural numbers, and the arithmetic
of the source wraps around at `2 ^ 64`. What the page allocator answers is an argument of the
functions that call it. `runs` records the runs that the heap has got and is never read. The
calls run with `heap_lock` held. The loop over the list has as much fuel as there are addresses, and
a call whose loop does not end has no result.
-/

namespace SubOS.Mm

/-! ## Arithmetic and memory -/

/-- A value of type `size_t`. -/
@[irreducible] def wrap (n : ℕ) : ℕ := n % 2 ^ 64

/-- The difference of two values of type `size_t`. -/
@[irreducible] def wsub (a b : ℕ) : ℕ := (a + 2 ^ 64 - b) % 2 ^ 64

def heapMagic : ℕ := 0x53554248

def heapInitialPages : ℕ := 8192

def heapGrowPages : ℕ := 4096

def blockHeaderSize : ℕ := 32

structure HeapBlock where
  magic : ℕ
  isFree : Bool
  size : ℕ
  next : ℕ
  prev : ℕ
  deriving DecidableEq, Repr

structure Run where
  base : ℕ
  bytes : ℕ
  deriving DecidableEq, Repr

def Run.span (r : Run) : Span := ⟨r.base, r.base + r.bytes⟩

/-- The memory and the variables of the allocator. -/
structure Heap where
  mem : ByteMemory
  /-- `heap_start`. -/
  start : ℕ
  /-- `heap_tail`. -/
  tail : ℕ
  usedBytes : ℕ
  freeBytes : ℕ
  totalBytes : ℕ
  growCount : ℕ
  runs : List Run

namespace Heap

def block (h : Heap) (a : ℕ) : HeapBlock where
  magic := h.mem.load a 4
  isFree := h.mem.load (a + 4) 1 ≠ 0
  size := h.mem.load (a + 8) 8
  next := h.mem.load (a + 16) 8
  prev := h.mem.load (a + 24) 8

/-- Write the fields of a header. -/
def setMagic (h : Heap) (a v : ℕ) : Heap := { h with mem := h.mem.store a 4 v }

def setFree (h : Heap) (a : ℕ) (v : Bool) : Heap := { h with mem := h.mem.store (a + 4) 1 v.toNat }

def setSize (h : Heap) (a v : ℕ) : Heap := { h with mem := h.mem.store (a + 8) 8 v }

def setNext (h : Heap) (a v : ℕ) : Heap := { h with mem := h.mem.store (a + 16) 8 v }

def setPrev (h : Heap) (a v : ℕ) : Heap := { h with mem := h.mem.store (a + 24) 8 v }

/-- Write the header of a new free block. -/
def newBlock (h : Heap) (a size next prev : ℕ) : Heap :=
  ((((h.setMagic a heapMagic).setFree a true).setSize a size).setNext a next).setPrev a prev

/-- Make `a` the predecessor of the block `next`; if there is none, it is the last block. -/
def relink (h : Heap) (next a : ℕ) : Heap :=
  if next ≠ 0 then h.setPrev next a else { h with tail := a }

def blocksAdjacent (h : Heap) (a b : ℕ) : Bool := wrap (a + blockHeaderSize + (h.block a).size) = b

/-! ## The functions -/

/-- `heap_init`, with the answer of the page allocator. -/
def heapInit (m : ByteMemory) (initialMem : ℕ) : Heap :=
  let h : Heap := ⟨m, 0, 0, 0, 0, 0, 0, []⟩
  if initialMem = 0 then h
  else
    let total := heapInitialPages * pmmPageSize
    let h := { h with start := initialMem, totalBytes := total, runs := [⟨initialMem, total⟩] }
    let h := h.newBlock initialMem (total - blockHeaderSize) 0 0
    { h with tail := initialMem, usedBytes := 0, freeBytes := (h.block initialMem).size }

/-- The pages that `heap_grow` needs. -/
def needPages (need : ℕ) : ℕ := wrap (need + blockHeaderSize + pmmPageSize - 1) / pmmPageSize

/-- The pages that it asks for at first. -/
def growPages (need : ℕ) : ℕ :=
  if heapGrowPages < needPages need then needPages need else heapGrowPages

/-- The run that it gets, if the page allocator answers `mem₁` at first and `mem₂` when it is asked
again. -/
def growRun (need mem₁ mem₂ : ℕ) : Run :=
  if mem₁ = 0 ∧ growPages need ≠ needPages need then ⟨mem₂, wrap (needPages need * pmmPageSize)⟩
  else ⟨mem₁, wrap (growPages need * pmmPageSize)⟩

/-- What `heap_grow` does with a run: it becomes one free block at the end of the list. -/
def addRegion (h : Heap) (run : Run) : Heap :=
  let region := run.base
  let tail := h.tail
  let h := h.newBlock region (wsub run.bytes blockHeaderSize) 0 tail
  let h := if tail ≠ 0 then h.setNext tail region else h
  let h := { h with tail := region, start := if h.start = 0 then region else h.start }
  { h with
    totalBytes := wrap (h.totalBytes + run.bytes)
    freeBytes := wrap (h.freeBytes + (h.block region).size)
    growCount := wrap (h.growCount + 1)
    runs := run :: h.runs }

/-- The last block `region` is fused with its predecessor. -/
def fuse (h : Heap) (prev region : ℕ) : Heap :=
  let h := h.setSize prev (wrap ((h.block prev).size + (blockHeaderSize + (h.block region).size)))
  let h := h.setNext prev (h.block region).next
  { h with tail := prev }

def heapGrow (h : Heap) (need mem₁ mem₂ : ℕ) : Heap × ℕ :=
  let run := growRun need mem₁ mem₂
  let region := run.base
  if region = 0 then (h, 0)
  else
    let h := h.addRegion run
    let prev := (h.block region).prev
    if prev ≠ 0 ∧ (h.block prev).isFree = true ∧ h.blocksAdjacent prev region = true then
      (h.fuse prev region, prev)
    else (h, region)

/-- Cut a block in two: the first has `size` bytes, and the second is new. -/
def splitBlock (h : Heap) (curr size : ℕ) : Heap :=
  let new := wrap (curr + blockHeaderSize + size)
  let h := h.newBlock new (wsub (wsub (h.block curr).size size) blockHeaderSize)
    (h.block curr).next curr
  let h := h.relink (h.block curr).next new
  (h.setNext curr new).setSize curr size

/-- Mark a free block as used, and count it as used. -/
def claim (h : Heap) (curr : ℕ) : Heap :=
  let h := h.setFree curr false
  { h with
    usedBytes := wrap (h.usedBytes + (h.block curr).size)
    freeBytes := wsub h.freeBytes (h.block curr).size }

def heapTake (h : Heap) (curr size : ℕ) : Heap × ℕ :=
  let h :=
    if wrap (size + blockHeaderSize + 16) ≤ (h.block curr).size then h.splitBlock curr size else h
  (h.claim curr, wrap (curr + blockHeaderSize))

/-- What the loop of `kmalloc` finds. -/
inductive Scan where
  /-- A free block that is large enough. -/
  | fit (curr : ℕ)
  /-- The end of the list. -/
  | missing
  /-- A header without the magic number. -/
  | corrupt
  /-- Nothing: the loop does not end. -/
  | endless
  deriving DecidableEq, Repr

/-- The loop of `kmalloc`. -/
def scan (h : Heap) (size : ℕ) : ℕ → ℕ → Scan
  | 0, _ => .endless
  | fuel + 1, curr =>
    if curr = 0 then .missing
    else if (h.block curr).magic ≠ heapMagic then .corrupt
    else if (h.block curr).isFree = true ∧ size ≤ (h.block curr).size then .fit curr
    else scan h size fuel (h.block curr).next

/-- Round up to a multiple of 16: the low four bits are cleared. -/
def align (size : ℕ) : ℕ := wrap (size + 15) / 16 * 16

/-- The second attempt of `kmalloc`, after the heap has grown. -/
def kmallocRetry (h : Heap) (size : ℕ) : Option (Heap × ℕ) :=
  match h.scan size (2 ^ 64) h.start with
  | .fit curr => some (h.heapTake curr size)
  | .missing | .corrupt => some (h, 0)
  | .endless => none

def kmalloc (h : Heap) (size mem₁ mem₂ : ℕ) : Option (Heap × ℕ) :=
  if size = 0 then some (h, 0)
  else
    let size := align size
    match h.scan size (2 ^ 64) h.start with
    | .fit curr => some (h.heapTake curr size)
    | .corrupt => some (h, 0)
    | .endless => none
    | .missing =>
      let r := h.heapGrow size mem₁ mem₂
      if r.2 = 0 then some (r.1, 0) else r.1.kmallocRetry size

def kzalloc (h : Heap) (size mem₁ mem₂ : ℕ) : Option (Heap × ℕ) :=
  match h.kmalloc size mem₁ mem₂ with
  | none => none
  | some (h, ptr) => some (if ptr ≠ 0 then { h with mem := h.mem.fill ptr size 0 } else h, ptr)

/-- The block `a` takes up its successor `b`. -/
def absorb (h : Heap) (a b : ℕ) : Heap :=
  let h := h.setSize a (wrap ((h.block a).size + (blockHeaderSize + (h.block b).size)))
  let h := h.setNext a (h.block b).next
  h.relink (h.block a).next a

/-- The free block `block` takes up its successor, if that is free and adjacent. -/
def coalesceNext (h : Heap) (block : ℕ) : Heap :=
  let next := (h.block block).next
  if next ≠ 0 ∧ (h.block next).isFree = true ∧ h.blocksAdjacent block next = true then
    h.absorb block next
  else h

/-- The free block `block` is taken up by its predecessor, if that is free and adjacent. -/
def coalescePrev (h : Heap) (block : ℕ) : Heap :=
  let prev := (h.block block).prev
  if prev ≠ 0 ∧ (h.block prev).isFree = true ∧ h.blocksAdjacent prev block = true then
    h.absorb prev block
  else h

/-- Mark a used block as free, and count it as free. -/
def release (h : Heap) (block : ℕ) : Heap :=
  let h := h.setFree block true
  { h with
    usedBytes := wsub h.usedBytes (h.block block).size
    freeBytes := wrap (h.freeBytes + (h.block block).size) }

def kfree (h : Heap) (ptr : ℕ) : Heap :=
  if ptr = 0 then h
  else
    let block := wsub ptr blockHeaderSize
    if (h.block block).magic ≠ heapMagic then h
    else ((h.release block).coalesceNext block).coalescePrev block

def krealloc (h : Heap) (ptr newSize mem₁ mem₂ : ℕ) : Option (Heap × ℕ) :=
  if ptr = 0 then h.kmalloc newSize mem₁ mem₂
  else if newSize = 0 then some (h.kfree ptr, 0)
  else
    let block := wsub ptr blockHeaderSize
    if (h.block block).magic ≠ heapMagic then some (h, 0)
    else if newSize ≤ (h.block block).size then some (h, ptr)
    else
      let oldSize := (h.block block).size
      match h.kmalloc newSize mem₁ mem₂ with
      | none => none
      | some (h, newPtr) =>
        if newPtr ≠ 0 then
          some ({ h with mem := h.mem.copy newPtr ptr oldSize }.kfree ptr, newPtr)
        else some (h, 0)

end Heap

/-! ## Sequences of calls -/

/-- An allocation: the pointer, and the size that was asked for. -/
structure Alloc where
  ptr : ℕ
  size : ℕ
  deriving DecidableEq, Repr

/-- The heap, the allocations that are live, and whether all calls have returned. -/
structure HeapState where
  heap : Heap
  live : List Alloc
  returned : Bool

namespace HeapState

/-- A call, with the answers of the page allocator; or a write of the user to an allocation. -/
inductive Event where
  | kmalloc (size mem₁ mem₂ : ℕ)
  | kzalloc (size mem₁ mem₂ : ℕ)
  | krealloc (ptr newSize mem₁ mem₂ : ℕ)
  | kfree (ptr : ℕ)
  | write (addr : ℕ) (value : UInt8)
  deriving DecidableEq, Repr

/-- The allocations without the one at a pointer. -/
def drop (live : List Alloc) (ptr : ℕ) : List Alloc := live.filter fun x => x.ptr ≠ ptr

/-- The live allocations when a call has returned a pointer for a size. -/
def add (live : List Alloc) (ptr size : ℕ) : List Alloc :=
  if ptr = 0 then live else ⟨ptr, size⟩ :: live

/-- The state after a call that may not have returned. -/
def finish (s : HeapState) (live : ℕ → List Alloc) : Option (Heap × ℕ) → HeapState
  | none => { s with returned := false }
  | some (h, ptr) => { s with heap := h, live := live ptr }

def step (s : HeapState) : Event → HeapState
  | .kmalloc size mem₁ mem₂ =>
    s.finish (fun ptr => add s.live ptr size) (s.heap.kmalloc size mem₁ mem₂)
  | .kzalloc size mem₁ mem₂ =>
    s.finish (fun ptr => add s.live ptr size) (s.heap.kzalloc size mem₁ mem₂)
  | .krealloc ptr newSize mem₁ mem₂ =>
    -- the old allocation stays if a new one was needed and there is none
    s.finish (fun new => if new = 0 ∧
      newSize ≠ 0 then s.live else add (drop s.live ptr) new newSize)
      (s.heap.krealloc ptr newSize mem₁ mem₂)
  | .kfree ptr => { s with heap := s.heap.kfree ptr, live := drop s.live ptr }
  | .write addr value => { s with heap := { s.heap with mem := s.heap.mem.fill addr 1 value } }

/-- The state after `heap_init`. -/
def init (m : ByteMemory) (initialMem : ℕ) : HeapState := ⟨Heap.heapInit m initialMem, [], true⟩

/-! ## What the callers and the page allocator have to meet -/

/-- Rounding the size up, to 16 and to pages, does not overflow. -/
def SizeOk (size : ℕ) : Prop :=
  size + 15 < 2 ^ 64 ∧ Heap.align size + blockHeaderSize + pmmPageSize - 1 < 2 ^ 64
  deriving Decidable

/-- The page allocator answers with NULL, or with a run that is new. -/
def FreshRun (runs : List Run) (base pages : ℕ) : Prop :=
  base = 0 ∨ base + pages * pmmPageSize ≤ 2 ^ 64 ∧
    ∀ r ∈ runs, Span.Disj ⟨base, base + pages * pmmPageSize⟩ r.span
  deriving Decidable

/-- The answers to the requests of `heap_grow`. -/
def FreshRuns (runs : List Run) (size mem₁ mem₂ : ℕ) : Prop :=
  FreshRun runs mem₁ (Heap.growPages (Heap.align size)) ∧
    FreshRun runs mem₂ (Heap.needPages (Heap.align size))
  deriving Decidable

/-- The pointer is NULL or live. -/
def LivePtr (s : HeapState) (ptr : ℕ) : Prop := ptr = 0 ∨ ∃ x ∈ s.live, x.ptr = ptr
  deriving Decidable

/-- The address lies in a live allocation. -/
def InLive (s : HeapState) (addr : ℕ) : Prop :=
  ∃ x ∈ s.live, x.ptr ≤ addr ∧ addr < x.ptr + (s.heap.block (x.ptr - blockHeaderSize)).size
  deriving Decidable

/-- The sizes do not overflow, only live pointers are passed on and written to, and the page
allocator answers with new runs. -/
def Valid (s : HeapState) : Event → Prop
  | .kmalloc size mem₁ mem₂ | .kzalloc size mem₁ mem₂ =>
    SizeOk size ∧ FreshRuns s.heap.runs size mem₁ mem₂
  | .krealloc ptr newSize mem₁ mem₂ =>
    s.LivePtr ptr ∧ SizeOk newSize ∧ FreshRuns s.heap.runs newSize mem₁ mem₂
  | .kfree ptr => s.LivePtr ptr
  | .write addr _ => s.InLive addr

instance (s : HeapState) : DecidablePred s.Valid := by
  rintro ⟨⟩ <;> dsimp only [Valid] <;> infer_instance

end HeapState

end SubOS.Mm
