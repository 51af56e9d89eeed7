import SubOS.Lib.EventRun
import SubOS.Mm.Vmspace

set_option autoImplicit false

/-!
# Loading and running an ELF image

`kernel/elf.c`, `kernel/exec.c` and the system calls of `kernel/syscall.c` that touch the memory of
a process.

## Main definitions

* `elfLoad`, `execUserImage` — the loader, and the start of a process.
* `sysBrk`, `sysRead`, `uaccessCopyToUser` — the break, and the kernel's writes into buffers.
* `Uproc.call` — what happens to the memory of a process.

## Design

Reading a byte that is not in the image ends `elfLoad` with `Loaded.overrun`. A header is read as a
whole where the source reads its fields one by one; fields that are never read are left out.

There is a current process in every function. A `memcpy` to a user address is a write through its
tables; the kernel runs with `CR0.WP` clear and its stores ignore the right to write, those of the
process do not. What `vfs_read` puts into a buffer is part of the call. `execUserImage` stops where
the address space is complete; what the kernel does otherwise, like allocating a kernel stack, is
`Call.kernel`, with the memory and the allocator that it leaves. `stored` records the pages that the
process has stored to. No function reads it.
-/

namespace SubOS.Kernel

open Mm Option

/-! ## The format -/

/-- The `n` bytes of an image from `off` on. -/
def bytesAt (image : List UInt8) (off n : ℕ) : Option (List UInt8) :=
  if off + n ≤ image.length then some ((image.drop off).take n) else none

/-- The number that a list of bytes stands for, the lowest byte first. -/
def littleEndian : List UInt8 → ℕ
  | [] => 0
  | b :: bs => b.toNat + 256 * littleEndian bs

/-- A field of `n` bytes. -/
def field (image : List UInt8) (off n : ℕ) : Option ℕ := (bytesAt image off n).map littleEndian

structure Elf64Ehdr where
  ident : List UInt8
  type : ℕ
  machine : ℕ
  entry : ℕ
  phoff : ℕ
  phentsize : ℕ
  phnum : ℕ
  deriving DecidableEq, Repr

structure Elf64Phdr where
  type : ℕ
  flags : ℕ
  offset : ℕ
  vaddr : ℕ
  filesz : ℕ
  memsz : ℕ
  deriving DecidableEq, Repr

/-- `sizeof(Elf64_Ehdr)`. -/
def ehdrSize : ℕ := 64

/-- `sizeof(Elf64_Phdr)`. -/
def phdrSize : ℕ := 56

def ehdrOf (image : List UInt8) : Option Elf64Ehdr := do
  let ident ← bytesAt image 0 16
  let type ← field image 16 2
  let machine ← field image 18 2
  let entry ← field image 24 8
  let phoff ← field image 32 8
  let phentsize ← field image 54 2
  let phnum ← field image 56 2
  return { ident, type, machine, entry, phoff, phentsize, phnum }

/-- The program header at an offset. -/
def phdrAt (image : List UInt8) (off : ℕ) : Option Elf64Phdr := do
  let type ← field image off 4
  let flags ← field image (off + 4) 4
  let offset ← field image (off + 8) 8
  let vaddr ← field image (off + 16) 8
  let filesz ← field image (off + 32) 8
  let memsz ← field image (off + 40) 8
  return { type, flags, offset, vaddr, filesz, memsz }

def etExec : ℕ := 2

/-- `ELF_NATIVE_MACHINE`, which is `EM_X86_64`. -/
def elfNativeMachine : ℕ := 62

def ptLoad : ℕ := 1

/-- The codes that `elf_load` returns for an image that it refuses. -/
inductive ElfError where
  | truncated
  | magic
  | badClass
  | type
  | machine
  | range
  | nomem
  | noentry
  deriving DecidableEq, Repr

def elfProtOf (flags : ℕ) : Prot := { write := flags.testBit 1, user := true }

/-! ## The header -/

/-- The checks of `elf_check_header` after that of the length. -/
def Elf64Ehdr.check (eh : Elf64Ehdr) (len : ℕ) : Option ElfError :=
  if eh.ident.take 4 ≠ [0x7F, 0x45, 0x4C, 0x46] then some .magic
  else if eh.ident[4]? ≠ some 2 ∨ eh.ident[5]? ≠ some 1 then some .badClass
  else if eh.type ≠ etExec then some .type
  else if eh.machine ≠ elfNativeMachine then some .machine
  else if eh.phnum = 0 ∨ eh.phentsize ≠ phdrSize then some .truncated
  else if eh.phoff > len ∨ eh.phnum * eh.phentsize > len - eh.phoff then some .truncated
  else none

/-- `elf_check_header`: the header, or the code it is refused with. -/
def elfCheckHeader (image : List UInt8) : Option (Except ElfError Elf64Ehdr) :=
  if image.length < ehdrSize then some (.error .truncated)
  else
    (ehdrOf image).map fun eh =>
      match eh.check image.length with
      | some e => .error e
      | none => .ok eh

/-! ## The segments -/

/-- Whether the loop in `elf_load` goes on. -/
inductive Status where
  | running
  | failed (e : ElfError)
  | overrun
  deriving DecidableEq, Repr

/-- The state of the loop in `elf_load`. -/
structure Loader where
  space : Space
  brk : ℕ
  entryMapped : Bool
  status : Status

def Loader.fail (l : Loader) (e : ElfError) : Loader := { l with status := .failed e }

/-- The segments that are loaded, the others are skipped. -/
def Elf64Phdr.loadable (p : Elf64Phdr) : Bool := p.type == ptLoad && p.memsz != 0

/-- The checks of a segment. `USER_LIMIT - p_vaddr` is computed in `uint64_t`. -/
def Elf64Phdr.check (p : Elf64Phdr) (len : ℕ) : Option ElfError :=
  if p.filesz > p.memsz then some .truncated
  else if p.offset > len ∨ p.filesz > len - p.offset then some .truncated
  else if p.vaddr < userBase then some .range
  else if p.memsz > (userLimit + 2 ^ 64 - p.vaddr) % 2 ^ 64 then some .range
  else none

/-- Copy the bytes that the image has for a segment. -/
def copySegment (image : List UInt8) (l : Loader) (p : Elf64Phdr) : Loader :=
  if p.filesz = 0 then l
  else
    match bytesAt image p.offset p.filesz with
    | none => { l with status := .overrun }
    | some bytes =>
      let (ok, space) := l.space.write p.vaddr bytes
      if ok then { l with space := space } else { l with space := space }.fail .nomem

/-- Count a segment that has been loaded. -/
def countSegment (entry : ℕ) (l : Loader) (p : Elf64Phdr) : Loader :=
  let segEnd := (p.vaddr + p.memsz) % 2 ^ 64
  { l with brk := if segEnd > l.brk then segEnd else l.brk
           entryMapped := l.entryMapped || (decide (entry ≥ p.vaddr) && decide (entry < segEnd)) }

/-- The body of the loop in `elf_load`, for one program header. -/
def loadSegment (image : List UInt8) (entry : ℕ) (l : Loader) (p : Elf64Phdr) : Loader :=
  if !p.loadable then l
  else
    match p.check image.length with
    | some e => l.fail e
    | none =>
      let (ok, space) := l.space.alloc p.vaddr p.memsz (elfProtOf p.flags)
      if !ok then { l with space := space }.fail .nomem
      else
        let l' := copySegment image { l with space := space } p
        if l'.status = .running then countSegment entry l' p else l'

/-- One round of the loop in `elf_load`. Nothing happens any more once the loop has been left. -/
def loadHeader (image : List UInt8) (eh : Elf64Ehdr) (l : Loader) (i : ℕ) : Loader :=
  if l.status = .running then
    match phdrAt image (eh.phoff + i * phdrSize) with
    | none => { l with status := .overrun }
    | some p => loadSegment image eh.entry l p
  else l

/-- The loop before its first round. -/
def Loader.start (s : Space) : Loader :=
  { space := s, brk := 0, entryMapped := false, status := .running }

/-- The loop in `elf_load`. -/
def loadLoop (image : List UInt8) (eh : Elf64Ehdr) (s : Space) : Loader :=
  EventRun.run (loadHeader image eh) (.start s) (List.range eh.phnum)

/-- What `elf_load` returns. -/
inductive Loaded where
  | ok (entry brk : ℕ)
  | failed (e : ElfError)
  | overrun
  deriving DecidableEq, Repr

/-- The end of `elf_load`, after the loop. -/
def Loader.finish (l : Loader) (entry : ℕ) : Loaded :=
  match l.status with
  | .failed e => .failed e
  | .overrun => .overrun
  | .running =>
    if l.brk = 0 then .failed .range
    else if !l.entryMapped then .failed .noentry
    else .ok entry (pageDown ((l.brk + vmPageSize - 1) % 2 ^ 64))

def elfLoad (image : List UInt8) (s : Space) : Loaded × Space :=
  match elfCheckHeader image with
  | none => (.overrun, s)
  | some (.error e) => (.failed e, s)
  | some (.ok eh) =>
    let l := loadLoop image eh s
    (l.finish eh.entry, l.space)

/-! ## Writing an image -/

/-- The little-endian bytes of a number. -/
def leBytes : ℕ → ℕ → List UInt8
  | 0, _ => []
  | n + 1, v => UInt8.ofNat v :: leBytes n (v / 256)

/-- A program header as it stands in an image. -/
def Elf64Phdr.bytes (p : Elf64Phdr) : List UInt8 :=
  leBytes 4 p.type ++ leBytes 4 p.flags ++ leBytes 8 p.offset ++ leBytes 8 p.vaddr ++
    leBytes 8 p.vaddr ++ leBytes 8 p.filesz ++ leBytes 8 p.memsz ++ leBytes 8 vmPageSize

/-- The image of a static executable: its header, its program headers and its data. -/
def imageOf (entry : ℕ) (phdrs : List Elf64Phdr) (data : List UInt8) : List UInt8 :=
  [0x7F, 0x45, 0x4C, 0x46, 2, 1, 1, 0, 0, 0, 0, 0, 0, 0, 0, 0] ++ leBytes 2 etExec ++
    leBytes 2 elfNativeMachine ++ leBytes 4 1 ++ leBytes 8 entry ++ leBytes 8 ehdrSize ++
    leBytes 8 0 ++ leBytes 4 0 ++ leBytes 2 ehdrSize ++ leBytes 2 phdrSize ++
    leBytes 2 phdrs.length ++ leBytes 2 0 ++ leBytes 2 0 ++ leBytes 2 0 ++
    phdrs.flatMap Elf64Phdr.bytes ++ data

/-! ## Reading the image -/

section Reading

variable {image : List UInt8} {off n k : ℕ}

lemma littleEndian_lt (bs : List UInt8) : littleEndian bs < 256 ^ bs.length := by
  induction bs with
  | nil => exact Nat.one_pos
  | cons b bs ih =>
    have hb := b.toNat_lt
    rw [littleEndian, List.length_cons, Nat.pow_succ]
    omega

lemma bytesAt_of_le (h : off + n ≤ image.length) :
    bytesAt image off n = some ((image.drop off).take n) := if_pos h

lemma length_of_bytesAt {bs : List UInt8} (h : bytesAt image off n = some bs) : bs.length = n := by
  rw [bytesAt, ite_none_right_eq_some] at h
  obtain ⟨hle, hbs⟩ := h
  rw [← some_inj.1 hbs, List.length_take_of_le]
  rw [List.length_drop]
  omega

/-- **A field of `n` bytes** is below `256 ^ n`. -/
lemma field_lt (h : field image off n = some k) : k < 256 ^ n := by
  rw [field, map_eq_some_iff] at h
  obtain ⟨bs, hbs, rfl⟩ := h
  rw [← length_of_bytesAt hbs]
  exact littleEndian_lt bs

lemma field_isSome (image : List UInt8) (off n : ℕ) (h : off + n ≤ image.length) :
    ∃ k, field image off n = some k :=
  ⟨_, by rw [field, bytesAt_of_le h]; rfl⟩

lemma ehdrOf_isSome (h : ehdrSize ≤ image.length) : ∃ eh, ehdrOf image = some eh := by
  rw [ehdrSize] at h
  obtain ⟨type, htype⟩ := field_isSome image 16 2 (by omega)
  obtain ⟨machine, hmachine⟩ := field_isSome image 18 2 (by omega)
  obtain ⟨entry, hentry⟩ := field_isSome image 24 8 (by omega)
  obtain ⟨phoff, hphoff⟩ := field_isSome image 32 8 (by omega)
  obtain ⟨phentsize, hsize⟩ := field_isSome image 54 2 (by omega)
  obtain ⟨phnum, hphnum⟩ := field_isSome image 56 2 (by omega)
  rw [ehdrOf, bytesAt_of_le (by omega), htype, hmachine, hentry, hphoff, hsize, hphnum]
  exact ⟨_, rfl⟩

lemma phdrAt_isSome (h : off + phdrSize ≤ image.length) : ∃ p, phdrAt image off = some p := by
  rw [phdrSize] at h
  obtain ⟨type, htype⟩ := field_isSome image off 4 (by omega)
  obtain ⟨flags, hflags⟩ := field_isSome image (off + 4) 4 (by omega)
  obtain ⟨offset, hoffset⟩ := field_isSome image (off + 8) 8 (by omega)
  obtain ⟨vaddr, hvaddr⟩ := field_isSome image (off + 16) 8 (by omega)
  obtain ⟨filesz, hfilesz⟩ := field_isSome image (off + 32) 8 (by omega)
  obtain ⟨memsz, hmemsz⟩ := field_isSome image (off + 40) 8 (by omega)
  rw [phdrAt, htype, hflags, hoffset, hvaddr, hfilesz, hmemsz]
  exact ⟨_, rfl⟩

lemma phdrAt_lt {p : Elf64Phdr} (h : phdrAt image off = some p) :
    p.vaddr < 2 ^ 64 ∧ p.memsz < 2 ^ 64 := by
  simp only [phdrAt, bind_eq_bind, bind_eq_some_iff, pure_def, some_inj] at h
  obtain ⟨type, -, flags, -, offset, -, vaddr, hvaddr, filesz, -, memsz, hmemsz, rfl⟩ := h
  exact ⟨field_lt hvaddr, field_lt hmemsz⟩

lemma elfCheckHeader_ok {eh : Elf64Ehdr} (h : elfCheckHeader image = some (.ok eh)) :
    ehdrOf image = some eh ∧ eh.check image.length = none := by
  unfold elfCheckHeader at h
  split at h
  · cases h
  · rw [map_eq_some_iff] at h
    obtain ⟨eh', heh, h⟩ := h
    cases hcheck : eh'.check image.length with
    | some e =>
      rw [hcheck] at h
      cases h
    | none =>
      rw [hcheck] at h
      cases h
      exact ⟨heh, hcheck⟩

lemma phdrs_inside {eh : Elf64Ehdr} (h : eh.check image.length = none) {i : ℕ} (hi : i < eh.phnum) :
    eh.phoff + i * phdrSize + phdrSize ≤ image.length := by
  unfold Elf64Ehdr.check at h
  split_ifs at h with h₁ h₂ h₃ h₄ h₅ h₆
  rw [not_or, not_not] at h₅
  rw [h₅.2] at h₆
  have hmul : (i + 1) * phdrSize ≤ eh.phnum * phdrSize := Nat.mul_le_mul_right _ hi
  rw [Nat.add_mul, Nat.one_mul] at hmul
  omega

end Reading

/-! ## Starting a process -/

def userStackTop : ℕ := userBase + 0x08000000

def userStackPages : ℕ := 16

/-- `VM_PROT_READ | VM_PROT_WRITE | VM_PROT_USER`. -/
def protReadWrite : Prot := { write := true, user := true }

structure Uproc where
  space : Space
  entry : ℕ
  rsp : ℕ
  brk : ℕ
  brkStart : ℕ
  stored : List ℕ

/-- `setup_user_stack`: the stack pointer, and the address space after it. -/
def setupUserStack (s : Space) (name : List UInt8) : Option ℕ × Space :=
  let stackBytes := userStackPages * vmPageSize
  let stackLow := userStackTop - stackBytes
  match s.alloc stackLow stackBytes protReadWrite with
  | (false, s₁) => (none, s₁)
  | (true, s₁) =>
    let argv0 := (userStackTop - (name.length + 1)) / 16 * 16
    match s₁.write argv0 (name ++ [0]) with
    | (false, s₂) => (none, s₂)
    | (true, s₂) =>
      let frame := leBytes 8 1 ++ leBytes 8 argv0 ++ leBytes 8 0 ++ leBytes 8 0
      let rsp := (argv0 - frame.length) / 16 * 16
      match s₂.write rsp frame with
      | (false, s₃) => (none, s₃)
      | (true, s₃) => (some rsp, s₃)

/-- `exec_user_image`, up to the allocation of the kernel stack. `proc->name` has room for 31
characters. -/
def execUserImage (mem : ByteMemory) (pmm : Pmm) (name image : List UInt8) : Option Uproc :=
  match (Space.create mem pmm).1 with
  | none => none
  | some s =>
    match elfLoad image s with
    | (.ok entry brkStart, s₁) =>
      match setupUserStack s₁ (name.take 31) with
      | (some rsp, s₂) =>
        some { space := s₂, entry := entry, rsp := rsp, brk := brkStart, brkStart := brkStart
               stored := [] }
      | (none, _) => none
    | _ => none

/-! ## System calls -/

def efault : ℤ := -14

namespace Uproc

def sysBrk (u : Uproc) (addr : ℕ) : ℕ × Uproc :=
  if addr = 0 ∨ addr < u.brkStart then (u.brk, u)
  else if addr > userStackTop - userStackPages * vmPageSize then (u.brk, u)
  else if addr > u.brk then
    match u.space.alloc u.brk (addr - u.brk) protReadWrite with
    | (false, s) => (u.brk, { u with space := s })
    | (true, s) => (addr, { u with space := s, brk := addr })
  else (addr, { u with brk := addr })

def uaccessOk (u : Uproc) (uaddr len : ℕ) : Bool :=
  if len = 0 then true else u.space.rangeOk uaddr len

/-- The kernel writes to user addresses. -/
def kernelWrite (u : Uproc) (dst : ℕ) (src : List UInt8) : Uproc :=
  { u with space := (u.space.write dst src).2 }

/-- `sys_read`, where `vfs_read` fails or has put `data` into the buffer. -/
def sysRead (u : Uproc) (buf count : ℕ) (data : Option (List UInt8)) : ℤ × Uproc :=
  if count = 0 then (0, u)
  else if !u.uaccessOk buf count then (efault, u)
  else
    match data with
    | none => (-1, u)
    | some bytes => ((bytes.take count).length, u.kernelWrite buf (bytes.take count))

def uaccessCopyToUser (u : Uproc) (udst : ℕ) (src : List UInt8) : ℤ × Uproc :=
  if !u.uaccessOk udst src.length then (-1, u) else (0, u.kernelWrite udst src)

end Uproc

/-- The processor lets the process write to a page: its entry is present, for the user and
writable. The entries above the last level give all rights. -/
def pageWritable (s : Space) (page : ℕ) : Bool :=
  match (s.walk page false).1 with
  | none => false
  | some pte => isPresent (s.entryAt pte) && isUser (s.entryAt pte) && isWritable (s.entryAt pte)

/-- The process stores a byte. A store to a page that it may not write ends the process and changes
nothing. -/
def Uproc.store (u : Uproc) (a : ℕ) (b : UInt8) : Uproc :=
  if pageWritable u.space (pageDown a) then
    { u with space := { u.space with mem := u.space.mem.put (u.space.resolve a) [b] }
             stored := a / vmPageSize :: u.stored }
  else u

/-- What happens to the memory of a process. -/
inductive Call where
  | brk (addr : ℕ)
  | read (buf count : ℕ) (data : Option (List UInt8))
  | copyToUser (udst : ℕ) (src : List UInt8)
  | store (a : ℕ) (b : UInt8)
  | kernel (mem : ByteMemory) (pmm : Pmm)

def Uproc.call (u : Uproc) : Call → Uproc
  | .brk addr => (u.sysBrk addr).2
  | .read buf count data => (u.sysRead buf count data).2
  | .copyToUser udst src => (u.uaccessCopyToUser udst src).2
  | .store a b => u.store a b
  | .kernel mem pmm => { u with space := { u.space with mem := mem, pmm := pmm } }

end SubOS.Kernel
