import Mathlib.Data.Fin.Tuple.Basic
import Mathlib.Data.List.DropRight
import SubOS.Lib.ByteMemory

set_option autoImplicit false

/-!
# The virtual file system and its RAM file system

`fs/vfs.c` and `fs/ramfs.c`: paths, directories, open files, and the reading and writing of files
that are kept in one buffer each.

## Main definitions

* `vfsResolvePath`, `Vfs.vfsNamei`, `Vfs.vfsOpen`, `Vfs.vfsMkdir` — paths and names.
* `Vfs.vfsRead`, `Vfs.vfsWrite`, `Vfs.vfsLseek` — open files.

## Design

Pointers to entries are numbers, given out in order. A C string is the list of its bytes, without
the final 0. Offsets and sizes are integers and natural numbers with the wrapping written out.

A function that reads or writes outside an object has no result: `ramfsRead` and `ramfsWrite`
outside the buffer of a file, `vfsResolvePath` behind the 256 bytes that its callers give it. What
`kmalloc` and `kzalloc` answer is an argument; `kmalloc` leaves in a new block what was there
before. The read and write functions of the nodes of `/dev` and `/proc` are not modelled. Modes,
owners and inode numbers are read by no function here.
-/

namespace SubOS.Fs

open ByteMemory (ascii)

/-! ## Entries and descriptors -/

def maxChildren : ℕ := 32

def maxOpenFiles : ℕ := 64

/-- The bytes of a C string, without the final 0. -/
abbrev Name := List UInt8

structure RamfsEntry where
  name : Name
  /-- `FS_DIRECTORY`, with `finddir`, `mkdir` and `create`; otherwise `FS_FILE`, with `read` and
  `write`. -/
  isDir : Bool
  /-- `ptr`, if `FS_MOUNTPOINT` is set. -/
  mounted : Option ℕ
  length : ℕ
  /-- The buffer, or `NULL`. -/
  data : Option ByteMemory
  /-- The size of the buffer. -/
  capacity : ℕ
  /-- The first `child_count` pointers of `children`. -/
  children : List ℕ

structure FileDescriptor where
  node : Option ℕ
  offset : ℤ
  flags : UInt32

/-- The state of `vfs.c` and `ramfs.c`. -/
structure Vfs where
  entries : ℕ → RamfsEntry
  /-- The address that the next entry will have. -/
  next : ℕ
  /-- `vfs_root`. -/
  root : ℕ
  /-- `file_descriptors`. -/
  fds : Fin maxOpenFiles → FileDescriptor
  /-- `vfs_cwd`. -/
  cwd : Name

/-! ## 64-bit numbers -/

/-- A number as `size_t`. -/
def toSize (x : ℤ) : ℕ := (x % 2 ^ 64).toNat

/-- A number as `off_t` or `ssize_t`. -/
def toOff (x : ℤ) : ℤ := Int.bmod x (2 ^ 64)

/-! ## The buffer of a file -/

/-- `ramfs_read`: the number of bytes and the bytes. -/
def ramfsRead (e : RamfsEntry) (offset : ℤ) (size : ℕ) : Option (ℤ × List UInt8) :=
  match e.data with
  | none => some (0, [])
  | some data =>
    if e.length ≤ toSize offset then some (0, [])
    else
      let size := if e.length < toSize (offset + size) then toSize (e.length - offset) else size
      -- `memcpy` from `data + offset`
      if 0 ≤ offset ∧ offset + size ≤ e.capacity then
        some (toOff size, data.bytes offset.toNat size)
      else none

/-- What `kmalloc` answers when it has `mem` to offer: nothing for size 0, and no block is as large
as half of the address space. -/
def kmallocAnswer (size : ℕ) (mem : Option ByteMemory) : Option ByteMemory :=
  if size = 0 ∨ 2 ^ 63 ≤ size then none else mem

/-- The size of a new buffer for a file that ends at `endOff`: `(endOff + 256) & ~255`. -/
def newCapacity (endOff : ℕ) : ℕ := toSize (endOff + 256) / 256 * 256

/-- The file with the buffer that `ramfs_write` copies into: the old one, or a longer one to which
the contents are copied. `some none` if `kmalloc` has no memory for it. -/
def ramfsGrow (e : RamfsEntry) (endOff : ℕ) (mem : Option ByteMemory) :
    Option (Option RamfsEntry) :=
  if endOff ≤ e.capacity then some (some e)
  else
    let newCap := newCapacity endOff
    match kmallocAnswer newCap mem with
    | none => some none
    | some newData =>
      match e.data with
      | none => some (some { e with data := some newData, capacity := newCap })
      | some data =>
        if e.length ≤ e.capacity ∧ e.length ≤ newCap then
          let copied := newData.put 0 (data.bytes 0 e.length)
          some (some { e with data := some copied, capacity := newCap })
        else none

/-- `ramfs_write` of the bytes `buffer`; `mem` is what `kmalloc` answers. -/
def ramfsWrite (e : RamfsEntry) (offset : ℤ) (buffer : List UInt8) (mem : Option ByteMemory) :
    Option (RamfsEntry × ℤ) :=
  let endOff := toSize (offset + buffer.length)
  match ramfsGrow e endOff mem with
  | none => none
  | some none => some (e, -1)
  | some (some e) =>
    -- `memcpy` to `data + offset`
    match e.data with
    | none => if buffer = [] then some ({ e with length := max e.length endOff }, 0) else none
    | some data =>
      if buffer = [] ∨ 0 ≤ offset ∧ offset + buffer.length ≤ e.capacity then
        some ({ e with
          data := some (data.put offset.toNat buffer), length := max e.length endOff },
          toOff buffer.length)
      else none

/-! ## Paths -/

/-- `'/'`. -/
def slash : UInt8 := 0x2F

/-- `"."`. -/
def dot : Name := [0x2E]

/-- `".."`. -/
def dotDot : Name := [0x2E, 0x2E]

/-- The parts of a path between slashes that are not empty. -/
def components (path : Name) : List Name := (path.splitOn slash).filter (· ≠ [])

/-- One component in `vfs_resolve_path`: the stack has 32 places. -/
def pushComponent (stack : List Name) (token : Name) : List Name :=
  if token = dot then stack
  else if token = dotDot then stack.dropLast
  else if stack.length < 32 then stack ++ [token]
  else stack

/-- The path of a stack of components. -/
def joinPath (stack : List Name) : Name :=
  if stack = [] then [slash] else stack.flatMap fun c => slash :: c

/-- The local buffer `temp` of `vfs_resolve_path`, of 512 bytes. -/
def absolute (cwd path : Name) : Name :=
  if path.head? = some slash then path.take 511
  else if cwd = [slash] then (slash :: path).take 511
  else (cwd ++ slash :: path).take 511

/-- `vfs_resolve_path` into a buffer of 256 bytes. -/
def vfsResolvePath (cwd path : Name) : Option Name :=
  if path = [] then some (cwd.take 255)
  else
    let resolved := joinPath ((components (absolute cwd path)).foldl pushComponent [])
    if resolved.length < 256 then some resolved else none

/-- What stands behind the last slash of a path. -/
def lastName (path : Name) : Name := path.rtakeWhile (· ≠ slash)

/-- What stands before the last slash, `"/"` for nothing. -/
def parentPath (path : Name) : Name :=
  let parent := path.take (path.length - (lastName path).length - 1)
  if parent = [] then [slash] else parent

namespace Vfs

@[simps -fullyApplied] def setEntry (s : Vfs) (i : ℕ) (e : RamfsEntry) : Vfs :=
  { s with entries := Function.update s.entries i e }

lemma setEntry_self (s : Vfs) (i : ℕ) : s.setEntry i (s.entries i) = s := by
  simp [setEntry]

@[simps -fullyApplied] def setFd (s : Vfs) (fd : Fin maxOpenFiles) (d : FileDescriptor) : Vfs :=
  { s with fds := Function.update s.fds fd d }

/-- `ramfs_finddir`, for a directory. -/
def ramfsFinddir (s : Vfs) (dir : ℕ) (name : Name) : Option ℕ :=
  (s.entries dir).children.find? fun i => (s.entries i).name == name

/-- One component in `vfs_namei`: look it up and follow a mount point. -/
def lookup (s : Vfs) (current : ℕ) (name : Name) : Option ℕ :=
  if (s.entries current).isDir then
    (s.ramfsFinddir current name).map fun i => (s.entries i).mounted.getD i
  else none

/-- The loop of `vfs_namei`. -/
def walk (s : Vfs) : ℕ → List Name → Option ℕ
  | current, [] => some current
  | current, name :: names => (s.lookup current name).bind fun i => s.walk i names

/-- `vfs_namei`; no result at all if the path overruns the buffer. -/
def vfsNamei (s : Vfs) (path : Name) : Option (Option ℕ) :=
  (vfsResolvePath s.cwd path).map fun abs =>
    if abs = [slash] then some s.root else s.walk s.root (components abs)

/-! ## Opening and creating -/

/-- A new entry, the last of its directory. -/
def append (s : Vfs) (parent : ℕ) (child : RamfsEntry) : Vfs :=
  let p := s.entries parent
  { (s.setEntry s.next child).setEntry parent { p with children := p.children ++ [s.next] } with
    next := s.next + 1 }

/-- An entry cleared by `kzalloc`, with a name. -/
def newEntry (isDir : Bool) (name : Name) : RamfsEntry :=
  ⟨name.take 127, isDir, none, 0, none, 0, []⟩

/-- `ramfs_create_impl` and `ramfs_mkdir_impl`. -/
def ramfsAdd (s : Vfs) (parent : ℕ) (isDir : Bool) (name : Name) (granted : Bool) : Vfs × ℤ :=
  if maxChildren ≤ (s.entries parent).children.length ∨ granted = false then (s, -1)
  else (s.append parent (newEntry isDir name), 0)

def oCreat : UInt32 := 0x40

def oTrunc : UInt32 := 0x200

def oAppend : UInt32 := 0x400

/-- The first free descriptor from 3 on. -/
def freeFd (s : Vfs) : Option (Fin maxOpenFiles) :=
  Fin.find? fun fd => decide (3 ≤ fd.val) && (s.fds fd).node.isNone

/-- The part of `vfs_open` that creates a file which does not exist: the node, if it is found then.
-/
def createMissing (s : Vfs) (abs : Name) (granted : Bool) : Vfs × Option ℕ :=
  match (s.vfsNamei (parentPath abs)).join with
  | none => (s, none)
  | some parent =>
    if (s.entries parent).isDir then
      let s := (s.ramfsAdd parent false ((lastName abs).take 127) granted).1
      (s, (s.vfsNamei abs).join)
    else (s, none)

/-- What `O_TRUNC` does to the node. -/
def truncated (s : Vfs) (node : ℕ) (flags : UInt32) : Vfs :=
  if flags &&& oTrunc ≠ 0 then s.setEntry node { s.entries node with length := 0 } else s

/-- The end of `vfs_open`, with the node: truncate it and give it a descriptor. -/
def openNode (s : Vfs) (node : ℕ) (flags : UInt32) : Vfs × ℤ :=
  let s := s.truncated node flags
  match s.freeFd with
  | none => (s, -1)
  | some fd =>
    let offset := if flags &&& oAppend ≠ 0 then toOff (s.entries node).length else 0
    (s.setFd fd ⟨some node, offset, flags⟩, fd.val)

/-- `vfs_open`; `granted` is whether `kzalloc` has memory for a new entry. -/
def vfsOpen (s : Vfs) (path : Name) (flags : UInt32) (granted : Bool) : Option (Vfs × ℤ) :=
  match vfsResolvePath s.cwd path with
  | none => none
  | some abs =>
    match (s.vfsNamei abs).join with
    | some node => some (s.openNode node flags)
    | none =>
      if flags &&& oCreat ≠ 0 then
        match s.createMissing abs granted with
        | (s, some node) => some (s.openNode node flags)
        | (s, none) => some (s, -1)
      else some (s, -1)

def vfsMkdir (s : Vfs) (path : Name) (granted : Bool) : Option (Vfs × ℤ) :=
  match vfsResolvePath s.cwd path with
  | none => none
  | some abs =>
    match (s.vfsNamei (parentPath abs)).join with
    | none => some (s, -1)
    | some parent =>
      if (s.entries parent).isDir then
        some (s.ramfsAdd parent true ((lastName abs).take 127) granted)
      else some (s, -1)

/-! ## Reading and writing -/

lemma toNat_lt_maxOpenFiles {fd : ℤ} (h : 0 ≤ fd ∧ fd < maxOpenFiles) :
    fd.toNat < maxOpenFiles := by
  omega

/-- The open descriptor with this number, and its node. -/
def descriptor (s : Vfs) (fd : ℤ) : Option (Fin maxOpenFiles × ℕ) :=
  if h : 0 ≤ fd ∧ fd < maxOpenFiles then
    let i : Fin maxOpenFiles := ⟨fd.toNat, toNat_lt_maxOpenFiles h⟩
    (s.fds i).node.map fun node => (i, node)
  else none

/-- Move the offset of a descriptor. -/
def moveTo (s : Vfs) (fd : Fin maxOpenFiles) (offset : ℤ) : Vfs :=
  s.setFd fd { s.fds fd with offset }

/-- `vfs_read`: the result and the bytes. -/
def vfsRead (s : Vfs) (fd : ℤ) (size : ℕ) : Option (Vfs × ℤ × List UInt8) :=
  match s.descriptor fd with
  | none => some (s, -1, [])
  | some (i, node) =>
    if (s.entries node).isDir then some (s, -1, [])
    else
      match ramfsRead (s.entries node) (s.fds i).offset size with
      | none => none
      | some (n, bytes) =>
        some (if 0 < n then s.moveTo i (toOff ((s.fds i).offset + n)) else s, n, bytes)

def vfsWrite (s : Vfs) (fd : ℤ) (buffer : List UInt8) (mem : Option ByteMemory) :
    Option (Vfs × ℤ) :=
  match s.descriptor fd with
  | none => some (s, -1)
  | some (i, node) =>
    if (s.entries node).isDir then some (s, -1)
    else
      match ramfsWrite (s.entries node) (s.fds i).offset buffer mem with
      | none => none
      | some (e, n) =>
        let s := s.setEntry node e
        some (if 0 < n then s.moveTo i (toOff ((s.fds i).offset + n)) else s, n)

/-- `vfs_lseek`, with `SEEK_SET`, `SEEK_CUR` and `SEEK_END` as 0, 1 and 2. -/
def vfsLseek (s : Vfs) (fd : ℤ) (offset : ℤ) (whence : ℤ) : Vfs × ℤ :=
  match s.descriptor fd with
  | none => (s, -1)
  | some (i, node) =>
    let go (target : ℤ) := (s.moveTo i target, target)
    if whence = 0 then go offset
    else if whence = 1 then go (toOff ((s.fds i).offset + offset))
    else if whence = 2 then go (toOff (toOff (s.entries node).length + offset))
    else (s, -1)

def vfsClose (s : Vfs) (fd : ℤ) : Vfs × ℤ :=
  match s.descriptor fd with
  | none => (s, -1)
  | some (i, _) => (s.setFd i ⟨none, 0, 0⟩, 0)

/-! ## The tree at the start -/

/-- `ramfs_add_dir` with a parent that has room; the new entry is `s.next`. -/
def ramfsAddDir (s : Vfs) (parent : ℕ) (name : String) : Vfs :=
  s.append parent (newEntry true (ascii name))

/-- `ramfs_add_file` with a parent that has room. -/
def ramfsAddFile (s : Vfs) (parent : ℕ) (name content : String) (size : ℕ) : Vfs :=
  s.append parent
    { newEntry false (ascii name) with
      length := size, capacity := size, data := some fun i => (ascii content).getD i 0 }

/-- The root alone, before its first child. -/
def bareRoot : Vfs where
  entries := fun _ => { newEntry true [slash] with children := [] }
  next := 1
  root := 0
  fds := fun _ => ⟨none, 0, 0⟩
  cwd := [slash]

/-- `ramfs_create_root`, with no descriptor open yet. -/
def ramfsCreateRoot : Vfs :=
  let s := bareRoot
  let etc := s.next
  let s := s.ramfsAddDir s.root "etc"
  let s := s.ramfsAddDir s.root "bin"
  let s := s.ramfsAddDir s.root "dev"
  let s := s.ramfsAddDir s.root "proc"
  let s := s.ramfsAddDir s.root "sys"
  let s := s.ramfsAddDir s.root "home"
  let s := s.ramfsAddDir s.root "tmp"
  let mnt := s.next
  let s := s.ramfsAddDir s.root "mnt"
  let s := s.ramfsAddDir mnt "fat32"
  let s := s.ramfsAddDir mnt "ramdisk"
  let s := s.ramfsAddDir mnt "nvme"
  let s := s.ramfsAddFile etc "hostname" "sub-os\n" 7
  let s := s.ramfsAddFile etc "os-release"
    "NAME=\"SUB-OS\"\nVERSION=\"0.2.0-lts\"\nARCH=\"x86_64\"\n" 48
  let s := s.ramfsAddFile etc "resolv.conf" "nameserver 10.0.2.3\nsearch localdomain\n" 39
  let s := s.ramfsAddFile etc "motd" motd 137
  s.ramfsAddFile s.root "readme.txt" readme readme.length
where
  /-- The text of `/etc/motd`. -/
  motd : String :=
    "====================================================\n" ++
    "  Welcome to SUB-OS Modular Monolithic Linux Core!\n" ++
    "====================================================\n"
  /-- The text of `/readme.txt`. -/
  readme : String :=
    "SUB-OS Production-Level Modular Operating System\n" ++
    "Architecture: x86_64 Long Mode\n" ++
    "Subsystems: PMM, Heap, VFS, PCI, E1000, Net, Crypto, LazyBox\n"

end Vfs

end SubOS.Fs
