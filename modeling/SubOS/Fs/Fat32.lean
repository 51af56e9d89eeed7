import SubOS.Fs.ByteFile
import SubOS.Fs.Tree

set_option autoImplicit false

/-!
# The FAT32 mount

`fs/fat32.c` below `/mnt/fat32`, and the calls of `fs/vfs.c` on its files. A file is an entry of the
table `fat32_files` with a buffer of 4096 bytes. Every lookup makes a new node with the name of the
file and a copy of its size, and reading and writing find the entry again by the name of the node.

## Main definitions

* `Fat32.vfsOpen`, `Fat32.vfsRead`, `Fat32.vfsWrite` — the calls.

## Design

The entries in use are a list: they are taken in order and never given back. Nodes and descriptors
are those of a `Vfs`, whose root is the node that `vfs_namei` reaches by following the mount point.
No other node of the mount has a `create` function, but every one has a `finddir` function.

The answers of `kzalloc` during an open are a list, in the order in which it is called. `memcpy`
outside the buffer of a file has no result.
-/

namespace SubOS.Fs

open List Option

open ByteMemory (ascii)

/-- The size of the buffer of every file. -/
def fat32BufferSize : ℕ := 4096

def maxFat32Files : ℕ := 32

/-- `fat32_mem_entry_t`, in use. -/
structure Fat32Entry where
  name : Name
  /-- The name has 64 bytes, with a 0 at the end. -/
  name_fits : name.length < 64
  size : ℕ
  /-- The buffer, or `NULL`. -/
  data : Option ByteMemory

/-- The table of `fat32.c`, and the nodes and descriptors of `vfs.c`. -/
structure Fat32 where
  files : List Fat32Entry
  vfs : Vfs

/-- What `kzalloc` answers for the buffer of a file. -/
def kzallocBuffer (granted : Bool) : Option ByteMemory := if granted then some fun _ => 0 else none

/-- The names behind the mount point in an absolute path. -/
def belowMount (abs : Name) : Option (List Name) :=
  match components abs with
  | mnt :: fat32 :: names => if mnt = ascii "mnt" ∧ fat32 = ascii "fat32" then some names else none
  | _ => none

namespace Fat32

/-- The first entry in use with this name. -/
def file (s : Fat32) (name : Name) : Option Fat32Entry := s.files.find? fun e => e.name == name

/-- Change the first entry with this name. -/
def modify (name : Name) (f : Fat32Entry → Fat32Entry) : List Fat32Entry → List Fat32Entry
  | [] => []
  | e :: files => if e.name = name then f e :: files else e :: modify name f files

/-! ## Operations of a node -/

/-- `fat32_vfs_read`: the number of bytes and the bytes. -/
def fat32VfsRead (s : Fat32) (node : ℕ) (offset : ℤ) (size : ℕ) : Option (ℤ × List UInt8) :=
  if size = 0 then some (0, [])
  else
    match s.file (s.vfs.entries node).name with
    | none => some (0, [])
    | some e =>
      if e.size ≤ toSize offset then some (0, [])
      else
        let available := e.size - toSize offset
        let toCopy := if size < available then size else available
        match e.data with
        | none => none
        | some data =>
          -- `memcpy` from `data + offset`
          if 0 ≤ offset ∧ offset + toCopy ≤ fat32BufferSize then
            some (toOff toCopy, data.bytes offset.toNat toCopy)
          else none

/-- `fat32_vfs_write` of the bytes `buffer`; `granted` is whether `kzalloc` has memory. -/
def fat32VfsWrite (s : Fat32) (node : ℕ) (offset : ℤ) (buffer : List UInt8) (granted : Bool) :
    Option (Fat32 × ℤ) :=
  if buffer = [] then some (s, 0)
  else
    match s.file (s.vfs.entries node).name with
    | none => some (s, 0)
    | some e =>
      let newSize := min (toSize (offset + buffer.length)) fat32BufferSize
      match e.data.or (kzallocBuffer granted) with
      | none => none
      | some data =>
        -- `memcpy` to `data + offset`
        if 0 ≤ offset ∧ offset + buffer.length ≤ fat32BufferSize then
          let size := max e.size newSize
          let write (e : Fat32Entry) : Fat32Entry :=
            { e with data := some (data.put offset.toNat buffer), size }
          some (⟨modify (s.vfs.entries node).name write s.files,
            s.vfs.setEntry node { s.vfs.entries node with length := size }⟩, toOff buffer.length)
        else none

/-- `fat32_vfs_finddir`: a new node, if `kzalloc` has memory for it. -/
def fat32VfsFinddir (s : Fat32) (name : Name) (grants : List Bool) :
    (Fat32 × List Bool) × Option ℕ :=
  match s.file name with
  | none => ((s, grants), none)
  | some e =>
    if grants.headD false then
      let child := { Vfs.newEntry false e.name with length := e.size }
      ((⟨s.files, { s.vfs.setEntry s.vfs.next child with next := s.vfs.next + 1 }⟩, grants.tail),
        some s.vfs.next)
    else ((s, grants.tail), none)

/-- `fat32_vfs_create`, for the root of the mount. -/
def fat32VfsCreate (s : Fat32) (name : Name) (grants : List Bool) : Fat32 × List Bool :=
  if s.files.length < maxFat32Files then
    let new : Fat32Entry := {
      name := name.take 63
      name_fits := Nat.lt_succ_of_le (List.length_take_le 63 name)
      size := 0
      data := kzallocBuffer (grants.headD false) }
    ({ s with files := s.files ++ [new] }, grants.tail)
  else (s, grants)

/-! ## Calls -/

/-- The loop of `vfs_namei` below the mount point. -/
def walk (s : Fat32) (current : ℕ) : List Name → List Bool → (Fat32 × List Bool) × Option ℕ
  | [], grants => ((s, grants), some current)
  | name :: names, grants =>
    match s.fat32VfsFinddir name grants with
    | (r, none) => (r, none)
    | (r, some node) => walk r.1 node names r.2

/-- `vfs_namei` for a path below the mount point. -/
def vfsNamei (s : Fat32) (path : Name) (grants : List Bool) : (Fat32 × List Bool) × Option ℕ :=
  match (vfsResolvePath s.vfs.cwd path).bind belowMount with
  | none => ((s, grants), none)
  | some names => s.walk s.vfs.root names grants

/-- The part of `vfs_open` that creates a file which was not found. -/
def createMissing (s : Fat32) (abs : Name) (grants : List Bool) : Fat32 × Option ℕ :=
  match s.vfsNamei (parentPath abs) grants with
  | (r, none) => (r.1, none)
  | (r, some parent) =>
    if parent = s.vfs.root then
      let r := r.1.fat32VfsCreate ((lastName abs).take 127) r.2
      let r := r.1.vfsNamei abs r.2
      (r.1.1, r.2)
    else (r.1, none)

/-- The node that `vfs_open` gives a descriptor. -/
def findOrCreate (s : Fat32) (abs : Name) (flags : UInt32) (grants : List Bool) :
    Fat32 × Option ℕ :=
  match s.vfsNamei abs grants with
  | (r, some node) => (r.1, some node)
  | (r, none) => if flags &&& Vfs.oCreat ≠ 0 then r.1.createMissing abs r.2 else (r.1, none)

/-- `vfs_open` for a path below the mount point. -/
def vfsOpen (s : Fat32) (path : Name) (flags : UInt32) (grants : List Bool) : Option (Fat32 × ℤ) :=
  match vfsResolvePath s.vfs.cwd path with
  | none => none
  | some abs =>
    match s.findOrCreate abs flags grants with
    | (s, none) => some (s, -1)
    | (s, some node) =>
      let r := s.vfs.openNode node flags
      some ({ s with vfs := r.1 }, r.2)

def vfsRead (s : Fat32) (fd : ℤ) (size : ℕ) : Option (Fat32 × ℤ × List UInt8) :=
  match s.vfs.descriptor fd with
  | none => some (s, -1, [])
  | some (i, node) =>
    match s.fat32VfsRead node (s.vfs.fds i).offset size with
    | none => none
    | some (n, bytes) =>
      let moved := s.vfs.moveTo i (toOff ((s.vfs.fds i).offset + n))
      some (if 0 < n then { s with vfs := moved } else s, n, bytes)

def vfsWrite (s : Fat32) (fd : ℤ) (buffer : List UInt8) (granted : Bool) : Option (Fat32 × ℤ) :=
  match s.vfs.descriptor fd with
  | none => some (s, -1)
  | some (i, node) =>
    match s.fat32VfsWrite node (s.vfs.fds i).offset buffer granted with
    | none => none
    | some (s, n) =>
      let moved := s.vfs.moveTo i (toOff ((s.vfs.fds i).offset + n))
      some (if 0 < n then { s with vfs := moved } else s, n)

/-! ## The volume at the start -/

/-- A file that `fat32_init` makes. -/
def seed (name text : String) (size : ℕ) (name_fits : (ascii name).length < 64) : Fat32Entry :=
  ⟨ascii name, name_fits, size, some (ByteMemory.put (fun _ => 0) 0 (ascii text))⟩

/-- `fat32_init`, with no descriptor open yet. -/
def fat32Init (cwd : Name) : Fat32 where
  files := [
    seed "README.TXT" "SUB-OS FAT32 Production Volume 2026\nStatus: OK\n" 48 (by decide),
    seed "AUTORUN.INF" "[autorun]\nlabel=SUB_OS_DRIVE\n" 32 (by decide)]
  vfs := {
    entries := fun _ => Vfs.newEntry true (ascii "fat32")
    next := 1
    root := 0
    fds := fun _ => ⟨none, 0, 0⟩
    cwd }

/-! ## Entries by name -/

variable {s s' s'' : Fat32} {name : Name} {grants : List Bool} {node : ℕ}

lemma file_append (new : List Fat32Entry) (vfs : Vfs) (name : Name) :
    file ⟨s.files ++ new, vfs⟩ name = (s.file name).or (new.find? fun e => e.name == name) := by
  unfold file
  rw [find?_append]

lemma find?_modify {f : Fat32Entry → Fat32Entry} (hf : ∀ e, (f e).name = e.name) (n name : Name)
    (files : List Fat32Entry) :
    (modify n f files).find? (fun e => e.name == name) =
      if name = n then (files.find? fun e => e.name == name).map f
      else files.find? fun e => e.name == name := by
  induction files with
  | nil => simp [modify]
  | cons e files ih =>
    unfold modify
    by_cases he : e.name = n
    · rw [if_pos he, find?_cons, find?_cons, hf]
      by_cases hn : name = n
      · simp [he, hn]
      · have hne : (e.name == name) = false := by
          rw [beq_eq_false_iff_ne, he]
          exact fun heq => hn heq.symm
        simp [hn, hne]
    · rw [if_neg he, find?_cons, find?_cons, ih]
      by_cases hn : name = n
      · have hne : (e.name == name) = false := by
          rw [beq_eq_false_iff_ne, hn]
          exact he
        simp only [hne, if_pos hn]
      · simp only [if_neg hn]

/-! ## Looking up and creating -/

/-- What looking up and creating leaves as it was: entries are added that are empty, nodes are
added, and nothing else changes. -/
structure Grown (s s' : Fat32) : Prop where
  files : ∃ new : List Fat32Entry, s'.files = s.files ++ new ∧
    ∀ e ∈ new, e.size = 0 ∧ ∃ granted, e.data = kzallocBuffer granted
  fds : s'.vfs.fds = s.vfs.fds
  cwd : s'.vfs.cwd = s.vfs.cwd
  root : s'.vfs.root = s.vfs.root
  next : s.vfs.next ≤ s'.vfs.next
  entries : ∀ k < s.vfs.next, s'.vfs.entries k = s.vfs.entries k

lemma Grown.refl (s : Fat32) : s.Grown s :=
  ⟨⟨[], by simp, nofun⟩, rfl, rfl, rfl, le_rfl, fun _ _ => rfl⟩

lemma Grown.trans (h : s.Grown s') (h' : s'.Grown s'') : s.Grown s'' := by
  obtain ⟨new, hnew, hempty⟩ := h.files
  obtain ⟨new', hnew', hempty'⟩ := h'.files
  have hnext := h.next
  refine ⟨⟨new ++ new', ?_, ?_⟩, h'.fds.trans h.fds, h'.cwd.trans h.cwd, h'.root.trans h.root,
    h.next.trans h'.next, fun k hk => ?_⟩
  · rw [hnew', hnew, append_assoc]
  · exact fun e he => (mem_append.1 he).elim (hempty e) (hempty' e)
  · rw [h'.entries k (by omega), h.entries k hk]

lemma Grown.file (h : s.Grown s') (name : Name) :
    s'.file name = s.file name ∨
      s.file name = none ∧
        ∃ e, s'.file name = some e ∧ e.size = 0 ∧ ∃ granted, e.data = kzallocBuffer granted := by
  obtain ⟨new, hnew, hempty⟩ := h.files
  have hfile : s'.file name = (s.file name).or (new.find? fun e => e.name == name) := by
    rw [← file_append new s'.vfs name, ← hnew]
  cases hold : s.file name with
  | some e =>
    rw [hfile, hold]
    exact .inl rfl
  | none =>
    rw [hold, none_or] at hfile
    cases hfind : new.find? fun e => e.name == name with
    | none => exact .inl (hfile.trans hfind)
    | some e =>
      obtain ⟨hsize, hdata⟩ := hempty e (mem_of_find?_eq_some hfind)
      exact .inr ⟨rfl, e, hfile.trans hfind, hsize, hdata⟩

/-- The node is one of the file with this name. -/
structure Found (s : Fat32) (node : ℕ) (name : Name) : Prop where
  lt : node < s.vfs.next
  name_eq : (s.vfs.entries node).name = name
  exists_file : ∃ e, s.file name = some e

lemma fat32VfsFinddir_spec (s : Fat32) (name : Name) (grants : List Bool) :
    let r := s.fat32VfsFinddir name grants
    s.Grown r.1.1 ∧ (∀ b ∈ r.1.2, b ∈ grants) ∧
      ∀ node ∈ r.2, r.1.1.Found node name ∧ true ∈ grants := by
  unfold fat32VfsFinddir
  cases hfile : s.file name with
  | none => exact ⟨.refl s, fun b hb => hb, nofun⟩
  | some e =>
    have htail : ∀ b ∈ grants.tail, b ∈ grants := fun b hb => mem_of_mem_tail hb
    split_ifs with hgrant
    · refine ⟨⟨⟨[], by simp, nofun⟩, rfl, rfl, rfl, Nat.le_succ _, fun k hk => ?_⟩, htail, ?_⟩
      · exact Function.update_of_ne (by omega) _ _
      · intro node hnode
        rw [mem_def, some.injEq] at hnode
        subst hnode
        have hname : e.name = name := by
          have := find?_some hfile
          simpa using this
        have hfits := e.name_fits
        have hlen : e.name.take 127 = e.name := take_of_length_le (by omega)
        refine ⟨⟨Nat.lt_succ_self _, ?_, e, hfile⟩, ?_⟩
        · rw [← hname]
          simp [Vfs.newEntry, hlen]
        · cases grants with
          | nil => exact absurd hgrant (by decide)
          | cons b grants =>
            have hb : b = true := hgrant
            simp [hb]
    · exact ⟨.refl s, htail, nofun⟩

/-- A walk below the mount point ends at a node of the file that the last name names. -/
lemma walk_spec (current : ℕ) (names : List Name) (s : Fat32) (grants : List Bool) :
    let r := s.walk current names grants
    s.Grown r.1.1 ∧ (∀ b ∈ r.1.2, b ∈ grants) ∧
      ∀ node ∈ r.2, names = [] ∧ node = current ∨
        ∃ name ∈ names.getLast?, r.1.1.Found node name ∧ true ∈ grants := by
  induction names generalizing s current grants with
  | nil =>
    refine ⟨Grown.refl s, fun b hb => hb, fun node hnode => .inl ⟨rfl, ?_⟩⟩
    exact (some.inj hnode).symm
  | cons name names ih =>
    unfold walk
    obtain ⟨hgrown, hsub, hfound⟩ := fat32VfsFinddir_spec s name grants
    generalize s.fat32VfsFinddir name grants = r at hgrown hsub hfound ⊢
    obtain ⟨r, node⟩ := r
    cases node with
    | none => exact ⟨hgrown, hsub, nofun⟩
    | some node =>
      obtain ⟨hfound, hgrant⟩ := hfound node rfl
      obtain ⟨hgrown', hsub', hend⟩ := ih node r.1 r.2
      refine ⟨hgrown.trans hgrown', fun b hb => hsub b (hsub' b hb), fun last hlast => .inr ?_⟩
      rcases hend last hlast with ⟨hnil, hnode⟩ | ⟨last', hlast', hfound', -⟩
      · -- the first name is the last one
        subst hnil
        have hsame : (walk r.1 node [] r.2).1.1 = r.1 := rfl
        refine ⟨name, rfl, ?_, hgrant⟩
        rw [hsame, hnode]
        exact hfound
      · refine ⟨last', ?_, hfound', hgrant⟩
        rw [getLast?_cons]
        rw [hlast']
        rfl

lemma grown_vfsNamei (s : Fat32) (path : Name) (grants : List Bool) :
    s.Grown (s.vfsNamei path grants).1.1 ∧ ∀ b ∈ (s.vfsNamei path grants).1.2, b ∈ grants := by
  unfold vfsNamei
  cases (vfsResolvePath s.vfs.cwd path).bind belowMount with
  | none => exact ⟨Grown.refl s, fun b hb => hb⟩
  | some names =>
    obtain ⟨hgrown, hsub, -⟩ := walk_spec s.vfs.root names s grants
    exact ⟨hgrown, hsub⟩

lemma found_of_vfsNamei {path : Name} {names : List Name}
    (hpath : (vfsResolvePath s.vfs.cwd path).bind belowMount = some names)
    (hlast : name ∈ names.getLast?) (hnode : node ∈ (s.vfsNamei path grants).2) :
    (s.vfsNamei path grants).1.1.Found node name ∧ true ∈ grants := by
  obtain ⟨-, -, hend⟩ := walk_spec s.vfs.root names s grants
  unfold vfsNamei at hnode ⊢
  rw [hpath] at hnode ⊢
  rcases hend node hnode with ⟨hnil, -⟩ | ⟨name', hname', hfound⟩
  · rw [hnil] at hlast
    exact nomatch hlast
  · rwa [mem_unique hlast hname']

lemma grown_fat32VfsCreate (s : Fat32) (name : Name) (grants : List Bool) :
    s.Grown (s.fat32VfsCreate name grants).1 ∧
      ∀ b ∈ (s.fat32VfsCreate name grants).2, b ∈ grants := by
  unfold fat32VfsCreate
  split_ifs
  · refine ⟨⟨⟨_, rfl, fun e he => ?_⟩, rfl, rfl, rfl, le_rfl, fun _ _ => rfl⟩,
      fun b hb => mem_of_mem_tail hb⟩
    rw [mem_singleton] at he
    subst he
    exact ⟨rfl, _, rfl⟩
  · exact ⟨.refl s, fun b hb => hb⟩

variable {abs : Name} {names : List Name}

section

variable (habs : ∃ st, Resolved st ∧ abs = joinPath st) (hbelow : belowMount abs = some names)
include habs hbelow

lemma resolves_abs (cwd : Name) : (vfsResolvePath cwd abs).bind belowMount = some names := by
  obtain ⟨st, hst, rfl⟩ := habs
  rw [vfsResolvePath_joinPath hst, bind_some, hbelow]

lemma createMissing_spec (hlast : name ∈ names.getLast?) (s : Fat32) (grants : List Bool) :
    let r := s.createMissing abs grants
    s.Grown r.1 ∧ ∀ node ∈ r.2, r.1.Found node name ∧ true ∈ grants := by
  unfold createMissing
  obtain ⟨hgrown, hsub⟩ := grown_vfsNamei s (parentPath abs) grants
  generalize s.vfsNamei (parentPath abs) grants = r at hgrown hsub ⊢
  obtain ⟨r, parent⟩ := r
  cases parent with
  | none => exact ⟨hgrown, nofun⟩
  | some parent =>
    dsimp only at hgrown hsub ⊢
    split_ifs
    · obtain ⟨hcreate, hsub'⟩ := grown_fat32VfsCreate r.1 ((lastName abs).take 127) r.2
      generalize r.1.fat32VfsCreate ((lastName abs).take 127) r.2 = c at hcreate hsub' ⊢
      obtain ⟨hlook, -⟩ := grown_vfsNamei c.1 abs c.2
      refine ⟨(hgrown.trans hcreate).trans hlook, fun node hnode => ?_⟩
      obtain ⟨hfound, hgrant⟩ := found_of_vfsNamei (resolves_abs habs hbelow _) hlast hnode
      exact ⟨hfound, hsub _ (hsub' _ hgrant)⟩
    · exact ⟨hgrown, nofun⟩

/-- **The node that an open gets is one of the file that the path names.** -/
lemma findOrCreate_spec (hlast : name ∈ names.getLast?) (s : Fat32)
    (flags : UInt32) (grants : List Bool) : let r := s.findOrCreate abs flags grants
    s.Grown r.1 ∧ ∀ node ∈ r.2, r.1.Found node name ∧ true ∈ grants := by
  unfold findOrCreate
  obtain ⟨hgrown, hsub⟩ := grown_vfsNamei s abs grants
  have hfound : ∀ node ∈ (s.vfsNamei abs grants).2,
      (s.vfsNamei abs grants).1.1.Found node name ∧ true ∈ grants :=
    fun node hnode => found_of_vfsNamei (resolves_abs habs hbelow _) hlast hnode
  generalize s.vfsNamei abs grants = r at hgrown hsub hfound ⊢
  obtain ⟨r, node⟩ := r
  cases node with
  | some node => exact ⟨hgrown, hfound⟩
  | none =>
    split_ifs
    · obtain ⟨hcreate, hfound'⟩ := createMissing_spec habs hbelow hlast r.1 r.2
      refine ⟨hgrown.trans hcreate, fun node hnode => ?_⟩
      obtain ⟨hfound', hgrant⟩ := hfound' node hnode
      exact ⟨hfound', hsub _ hgrant⟩
    · exact ⟨hgrown, nofun⟩

end

end Fat32

end SubOS.Fs
