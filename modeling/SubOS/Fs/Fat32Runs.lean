import SubOS.Fs.Fat32
import SubOS.Lib.EventRun
import SubOS.Lib.WriteLog

set_option autoImplicit false

/-!
# What the files of the FAT32 mount hold

Any sequence of `vfs_open`, `vfs_lseek`, `vfs_read`, `vfs_write` and `vfs_close` on files of the
mount, watched from outside: a log of each file records the bytes that a write was said to have
written, and the truncation that an open with `O_TRUNC` was to perform.

`vfs_open` sets the length of a node that was made for this open; the size in the table stays. A
write cuts its new size at 4096 but copies all bytes.

## Main definitions

* `Watched`, `Meets` — the mount with its logs; what a call should do.
* `Careful` — a file opened with `O_TRUNC` is empty already, and a write ends inside the buffer.

## Main results

* `meets_of_careful`, `not_truncated` — careful calls do what they should, others need not.
-/

namespace SubOS.Fs

open EventRun WriteLog Option ByteMemory Vfs

open ByteMemory (ascii)

namespace Fat32

/-! ## Calls -/

/-- The calls on files of the mount. The bytes to be written are the first `size` of `buf`; `grants`
and `granted` are what `kzalloc` answers. -/
inductive Call where
  | vfsOpen (path : Name) (flags : UInt32) (grants : List Bool)
  | vfsLseek (fd : ℤ) (offset : Int64) (whence : ℤ)
  | vfsRead (fd : ℤ) (size : UInt64)
  | vfsWrite (fd : ℤ) (buf : ByteMemory) (size : UInt64) (granted : Bool)
  | vfsClose (fd : ℤ)

/-- Perform a call; there is no result if it leaves the buffer of a file. -/
def call (s : Fat32) : Call → Option (Fat32 × Reply)
  | .vfsOpen path flags grants => (s.vfsOpen path flags grants).map fun r => (r.1, ⟨r.2, []⟩)
  | .vfsLseek fd offset whence =>
    let r := s.vfs.vfsLseek fd offset.toInt whence
    some ({ s with vfs := r.1 }, ⟨r.2, []⟩)
  | .vfsRead fd size => (s.vfsRead fd size.toNat).map fun r => (r.1, ⟨r.2.1, r.2.2⟩)
  | .vfsWrite fd buf size granted =>
    (s.vfsWrite fd (buf.bytes 0 size.toNat) granted).map fun r => (r.1, ⟨r.2, []⟩)
  | .vfsClose fd =>
    let r := s.vfs.vfsClose fd
    some ({ s with vfs := r.1 }, ⟨r.2, []⟩)

/-- The name of the file that a path below the mount point names. -/
def named (cwd path : Name) : Option Name :=
  ((vfsResolvePath cwd path).bind belowMount).bind List.getLast?

/-- The place of a descriptor in the table. -/
def place (fd : ℤ) : Option (Fin maxOpenFiles) :=
  if h : 0 ≤ fd ∧ fd < maxOpenFiles then some ⟨fd.toNat, Vfs.toNat_lt_maxOpenFiles h⟩ else none

/-! ## The mount and what is known of it from outside -/

/-- The mount, the changes of its files as the calls reported them, and the names of the files that
descriptors were opened for. -/
structure Watched where
  fs : Fat32
  log : Name → WriteLog
  opened : Fin maxOpenFiles → Option Name

namespace Watched

/-- Add a change to the log of a file. -/
def record (w : Watched) (name : Name) (c : WriteLog.Change) : Watched :=
  { w with log := Function.update w.log name (c :: w.log name) }

/-- The descriptor now stands for this file, or for none. -/
def setOpened (w : Watched) (i : Fin maxOpenFiles) (name : Option Name) : Watched :=
  { w with opened := Function.update w.opened i name }

/-- What is noted of a call, from its arguments and its reply. -/
def note (w : Watched) (fs : Fat32) (r : Reply) : Call → Watched
  | .vfsOpen path flags _ =>
    match place r.ret, named w.fs.vfs.cwd path with
    | some i, some name =>
      let w' := { w with fs }.setOpened i (some name)
      if flags &&& Vfs.oTrunc ≠ 0 then w'.record name .truncate else w'
    | _, _ => { w with fs }
  | .vfsWrite fd buf _ _ =>
    match place fd with
    | none => { w with fs }
    | some i =>
      match w.opened i with
      | none => { w with fs }
      | some name =>
        if 0 < r.ret then
          let o := (w.fs.vfs.fds i).offset.toNat
          { w with fs }.record name (.write o (buf.bytes 0 r.ret.toNat))
        else { w with fs }
  | .vfsClose fd =>
    match place fd with
    | none => { w with fs }
    | some i => if r.ret = 0 then { w with fs }.setOpened i none else { w with fs }
  | _ => { w with fs }

/-- One call, and what is noted of it. -/
def step (w : Watched) (c : Call) : Watched :=
  match w.fs.call c with
  | none => w
  | some (fs, r) => w.note fs r c

end Watched

/-- The log of a file at the start: its bytes were written once. -/
def seedLog (e : Fat32Entry) : WriteLog :=
  [.write 0 ((e.data.getD fun _ => 0).bytes 0 e.size)]

/-- The mount after `fat32_init`. -/
def boot (cwd : Name) : Watched where
  fs := fat32Init cwd
  log := fun name => ((fat32Init cwd).file name).elim [] seedLog
  opened := fun _ => none

/-- The call is on a file of the mount. -/
def OnMount (w : Watched) : Call → Prop
  | .vfsOpen path _ _ => (named w.fs.vfs.cwd path).isSome
  | _ => True

/-- What a call has to do: it stays inside the buffer of the file, a read delivers the bytes most
recently written since the last truncation, and a file that was opened with `O_TRUNC` is empty. -/
def Meets (w : Watched) (c : Call) : Prop :=
  ∃ fs r, w.fs.call c = some (fs, r) ∧
    match c with
    | .vfsOpen path flags _ =>
      flags &&& Vfs.oTrunc ≠ 0 → 0 ≤ r.ret →
        ∀ name ∈ named w.fs.vfs.cwd path, ∃ e, fs.file name = some e ∧ e.size = 0
    | .vfsRead fd size =>
      ∀ i ∈ place fd, ∀ name ∈ w.opened i,
        r.bytes = (w.log name).read (w.fs.vfs.fds i).offset size.toNat ∧ r.ret = r.bytes.length
    | _ => True

/-- A file that is opened with `O_TRUNC` is empty already, unless no descriptor or no memory is left
for the open; and the bytes of a write lie inside the buffer, which is there or can be allocated. -/
def Careful (w : Watched) : Call → Prop
  | .vfsOpen path flags grants =>
    flags &&& Vfs.oTrunc ≠ 0 → ∀ name ∈ named w.fs.vfs.cwd path, ∀ e ∈ w.fs.file name,
      e.size = 0 ∨ w.fs.vfs.freeFd = none ∨ true ∉ grants
  | .vfsWrite fd _ size granted =>
    ∀ d ∈ w.fs.vfs.descriptor fd, ∀ e ∈ w.fs.file (w.fs.vfs.entries d.2).name, size ≠ 0 →
      (e.data.isSome ∨ granted) ∧ 0 ≤ (w.fs.vfs.fds d.1).offset ∧
        (w.fs.vfs.fds d.1).offset + size.toNat ≤ fat32BufferSize
  | _ => True

instance (w : Watched) : DecidablePred (OnMount w) := by
  rintro ⟨⟩ <;> dsimp only [OnMount] <;> infer_instance

instance (w : Watched) : DecidablePred (Careful w) := by
  rintro ⟨⟩ <;> dsimp only [Careful] <;> infer_instance

/-! ## The log and the buffer -/

/-- The entry holds what the log says. -/
structure Holds (e : Fat32Entry) (log : WriteLog) : Prop where
  size : e.size = log.extent
  inside : e.size ≤ fat32BufferSize
  buffered : e.data = none → e.size = 0
  stored : WriteLog.Stored (e.data.getD fun _ => 0) log

/-- An `off_t`. -/
def InRange (x : ℤ) : Prop := -2 ^ 63 ≤ x ∧ x < 2 ^ 63

/-- The files hold what their logs say, and the descriptors lead to the files they were opened for.
-/
structure Coherent (w : Watched) : Prop where
  cwd : ∃ st, Resolved st ∧ w.fs.vfs.cwd = joinPath st
  nodes : ∀ i, ∀ k ∈ (w.fs.vfs.fds i).node, k < w.fs.vfs.next
  opened : ∀ i, w.opened i = (w.fs.vfs.fds i).node.map fun k => (w.fs.vfs.entries k).name
  offsets : ∀ i, InRange (w.fs.vfs.fds i).offset
  missing : ∀ name, w.fs.file name = none → w.log name = []
  holds : ∀ name, ∀ e ∈ w.fs.file name, Holds e (w.log name)

variable {s : Fat32} {w : Watched} {e : Fat32Entry} {log : WriteLog} {i : Fin maxOpenFiles}
  {fd x o : ℤ} {name : Name} {granted : Bool} {data : ByteMemory} {node : ℕ}

lemma inRange_zero : InRange 0 := ⟨by decide, by decide⟩

lemma inRange_toOff (x : ℤ) : InRange (toOff x) := by
  unfold InRange toOff
  rw [Int.bmod_def]
  omega

lemma Holds.new (hsize : e.size = 0) (hdata : e.data = kzallocBuffer granted) : Holds e [] := by
  refine ⟨hsize, by rw [hsize]; exact Nat.zero_le _, fun _ => hsize, ?_⟩
  rw [hdata]
  cases granted <;> exact stored_nil

lemma Holds.truncate (h : Holds e log) (hsize : e.size = 0) : Holds e (.truncate :: log) :=
  ⟨hsize, h.inside, h.buffered, h.stored.truncate (h.size.symm.trans hsize)⟩

lemma Holds.write (h : Holds e log) (hdata : e.data.or (kzallocBuffer granted) = some data) (o : ℕ)
    (bytes : List UInt8) (hfits : o + bytes.length ≤ fat32BufferSize) :
    Holds { e with data := some (data.put o bytes), size := max e.size (o + bytes.length) }
      (.write o bytes :: log) := by
  have hold : e.data.getD (fun _ => 0) = data := by
    cases hnull : e.data with
    | some d =>
      rw [hnull, some_or, some.injEq] at hdata
      exact hdata
    | none =>
      rw [hnull, none_or] at hdata
      cases granted with
      | false => exact nomatch hdata
      | true => exact some.inj hdata
  refine ⟨?_, max_le h.inside hfits, nofun, ?_⟩
  · show max e.size _ = max log.extent _
    rw [h.size]
  · have hput := h.stored.put o bytes
    rwa [hold] at hput

/-! ## Reading and writing -/

/-- **`fat32_vfs_read` delivers what was written last**, and nothing at a negative offset. -/
lemma fat32VfsRead_eq (node : ℕ) (hmissing : s.file (s.vfs.entries node).name = none → log = [])
    (hholds : ∀ e ∈ s.file (s.vfs.entries node).name, Holds e log) (ho : InRange o) (size : ℕ) :
    s.fat32VfsRead node o size = some (((log.read o size).length : ℤ), log.read o size) := by
  obtain ⟨hlo, hhi⟩ := ho
  unfold fat32VfsRead
  split_ifs with hsize
  · rw [read_eq_nil (.inl hsize)]
    rfl
  cases hfile : s.file (s.vfs.entries node).name with
  | none =>
    rw [hmissing hfile, read_eq_nil (by simp [extent]; omega)]
    rfl
  | some e =>
    have hold := hholds e hfile
    have hext := hold.size
    have hin : e.size ≤ 4096 := hold.inside
    dsimp only
    by_cases hend : e.size ≤ toSize o
    · have hbehind : o < 0 ∨ log.extent ≤ o := by
        by_cases hneg : o < 0
        · exact .inl hneg
        · rw [toSize_of_lt (by omega) (by omega)] at hend
          omega
      rw [if_pos hend, read_eq_nil (.inr hbehind)]
      rfl
    · have hpos : 0 ≤ o := by
        by_contra hneg
        unfold toSize at hend
        omega
      rw [toSize_of_lt hpos (by omega)] at hend ⊢
      have hmin : (if size < e.size - o.toNat then size else e.size - o.toNat) =
          min size (log.extent - o.toNat) := by
        split_ifs <;> omega
      cases hdata : e.data with
      | none =>
        have := hold.buffered hdata
        omega
      | some data =>
        have hstored := hold.stored
        rw [hdata, getD_some] at hstored
        rw [if_neg hend]
        dsimp only
        have hfits : o + (min size (log.extent - o.toNat) : ℕ) ≤ fat32BufferSize := by
          show _ ≤ 4096
          omega
        rw [hmin, if_pos ⟨hpos, hfits⟩, toOff_of_lt (by omega) (by omega),
          read_of_stored hstored hpos, length_bytes]

/-- The entry after a write at `o` into `data`. -/
def written (e : Fat32Entry) (data : ByteMemory) (o : ℕ) (buffer : List UInt8) : Fat32Entry :=
  { e with data := some (data.put o buffer), size := max e.size (o + buffer.length) }

/-- **`fat32_vfs_write` inside the buffer** writes all bytes. -/
lemma fat32VfsWrite_eq (hfile : s.file (s.vfs.entries node).name = some e)
    (hdata : e.data.or (kzallocBuffer granted) = some data) (ho : 0 ≤ o) {buffer : List UInt8}
    (hbuf : buffer ≠ []) (hfits : o + buffer.length ≤ fat32BufferSize) :
    ∃ write length, (∀ e', (write e').name = e'.name) ∧ write e = written e data o.toNat buffer ∧
      s.fat32VfsWrite node o buffer granted =
        some (⟨modify (s.vfs.entries node).name write s.files,
          s.vfs.setEntry node { s.vfs.entries node with length }⟩, (buffer.length : ℤ)) := by
  have hmax : fat32BufferSize = 4096 := rfl
  have hsize : min (toSize (o + buffer.length)) fat32BufferSize = o.toNat + buffer.length := by
    rw [toSize_of_lt (by omega) (by omega), min_eq_left (by omega)]
    omega
  unfold fat32VfsWrite
  rw [if_neg hbuf, hfile]
  dsimp only
  rw [hdata]
  dsimp only
  rw [if_pos ⟨ho, hfits⟩, hsize, toOff_of_lt (by omega) (by omega)]
  refine ⟨fun e' => { e' with
    data := some (data.put o.toNat buffer), size := max e.size (o.toNat + buffer.length) },
    _, fun _ => rfl, rfl, rfl⟩

/-! ## Steps that keep the files -/

namespace Coherent

section

variable (h : Coherent w)
include h

attribute [local simp] Watched.setOpened Watched.record

lemma setFd (i : Fin maxOpenFiles) (d : FileDescriptor)
    (hlt : ∀ k ∈ d.node, k < w.fs.vfs.next) (hx : InRange d.offset) :
    Coherent ({ w with fs := { w.fs with vfs := w.fs.vfs.setFd i d } }.setOpened i
      (d.node.map fun k => (w.fs.vfs.entries k).name)) := by
  refine ⟨h.cwd, fun j k hk => ?_, fun j => ?_, fun j => ?_, h.missing, h.holds⟩ <;>
    by_cases hj : j = i
  · subst hj
    exact hlt k (by simpa using hk)
  · exact h.nodes j k (by simpa [hj] using hk)
  · subst hj
    simp
  · simpa [hj] using h.opened j
  · subst hj
    simpa using hx
  · simpa [hj] using h.offsets j

lemma moveTo (i : Fin maxOpenFiles) (hx : InRange x) :
    Coherent { w with fs := { w.fs with vfs := w.fs.vfs.moveTo i x } } := by
  have hset := h.setFd i { w.fs.vfs.fds i with offset := x } (h.nodes i) hx
  rwa [← h.opened i, Watched.setOpened, Function.update_eq_self] at hset

lemma setLength (node length : ℕ) :
    Coherent { w with fs := { w.fs with
      vfs := w.fs.vfs.setEntry node { w.fs.vfs.entries node with length } } } := by
  have hname : ∀ k, ((w.fs.vfs.setEntry node
      { w.fs.vfs.entries node with length }).entries k).name = (w.fs.vfs.entries k).name := by
    intro k
    by_cases hk : k = node
    · subst hk
      simp
    · simp [hk]
  refine ⟨h.cwd, h.nodes, fun j => ?_, h.offsets, h.missing, h.holds⟩
  simp only [hname]
  exact h.opened j

lemma grown {fs : Fat32} (hgrown : w.fs.Grown fs) : Coherent { w with fs } := by
  have hnext := hgrown.next
  refine ⟨?_, fun j k hk => ?_, fun j => ?_, fun j => ?_, fun name hnone => ?_, fun name e he => ?_⟩
  · rw [hgrown.cwd]
    exact h.cwd
  · rw [hgrown.fds] at hk
    exact (h.nodes j k hk).trans_le hnext
  · rw [hgrown.fds, h.opened j]
    refine map_congr fun k hk => ?_
    rw [hgrown.entries k (h.nodes j k hk)]
  · rw [hgrown.fds]
    exact h.offsets j
  · rcases hgrown.file name with hsame | ⟨hmissing, -⟩
    · exact h.missing name (hsame.symm.trans hnone)
    · exact h.missing name hmissing
  · rcases hgrown.file name with hsame | ⟨hmissing, e', he', hsize, granted, hdata⟩
    · exact h.holds name e (hsame.symm.trans he)
    · obtain rfl : e = e' := mem_unique he he'
      rw [h.missing name hmissing]
      exact .new hsize hdata

lemma truncate (hfile : w.fs.file name = some e) (hsize : e.size = 0) :
    Coherent (w.record name .truncate) := by
  refine ⟨h.cwd, h.nodes, h.opened, h.offsets, fun name' hnone => ?_, fun name' e' he' => ?_⟩ <;>
    by_cases hn : name' = name
  · subst hn
    exact absurd (hfile.symm.trans hnone) (by simp)
  · simpa [hn] using h.missing name' hnone
  · subst hn
    obtain rfl : e' = e := mem_unique he' hfile
    simpa using (h.holds name' e' hfile).truncate hsize
  · simpa [hn] using h.holds name' e' he'

lemma write (hfile : w.fs.file name = some e) {f : Fat32Entry → Fat32Entry}
    (hf : ∀ e', (f e').name = e'.name) {c : Change} (hold : Holds (f e) (c :: w.log name)) :
    Coherent ({ w with fs := { w.fs with files := modify name f w.fs.files } }.record name c) := by
  have hfiles : ∀ name', file ⟨modify name f w.fs.files, w.fs.vfs⟩ name' =
      if name' = name then (w.fs.file name').map f else w.fs.file name' :=
    fun name' => find?_modify hf name name' w.fs.files
  refine ⟨h.cwd, h.nodes, h.opened, h.offsets, fun name' hnone => ?_, fun name' e' he' => ?_⟩ <;>
    by_cases hn : name' = name
  · subst hn
    have hnone' := (hfiles name').symm.trans hnone
    rw [if_pos rfl, hfile] at hnone'
    exact nomatch hnone'
  · have hnone' := (hfiles name').symm.trans hnone
    rw [if_neg hn] at hnone'
    simpa [hn] using h.missing name' hnone'
  · subst hn
    have he'' := (hfiles name').symm.trans he'
    rw [if_pos rfl, hfile, map_some, some.injEq] at he''
    subst he''
    simpa using hold
  · have he'' := (hfiles name').symm.trans he'
    rw [if_neg hn] at he''
    simpa [hn] using h.holds name' e' he''

end

end Coherent

/-! ## Calls -/

lemma place_val (i : Fin maxOpenFiles) : place (i.val : ℤ) = some i := by
  unfold place
  simp

lemma descriptor_eq (vfs : Vfs) (fd : ℤ) :
    vfs.descriptor fd = (place fd).bind fun i => (vfs.fds i).node.map fun node => (i, node) := by
  unfold descriptor place
  split_ifs <;> rfl

lemma Coherent.closed (h : Coherent w) (hd : w.fs.vfs.descriptor fd = none)
    (hi : place fd = some i) :
    w.opened i = none := by
  rw [descriptor_eq, hi, bind_some, map_eq_none_iff] at hd
  rw [h.opened i, hd]
  rfl

lemma Coherent.open_eq (h : Coherent w) (hd : w.fs.vfs.descriptor fd = some (i, node)) :
    place fd = some i ∧ w.opened i = some (w.fs.vfs.entries node).name := by
  rw [descriptor_eq, bind_eq_some_iff] at hd
  obtain ⟨j, hj, hnode⟩ := hd
  obtain ⟨k, hk, heq⟩ := map_eq_some_iff.1 hnode
  obtain ⟨rfl, rfl⟩ := Prod.mk.inj heq
  refine ⟨hj, ?_⟩
  rw [h.opened, hk]
  rfl

lemma lseek_spec (h : Coherent w) (fd : ℤ) (offset : Int64) (whence : ℤ) :
    Meets w (.vfsLseek fd offset whence) ∧ Coherent (w.step (.vfsLseek fd offset whence)) := by
  refine ⟨⟨_, _, rfl, trivial⟩, ?_⟩
  show Coherent { w with fs := { w.fs with vfs := (w.fs.vfs.vfsLseek fd offset.toInt whence).1 } }
  unfold vfsLseek
  cases w.fs.vfs.descriptor fd with
  | none => exact h
  | some d =>
    have hset : InRange offset.toInt := ⟨offset.le_toInt, offset.toInt_lt⟩
    split_ifs
    · exact h.moveTo d.1 hset
    · exact h.moveTo d.1 (inRange_toOff _)
    · exact h.moveTo d.1 (inRange_toOff _)
    · exact h

lemma close_spec (h : Coherent w) (fd : ℤ) :
    Meets w (.vfsClose fd) ∧ Coherent (w.step (.vfsClose fd)) := by
  refine ⟨⟨_, _, rfl, trivial⟩, ?_⟩
  show Coherent (w.note { w.fs with vfs := (w.fs.vfs.vfsClose fd).1 } ⟨(w.fs.vfs.vfsClose fd).2, []⟩
    (.vfsClose fd))
  unfold vfsClose Watched.note
  cases hd : w.fs.vfs.descriptor fd with
  | none =>
    dsimp only
    cases place fd with
    | none => exact h
    | some i =>
      dsimp only
      exact h
  | some d =>
    obtain ⟨hplace, -⟩ := h.open_eq hd
    dsimp only
    rw [hplace]
    exact h.setFd d.1 ⟨none, 0, 0⟩ (fun _ hk => nomatch hk) inRange_zero

lemma step_of_call {c : Call} {fs : Fat32} {r : Reply} (hcall : w.fs.call c = some (fs, r)) :
    w.step c = w.note fs r c := by
  unfold Watched.step
  rw [hcall]

lemma read_spec (h : Coherent w) (fd : ℤ) (size : UInt64) :
    Meets w (.vfsRead fd size) ∧ Coherent (w.step (.vfsRead fd size)) := by
  cases hd : w.fs.vfs.descriptor fd with
  | none =>
    have hcall : w.fs.call (.vfsRead fd size) = some (w.fs, ⟨-1, []⟩) := by
      simp only [call, vfsRead, hd, map_some]
    rw [step_of_call hcall]
    refine ⟨⟨_, _, hcall, fun i hi name hname => ?_⟩, h⟩
    rw [h.closed hd hi] at hname
    exact nomatch hname
  | some d =>
    obtain ⟨i, node⟩ := d
    obtain ⟨hplace, hopened⟩ := h.open_eq hd
    have hread := fat32VfsRead_eq node (h.missing _) (h.holds _) (h.offsets i) size.toNat
    set got := (w.log (w.fs.vfs.entries node).name).read (w.fs.vfs.fds i).offset size.toNat
    have hcall : w.fs.call (.vfsRead fd size) = some (if 0 < (got.length : ℤ) then
        { w.fs with vfs := w.fs.vfs.moveTo i (toOff ((w.fs.vfs.fds i).offset + got.length)) }
        else w.fs, ⟨got.length, got⟩) := by
      simp only [call, vfsRead, hd, hread, map_some]
    rw [step_of_call hcall]
    refine ⟨⟨_, _, hcall, fun j hj name hname => ?_⟩, ?_⟩
    · obtain rfl := mem_unique hplace hj
      rw [hopened, mem_some_iff] at hname
      subst hname
      exact ⟨rfl, rfl⟩
    · split_ifs
      · exact h.moveTo i (inRange_toOff _)
      · exact h

lemma fat32VfsWrite_nothing {buffer : List UInt8}
    (hnothing : buffer = [] ∨ s.file (s.vfs.entries node).name = none) :
    s.fat32VfsWrite node o buffer granted = some (s, 0) := by
  unfold fat32VfsWrite
  by_cases hbuf : buffer = []
  · rw [if_pos hbuf]
  · rw [if_neg hbuf, hnothing.resolve_left hbuf]

lemma write_spec (h : Coherent w) (fd : ℤ) (buf : ByteMemory) (size : UInt64) (granted : Bool)
    (hcareful : Careful w (.vfsWrite fd buf size granted)) :
    Meets w (.vfsWrite fd buf size granted) ∧
      Coherent (w.step (.vfsWrite fd buf size granted)) := by
  have hlength : (buf.bytes 0 size.toNat).length = size.toNat := length_bytes _ _ _
  cases hd : w.fs.vfs.descriptor fd with
  | none =>
    have hcall : w.fs.call (.vfsWrite fd buf size granted) = some (w.fs, ⟨-1, []⟩) := by
      simp only [call, vfsWrite, hd, map_some]
    rw [step_of_call hcall]
    refine ⟨⟨_, _, hcall, trivial⟩, ?_⟩
    dsimp only [Watched.note]
    cases hplace : place fd with
    | none => exact h
    | some i =>
      dsimp only
      rw [h.closed hd hplace]
      exact h
  | some d =>
    obtain ⟨i, node⟩ := d
    obtain ⟨hplace, hopened⟩ := h.open_eq hd
    by_cases hnothing : buf.bytes 0 size.toNat = [] ∨ w.fs.file (w.fs.vfs.entries node).name = none
    · have hcall : w.fs.call (.vfsWrite fd buf size granted) = some (w.fs, ⟨0, []⟩) := by
        simp only [call, vfsWrite, hd, fat32VfsWrite_nothing hnothing, map_some, lt_irrefl,
          if_false]
      rw [step_of_call hcall]
      refine ⟨⟨_, _, hcall, trivial⟩, ?_⟩
      dsimp only [Watched.note]
      rw [hplace]
      dsimp only
      rw [hopened]
      exact h
    · obtain ⟨hbuf, hsome⟩ := not_or.1 hnothing
      obtain ⟨e, hfile⟩ := ne_none_iff_exists'.1 hsome
      have hpos : 0 < size.toNat := by
        rw [← hlength]
        exact List.length_pos_of_ne_nil hbuf
      have hsize : size ≠ 0 := by
        rintro rfl
        exact absurd hpos (by decide)
      obtain ⟨hbuffer, ho, hfits⟩ := hcareful (i, node) hd e hfile hsize
      dsimp only at ho hfits
      obtain ⟨data, hdata⟩ : ∃ data, e.data.or (kzallocBuffer granted) = some data := by
        cases hnull : e.data with
        | some data => exact ⟨data, rfl⟩
        | none =>
          rw [hnull] at hbuffer
          rw [hbuffer.resolve_left (by simp)]
          exact ⟨_, rfl⟩
      obtain ⟨write, length, hname, hwritten, hwrite⟩ := fat32VfsWrite_eq hfile hdata ho hbuf
        (by rwa [hlength])
      rw [hlength] at hwrite
      have hcall : w.fs.call (.vfsWrite fd buf size granted) =
          some (⟨modify (w.fs.vfs.entries node).name write w.fs.files,
            (w.fs.vfs.setEntry node { w.fs.vfs.entries node with length }).moveTo i
              (toOff ((w.fs.vfs.fds i).offset + size.toNat))⟩, ⟨size.toNat, []⟩) := by
        have hret : (0 : ℤ) < size.toNat := by omega
        simp only [call, vfsWrite, hd, hwrite, map_some, if_pos hret, setEntry_fds]
      rw [step_of_call hcall]
      refine ⟨⟨_, _, hcall, trivial⟩, ?_⟩
      have hold := (h.holds _ e hfile).write hdata (w.fs.vfs.fds i).offset.toNat
        (buf.bytes 0 size.toNat) (by omega)
      have hret : (0 : ℤ) < size.toNat := by omega
      dsimp only [Watched.note]
      rw [hplace]
      dsimp only
      rw [hopened]
      dsimp only
      rw [if_pos hret]
      have hwrote := h.write hfile hname (by rw [hwritten]; exact hold)
      exact (hwrote.setLength node length).moveTo i (inRange_toOff _)

/-! ## Opening -/

lemma named_eq_some {cwd path : Name} (h : named cwd path = some name) :
    ∃ abs names, vfsResolvePath cwd path = some abs ∧ belowMount abs = some names ∧
      name ∈ names.getLast? := by
  unfold named at h
  rw [bind_eq_some_iff] at h
  obtain ⟨names, hnames, hlast⟩ := h
  rw [bind_eq_some_iff] at hnames
  obtain ⟨abs, habs, hbelow⟩ := hnames
  exact ⟨abs, names, habs, hbelow, hlast⟩

/-- The end of `vfs_open`: the length of the node is 0 or what it was, and the node gets a
descriptor if there is one. -/
lemma openNode_eq (vfs : Vfs) (node : ℕ) (flags : UInt32) :
    ∃ length x, InRange x ∧ vfs.openNode node flags =
      let vfs' := vfs.setEntry node { vfs.entries node with length }
      match vfs.freeFd with
      | none => (vfs', -1)
      | some i => (vfs'.setFd i ⟨some node, x, flags⟩, i.val) := by
  have hlength : ∃ length, vfs.truncated node flags =
      vfs.setEntry node { vfs.entries node with length } := by
    unfold truncated
    split_ifs
    · exact ⟨0, rfl⟩
    · exact ⟨(vfs.entries node).length, (setEntry_self vfs node).symm⟩
  obtain ⟨length, hlength⟩ := hlength
  unfold openNode
  rw [hlength]
  have hfree : (vfs.setEntry node { vfs.entries node with length }).freeFd = vfs.freeFd := rfl
  dsimp only
  rw [hfree]
  cases vfs.freeFd with
  | none => exact ⟨length, 0, inRange_zero, rfl⟩
  | some i =>
    refine ⟨length, _, ?_, rfl⟩
    split_ifs
    · exact inRange_toOff _
    · exact inRange_zero

lemma open_spec (h : Coherent w) (path : Name) (flags : UInt32) (grants : List Bool)
    (hon : OnMount w (.vfsOpen path flags grants))
    (hcareful : Careful w (.vfsOpen path flags grants)) :
    Meets w (.vfsOpen path flags grants) ∧ Coherent (w.step (.vfsOpen path flags grants)) := by
  obtain ⟨name, hnamed⟩ := isSome_iff_exists.1 hon
  obtain ⟨abs, names, hres, hbelow, hlast⟩ := named_eq_some hnamed
  obtain ⟨hgrown, hfound⟩ := findOrCreate_spec (exists_resolved h.cwd hres) hbelow hlast w.fs flags
    grants
  cases hnode : w.fs.findOrCreate abs flags grants with
  | mk fs node =>
  rw [hnode] at hgrown hfound
  have hcoh := h.grown hgrown
  cases node with
  | none =>
    have hcall : w.fs.call (.vfsOpen path flags grants) = some (fs, ⟨-1, []⟩) := by
      simp only [call, vfsOpen, hres, hnode, map_some]
    rw [step_of_call hcall]
    exact ⟨⟨_, _, hcall, fun _ hret => absurd hret (by decide)⟩, hcoh⟩
  | some node =>
    obtain ⟨⟨hlt, hname, e, hfile⟩, hgrant⟩ := hfound node rfl
    obtain ⟨length, x, hx, hopen⟩ := openNode_eq fs.vfs node flags
    have hfree : fs.vfs.freeFd = w.fs.vfs.freeFd := by
      unfold freeFd
      rw [hgrown.fds]
    have hset := hcoh.setLength node length
    cases hfd : fs.vfs.freeFd with
    | none =>
      rw [hfd] at hopen
      have hcall : w.fs.call (.vfsOpen path flags grants) = some ({ fs with
          vfs := fs.vfs.setEntry node { fs.vfs.entries node with length } }, ⟨-1, []⟩) := by
        simp only [call, vfsOpen, hres, hnode, hopen, map_some]
      rw [step_of_call hcall]
      exact ⟨⟨_, _, hcall, fun _ hret => absurd hret (by decide)⟩, hset⟩
    | some i =>
      rw [hfd] at hopen
      have hcall : w.fs.call (.vfsOpen path flags grants) = some ({ fs with
          vfs := (fs.vfs.setEntry node { fs.vfs.entries node with length }).setFd i
            ⟨some node, x, flags⟩ }, ⟨i.val, []⟩) := by
        simp only [call, vfsOpen, hres, hnode, hopen, map_some]
      -- the file is empty: it was so before, or it is new
      have hempty : flags &&& oTrunc ≠ 0 → e.size = 0 := by
        intro htrunc
        rcases hgrown.file name with hsame | ⟨-, e', he', hsize, -⟩
        · have hbefore : w.fs.file name = some e := hsame.symm.trans hfile
          rcases hcareful htrunc name hnamed e hbefore with hsize | hnone | hno
          · exact hsize
          · rw [← hfree, hfd] at hnone
            exact nomatch hnone
          · exact absurd hgrant hno
        · obtain rfl : e = e' := some.inj (hfile.symm.trans he')
          exact hsize
      have hname' : ((fs.vfs.setEntry node { fs.vfs.entries node with length }).entries node).name =
          name := by simpa using hname
      have hnext := hset.setFd i ⟨some node, x, flags⟩ (by simpa using hlt) hx
      rw [map_some, hname'] at hnext
      rw [step_of_call hcall]
      refine ⟨⟨_, _, hcall, fun htrunc _ name' hname' => ⟨e, ?_, hempty htrunc⟩⟩, ?_⟩
      · obtain rfl := mem_unique hnamed hname'
        exact hfile
      · dsimp only [Watched.note]
        rw [place_val, hnamed]
        split_ifs with htrunc
        · exact hnext.truncate hfile (hempty htrunc)
        · exact hnext

/-! ## Runs -/

lemma step_spec (h : Coherent w) {c : Call} (hon : OnMount w c) (hcareful : Careful w c) :
    Meets w c ∧ Coherent (w.step c) := by
  cases c with
  | vfsOpen path flags grants => exact open_spec h path flags grants hon hcareful
  | vfsLseek fd offset whence => exact lseek_spec h fd offset whence
  | vfsRead fd size => exact read_spec h fd size
  | vfsWrite fd buf size granted => exact write_spec h fd buf size granted hcareful
  | vfsClose fd => exact close_spec h fd

lemma holds_seedLog (hdata : e.data = some data) (hin : e.size ≤ fat32BufferSize)
    (hzero : ∀ p, e.size ≤ p → data p = 0) : Holds e (seedLog e) := by
  have hlength : ((e.data.getD fun _ => 0).bytes 0 e.size).length = e.size :=
    length_bytes _ _ _
  refine ⟨?_, hin, fun hnull => absurd (hnull.symm.trans hdata) (by simp), fun p => ?_⟩
  · simp [seedLog, extent, hlength]
  · unfold seedLog latest
    rw [hlength, hdata, getD_some]
    by_cases hp : p < e.size
    · rw [if_pos ⟨Nat.zero_le p, by omega⟩]
      simp [bytes, hp]
    · rw [if_neg (by omega), hzero p (by omega)]
      rfl

lemma coherent_boot {cwd : Name} (hcwd : ∃ st, Resolved st ∧ cwd = joinPath st) :
    Coherent (boot cwd) := by
  refine ⟨hcwd, nofun, fun _ => rfl, fun _ => inRange_zero, fun name hnone => ?_,
    fun name e he => ?_⟩
  · show ((fat32Init cwd).file name).elim [] seedLog = []
    rw [show (fat32Init cwd).file name = none from hnone]
    rfl
  · have hlog : (boot cwd).log name = seedLog e := by
      show ((fat32Init cwd).file name).elim [] seedLog = seedLog e
      rw [show (fat32Init cwd).file name = some e from he]
      rfl
    have hmem : e ∈ (fat32Init cwd).files := List.mem_of_find?_eq_some he
    rw [hlog]
    rcases List.mem_pair.1 hmem with rfl | rfl <;>
    · refine holds_seedLog rfl (by decide) fun p hp => ?_
      unfold put
      rw [if_neg]
      exact fun hin => absurd (hp.trans_lt hin.2) (by decide)

/-- **In every run of careful calls on files of the mount, every call does what it should**: no
access falls outside the buffer of a file, a read delivers the bytes most recently written since the
last truncation, and a file opened with `O_TRUNC` is empty. -/
theorem meets_of_careful {cwd : Name} (hcwd : ∃ st, Resolved st ∧ cwd = joinPath st)
    (cs : List Call) (hon : Along Watched.step OnMount (boot cwd) cs)
    (hcareful : Along Watched.step Careful (boot cwd) cs) :
    Along Watched.step Meets (boot cwd) cs := by
  have hstep : ∀ w c, Coherent w → OnMount w c ∧ Careful w c → Meets w c ∧ Coherent (w.step c) :=
    fun w c h hc => step_spec h hc.1 hc.2
  exact along_of_along hstep (coherent_boot hcwd) (hon.and hcareful)

/-! ## Runs on a small volume -/

lemma resolved_root : ∃ st, Resolved st ∧ [slash] = joinPath st :=
  ⟨[], ⟨nofun, by decide, by decide⟩, rfl⟩

/-- A file is made, written, and read from its second byte on. -/
def newFile : List Call :=
  [.vfsOpen (ascii "/mnt/fat32/NEW.TXT") (Vfs.oCreat ||| Vfs.oTrunc) [true, true],
    .vfsWrite 3 (fun k => UInt8.ofNat (0x61 + k)) 3 true, .vfsLseek 3 1 0, .vfsRead 3 10]

/-- The calls on a new file are careful, and do what they should. -/
theorem meets_of_careful_newFile :
    Along Watched.step OnMount (boot [slash]) newFile ∧
    Along Watched.step Careful (boot [slash]) newFile ∧
    Along Watched.step Meets (boot [slash]) newFile := by
  have hon : Along .step OnMount (boot [slash]) newFile := by decide +kernel
  have hcareful : Along .step Careful (boot [slash]) newFile := by decide +kernel
  exact ⟨hon, hcareful, meets_of_careful resolved_root newFile hon hcareful⟩

/-- `README.TXT` is opened with `O_TRUNC`. -/
def truncateReadme : Call := .vfsOpen (ascii "/mnt/fat32/README.TXT") Vfs.oTrunc [true]

/-- `README.TXT` is opened, and the offset set six bytes before the end of the buffer. -/
def nearTheEnd : List Call :=
  [.vfsOpen (ascii "/mnt/fat32/README.TXT") 0 [true], .vfsLseek 3 4090 0]

/-- **A file is not empty after `O_TRUNC`**: it is opened as descriptor 3, and a read delivers what
it held before. And a write of ten bytes at 4090 leaves the buffer. -/
theorem not_truncated :
    Along Watched.step OnMount (boot [slash]) [truncateReadme, .vfsRead 3 6] ∧
    ¬ Along Watched.step Meets (boot [slash]) [truncateReadme, .vfsRead 3 6] ∧
    (((boot [slash]).step truncateReadme).fs.call (.vfsRead 3 6)).map Prod.snd =
      some ⟨6, ascii "SUB-OS"⟩ ∧
    ¬ Meets (run Watched.step (boot [slash]) nearTheEnd) (.vfsWrite 3 (fun _ => 0x61) 10 true) := by
  have hopen : ((boot [slash]).fs.call truncateReadme).any (fun r => decide (0 ≤ r.2.ret ∧
      ∀ e ∈ r.1.file (ascii "README.TXT"), e.size ≠ 0)) = true := by decide +kernel
  have hout : ((run .step (boot [slash]) nearTheEnd).fs.call
      (.vfsWrite 3 (fun _ => 0x61) 10 true)).isNone = true := by decide +kernel
  refine ⟨by decide +kernel, ?_, by decide +kernel, ?_⟩
  · rintro ⟨⟨fs, r, hcall, hempty⟩, -⟩
    rw [hcall, any_some, decide_eq_true_iff] at hopen
    obtain ⟨e, hfile, hsize⟩ := hempty (by decide) hopen.1 (ascii "README.TXT") (by decide +kernel)
    exact hopen.2 e hfile hsize
  · rintro ⟨fs, r, hcall, -⟩
    rw [hcall] at hout
    exact nomatch hout

end Fat32

end SubOS.Fs
