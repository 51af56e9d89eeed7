import SubOS.Fs.FileRuns
import SubOS.IoUring.Ring

set_option autoImplicit false

/-!
# Positional access

The read and write entries of io_uring over a RAM file. An entry has an offset of its own, and
`io_uring_submit` moves the descriptor there first, unless the offset is 0.

## Main definitions

* `positional`, `Placed` — the access that is meant; the descriptor gets to the offset.

## Main results

* `positional_run`, `second_read_differs` — placed entries are positional accesses, others are not.

## Design

`Option Machine` is the state, where `none` stands for an access outside the buffer of a file. What
`kmalloc` has to offer to the writes that follow is part of the machine.
-/

namespace SubOS.IoUring

open Fs Vfs Int32 Option

/-! ## The file system under the ring -/

/-- The file system, the memory from which entries write and to which they read, and what `kmalloc`
has to offer to the next writes. -/
structure Machine where
  vfs : Vfs
  mem : ByteMemory
  offers : ℕ → Option ByteMemory

namespace Machine

/-- `vfs_read` into the memory. -/
def read (m : Machine) (fd : Int32) (addr : UInt64) (len : UInt32) : Option (Machine × ℤ) :=
  (m.vfs.vfsRead fd.toInt len.toNat).map fun r =>
    ({ m with vfs := r.1, mem := m.mem.put addr.toNat r.2.2 }, r.2.1)

/-- `vfs_write` from the memory. -/
def write (m : Machine) (fd : Int32) (addr : UInt64) (len : UInt32) : Option (Machine × ℤ) :=
  (m.vfs.vfsWrite fd.toInt (m.mem.bytes addr.toNat len.toNat) (m.offers 0)).map fun r =>
    ({ m with vfs := r.1, offers := fun k => m.offers (k + 1) }, r.2)

/-- `vfs_lseek` with `SEEK_SET`. -/
def lseek (m : Machine) (fd : Int32) (offset : Int64) : Machine :=
  { m with vfs := (m.vfs.vfsLseek fd.toInt offset.toInt 0).1 }

/-- `vfs_close`. -/
def close (m : Machine) (fd : Int32) : Machine × ℤ :=
  let r := m.vfs.vfsClose fd.toInt
  ({ m with vfs := r.1 }, r.2)

end Machine

/-- A call that may leave the buffer of a file. -/
def attempt (s : Option Machine) (call : Machine → Option (Machine × ℤ)) : Option Machine × ℤ :=
  match s.bind call with
  | none => (none, 0)
  | some r => (some r.1, r.2)

/-- The calls of `vfs.c` on a machine. -/
def fileOps : VfsOps (Option Machine) where
  lseek s fd offset := s.map fun m => m.lseek fd offset
  read s fd addr len := attempt s fun m => m.read fd addr len
  write s fd addr len := attempt s fun m => m.write fd addr len
  close s fd := attempt s fun m => some (m.close fd)

def step (s : Option Machine) (sqe : Sqe) : Option Machine := (perform fileOps s sqe).1

/-! ## Positional access -/

def isRead (sqe : Sqe) : Bool := sqe.opcode == opReadv || sqe.opcode == opReadFixed

def isWrite (sqe : Sqe) : Bool := sqe.opcode == opWritev || sqe.opcode == opWriteFixed

/-- The access of an entry at its own offset: the array, the memory and the result. `room` says
whether a write can be performed. -/
def positional (bytes : List UInt8) (mem : ByteMemory) (room : Bool) (sqe : Sqe) :
    List UInt8 × ByteMemory × Int32 :=
  if sqe.addr = 0 ∨ sqe.len = 0 then (bytes, mem, -1)
  else if isRead sqe then
    let got := (bytes.drop sqe.off.toNat).take sqe.len.toNat
    (bytes, mem.put sqe.addr.toNat got, Int32.ofInt got.length)
  else if room then
    (splice bytes sqe.off.toNat (mem.bytes sqe.addr.toNat sqe.len.toNat), mem,
      Int32.ofInt sqe.len.toNat)
  else (bytes, mem, -1)

/-- A write of the entry can be performed. -/
def roomAt (f : ℕ) (m : Machine) (sqe : Sqe) : Bool :=
  (m.vfs.entries f).hasRoom (sqe.off.toNat + sqe.len.toNat) (m.offers 0)

/-- The entry stays inside the buffer, and its effect and its result are those of an access at its
offset. -/
def AtOffset (f : ℕ) (s : Option Machine) (sqe : Sqe) : Prop :=
  ∃ m m' res, s = some m ∧ perform fileOps s sqe = (some m', res) ∧
    ((m'.vfs.entries f).contents, m'.mem, res) =
      positional (m.vfs.entries f).contents m.mem (roomAt f m sqe) sqe

/-- A transfer has an offset that is not 0, or the descriptor stands at 0. A write that is performed
finds only zeros between the end of the file and its offset; the end of any other does not wrap
around, or there is no room for the wrapped end either. -/
def Placed (f : ℕ) (i : Fin maxOpenFiles) (s : Option Machine) (sqe : Sqe) : Prop :=
  ∀ m ∈ s, transfers sqe = true →
    (0 < sqe.off ∨ (m.vfs.fds i).offset = 0) ∧
    (isWrite sqe = true →
      if roomAt f m sqe then
        ∀ b ∈ (m.vfs.entries f).gap sqe.off.toNat (sqe.off.toNat + sqe.len.toNat) (m.offers 0),
          b = 0
      else sqe.off.toNat + sqe.len.toNat < 2 ^ 64 ∨
        (m.vfs.entries f).hasRoom (toSize (sqe.off.toNat + sqe.len.toNat)) (m.offers 0) = false)
  deriving Decidable

/-- The descriptor is open on the file, which is intact. -/
structure Ready (f : ℕ) (fd : Int32) (i : Fin maxOpenFiles) (m : Machine) : Prop where
  descriptor : m.vfs.descriptor fd.toInt = some (i, f)
  intact : (m.vfs.entries f).Intact

/-! ## Reading and writing at an offset -/

variable {e : RamfsEntry} {f : ℕ} {fd : Int32} {i : Fin maxOpenFiles} {m : Machine} {sqe : Sqe}

lemma toInt_toInt64 (off : UInt64) : off.toInt64.toInt = toOff off.toNat :=
  BitVec.toInt_eq_toNat_bmod off.toBitVec

lemma ramfsRead_at (h : e.Intact) (off : UInt64) (len : UInt32) :
    ramfsRead e (toOff off.toNat) len.toNat =
      some ((((e.contents.drop off.toNat).take len.toNat).length : ℤ),
        (e.contents.drop off.toNat).take len.toNat) := by
  have hoff := off.toNat_lt
  have hlen := len.toNat_lt
  have hcap := h.bounded
  have hin := h.inside
  by_cases hsmall : off.toNat < 2 ^ 63
  · rw [toOff_of_lt (by omega) (by omega), ramfsRead_eq h (by omega) (by omega) (by omega),
      if_neg (by omega), Int.toNat_natCast]
  · -- as an `off_t` the offset is negative, as a `size_t` it is behind the end
    have hnil : e.contents.drop off.toNat = [] :=
      List.drop_eq_nil_of_le (by rw [h.length_contents]; omega)
    have hsize : toSize (toOff off.toNat) = off.toNat := by
      unfold toSize toOff
      rw [Int.bmod_def]
      omega
    rw [hnil, List.take_nil]
    unfold ramfsRead
    cases e.data with
    | none => rfl
    | some data =>
      dsimp only
      rw [hsize, if_pos (by omega)]
      rfl

lemma ramfsWrite_at (h : e.Intact) {off : UInt64} {w : List UInt8} {mem : Option ByteMemory}
    (hplaced : if e.hasRoom (off.toNat + w.length) mem then
        ∀ b ∈ e.gap off.toNat (off.toNat + w.length) mem, b = 0
      else off.toNat + w.length < 2 ^ 64 ∨ e.hasRoom (toSize (off.toNat + w.length)) mem = false) :
    ∃ e', ramfsWrite e (toOff off.toNat) w mem =
        some (e', if e.hasRoom (off.toNat + w.length) mem then (w.length : ℤ) else -1) ∧ e'.Intact ∧
      e'.contents = if e.hasRoom (off.toNat + w.length) mem then splice e.contents off.toNat w
        else e.contents := by
  cases hroom : e.hasRoom (off.toNat + w.length) mem with
  | true =>
    rw [hroom, if_pos rfl] at hplaced
    have hlt := hasRoom_lt h hroom
    have hsum : ((off.toNat : ℤ) + w.length).toNat = off.toNat + w.length := by omega
    rw [toOff_of_lt (by omega) (by omega)]
    obtain ⟨e', hwrite, he', -, hcontents⟩ := ramfsWrite_eq_of_hasRoom h
      (o := off.toNat) (w := w) (by omega) (by omega) (by rw [hsum]; exact hroom)
    refine ⟨e', hwrite, he', ?_⟩
    rw [hcontents, hsum, Int.toNat_natCast, if_pos rfl]
    exact (splice_eq_iff h (by omega) hroom w).2 hplaced
  | false =>
    rw [hroom, if_neg Bool.false_ne_true] at hplaced
    have hsize : toSize (toOff off.toNat + w.length) = toSize (off.toNat + w.length) := by
      unfold toSize toOff
      rw [Int.bmod_def]
      omega
    refine ⟨e, ramfsWrite_eq_of_refused ?_, h, rfl⟩
    rw [hsize]
    rcases hplaced with hlt | hrefused
    · rw [toSize_of_lt (by omega) (by omega)]
      exact hroom
    · exact hrefused

/-! ## One entry -/

lemma perform_eq {σ : Type*} (ops : VfsOps σ) (s : σ) (h : isRead sqe = true ∨ isWrite sqe = true) :
    perform ops s sqe =
      if transfers sqe then
        let r := (if isRead sqe then ops.read else ops.write) (seekFirst ops s sqe) sqe.fd sqe.addr
          sqe.len
        (r.1, ofInt r.2)
      else (s, -1) := by
  have hread : isRead sqe = true ↔ sqe.opcode = opReadv ∨ sqe.opcode = opReadFixed := by
    simp [isRead]
  have hwrite : isWrite sqe = true ↔ sqe.opcode = opWritev ∨ sqe.opcode = opWriteFixed := by
    simp [isWrite]
  rw [hwrite] at h
  simp only [hread] at h ⊢
  have hnop : sqe.opcode ≠ opNop := by
    rcases h with (h | h) | h | h <;> rw [h] <;> decide
  unfold perform
  rw [if_neg hnop]
  by_cases hr : sqe.opcode = opReadv ∨ sqe.opcode = opReadFixed
  · simp only [if_pos hr]
  · simp only [if_neg hr, if_pos (h.resolve_left hr)]

lemma isRead_eq_false (h : isWrite sqe = true) : isRead sqe = false := by
  simp only [isWrite, Bool.or_eq_true, beq_iff_eq] at h
  unfold isRead
  rcases h with h | h <;> rw [h] <;> decide

lemma Ready.fd_nonneg (h : Ready f fd i m) : 0 ≤ fd := by
  have hd := h.descriptor
  unfold Vfs.descriptor at hd
  split_ifs at hd with hrange
  rw [le_iff_toInt_le]
  exact hrange.1

/-- On an open descriptor an entry transfers unless its buffer is missing or empty. -/
lemma Ready.transfers_iff (h : Ready f sqe.fd i m) :
    transfers sqe = true ↔ ¬ (sqe.addr = 0 ∨ sqe.len = 0) := by
  have hlen : 0 < sqe.len ↔ sqe.len ≠ 0 := UInt32.pos_iff_ne_zero
  simp only [transfers, h.fd_nonneg, decide_true, Bool.true_and, Bool.and_eq_true, bne_iff_ne,
    decide_eq_true_iff, hlen, not_or, ne_eq]

lemma descriptor_moveTo (v : Vfs) (j : Fin maxOpenFiles) (x n : ℤ) :
    (v.moveTo j x).descriptor n = v.descriptor n := by
  simp only [descriptor, moveTo_node]

lemma seekFirst_eq (h : Ready f sqe.fd i m) (hoff : 0 < sqe.off ∨ (m.vfs.fds i).offset = 0) :
    seekFirst fileOps (some m) sqe =
      some { m with vfs := m.vfs.moveTo i (toOff sqe.off.toNat) } := by
  unfold seekFirst
  by_cases hpos : 0 < sqe.off
  · have hseek : (m.vfs.vfsLseek sqe.fd.toInt sqe.off.toInt64.toInt 0).1 =
        m.vfs.moveTo i (toOff sqe.off.toNat) := by
      unfold vfsLseek
      rw [h.descriptor]
      dsimp only
      rw [if_pos rfl, toInt_toInt64]
    rw [if_pos hpos]
    show some (m.lseek sqe.fd sqe.off.toInt64) = _
    rw [Machine.lseek, hseek]
  · have hzero : sqe.off = 0 := by
      rw [UInt64.pos_iff_ne_zero] at hpos
      exact not_not.1 hpos
    have hsame : m.vfs.moveTo i (toOff sqe.off.toNat) = m.vfs := by
      have hstart : toOff ((0 : UInt64).toNat : ℤ) = 0 := by simp [toOff]
      rw [hzero, hstart, ← hoff.resolve_left hpos, moveTo_self]
    rw [if_neg hpos, hsame]

lemma Ready.moveTo (h : Ready f fd i m) (x : ℤ) : Ready f fd i { m with vfs := m.vfs.moveTo i x } :=
  ⟨(descriptor_moveTo _ _ _ _).trans h.descriptor, h.intact⟩

lemma read_at (h : Ready f sqe.fd i m) (hat : (m.vfs.fds i).offset = toOff sqe.off.toNat) :
    ∃ m', m.read sqe.fd sqe.addr sqe.len = some (m',
        ((((m.vfs.entries f).contents.drop sqe.off.toNat).take sqe.len.toNat).length : ℤ)) ∧
      Ready f sqe.fd i m' ∧ m'.vfs.entries = m.vfs.entries ∧
      m'.mem = m.mem.put sqe.addr.toNat
        (((m.vfs.entries f).contents.drop sqe.off.toNat).take sqe.len.toNat) := by
  have hread := ramfsRead_at h.intact sqe.off sqe.len
  rw [← hat] at hread
  unfold Machine.read vfsRead
  rw [h.descriptor]
  dsimp only
  rw [if_neg (by rw [h.intact.isFile]; exact Bool.false_ne_true), hread]
  refine ⟨_, rfl, ⟨?_, ?_⟩, ?_, rfl⟩
  · split_ifs
    · rw [descriptor_moveTo]
      exact h.descriptor
    · exact h.descriptor
  · split_ifs <;> exact h.intact
  · split_ifs <;> rfl

lemma write_at (h : Ready f sqe.fd i m) (hat : (m.vfs.fds i).offset = toOff sqe.off.toNat)
    (hplaced : if roomAt f m sqe then
        ∀ b ∈ (m.vfs.entries f).gap sqe.off.toNat (sqe.off.toNat + sqe.len.toNat) (m.offers 0),
          b = 0
      else sqe.off.toNat + sqe.len.toNat < 2 ^ 64 ∨
        (m.vfs.entries f).hasRoom (toSize (sqe.off.toNat + sqe.len.toNat)) (m.offers 0) = false) :
    ∃ m', m.write sqe.fd sqe.addr sqe.len =
        some (m', if roomAt f m sqe then (sqe.len.toNat : ℤ) else -1) ∧
      Ready f sqe.fd i m' ∧ m'.mem = m.mem ∧
      (m'.vfs.entries f).contents =
        if roomAt f m sqe then
          splice (m.vfs.entries f).contents sqe.off.toNat
            (m.mem.bytes sqe.addr.toNat sqe.len.toNat)
        else (m.vfs.entries f).contents := by
  have hwlen : (m.mem.bytes sqe.addr.toNat sqe.len.toNat).length = sqe.len.toNat :=
    ByteMemory.length_bytes _ _ _
  unfold roomAt at hplaced ⊢
  rw [← hwlen] at hplaced
  obtain ⟨e', hw, he', hcontents⟩ := ramfsWrite_at h.intact hplaced
  rw [hwlen, ← hat] at hw
  rw [hwlen] at hcontents
  unfold Machine.write vfsWrite
  rw [h.descriptor]
  dsimp only
  rw [if_neg (by rw [h.intact.isFile]; exact Bool.false_ne_true), hw]
  have hentry : ∀ v : Vfs, v.entries = (m.vfs.setEntry f e').entries → v.entries f = e' := by
    intro v hv
    rw [hv, setEntry_entries, Function.update_self]
  refine ⟨_, rfl, ⟨?_, ?_⟩, rfl, ?_⟩
  · split_ifs
    all_goals first
      | exact (descriptor_moveTo _ _ _ _).trans h.descriptor
      | exact h.descriptor
  · rw [hentry _ (by split_ifs <;> rfl)]
    exact he'
  · rw [hentry _ (by split_ifs <;> rfl)]
    exact hcontents

/-- What is to be shown of an entry: it is a positional access, and the descriptor stays open on the
file. -/
def Served (f : ℕ) (i : Fin maxOpenFiles) (m : Machine) (sqe : Sqe) : Prop :=
  ∃ m' res, perform fileOps (some m) sqe = (some m', res) ∧ Ready f sqe.fd i m' ∧
    ((m'.vfs.entries f).contents, m'.mem, res) =
      positional (m.vfs.entries f).contents m.mem (roomAt f m sqe) sqe

section

variable (h : Ready f sqe.fd i m)
include h

lemma served_of_not_transfers (hkind : isRead sqe = true ∨ isWrite sqe = true)
    (hnot : transfers sqe = false) : Served f i m sqe := by
  have hmissing : sqe.addr = 0 ∨ sqe.len = 0 := by
    by_contra hthere
    rw [h.transfers_iff.2 hthere] at hnot
    exact nomatch hnot
  have hperform : perform fileOps (some m) sqe = (some m, -1) := by
    rw [perform_eq _ _ hkind, hnot, if_neg Bool.false_ne_true]
  refine ⟨m, -1, hperform, h, ?_⟩
  rw [positional, if_pos hmissing]

lemma served_read (hr : isRead sqe = true) (htrans : transfers sqe = true)
    (hoff : 0 < sqe.off ∨ (m.vfs.fds i).offset = 0) : Served f i m sqe := by
  obtain ⟨m', hread, hready, hentries, hmem⟩ := read_at (h.moveTo (toOff sqe.off.toNat))
    (by simp [moveTo])
  refine ⟨m', ofInt (((m.vfs.entries f).contents.drop sqe.off.toNat).take
    sqe.len.toNat).length, ?_, hready, ?_⟩
  · rw [perform_eq _ _ (.inl hr), if_pos htrans, seekFirst_eq h hoff, if_pos hr]
    simp only [fileOps, attempt, bind_some, hread]
    rfl
  · rw [positional, if_neg (h.transfers_iff.1 htrans), if_pos hr, hentries, hmem]
    rfl

lemma served_write (hw : isWrite sqe = true) (htrans : transfers sqe = true)
    (hplaced : Placed f i (some m) sqe) : Served f i m sqe := by
  obtain ⟨hoff, hclear⟩ := hplaced m rfl htrans
  obtain ⟨m', hwrite, hready, hmem, hcontents⟩ := write_at (h.moveTo (toOff sqe.off.toNat))
    (by simp [moveTo]) (hclear hw)
  have hread : ¬ isRead sqe = true := by
    rw [isRead_eq_false hw]
    exact Bool.false_ne_true
  refine ⟨m', ofInt (if roomAt f m sqe then sqe.len.toNat else -1), ?_, hready, ?_⟩
  · rw [perform_eq _ _ (.inr hw), if_pos htrans, seekFirst_eq h hoff, if_neg hread]
    simp only [fileOps, attempt, bind_some, hwrite]
    rfl
  · rw [positional, if_neg (h.transfers_iff.1 htrans), if_neg hread, hcontents, hmem]
    have hroom : roomAt f { m with vfs := m.vfs.moveTo i (toOff sqe.off.toNat) } sqe =
        roomAt f m sqe := rfl
    rw [hroom]
    split_ifs <;> rfl

/-- **A placed entry is a positional access.** -/
theorem served_of_placed (hkind : isRead sqe = true ∨ isWrite sqe = true)
    (hplaced : Placed f i (some m) sqe) : Served f i m sqe := by
  cases htrans : transfers sqe with
  | false => exact served_of_not_transfers h hkind htrans
  | true =>
    rcases hkind with hr | hw
    · exact served_read h hr htrans (hplaced m rfl htrans).1
    · exact served_write h hw htrans hplaced

end

/-! ## Sequences of entries -/

/-- **Positional access.** Every entry of a sequence of reads and writes on one open file has the
effect and the result of an access at its own offset, if every entry is placed when its turn comes.
-/
theorem positional_run {sqes : List Sqe} (h : Ready f fd i m)
    (hsqes : ∀ sqe ∈ sqes, sqe.fd = fd ∧ (isRead sqe = true ∨ isWrite sqe = true))
    (hplaced : EventRun.Along step (Placed f i) (some m) sqes) :
    EventRun.Along step (AtOffset f) (some m) sqes := by
  induction sqes generalizing m with
  | nil => trivial
  | cons sqe sqes ih =>
    rw [List.forall_mem_cons] at hsqes
    obtain ⟨⟨rfl, hkind⟩, hrest⟩ := hsqes
    obtain ⟨m', res, hperform, hready, heq⟩ := served_of_placed h hkind hplaced.1
    have hstep : step (some m) sqe = some m' := by rw [step, hperform]
    refine ⟨⟨m, m', res, rfl, hperform, heq⟩, ?_⟩
    rw [hstep]
    exact ih hready hrest (hstep ▸ hplaced.2)

/-! ## The same entry twice -/

/-- The file `/f` with one byte, open as descriptor 3. -/
def oneByteMachine : Machine := ⟨Vfs.oneByte, fun _ => 0, fun _ => some fun _ => 0⟩

lemma ready_oneByteMachine : Ready 1 3 ⟨3, by decide⟩ oneByteMachine :=
  ⟨by decide +kernel, fileReady_oneByte.intact⟩

/-- Read one byte at an offset. -/
def readAt (off : UInt64) : Sqe := ⟨opReadv, 3, off, 0x1000, 1, 0⟩

/-- Write one byte at an offset. -/
def writeAt (off : UInt64) : Sqe := ⟨opWritev, 3, off, 0x2000, 1, 0⟩

/-- A byte is written behind the first one and read again. -/
theorem positional_run_append :
    EventRun.Along step (Placed 1 ⟨3, by decide⟩) (some oneByteMachine) [writeAt 1, readAt 1] ∧
    EventRun.Along step (AtOffset 1) (some oneByteMachine) [writeAt 1, readAt 1] := by
  have hplaced : EventRun.Along step (Placed 1 ⟨3, by decide⟩) (some oneByteMachine)
      [writeAt 1, readAt 1] := by decide +kernel
  exact ⟨hplaced, positional_run ready_oneByteMachine (by decide +kernel) hplaced⟩

/-- **The same entry twice.** A read of one byte at offset 0 delivers a byte the first time and none
the second time, although the file is the same. -/
theorem second_read_differs :
    (perform fileOps (some oneByteMachine) (readAt 0)).2 = 1 ∧
    (perform fileOps (step (some oneByteMachine) (readAt 0)) (readAt 0)).2 = 0 ∧
    (step (some oneByteMachine) (readAt 0)).map (fun m => (m.vfs.entries 1).contents) =
      some (oneByteMachine.vfs.entries 1).contents ∧
    ¬ AtOffset 1 (step (some oneByteMachine) (readAt 0)) (readAt 0) := by
  have hres : (perform fileOps (step (some oneByteMachine) (readAt 0)) (readAt 0)).2 = 0 := by
    decide +kernel
  have hpos : (step (some oneByteMachine) (readAt 0)).all (fun m => decide
      ((positional (m.vfs.entries 1).contents m.mem (roomAt 1 m (readAt 0)) (readAt 0)).2.2 = 1)) =
        true := by decide +kernel
  refine ⟨by decide +kernel, hres, by decide +kernel, ?_⟩
  rintro ⟨m, m', res, hm, hperform, heq⟩
  rw [hm, all_some, decide_eq_true_iff, ← heq] at hpos
  rw [hperform] at hres
  rw [hpos] at hres
  exact absurd hres (by decide)

end SubOS.IoUring
