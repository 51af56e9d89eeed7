import SubOS.Fs.ByteFile
import SubOS.Lib.EventRun

set_option autoImplicit false

/-!
# An open file is an array of bytes

Any sequence of `vfs_lseek`, `vfs_read` and `vfs_write` on the descriptors of one RAM file, compared
with the same calls on an array of bytes. `vfs_lseek` accepts every target, and `ramfs_read` and
`ramfs_write` compare sums that may wrap around.

## Main definitions

* `Behaves`, `Fits` — a call is that of the array; its arithmetic does not wrap.

## Main results

* `array_iff`, `stale_gap` — calls behave if and only if they fit.
-/

namespace SubOS.Fs

open EventRun Option ByteFile List RamfsEntry ByteMemory

namespace Vfs

/-! ## Calls -/

/-- One of the three calls; there is no result if it leaves the buffer of the file. -/
def fileCall (s : Vfs) : FileCall → Option (Vfs × Reply)
  | .lseek fd offset whence =>
    let r := s.vfsLseek fd offset.toInt whence
    some (r.1, ⟨r.2, []⟩)
  | .read fd size => (s.vfsRead fd size.toNat).map fun r => (r.1, ⟨r.2.1, r.2.2⟩)
  | .write fd buf size mem =>
    (s.vfsWrite fd (buf.bytes 0 size.toNat) mem).map fun r => (r.1, ⟨r.2, []⟩)

def step (s : Vfs) (c : FileCall) : Vfs := ((s.fileCall c).map Prod.fst).getD s

/-- The array that the file `f` and its descriptors stand for. -/
def view (s : Vfs) (f : ℕ) : ByteFile where
  bytes := (s.entries f).contents
  offsets := fun i => if (s.fds i).node = some f then some (s.fds i).offset else none

/-- A write can be performed: the buffer is long enough, or there is memory for a longer one. -/
def room (s : Vfs) (f : ℕ) : FileCall → Bool
  | .write fd _ size mem =>
    match s.descriptor fd with
    | none => false
    | some (i, _) => (s.entries f).hasRoom ((s.fds i).offset + size.toNat).toNat mem
  | _ => false

/-- The call is on a descriptor of the file, or on one that is not open. -/
def OnFile (f : ℕ) (s : Vfs) (c : FileCall) : Prop := ∀ d ∈ s.descriptor c.fd, d.2 = f
  deriving Decidable

/-- The call stays inside the buffer, changes the file and returns as on the array, changes nothing
if it returns -1, and leaves no negative offset. -/
def Behaves (f : ℕ) (s : Vfs) (c : FileCall) : Prop :=
  ∃ s' r, s.fileCall c = some (s', r) ∧ (s'.view f, r) = (s.view f).call (s.room f c) c ∧
    (r.ret = -1 → s' = s) ∧ ∀ i, (s'.fds i).node = some f → 0 ≤ (s'.fds i).offset

/-- The condition on a call through descriptor `i`. -/
def FitsAt (f : ℕ) (s : Vfs) (i : Fin maxOpenFiles) : FileCall → Prop
  | .lseek _ offset whence =>
    ∀ base ∈ seekBase (s.fds i).offset (s.entries f).length whence,
      0 ≤ base + offset.toInt ∧ base + offset.toInt < 2 ^ 63
  | .read _ size =>
    (s.fds i).offset < (s.entries f).length → (s.fds i).offset + size.toNat < 2 ^ 64
  | .write _ _ size mem =>
    let o := (s.fds i).offset
    let e := s.entries f
    if e.hasRoom (o + size.toNat).toNat mem then
      -- the gap between the end of the file and the offset is zero
      ∀ b ∈ e.gap o.toNat (o + size.toNat).toNat mem, b = 0
    else
      -- the end does not wrap around, or there is no room for the wrapped end either
      o + size.toNat < 2 ^ 64 ∨ e.hasRoom (toSize (o + size.toNat)) mem = false

instance (f : ℕ) (s : Vfs) (i : Fin maxOpenFiles) : DecidablePred (s.FitsAt f i)
  | .lseek .. => inferInstanceAs (Decidable (∀ _ ∈ (_ : Option ℤ), _ ∧ _))
  | .read .. => inferInstanceAs (Decidable (_ → _))
  | .write .. => inferInstanceAs
      (Decidable (if RamfsEntry.hasRoom .. then ∀ _ ∈ RamfsEntry.gap .., _ else _ ∨ _))

/-- The offsets and sizes for which a call behaves as on the array. -/
def Fits (f : ℕ) (s : Vfs) (c : FileCall) : Prop := ∀ d ∈ s.descriptor c.fd, s.FitsAt f d.1 c
  deriving Decidable

/-- The file is intact, and the offsets of its descriptors are numbers that an `off_t` may have as a
place in a file. -/
structure FileReady (f : ℕ) (s : Vfs) : Prop where
  intact : (s.entries f).Intact
  offsets : ∀ i, (s.fds i).node = some f → 0 ≤ (s.fds i).offset ∧ (s.fds i).offset < 2 ^ 63

variable {f n : ℕ} {s s' : Vfs} {c : FileCall} {i : Fin maxOpenFiles} {fd x : ℤ}
  {mem : Option ByteMemory} {size : UInt64} {e : RamfsEntry} {buf : ByteMemory}

/-! ## Descriptors and the array -/

lemma node_of_descriptor {node : ℕ} (h : s.descriptor fd = some (i, node)) :
    (s.fds i).node = some node := by
  unfold descriptor at h
  split_ifs at h with hrange
  obtain ⟨n, hn, heq⟩ := map_eq_some_iff.1 h
  simp only [Prod.mk.injEq] at heq
  rw [← heq.1, ← heq.2, hn]

lemma view_descriptor_of_some (h : s.descriptor fd = some (i, f)) :
    (s.view f).descriptor fd = some (i, (s.fds i).offset) := by
  unfold descriptor at h
  unfold ByteFile.descriptor
  split_ifs at h with hrange
  obtain ⟨n, hn, heq⟩ := map_eq_some_iff.1 h
  obtain ⟨rfl, rfl⟩ := heq
  rw [dif_pos hrange]
  dsimp only [view]
  rw [if_pos hn]
  rfl

lemma view_descriptor_of_none (h : s.descriptor fd = none) : (s.view f).descriptor fd = none := by
  unfold descriptor at h
  unfold ByteFile.descriptor
  split_ifs at h ⊢ with hrange
  · rw [map_eq_none_iff] at h
    dsimp only [view]
    rw [h]
    rfl
  · rfl

lemma view_moveTo (h : (s.fds i).node = some f) :
    (s.moveTo i x).view f = (s.view f).moveTo i x := by
  simp only [view, moveTo, ByteFile.moveTo, setFd_entries, setFd_fds, ByteFile.mk.injEq, true_and]
  funext j
  by_cases hj : j = i
  · subst hj
    simp [h]
  · simp [hj]

lemma view_setEntry (e : RamfsEntry) :
    (s.setEntry f e).view f = { s.view f with bytes := e.contents } := by
  simp [view]

lemma moveTo_self : s.moveTo i (s.fds i).offset = s := by
  simp [moveTo, setFd]

/-- The state that such a write leaves is the one of the array, if the contents are. -/
lemma view_setEntry_moveTo (hnode : (s.fds i).node = some f) (e : RamfsEntry) :
    ((s.setEntry f e).moveTo i x).view f =
      { (s.view f).moveTo i x with bytes := e.contents } := by
  have hmove : ((s.setEntry f e).moveTo i x).view f = ((s.setEntry f e).view f).moveTo i x :=
    view_moveTo hnode
  rw [hmove, view_setEntry]
  rfl

lemma toOff_neg_of_not_fits {base : ℤ} (hb : 0 ≤ base ∧ base < 2 ^ 63) (offset : Int64)
    (h : ¬ (0 ≤ base + offset.toInt ∧ base + offset.toInt < 2 ^ 63)) :
    toOff (base + offset.toInt) < 0 := by
  have hlo := offset.le_toInt
  have hhi := offset.toInt_lt
  unfold toOff
  rw [Int.bmod_def]
  omega

lemma hasRoom_lt (h : e.Intact) (hroom : e.hasRoom n mem = true) : n < 2 ^ 63 := by
  have hcap := h.bounded
  simp only [hasRoom, Bool.or_eq_true, decide_eq_true_iff, Bool.and_eq_true] at hroom
  omega

/-- Where there is room, the gap is as long as the distance from the end of the file. -/
lemma length_gap (h : e.Intact) {o : ℕ} (ho : o ≤ n)
    (hroom : e.hasRoom n mem = true) : (e.gap o n mem).length = o - e.length := by
  unfold gap
  by_cases hfits : n ≤ e.capacity
  · rw [if_pos hfits]
    cases hdata : e.data with
    | none =>
      have hzero := h.unbuffered hdata
      show 0 = _
      omega
    | some data => exact length_bytes _ _ _
  · rw [if_neg hfits]
    have hmem : mem.isSome = true := by
      simp only [hasRoom, hfits, decide_false, Bool.false_or, Bool.and_eq_true] at hroom
      exact hroom.2
    obtain ⟨data, rfl⟩ := isSome_iff_exists.1 hmem
    exact length_bytes _ _ _

lemma splice_eq_iff (h : e.Intact) {o : ℕ} (ho : o ≤ n)
    (hroom : e.hasRoom n mem = true) (w : List UInt8) :
    e.contents.take o ++ e.gap o n mem ++ w ++ e.contents.drop (o + w.length) =
        splice e.contents o w ↔ ∀ b ∈ e.gap o n mem, b = 0 := by
  unfold splice
  rw [append_left_inj, append_left_inj, append_right_inj, h.length_contents, eq_replicate_iff,
    and_iff_right (length_gap h ho hroom)]

lemma call_write (hd : s.descriptor fd = some (i, f)) (buf : ByteMemory) (size : UInt64)
    (mem : Option ByteMemory) :
    (s.view f).call (s.room f (.write fd buf size mem)) (.write fd buf size mem) =
      if (s.entries f).hasRoom ((s.fds i).offset + size.toNat).toNat mem then
        ({ (s.view f).moveTo i ((s.fds i).offset + size.toNat) with
          bytes := splice (s.entries f).contents (s.fds i).offset.toNat (buf.bytes 0 size.toNat) },
          ⟨size.toNat, []⟩)
      else (s.view f, ⟨-1, []⟩) := by
  have hdesc : (s.view f).descriptor (FileCall.write fd buf size mem).fd =
      some (i, (s.fds i).offset) := view_descriptor_of_some hd
  have hroom : s.room f (.write fd buf size mem) =
      (s.entries f).hasRoom ((s.fds i).offset + size.toNat).toNat mem := by
    simp only [room, hd]
  unfold call
  rw [hdesc, hroom]
  rfl

lemma fileCall_of_closed (hd : s.descriptor c.fd = none) :
    s.fileCall c = some (s, ⟨-1, []⟩) ∧
      (s.view f).call (s.room f c) c = (s.view f, ⟨-1, []⟩) := by
  constructor
  · cases c <;> simp only [FileCall.fd] at hd <;>
      simp only [fileCall, vfsLseek, vfsRead, vfsWrite, hd, map_some]
  · unfold call
    rw [view_descriptor_of_none hd]
    rfl

/-- What is to be shown of a call that fits. -/
def Done (f : ℕ) (s : Vfs) (c : FileCall) : Prop :=
  ∃ s' r, s.fileCall c = some (s', r) ∧ (s'.view f, r) = (s.view f).call (s.room f c) c ∧
    (r.ret = -1 → s' = s) ∧ s'.FileReady f

section

variable (h : s.FileReady f)
include h

lemma FileReady.moveTo (h0 : 0 ≤ x) (hx : x < 2 ^ 63) : (s.moveTo i x).FileReady f := by
  refine ⟨h.intact, fun j hj => ?_⟩
  by_cases hji : j = i
  · subst hji
    simpa [Vfs.moveTo] using ⟨h0, hx⟩
  · simp only [Vfs.moveTo, setFd_fds, Function.update_of_ne hji] at hj ⊢
    exact h.offsets j hj

lemma FileReady.setEntry (he : e.Intact) : (s.setEntry f e).FileReady f := by
  refine ⟨?_, h.offsets⟩
  rw [setEntry_entries, Function.update_self]
  exact he

/-! ## Seeking -/

section

variable (hd : s.descriptor fd = some (i, f)) {whence : ℤ}
include hd

lemma vfsLseek_eq (offset : Int64) (whence : ℤ) :
    s.vfsLseek fd offset.toInt whence =
      match seekBase (s.fds i).offset (s.entries f).length whence with
      | none => (s, -1)
      | some base =>
        (s.moveTo i (toOff (base + offset.toInt)), toOff (base + offset.toInt)) := by
  have hlen := h.intact.inside
  have hcap := h.intact.bounded
  have hset : toOff (0 + offset.toInt) = offset.toInt := by
    have hlo := offset.le_toInt
    have hhi := offset.toInt_lt
    rw [toOff_of_lt (by omega) (by omega), zero_add]
  unfold vfsLseek seekBase
  rw [hd]
  dsimp only
  split_ifs
  · dsimp only
    rw [hset]
  · rfl
  · rw [toOff_of_lt (x := ((s.entries f).length : ℤ)) (by omega) (by omega)]
  · rfl

lemma fileCall_lseek (offset : Int64) (whence : ℤ) :
    s.fileCall (.lseek fd offset whence) =
      match seekBase (s.fds i).offset (s.entries f).length whence with
      | none => some (s, ⟨-1, []⟩)
      | some base => some (s.moveTo i (toOff (base + offset.toInt)),
          ⟨toOff (base + offset.toInt), []⟩) := by
  have hcall : s.fileCall (.lseek fd offset whence) = some ((s.vfsLseek fd offset.toInt whence).1,
      ⟨(s.vfsLseek fd offset.toInt whence).2, []⟩) := rfl
  rw [hcall, vfsLseek_eq h hd]
  cases seekBase (s.fds i).offset (s.entries f).length whence <;> rfl

lemma FileReady.seekBase_bounds
    {base : ℤ} (hb : base ∈ seekBase (s.fds i).offset (s.entries f).length whence) :
    0 ≤ base ∧ base < 2 ^ 63 := by
  have ho := h.offsets i (node_of_descriptor hd)
  have hlen := h.intact.inside
  have hcap := h.intact.bounded
  unfold seekBase at hb
  split_ifs at hb <;> simp only [mem_def, some.injEq, reduceCtorEq] at hb <;> omega

/-! ## What a call does -/

lemma done_lseek {offset : Int64} (hfits : s.FitsAt f i (.lseek fd offset whence)) :
    s.Done f (.lseek fd offset whence) := by
  have hdesc : (s.view f).descriptor (FileCall.lseek fd offset whence).fd =
      some (i, (s.fds i).offset) := view_descriptor_of_some hd
  have hlength : (((s.view f).bytes.length : ℕ) : ℤ) = (s.entries f).length := by
    exact congrArg Nat.cast h.intact.length_contents
  unfold Done
  rw [fileCall_lseek h hd]
  unfold call
  rw [hdesc]
  dsimp only
  rw [hlength]
  cases hbase : seekBase (s.fds i).offset (s.entries f).length whence with
  | none => exact ⟨s, _, rfl, rfl, fun _ => rfl, h⟩
  | some base =>
    have hrange := hfits base hbase
    dsimp only
    rw [if_pos hrange, toOff_of_lt (by omega) (by omega)]
    refine ⟨_, _, rfl, ?_, fun hret => ?_, h.moveTo hrange.1 hrange.2⟩
    · rw [view_moveTo (node_of_descriptor hd)]
    · dsimp only at hret
      omega

lemma done_read (hfits : s.FitsAt f i (.read fd size)) : s.Done f (.read fd size) := by
  have hnode := node_of_descriptor hd
  obtain ⟨ho, ho'⟩ := h.offsets i hnode
  have hsize := size.toNat_lt
  have hlen := h.intact.length_contents
  have hcap := h.intact.bounded
  have hin := h.intact.inside
  have hdesc : (s.view f).descriptor (FileCall.read fd size).fd = some (i, (s.fds i).offset) :=
    view_descriptor_of_some hd
  have hread := ramfsRead_eq h.intact ho ho' hsize
  rw [if_neg (fun hwrap => absurd (hfits hwrap.1) (by omega))] at hread
  set got := ((s.entries f).contents.drop (s.fds i).offset.toNat).take size.toNat with hgot
  have hlength : (s.fds i).offset + got.length < 2 ^ 63 := by
    have hle : got.length ≤ (s.entries f).contents.length - (s.fds i).offset.toNat := by
      rw [hgot, length_take, length_drop]
      exact Nat.min_le_right _ _
    omega
  have hcall : s.fileCall (.read fd size) =
      some (s.moveTo i ((s.fds i).offset + got.length), ⟨got.length, got⟩) := by
    simp only [fileCall, vfsRead, hd, h.intact.isFile, hread, Bool.false_eq_true, if_false,
      map_some, some.injEq, Prod.mk.injEq, and_true]
    rw [toOff_of_lt (by omega) (by omega)]
    split_ifs with hpos
    · rfl
    · rw [show (s.fds i).offset + got.length = (s.fds i).offset by omega, moveTo_self]
  refine ⟨_, _, hcall, ?_, fun hret => ?_, h.moveTo (by omega) hlength⟩
  · unfold call
    rw [hdesc, view_moveTo hnode]
    rfl
  · dsimp only at hret
    omega

lemma fileCall_write_refused
    (hwrite : ramfsWrite (s.entries f) (s.fds i).offset (buf.bytes 0 size.toNat) mem =
      some (s.entries f, -1)) : s.fileCall (.write fd buf size mem) = some (s, ⟨-1, []⟩) := by
  have hneg : ¬ 0 < -1 := by decide
  simp only [fileCall, vfsWrite, hd, h.intact.isFile, hwrite, Bool.false_eq_true, if_false,
    map_some, if_neg hneg, setEntry_self]

lemma fileCall_write
    (hwrite : ramfsWrite (s.entries f) (s.fds i).offset (buf.bytes 0 size.toNat) mem =
      some (e, (size.toNat : ℤ))) (hend : (s.fds i).offset + size.toNat < 2 ^ 63) :
    s.fileCall (.write fd buf size mem) =
      some ((s.setEntry f e).moveTo i ((s.fds i).offset + size.toNat), ⟨size.toNat, []⟩) := by
  obtain ⟨ho, -⟩ := h.offsets i (node_of_descriptor hd)
  simp only [fileCall, vfsWrite, hd, h.intact.isFile, hwrite, Bool.false_eq_true, if_false,
    map_some, some.injEq, Prod.mk.injEq, and_true, setEntry_fds]
  rw [toOff_of_lt (by omega) hend]
  split_ifs with hpos
  · rfl
  · have hsame : (s.fds i).offset + size.toNat = ((s.setEntry f e).fds i).offset := by
      rw [setEntry_fds]
      omega
    rw [hsame, moveTo_self]

lemma fileCall_write_of_hasRoom (buf : ByteMemory)
    (hroom : (s.entries f).hasRoom ((s.fds i).offset + size.toNat).toNat mem = true) :
    ∃ e, s.fileCall (.write fd buf size mem) =
        some ((s.setEntry f e).moveTo i ((s.fds i).offset + size.toNat), ⟨size.toNat, []⟩) ∧
      e.Intact ∧
      (e.contents = splice (s.entries f).contents (s.fds i).offset.toNat
          (buf.bytes 0 size.toNat) ↔
        ∀ b ∈ (s.entries f).gap (s.fds i).offset.toNat ((s.fds i).offset + size.toNat).toNat mem,
          b = 0) := by
  obtain ⟨ho, -⟩ := h.offsets i (node_of_descriptor hd)
  have hlt := hasRoom_lt h.intact hroom
  have hwlen : (buf.bytes 0 size.toNat).length = size.toNat := length_bytes _ _ _
  obtain ⟨e, hwrite, he, -, hcontents⟩ := ramfsWrite_eq_of_hasRoom h.intact ho
    (by rw [hwlen]; omega) (by rw [hwlen]; exact hroom)
  have hiff := splice_eq_iff h.intact (o := (s.fds i).offset.toNat) (by omega) hroom
    (buf.bytes 0 size.toNat)
  rw [hwlen] at hwrite hcontents hiff
  rw [← hcontents] at hiff
  exact ⟨e, fileCall_write h hd hwrite (by omega), he, hiff⟩

lemma fileCall_write_of_not_hasRoom (buf : ByteMemory)
    (hroom : (s.entries f).hasRoom ((s.fds i).offset + size.toNat).toNat mem = false) :
    s.fileCall (.write fd buf size mem) =
      if (s.fds i).offset + size.toNat < 2 ^ 64 ∨
          (s.entries f).hasRoom (toSize ((s.fds i).offset + size.toNat)) mem = false then
        some (s, ⟨-1, []⟩)
      else none := by
  obtain ⟨ho, ho'⟩ := h.offsets i (node_of_descriptor hd)
  have hwlen : (buf.bytes 0 size.toNat).length = size.toNat := length_bytes _ _ _
  have hrefused : (s.entries f).hasRoom ((s.fds i).offset + (buf.bytes 0 size.toNat).length).toNat
      mem = false := by
    rw [hwlen]
    exact hroom
  have hwrite := ramfsWrite_eq_of_not_hasRoom h.intact ho ho' (by rw [hwlen]; exact size.toNat_lt)
    hrefused
  rw [hwlen] at hwrite
  split_ifs at hwrite ⊢
  · exact fileCall_write_refused h hd hwrite
  · simp only [fileCall, vfsWrite, hd, h.intact.isFile, hwrite, Bool.false_eq_true, if_false,
      map_none]

lemma done_write (hfits : s.FitsAt f i (.write fd buf size mem)) :
    s.Done f (.write fd buf size mem) := by
  have hnode := node_of_descriptor hd
  obtain ⟨ho, -⟩ := h.offsets i hnode
  have habs := call_write hd buf size mem
  unfold FitsAt at hfits
  dsimp only at hfits
  unfold Done
  rw [habs]
  cases hroom : (s.entries f).hasRoom ((s.fds i).offset + size.toNat).toNat mem with
  | true =>
    have hlt := hasRoom_lt h.intact hroom
    rw [if_pos hroom] at hfits
    obtain ⟨e, hcall, he, hsplice⟩ := fileCall_write_of_hasRoom h hd buf hroom
    refine ⟨_, _, hcall, ?_, fun hret => ?_, (h.setEntry he).moveTo (by omega) (by omega)⟩
    · rw [if_pos rfl, view_setEntry_moveTo hnode, hsplice.2 hfits]
    · dsimp only at hret
      omega
  | false =>
    rw [hroom, if_neg Bool.false_ne_true] at hfits
    have hcall := fileCall_write_of_not_hasRoom h hd buf hroom
    rw [if_pos hfits] at hcall
    exact ⟨s, _, hcall, rfl, fun _ => rfl, h⟩

/-! ## What does not fit -/

lemma fits_lseek {offset : Int64} (hb : s.Behaves f (.lseek fd offset whence)) :
    s.FitsAt f i (.lseek fd offset whence) := by
  obtain ⟨s', r, hcall, -, -, hoffsets⟩ := hb
  intro base hbase
  by_contra hrange
  have hneg := toOff_neg_of_not_fits (h.seekBase_bounds hd hbase) offset hrange
  rw [fileCall_lseek h hd, mem_def.1 hbase] at hcall
  cases hcall
  have hpos := hoffsets i (by simpa [moveTo] using node_of_descriptor hd)
  simp only [moveTo, setFd_fds, Function.update_self] at hpos
  omega

lemma fits_read (hb : s.Behaves f (.read fd size)) : s.FitsAt f i (.read fd size) := by
  obtain ⟨s', r, hcall, -⟩ := hb
  obtain ⟨ho, ho'⟩ := h.offsets i (node_of_descriptor hd)
  intro hinside
  by_contra hwrap
  have hread := ramfsRead_eq h.intact ho ho' size.toNat_lt
  rw [if_pos ⟨hinside, by omega⟩] at hread
  simp only [fileCall, vfsRead, hd, h.intact.isFile, hread, Bool.false_eq_true, if_false, map_none,
    reduceCtorEq] at hcall

/-- A write that is performed shows the gap, and one that wraps around leaves the buffer if it is
not refused. -/
lemma fits_write (hb : s.Behaves f (.write fd buf size mem)) :
    s.FitsAt f i (.write fd buf size mem) := by
  obtain ⟨s', r, hcall, habs, -⟩ := hb
  rw [call_write hd] at habs
  unfold FitsAt
  dsimp only
  cases hroom : (s.entries f).hasRoom ((s.fds i).offset + size.toNat).toNat mem with
  | true =>
    obtain ⟨e, hcall', -, hsplice⟩ := fileCall_write_of_hasRoom h hd buf hroom
    rw [hcall', some.injEq] at hcall
    cases hcall
    rw [hroom, if_pos rfl, view_setEntry_moveTo (node_of_descriptor hd)] at habs
    exact hsplice.1 (congrArg (fun p => p.1.bytes) habs)
  | false =>
    have hcall' := fileCall_write_of_not_hasRoom h hd buf hroom
    rw [if_neg Bool.false_ne_true]
    by_contra hnot
    rw [if_neg hnot, hcall] at hcall'
    exact nomatch hcall'

end

/-- **A call that fits** does what it does on the array, and leaves the file intact. -/
lemma done_of_fits (hon : s.OnFile f c) (hfits : s.Fits f c) : s.Done f c := by
  cases hd : s.descriptor c.fd with
  | none =>
    obtain ⟨hcall, habs⟩ := fileCall_of_closed hd
    exact ⟨s, _, hcall, habs.symm, fun _ => rfl, h⟩
  | some d =>
    obtain ⟨i, node⟩ := d
    obtain rfl : node = f := hon _ hd
    have hfitsAt := hfits _ hd
    cases c with
    | lseek fd offset whence => exact done_lseek h hd hfitsAt
    | read fd size => exact done_read h hd hfitsAt
    | write fd buf size mem => exact done_write h hd hfitsAt

lemma FileReady.step (hon : s.OnFile f c) (hfits : s.Fits f c) : (s.step c).FileReady f := by
  obtain ⟨s', r, hcall, -, -, hready⟩ := done_of_fits h hon hfits
  rw [Vfs.step, hcall]
  exact hready

/-- **A call behaves if and only if it fits.** -/
theorem behaves_iff (hon : s.OnFile f c) : s.Behaves f c ↔ s.Fits f c := by
  constructor
  · rintro hb ⟨i, node⟩ hd
    obtain rfl : node = f := hon _ hd
    cases c with
    | lseek fd offset whence => exact fits_lseek h hd hb
    | read fd size => exact fits_read h hd hb
    | write fd buf size mem => exact fits_write h hd hb
  · intro hfits
    obtain ⟨s', r, hcall, habs, hret, hready⟩ := done_of_fits h hon hfits
    exact ⟨s', r, hcall, habs, hret, fun i hi => (hready.offsets i hi).1⟩

end

/-! ## Sequences of calls -/

@[simp] lemma moveTo_node (s : Vfs) (i j : Fin maxOpenFiles) (x : ℤ) :
    ((s.moveTo i x).fds j).node = (s.fds j).node := by
  by_cases hj : j = i
  · subst hj
    simp [moveTo]
  · simp [moveTo, hj]

lemma step_node (s : Vfs) (c : FileCall) (j : Fin maxOpenFiles) :
    ((s.step c).fds j).node = (s.fds j).node := by
  unfold step
  -- every branch moves one offset at most
  cases c <;> simp only [fileCall, vfsLseek, vfsRead, vfsWrite] <;> repeat' split
  all_goals simp

lemma step_descriptor (s : Vfs) (c : FileCall) (fd : ℤ) :
    (s.step c).descriptor fd = s.descriptor fd := by
  simp only [descriptor, step_node]

/-- **An open file is an array of bytes**: every call of a sequence on the descriptors of one file
behaves as on the array if and only if every call fits. -/
theorem array_iff (h : s.FileReady f) {cs : List FileCall} (hcs : ∀ c ∈ cs, s.OnFile f c) :
    Along step (Behaves f) s cs ↔ Along step (Fits f) s cs := by
  induction cs generalizing s with
  | nil => exact Iff.rfl
  | cons c cs ih =>
    rw [forall_mem_cons] at hcs
    unfold Along
    rw [behaves_iff h hcs.1]
    refine and_congr_right fun hfits => ih ?_ fun c' hc' => ?_
    · exact h.step hcs.1 hfits
    · have hon := hcs.2 c' hc'
      unfold OnFile
      rwa [step_descriptor]

/-! ## A file with one byte -/

/-- A file `/f` with the byte `a`, open as descriptor 3. -/
def oneByte : Vfs :=
  (bareRoot.ramfsAddFile 0 "f" "a" 1).setFd ⟨3, by decide⟩ ⟨some 1, 0, 0⟩

lemma fileReady_oneByte : oneByte.FileReady 1 := by
  refine ⟨⟨rfl, by decide, by decide, nofun⟩, fun i _ => ?_⟩
  have hzero : (oneByte.fds i).offset = 0 := by
    by_cases hi : i = ⟨3, by decide⟩
    · subst hi
      rfl
    · simp [oneByte, hi, ramfsAddFile, append, bareRoot]
  rw [hzero]
  decide

/-- Two bytes are written, and read again from the start. -/
def writeAndRead : List FileCall :=
  [.write 3 (fun _ => 0x62) 2 (some fun _ => 0xAA), .lseek 3 0 0, .read 3 10]

/-- The calls all fit, and behave. -/
theorem array_iff_writeAndRead :
    (∀ c ∈ writeAndRead, oneByte.OnFile 1 c) ∧ Along step (Fits 1) oneByte writeAndRead ∧
    Along step (Behaves 1) oneByte writeAndRead := by
  have hon : ∀ c ∈ writeAndRead, oneByte.OnFile 1 c := by decide +kernel
  have hfits : Along step (Fits 1) oneByte writeAndRead := by decide +kernel
  exact ⟨hon, hfits, (array_iff fileReady_oneByte hon).2 hfits⟩

/-- A byte is written two places behind the end, into a buffer from `kmalloc` that is full of
`0xAA`. -/
def writeBehind : List FileCall :=
  [.lseek 3 3 0, .write 3 (fun _ => 0x62) 1 (some fun _ => 0xAA)]

/-- **The gap shows what was in memory before.** The two bytes between the old end of the file and
the write are not zero. A seek to a negative offset succeeds, too. -/
theorem stale_gap :
    ((run step oneByte writeBehind).view 1).bytes = [0x61, 0xAA, 0xAA, 0x62] ∧
    ¬ Along step (Behaves 1) oneByte writeBehind ∧
    ((oneByte.step (.lseek 3 (-1) 0)).fds ⟨3, by decide⟩).offset = -1 ∧
    ¬ oneByte.Behaves 1 (.lseek 3 (-1) 0) := by
  refine ⟨by decide +kernel, ?_, by decide +kernel, fun hb => ?_⟩
  · rintro ⟨-, hb, -⟩
    have hnext : (oneByte.step (.lseek 3 3 0)).FileReady 1 :=
      fileReady_oneByte.step (by decide +kernel) (by decide +kernel)
    exact absurd ((behaves_iff hnext (by decide +kernel)).1 hb) (by decide +kernel)
  · exact absurd ((behaves_iff fileReady_oneByte (by decide +kernel)).1 hb)
      (by decide +kernel)

end Vfs

end SubOS.Fs
