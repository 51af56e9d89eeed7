import SubOS.Fs.Vfs

set_option autoImplicit false

/-!
# Files as arrays of bytes

What a file is for: an array of bytes with an offset for every open descriptor. A write behind the
end fills the gap with zeros, and what cannot be done returns -1 and changes nothing.

## Main definitions

* `ByteFile.call` — a call on the array.
* `RamfsEntry.Intact` — the buffer of a file holds all of it.
-/

namespace SubOS.Fs

open ByteMemory RamfsEntry

/-! ## Arrays -/

/-- The array after a write of `w` at `o`: a gap is filled with zeros. -/
def splice (b : List UInt8) (o : ℕ) (w : List UInt8) : List UInt8 :=
  b.take o ++ List.replicate (o - b.length) 0 ++ w ++ b.drop (o + w.length)

/-- What a call returns, and the bytes that it delivers. -/
structure Reply where
  ret : ℤ
  bytes : List UInt8
deriving DecidableEq

/-- The calls on an open file. `mem` is what `kmalloc` has to offer during a write; the bytes to be
written are the first `size` of `buf`. -/
inductive FileCall where
  | lseek (fd : ℤ) (offset : Int64) (whence : ℤ)
  | read (fd : ℤ) (size : UInt64)
  | write (fd : ℤ) (buf : ByteMemory) (size : UInt64) (mem : Option ByteMemory)

/-- The descriptor that a call names. -/
def FileCall.fd : FileCall → ℤ
  | .lseek fd _ _ => fd
  | .read fd _ => fd
  | .write fd _ _ _ => fd

/-- An array of bytes, and the offsets of its open descriptors. -/
structure ByteFile where
  bytes : List UInt8
  offsets : Fin maxOpenFiles → Option ℤ

/-- Where `whence` counts from. -/
def seekBase (offset length : ℤ) (whence : ℤ) : Option ℤ :=
  if whence = 0 then some 0
  else if whence = 1 then some offset
  else if whence = 2 then some length
  else none

namespace ByteFile

/-- The open descriptor with this number, and its offset. -/
def descriptor (f : ByteFile) (fd : ℤ) : Option (Fin maxOpenFiles × ℤ) :=
  if h : 0 ≤ fd ∧ fd < maxOpenFiles then
    let i : Fin maxOpenFiles := ⟨fd.toNat, Vfs.toNat_lt_maxOpenFiles h⟩
    (f.offsets i).map fun offset => (i, offset)
  else none

/-- Move the offset of a descriptor. -/
def moveTo (f : ByteFile) (i : Fin maxOpenFiles) (offset : ℤ) : ByteFile :=
  { f with offsets := Function.update f.offsets i (some offset) }

/-- The call has failed, and nothing has changed. -/
def refuse (f : ByteFile) : ByteFile × Reply := (f, ⟨-1, []⟩)

/-- A call on the array; `room` says whether a write can be performed. -/
def call (f : ByteFile) (room : Bool) (c : FileCall) : ByteFile × Reply :=
  match f.descriptor c.fd with
  | none => f.refuse
  | some (i, o) =>
    match c with
    | .lseek _ offset whence =>
      match seekBase o f.bytes.length whence with
      | none => f.refuse
      | some base =>
        let target := base + offset.toInt
        if 0 ≤ target ∧ target < 2 ^ 63 then (f.moveTo i target, ⟨target, []⟩) else f.refuse
    | .read _ size =>
      let got := (f.bytes.drop o.toNat).take size.toNat
      (f.moveTo i (o + got.length), ⟨got.length, got⟩)
    | .write _ buf size _ =>
      if room then
        ({ f.moveTo i (o + size.toNat) with
          bytes := splice f.bytes o.toNat (buf.bytes 0 size.toNat) }, ⟨size.toNat, []⟩)
      else f.refuse

end ByteFile

/-! ## 64-bit numbers in range -/

variable {x : ℤ}

lemma toSize_of_lt (h0 : 0 ≤ x) (h : x < 2 ^ 64) : toSize x = x.toNat := by
  rw [toSize, Int.emod_eq_of_lt h0 h]

lemma toSize_of_wrap (h0 : 2 ^ 64 ≤ x) (h : x < 2 ^ 65) : toSize x = (x - 2 ^ 64).toNat := by
  unfold toSize
  omega

lemma toOff_of_lt (h0 : -2 ^ 63 ≤ x) (h : x < 2 ^ 63) : toOff x = x := by
  unfold toOff
  rw [Int.bmod_def]
  omega

/-! ## The buffer of a file -/

namespace RamfsEntry

variable {e : RamfsEntry}

/-- The array that a file stands for. -/
def contents (e : RamfsEntry) : List UInt8 :=
  match e.data with
  | none => []
  | some data => data.bytes 0 e.length

/-- The buffer of a file holds all of it. -/
structure Intact (e : RamfsEntry) : Prop where
  isFile : e.isDir = false
  inside : e.length ≤ e.capacity
  bounded : e.capacity < 2 ^ 63
  unbuffered : e.data = none → e.capacity = 0

lemma Intact.length_contents (h : e.Intact) : e.contents.length = e.length := by
  unfold contents
  cases hdata : e.data with
  | none =>
    have hcap := h.unbuffered hdata
    have hlen := h.inside
    show 0 = e.length
    omega
  | some data => exact length_bytes _ _ _

/-- The write up to `endOff` fits into the buffer, or `kmalloc` gives a longer one. -/
def hasRoom (e : RamfsEntry) (endOff : ℕ) (mem : Option ByteMemory) : Bool :=
  decide (endOff ≤ e.capacity) || (decide (endOff + 256 < 2 ^ 63) && mem.isSome)

/-- What stands behind the end of the file where a write at `o` up to `endOff` leaves a gap. -/
def gap (e : RamfsEntry) (o endOff : ℕ) (mem : Option ByteMemory) : List UInt8 :=
  match if endOff ≤ e.capacity then e.data else mem with
  | none => []
  | some data => data.bytes e.length (o - e.length)

end RamfsEntry

variable {e : RamfsEntry} {mem : Option ByteMemory} {w : List UInt8} {o : ℤ} {endOff : ℕ}

/-! ## Reading -/

/-- **`ramfs_read` reads the array**, at an offset that is not negative. If the end of the request
wraps around, it reads behind the buffer. -/
lemma ramfsRead_eq (h : e.Intact) (ho : 0 ≤ o) (ho' : o < 2 ^ 63) {size : ℕ}
    (hsize : size < 2 ^ 64) :
    ramfsRead e o size =
      if o < e.length ∧ 2 ^ 64 ≤ o + size then none
      else some ((((e.contents.drop o.toNat).take size).length : ℤ),
        (e.contents.drop o.toNat).take size) := by
  have hlen := h.length_contents
  have hcap := h.bounded
  have hin := h.inside
  unfold ramfsRead
  cases hdata : e.data with
  | none =>
    have hzero : e.length = 0 := by
      have := h.unbuffered hdata
      omega
    have hnil : e.contents = [] := List.length_eq_zero_iff.1 (hlen.trans hzero)
    have hinside : ¬ (o < e.length ∧ 2 ^ 64 ≤ o + size) := by omega
    rw [if_neg hinside, hnil]
    simp
  | some data =>
    have hcontents : e.contents = data.bytes 0 e.length := by
      unfold contents
      rw [hdata]
    dsimp only
    rw [toSize_of_lt ho (by omega)]
    by_cases hend : e.length ≤ o.toNat
    · -- at the end of the file or behind it
      have hnil : e.contents.drop o.toNat = [] := List.drop_eq_nil_of_le (by omega)
      have hinside : ¬ (o < e.length ∧ 2 ^ 64 ≤ o + size) := by omega
      rw [if_pos hend, if_neg hinside, hnil]
      simp
    · rw [if_neg hend]
      by_cases hwrap : 2 ^ 64 ≤ o + size
      · have hsum : ¬ e.length < toSize (o + size) := by
          rw [toSize_of_wrap hwrap (by omega)]
          omega
        have hbehind : ¬ (0 ≤ o ∧ o + size ≤ e.capacity) := by omega
        have hinside : o < e.length ∧ 2 ^ 64 ≤ o + size := ⟨by omega, hwrap⟩
        rw [if_neg hsum, if_neg hbehind, if_pos hinside]
      · have hinside : ¬ (o < e.length ∧ 2 ^ 64 ≤ o + size) := by omega
        have hmin : (if e.length < toSize (o + size) then toSize (e.length - o) else size) =
            min size (e.length - o.toNat) := by
          rw [toSize_of_lt (by omega) (by omega)]
          split_ifs with hover
          · rw [toSize_of_lt (by omega) (by omega)]
            omega
          · omega
        rw [if_neg hinside, hmin, if_pos (by omega), toOff_of_lt (by omega) (by omega), hcontents,
          drop_bytes, take_bytes, Nat.zero_add, length_bytes]

/-! ## Writing -/

lemma kmallocAnswer_newCapacity (h : endOff < 2 ^ 64) (mem : Option ByteMemory) :
    kmallocAnswer (newCapacity endOff) mem = if endOff + 256 < 2 ^ 63 then mem else none := by
  unfold kmallocAnswer newCapacity
  by_cases hsmall : endOff + 256 < 2 ^ 63
  · rw [toSize_of_lt (by omega) (by omega), if_neg (by omega), if_pos hsmall]
  · rw [if_neg hsmall, if_pos]
    by_cases hwrap : endOff + 256 < 2 ^ 64
    · rw [toSize_of_lt (by omega) (by omega)]
      omega
    · rw [toSize_of_wrap (by omega) (by omega)]
      omega

lemma newCapacity_of_lt (h : endOff + 256 < 2 ^ 63) :
    endOff ≤ newCapacity endOff ∧ newCapacity endOff < 2 ^ 63 := by
  unfold newCapacity
  rw [toSize_of_lt (by omega) (by omega)]
  omega

/-- With room for the write there is a buffer of the right size, which still has the contents. -/
lemma ramfsGrow_of_hasRoom (h : e.Intact) (hend : endOff < 2 ^ 64)
    (hroom : e.hasRoom endOff mem = true) :
    ∃ e', ramfsGrow e endOff mem = some (some e') ∧ e'.Intact ∧ endOff ≤ e'.capacity ∧
      e'.length = e.length ∧ e'.contents = e.contents ∧
      ∀ o, e.gap o endOff mem = match e'.data with
        | none => []
        | some data => data.bytes e.length (o - e.length) := by
  unfold ramfsGrow gap
  by_cases hfits : endOff ≤ e.capacity
  · rw [if_pos hfits]
    exact ⟨e, rfl, h, hfits, rfl, rfl, fun o => by rw [if_pos hfits]⟩
  · have hgrant : endOff + 256 < 2 ^ 63 ∧ mem.isSome = true := by
      simpa [hasRoom, hfits] using hroom
    obtain ⟨hsmall, hmem⟩ := hgrant
    obtain ⟨newData, rfl⟩ := Option.isSome_iff_exists.1 hmem
    obtain ⟨hle, hlt⟩ := newCapacity_of_lt hsmall
    have hin := h.inside
    rw [if_neg hfits]
    dsimp only
    rw [kmallocAnswer_newCapacity hend, if_pos hsmall]
    cases hdata : e.data with
    | none =>
      have hzero : e.length = 0 := by
        have := h.unbuffered hdata
        omega
      refine ⟨_, rfl, ⟨h.isFile, by dsimp only; omega, hlt, by simp⟩, hle, rfl, ?_, fun o => ?_⟩
      · simp [contents, hdata, hzero, bytes]
      · rw [if_neg hfits]
    | some data =>
      dsimp only
      rw [if_pos ⟨hin, by omega⟩]
      refine ⟨_, rfl, ⟨h.isFile, by dsimp only; omega, hlt, by simp⟩, hle, rfl, ?_, fun o => ?_⟩
      · have hcopy := bytes_put_append newData 0 0 (data.bytes 0 e.length)
        simpa [contents, hdata, bytes] using hcopy
      · rw [if_neg hfits]
        refine bytes_congr fun i _ => ?_
        rw [put, if_neg]
        rw [length_bytes]
        omega

/-- **`ramfs_write` splices**, where there is room: all but the gap is as in the array. -/
lemma ramfsWrite_eq_of_hasRoom (h : e.Intact) (ho : 0 ≤ o)
    (hend : o + w.length < 2 ^ 64) (hroom : e.hasRoom (o + w.length).toNat mem = true) :
    ∃ e', ramfsWrite e o w mem = some (e', (w.length : ℤ)) ∧ e'.Intact ∧
      o + w.length ≤ e'.capacity ∧
      e'.contents = e.contents.take o.toNat ++ e.gap o.toNat (o + w.length).toNat mem ++ w ++
        e.contents.drop (o.toNat + w.length) := by
  obtain ⟨g, hgrow, hg, hcap, hlength, hcontents, hgap⟩ :=
    ramfsGrow_of_hasRoom h (by omega) hroom
  have hbound := hg.bounded
  have hin := hg.inside
  unfold ramfsWrite
  dsimp only
  rw [toSize_of_lt (by omega) hend, hgrow]
  dsimp only
  cases hdata : g.data with
  | none =>
    -- without a buffer nothing is written, at the start of an empty file
    have hzero := hg.unbuffered hdata
    have hw : w = [] := List.length_eq_zero_iff.1 (by omega)
    subst hw
    refine ⟨_, rfl, ⟨hg.isFile, ?_, hbound, fun _ => hzero⟩, by simpa using by omega, ?_⟩
    · dsimp only
      omega
    · have hnil : e.contents = [] := by
        rw [← hcontents, contents, hdata]
      rw [hgap, hdata, hnil]
      simp [contents]
  | some data =>
    dsimp only
    rw [if_pos (.inr ⟨ho, by omega⟩), toOff_of_lt (by omega) (by omega)]
    refine ⟨_, rfl, ⟨hg.isFile, ?_, hbound, nofun⟩, by dsimp only; omega, ?_⟩
    · dsimp only
      omega
    · have hput := bytes_put data g.length o.toNat w
      rw [show (o + w.length).toNat = o.toNat + w.length by omega] at hgap ⊢
      rw [hgap, hdata, ← hcontents, ← hlength]
      simpa [contents, hdata] using hput

lemma ramfsWrite_eq_of_refused (hrefused : e.hasRoom (toSize (o + w.length)) mem = false) :
    ramfsWrite e o w mem = some (e, -1) := by
  have hend : toSize (o + w.length) < 2 ^ 64 := by
    unfold toSize
    omega
  simp only [hasRoom, Bool.or_eq_false_iff, decide_eq_false_iff_not] at hrefused
  have hgrow : ramfsGrow e (toSize (o + w.length)) mem = some none := by
    unfold ramfsGrow
    rw [if_neg hrefused.1]
    dsimp only
    rw [kmallocAnswer_newCapacity hend]
    have hnone := hrefused.2
    by_cases hsmall : toSize (o + w.length) + 256 < 2 ^ 63
    · rw [if_pos hsmall]
      simp only [hsmall, decide_true, Bool.true_and, Option.isSome_eq_false_iff,
        Option.isNone_iff_eq_none] at hnone
      rw [hnone]
    · rw [if_neg hsmall]
  unfold ramfsWrite
  dsimp only
  rw [hgrow]

/-- Without room `ramfs_write` returns -1, as long as the end of the request does not wrap around.
If it does, the buffer must be too short for the wrapped end as well, and `kmalloc` must refuse. -/
lemma ramfsWrite_eq_of_not_hasRoom (h : e.Intact) (ho : 0 ≤ o) (ho' : o < 2 ^ 63)
    (hw : w.length < 2 ^ 64) (hroom : e.hasRoom (o + w.length).toNat mem = false) :
    ramfsWrite e o w mem =
      if o + w.length < 2 ^ 64 ∨ e.hasRoom (toSize (o + w.length)) mem = false then some (e, -1)
      else none := by
  by_cases hrefused : e.hasRoom (toSize (o + w.length)) mem = false
  · rw [if_pos (.inr hrefused), ramfsWrite_eq_of_refused hrefused]
  · have hwrap : ¬ o + w.length < 2 ^ 64 := fun hlt => by
      rw [toSize_of_lt (by omega) hlt] at hrefused
      exact hrefused hroom
    rw [if_neg (by tauto)]
    have hlt : toSize (o + w.length) < 2 ^ 64 := by
      unfold toSize
      omega
    obtain ⟨g, hgrow, hg, -, -⟩ :=
      ramfsGrow_of_hasRoom h hlt (Bool.eq_true_of_not_eq_false hrefused)
    have hbound := hg.bounded
    unfold ramfsWrite
    dsimp only
    rw [hgrow]
    dsimp only
    have hne : w ≠ [] := by
      rintro rfl
      simp only [List.length_nil] at hwrap
      omega
    cases hdata : g.data with
    | none => exact if_neg hne
    | some data =>
      refine if_neg ?_
      rintro (hnil | ⟨-, hle⟩)
      · exact hne hnil
      · omega

end SubOS.Fs
