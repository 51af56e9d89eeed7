import SubOS.Lib.ByteMemory

set_option autoImplicit false

/-!
# A file as the log of its changes

What a file holds is decided by what was done to it: bytes were written at a place, or everything
was cut off. A place holds the byte that was written there last, if nothing has been cut off since,
and the file reaches as far as the furthest of these writes.

## Main definitions

* `WriteLog.extent` — how far the file reaches; `WriteLog.latest` — the byte written last at a
  place.
* `WriteLog.read` — the bytes that a read delivers; places that were skipped hold 0.
* `WriteLog.Stored` — a buffer holds at every place what the log says.
-/

inductive WriteLog.Change where
  | truncate
  | write (o : ℕ) (bytes : List UInt8)
deriving DecidableEq

/-- The changes of a file, the newest first. -/
abbrev WriteLog := List WriteLog.Change

namespace WriteLog

def extent : WriteLog → ℕ
  | [] => 0
  | .truncate :: _ => 0
  | .write o bytes :: log => max (extent log) (o + bytes.length)

/-- The byte most recently written at `p`, if any was written since the last truncation. -/
def latest : WriteLog → ℕ → Option UInt8
  | [], _ => none
  | .truncate :: _, _ => none
  | .write o bytes :: log, p => if o ≤ p ∧ p < o + bytes.length then bytes[p - o]? else latest log p

/-- What a read of `size` bytes at `o` delivers: as much as there is, and nothing before the start.
-/
def read (log : WriteLog) (o : ℤ) (size : ℕ) : List UInt8 :=
  if 0 ≤ o then
    (List.range (min size (log.extent - o.toNat))).map fun k => (log.latest (o.toNat + k)).getD 0
  else []

/-- The buffer holds what was written, and 0 everywhere else. -/
def Stored (m : ByteMemory) (log : WriteLog) : Prop := ∀ p, m p = (log.latest p).getD 0

variable {log : WriteLog} {m : ByteMemory} {o p size : ℕ} {bytes : List UInt8}

lemma latest_eq_none (h : log.extent ≤ p) : log.latest p = none := by
  induction log with
  | nil => rfl
  | cons c log ih =>
    cases c with
    | truncate => rfl
    | write o bytes =>
      unfold extent at h
      unfold latest
      rw [if_neg (by omega)]
      exact ih (by omega)

lemma read_eq_nil {o : ℤ} (h : size = 0 ∨ o < 0 ∨ log.extent ≤ o) : log.read o size = [] := by
  unfold read
  split_ifs with hneg
  · rw [show min size (log.extent - o.toNat) = 0 by omega, List.range_zero, List.map_nil]
  · rfl

lemma stored_nil : Stored (fun _ => 0) [] := fun _ => rfl

lemma read_of_stored (h : Stored m log) {o : ℤ} (ho : 0 ≤ o) (size : ℕ) :
    log.read o size = m.bytes o.toNat (min size (log.extent - o.toNat)) := by
  unfold read
  rw [if_pos ho]
  exact List.map_congr_left fun k _ => (h (o.toNat + k)).symm

lemma Stored.put (h : Stored m log) (o : ℕ) (bytes : List UInt8) :
    Stored (m.put o bytes) (.write o bytes :: log) := by
  intro p
  unfold ByteMemory.put latest
  split_ifs with hp
  · rw [List.getD_eq_getElem?_getD]
  · exact h p

lemma Stored.truncate (h : Stored m log) (hempty : log.extent = 0) :
    Stored m (.truncate :: log) := by
  intro p
  rw [h p, latest_eq_none (by omega)]
  rfl

end WriteLog
