import Mathlib.Data.List.TakeWhile

set_option autoImplicit false

/-!
# Loading and saving in nano

`nano_load` fills the rows of `nano_lines` from reads of 512 bytes, and `nano_save` writes them back
into the truncated file. A row is zero behind the characters stored in it, so it is given by these.

## Main definitions

* `nanoLoad`, `nanoSave` — the functions.

## Main results

* `nanoSave_nanoLoad`, `last_line_lost` — which files are saved as they were loaded.
-/

namespace SubOS.Userland

open List

abbrev nanoMaxLines : ℕ := 512

abbrev nanoLineLen : ℕ := 128

abbrev newline : UInt8 := 0x0A

abbrev carriageReturn : UInt8 := 0x0D

/-- The complete rows and the one that is being filled: `cur_line` and `cur_col` are their lengths.
-/
structure Text where
  lines : List (List UInt8)
  row : List UInt8

/-- The loop over the bytes of one read. It stops when there is no row left. -/
def loadBytes : List UInt8 → Text → Text
  | [], t => t
  | c :: cs, t =>
    if c = carriageReturn then loadBytes cs t
    else if c = newline then
      let t : Text := ⟨t.lines ++ [t.row], []⟩
      if nanoMaxLines ≤ t.lines.length then t else loadBytes cs t
    else if t.row.length < nanoLineLen - 1 then loadBytes cs { t with row := t.row ++ [c] }
    else loadBytes cs t

/-- The loop over the reads. A file of at most `n` bytes is at its end after `n` reads. -/
def loadReads : ℕ → List UInt8 → Text → Text
  | 0, _, t => t
  | n + 1, file, t =>
    if file = [] then t
    else
      let t := loadBytes (file.take 512) t
      if nanoMaxLines ≤ t.lines.length then t else loadReads n (file.drop 512) t

/-- `nano_load`: the first `nano_line_count` rows. There is no file if the path is empty or cannot
be opened. -/
def nanoLoad : Option (List UInt8) → List (List UInt8)
  | none => [[]]
  | some file =>
    let t := loadReads file.length file ⟨[], []⟩
    if 0 < t.row.length ∨ t.lines.length = 0 then t.lines ++ [t.row] else t.lines

/-- The bytes that `nano_save` writes. A row ends at its first NUL. -/
def nanoSave : List (List UInt8) → List UInt8
  | [] => []
  | row :: rows =>
    let line := row.takeWhile (· ≠ 0)
    line ++ (if rows ≠ [] ∨ 0 < line.length then [newline] else []) ++ nanoSave rows

/-- The file of some lines, each with its newline. -/
def fileOf (ls : List (List UInt8)) : List UInt8 := ls.flatMap (· ++ [newline])

/-- A line of at most 126 characters without a newline, a carriage return or a NUL. -/
def Plain (l : List UInt8) : Prop :=
  l.length ≤ 126 ∧ ∀ c ∈ l, c ≠ newline ∧ c ≠ carriageReturn ∧ c ≠ 0
  deriving Decidable

variable {ls lines : List (List UInt8)} {l a b file : List UInt8} {t : Text}

lemma fileOf_append_singleton : fileOf (ls ++ [l]) = fileOf ls ++ (l ++ [newline]) := by
  rw [fileOf, flatMap_append, flatMap_singleton]
  rfl

/-! ## Loading -/

/-- **A boundary between two reads does not matter.** -/
lemma loadBytes_append (ht : t.lines.length < nanoMaxLines) :
    loadBytes (a ++ b) t = if nanoMaxLines ≤ (loadBytes a t).lines.length then loadBytes a t
      else loadBytes b (loadBytes a t) := by
  induction a generalizing t with
  | nil => exact (if_neg (Nat.not_le.2 ht)).symm
  | cons c cs ih =>
    simp only [cons_append, loadBytes]
    split
    · exact ih ht
    split
    · split
      · rfl
      · next hroom => exact ih (Nat.not_le.1 hroom)
    split
    · exact ih ht
    · exact ih ht

lemma loadReads_eq {n : ℕ} (hn : file.length ≤ n) (ht : t.lines.length < nanoMaxLines) :
    loadReads n file t = loadBytes file t := by
  induction n generalizing file t with
  | zero =>
    rw [length_eq_zero_iff.1 (Nat.le_zero.1 hn)]
    rfl
  | succ n ih =>
    rw [loadReads]
    split
    · next hnil => rw [hnil, loadBytes]
    next hne =>
    have hboth := loadBytes_append (a := file.take 512) (b := file.drop 512) ht
    rw [take_append_drop] at hboth
    rw [hboth]
    dsimp only
    split
    · rfl
    · next hroom => exact ih (by rw [length_drop]; omega) (Nat.not_le.1 hroom)

lemma loadBytes_line (hl : ∀ c ∈ l, c ≠ newline ∧ c ≠ carriageReturn ∧ c ≠ 0)
    (hlen : t.row.length + l.length < nanoLineLen) :
    loadBytes (l ++ b) t = loadBytes b { t with row := t.row ++ l } := by
  induction l generalizing t with
  | nil => rw [append_nil, nil_append]
  | cons c cs ih =>
    rw [forall_mem_cons] at hl
    rw [length_cons] at hlen
    rw [cons_append, loadBytes, if_neg hl.1.2.1, if_neg hl.1.1, if_pos (by omega), ih hl.2]
    · rw [append_assoc, singleton_append]
    · rw [length_append, length_singleton]
      omega

/-- **The lines of a file that fits are loaded.** -/
lemma loadBytes_fileOf (hls : ∀ l ∈ ls, Plain l) (hlen : lines.length + ls.length ≤ nanoMaxLines) :
    loadBytes (fileOf ls) ⟨lines, []⟩ = ⟨lines ++ ls, []⟩ := by
  induction ls generalizing lines with
  | nil => rw [append_nil, fileOf, flatMap_nil, loadBytes]
  | cons l ls ih =>
    rw [forall_mem_cons] at hls
    rw [length_cons] at hlen
    have hfile : fileOf (l :: ls) = l ++ newline :: fileOf ls := by
      rw [fileOf, flatMap_cons, append_assoc, singleton_append]
      rfl
    have hrow := hls.1.1
    rw [hfile, loadBytes_line hls.1.2 (by simpa [nanoLineLen] using by omega), loadBytes,
      if_neg (by decide), if_pos rfl, nil_append]
    dsimp only
    rw [length_append, length_singleton]
    split
    · have hnil : ls = [] := length_eq_zero_iff.1 (by omega)
      rw [hnil]
    · rw [ih hls.2 (by rw [length_append, length_singleton]; omega), append_assoc, singleton_append]

/-! ## Saving -/

lemma nanoSave_append_singleton (hls : ∀ l ∈ ls, Plain l) (hl : Plain l) :
    nanoSave (ls ++ [l]) = fileOf ls ++ (l ++ if 0 < l.length then [newline] else []) := by
  have hline : ∀ l, Plain l → l.takeWhile (· ≠ 0) = l := fun l hl =>
    takeWhile_eq_self_iff.2 fun c hc => decide_eq_true (hl.2 c hc).2.2
  induction ls with
  | nil =>
    simp only [nil_append, nanoSave, hline l hl, ne_eq, not_true_eq_false, false_or, append_nil]
    rfl
  | cons x ls ih =>
    rw [forall_mem_cons] at hls
    rw [cons_append, nanoSave, ih hls.2, hline x hls.1, if_pos (.inl (by simp)), fileOf, fileOf,
      flatMap_cons, append_assoc, append_assoc, append_assoc]

/-- **A file is saved as it was loaded if and only if its last line is not empty.** -/
theorem nanoSave_nanoLoad (hcount : ls.length ≤ nanoMaxLines) (hls : ∀ l ∈ ls, Plain l) :
    nanoSave (nanoLoad (some (fileOf ls))) = fileOf ls ↔ ls.getLast? ≠ some [] := by
  rw [nanoLoad, loadReads_eq (Nat.le_refl _) (by decide),
    loadBytes_fileOf hls (by simpa using hcount)]
  rcases eq_nil_or_concat ls with rfl | ⟨ls, l, rfl⟩
  · exact iff_of_true rfl nofun
  rw [concat_eq_append, forall_mem_append, forall_mem_singleton] at *
  rw [if_neg (by simp), nil_append, nanoSave_append_singleton hls.1 hls.2, fileOf_append_singleton,
    append_cancel_left_eq, append_cancel_left_eq, getLast?_concat]
  cases l with
  | nil | cons c cs => simp

/-- The file `a⏎⏎b⏎`. -/
theorem nanoSave_nanoLoad_blank : nanoSave (nanoLoad (some (fileOf [[0x61], [], [0x62]]))) =
    fileOf [[0x61], [], [0x62]] :=
  (nanoSave_nanoLoad (by decide) (by decide +kernel)).2 (by decide)

/-- **An empty last line is lost**: `a⏎⏎` is saved as `a⏎`. -/
theorem last_line_lost : (∀ l ∈ [[0x61], []], Plain l) ∧
    fileOf [[0x61], []] = [0x61, newline, newline] ∧
    nanoSave (nanoLoad (some (fileOf [[0x61], []]))) = [0x61, newline] := by
  decide +kernel

end SubOS.Userland
