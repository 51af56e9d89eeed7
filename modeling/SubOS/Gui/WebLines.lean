import Mathlib.Algebra.Order.Ring.Nat

set_option autoImplicit false

/-!
# Line breaking of the browser

`web_build_lines` of `gui/gui_app_web.c` cuts the text of a page greedily into display lines: at a
newline, at the last space that fits, or in the middle of a word that is longer than a line.

## Main definitions

* `webBuildLines`, `Cuts` — the function; the lines follow each other in the text.

## Main results

* `cuts_webBuildLines` — the lines partition the text.
-/

namespace SubOS.Gui

def webMaxLines : ℕ := 2048

/-- The inner loop: the end of the longest line from `i` on, its length, and its last space. -/
def scanLine (t : List Char) (cpl i col : ℕ) (lastSpace : Option ℕ) : ℕ × ℕ × Option ℕ :=
  if i < t.length ∧ t[i]? ≠ some '\n' ∧ col < cpl then
    scanLine t cpl (i + 1) (col + 1) (if t[i]? = some ' ' then some i else lastSpace)
  else (i, col, lastSpace)
termination_by t.length - i

/-- The end of the line that starts at `start`, and the start of the next one. -/
def endOfLine (t : List Char) (cpl start : ℕ) : ℕ × ℕ :=
  match scanLine t cpl start 0 none with
  | (i, col, lastSpace) =>
    if i < t.length ∧ t[i]? = some '\n' then (i, i + 1)
    else if cpl ≤ col ∧ i < t.length then
      match lastSpace with
      | some p => if start < p then (p, p + 1) else (i, i)
      | none => (i, i)
    else (i, i)

/-- The outer loop: the offsets and lengths of at most `room` lines, from `i` on. -/
def lineLoop (t : List Char) (cpl : ℕ) : ℕ → ℕ → List (ℕ × ℕ)
  | 0, _ => []
  | room + 1, i =>
    if i < t.length then
      (i, (endOfLine t cpl i).1 - i) :: lineLoop t cpl room (endOfLine t cpl i).2
    else []

def webBuildLines (t : List Char) (cpl : ℤ) : List (ℕ × ℕ) :=
  lineLoop t (if cpl < 8 then 8 else cpl).toNat webMaxLines 0

/-- A line of length `len` at `i`, of at most `w` characters, after which the text goes on at
`next`. -/
structure IsLine (t : List Char) (w i len next : ℕ) : Prop where
  le : len ≤ w
  inside : i + len ≤ t.length
  newline : ∀ k, i ≤ k → k < i + len → t[k]? ≠ some '\n'
  next : next = i + len ∧ (i + len < t.length → len = w ∧ ∀ k, i < k → k < i + len →
    t[k]? ≠ some ' ') ∨ next = i + len + 1 ∧ (t[i + len]? = some '\n' ∨ t[i + len]? = some ' ')

/-- The lines follow each other in the text from `i` to `j`. -/
inductive Cuts (t : List Char) (w : ℕ) : ℕ → List (ℕ × ℕ) → ℕ → Prop
  | nil (i : ℕ) : Cuts t w i [] i
  | cons {i len next j : ℕ} {lines : List (ℕ × ℕ)} (line : IsLine t w i len next)
    (rest : Cuts t w next lines j) : Cuts t w i ((i, len) :: lines) j

section

variable {t : List Char} {cpl : ℕ}

/-- Where the inner loop stops, and the space that it remembers. -/
lemma scanLine_spec (i col : ℕ) (sp : Option ℕ) (hcol : col ≤ cpl) (hi : i ≤ t.length) :
    ∃ n sp', scanLine t cpl i col sp = (i + n, col + n, sp') ∧ col + n ≤ cpl ∧ i + n ≤ t.length ∧
      (i + n < t.length → t[i + n]? = some '\n' ∨ col + n = cpl) ∧
      (∀ k, i ≤ k → k < i + n → t[k]? ≠ some '\n') ∧
      (sp' = sp ∧ (∀ k, i ≤ k → k < i + n → t[k]? ≠ some ' ') ∨
        ∃ p, sp' = some p ∧ i ≤ p ∧ p < i + n ∧ t[p]? = some ' ' ∧
          ∀ k, p < k → k < i + n → t[k]? ≠ some ' ') := by
  fun_induction scanLine t cpl i col sp with
  | case1 i col sp hgo ih =>
    simp only [dite_eq_ite] at ih
    obtain ⟨n, sp', hscan, hle, hin, hstop, hnl, hsp⟩ := ih (by omega) (by omega)
    refine ⟨n + 1, sp', by rw [hscan]; grind, by omega, by omega, by grind, by grind, ?_⟩
    rcases hsp with ⟨rfl, hnone⟩ | ⟨p, rfl, hp⟩
    · by_cases hspace : t[i]? = some ' '
      · exact .inr ⟨i, by grind⟩
      · exact .inl (by grind)
    · exact .inr ⟨p, by grind⟩
  | case2 i col sp hstop => exact ⟨0, sp, by grind⟩

/-- A line ends at a newline, at its last space, in the middle of a long word or at the end of the
text. -/
lemma isLine_endOfLine (cpl : ℕ) {i : ℕ} (hi : i < t.length) :
    ∃ len next, endOfLine t cpl i = (i + len, next) ∧ IsLine t cpl i len next := by
  obtain ⟨n, sp, hscan, hle, hin, hstop, hnl, hsp⟩ := scanLine_spec i 0 none (Nat.zero_le cpl) hi.le
  unfold endOfLine
  rw [hscan]
  simp only [Nat.zero_add] at *
  split_ifs with hnewline hfull
  · exact ⟨n, _, rfl, hle, hin, hnl, .inr ⟨rfl, .inl hnewline.2⟩⟩
  · rcases hsp with ⟨rfl, hnone⟩ | ⟨p, rfl, hip, hpn, hspace, hlast⟩
    · exact ⟨n, _, rfl, hle, hin, hnl, .inl ⟨rfl, by grind⟩⟩
    · dsimp only
      split_ifs with hlt
      · exact ⟨p - i, p + 1, by grind, by omega, by omega, by grind, .inr (by grind)⟩
      · exact ⟨n, _, rfl, hle, hin, hnl, .inl ⟨rfl, by grind⟩⟩
  · exact ⟨n, _, rfl, hle, hin, hnl, .inl ⟨rfl, by grind⟩⟩

lemma IsLine.next_le {i len next : ℕ} (h : IsLine t cpl i len next) : next ≤ t.length := by
  rcases h.next with ⟨rfl, -⟩ | ⟨rfl, hsep⟩
  · exact h.inside
  · grind

lemma cuts_lineLoop (room : ℕ) {i : ℕ} (hi : i ≤ t.length) :
    (lineLoop t cpl room i).length ≤ room ∧ ∃ j ≤ t.length, Cuts t cpl i (lineLoop t cpl room i) j ∧
      ((lineLoop t cpl room i).length < room → j = t.length) := by
  induction room generalizing i with
  | zero => exact ⟨le_rfl, i, hi, .nil i, fun h => absurd h (Nat.not_lt_zero _)⟩
  | succ room ih =>
    unfold lineLoop
    split_ifs with hlt
    · obtain ⟨len, next, hend, hline⟩ := isLine_endOfLine cpl hlt
      rw [hend, Nat.add_sub_cancel_left]
      obtain ⟨hlen, j, hj, hcuts, hall⟩ := ih hline.next_le
      exact ⟨Nat.succ_le_succ hlen, j, hj, .cons hline hcuts,
        fun h => hall (Nat.succ_lt_succ_iff.1 h)⟩
    · exact ⟨Nat.zero_le _, i, hi, .nil i, fun _ => hi.antisymm (not_lt.1 hlt)⟩

end

/-- **The lines partition the text**, and all of it if there is room. -/
theorem cuts_webBuildLines (t : List Char) (cpl : ℤ) :
    (webBuildLines t cpl).length ≤ webMaxLines ∧
      ∃ j ≤ t.length, Cuts t (max cpl 8).toNat 0 (webBuildLines t cpl) j ∧
        ((webBuildLines t cpl).length < webMaxLines → j = t.length) := by
  have hcpl : (if cpl < 8 then 8 else cpl) = max cpl 8 := by grind
  rw [webBuildLines, hcpl]
  exact cuts_lineLoop webMaxLines (Nat.zero_le _)

end SubOS.Gui
