import Mathlib.Algebra.Group.Int.Defs
import SubOS.Lib.EventRun

set_option autoImplicit false

/-!
# The framebuffer console

`drivers/video/fbcon.c`: characters are drawn at the cursor, and escape sequences move it. The
numbers of a sequence may have any number of digits and wrap at 32 bits, and a relative move is
clamped on one side only.

## Main definitions

* `Fbcon.putc`, `Fbcon.handleCsi` — one byte, and the end of an escape sequence.
* `Fbcon.Moderate` — the events whose relative moves do not wrap.

## Main results

* `Fbcon.sound_run_of_moderate` — in a moderate run the cursor stays on the screen.
* `Fbcon.cursor_below_screen` — a number that wraps takes it off the screen.

## Design

The console is active and has the size that `fbcon_init` gives it. A byte is a character;
`fbcon_write` puts its bytes one by one. What is drawn is kept as rectangles of cells, without the
colours.
-/

namespace SubOS.Drivers

def fbconCols : ℤ := 80

def fbconRows : ℤ := 25

def fbconMaxParams : ℕ := 6

/-- The value of an `int`. -/
def wrapInt (x : ℤ) : ℤ := (x + 2 ^ 31) % 2 ^ 32 - 2 ^ 31

inductive ParseState where
  | normal
  | esc
  | csi
  deriving DecidableEq, Repr

/-- A rectangle of cells. -/
structure Cells where
  col : ℤ
  row : ℤ
  width : ℤ
  height : ℤ
  deriving DecidableEq, Repr

structure Fbcon where
  curX : ℤ
  curY : ℤ
  savedX : ℤ
  savedY : ℤ
  state : ParseState
  params : ℕ → ℤ
  paramCount : ℕ
  paramSeen : Bool
  /-- What has been drawn or cleared. -/
  drawn : List Cells

namespace Fbcon

def init : Fbcon := ⟨0, 0, 0, 0, .normal, fun _ => 0, 0, false, []⟩

def moveTo (s : Fbcon) (x y : ℤ) : Fbcon := { s with curX := x, curY := y }

def draw (s : Fbcon) (r : Cells) : Fbcon := { s with drawn := s.drawn ++ [r] }

/-- `draw_cell` at the cursor. -/
def drawCell (s : Fbcon) : Fbcon := s.draw ⟨s.curX, s.curY, 1, 1⟩

def clearRows (s : Fbcon) (first count : ℤ) : Fbcon :=
  if count ≤ 0 then s else s.draw ⟨0, first, fbconCols, count⟩

/-- The cells from `start` to `stop` of the cursor's row are cleared. -/
def clearLine (s : Fbcon) (start stop : ℤ) : Fbcon :=
  if start < stop then s.draw ⟨start, s.curY, stop - start, 1⟩ else s

def newline (s : Fbcon) : Fbcon :=
  if fbconRows ≤ s.curY + 1 then (s.clearRows (fbconRows - 1) 1).moveTo 0 (fbconRows - 1)
  else s.moveTo 0 (s.curY + 1)

/-- The cursor moves to column `x` of its row, or to the next line if there is no such column. -/
def advance (s : Fbcon) (x : ℤ) : Fbcon :=
  if fbconCols ≤ x then s.newline else s.moveTo x s.curY

def paramOr (s : Fbcon) (index : ℕ) (fallback : ℤ) : ℤ :=
  if s.paramCount ≤ index ∨ s.params index = 0 then fallback else s.params index

/-- The parameter of an erasing sequence. -/
def mode (s : Fbcon) : ℤ := if s.paramCount ≠ 0 ∧ s.paramSeen = true then s.params 0 else 0

def clamp (v size : ℤ) : ℤ := if v < 0 then 0 else if size ≤ v then size - 1 else v

def handleCsi (s : Fbcon) : Char → Fbcon
  | 'H' | 'f' =>
    s.moveTo (clamp (wrapInt (s.paramOr 1 1 - 1)) fbconCols)
      (clamp (wrapInt (s.paramOr 0 1 - 1)) fbconRows)
  | 'A' => s.moveTo s.curX (max (wrapInt (s.curY - s.paramOr 0 1)) 0)
  | 'B' => s.moveTo s.curX (min (wrapInt (s.curY + s.paramOr 0 1)) (fbconRows - 1))
  | 'C' => s.moveTo (min (wrapInt (s.curX + s.paramOr 0 1)) (fbconCols - 1)) s.curY
  | 'D' => s.moveTo (max (wrapInt (s.curX - s.paramOr 0 1)) 0) s.curY
  | 'J' =>
    if s.mode = 2 ∨ s.mode = 3 then (s.clearRows 0 fbconRows).moveTo 0 0
    else if s.mode = 1 then s.clearRows 0 s.curY
    else s.clearRows (s.curY + 1) (fbconRows - s.curY - 1)
  | 'K' =>
    s.clearLine (if s.mode = 1 ∨ s.mode = 2 then 0 else s.curX)
      (if s.mode = 1 then s.curX + 1 else fbconCols)
  | 's' => { s with savedX := s.curX, savedY := s.curY }
  | 'u' => s.moveTo s.savedX s.savedY
  -- `m` sets the colours
  | _ => s

def putNormal (s : Fbcon) (c : Char) : Fbcon :=
  match c with
  | '\x1b' => { s with state := .esc }
  | '\n' => s.newline
  | '\r' => s.moveTo 0 s.curY
  | '\t' => s.advance ((s.curX + 8) / 8 * 8)
  | '\x08' => if 0 < s.curX then (s.moveTo (s.curX - 1) s.curY).drawCell else s
  | _ => if c.toNat < 32 then s else s.drawCell.advance (s.curX + 1)

def putc (s : Fbcon) (c : Char) : Fbcon :=
  match s.state with
  | .normal => s.putNormal c
  | .esc =>
    if c = '[' then
      { s with state := .csi, paramCount := 0, paramSeen := false, params := fun _ => 0 }
    else { s with state := .normal }
  | .csi =>
    if '0' ≤ c ∧ c ≤ '9' then
      let k := if s.paramCount = 0 then 1 else s.paramCount
      { s with
        paramCount := k
        params := Function.update s.params (k - 1)
          (wrapInt (s.params (k - 1) * 10 + (c.toNat - 48)))
        paramSeen := true }
    else if c = ';' then
      if s.paramCount < fbconMaxParams then { s with paramCount := s.paramCount + 1 } else s
    else if c = '?' ∨ c = '>' then s
    else { s.handleCsi c with state := .normal }

inductive Event where
  | putc (c : Char)
  | setCursor (row col : ℤ)
  deriving DecidableEq, Repr

def step (s : Fbcon) : Event → Fbcon
  | .putc c => s.putc c
  | .setCursor row col =>
    s.moveTo (if 0 ≤ col ∧ col < fbconCols then col else s.curX)
      (if 0 ≤ row ∧ row < fbconRows then row else s.curY)

/-- The rectangle lies inside the grid of cells. -/
def Inside (r : Cells) : Prop :=
  0 ≤ r.col ∧ r.col + r.width ≤ fbconCols ∧ 0 ≤ r.row ∧ r.row + r.height ≤ fbconRows

/-- What holds between two bytes. -/
structure Sound (s : Fbcon) : Prop where
  curX : 0 ≤ s.curX ∧ s.curX < fbconCols
  curY : 0 ≤ s.curY ∧ s.curY < fbconRows
  param : s.paramCount - 1 < fbconMaxParams
  drawn : ∀ r ∈ s.drawn, Inside r

/-- The end of a sequence makes no relative move that wraps: its number has not wrapped to a
negative one and, for a move down or to the right, neither does the sum with the cursor. -/
def ModerateCsi (s : Fbcon) (c : Char) : Prop :=
  (c ∈ ['A', 'B', 'C', 'D'] → 0 ≤ s.paramOr 0 1) ∧
    (c ∈ ['B', 'C'] → s.paramOr 0 1 < 2 ^ 31 - fbconCols)
  deriving Decidable

/-- The event makes no such move. -/
def Moderate (s : Fbcon) : Event → Prop
  | .putc c => s.state = .csi → s.ModerateCsi c
  | .setCursor _ _ => True

instance (s : Fbcon) : DecidablePred s.Moderate := by
  rintro ⟨⟩ <;> dsimp only [Moderate] <;> infer_instance

/-- The invariant: the saved position is inside the grid, too, and the numbers are those of an
`int`. -/
structure Inv (s : Fbcon) : Prop extends Sound s where
  savedX : 0 ≤ s.savedX ∧ s.savedX < fbconCols
  savedY : 0 ≤ s.savedY ∧ s.savedY < fbconRows
  params : ∀ k, s.params k < 2 ^ 31

section Steps

variable {s : Fbcon} {x y : ℤ}

lemma wrapInt_lt (x : ℤ) : wrapInt x < 2 ^ 31 := by
  unfold wrapInt
  omega

lemma Inv.paramOr_lt (h : s.Inv) : s.paramOr 0 1 < 2 ^ 31 := by
  unfold Fbcon.paramOr
  split
  · decide
  · exact h.params 0

lemma Inv.moveTo (h : s.Inv) (hx : 0 ≤ x ∧ x < fbconCols) (hy : 0 ≤ y ∧ y < fbconRows) :
    (s.moveTo x y).Inv :=
  ⟨⟨hx, hy, h.param, h.drawn⟩, h.savedX, h.savedY, h.params⟩

lemma Inv.parse (h : s.Inv) {st : ParseState} {ps : ℕ → ℤ} {k : ℕ} {seen : Bool}
    (hk : k - 1 < fbconMaxParams) (hps : ∀ k, ps k < 2 ^ 31) :
    { s with state := st, params := ps, paramCount := k, paramSeen := seen }.Inv :=
  ⟨⟨h.curX, h.curY, hk, h.drawn⟩, h.savedX, h.savedY, hps⟩

lemma Inv.draw (h : s.Inv) {r : Cells} (hr : Inside r) : (s.draw r).Inv := by
  refine ⟨⟨h.curX, h.curY, h.param, fun q hq => ?_⟩, h.savedX, h.savedY, h.params⟩
  rcases List.mem_append.mp hq with hq | hq
  · exact h.drawn q hq
  · exact List.mem_singleton.mp hq ▸ hr

lemma Inv.drawCell (h : s.Inv) : s.drawCell.Inv :=
  h.draw ⟨h.curX.1, h.curX.2, h.curY.1, h.curY.2⟩

lemma Inv.clearRows (h : s.Inv) {first count : ℤ} (hfirst : 0 ≤ first)
    (hcount : first + count ≤ fbconRows) : (s.clearRows first count).Inv := by
  unfold Fbcon.clearRows
  split
  · exact h
  · exact h.draw ⟨Int.le_refl 0, Int.le_refl _, hfirst, hcount⟩

lemma Inv.clearLine (h : s.Inv) {start stop : ℤ} (hstart : 0 ≤ start)
    (hstop : stop ≤ fbconCols) : (s.clearLine start stop).Inv := by
  unfold Fbcon.clearLine
  split
  · exact h.draw ⟨hstart, by show start + (stop - start) ≤ _; omega, h.curY.1, h.curY.2⟩
  · exact h

lemma Inv.newline (h : s.Inv) : s.newline.Inv := by
  have hy := h.curY
  unfold Fbcon.newline
  split
  · exact (h.clearRows (by decide) (by decide)).moveTo (by decide) (by decide)
  · next hrow => exact h.moveTo (by decide) ⟨by omega, by omega⟩

lemma Inv.advance (h : s.Inv) (hx : 0 ≤ x) : (s.advance x).Inv := by
  unfold Fbcon.advance
  split
  · exact h.newline
  · next hcol => exact h.moveTo ⟨hx, by omega⟩ h.curY

lemma Inv.putNormal (h : s.Inv) (c : Char) : (s.putNormal c).Inv := by
  have hx := h.curX
  unfold Fbcon.putNormal
  split
  · exact h.parse h.param h.params
  · exact h.newline
  · exact h.moveTo (by decide) h.curY
  · exact h.advance (by omega)
  · split
    · exact (h.moveTo ⟨by omega, by omega⟩ h.curY).drawCell
    · exact h
  · split
    · exact h
    · exact h.drawCell.advance (by omega)

lemma clamp_bounds {size : ℤ} (v : ℤ) (hsize : 0 < size) :
    0 ≤ clamp v size ∧ clamp v size < size := by
  unfold clamp
  split <;> try split
  all_goals omega

lemma Inv.handleCsi (h : s.Inv) {c : Char} (hc : s.ModerateCsi c) : (s.handleCsi c).Inv := by
  have hx := h.curX
  have hy := h.curY
  have hparam := h.paramOr_lt
  have hcols : fbconCols = 80 := rfl
  have hrows : fbconRows = 25 := rfl
  unfold Fbcon.handleCsi
  split
  · exact h.moveTo (clamp_bounds _ (by decide)) (clamp_bounds _ (by decide))
  · exact h.moveTo (clamp_bounds _ (by decide)) (clamp_bounds _ (by decide))
  -- the relative moves: nothing wraps, and the side that is not clamped is that of the cursor
  · have hp := hc.1 (by decide)
    exact h.moveTo hx (by unfold wrapInt; omega)
  · have hp := hc.1 (by decide)
    have hlt := hc.2 (by decide)
    exact h.moveTo hx (by unfold wrapInt; omega)
  · have hp := hc.1 (by decide)
    have hlt := hc.2 (by decide)
    exact h.moveTo (by unfold wrapInt; omega) hy
  · have hp := hc.1 (by decide)
    exact h.moveTo (by unfold wrapInt; omega) hy
  · split
    · exact (h.clearRows (by decide) (by decide)).moveTo (by decide) (by decide)
    · split
      · exact h.clearRows (by decide) (by omega)
      · exact h.clearRows (by omega) (by omega)
  · exact h.clearLine (by split <;> omega) (by split <;> omega)
  · exact ⟨⟨hx, hy, h.param, h.drawn⟩, hx, hy, h.params⟩
  · exact h.moveTo h.savedX h.savedY
  · exact h

lemma Inv.putc (h : s.Inv) {c : Char} (hc : Moderate s (.putc c)) : (s.putc c).Inv := by
  unfold Fbcon.putc
  split
  · exact h.putNormal c
  · split
    · exact h.parse (by decide : 0 - 1 < fbconMaxParams) fun _ => by decide
    · exact h.parse h.param h.params
  next hcsi =>
    split
    · refine h.parse ?_ (Function.forall_update_iff _ (fun _ n => n < 2 ^ 31) |>.mpr
        ⟨wrapInt_lt _, fun k _ => h.params k⟩)
      split
      · decide
      · exact h.param
    split
    · split
      · next hlt => exact h.parse hlt h.params
      · exact h
    split
    · exact h
    · have hnext := h.handleCsi (hc hcsi)
      exact hnext.parse hnext.param hnext.params

lemma Inv.step (h : s.Inv) (e : Event) (he : Moderate s e) : (s.step e).Inv := by
  cases e with
  | putc c => exact h.putc he
  | setCursor row col =>
    have hx := h.curX
    have hy := h.curY
    exact h.moveTo (by split <;> omega) (by split <;> omega)

end Steps

/-- **The cursor of the console stays on the screen**, and with it everything that is drawn or
cleared, in every run whose relative moves are moderate. -/
theorem sound_run_of_moderate (es : List Event) (h : EventRun.Along step Moderate init es) :
    (EventRun.run step init es).Sound := by
  have hinit : init.Inv :=
    ⟨⟨by decide, by decide, by decide, by simp [init]⟩, by decide, by decide,
      fun _ => show (0 : ℤ) < 2 ^ 31 by decide⟩
  exact (EventRun.run_invariant_of_along (fun _ e hs => hs.step e) hinit h).toSound

/-- Text and a move by three rows, which is moderate. -/
theorem sound_run_of_moderate_text :
    (EventRun.run step init ("ab\x1b[3B".toList.map .putc ++ [.setCursor 2 100])).Sound :=
  sound_run_of_moderate _ (by decide)

/-- `ESC [ 4294967271 A`: the number wraps to -25, and the cursor moves down to row 25. -/
theorem cursor_below_screen :
    ¬ (EventRun.run step init ("\x1b[4294967271A".toList.map .putc)).Sound :=
  fun h => absurd h.curY.2 (by decide)

end Fbcon

end SubOS.Drivers
