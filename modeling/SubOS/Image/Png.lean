import Mathlib.Data.List.MinMax
import SubOS.Lib.ByteMemory

set_option autoImplicit false

/-!
# The scanlines of a PNG image

The loop of `decode_png` that undoes the filters of the PNG standard. A filter replaces every byte
of a row by its difference to a prediction from the bytes to the left, above, and above to the left.
The loop reads the original bytes that it has already reconstructed, and so it adds the same
predictions.

## Main definitions

* `PngHeader.unfilterRows` — the loop over the rows.
* `PngHeader.filtered` — the rows as the standard filters them.

## Main results

* `PngHeader.unfilterRows_eq` — the loop gets the rows back.

## Design

The addresses are 32-bit numbers. With at most `IMAGE_MAX_PIXELS` pixels no product wraps around.
-/

namespace SubOS.Image

open Nat UInt8

def imageMaxPixels : ℕ := 4 * 1024 * 1024

/-- The fields of a header that `decode_png` accepts. -/
structure PngHeader where
  width : ℕ
  height : ℕ
  depth : ℕ
  color : ℕ
  width_pos : 0 < width
  height_pos : 0 < height
  pixels : width * height ≤ imageMaxPixels
  color_ok : color = 0 ∨ color = 2 ∨ color = 3 ∨ color = 4 ∨ color = 6
  depth_ok : depth = 8 ∨ (color = 0 ∨ color = 3) ∧ (depth = 1 ∨ depth = 2 ∨ depth = 4)

/-! ## The decoder -/

def iabs (x : ℤ) : ℤ := if x < 0 then -x else x

def paeth (a b c : ℤ) : ℤ :=
  let p := a + b - c
  let pa := iabs (p - a)
  let pb := iabs (p - b)
  let pc := iabs (p - c)
  if pa ≤ pb ∧ pa ≤ pc then a else if pb ≤ pc then b else c

/-- The `switch` over the filter type. -/
def unfilterByte (filter : UInt8) (a b c val : ℤ) : Option ℤ :=
  match filter.toNat with
  | 0 => some val
  | 1 => some (val + a)
  | 2 => some (val + b)
  | 3 => some (val + (a + b).tdiv 2)
  | 4 => some (val + paeth a b c)
  | _ => none

namespace PngHeader

def channels (h : PngHeader) : ℕ :=
  if h.color = 0 then 1 else if h.color = 2 then 3 else if h.color = 3 then 1
  else if h.color = 4 then 2 else 4

def bitsPp (h : PngHeader) : ℕ := h.channels * h.depth

def bpp (h : PngHeader) : ℕ := max ((h.bitsPp + 7) / 8) 1

def stride (h : PngHeader) : ℕ := (h.width * h.bitsPp + 7) % 2 ^ 32 / 8

/-- The first `n` bytes of row `y`. -/
def unfilterRow (h : PngHeader) (raw : ByteMemory) (y : ℕ) : ℕ → ByteMemory → Option ByteMemory
  | 0, unf => some unf
  | x + 1, unf => do
    let unf ← h.unfilterRow raw y x unf
    let filter := raw (y * (h.stride + 1) % 2 ^ 32)
    let rowin := y * (h.stride + 1) % 2 ^ 32 + 1
    let row := y * h.stride % 2 ^ 32
    let prev := (y - 1) * h.stride % 2 ^ 32
    let a := if h.bpp ≤ x then (unf (row + (x - h.bpp))).toNat else 0
    let b := if 0 < y then (unf (prev + x)).toNat else 0
    let c := if 0 < y ∧ h.bpp ≤ x then (unf (prev + (x - h.bpp))).toNat else 0
    let val ← unfilterByte filter a b c (raw (rowin + x)).toNat
    some (Function.update unf (row + x) (UInt8.ofInt val))

/-- The first `n` rows. -/
def unfilterRows (h : PngHeader) (raw : ByteMemory) : ℕ → ByteMemory → Option ByteMemory
  | 0, unf => some unf
  | y + 1, unf => (h.unfilterRows raw y unf).bind (h.unfilterRow raw y h.stride)

end PngHeader

/-! ## The filters of the standard -/

/-- The filter types. -/
inductive PngFilter where
  | none
  | sub
  | up
  | average
  | paeth

namespace PngFilter

/-- The number of a filter type. -/
def type : PngFilter → UInt8
  | .none => 0
  | .sub => 1
  | .up => 2
  | .average => 3
  | .paeth => 4

/-- The prediction from the bytes to the left, above, and above to the left. The Paeth predictor is
the first of the three that is closest to `a + b - c`. -/
def predict (a b c : ℕ) : PngFilter → ℕ
  | .none => 0
  | .sub => a
  | .up => b
  | .average => (a + b) / 2
  | .paeth => ([a, b, c].argmin fun v : ℕ => ((a : ℤ) + b - c - v).natAbs).getD 0

end PngFilter

namespace PngHeader

variable (h : PngHeader) (filters : ℕ → PngFilter) (orig : ℕ → ℕ → UInt8)

/-- The prediction of byte `x` of row `y`. Outside the image there are zeros. -/
def predicted (y x : ℕ) : ℕ :=
  (filters y).predict (if h.bpp ≤ x then (orig y (x - h.bpp)).toNat else 0)
    (if 0 < y then (orig (y - 1) x).toNat else 0)
    (if 0 < y ∧ h.bpp ≤ x then (orig (y - 1) (x - h.bpp)).toNat else 0)

/-- The filtered rows, each behind the type of its filter. -/
def filtered : ByteMemory := fun i =>
  let y := i / (h.stride + 1)
  match i % (h.stride + 1) with
  | 0 => (filters y).type
  | x + 1 => orig y x - UInt8.ofNat (h.predicted filters orig y x)

end PngHeader

/-! ## One byte -/

lemma iabs_eq (x : ℤ) : iabs x = x.natAbs := by
  unfold iabs
  split_ifs <;> omega

lemma paeth_eq (a b c : ℕ) : paeth a b c = PngFilter.paeth.predict a b c := by
  unfold paeth PngFilter.predict
  simp only [iabs_eq]
  rw [List.argmin_cons, List.argmin_cons, List.argmin_singleton]
  dsimp only
  split_ifs <;> dsimp only <;> split_ifs <;> simp only [Option.getD_some] <;> omega

lemma PngFilter.predict_lt (f : PngFilter) {a b c : ℕ} (ha : a < 256) (hb : b < 256)
    (hc : c < 256) :
    f.predict a b c < 256 := by
  cases f with
  | none => exact succ_pos 255
  | sub => exact ha
  | up => exact hb
  | average =>
    show (a + b) / 2 < 256
    omega
  | paeth =>
    have hpaeth := paeth_eq a b c
    unfold Image.paeth at hpaeth
    dsimp only at hpaeth
    split_ifs at hpaeth <;> omega

/-- The decoder adds what the filter has subtracted. -/
lemma unfilterByte_type (f : PngFilter) (a b c : ℕ) (val : ℤ) :
    unfilterByte f.type a b c val = some (val + f.predict a b c) := by
  cases f with
  | none => exact congrArg some (add_zero val).symm
  | sub | up => rfl
  | average =>
    show some (val + ((a : ℤ) + b).tdiv 2) = some (val + ((a + b) / 2 : ℕ))
    rw [Int.tdiv_eq_ediv_of_nonneg (by omega)]
    rfl
  | paeth => exact congrArg (fun v => some (val + v)) (paeth_eq a b c)

lemma ofInt_sub_add {p : ℕ} (hp : p < 256) (v : UInt8) :
    ofInt (((v - ofNat p).toNat : ℤ) + p) = v := by
  have hv := v.toNat_lt
  apply toNat.inj
  simp only [ofInt, toNat_ofNat', UInt8.toNat_sub]
  omega

/-! ## Rows -/

namespace PngHeader

variable (h : PngHeader)

lemma bitsPp_le : h.bitsPp ≤ 32 := by
  have hchannels : h.channels ≤ 4 := by
    unfold channels
    split_ifs <;> decide
  have hdepth : h.depth ≤ 8 := by
    have := h.depth_ok
    omega
  exact Nat.mul_le_mul hchannels hdepth

lemma height_mul_le : h.height * (h.stride + 1) < 2 ^ 32 := by
  have hwidth : h.width * h.bitsPp ≤ h.width * 32 := mul_le_mul_left _ h.bitsPp_le
  have hstride : h.stride + 1 ≤ 5 * h.width := by
    have := h.width_pos
    unfold stride
    omega
  calc h.height * (h.stride + 1) ≤ h.height * (5 * h.width) := mul_le_mul_left _ hstride
    _ = 5 * (h.width * h.height) := by ring
    _ ≤ 5 * imageMaxPixels := mul_le_mul_left _ h.pixels
    _ < 2 ^ 32 := by decide

variable {h} {filters : ℕ → PngFilter} {orig : ℕ → ℕ → UInt8} {unf : ByteMemory} {x y : ℕ}

lemma rowin_lt (hy : y < h.height) : y * (h.stride + 1) % 2 ^ 32 = y * (h.stride + 1) :=
  mod_eq_of_lt ((mul_le_mul_right _ hy.le).trans_lt h.height_mul_le)

lemma row_lt (hy : y < h.height) : y * h.stride % 2 ^ 32 = y * h.stride :=
  mod_eq_of_lt ((Nat.mul_le_mul hy.le (le_succ _)).trans_lt h.height_mul_le)

lemma filtered_type (y : ℕ) : h.filtered filters orig (y * (h.stride + 1)) = (filters y).type := by
  unfold filtered
  rw [Nat.mul_div_cancel _ (succ_pos _), mul_mod_left]

lemma filtered_byte (hx : x < h.stride) : h.filtered filters orig (y * (h.stride + 1) + 1 + x) =
    orig y x - ofNat (h.predicted filters orig y x) := by
  unfold filtered
  rw [show y * (h.stride + 1) + 1 + x = (x + 1) + (h.stride + 1) * y by ring,
    add_mul_div_left _ _ (succ_pos _), add_mul_mod_self_left, div_eq_of_lt (by omega),
    mod_eq_of_lt (by omega), zero_add]

/-- The first `n` bytes of the image have been reconstructed. -/
def Restored (h : PngHeader) (orig : ℕ → ℕ → UInt8) (n : ℕ) (unf : ByteMemory) : Prop :=
  ∀ y x, x < h.stride → y * h.stride + x < n → unf (y * h.stride + x) = orig y x

section

variable (filters : ℕ → PngFilter)

lemma predicted_lt (orig : ℕ → ℕ → UInt8) (y x : ℕ) : h.predicted filters orig y x < 256 := by
  have hbyte : ∀ (p : Prop) [Decidable p] (v : UInt8), (if p then v.toNat else 0) < 256 := by
    intro p _ v
    have := v.toNat_lt
    split_ifs <;> omega
  exact (filters y).predict_lt (hbyte _ _) (hbyte _ _) (hbyte _ _)

/-- **A row is reconstructed**, if those before it are. -/
lemma unfilterRow_filtered (hy : y < h.height)
    (hunf : h.Restored orig (y * h.stride) unf) {n : ℕ} (hn : n ≤ h.stride) :
    ∃ unf', h.unfilterRow (h.filtered filters orig) y n unf = some unf' ∧
      h.Restored orig (y * h.stride + n) unf' := by
  induction n with
  | zero => exact ⟨unf, rfl, hunf⟩
  | succ x ih =>
    obtain ⟨unf', hrow, hdone⟩ := ih (by omega)
    have hbpp : 0 < h.bpp := lt_of_lt_of_le one_pos (le_max_right _ _)
    have hprev : 0 < y → (y - 1) * h.stride + h.stride = y * h.stride := by
      intro hpos
      rw [← succ_mul, succ_eq_add_one, Nat.sub_add_cancel hpos]
    have ha : (if h.bpp ≤ x then (unf' (y * h.stride + (x - h.bpp))).toNat else 0) =
        if h.bpp ≤ x then (orig y (x - h.bpp)).toNat else 0 :=
      ite_congr rfl (fun hx => by rw [hdone _ _ (by omega) (by omega)]) fun _ => rfl
    have hb : (if 0 < y then (unf' ((y - 1) * h.stride + x)).toNat else 0) =
        if 0 < y then (orig (y - 1) x).toNat else 0 :=
      ite_congr rfl (fun hy => by
        rw [hdone _ _ (by omega) (by omega)]) fun _ => rfl
    have hc : (if 0 < y ∧ h.bpp ≤ x then (unf' ((y - 1) * h.stride + (x - h.bpp))).toNat else 0) =
        if 0 < y ∧ h.bpp ≤ x then (orig (y - 1) (x - h.bpp)).toNat else 0 :=
      ite_congr rfl (fun hyx => by
        rw [hdone _ _ (by omega) (by omega)]) fun _ => rfl
    refine ⟨Function.update unf' (y * h.stride + x) (orig y x), ?_, fun y' x' hx' hlt => ?_⟩
    · unfold unfilterRow
      rw [hrow, Option.bind_eq_bind, Option.bind_some]
      dsimp only
      rw [rowin_lt hy, row_lt hy, row_lt (show y - 1 < h.height by omega), ha, hb, hc,
        filtered_type, filtered_byte (by omega), unfilterByte_type, Option.bind_eq_bind,
        Option.bind_some]
      exact congrArg (fun v => some (Function.update unf' _ v)) (ofInt_sub_add (predicted_lt ..) _)
    · by_cases hlast : y' * h.stride + x' = y * h.stride + x
      · obtain rfl : y' = y := by
          have hdiv := congrArg (· / h.stride) hlast
          simpa [mul_comm _ h.stride, mul_add_div (show 0 < h.stride by omega), div_eq_of_lt hx',
            div_eq_of_lt (show x < h.stride by omega)] using hdiv
        obtain rfl : x' = x := by omega
        rw [Function.update_self]
      · rw [Function.update_of_ne hlast]
        exact hdone y' x' hx' (by omega)

lemma unfilterRows_filtered (orig : ℕ → ℕ → UInt8) (unf : ByteMemory) {n : ℕ} (hn : n ≤ h.height) :
    ∃ unf', h.unfilterRows (h.filtered filters orig) n unf = some unf' ∧
      h.Restored orig (n * h.stride) unf' := by
  induction n with
  | zero => exact ⟨unf, rfl, fun y x _ hlt => by omega⟩
  | succ y ih =>
    obtain ⟨unf₁, hrows, hdone⟩ := ih (by omega)
    obtain ⟨unf₂, hrow, hdone⟩ := unfilterRow_filtered filters hn hdone le_rfl
    refine ⟨unf₂, ?_, ?_⟩
    · rw [unfilterRows, hrows, Option.bind_some, hrow]
    · rwa [succ_mul]

end

/-- **The scanline loop of `decode_png` inverts the filters of the standard**, whatever filter each
row has. -/
theorem unfilterRows_eq (h : PngHeader) (filters : ℕ → PngFilter) (orig : ℕ → ℕ → UInt8)
    (unf : ByteMemory) :
    ∃ unf', h.unfilterRows (h.filtered filters orig) h.height unf = some unf' ∧
      ∀ y < h.height, ∀ x < h.stride, unf' (y * h.stride + x) = orig y x := by
  obtain ⟨unf', hrows, hdone⟩ := unfilterRows_filtered filters orig unf le_rfl
  refine ⟨unf', hrows, fun y hy x hx => hdone y x hx ?_⟩
  calc y * h.stride + x < y * h.stride + h.stride := Nat.add_lt_add_left hx _
    _ = (y + 1) * h.stride := (succ_mul _ _).symm
    _ ≤ h.height * h.stride := mul_le_mul_right _ hy

/-- Two rows of two RGBA pixels. -/
def square : PngHeader where
  width := 2
  height := 2
  depth := 8
  color := 6
  width_pos := by decide
  height_pos := by decide
  pixels := by decide
  color_ok := by decide
  depth_ok := by decide

/-- The first row is not filtered, the second has the Paeth filter. -/
example : (square.unfilterRows (fun i => [0, 10, 20, 30, 255, 40, 15, 60, 255,
      4, 6, 0, 250, 0, 5, 1, 200, 0].getD i 0) 2 fun _ => 0).map (List.map · (List.range 16)) =
    some [10, 20, 30, 255, 40, 15, 60, 255, 16, 20, 24, 255, 45, 16, 4, 255] := by
  decide +kernel

end PngHeader

end SubOS.Image
