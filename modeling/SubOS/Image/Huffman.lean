import Mathlib.Data.List.Basic
import Mathlib.Tactic.Ring

set_option autoImplicit false

/-!
# Huffman codes of JPEG images

`build_huff`, `getbit` and `huff_decode` of `lib/jpeg.c`, against the code words of Annex C of the
standard. A code word is a length and a number, and a sequence of bits starts with it if the number
that its first bits make up is the one of the word.

The decoder compares the bits read so far with the code words of every length. As long as no word
matches, the number is above all words of its length, so that the difference to the first one is not
negative and the index stays inside the table.

## Main definitions

* `HuffTable.huffDecode`, `HuffTable.words` — the decoder, and the code words of the standard.
* `BitReader.stream` — the bits of the data behind the reader.

## Main results

* `BitReader.bits_eq` — the reader delivers the bits of the data.
* `HuffTable.huffDecode_eq` — the decoder finds the code word that the bits start with.
-/

namespace SubOS.Image

open Nat List

/-- A table `huff_t` with the numbers of code words of the lengths 1 to 16, and at most 256 symbols.
-/
structure HuffTable where
  counts : ℕ → ℕ
  symbols : ℕ → UInt8
  total_le : ((List.range' 1 16).map counts).sum ≤ 256

/-- The bit reader of `jpeg_t`. -/
structure BitReader where
  data : List UInt8
  pos : ℕ
  bitbuf : UInt8
  bitcnt : ℕ
  marker : UInt8

/-! ## The decoder -/

namespace HuffTable

/-- `code` and `k` after `l` rounds of `build_huff`. -/
def buildHuff (h : HuffTable) : ℕ → ℕ × ℕ
  | 0 => (0, 0)
  | l + 1 =>
    let (code, k) := h.buildHuff l
    ((code + h.counts (l + 1)) <<< 1, k + h.counts (l + 1))

def firstCode (h : HuffTable) (l : ℕ) : ℕ := (h.buildHuff (l - 1)).1

def symIndex (h : HuffTable) (l : ℕ) : ℕ := (h.buildHuff (l - 1)).2

end HuffTable

namespace BitReader

/-- The bits of the current byte. -/
def nextBit (j : BitReader) : ℕ × BitReader :=
  ((j.bitbuf.toNat >>> (j.bitcnt - 1)) % 2, { j with bitcnt := j.bitcnt - 1 })

def getbit (j : BitReader) : ℕ × BitReader :=
  if j.bitcnt = 0 then
    if j.marker ≠ 0 then (0, j)
    else
      match j.data[j.pos]? with
      | none => (0, { j with marker := 0xD9 })
      | some b =>
        let j := { j with pos := j.pos + 1 }
        if b = 0xFF then
          let b2 : UInt8 := j.data.getD j.pos 0xD9
          -- a zero stands behind a byte `0xFF` of the data
          if b2 = 0 then { j with pos := j.pos + 1, bitbuf := b, bitcnt := 8 }.nextBit
          else (0, { j with marker := b2 })
        else { j with bitbuf := b, bitcnt := 8 }.nextBit
  else j.nextBit

/-- The reader after `n` bits. -/
def after (j : BitReader) : ℕ → BitReader
  | 0 => j
  | n + 1 => (j.after n).getbit.2

/-- The number that the next `n` bits make up. -/
def bits (j : BitReader) : ℕ → ℕ
  | 0 => 0
  | n + 1 => 2 * j.bits n + (j.after n).getbit.1

/-! ## The bits of the data -/

/-- The bytes of the data up to a marker, without the zeros behind `0xFF`. -/
def destuff : List UInt8 → List UInt8
  | [] => []
  | [b] => if b = 0xFF then [] else [b]
  | b :: b2 :: rest =>
    if b = 0xFF then if b2 = 0 then b :: destuff rest else [] else b :: destuff (b2 :: rest)

/-- The last `n` bits of a byte, the most significant first. -/
def lowBits (b : UInt8) : ℕ → List ℕ
  | 0 => []
  | n + 1 => (b.toNat >>> n) % 2 :: lowBits b n

/-- The bits that are left: those of the current byte, and those of the bytes behind it. -/
def stream (j : BitReader) : List ℕ :=
  lowBits j.bitbuf j.bitcnt ++
    if j.marker = 0 then (destuff (j.data.drop j.pos)).flatMap (lowBits · 8) else []

variable (j : BitReader)

lemma destuff_cons (b : UInt8) (rest : List UInt8) :
    destuff (b :: rest) =
      if b = 0xFF then if rest.headD 0xD9 = 0 then b :: destuff rest.tail else []
      else b :: destuff rest := by
  cases rest <;> rfl

lemma nextBit_stream {n : ℕ} (hcnt : j.bitcnt = n + 1) :
    j.nextBit.1 = j.stream.headD 0 ∧ j.nextBit.2.stream = j.stream.tail := by
  simp [nextBit, stream, hcnt, lowBits]

/-- **`getbit` takes the next bit of the data**, and zeros behind the last one. -/
lemma getbit_stream : j.getbit.1 = j.stream.headD 0 ∧ j.getbit.2.stream = j.stream.tail := by
  unfold getbit
  split_ifs with hcnt hmarker
  · simp [stream, hcnt, hmarker, lowBits]
  · rw [not_not] at hmarker
    -- the bits of a byte are there before it is read
    have hload : ∀ p b, destuff (j.data.drop j.pos) = b :: destuff (j.data.drop p) →
        j.stream = { j with pos := p, bitbuf := b, bitcnt := 8 }.stream := by
      intro p b hp
      simp [stream, hcnt, hmarker, hp, lowBits]
    cases hb : j.data[j.pos]? with
    | none =>
      have hnil : j.data.drop j.pos = [] := drop_eq_nil_of_le (getElem?_eq_none_iff.1 hb)
      simp [stream, hcnt, lowBits, hnil, destuff]
    | some b =>
      have hrest : j.data.drop j.pos = b :: j.data.drop (j.pos + 1) := by
        obtain ⟨hlt, rfl⟩ := List.getElem?_eq_some_iff.1 hb
        exact drop_eq_getElem_cons hlt
      have hsecond : (j.data.drop (j.pos + 1)).headD 0xD9 = j.data.getD (j.pos + 1) 0xD9 := by
        simp [headD_eq_head?_getD]
      have hdestuff := destuff_cons b (j.data.drop (j.pos + 1))
      rw [← hrest, hsecond, tail_drop] at hdestuff
      dsimp only
      split_ifs at hdestuff ⊢
      · rw [hload _ _ hdestuff]
        exact nextBit_stream _ rfl
      · simp_all [stream, lowBits]
      · rw [hload _ _ hdestuff]
        exact nextBit_stream _ rfl
  · exact j.nextBit_stream (succ_pred hcnt).symm

lemma after_stream (n : ℕ) : (j.after n).stream = j.stream.drop n := by
  induction n with
  | zero => rfl
  | succ n ih => rw [after, (getbit_stream _).2, ih, tail_drop]

/-- **The bits are those of the data**, the most significant first. -/
theorem bits_eq (n : ℕ) :
    j.bits n = (range n).foldl (fun v i => 2 * v + j.stream.getD i 0) 0 := by
  induction n with
  | zero => rfl
  | succ n ih =>
    rw [bits, ih, (getbit_stream _).1, after_stream, range_succ, foldl_append]
    simp [headD_eq_head?_getD]

end BitReader

namespace HuffTable

/-- The loop of `huff_decode` for the lengths from `l` on. There is no result if the index of the
symbol is outside the table. -/
def huffDecodeFrom (h : HuffTable) : ℕ → ℕ → ℕ → BitReader → Option (ℤ × BitReader)
  | 0, _, _, j => some (-1, j)
  | n + 1, l, code, j =>
    let (bit, j) := j.getbit
    let code := code <<< 1 ||| bit
    let diff := (code : ℤ) - h.firstCode l
    if h.counts l ≠ 0 ∧ diff < h.counts l then
      let i := h.symIndex l + diff
      if 0 ≤ i ∧ i < 256 then some ((h.symbols i.toNat).toNat, j) else none
    else h.huffDecodeFrom n (l + 1) code j

def huffDecode (h : HuffTable) (j : BitReader) : Option (ℤ × BitReader) := h.huffDecodeFrom 16 1 0 j

/-! ## Annex C -/

/-- The lengths of the code words, in order. -/
def sizes (h : HuffTable) : List ℕ :=
  (List.range' 1 16).flatMap fun l => List.replicate (h.counts l) l

/-- The code words for a list of lengths: the number goes up by one from word to word, and gets
zeros appended where the length grows. The last word had the length `si`, and the next number is
`code`. -/
def codeWords (code si : ℕ) : List ℕ → List (ℕ × ℕ)
  | [] => []
  | s :: sizes => (s, code <<< (s - si)) :: codeWords ((code <<< (s - si)) + 1) s sizes

/-- The code words of the table. -/
def words (h : HuffTable) : List (ℕ × ℕ) := codeWords 0 0 h.sizes

variable (h : HuffTable)

lemma firstCode_succ (l : ℕ) :
    h.firstCode (l + 2) = 2 * (h.firstCode (l + 1) + h.counts (l + 1)) := by
  show (h.firstCode (l + 1) + h.counts (l + 1)) <<< 1 = _
  rw [shiftLeft_eq, mul_comm]

lemma symIndex_succ (l : ℕ) : h.symIndex (l + 2) = h.symIndex (l + 1) + h.counts (l + 1) := rfl

/-- The code words of one length. -/
def wordsOf (l : ℕ) : List (ℕ × ℕ) := (List.range (h.counts l)).map fun r => (l, h.firstCode l + r)

lemma codeWords_replicate (n code s : ℕ) (rest : List ℕ) :
    codeWords code s (replicate n s ++ rest) =
      (range n).map (fun r => (s, code + r)) ++ codeWords (code + n) s rest := by
  induction n generalizing code with
  | zero => rfl
  | succ n ih =>
    rw [replicate_succ, cons_append, codeWords, Nat.sub_self, shiftLeft_zero, ih, range_succ_eq_map]
    simp [Function.comp_def, add_comm, add_left_comm]

/-- The procedure of the standard gives the words of every length consecutive numbers, from the one
that `build_huff` computes. -/
lemma codeWords_eq (m l code si : ℕ) (hsi : si ≤ l + 1)
    (hcode : code <<< (l + 1 - si) = h.firstCode (l + 1)) :
    codeWords code si ((range' (l + 1) m).flatMap fun l => replicate (h.counts l) l) =
      (range' (l + 1) m).flatMap h.wordsOf := by
  induction m generalizing l code si with
  | zero => rfl
  | succ m ih =>
    rw [range'_succ, flatMap_cons, flatMap_cons]
    by_cases hzero : h.counts (l + 1) = 0
    · rw [wordsOf, hzero]
      refine ih (l + 1) code si (by omega) ?_
      rw [firstCode_succ, hzero, ← hcode, show l + 1 + 1 - si = l + 1 - si + 1 by omega,
        shiftLeft_succ]
      rfl
    · have hshift : ∀ rest, codeWords code si (replicate (h.counts (l + 1)) (l + 1) ++ rest) =
          codeWords (h.firstCode (l + 1)) (l + 1)
            (replicate (h.counts (l + 1)) (l + 1) ++ rest) := by
        intro rest
        obtain ⟨n, hn⟩ := exists_eq_succ_of_ne_zero hzero
        rw [hn, replicate_succ, cons_append, codeWords, codeWords, hcode, Nat.sub_self,
          shiftLeft_zero]
      rw [hshift, codeWords_replicate, ih (l + 1) _ (l + 1) (by omega), wordsOf]
      rw [firstCode_succ, show l + 1 + 1 - (l + 1) = 1 by omega, shiftLeft_eq, mul_comm]

lemma words_eq : h.words = (range' 1 16).flatMap h.wordsOf :=
  h.codeWords_eq 16 0 0 0 (by decide) rfl

lemma length_flatMap_wordsOf (m : ℕ) :
    ((range' 1 m).flatMap h.wordsOf).length = h.symIndex (m + 1) := by
  induction m with
  | zero => rfl
  | succ m ih =>
    rw [range'_1_concat, flatMap_append, length_append, ih, symIndex_succ]
    simp [wordsOf, add_comm]

lemma getElem?_flatMap_wordsOf {m l r : ℕ} (hl : l < m) (hr : r < h.counts (l + 1)) :
    ((range' 1 m).flatMap h.wordsOf)[h.symIndex (l + 1) + r]? =
      some (l + 1, h.firstCode (l + 1) + r) := by
  induction m with
  | zero => omega
  | succ m ih =>
    have hlen := h.length_flatMap_wordsOf m
    rw [range'_1_concat, flatMap_append]
    rcases Nat.lt_succ_iff_lt_or_eq.1 hl with hlt | rfl
    · have hsome := ih hlt
      rw [getElem?_append_left (List.getElem?_eq_some_iff.1 hsome).1, hsome]
    · rw [getElem?_append_right (by omega), hlen, Nat.add_sub_cancel_left]
      simp [wordsOf, hr, add_comm 1]

/-- The index of a code word, by its length and its place among those of that length. -/
lemma exists_of_lt_symIndex {i m : ℕ} (hi : i < h.symIndex (m + 1)) :
    ∃ l < m, ∃ r < h.counts (l + 1), i = h.symIndex (l + 1) + r := by
  induction m with
  | zero => exact absurd hi (not_lt_zero i)
  | succ m ih =>
    rw [symIndex_succ] at hi
    by_cases hlt : i < h.symIndex (m + 1)
    · obtain ⟨l, hl, hr⟩ := ih hlt
      exact ⟨l, by omega, hr⟩
    · exact ⟨m, by omega, i - h.symIndex (m + 1), by omega, by omega⟩

/-- **The code words** are those of the lengths 1 to 16, with the numbers of `build_huff`. -/
lemma getElem?_words_iff {i s c : ℕ} : h.words[i]? = some (s, c) ↔
    ∃ l < 16, ∃ r < h.counts (l + 1), i = h.symIndex (l + 1) + r ∧ s = l + 1 ∧
      c = h.firstCode (l + 1) + r := by
  rw [words_eq]
  constructor
  · intro hi
    have hlt := (List.getElem?_eq_some_iff.1 hi).1
    rw [length_flatMap_wordsOf] at hlt
    obtain ⟨l, hl, r, hr, rfl⟩ := h.exists_of_lt_symIndex hlt
    rw [h.getElem?_flatMap_wordsOf hl hr] at hi
    cases hi
    exact ⟨l, hl, r, hr, rfl, rfl, rfl⟩
  · rintro ⟨l, hl, r, hr, rfl, rfl, rfl⟩
    exact h.getElem?_flatMap_wordsOf hl hr

lemma symIndex_lt {l r : ℕ} (hl : l < 16) (hr : r < h.counts (l + 1)) :
    h.symIndex (l + 1) + r < 256 := by
  have hmono : Monotone fun l => h.symIndex (l + 1) :=
    monotone_nat_of_le_succ fun l => le_add_right _ _
  have hle : h.symIndex (l + 2) ≤ h.symIndex 17 := hmono hl
  have htotal : h.symIndex 17 = ((range' 1 16).map h.counts).sum := by
    rw [← length_flatMap_wordsOf, length_flatMap]
    simp [wordsOf]
  have := h.total_le
  rw [symIndex_succ] at hle
  omega

/-! ## Decoding -/

variable {h} {j : BitReader} {l n : ℕ}

lemma getbit_le (j : BitReader) : j.getbit.1 ≤ 1 := by
  have hbit : ∀ j : BitReader, j.nextBit.1 ≤ 1 := fun j => le_of_lt_succ (mod_lt _ (by decide))
  unfold BitReader.getbit
  dsimp only
  repeat' split
  all_goals first | exact hbit _ | exact zero_le 1

/-- The bits so far are above all code words of their length. -/
def Above (h : HuffTable) (j : BitReader) (l : ℕ) : Prop := h.firstCode l + h.counts l ≤ j.bits l

/-- The bits are above all shorter words if they are not below those of the next length. -/
lemma above_of_le (hle : h.firstCode (l + 2) ≤ j.bits (l + 2)) : h.Above j (l + 1) := by
  have hbits : j.bits (l + 2) = 2 * j.bits (l + 1) + (j.after (l + 1)).getbit.1 := rfl
  have := getbit_le (j.after (l + 1))
  rw [firstCode_succ] at hle
  unfold Above
  omega

lemma above_of_lt (hle : h.firstCode (l + 1) ≤ j.bits (l + 1)) {k : ℕ} (hk : k < l) :
    h.Above j (k + 1) := by
  induction l with
  | zero => omega
  | succ l ih =>
    have habove := above_of_le hle
    rcases Nat.lt_succ_iff_lt_or_eq.1 hk with hlt | rfl
    · exact ih ((le_add_right _ _).trans habove) hlt
    · exact habove

lemma firstCode_le_of_above (habove : ∀ k < l, h.Above j (k + 1)) :
    h.firstCode (l + 1) ≤ j.bits (l + 1) := by
  cases l with
  | zero => exact zero_le _
  | succ l =>
    rw [firstCode_succ]
    exact (mul_le_mul_left 2 (habove l (lt_succ_self l))).trans (le_add_right _ _)

lemma code_or (j : BitReader) (l : ℕ) :
    j.bits l <<< 1 ||| (j.after l).getbit.1 = j.bits (l + 1) := by
  rw [← shiftLeft_add_eq_or_of_lt (lt_succ_of_le (getbit_le _)), shiftLeft_eq, mul_comm]
  rfl

lemma huffDecodeFrom_above (habove : h.Above j (l + 1)) :
    h.huffDecodeFrom (n + 1) (l + 1) (j.bits l) (j.after l) =
      h.huffDecodeFrom n (l + 2) (j.bits (l + 1)) (j.after (l + 1)) := by
  unfold Above at habove
  rw [huffDecodeFrom]
  dsimp only
  rw [code_or, if_neg (by omega)]
  rfl

lemma huffDecodeFrom_word {r : ℕ} (hl : l < 16) (hr : r < h.counts (l + 1))
    (hbits : j.bits (l + 1) = h.firstCode (l + 1) + r) :
    h.huffDecodeFrom (n + 1) (l + 1) (j.bits l) (j.after l) =
      some (((h.symbols (h.symIndex (l + 1) + r)).toNat : ℤ), j.after (l + 1)) := by
  have hlt := h.symIndex_lt hl hr
  rw [huffDecodeFrom]
  dsimp only
  rw [code_or, hbits, if_pos (by omega), cast_add, add_sub_cancel_left, if_pos (by omega),
    ← cast_add, Int.toNat_natCast]
  rfl

/-- **While the bits are above all words** of their length, the decoder goes on. -/
lemma huffDecode_above (hl : l ≤ 16) (habove : ∀ k < l, h.Above j (k + 1)) :
    h.huffDecode j = h.huffDecodeFrom (16 - l) (l + 1) (j.bits l) (j.after l) := by
  induction l with
  | zero => rfl
  | succ l ih =>
    rw [ih (by omega) fun k hk => habove k (by omega), show 16 - l = 16 - (l + 1) + 1 by omega,
      huffDecodeFrom_above (habove l (lt_succ_self l))]

/-- **`huff_decode` decodes the code words of Annex C**, and returns -1 after 16 bits if the bits
start with none. -/
theorem huffDecode_eq (h : HuffTable) (j : BitReader) :
    (∀ i s c, h.words[i]? = some (s, c) → j.bits s = c →
      h.huffDecode j = some (((h.symbols i).toNat : ℤ), j.after s)) ∧
    ((∀ (i : ℕ) s c, h.words[i]? = some (s, c) → j.bits s ≠ c) →
      h.huffDecode j = some (-1, j.after 16)) := by
  refine ⟨fun i s c hword hbits => ?_, fun hnone => ?_⟩
  · obtain ⟨l, hl, r, hr, rfl, rfl, rfl⟩ := h.getElem?_words_iff.1 hword
    have hle : h.firstCode (l + 1) ≤ j.bits (l + 1) := by omega
    rw [huffDecode_above hl.le fun k hk => above_of_lt hle hk, show 16 - l = 15 - l + 1 by omega,
      huffDecodeFrom_word hl hr hbits]
  · have habove : ∀ l ≤ 16, ∀ k < l, h.Above j (k + 1) := by
      intro l hl
      induction l with
      | zero => nofun
      | succ l ih =>
        intro k hk
        rcases Nat.lt_succ_iff_lt_or_eq.1 hk with hlt | rfl
        · exact ih (by omega) k hlt
        · by_contra hnot
          have hle := firstCode_le_of_above (ih (by omega))
          unfold Above at hnot
          exact hnone _ _ _ (h.getElem?_words_iff.2 ⟨k, hl, j.bits (k + 1) - h.firstCode (k + 1),
            by omega, rfl, rfl, rfl⟩) (by omega)
    rw [huffDecode_above le_rfl (habove 16 le_rfl)]
    rfl

/-- The words 00, 01, 10 and 110. -/
def small : HuffTable where
  counts l := [0, 3, 1].getD (l - 1) 0
  symbols i := [5, 0, 7, 9].getD i 0
  total_le := by decide

example : (small.huffDecode ⟨[0xDB], 0, 0, 0, 0⟩).map Prod.fst = some 9 := by decide

example : (small.huffDecode ⟨[0xFF, 0x00], 0, 0, 0, 0⟩).map Prod.fst = some (-1) := by decide

end HuffTable

end SubOS.Image
