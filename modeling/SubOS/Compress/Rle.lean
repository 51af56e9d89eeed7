import Mathlib.Data.List.Basic

set_option autoImplicit false

/-!
# The run-length codec

A stream is a sequence of pairs of a count and a byte. The functions fill the output from its
beginning; `room` is the number of bytes left there. They return the number of bytes written, or
`none` for -1, and what they have written.

## Main definitions

* `rleCompress`, `rleDecompress`, `WellFormed` — the codec, and the streams it should accept.

## Main results

* `rle_iff`, `not_judged` — the round trip, and which streams are judged rightly.
-/

namespace SubOS.Compress

open List

/-- The inner loop of `rle_compress`: the length of the run, of which `run` bytes are counted. -/
def runLength (value : UInt8) : List UInt8 → ℕ → ℕ
  | [], run => run
  | b :: rest, run => if b = value ∧ run < 255 then runLength value rest (run + 1) else run

def rleCompress : List UInt8 → ℕ → Option ℕ × List UInt8
  | [], _ => (some 0, [])
  | value :: rest, room =>
    let run := runLength value rest 1
    if room < 2 then (none, [])
    else
      let (out, written) := rleCompress (rest.drop (run - 1)) (room - 2)
      (out.map (· + 2), UInt8.ofNat run :: value :: written)
  termination_by input => input.length
  decreasing_by
    rw [length_drop, length_cons]
    omega

/-- The loop stops in front of a single byte as well as at the end. -/
def rleDecompress : List UInt8 → ℕ → Option ℕ × List UInt8
  | run :: value :: rest, room =>
    if run = 0 then (none, [])
    else if room < run.toNat then (none, [])
    else
      let (out, written) := rleDecompress rest (room - run.toNat)
      (out.map (· + run.toNat), replicate run.toNat value ++ written)
  | _, _ => (some 0, [])

/-! ## Streams of pairs -/

/-- The stream of some pairs. -/
def stream (ps : List (UInt8 × UInt8)) : List UInt8 := ps.flatMap fun p => [p.1, p.2]

/-- What the pairs stand for. -/
def expand (ps : List (UInt8 × UInt8)) : List UInt8 := ps.flatMap fun p => replicate p.1.toNat p.2

/-- A stream of complete pairs without an empty run, whose expansion has room. -/
def WellFormed (s : List UInt8) (room : ℕ) : Prop :=
  ∃ ps, s = stream ps ∧ (∀ p ∈ ps, p.1 ≠ 0) ∧ (expand ps).length ≤ room

variable {ps : List (UInt8 × UInt8)} {s : List UInt8} {room : ℕ}

lemma length_stream : (stream ps).length = 2 * ps.length := by
  simp [stream, length_flatMap, Nat.mul_comm]

/-- **The expansion of a well-formed stream is written.** -/
lemma rleDecompress_stream (hps : ∀ p ∈ ps, p.1 ≠ 0) (hroom : (expand ps).length ≤ room) :
    rleDecompress (stream ps) room = (some (expand ps).length, expand ps) := by
  induction ps generalizing room with
  | nil => rfl
  | cons p ps ih =>
    have hlen : (expand (p :: ps)).length = p.1.toNat + (expand ps).length := by simp [expand]
    change rleDecompress (p.1 :: p.2 :: stream ps) room = (_, replicate p.1.toNat p.2 ++ expand ps)
    rw [rleDecompress, if_neg (hps p mem_cons_self), if_neg (by omega),
      ih (fun q hq => hps q (mem_cons_of_mem _ hq)) (by omega), hlen]
    simp [Nat.add_comm]

lemma wellFormed_cons_cons_iff {run value : UInt8} :
    WellFormed (run :: value :: s) room ↔
      run ≠ 0 ∧ run.toNat ≤ room ∧ WellFormed s (room - run.toNat) := by
  constructor
  · rintro ⟨ps, heq, hps, hroom⟩
    cases ps with
    | nil => cases heq
    | cons p ps =>
      obtain ⟨rfl, rfl, rfl⟩ : p.1 = run ∧ p.2 = value ∧ stream ps = s := by
        simpa [stream, eq_comm] using heq
      have hlen : (expand (p :: ps)).length = p.1.toNat + (expand ps).length := by simp [expand]
      exact ⟨hps p mem_cons_self, by omega, ps, rfl, fun q hq => hps q (mem_cons_of_mem _ hq),
        by omega⟩
  · rintro ⟨hrun, hle, ps, rfl, hps, hroom⟩
    refine ⟨(run, value) :: ps, rfl, forall_mem_cons.2 ⟨hrun, hps⟩, ?_⟩
    have hlen : (expand ((run, value) :: ps)).length = run.toNat + (expand ps).length := by
      simp [expand]
    omega

/-- What is accepted are the streams that are well-formed up to a last single byte. -/
lemma isSome_rleDecompress_iff :
    (rleDecompress s room).1.isSome ↔ WellFormed (s.take (2 * (s.length / 2))) room := by
  have hpair : ∀ (run value : UInt8) rest, (run :: value :: rest).take
      (2 * ((run :: value :: rest).length / 2)) =
        run :: value :: rest.take (2 * (rest.length / 2)) := by
    intro run value rest
    rw [show 2 * ((run :: value :: rest).length / 2) = 2 * (rest.length / 2) + 2 by
      simp only [length_cons]; omega]
    rfl
  fun_induction rleDecompress s room with
  | case1 value rest room =>
    rw [hpair, wellFormed_cons_cons_iff]
    exact iff_of_false (by simp) fun h => h.1 rfl
  | case2 run value rest room hrun hroom =>
    rw [hpair, wellFormed_cons_cons_iff]
    exact iff_of_false (by simp) fun h => by omega
  | case3 run value rest room hrun hroom out written heq ih =>
    rw [heq] at ih
    rw [hpair, wellFormed_cons_cons_iff, Option.isSome_map]
    exact ⟨fun h => ⟨hrun, by omega, ih.1 h⟩, fun h => ih.2 h.2.2⟩
  | case4 s room hs =>
    match s, hs with
    | [], _ => exact iff_of_true rfl ⟨[], rfl, by simp, by simp [expand]⟩
    | [b], _ => exact iff_of_true rfl ⟨[], by simp [stream], by simp, by simp [expand]⟩
    | a :: b :: s, hs => exact absurd rfl (hs a b s)

/-! ## Compression -/

/-- The bytes that are counted are copies of the first one. -/
lemma runLength_spec (value : UInt8) (rest : List UInt8) {run : ℕ} (hrun : run ≤ 255) :
    run ≤ runLength value rest run ∧ runLength value rest run ≤ 255 ∧
      rest = replicate (runLength value rest run - run) value ++
        rest.drop (runLength value rest run - run) := by
  fun_induction runLength value rest run with
  | case1 run => simp [hrun]
  | case2 b rest run hb ih =>
    obtain ⟨hle, h255, heq⟩ := ih (by omega)
    refine ⟨by omega, h255, ?_⟩
    rw [show runLength value rest (run + 1) - run =
      runLength value rest (run + 1) - (run + 1) + 1 by
      omega, replicate_succ, drop_succ_cons, cons_append, ← heq, hb.1]
  | case3 b rest run hb => simp [hrun]

/-- **The pairs of the runs are written**, at most one for each byte. -/
lemma rleCompress_eq (x : List UInt8) (hroom : 2 * x.length ≤ room) :
    ∃ ps, rleCompress x room = (some (stream ps).length, stream ps) ∧ expand ps = x ∧
      (∀ p ∈ ps, p.1 ≠ 0) ∧ ps.length ≤ x.length := by
  fun_induction rleCompress x room with
  | case1 room => exact ⟨[], rfl, rfl, by simp, Nat.le_refl 0⟩
  | case2 value rest room hlt =>
    rw [length_cons] at hroom
    omega
  | case3 value rest room run hge out written heq ih =>
    rw [length_cons] at hroom
    obtain ⟨hone, h255, hrest⟩ : 1 ≤ run ∧ run ≤ 255 ∧
        rest = replicate (run - 1) value ++ rest.drop (run - 1) :=
      runLength_spec value rest (by decide)
    clear_value run
    obtain ⟨ps, hcompress, hexpand, hps, hlen⟩ := ih (by rw [length_drop]; omega)
    rw [length_drop] at hlen
    have hrun : (UInt8.ofNat run).toNat = run := by
      rw [UInt8.toNat_ofNat']
      omega
    obtain ⟨rfl, rfl⟩ : out = some (stream ps).length ∧ written = stream ps := by
      rw [heq] at hcompress
      simpa using hcompress
    refine ⟨(UInt8.ofNat run, value) :: ps, rfl, ?_, forall_mem_cons.2 ⟨?_, hps⟩, ?_⟩
    · change replicate (UInt8.ofNat run).toNat value ++ expand ps = _
      rw [hrun, hexpand, show run = run - 1 + 1 by omega, replicate_succ, cons_append,
        Nat.add_sub_cancel, ← hrest]
    · intro hzero
      have hcount := congrArg UInt8.toNat hzero
      rw [hrun] at hcount
      change run = 0 at hcount
      omega
    · simp only [length_cons]
      omega

/-- The stream is judged rightly: it is accepted if and only if it is well-formed. -/
def Judged (s : List UInt8) (room : ℕ) : Prop :=
  (rleDecompress s room).1.isSome ↔ WellFormed s room

/-- **The round trip works, and a stream is judged rightly** exactly if its length is even or the
pairs in front of its last byte are not well-formed. -/
theorem rle_iff (x s : List UInt8) (room : ℕ) :
    (∀ r ≥ 2 * x.length, ∃ w, rleCompress x r = (some w.length, w) ∧ w.length ≤ 2 * x.length ∧
      ∀ r ≥ x.length, rleDecompress w r = (some x.length, x)) ∧
    (Judged s room ↔ s.length % 2 = 0 ∨ ¬ WellFormed s.dropLast room) := by
  refine ⟨fun r hr => ?_, ?_⟩
  · obtain ⟨ps, hcompress, hexpand, hps, hlen⟩ := rleCompress_eq x hr
    refine ⟨stream ps, hcompress, by rw [length_stream]; omega, fun r hr => ?_⟩
    rw [rleDecompress_stream hps (by rw [hexpand]; exact hr), hexpand]
  · unfold Judged
    rw [isSome_rleDecompress_iff]
    by_cases heven : s.length % 2 = 0
    · rw [take_of_length_le (by omega)]
      exact iff_of_true Iff.rfl (.inl heven)
    · have hodd : ¬ WellFormed s room := by
        rintro ⟨ps, rfl, -⟩
        rw [length_stream] at heven
        omega
      rw [show 2 * (s.length / 2) = s.length - 1 by omega, ← dropLast_eq_take]
      simp [hodd, heven]

/-- **A stream that ends in a count without a value is accepted.** -/
theorem not_judged : ¬ Judged [1, 65, 7] 4 := by
  intro h
  obtain ⟨ps, heq, -⟩ := h.1 rfl
  have hlen := congrArg length heq
  rw [length_stream] at hlen
  simp only [length_cons, length_nil] at hlen
  omega

end SubOS.Compress
