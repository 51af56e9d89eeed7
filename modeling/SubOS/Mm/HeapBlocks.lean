import SubOS.Mm.Kmalloc

set_option autoImplicit false

/-!
# The block list of the heap

What the memory of the heap stands for: a list of blocks, linked through their headers, that tile
the runs of the heap.

## Main definitions

* `Blk`, `Shape` — a block; these blocks are the list of the heap.

## Main results

* `Shape.setFree`, `Shape.absorb`, `Shape.splitBlock`, `Shape.addRegion` — each operation on headers
  is the one on the list that it is meant to be.
-/

namespace SubOS.Mm

open Span List ByteMemory

lemma wrap_of_lt {n : ℕ} (h : n < 2 ^ 64) : wrap n = n := by
  unfold wrap
  exact Nat.mod_eq_of_lt h

lemma wsub_of_le {a b : ℕ} (hb : b ≤ a) (ha : a < 2 ^ 64) : wsub a b = a - b := by
  unfold wsub
  omega

/-- A block: its address, the size of its payload, and whether it is free. -/
structure Blk where
  addr : ℕ
  size : ℕ
  free : Bool
  deriving DecidableEq, Repr

/-- The address behind a block. -/
def Blk.stop (b : Blk) : ℕ := b.addr + blockHeaderSize + b.size

/-- The addresses of a block, with its header. -/
def Blk.span (b : Blk) : Span := ⟨b.addr, b.stop⟩

lemma forall_span_pos (bs : List Blk) : ∀ s ∈ bs.map Blk.span, s.start < s.stop := by
  intro s hs
  obtain ⟨b, -, rfl⟩ := mem_map.1 hs
  simp only [Blk.span, Blk.stop, blockHeaderSize]
  omega

/-- Two headers do not overlap. -/
def Apart (a b : ℕ) : Prop := a + 32 ≤ b ∨ b + 32 ≤ a

lemma Apart.symm {a b : ℕ} (h : Apart a b) : Apart b a := Or.symm h

lemma apart_of_disj {b c : Blk} (h : b.span.Disj c.span) : Apart b.addr c.addr := by
  simp only [Disj, Blk.span, Blk.stop, blockHeaderSize] at h
  unfold Apart
  omega

lemma apart_of_tiles {bs : List Blk} {wholes : List Span} (h : Tiles (bs.map Blk.span) wholes) :
    bs.Pairwise fun b c => Apart b.addr c.addr :=
  (pairwise_map.1 h.disjoint).imp apart_of_disj

namespace Heap

variable {h h' : Heap} {a b v size : ℕ}

/-! ## Reading and writing headers -/

lemma block_of_mem (hmem : h'.mem = h.mem) (a : ℕ) : h'.block a = h.block a := by
  unfold block
  rw [hmem]

lemma block_of_sameOutside {n : ℕ} (hs : h.mem.SameOutside h'.mem a n)
    (hapart : a + n ≤ b ∨ b + 32 ≤ a) : h'.block b = h.block b := by
  unfold block
  rw [hs.load_eq (by omega), hs.load_eq (by omega), hs.load_eq (by omega), hs.load_eq (by omega),
    hs.load_eq (by omega)]

section

variable (h : Heap) (a v : ℕ)

lemma block_setMagic :
    (h.setMagic a v).block a = { h.block a with magic := v % 2 ^ 32 } := by
  simp (disch := omega) [block, setMagic, load_store_apart, load_store_self]

lemma block_setFree (v : Bool) :
    (h.setFree a v).block a = { h.block a with isFree := v } := by
  simp (disch := omega) [block, setFree, load_store_apart, load_store_self]
  cases v <;> simp

lemma block_setSize :
    (h.setSize a v).block a = { h.block a with size := wrap v } := by
  simp (disch := omega) [block, setSize, load_store_apart, load_store_self, wrap]

lemma block_setNext :
    (h.setNext a v).block a = { h.block a with next := wrap v } := by
  simp (disch := omega) [block, setNext, load_store_apart, load_store_self, wrap]

lemma block_setPrev :
    (h.setPrev a v).block a = { h.block a with prev := wrap v } := by
  simp (disch := omega) [block, setPrev, load_store_apart, load_store_self, wrap]

end

section

variable (hab : Apart a b)
include hab

lemma block_setMagic_apart : (h.setMagic a v).block b = h.block b :=
  block_of_sameOutside (h.mem.sameOutside_store a 4 v) (by unfold Apart at hab; omega)

lemma block_setFree_apart {v : Bool} : (h.setFree a v).block b = h.block b :=
  block_of_sameOutside (h.mem.sameOutside_store (a + 4) 1 _) (by unfold Apart at hab; omega)

lemma block_setSize_apart : (h.setSize a v).block b = h.block b :=
  block_of_sameOutside (h.mem.sameOutside_store (a + 8) 8 v) (by unfold Apart at hab; omega)

lemma block_setNext_apart : (h.setNext a v).block b = h.block b :=
  block_of_sameOutside (h.mem.sameOutside_store (a + 16) 8 v) (by unfold Apart at hab; omega)

lemma block_setPrev_apart : (h.setPrev a v).block b = h.block b :=
  block_of_sameOutside (h.mem.sameOutside_store (a + 24) 8 v) (by unfold Apart at hab; omega)

end

lemma block_newBlock (h : Heap) (a : ℕ) {next prev : ℕ} (hsize : size < 2 ^ 64)
    (hnext : next < 2 ^ 64) (hprev : prev < 2 ^ 64) :
    (h.newBlock a size next prev).block a = ⟨heapMagic, true, size, next, prev⟩ := by
  simp only [newBlock, block_setPrev, block_setNext, block_setSize, block_setFree, block_setMagic,
    wrap_of_lt hsize, wrap_of_lt hnext, wrap_of_lt hprev]
  rfl

lemma block_newBlock_apart {next prev : ℕ} (hab : Apart a b) :
    (h.newBlock a size next prev).block b = h.block b := by
  simp only [newBlock, block_setPrev_apart hab, block_setNext_apart hab, block_setSize_apart hab,
    block_setFree_apart hab, block_setMagic_apart hab]

/-! ## Chains of headers -/

/-- The headers from `hdr` are those of the blocks of the list; the header before them is at `p` and
the one behind them at `q`. -/
def Chain (hdr : ℕ → HeapBlock) : ℕ → List Blk → ℕ → Prop
  | _, [], _ => True
  | p, b :: l, q =>
    hdr b.addr = ⟨heapMagic, b.free, b.size, (l.map Blk.addr).headD q, p⟩ ∧ Chain hdr b.addr l q

variable {hdr hdr' : ℕ → HeapBlock} {p q : ℕ} {l r : List Blk} {x y : Blk}

lemma chain_congr (h : Chain hdr p l q) (heq : ∀ b ∈ l, hdr' b.addr = hdr b.addr) :
    Chain hdr' p l q := by
  induction l generalizing p with
  | nil => trivial
  | cons b l ih =>
    obtain ⟨hb, hl⟩ := h
    refine ⟨?_, ih hl fun c hc => heq c (mem_cons_of_mem _ hc)⟩
    rw [heq b mem_cons_self, hb]

lemma headD_append (l r : List ℕ) (d : ℕ) : (l ++ r).headD d = l.headD (r.headD d) := by
  cases l <;> rfl

lemma chain_append :
    Chain hdr p (l ++ r) q ↔ Chain hdr p l ((r.map Blk.addr).headD q) ∧
      Chain hdr ((l.map Blk.addr).getLastD p) r q := by
  induction l generalizing p with
  | nil => simp [Chain]
  | cons b l ih =>
    simp only [cons_append, Chain, ih, map_append, headD_append, map_cons, getLastD_cons, and_assoc]

lemma chain_concat (h : Chain hdr p (l ++ [x]) q) {q' : ℕ} (heq : ∀ b ∈ l, hdr' b.addr = hdr b.addr)
    (hx : hdr' x.addr = { hdr x.addr with next := q' }) : Chain hdr' p (l ++ [x]) q' := by
  rw [chain_append] at h ⊢
  obtain ⟨hl, hlast, -⟩ := h
  refine ⟨chain_congr hl heq, ?_, trivial⟩
  rw [hx, hlast]
  rfl

lemma chain_setPrev (h : Chain hdr p (x :: l) q) {p' : ℕ} (heq : ∀ b ∈ l, hdr' b.addr = hdr b.addr)
    (hx : hdr' x.addr = { hdr x.addr with prev := p' }) : Chain hdr' p' (x :: l) q := by
  obtain ⟨hfirst, hl⟩ := h
  refine ⟨?_, chain_congr hl heq⟩
  rw [hx, hfirst]

lemma chain_update (h : Chain hdr p (l ++ x :: r) q) {free : Bool}
    (heq : ∀ b ∈ l ++ r, hdr' b.addr = hdr b.addr)
    (hx : hdr' x.addr = { hdr x.addr with isFree := free, size := size }) :
    Chain hdr' p (l ++ ⟨x.addr, size, free⟩ :: r) q := by
  rw [chain_append] at h ⊢
  obtain ⟨hl, hmid, hr⟩ := h
  refine ⟨chain_congr hl fun b hb => heq b (mem_append_left _ hb), ?_,
    chain_congr hr fun b hb => heq b (mem_append_right _ hb)⟩
  rw [hx, hmid]

lemma getLastD_append_cons (l : List ℕ) (a : ℕ) (r : List ℕ) (d : ℕ) :
    (l ++ a :: r).getLastD d = r.getLastD a := by
  induction l generalizing d with
  | nil => rw [nil_append, getLastD_cons]
  | cons b l ih => rw [cons_append, getLastD_cons, ih]

/-- **The blocks `r` get another predecessor**; other headers stay, and if there are no such blocks,
the predecessor is the last block. -/
lemma relink_spec {d : ℕ} (ha : a < 2 ^ 64) (hpos : ∀ c ∈ r, 0 < c.addr)
    (hapart : r.Pairwise fun b c => Apart b.addr c.addr) (hchain : Chain h.block p r 0)
    (htail : h.tail = (r.map Blk.addr).getLastD d) :
    Chain (h.relink ((r.map Blk.addr).headD 0) a).block a r 0 ∧
      (h.relink ((r.map Blk.addr).headD 0) a).tail = (r.map Blk.addr).getLastD a ∧
      ∀ b, (∀ c ∈ r, Apart c.addr b) →
        (h.relink ((r.map Blk.addr).headD 0) a).block b = h.block b := by
  cases r with
  | nil => exact ⟨trivial, rfl, fun _ _ => rfl⟩
  | cons c r =>
    have hne : c.addr ≠ 0 := (hpos c mem_cons_self).ne'
    have heq : h.relink (((c :: r).map Blk.addr).headD 0) a = h.setPrev c.addr a := by
      simp [relink, hne]
    rw [heq]
    refine ⟨chain_setPrev hchain (fun b hb => ?_) ?_, htail, fun b hb => ?_⟩
    · exact block_setPrev_apart (rel_of_pairwise_cons hapart hb)
    · rw [block_setPrev, wrap_of_lt ha]
    · exact block_setPrev_apart (hb c mem_cons_self)

lemma relink_start (h : Heap) (next a : ℕ) : (h.relink next a).start = h.start := by
  unfold relink
  split <;> rfl

lemma relink_runs (h : Heap) (next a : ℕ) : (h.relink next a).runs = h.runs := by
  unfold relink
  split <;> rfl

/-! ## The shape of a heap -/

/-- The blocks `bs` are the list of the heap: they are linked from `heap_start` to `heap_tail`, tile
its runs, and have payloads of a multiple of 16 bytes. -/
structure Shape (h : Heap) (bs : List Blk) : Prop where
  chain : Chain h.block 0 bs 0
  start : h.start = (bs.map Blk.addr).headD 0
  tail : h.tail = (bs.map Blk.addr).getLastD 0
  tiles : Span.Tiles (bs.map Blk.span) (h.runs.map Run.span)
  bounds : ∀ b ∈ bs, 0 < b.addr ∧ b.stop ≤ 2 ^ 64 ∧ b.size % 16 = 0

namespace Shape

variable {bs : List Blk} {z : Blk}

lemma congr (hs : h.Shape bs) (hblock : ∀ b ∈ bs, h'.block b.addr = h.block b.addr)
    (hstart : h'.start = h.start) (htail : h'.tail = h.tail) (hruns : h'.runs = h.runs) :
    h'.Shape bs where
  chain := chain_congr hs.chain hblock
  start := hstart.trans hs.start
  tail := htail.trans hs.tail
  tiles := hruns ▸ hs.tiles
  bounds := hs.bounds

lemma counters (hs : h.Shape bs) (used free : ℕ) :
    ({ h with usedBytes := used, freeBytes := free } : Heap).Shape bs :=
  hs.congr (fun _ _ => rfl) rfl rfl rfl

lemma disj (hs : h.Shape (l ++ x :: r)) : ∀ y ∈ l ++ r, x.span.Disj y.span := by
  have hpw := hs.tiles.disjoint
  rw [map_append, map_cons, pairwise_append, pairwise_cons] at hpw
  obtain ⟨-, ⟨hr, -⟩, hl⟩ := hpw
  intro y hy
  rcases mem_append.1 hy with hy | hy
  · exact (hl _ (mem_map_of_mem hy) _ mem_cons_self).symm
  · exact hr _ (mem_map_of_mem hy)

lemma apart (hs : h.Shape (l ++ x :: r)) : ∀ y ∈ l ++ r, Apart x.addr y.addr :=
  fun y hy => apart_of_disj (hs.disj y hy)

lemma pairwise_apart (hs : h.Shape bs) : bs.Pairwise fun b c => Apart b.addr c.addr :=
  apart_of_tiles hs.tiles

lemma block_eq (hs : h.Shape (l ++ x :: r)) :
    h.block x.addr = ⟨heapMagic, x.free, x.size, (r.map Blk.addr).headD 0,
      (l.map Blk.addr).getLastD 0⟩ :=
  (chain_append.1 hs.chain).2.1

lemma bounds_self (hs : h.Shape (l ++ x :: r)) : 0 < x.addr ∧ x.stop ≤ 2 ^ 64 ∧ x.size % 16 = 0 :=
  hs.bounds x (mem_append_right _ mem_cons_self)

lemma addr_lt (hs : h.Shape (l ++ x :: r)) : x.addr < 2 ^ 64 := by
  have hx := hs.bounds_self
  simp only [Blk.stop, blockHeaderSize] at hx
  omega

lemma headD_lt (hs : h.Shape (l ++ r)) : (r.map Blk.addr).headD 0 < 2 ^ 64 := by
  cases r with
  | nil => exact Nat.two_pow_pos 64
  | cons c r => exact hs.addr_lt

/-- Two consecutive blocks are adjacent if the second starts where the first ends. -/
lemma blocksAdjacent_iff (hs : h.Shape (l ++ x :: y :: r)) :
    h.blocksAdjacent x.addr y.addr = true ↔ x.stop = y.addr := by
  have hx := hs.bounds_self
  have hy := hs.bounds y (by simp)
  simp only [Blk.stop, blockHeaderSize] at hx hy
  simp only [blocksAdjacent, hs.block_eq, wrap, blockHeaderSize, Blk.stop, decide_eq_true_eq]
  omega

/-- **A block is marked.** -/
theorem setFree (hs : h.Shape (l ++ x :: r)) (free : Bool) :
    (h.setFree x.addr free).Shape (l ++ { x with free := free } :: r) where
  chain := by
    refine chain_update hs.chain (fun b hb => block_setFree_apart (hs.apart b hb)) ?_
    rw [block_setFree, hs.block_eq]
  start := hs.start.trans (by simp)
  tail := hs.tail.trans (by simp)
  tiles := by
    have ht := hs.tiles
    rw [map_append, map_cons] at ht ⊢
    exact ht
  bounds := by
    intro b hb
    have hx := hs.bounds_self
    simp only [mem_append, mem_cons] at hb
    rcases hb with hb | rfl | hb
    · exact hs.bounds b (by simp [hb])
    · exact hx
    · exact hs.bounds b (by simp [hb])

lemma release (hs : h.Shape (l ++ x :: r)) :
    (h.release x.addr).Shape (l ++ { x with free := true } :: r) := by
  exact (hs.setFree true).counters _ _

lemma claim (hs : h.Shape (l ++ x :: r)) :
    (h.claim x.addr).Shape (l ++ { x with free := false } :: r) := by
  exact (hs.setFree false).counters _ _

lemma tiles_cut {runs : List Span} {y : Blk} (haddr : y.addr = x.addr) (hadj : y.stop = z.addr)
    (hstop : z.stop = x.stop) :
    Tiles ((l ++ y :: z :: r).map Blk.span) runs ↔ Tiles ((l ++ x :: r).map Blk.span) runs := by
  have hpos := forall_span_pos (l ++ y :: z :: r)
  rw [map_append, map_cons, map_cons] at hpos ⊢
  rw [map_append, map_cons]
  exact Tiles.cut_iff haddr hadj hstop hpos

section

variable (hs : h.Shape (l ++ x :: y :: r))
include hs

lemma merged_size_lt (hadj : x.stop = y.addr) : x.size + (blockHeaderSize + y.size) < 2 ^ 64 := by
  have hx := hs.bounds_self
  have hy := hs.bounds y (by simp)
  simp only [Blk.stop, blockHeaderSize] at hadj hx hy ⊢
  omega

/-- What `absorb` writes: the header of the block, and the back link of the block behind. -/
lemma absorb_eq (hadj : x.stop = y.addr) :
    h.absorb x.addr y.addr = ((h.setSize x.addr (x.size + (blockHeaderSize + y.size))).setNext
      x.addr ((r.map Blk.addr).headD 0)).relink ((r.map Blk.addr).headD 0) x.addr := by
  have hs' : h.Shape ((l ++ [x]) ++ y :: r) := by simpa using hs
  have hs'' : h.Shape ((l ++ [x, y]) ++ r) := by simpa using hs
  have hxy : Apart x.addr y.addr := hs.apart y (by simp)
  unfold Heap.absorb
  simp only [hs.block_eq, hs'.block_eq, block_setSize_apart hxy, block_setNext,
    wrap_of_lt (hs.merged_size_lt hadj), wrap_of_lt hs''.headD_lt]

/-- **A block takes up its successor.** -/
theorem absorb (hadj : x.stop = y.addr) :
    (h.absorb x.addr y.addr).Shape
      (l ++ ⟨x.addr, x.size + (blockHeaderSize + y.size), x.free⟩ :: r) := by
  have hs' : h.Shape ((l ++ [x]) ++ y :: r) := by simpa using hs
  have hs'' : h.Shape ((l ++ [x, y]) ++ r) := by simpa using hs
  have hx := hs.bounds_self
  have hy := hs'.bounds_self
  have hsize := hs.merged_size_lt hadj
  obtain ⟨z, hz⟩ : ∃ z : Blk, z = ⟨x.addr, x.size + (blockHeaderSize + y.size), x.free⟩ := ⟨_, rfl⟩
  have hstop : z.stop = y.stop := by
    simp only [hz, Blk.stop, blockHeaderSize] at hadj ⊢
    omega
  have hother : ∀ b ∈ l ++ y :: r, ∀ v w, ((h.setSize x.addr v).setNext x.addr w).block b.addr =
      h.block b.addr := by
    intro b hb v w
    rw [block_setNext_apart (hs.apart b hb), block_setSize_apart (hs.apart b hb)]
  -- the successors of `y` get `x` as their predecessor
  obtain ⟨hl, -, -, hr⟩ := chain_append.1 hs.chain
  have hrest : Chain ((h.setSize x.addr (x.size + (blockHeaderSize + y.size))).setNext x.addr
      ((r.map Blk.addr).headD 0)).block y.addr r 0 :=
    chain_congr hr fun b hb => hother b (by simp [hb]) _ _
  have htail : h.tail = (r.map Blk.addr).getLastD y.addr := by
    rw [hs.tail]
    simp only [map_append, map_cons, getLastD_append_cons, getLastD_cons]
  obtain ⟨hchain, htail', hblock⟩ := relink_spec hs.addr_lt
    (fun c hc => (hs.bounds c (by simp [hc])).1)
    (pairwise_append.1 hs''.pairwise_apart).2.1 hrest htail
  have hlr : ∀ b ∈ l, ∀ c ∈ r, Apart c.addr b.addr := fun b hb c hc =>
    ((pairwise_append.1 hs''.pairwise_apart).2.2 b (mem_append_left _ hb) c hc).symm
  have hxr : ∀ c ∈ r, Apart c.addr x.addr := fun c hc => (hs.apart c (by simp [hc])).symm
  rw [hs.absorb_eq hadj, ← hz]
  refine ⟨chain_append.2 ⟨?_, ?_, ?_⟩, ?_, ?_, ?_, fun b hb => ?_⟩
  · rw [hz]
    exact chain_congr hl fun b hb => (hblock _ (hlr b hb)).trans
      (hother b (by simp [hb]) _ _)
  · rw [hz, hblock _ hxr, block_setNext, block_setSize, hs.block_eq, wrap_of_lt hsize,
      wrap_of_lt hs''.headD_lt]
  · rw [hz]
    exact hchain
  · refine (relink_start _ _ _).trans (hs.start.trans ?_)
    simp only [hz, map_append, map_cons, headD_append, headD_cons]
  · rw [htail', hz]
    simp only [map_append, map_cons, getLastD_append_cons]
  · rw [relink_runs]
    exact (tiles_cut (by rw [hz]) hadj hstop.symm).1 hs.tiles
  · simp only [mem_append, mem_cons] at hb
    rcases hb with hb | rfl | hb
    · exact hs.bounds b (by simp [hb])
    · refine ⟨by rw [hz]; exact hx.1, hstop ▸ hy.2.1, ?_⟩
      simp only [hz, blockHeaderSize]
      omega
    · exact hs.bounds b (by simp [hb])

end

/-- What `splitBlock` writes: the new header, the back link of the block behind, and the header of
the block. -/
lemma splitBlock_eq (hs : h.Shape (l ++ x :: r)) (hle : size + blockHeaderSize ≤ x.size)
    (hz : z = ⟨x.addr + blockHeaderSize + size, x.size - size - blockHeaderSize, true⟩) :
    h.splitBlock x.addr size =
      (((h.newBlock z.addr z.size ((r.map Blk.addr).headD 0) x.addr).relink
        ((r.map Blk.addr).headD 0) z.addr).setNext x.addr z.addr).setSize x.addr size := by
  have hx := hs.bounds_self
  simp only [Blk.stop, blockHeaderSize] at hx hle
  have hnew : wrap (x.addr + blockHeaderSize + size) = x.addr + blockHeaderSize + size :=
    wrap_of_lt (by simp only [blockHeaderSize]; omega)
  have hsize : wsub (wsub x.size size) blockHeaderSize = x.size - size - blockHeaderSize := by
    have hrest : wsub x.size size = x.size - size := wsub_of_le (by omega) (by omega)
    rw [hrest, wsub_of_le (by simp only [blockHeaderSize]; omega) (by omega)]
  have hapart : Apart (x.addr + blockHeaderSize + size) x.addr := by
    simp only [Apart, blockHeaderSize]
    omega
  unfold Heap.splitBlock
  simp only [hs.block_eq, hnew, hsize, block_newBlock_apart hapart, hz]

/-- **A block is cut in two.** -/
theorem splitBlock (hs : h.Shape (l ++ x :: r)) (hle : size + blockHeaderSize ≤ x.size)
    (hmod : size % 16 = 0) :
    (h.splitBlock x.addr size).Shape (l ++ ⟨x.addr, size, x.free⟩ ::
      ⟨x.addr + blockHeaderSize + size, x.size - size - blockHeaderSize, true⟩ :: r) := by
  have hx := hs.bounds_self
  obtain ⟨y, hy⟩ : ∃ y : Blk, y = ⟨x.addr, size, x.free⟩ := ⟨_, rfl⟩
  obtain ⟨z, hz⟩ : ∃ z : Blk,
    z = ⟨x.addr + blockHeaderSize + size, x.size - size - blockHeaderSize, true⟩ := ⟨_, rfl⟩
  have hstop : z.stop = x.stop := by
    simp only [hz, Blk.stop, blockHeaderSize] at hle ⊢
    omega
  have htiles : Tiles ((l ++ y :: z :: r).map Blk.span) (h.runs.map Run.span) :=
    (tiles_cut (by rw [hy]) (by rw [hy, hz]; rfl) hstop).2 hs.tiles
  have hzlt : z.addr < 2 ^ 64 := by
    simp only [hz, Blk.stop, blockHeaderSize] at hx hle ⊢
    omega
  have hpw := apart_of_tiles htiles
  rw [pairwise_append, pairwise_cons, pairwise_cons] at hpw
  obtain ⟨-, ⟨hyr, hzr, hrr⟩, hlr⟩ := hpw
  have hxz : Apart z.addr x.addr := by
    rw [show x.addr = y.addr by rw [hy]]
    exact (hyr z mem_cons_self).symm
  have hzl : ∀ b ∈ l, Apart z.addr b.addr := fun b hb => (hlr b hb z (by simp)).symm
  -- the new header is written first
  obtain ⟨hl, -, hr⟩ := chain_append.1 hs.chain
  have hr1 : Chain (h.newBlock z.addr z.size ((r.map Blk.addr).headD 0) x.addr).block x.addr r 0 :=
    chain_congr hr fun b hb => block_newBlock_apart (hzr b hb)
  have htail : h.tail = (r.map Blk.addr).getLastD x.addr := by
    rw [hs.tail]
    simp only [map_append, map_cons, getLastD_append_cons]
  obtain ⟨hchain, htail', hblock⟩ := relink_spec hzlt (fun c hc => (hs.bounds c (by simp [hc])).1)
    hrr hr1 htail
  have heq := hs.splitBlock_eq hle hz
  have hlow : ∀ b, Apart x.addr b → Apart z.addr b → (∀ c ∈ r, Apart c.addr b) →
      (h.splitBlock x.addr size).block b = h.block b := by
    intro b hxb hzb hrb
    rw [heq, block_setSize_apart hxb, block_setNext_apart hxb, hblock b hrb,
      block_newBlock_apart hzb]
  have hlx : ∀ c ∈ r, Apart c.addr x.addr := fun c hc => (hs.apart c (by simp [hc])).symm
  rw [← hy, ← hz]
  refine ⟨chain_append.2 ⟨chain_congr ?_ fun b hb => hlow _ (hs.apart b (by simp [hb])) (hzl b hb)
    fun c hc => (hlr b hb c (by simp [hc])).symm, ?_, ?_, ?_⟩, ?_, ?_, ?_, fun b hb => ?_⟩
  · rw [hy]
    exact hl
  · have hsize : size < 2 ^ 64 := by
      simp only [Blk.stop, blockHeaderSize] at hx hle
      omega
    rw [heq, hy, block_setSize, block_setNext, hblock _ hlx, block_newBlock_apart hxz, hs.block_eq,
      wrap_of_lt hzlt, wrap_of_lt hsize]
    rfl
  · have hzsize : z.size < 2 ^ 64 := by
      simp only [hz, Blk.stop, blockHeaderSize] at hx ⊢
      omega
    have hs' : h.Shape ((l ++ [x]) ++ r) := by simpa using hs
    rw [heq, block_setSize_apart hxz.symm, block_setNext_apart hxz.symm,
      hblock _ fun c hc => (hzr c hc).symm, block_newBlock _ _ hzsize hs'.headD_lt hs.addr_lt, hy,
        hz]
  · rw [heq]
    exact chain_congr hchain fun b hb => by
      rw [block_setSize_apart (hlx b hb).symm, block_setNext_apart (hlx b hb).symm]
  · rw [heq]
    refine (relink_start _ _ _).trans (hs.start.trans ?_)
    simp only [hy, map_append, map_cons, headD_append, headD_cons]
  · rw [heq]
    refine htail'.trans ?_
    simp only [map_append, map_cons, getLastD_append_cons, getLastD_cons]
  · have hruns : (h.splitBlock x.addr size).runs = h.runs := by
      rw [heq]
      exact relink_runs _ _ _
    rw [hruns]
    exact htiles
  · simp only [mem_append, mem_cons] at hb
    rcases hb with hb | rfl | rfl | hb
    · exact hs.bounds b (by simp [hb])
    · simp only [hy, Blk.stop, blockHeaderSize] at hx hle ⊢
      omega
    · refine ⟨?_, hstop ▸ hx.2.1, ?_⟩
      · simp only [hz, blockHeaderSize]
        omega
      · simp only [hz, blockHeaderSize] at hle ⊢
        omega
    · exact hs.bounds b (by simp [hb])

lemma tiles_append {wholes : List Span}
    (ht : Tiles (bs.map Blk.span) wholes) (hdisj : ∀ w ∈ wholes, z.span.Disj w) :
    Tiles ((bs ++ [z]).map Blk.span) (z.span :: wholes) := by
  rw [map_append]
  exact ht.append hdisj (forall_span_pos [z] _ (by simp)) (forall_span_pos bs)

lemma addRegion_start (h : Heap) (run : Run) :
    (h.addRegion run).start = if h.start = 0 then run.base else h.start := by
  unfold Heap.addRegion
  dsimp only
  split <;> rfl

lemma addRegion_runs (h : Heap) (run : Run) : (h.addRegion run).runs = run :: h.runs := by
  unfold Heap.addRegion
  dsimp only
  split <;> rfl

lemma addRegion_block (h : Heap) (run : Run) (a : ℕ) :
    (h.addRegion run).block a =
      (if h.tail ≠ 0 then
        (h.newBlock run.base (wsub run.bytes blockHeaderSize) 0 h.tail).setNext h.tail run.base
      else h.newBlock run.base (wsub run.bytes blockHeaderSize) 0 h.tail).block a :=
  block_of_mem rfl a

/-- **A run is added**: it becomes a free block at the end of the list. -/
theorem addRegion (hs : h.Shape bs) {run : Run} (hbase : 0 < run.base)
    (hlt : run.base + run.bytes ≤ 2 ^ 64) (hbytes : blockHeaderSize ≤ run.bytes)
    (hmod : run.bytes % 16 = 0) (hdisj : ∀ w ∈ h.runs, run.span.Disj w.span) :
    (h.addRegion run).Shape (bs ++ [⟨run.base, run.bytes - blockHeaderSize, true⟩]) := by
  obtain ⟨z, hz⟩ : ∃ z : Blk, z = ⟨run.base, run.bytes - blockHeaderSize, true⟩ := ⟨_, rfl⟩
  have hspan : z.span = run.span := by
    simp only [hz, Blk.span, Blk.stop, Run.span, blockHeaderSize] at hbytes ⊢
    congr 1
    omega
  have htiles : Tiles ((bs ++ [z]).map Blk.span) ((run :: h.runs).map Run.span) := by
    rw [map_cons, ← hspan]
    refine tiles_append hs.tiles fun w hw => ?_
    obtain ⟨r, hr, rfl⟩ := mem_map.1 hw
    rw [hspan]
    exact hdisj r hr
  have hzap : ∀ b ∈ bs, Apart run.base b.addr := by
    intro b hb
    have hpw := (pairwise_append.1 (apart_of_tiles htiles)).2.2
    have hap := hpw b hb z (by simp)
    rw [hz] at hap
    exact hap.symm
  have hbounds : ∀ b ∈ bs ++ [z], 0 < b.addr ∧ b.stop ≤ 2 ^ 64 ∧ b.size % 16 = 0 := by
    intro b hb
    rcases mem_append.1 hb with hb | hb
    · exact hs.bounds b hb
    · rw [mem_singleton.1 hb]
      simp only [hz, Blk.stop, blockHeaderSize] at hbytes ⊢
      omega
  have hsize : wsub run.bytes blockHeaderSize = run.bytes - blockHeaderSize :=
    wsub_of_le hbytes (by omega)
  have hbaselt : run.base < 2 ^ 64 := by
    simp only [blockHeaderSize] at hbytes
    omega
  have htiles' : Tiles ((bs ++ [z]).map Blk.span) ((h.addRegion run).runs.map Run.span) := by
    rw [addRegion_runs]
    exact htiles
  have hend : (h.addRegion run).tail = ((bs ++ [z]).map Blk.addr).getLastD 0 := by
    rw [map_append, map_cons, getLastD_append_cons, hz]
    rfl
  rw [← hz]
  rcases eq_nil_or_concat' bs with rfl | ⟨l, x, rfl⟩
  · have htail : h.tail = 0 := hs.tail
    have hstart : h.start = 0 := hs.start
    refine ⟨⟨?_, trivial⟩, ?_, hend, htiles', hbounds⟩
    · rw [hz, addRegion_block, htail, if_neg (by simp), hsize,
        block_newBlock _ _ (by omega) (Nat.two_pow_pos 64) (Nat.two_pow_pos 64)]
      rfl
    · rw [addRegion_start, hstart, if_pos rfl, hz]
      rfl
  · have htail : h.tail = x.addr := by
      rw [hs.tail, map_append, map_cons, getLastD_append_cons]
      rfl
    have hx := hs.bounds_self
    have hxz : Apart run.base x.addr := hzap x (by simp)
    have hblock : ∀ a, (h.addRegion run).block a =
        ((h.newBlock run.base (run.bytes - blockHeaderSize) 0 x.addr).setNext x.addr
          run.base).block a := by
      intro a
      rw [addRegion_block, htail, if_pos (by omega), hsize]
    refine ⟨chain_append.2 ⟨chain_concat hs.chain (fun b hb => ?_) ?_, ?_, trivial⟩, ?_, hend,
      htiles', hbounds⟩
    · rw [hblock, block_setNext_apart (hs.apart b (by simp [hb])),
        block_newBlock_apart (hzap b (by simp [hb]))]
    · rw [hblock, block_setNext, block_newBlock_apart hxz, wrap_of_lt hbaselt, hz]
      rfl
    · rw [hz, hblock, block_setNext_apart hxz.symm,
        block_newBlock _ _ (by omega) (Nat.two_pow_pos 64) hs.addr_lt, map_append,
        map_cons, getLastD_append_cons]
      rfl
    · have hne : h.start ≠ 0 := by
        rw [hs.start]
        cases l with
        | nil => exact hx.1.ne'
        | cons b l => exact (hs.bounds b (by simp)).1.ne'
      rw [addRegion_start, if_neg hne, hs.start, map_append, map_append, headD_append, headD_append]
      cases l <;> rfl

end Shape

end Heap

end SubOS.Mm
