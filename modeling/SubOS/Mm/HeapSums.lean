import SubOS.Mm.HeapRun

set_option autoImplicit false

/-!
# The payloads and the counters of the heap

Headers are written only to the list of blocks, to free blocks and to new runs, so that no byte of a
payload in use is touched; `krealloc` copies the payload before it frees it.

`heap_get_used_bytes` is the sum of the payloads of the used blocks. `heap_get_free_bytes` is off by
one header for every block more, or less, than runs that the page allocator has handed out: cutting
a block in two takes a header from a free payload, and the counter does not change.

## Main definitions

* `Preserves`, `Counted` — what a call leaves unchanged; what the counters say.

## Main results

* `preserves_run` — the live payloads are preserved.
* `counters_run`, `free_counter_wraps` — when the counters are exact.
-/

namespace SubOS.Mm

open EventRun List Heap Nat

/-- The addresses of the payload of a block. -/
def Blk.payload (b : Blk) : Span := ⟨b.addr + blockHeaderSize, b.stop⟩

variable {l r : List Blk} {x : Blk} {h : Heap}

namespace Heap

/-! ## Writes to headers -/

/-- The address does not lie in the header at `a`. -/
def OffHeader (a y : ℕ) : Prop := y < a ∨ a + blockHeaderSize ≤ y

section Headers

variable {h : Heap} {a y : ℕ} (hoff : OffHeader a y)

include hoff

lemma mem_store_off {k n v : ℕ} (hk : k + n ≤ 32) : h.mem.store (a + k) n v y = h.mem y := by
  unfold OffHeader blockHeaderSize at hoff
  exact h.mem.sameOutside_store (a + k) n v y (by omega)

lemma mem_setMagic (v : ℕ) : (h.setMagic a v).mem y = h.mem y :=
  mem_store_off (k := 0) hoff (by decide)

lemma mem_setFree (v : Bool) : (h.setFree a v).mem y = h.mem y := mem_store_off hoff (by decide)

lemma mem_setSize (v : ℕ) : (h.setSize a v).mem y = h.mem y := mem_store_off hoff (by decide)

lemma mem_setNext (v : ℕ) : (h.setNext a v).mem y = h.mem y := mem_store_off hoff (by decide)

lemma mem_setPrev (v : ℕ) : (h.setPrev a v).mem y = h.mem y := mem_store_off hoff (by decide)

lemma mem_newBlock (size next prev : ℕ) : (h.newBlock a size next prev).mem y = h.mem y := by
  unfold newBlock
  rw [mem_setPrev hoff, mem_setNext hoff, mem_setSize hoff, mem_setFree hoff, mem_setMagic hoff]

end Headers

lemma mem_relink {next a y : ℕ} (hoff : next ≠ 0 → OffHeader next y) :
    (h.relink next a).mem y = h.mem y := by
  unfold relink
  split
  · next hne => exact mem_setPrev (hoff hne) a
  · rfl

namespace Shape

variable {h : Heap} {bs l r : List Blk} {b c x : Blk} {y : ℕ}

lemma disj_of_ne (hs : h.Shape bs) (hb : b ∈ bs) (hc : c ∈ bs) (hne : b ≠ c) :
    b.span.Disj c.span := by
  obtain ⟨l, r, rfl⟩ := append_of_mem hb
  refine hs.disj c ?_
  simpa [hne.symm] using hc

/-- **No header of the list lies in a payload.** -/
lemma offHeader (hs : h.Shape bs) (hb : b ∈ bs) (hc : c ∈ bs) (hy : b.payload.Has y) :
    OffHeader c.addr y := by
  obtain ⟨hlow, hhigh⟩ := hy
  simp only [Blk.payload] at hlow hhigh
  by_cases hne : b = c
  · rw [← hne]
    exact .inr hlow
  · have hdisj := hs.disj_of_ne hb hc hne
    simp only [Span.Disj, Blk.span, Blk.stop] at hdisj hhigh
    unfold OffHeader
    omega

lemma offHeader_head (hs : h.Shape (l ++ r)) (hb : b ∈ l ++ r) (hy : b.payload.Has y) :
    (r.map Blk.addr).headD 0 ≠ 0 → OffHeader ((r.map Blk.addr).headD 0) y := by
  intro hne
  cases r with
  | nil => exact absurd rfl hne
  | cons c r => exact hs.offHeader hb (by simp) hy

lemma exists_tail (hs : h.Shape bs) (hne : h.tail ≠ 0) : ∃ c ∈ bs, c.addr = h.tail := by
  have htail := hs.tail
  rcases eq_nil_or_concat' bs with rfl | ⟨l, c, rfl⟩
  · exact absurd htail hne
  · refine ⟨c, by simp, ?_⟩
    rw [htail, map_append, map_cons, getLastD_append_cons]
    rfl

lemma disj_run (hs : h.Shape bs) {run : Run} (hbytes : blockHeaderSize ≤ run.bytes)
    (hdisj : ∀ w ∈ h.runs, run.span.Disj w.span) (hb : b ∈ bs) (hy : b.payload.Has y) :
    OffHeader run.base y := by
  obtain ⟨hlow, hhigh⟩ := hy
  simp only [Blk.payload] at hlow hhigh
  have hcov : Span.Covers (bs.map Blk.span) y := by
    refine ⟨b.span, mem_map_of_mem hb, ?_⟩
    simp only [Span.Has, Blk.span]
    omega
  obtain ⟨w, hw, hhas⟩ := (hs.tiles.covers y).1 hcov
  obtain ⟨old, hold, rfl⟩ := mem_map.1 hw
  have hd := hdisj old hold
  simp only [Span.Disj, Span.Has, Run.span] at hd hhas
  unfold OffHeader
  omega

end Shape

variable {b : Blk}

lemma mem_of_used (hb : b ∈ used (l ++ x :: r)) (hx : x.free = true) : b ≠ x ∧ b ∈ l ++ r := by
  obtain ⟨hmem, hfree⟩ := hb
  have hne : b ≠ x := by
    rintro rfl
    cases hx.symm.trans hfree
  exact ⟨hne, by simpa [hne] using hmem⟩

lemma used_of_mem (xs : List Blk) (hb : b ∈ l ++ r)
    (hfree : b.free = false) : b ∈ used (l ++ (xs ++ r)) := by
  refine ⟨?_, hfree⟩
  rcases mem_append.1 hb with hb | hb <;> simp [hb]

/-- **An edit leaves the other payloads in use alone**: the block stays, and its bytes do. -/
theorem Edit.frame {V : Set ℕ} {s t : Heap × List Blk} (he : Edit V s t) (hb : b ∈ used s.2)
    (hv : b.addr ∉ V) : b ∈ used t.2 ∧ ∀ y, b.payload.Has y → t.1.mem y = s.1.mem y := by
  cases he with
  | @claim h l r x hs hx =>
    obtain ⟨-, hlr⟩ := mem_of_used hb hx
    exact ⟨used_of_mem [_] hlr hb.2, fun y hy => mem_setFree (hs.offHeader hb.1 (by simp) hy) false⟩
  | @split h l r x size hs hx hle hmod =>
    obtain ⟨hne, hlr⟩ := mem_of_used hb hx
    refine ⟨used_of_mem [_, _] hlr hb.2, fun y hy => ?_⟩
    · have hxoff := hs.offHeader hb.1 (c := x) (by simp) hy
      have hs' : h.Shape ((l ++ [x]) ++ r) := by simpa using hs
      have hnext := hs'.offHeader_head (by simpa using hb.1) hy
      -- the new header lies in the free block
      have hnew : OffHeader (x.addr + blockHeaderSize + size) y := by
        have hdisj := hs.disj_of_ne hb.1 (by simp) hne
        obtain ⟨hlow, hhigh⟩ := hy
        simp only [Blk.payload] at hlow hhigh
        simp only [Span.Disj, Blk.span, Blk.stop] at hdisj hhigh
        unfold OffHeader
        omega
      rw [hs.splitBlock_eq hle rfl, mem_setSize hxoff, mem_setNext hxoff, mem_relink hnext,
        mem_newBlock hnew]
  | @absorb h l r x y hs hx hy hadj =>
    obtain ⟨-, hlr⟩ := mem_of_used hb hx
    have hlr' : b ∈ l ++ r := (mem_of_used ⟨hlr, hb.2⟩ hy).2
    refine ⟨used_of_mem [_] hlr' hb.2, fun z hz => ?_⟩
    · have hxoff := hs.offHeader hb.1 (c := x) (by simp) hz
      have hs' : h.Shape ((l ++ [x, y]) ++ r) := by simpa using hs
      have hnext := hs'.offHeader_head (by simpa using hb.1) hz
      rw [hs.absorb_eq hadj, mem_relink hnext, mem_setNext hxoff, mem_setSize hxoff]
  | @region h bs run hs hbase hlt hbytes hmod hdisj =>
    refine ⟨⟨mem_append_left _ hb.1, hb.2⟩, fun y hy => ?_⟩
    have hnew := hs.disj_run hbytes hdisj hb.1 hy
    unfold addRegion
    dsimp only
    split
    · next htail =>
      obtain ⟨c, hc, hcaddr⟩ := hs.exists_tail htail
      rw [mem_setNext (hcaddr ▸ hs.offHeader hb.1 hc hy), mem_newBlock hnew]
    · exact mem_newBlock hnew _ _ _
  | @release h l r x hs hx hxv =>
    have hne : b ≠ x := by
      rintro rfl
      exact hv hxv
    have hlr : b ∈ l ++ r := by simpa [hne] using hb.1
    exact ⟨used_of_mem [_] hlr hb.2, fun y hy => mem_setFree (hs.offHeader hb.1 (by simp) hy) true⟩
  | @payload h bs x m p n hs hx hxv hsame hlow hhigh =>
    have hne : b ≠ x := by
      rintro rfl
      exact hv hxv
    refine ⟨hb, fun y hy => hsame y ?_⟩
    have hdisj := hs.disj_of_ne hb.1 hx hne
    obtain ⟨hylow, hyhigh⟩ := hy
    simp only [Blk.payload] at hylow hyhigh
    simp only [Span.Disj, Blk.span] at hdisj
    omega

variable {V : Set ℕ} {h h' : Heap} {bs bs' : List Blk}

/-- **Edits leave the other payloads in use alone.** -/
theorem Edits.frame (he : Edits V (h, bs) (h', bs')) (hb : b ∈ used bs) (hv : b.addr ∉ V) :
    b ∈ used bs' ∧ ∀ y, b.payload.Has y → h'.mem y = h.mem y := by
  have hall : ∀ t, Edits V (h, bs) t →
      b ∈ used t.2 ∧ ∀ y, b.payload.Has y → t.1.mem y = h.mem y := by
    intro t ht
    induction ht with
    | refl => exact ⟨hb, fun _ _ => rfl⟩
    | tail _ hedit ih =>
      obtain ⟨hused, hmem⟩ := hedit.frame ih.1 hv
      exact ⟨hused, fun y hy => (hmem y hy).trans (ih.2 y hy)⟩
  exact hall (h', bs') he

namespace ReallocSteps

variable {x : Blk} {newSize p : ℕ}

/-- **`krealloc` keeps the bytes of the payload**, as many as there are and as are asked for. -/
theorem content (hr : ReallocSteps h bs x newSize p h' bs') (hx : x ∈ used bs) (hp : p ≠ 0) {i : ℕ}
    (hi : i < min x.size newSize) : h'.mem (p + i) = h.mem (x.addr + blockHeaderSize + i) := by
  have hxi : x.payload.Has (x.addr + blockHeaderSize + i) := by
    simp only [Span.Has, Blk.payload, Blk.stop]
    omega
  cases hr with
  | freed hsize hzero hedits hused | failed hsize hzero hedits hused => exact absurd hzero hp
  | kept hptr hle hheap hbs => rw [hheap, hptr]
  | moved y h₁ bs₁ hptr hlt hle hnew hedits₁ hy hused₁ hedits₂ hused =>
    have hyi : y.payload.Has (p + i) := by
      simp only [Span.Has, Blk.payload, Blk.stop]
      omega
    have hyx : y.addr ∉ ({x.addr} : Set ℕ) := fun heq => hnew x hx heq.symm
    calc h'.mem (p + i)
        = h₁.mem.copy p (x.addr + blockHeaderSize) x.size (p + i) := (hedits₂.frame hy hyx).2 _ hyi
      _ = h₁.mem (x.addr + blockHeaderSize + i) := by
        unfold ByteMemory.copy
        rw [if_pos (by omega), Nat.add_sub_cancel_left]
      _ = h.mem (x.addr + blockHeaderSize + i) :=
        (hedits₁.frame hx (Set.notMem_empty _)).2 _ hxi

/-- **`krealloc` that fails leaves the payload as it was.** -/
theorem unchanged (hr : ReallocSteps h bs x newSize p h' bs') (hx : x ∈ used bs) (hp : p = 0)
    (hsize : newSize ≠ 0) {y : ℕ} (hy : x.payload.Has y) : h'.mem y = h.mem y := by
  have hpos : ∀ b : Blk, b.addr + blockHeaderSize ≠ 0 := by simp [blockHeaderSize]
  cases hr with
  | freed hzero _ hedits hused => exact absurd hzero hsize
  | failed _ _ hedits hused => exact (hedits.frame hx (Set.notMem_empty _)).2 y hy
  | kept hptr hle hheap hbs => exact absurd (hptr.symm.trans hp) (hpos x)
  | moved z h₁ bs₁ hptr hlt hle hnew hedits₁ hz hused₁ hedits₂ hused =>
    exact absurd (hptr.symm.trans hp) (hpos z)

end ReallocSteps

end Heap

namespace HeapState

variable {s : HeapState} {bs : List Blk} {a : Alloc}

/-- What a call leaves unchanged. A live allocation that the call is not given stays live, and its
bytes stay. If `krealloc` returns a pointer, the bytes are there, as many as the old payload has and
as are asked for; if it returns NULL for a size that is not 0, the allocation stays live, and its
bytes stay. -/
structure Preserves (s : HeapState) (e : Event) : Prop where
  others : ∀ a ∈ s.live, ¬ e.Names a.ptr →
    a ∈ (s.step e).live ∧ ∀ y, (s.payload a).Has y → (s.step e).heap.mem y = s.heap.mem y
  realloc : ∀ a ∈ s.live, ∀ newSize mem₁ mem₂, e = .krealloc a.ptr newSize mem₁ mem₂ → newSize ≠ 0 →
    ∃ new, s.heap.krealloc a.ptr newSize mem₁ mem₂ = some ((s.step e).heap, new) ∧
      (new ≠ 0 → ⟨new, newSize⟩ ∈ (s.step e).live ∧
        ∀ i < min (s.payload a).length newSize,
          (s.step e).heap.mem (new + i) = s.heap.mem (a.ptr + i)) ∧
      (new = 0 → a ∈ (s.step e).live ∧
        ∀ y, (s.payload a).Has y → (s.step e).heap.mem y = s.heap.mem y)

lemma mem_live_step (ha : a ∈ s.live) {e : Event} (hn : ¬ e.Names a.ptr) : a ∈ (s.step e).live := by
  have hadd : ∀ {live : List Alloc} (ptr size : ℕ), a ∈ live → a ∈ add live ptr size := by
    intro live ptr size hmem
    unfold add
    split
    · exact hmem
    · exact mem_cons_of_mem _ hmem
  have hdrop : ∀ {ptr : ℕ}, ¬ a.ptr = ptr → a ∈ drop s.live ptr :=
    fun hne => mem_filter.2 ⟨ha, by simpa using hne⟩
  have hfinish : ∀ (live : ℕ → List Alloc) (r : Option (Heap × ℕ)), (∀ ptr, a ∈ live ptr) →
      a ∈ (s.finish live r).live := by
    intro live r hlive
    rcases r with - | ⟨h', ptr⟩
    · exact ha
    · exact hlive ptr
  cases e with
  | kmalloc size mem₁ mem₂ | kzalloc size mem₁ mem₂ => exact hfinish _ _ fun ptr => hadd ptr size ha
  | krealloc ptr newSize mem₁ mem₂ =>
    refine hfinish _ _ fun new => ?_
    split
    · exact ha
    · exact hadd new newSize (hdrop hn)
  | kfree ptr => exact hdrop hn
  | write addr value => exact ha

lemma Inv.payload_eq (hi : s.Inv bs) (ha : a ∈ s.live) :
    ∃ b ∈ used bs, a.ptr = b.addr + blockHeaderSize ∧ s.payload a = b.payload := by
  obtain ⟨b, hb, hab, hfree, hsize, -⟩ := hi.exists_header ha
  refine ⟨b, ⟨hb, ?_⟩, hab, ?_⟩
  · have hs := hi.shape
    obtain ⟨l, r, rfl⟩ := append_of_mem hb
    rw [hab, Nat.add_sub_cancel, hs.block_eq] at hfree
    exact hfree
  · unfold payload
    rw [hsize, hab]
    rfl

/-- **A call preserves the live payloads.** -/
theorem Inv.preserves (hi : s.Inv bs) {e : Event} (hv : s.Valid e) : s.Preserves e where
  others a ha hn := by
    refine ⟨mem_live_step ha hn, ?_⟩
    obtain ⟨V, bs', -, hedits, hV⟩ := hi.step hv
    obtain ⟨b, hb, hab, hpay⟩ := hi.payload_eq ha
    rw [hpay]
    exact (hedits.frame hb fun hmem => hn (hab ▸ hV b hb hmem)).2
  realloc a ha newSize mem₁ mem₂ he hsize := by
    subst he
    obtain ⟨b, hb, hab, hpay⟩ := hi.payload_eq ha
    obtain ⟨h', p, bs', heq, -, hr⟩ := hi.shape.krealloc hi.merged hb
      (hi.shape.kmalloc hi.merged hv.2.1 hv.2.2)
    rw [← hab] at heq
    have hstep : s.step (.krealloc a.ptr newSize mem₁ mem₂) = ⟨h',
        if p = 0 ∧ newSize ≠ 0 then s.live else add (drop s.live a.ptr) p newSize, s.returned⟩ := by
      simp only [HeapState.step, heq, finish]
    have hlen : b.payload.length = b.size := by
      simp only [Span.length, Blk.payload, Blk.stop]
      omega
    rw [hstep, hpay, hlen]
    refine ⟨p, heq, fun hp => ⟨?_, fun i hlt => ?_⟩, fun hp => ⟨?_, fun y hy => ?_⟩⟩
    · rw [if_neg (by simp [hp]), add, if_neg hp]
      exact mem_cons_self
    · rw [hab]
      exact hr.content hb hp hlt
    · rw [if_pos ⟨hp, hsize⟩]
      exact ha
    · exact hr.unchanged hb hp hsize hy

/-- **The live payloads are preserved**: after every sequence of calls, by whatever call comes next.
-/
theorem preserves_run (m : ByteMemory) (initialMem : ℕ) (es : List Event)
    (hfresh : FreshRun [] initialMem heapInitialPages)
    (hvalid : Along step Valid (init m initialMem) es) (e : Event)
    (he : (run step (init m initialMem) es).Valid e) :
    (run step (init m initialMem) es).Preserves e := by
  obtain ⟨bs, hi⟩ := inv_run m es hfresh hvalid
  exact hi.preserves he

/-- Two allocations are made and written, and the first grows and has to move. -/
theorem preserves_run_moved :
    (run step (init (fun _ => 0) 0x4000000) [.kmalloc 100 0 0, .kzalloc 24 0 0,
        .write 0x4000020 7]).Valid (.krealloc 0x4000020 200 0 0) ∧
      (run step (init (fun _ => 0) 0x4000000) [.kmalloc 100 0 0, .kzalloc 24 0 0,
        .write 0x4000020 7]).Preserves (.krealloc 0x4000020 200 0 0) :=
  ⟨by decide +kernel, preserves_run _ _ _ (by decide +kernel) (by decide +kernel) _
    (by decide +kernel)⟩

end HeapState

/-- The sum of the payloads of the blocks that are free, or of those that are not. -/
def sizes (free : Bool) (bs : List Blk) : ℕ :=
  (bs.map fun b => if b.free = free then b.size else 0).sum

lemma sizes_append (free : Bool) (l r : List Blk) :
    sizes free (l ++ r) = sizes free l + sizes free r := by
  simp [sizes]

lemma sizes_cons (free : Bool) (b : Blk) (l : List Blk) :
    sizes free (b :: l) = (if b.free = free then b.size else 0) + sizes free l := by
  simp [sizes]

lemma sizes_nil (free : Bool) : sizes free [] = 0 := rfl

lemma sizes_mark (l r : List Blk) (hx : x.free = true) :
    sizes false (l ++ { x with free := false } :: r) = sizes false (l ++ x :: r) + x.size ∧
      sizes true (l ++ x :: r) = sizes true (l ++ { x with free := false } :: r) + x.size := by
  simp only [sizes_append, sizes_cons, hx]
  constructor
  · simp only [if_true, Bool.true_eq_false, if_false]
    omega
  · simp only [if_true, Bool.false_eq_true, if_false]
    omega

namespace Heap

/-- **What the counters say about the blocks.** The free bytes are those of the free blocks, with
one header more for every block and one less for every run. -/
structure Counted (h : Heap) (bs : List Blk) : Prop where
  used : h.usedBytes = sizes false bs % 2 ^ 64
  free : (h.freeBytes + blockHeaderSize * h.runs.length) % 2 ^ 64 =
    (sizes true bs + blockHeaderSize * bs.length) % 2 ^ 64
  free_lt : h.freeBytes < 2 ^ 64
  runs_disj : (h.runs.map Run.span).Pairwise Span.Disj
  runs_bound : ∀ r ∈ h.runs, 0 < r.base ∧ r.base + r.bytes ≤ 2 ^ 64 ∧ blockHeaderSize ≤ r.bytes

lemma relink_counters (h : Heap) (next a : ℕ) : (h.relink next a).usedBytes = h.usedBytes ∧
    (h.relink next a).freeBytes = h.freeBytes := by
  unfold relink
  split <;> exact ⟨rfl, rfl⟩

lemma splitBlock_counters (h : Heap) (curr size : ℕ) :
    (h.splitBlock curr size).usedBytes = h.usedBytes ∧
      (h.splitBlock curr size).freeBytes = h.freeBytes ∧
      (h.splitBlock curr size).runs = h.runs := by
  unfold splitBlock
  dsimp only [setSize, setNext]
  rw [(relink_counters _ _ _).1, (relink_counters _ _ _).2, relink_runs]
  exact ⟨rfl, rfl, rfl⟩

lemma absorb_counters (h : Heap) (a b : ℕ) :
    (h.absorb a b).usedBytes = h.usedBytes ∧ (h.absorb a b).freeBytes = h.freeBytes ∧
      (h.absorb a b).runs = h.runs := by
  unfold absorb
  rw [(relink_counters _ _ _).1, (relink_counters _ _ _).2, relink_runs]
  exact ⟨rfl, rfl, rfl⟩

lemma addRegion_counters (h : Heap) (run : Run) :
    (h.addRegion run).usedBytes = h.usedBytes ∧ (h.addRegion run).freeBytes =
      wrap (h.freeBytes + ((h.addRegion run).block run.base).size) := by
  unfold addRegion
  dsimp only
  split <;> exact ⟨rfl, rfl⟩

section Marks

variable {h : Heap} {l r : List Blk} {x : Blk}

lemma size_setFree (hs : h.Shape (l ++ x :: r)) (free : Bool) :
    ((h.setFree x.addr free).block x.addr).size = x.size := by
  rw [block_setFree, hs.block_eq]

lemma claim_counters (hs : h.Shape (l ++ x :: r)) :
    (h.claim x.addr).usedBytes = wrap (h.usedBytes + x.size) ∧
      (h.claim x.addr).freeBytes = wsub h.freeBytes x.size ∧ (h.claim x.addr).runs = h.runs := by
  unfold claim
  dsimp only
  rw [size_setFree hs]
  exact ⟨rfl, rfl, rfl⟩

lemma release_counters (hs : h.Shape (l ++ x :: r)) :
    (h.release x.addr).usedBytes = wsub h.usedBytes x.size ∧
      (h.release x.addr).freeBytes = wrap (h.freeBytes + x.size) ∧
      (h.release x.addr).runs = h.runs := by
  unfold release
  dsimp only
  rw [size_setFree hs]
  exact ⟨rfl, rfl, rfl⟩

end Marks

namespace Counted

variable {V : Set ℕ} {h h' : Heap} {bs bs' : List Blk}

lemma of_counters (hc : h.Counted bs)
    (heq : h'.usedBytes = h.usedBytes ∧ h'.freeBytes = h.freeBytes ∧ h'.runs = h.runs)
    (hused : sizes false bs' = sizes false bs)
    (hfree : sizes true bs' + blockHeaderSize * bs'.length =
      sizes true bs + blockHeaderSize * bs.length) : h'.Counted bs' where
  used := by rw [heq.1, hused, hc.used]
  free := by rw [heq.2.1, heq.2.2, hfree, hc.free]
  free_lt := heq.2.1 ▸ hc.free_lt
  runs_disj := heq.2.2 ▸ hc.runs_disj
  runs_bound := heq.2.2 ▸ hc.runs_bound

lemma claim (hs : h.Shape (l ++ x :: r)) (hx : x.free = true) (hc : h.Counted (l ++ x :: r)) :
    (h.claim x.addr).Counted (l ++ { x with free := false } :: r) := by
  obtain ⟨hused, hfree, hruns⟩ := claim_counters hs
  obtain ⟨husum, hfsum⟩ := sizes_mark l r hx
  have hstop := hs.bounds_self.2.1
  have hcu := hc.used
  have hcf := hc.free
  refine ⟨?_, ?_, ?_, hruns ▸ hc.runs_disj, hruns ▸ hc.runs_bound⟩
  · rw [hused, wrap, hcu, husum]
    omega
  · rw [hfree, hruns, wsub]
    simp only [length_append, length_cons, Blk.stop] at hcf hstop ⊢
    omega
  · rw [hfree, wsub]
    exact mod_lt _ (Nat.two_pow_pos 64)

lemma release (hs : h.Shape (l ++ x :: r)) (hx : x.free = false) (hc : h.Counted (l ++ x :: r)) :
    (h.release x.addr).Counted (l ++ { x with free := true } :: r) := by
  obtain ⟨hused, hfree, hruns⟩ := release_counters hs
  -- the block was made used before
  obtain ⟨husum, hfsum⟩ := sizes_mark l r (x := { x with free := true }) rfl
  have hx' : ({ x with free := false } : Blk) = x := by rw [← hx]
  simp only [hx'] at husum hfsum
  have hstop := hs.bounds_self.2.1
  have hcu := hc.used
  have hcf := hc.free
  refine ⟨?_, ?_, ?_, hruns ▸ hc.runs_disj, hruns ▸ hc.runs_bound⟩
  · rw [hused, wsub, hcu, husum]
    simp only [Blk.stop] at hstop
    omega
  · rw [hfree, hruns, wrap]
    simp only [length_append, length_cons] at hcf ⊢
    omega
  · rw [hfree, wrap]
    exact mod_lt _ (Nat.two_pow_pos 64)

lemma region {run : Run} (hs : h.Shape bs) (hc : h.Counted bs) (hbase : 0 < run.base)
    (hlt : run.base + run.bytes ≤ 2 ^ 64) (hbytes : blockHeaderSize ≤ run.bytes)
    (hmod : run.bytes % 16 = 0) (hdisj : ∀ w ∈ h.runs, run.span.Disj w.span) :
    (h.addRegion run).Counted (bs ++ [⟨run.base, run.bytes - blockHeaderSize, true⟩]) := by
  have hs' := hs.addRegion hbase hlt hbytes hmod hdisj
  obtain ⟨hused, hfree⟩ := addRegion_counters h run
  have hsize := hs'.block_eq
  rw [hsize] at hfree
  have hcf := hc.free
  refine ⟨?_, ?_, ?_, ?_, ?_⟩
  · rw [hused, hc.used, sizes_append, sizes_cons, if_neg (by simp), sizes_nil, Nat.add_zero]
  · rw [hfree, Shape.addRegion_runs, wrap, sizes_append, sizes_cons, if_pos rfl, sizes_nil]
    simp only [length_append, length_cons, length_nil, blockHeaderSize] at hcf hbytes ⊢
    omega
  · rw [hfree, wrap]
    exact mod_lt _ (Nat.two_pow_pos 64)
  · rw [Shape.addRegion_runs, map_cons, pairwise_cons]
    refine ⟨fun w hw => ?_, hc.runs_disj⟩
    obtain ⟨r, hr, rfl⟩ := mem_map.1 hw
    exact hdisj r hr
  · rw [Shape.addRegion_runs]
    intro r hr
    rcases mem_cons.1 hr with rfl | hr
    · exact ⟨hbase, hlt, hbytes⟩
    · exact hc.runs_bound r hr

/-- **An edit keeps the relation of counters and blocks.** -/
theorem edit {s t : Heap × List Blk} (he : Edit V s t) (hc : s.1.Counted s.2) :
    t.1.Counted t.2 := by
  cases he with
  | claim hs hx =>
    exact hc.claim hs hx
  | @split h l r x size hs hx hle hmod =>
    refine hc.of_counters (splitBlock_counters h x.addr size) ?_ ?_
    · simp [sizes_append, sizes_cons, hx]
    · -- the rest has a header of its own
      simp only [sizes_append, sizes_cons, hx, if_true, length_append, length_cons,
        blockHeaderSize] at hle ⊢
      omega
  | @absorb h l r x y hs hx hy hadj =>
    refine hc.of_counters (absorb_counters h x.addr y.addr) ?_ ?_
    · simp [sizes_append, sizes_cons, hx, hy]
    · simp only [sizes_append, sizes_cons, hx, hy, if_true, length_append, length_cons,
        blockHeaderSize]
      omega
  | region hs hbase hlt hbytes hmod hdisj =>
    exact hc.region hs hbase hlt hbytes hmod hdisj
  | release hs hx hv =>
    exact hc.release hs hx
  | payload hs hx hv hsame hlow hhigh => exact hc.of_counters ⟨rfl, rfl, rfl⟩ rfl rfl

theorem edits (hc : h.Counted bs) (he : Edits V (h, bs) (h', bs')) : h'.Counted bs' := by
  have hall : ∀ t, Edits V (h, bs) t → t.1.Counted t.2 := by
    intro t ht
    induction ht with
    | refl => exact hc
    | tail _ hedit ih => exact edit hedit ih
  exact hall (h', bs') he

end Counted

end Heap

/-! ## Sequences of calls -/

lemma sum_length_span (bs : List Blk) :
    ((bs.map Blk.span).map Span.length).sum =
      sizes true bs + sizes false bs + blockHeaderSize * bs.length := by
  induction bs with
  | nil => rfl
  | cons b bs ih =>
    have hlen : b.span.length = blockHeaderSize + b.size := by
      simp only [Span.length, Blk.span, Blk.stop]
      omega
    rw [map_cons, map_cons, sum_cons, ih, hlen, sizes_cons, sizes_cons, length_cons, mul_succ]
    cases b.free <;> simp only [if_true, Bool.true_eq_false, Bool.false_eq_true, if_false] <;> omega

lemma Heap.Shape.sizes_lt {bs : List Blk} (hs : h.Shape bs) :
    sizes true bs + sizes false bs + blockHeaderSize * bs.length < 2 ^ 64 := by
  have hle := Span.sum_length_le hs.tiles.disjoint fun s hmem => by
    obtain ⟨b, hb, rfl⟩ := mem_map.1 hmem
    exact ⟨(hs.bounds b hb).1, (hs.bounds b hb).2.1⟩
  rw [sum_length_span] at hle
  omega

lemma Heap.Counted.runs_lt {bs : List Blk} (hc : h.Counted bs) :
    blockHeaderSize * h.runs.length < 2 ^ 64 := by
  have hle := Span.sum_length_le hc.runs_disj fun s hmem => by
    obtain ⟨r, hr, rfl⟩ := mem_map.1 hmem
    exact ⟨(hc.runs_bound r hr).1, (hc.runs_bound r hr).2.1⟩
  have hheaders : ∀ rs : List Run, (∀ r ∈ rs, blockHeaderSize ≤ r.bytes) →
      blockHeaderSize * rs.length ≤ ((rs.map Run.span).map Span.length).sum := by
    intro rs hrs
    induction rs with
    | nil => exact le_rfl
    | cons r rs ih =>
      have hr := hrs r mem_cons_self
      have hlen : r.span.length = r.bytes := by
        simp only [Span.length, Run.span]
        omega
      rw [map_cons, map_cons, sum_cons, length_cons, hlen, mul_succ]
      have hrest := ih fun r hr => hrs r (mem_cons_of_mem _ hr)
      omega
  have hrun := hheaders h.runs fun r hr => (hc.runs_bound r hr).2.2
  omega

namespace HeapState

/-- `heap_get_used_bytes` and `heap_get_free_bytes` are the sums of the payloads of the used and of
the free blocks. -/
def CountersExact (s : HeapState) (bs : List Blk) : Prop :=
  s.heap.usedBytes = sizes false bs ∧ s.heap.freeBytes = sizes true bs

variable {s : HeapState} {bs : List Blk}

/-- **The counters of a heap**: the used bytes are exact, and the free bytes are exact if and only
if there are as many blocks as runs. -/
lemma Inv.counters (hi : s.Inv bs) (hc : s.heap.Counted bs) :
    s.heap.usedBytes = sizes false bs ∧
      (s.CountersExact bs ↔ bs.length = s.heap.runs.length) := by
  have hlt := hi.shape.sizes_lt
  have hrun := hc.runs_lt
  have hused : s.heap.usedBytes = sizes false bs := by
    rw [hc.used]
    exact mod_eq_of_lt (by omega)
  have hfree := hc.free
  have hfl := hc.free_lt
  refine ⟨hused, ?_⟩
  simp only [blockHeaderSize] at hlt hrun hfree
  constructor
  · rintro ⟨-, heq⟩
    omega
  · intro hlen
    exact ⟨hused, by omega⟩

lemma counted_init (m : ByteMemory) {initialMem : ℕ}
    (hfresh : FreshRun [] initialMem heapInitialPages) :
    (init m initialMem).heap.Counted (initialBlocks initialMem) := by
  have hs := Shape.heapInit m hfresh
  by_cases hne : initialMem = 0
  · simp only [init, heapInit, initialBlocks, hne, if_true]
    exact ⟨rfl, rfl, Nat.two_pow_pos 64, .nil, by simp⟩
  · obtain ⟨hlt, -⟩ := hfresh.resolve_left hne
    simp only [initialBlocks, if_neg hne] at hs ⊢
    have hblock := hs.block_eq (l := [])
    have hfree : (heapInit m initialMem).freeBytes =
        ((heapInit m initialMem).block initialMem).size := by
      simp only [heapInit, if_neg hne]
      rfl
    have hruns : (heapInit m initialMem).runs =
        [⟨initialMem, heapInitialPages * pmmPageSize⟩] := by
      simp only [heapInit, if_neg hne]
      rfl
    refine ⟨?_, ?_, ?_, ?_, ?_⟩
    · simp only [init, heapInit, if_neg hne]
      rfl
    · simp only [init, hfree, hruns, hblock]
      rfl
    · simp only [init, hfree, hblock]
      decide
    · simp only [init, hruns]
      exact pairwise_singleton _ _
    · simp only [init, hruns, mem_singleton, forall_eq]
      exact ⟨pos_of_ne_zero hne, hlt, by decide⟩

/-- **The counters after every sequence of calls**: the used bytes are exact, and the free bytes are
exact if and only if the list has as many blocks as the page allocator has handed out runs. -/
theorem counters_run (m : ByteMemory) (initialMem : ℕ) (es : List Event)
    (hfresh : FreshRun [] initialMem heapInitialPages)
    (hvalid : Along step Valid (init m initialMem) es) :
    ∃ bs, (run step (init m initialMem) es).WellFormed bs ∧
      (run step (init m initialMem) es).heap.usedBytes = sizes false bs ∧
      ((run step (init m initialMem) es).CountersExact bs ↔
        bs.length = (run step (init m initialMem) es).heap.runs.length) := by
  have hstep : ∀ (s : HeapState) (e : Event), (∃ bs, s.Inv bs ∧ s.heap.Counted bs) → s.Valid e →
      ∃ bs, (s.step e).Inv bs ∧ (s.step e).heap.Counted bs := by
    rintro s e ⟨bs, hi, hc⟩ hv
    obtain ⟨V, bs', hi', hedits, -⟩ := hi.step hv
    exact ⟨bs', hi', hc.edits hedits⟩
  obtain ⟨bs, hi, hc⟩ := run_invariant_of_along hstep
    ⟨_, inv_init m hfresh, counted_init m hfresh⟩ hvalid
  exact ⟨bs, hi.wellFormed, hi.counters hc⟩

/-- Two allocations are made and the first is freed. -/
theorem counters_run_freed :
    ∃ bs, (run step (init (fun _ => 0) 0x4000000)
        [.kmalloc 100 0 0, .kzalloc 24 0 0, .kfree 0x4000020]).WellFormed bs ∧
      (run step (init (fun _ => 0) 0x4000000)
        [.kmalloc 100 0 0, .kzalloc 24 0 0, .kfree 0x4000020]).heap.usedBytes = sizes false bs := by
  obtain ⟨bs, hwf, hused, -⟩ := counters_run (fun _ => 0) 0x4000000
    [.kmalloc 100 0 0, .kzalloc 24 0 0, .kfree 0x4000020] (by decide +kernel) (by decide +kernel)
  exact ⟨bs, hwf, hused⟩

/-- **The counter of free bytes is not exact.** After `kmalloc(16)` the list has a used block and
one free block behind it, and the counter is 32 more than the payload of the free block. When the
heap grows by a run directly behind its first one, and then all of it is allocated, no block is
free, and the counter is `2 ^ 64 - 32`. -/
theorem free_counter_wraps :
    FreshRun [] 0x4000000 heapInitialPages ∧
    Along step Valid (init (fun _ => 0) 0x4000000) [.kmalloc 16 0 0] ∧
    (∃ h, h = (run step (init (fun _ => 0) 0x4000000) [.kmalloc 16 0 0]).heap ∧
      (h.block h.start).isFree = false ∧ (h.block (h.block h.start).next).isFree = true ∧
      (h.block (h.block h.start).next).next = 0 ∧
      h.freeBytes = (h.block (h.block h.start).next).size + 32) ∧
    Along step Valid (init (fun _ => 0) 0x4000000)
      [.kmalloc 33554432 0x6000000 0, .kfree 0x4000020, .kmalloc 67112928 0 0] ∧
    ∃ h, h = (run step (init (fun _ => 0) 0x4000000)
        [.kmalloc 33554432 0x6000000 0, .kfree 0x4000020, .kmalloc 67112928 0 0]).heap ∧
      (h.block h.start).isFree = false ∧ (h.block h.start).next = 0 ∧
      h.freeBytes = 2 ^ 64 - 32 := by
  refine ⟨by decide +kernel, by decide +kernel, ⟨_, rfl, ?_⟩, by decide +kernel, _, rfl, ?_⟩
  · decide +kernel
  · decide +kernel

end HeapState

end SubOS.Mm
