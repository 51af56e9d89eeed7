import SubOS.Mm.HeapInv

set_option autoImplicit false

/-!
# Sequences of calls of the heap

The blocks that are not free are those of the live allocations, one for each. Every call keeps this,
and so the list has its shape after every sequence of calls.

## Main definitions

* `Inv`, `WellFormed` — the invariant, and what it means for the blocks.

## Main results

* `wellFormed_run`, `free_run_below` — when the heap is well formed.
-/

namespace SubOS.Mm

open EventRun Set List Heap HeapState

variable {mem₁ mem₂ newSize size initialMem : ℕ}

namespace Heap

/-- What `krealloc` does with the block `x` for a new size, if it returns `p`: the used blocks
before and after. -/
inductive Reallocates (x : Blk) (newSize p : ℕ) (before after : Set Blk) : Prop where
  | freed (hsize : newSize = 0) (hp : p = 0) (hafter : after = before \ {x})
  | failed (hsize : newSize ≠ 0) (hp : p = 0) (hafter : after = before)
  | kept (hp : p = x.addr + blockHeaderSize) (hle : newSize ≤ x.size) (hafter : after = before)
  | moved (y : Blk) (hp : p = y.addr + blockHeaderSize) (hle : newSize ≤ y.size)
      (hnew : ∀ b ∈ before, b.addr ≠ y.addr) (hafter : after = insert y before \ {x})

/-- How `krealloc` gets from one heap to the next with the block `x`. When it moves the payload, the
new block `y` is made first, then the payload is copied, and then `x` is freed. -/
inductive ReallocSteps (h : Heap) (bs : List Blk) (x : Blk) (newSize p : ℕ) (h' : Heap)
    (bs' : List Blk) : Prop where
  | freed (hsize : newSize = 0) (hp : p = 0) (hedits : Edits {x.addr} (h, bs) (h', bs'))
      (hused : used bs' = used bs \ {x})
  | failed (hsize : newSize ≠ 0) (hp : p = 0) (hedits : Edits ∅ (h, bs) (h', bs'))
      (hused : used bs' = used bs)
  | kept (hp : p = x.addr + blockHeaderSize) (hle : newSize ≤ x.size) (hheap : h' = h)
      (hbs : bs' = bs)
  | moved (y : Blk) (h₁ : Heap) (bs₁ : List Blk) (hp : p = y.addr + blockHeaderSize)
      (hlt : x.size < newSize) (hle : newSize ≤ y.size) (hnew : ∀ b ∈ used bs, b.addr ≠ y.addr)
      (hedits₁ : Edits ∅ (h, bs) (h₁, bs₁)) (hy : y ∈ used bs₁) (hused₁ : used bs ⊆ used bs₁)
      (hedits₂ : Edits {x.addr} ({ h₁ with mem := h₁.mem.copy p (x.addr + blockHeaderSize) x.size },
        bs₁) (h', bs'))
      (hused : used bs' = insert y (used bs) \ {x})

namespace ReallocSteps

variable {h h' : Heap} {bs bs' : List Blk} {x : Blk} {newSize p : ℕ}

lemma reallocates (hr : ReallocSteps h bs x newSize p h' bs') :
    Reallocates x newSize p (used bs) (used bs') := by
  cases hr with
  | freed hsize hp hedits hused => exact .freed hsize hp hused
  | failed hsize hp hedits hused => exact .failed hsize hp hused
  | kept hp hle hheap hbs => exact .kept hp hle (by rw [hbs])
  | moved y h₁ bs₁ hp hlt hle hnew hedits₁ hy hused₁ hedits₂ hused =>
    exact .moved y hp hle hnew hused

/-- **They are edits** that free `x` and write to the payload that is returned. -/
lemma edits (hr : ReallocSteps h bs x newSize p h' bs') (hs : h.Shape bs) :
    Edits {x.addr, p - blockHeaderSize} (h, bs) (h', bs') := by
  cases hr with
  | freed hsize hp hedits hused => exact hedits.mono (by simp)
  | failed hsize hp hedits hused => exact hedits.mono (empty_subset _)
  | kept hp hle hheap hbs =>
    rw [hheap, hbs]
  | moved y h₁ bs₁ hp hlt hle hnew hedits₁ hy hused₁ hedits₂ hused =>
    refine (hedits₁.mono (empty_subset _)).trans (.head (.payload (hedits₁.shape hs) hy.1 ?_
      (h₁.mem.sameOutside_copy p (x.addr + blockHeaderSize) x.size) hp.ge ?_)
      (hedits₂.mono (by simp)))
    · simp [hp]
    · simp only [hp, Blk.stop]
      omega

end ReallocSteps

/-- The blocks after `heap_init`: one free block, or none. -/
def initialBlocks (initialMem : ℕ) : List Blk :=
  if initialMem = 0 then []
  else [⟨initialMem, heapInitialPages * pmmPageSize - blockHeaderSize, true⟩]

lemma merged_initialBlocks (initialMem : ℕ) : Merged (initialBlocks initialMem) := by
  unfold initialBlocks
  split
  · exact isChain_nil
  · exact isChain_singleton _

lemma used_initialBlocks (initialMem : ℕ) : used (initialBlocks initialMem) = ∅ := by
  unfold initialBlocks
  split
  · simp [used]
  · rw [used_cons_of_free rfl]
    simp [used]

namespace Shape

variable {h : Heap} {bs : List Blk} {x : Blk}

/-- **What `krealloc` does** with a live pointer. -/
theorem krealloc (hs : h.Shape bs) (hm : Merged bs) (hx : x ∈ used bs)
    (hserve : Serves h bs newSize mem₁ mem₂) :
    ∃ h' p bs', h.krealloc (x.addr + blockHeaderSize) newSize mem₁ mem₂ = some (h', p) ∧
      Merged bs' ∧ ReallocSteps h bs x newSize p h' bs' := by
  unfold Heap.krealloc
  rw [if_neg (by simp [blockHeaderSize])]
  split
  · next hzero =>
    obtain ⟨bs', hedits, hm', hused⟩ := hs.kfree_used hm hx (Set.mem_singleton _)
    exact ⟨_, 0, bs', rfl, hm', .freed hzero rfl hedits hused⟩
  next hne =>
  obtain ⟨hblock, hmagic, hxsize⟩ : wsub (x.addr + blockHeaderSize) blockHeaderSize = x.addr ∧
      (h.block x.addr).magic = heapMagic ∧ (h.block x.addr).size = x.size := by
    obtain ⟨l, r, rfl⟩ := List.append_of_mem hx.1
    exact ⟨hs.wsub_header, by rw [hs.block_eq], by rw [hs.block_eq]⟩
  simp only [hblock, hmagic, hxsize, ne_eq, not_true_eq_false, if_false]
  split
  · next hle => exact ⟨h, _, bs, rfl, hm, .kept rfl hle rfl rfl⟩
  next hlt =>
  obtain ⟨h₁, p, bs₁, heq, hedits₁, hm₁, hall⟩ := hserve
  simp only [heq]
  rcases hall with ⟨rfl, hused⟩ | ⟨y, rfl, hle, hyfree, hnew, hused⟩
  · exact ⟨h₁, 0, bs₁, rfl, hm₁, .failed hne rfl hedits₁ hused⟩
  · rw [if_pos (by simp [blockHeaderSize])]
    have hy : y ∈ used bs₁ := hused ▸ Set.mem_insert y _
    have hx' : x ∈ used bs₁ := hused ▸ Set.mem_insert_of_mem y hx
    -- the copy stays in the payload of the new block
    have hcopy := (hedits₁.shape hs).payload hy.1
      (h₁.mem.sameOutside_copy (y.addr + blockHeaderSize) (x.addr + blockHeaderSize) x.size) le_rfl
      (by simp only [Blk.stop]; omega)
    obtain ⟨bs', hedits₂, hm', hused'⟩ := hcopy.kfree_used hm₁ hx' (Set.mem_singleton _)
    exact ⟨_, _, bs', rfl, hm', .moved y h₁ bs₁ rfl (by omega) hle hnew hedits₁ hy
      (hused ▸ Set.subset_insert y _) hedits₂ (hused ▸ hused')⟩

lemma empty (m : ByteMemory) : (Heap.mk m 0 0 0 0 0 0 []).Shape [] where
  chain := trivial
  start := rfl
  tail := rfl
  tiles := ⟨.nil, fun _ => Iff.rfl⟩
  bounds := by simp

/-- **The heap after `heap_init`.** -/
lemma heapInit (m : ByteMemory) (hfresh : HeapState.FreshRun [] initialMem heapInitialPages) :
    (Heap.heapInit m initialMem).Shape (initialBlocks initialMem) := by
  unfold Heap.heapInit initialBlocks
  split
  · exact empty m
  · next hne =>
    obtain ⟨hlt, -⟩ := hfresh.resolve_left hne
    have hheader : blockHeaderSize ≤ heapInitialPages * pmmPageSize := by decide
    have hmod : heapInitialPages * pmmPageSize % 16 = 0 := by decide
    have hbase : 0 < (⟨initialMem, heapInitialPages * pmmPageSize⟩ : Run).base :=
      Nat.pos_of_ne_zero hne
    have hs := (empty m).addRegion hbase hlt hheader hmod (by simp)
    refine hs.congr (fun b _ => ?_) ?_ rfl ?_
    · rw [addRegion_block, if_neg (by simp), wsub_of_le hheader (by decide +revert)]
      exact block_of_mem rfl _
    · rw [addRegion_start]
      rfl
    · rw [addRegion_runs]
      rfl

end Shape

end Heap

/-! ## The live allocations -/

/-- **The live allocations have the blocks `U`**: each has a block that is large enough, and each
block belongs to one of them. -/
structure Owns (live : List Alloc) (U : Set Blk) : Prop where
  block : ∀ a ∈ live, ∃ b ∈ U, a.ptr = b.addr + blockHeaderSize ∧ a.size ≤ b.size
  owner : ∀ b ∈ U, ∃ a ∈ live, a.ptr = b.addr + blockHeaderSize
  nodup : (live.map Alloc.ptr).Nodup

namespace Owns

variable {live : List Alloc} {U : Set Blk} {x : Blk}

lemma insert (ho : Owns live U) (hsize : size ≤ x.size) (hnew : ∀ b ∈ U, b.addr ≠ x.addr) :
    Owns (⟨x.addr + blockHeaderSize, size⟩ :: live) (insert x U) where
  block := by
    intro a ha
    rcases mem_cons.1 ha with rfl | ha
    · exact ⟨x, mem_insert _ _, rfl, hsize⟩
    · obtain ⟨b, hb, hab⟩ := ho.block a ha
      exact ⟨b, Set.mem_insert_of_mem _ hb, hab⟩
  owner := by
    rintro b (rfl | hb)
    · exact ⟨_, mem_cons_self, rfl⟩
    · obtain ⟨a, ha, hab⟩ := ho.owner b hb
      exact ⟨a, mem_cons_of_mem _ ha, hab⟩
  nodup := by
    rw [map_cons, nodup_cons]
    refine ⟨fun hmem => ?_, ho.nodup⟩
    obtain ⟨a, ha, hptr⟩ := mem_map.1 hmem
    obtain ⟨b, hb, hab, -⟩ := ho.block a ha
    exact hnew b hb (Nat.add_right_cancel (hab.symm.trans hptr))

lemma diff (ho : Owns live U) (hinj : ∀ b ∈ U, b.addr = x.addr → b = x) :
    Owns (HeapState.drop live (x.addr + blockHeaderSize)) (U \ {x}) where
  block := by
    intro a ha
    obtain ⟨ha, hne⟩ := mem_filter.1 ha
    obtain ⟨b, hb, hab, hle⟩ := ho.block a ha
    refine ⟨b, ⟨hb, fun heq => ?_⟩, hab, hle⟩
    rw [mem_singleton_iff.1 heq] at hab
    simp [hab] at hne
  owner := by
    rintro b ⟨hb, hne⟩
    obtain ⟨a, ha, hab⟩ := ho.owner b hb
    refine ⟨a, mem_filter.2 ⟨ha, ?_⟩, hab⟩
    simp only [hab, ne_eq, Nat.add_right_cancel_iff, decide_eq_true_eq]
    exact fun heq => hne (hinj b hb heq)
  nodup := ho.nodup.sublist (filter_sublist.map _)

end Owns

namespace HeapState

variable {s : HeapState} {bs : List Blk}

/-- The pointers whose payloads an event may change. -/
def Event.Names : Event → ℕ → Prop
  | .kmalloc _ _ _ | .kzalloc _ _ _ => fun _ => False
  | .krealloc ptr _ _ _ | .kfree ptr => fun q => q = ptr
  | .write _ _ => fun _ => True

/-- **The invariant**: the list of blocks has its shape, and the live allocations have the used
blocks. -/
structure Inv (s : HeapState) (bs : List Blk) : Prop where
  returned : s.returned = true
  shape : s.heap.Shape bs
  merged : Merged bs
  owns : Owns s.live (used bs)

/-- **The next state is reached by edits** that leave alone the used blocks whose pointers do not
meet `P`. -/
def Reached (s : HeapState) (bs : List Blk) (s' : HeapState) (P : ℕ → Prop) : Prop :=
  ∃ V bs', s'.Inv bs' ∧ Heap.Edits V (s.heap, bs) (s'.heap, bs') ∧
    ∀ b ∈ used bs, b.addr ∈ V → P (b.addr + blockHeaderSize)

namespace Inv

section

variable (hi : s.Inv bs) {ptr : ℕ}
include hi

lemma drop_zero : drop s.live 0 = s.live := by
  refine filter_eq_self.2 fun a ha => ?_
  obtain ⟨b, -, hab, -⟩ := hi.owns.block a ha
  simp [hab, blockHeaderSize]

lemma exists_block (hne : ptr ≠ 0) (hlive : s.LivePtr ptr) :
    ∃ x ∈ used bs, ptr = x.addr + blockHeaderSize := by
  obtain ⟨a, ha, rfl⟩ := hlive.resolve_left hne
  obtain ⟨b, hb, hab, -⟩ := hi.owns.block a ha
  exact ⟨b, hb, hab⟩

lemma inj {x : Blk} (hx : x ∈ used bs) : ∀ b ∈ used bs, b.addr = x.addr → b = x :=
  fun _ hb heq => hi.shape.addr_inj hb.1 hx.1 heq

lemma finish_add {r : Option (Heap × ℕ)} {p : ℕ} {h' : Heap} {bs' : List Blk}
    (hr : r = some (h', p)) (hs : h'.Shape bs') (hm : Merged bs')
    (hall : Shape.Allocates size p (used bs) (used bs')) :
    (s.finish (fun ptr => add s.live ptr size) r).Inv bs' := by
  rw [hr]
  refine ⟨hi.returned, hs, hm, ?_⟩
  rcases hall with ⟨rfl, hused⟩ | ⟨x, rfl, hle, -, hnew, hused⟩
  · rw [hused]
    exact hi.owns
  · have hadd : add s.live (x.addr + blockHeaderSize) size =
        ⟨x.addr + blockHeaderSize, size⟩ :: s.live := if_neg (by simp [blockHeaderSize])
    have ho := hi.owns.insert hle hnew
    rw [← hadd, ← hused] at ho
    exact ho

lemma kmalloc (hserve : Shape.Serves s.heap bs size mem₁ mem₂) :
    Reached s bs (s.step (.kmalloc size mem₁ mem₂)) fun _ => False := by
  obtain ⟨h', p, bs', heq, hedits, hm', hall⟩ := hserve
  have hinv := hi.finish_add heq (hedits.shape hi.shape) hm' hall
  refine ⟨∅, bs', hinv, ?_, by simp⟩
  simp only [step, heq, finish]
  exact hedits

lemma kzalloc (hserve : Shape.Serves s.heap bs size mem₁ mem₂) :
    Reached s bs (s.step (.kzalloc size mem₁ mem₂)) fun _ => False := by
  obtain ⟨h', p, bs', heq, hedits, hm', hall⟩ := hi.shape.kzalloc hserve
  have hinv := hi.finish_add heq (hedits.shape hi.shape) hm' hall
  refine ⟨{p - blockHeaderSize}, bs', hinv, ?_, fun b hb hv => ?_⟩
  · simp only [step, heq, finish]
    exact hedits
  · -- the block whose payload is written is new, or there is none
    rw [mem_singleton_iff] at hv
    rcases hall with ⟨rfl, -⟩ | ⟨x, rfl, -, -, hnew, -⟩
    · have hpos := (hi.shape.bounds b hb.1).1
      omega
    · exact hnew b hb (by omega)

lemma kfree (hlive : s.LivePtr ptr) : Reached s bs (s.step (.kfree ptr)) fun q => q = ptr := by
  by_cases hne : ptr = 0
  · refine ⟨∅, bs, ⟨hi.returned, ?_, hi.merged, ?_⟩, ?_, by simp⟩
    · simp only [step, Heap.kfree, hne, if_true]
      exact hi.shape
    · simp only [step, hne, hi.drop_zero]
      exact hi.owns
    · simp only [step, Heap.kfree, hne, if_true]
      exact .refl
  · obtain ⟨x, hx, rfl⟩ := hi.exists_block hne hlive
    obtain ⟨bs', hedits, hm', hused⟩ := hi.shape.kfree_used hi.merged hx (Set.mem_singleton _)
    refine ⟨{x.addr}, bs', ⟨hi.returned, hedits.shape hi.shape, hm', ?_⟩, hedits, fun b _ hv => ?_⟩
    · rw [hused]
      exact hi.owns.diff (hi.inj hx)
    · rw [mem_singleton_iff.1 hv]

lemma step_krealloc_null :
    s.step (.krealloc 0 newSize mem₁ mem₂) = s.step (.kmalloc newSize mem₁ mem₂) := by
  simp only [step, krealloc, if_true, hi.drop_zero]
  cases s.heap.kmalloc newSize mem₁ mem₂ with
  | none => rfl
  | some r =>
    obtain ⟨h', p⟩ := r
    simp only [finish]
    by_cases hp : p = 0 ∧ newSize ≠ 0
    · rw [if_pos hp, hp.1]
      rfl
    · rw [if_neg hp]

lemma owns_krealloc {x : Blk} (hx : x ∈ used bs) {p : ℕ} {U : Set Blk}
    (hre : Reallocates x newSize p (used bs) U) :
    Owns (if p = 0 ∧ newSize ≠ 0 then s.live
      else add (drop s.live (x.addr + blockHeaderSize)) p newSize) U := by
  have hdiff := hi.owns.diff (hi.inj hx)
  have hpos : ∀ y : Blk, y.addr + blockHeaderSize ≠ 0 := by simp [blockHeaderSize]
  cases hre with
  | freed hzero hp hafter =>
    simp only [hzero, hp, ne_eq, not_true_eq_false, and_false, if_false, add, if_true, hafter]
    exact hdiff
  | failed hpos hp hafter =>
    simp only [hpos, hp, ne_eq, not_false_eq_true, and_self, if_true, hafter]
    exact hi.owns
  | kept hp hle hafter =>
    simp only [hp, hpos, false_and, if_false, add, hafter]
    have hinsert := hdiff.insert hle fun b hb heq => hb.2 (hi.inj hx b hb.1 heq)
    rwa [insert_sdiff_singleton, insert_eq_of_mem hx] at hinsert
  | moved y hp hle hnew hafter =>
    simp only [hp, hpos, false_and, if_false, add, hafter]
    have hinsert := hdiff.insert hle fun b hb => hnew b hb.1
    have hyx : y ≠ x := fun heq => hnew x hx (by rw [heq])
    rwa [insert_sdiff_singleton_comm hyx] at hinsert

lemma krealloc (hlive : s.LivePtr ptr) (hserve : Shape.Serves s.heap bs newSize mem₁ mem₂) :
    Reached s bs (s.step (.krealloc ptr newSize mem₁ mem₂)) fun q => q = ptr := by
  by_cases hne : ptr = 0
  · rw [hne, hi.step_krealloc_null]
    obtain ⟨V, bs', hinv, hedits, hv⟩ := hi.kmalloc hserve
    exact ⟨V, bs', hinv, hedits, fun b hb hbv => (hv b hb hbv).elim⟩
  obtain ⟨x, hx, rfl⟩ := hi.exists_block hne hlive
  obtain ⟨h', p, bs', heq, hm', hr⟩ := hi.shape.krealloc hi.merged hx hserve
  have hedits := hr.edits hi.shape
  have hown := hi.owns_krealloc hx hr.reallocates
  refine ⟨{x.addr, p - blockHeaderSize}, bs', ?_, ?_, fun b hb hv => ?_⟩
  · simp only [step, heq, finish]
    exact ⟨hi.returned, hedits.shape hi.shape, hm', hown⟩
  · simp only [step, heq, finish]
    exact hedits
  · rcases hv with hv | hv
    · rw [hv]
    · -- the block whose payload is written is `x`, or it is new, or there is none
      rw [mem_singleton_iff] at hv
      have hb0 := (hi.shape.bounds b hb.1).1
      cases hr.reallocates with
      | freed hzero hp hafter | failed hpos hp hafter | kept hp hle hafter => omega
      | moved y hp hle hnew hafter => exact absurd (by omega) (hnew b hb)

lemma exists_header {a : Alloc} (ha : a ∈ s.live) :
    ∃ b ∈ bs, a.ptr = b.addr + blockHeaderSize ∧
      (s.heap.block (a.ptr - blockHeaderSize)).isFree = false ∧
      (s.heap.block (a.ptr - blockHeaderSize)).size = b.size ∧ a.size ≤ b.size := by
  obtain ⟨b, ⟨hb, hfree⟩, hab, hle⟩ := hi.owns.block a ha
  have hs := hi.shape
  obtain ⟨l, r, rfl⟩ := append_of_mem hb
  rw [hab, Nat.add_sub_cancel, hs.block_eq]
  exact ⟨b, hb, rfl, hfree, rfl, hle⟩

lemma write {addr : ℕ} {value : UInt8} (hlive : s.InLive addr) :
    Reached s bs (s.step (.write addr value)) fun _ => True := by
  obtain ⟨a, ha, hlow, hhigh⟩ := hlive
  obtain ⟨b, hb, hab, -, hsize, -⟩ := hi.exists_header ha
  have hstop : addr + 1 ≤ b.stop := by
    rw [hsize, hab] at hhigh
    simp only [Blk.stop]
    omega
  have hfill := s.heap.mem.sameOutside_fill addr 1 value
  have hedit := Edit.payload hi.shape hb (mem_univ _) hfill (hab ▸ hlow) hstop
  exact ⟨univ, bs, ⟨hi.returned, hedit.shape, hi.merged, hi.owns⟩, .single hedit, by simp⟩

/-- **Every call keeps the invariant**, and changes the heap by edits. -/
theorem step {e : Event} (hv : s.Valid e) : Reached s bs (s.step e) e.Names := by
  cases e with
  | kmalloc size mem₁ mem₂ => exact hi.kmalloc (hi.shape.kmalloc hi.merged hv.1 hv.2)
  | kzalloc size mem₁ mem₂ => exact hi.kzalloc (hi.shape.kmalloc hi.merged hv.1 hv.2)
  | krealloc ptr newSize mem₁ mem₂ =>
    exact hi.krealloc hv.1 (hi.shape.kmalloc hi.merged hv.2.1 hv.2.2)
  | kfree ptr => exact hi.kfree hv
  | write addr value => exact hi.write hv

end

end Inv

lemma inv_init (m : ByteMemory) (hfresh : FreshRun [] initialMem heapInitialPages) :
    (init m initialMem).Inv (initialBlocks initialMem) := by
  refine ⟨rfl, .heapInit m hfresh, merged_initialBlocks initialMem, ?_⟩
  rw [used_initialBlocks]
  exact ⟨by simp [init], by simp, nodup_nil⟩

/-- **The invariant holds after every sequence of calls.** -/
lemma inv_run (m : ByteMemory) (es : List Event) (hfresh : FreshRun [] initialMem heapInitialPages)
    (hvalid : Along step Valid (init m initialMem) es) :
    ∃ bs, (run step (init m initialMem) es).Inv bs := by
  have hstep : ∀ (s : HeapState) (e : Event), (∃ bs, s.Inv bs) → s.Valid e →
      ∃ bs, (s.step e).Inv bs := by
    rintro s e ⟨bs, hi⟩ hv
    obtain ⟨-, bs', hi', -⟩ := hi.step hv
    exact ⟨bs', hi'⟩
  exact run_invariant_of_along hstep ⟨_, inv_init m hfresh⟩ hvalid

/-! ## Well-formed heaps -/

/-- The payload of a live allocation, as its header says. -/
def payload (s : HeapState) (a : Alloc) : Span :=
  ⟨a.ptr, a.ptr + (s.heap.block (a.ptr - blockHeaderSize)).size⟩

/-- **The heap is well formed.** All calls have returned; the blocks `bs` are a doubly linked list
from `heap_start` to `heap_tail`, carry the magic number and tile the runs that the page allocator
has handed out; live payloads are disjoint, consist of multiples of 16 bytes and are as large as was
asked for; no free block is directly followed in memory by its successor if that is free too. -/
structure WellFormed (s : HeapState) (bs : List Blk) : Prop where
  returned : s.returned = true
  shape : s.heap.Shape bs
  allocated : ∀ a ∈ s.live, (s.heap.block (a.ptr - blockHeaderSize)).isFree = false ∧
    ∃ b ∈ bs, a.ptr = b.addr + blockHeaderSize
  disjoint : s.live.Pairwise fun a b => (s.payload a).Disj (s.payload b)
  sized : ∀ a ∈ s.live, (s.heap.block (a.ptr - blockHeaderSize)).size % 16 = 0 ∧
    a.size ≤ (s.heap.block (a.ptr - blockHeaderSize)).size
  merged : Merged bs

lemma Inv.disj_payload (hi : s.Inv bs) {a b : Alloc} (ha : a ∈ s.live) (hb : b ∈ s.live)
    (hne : a.ptr ≠ b.ptr) : (s.payload a).Disj (s.payload b) := by
  obtain ⟨x, hx, hax, -, hxsize, -⟩ := hi.exists_header ha
  obtain ⟨y, hy, hby, -, hysize, -⟩ := hi.exists_header hb
  have hs := hi.shape
  obtain ⟨l, r, rfl⟩ := append_of_mem hx
  have hyx : y ∈ l ++ r := by
    have hyx : y ≠ x := by
      rintro rfl
      exact hne (hax.trans hby.symm)
    simpa [hyx] using hy
  have hdisj := hs.disj y hyx
  unfold payload
  simp only [Span.Disj, Blk.span, Blk.stop] at hdisj ⊢
  omega

lemma Inv.wellFormed (hi : s.Inv bs) : s.WellFormed bs where
  returned := hi.returned
  shape := hi.shape
  allocated := by
    intro a ha
    obtain ⟨b, hb, hab, hfree, -⟩ := hi.exists_header ha
    exact ⟨hfree, b, hb, hab⟩
  disjoint := by
    refine (pairwise_map.1 hi.owns.nodup).imp_of_mem fun ha hb hne => ?_
    exact hi.disj_payload ha hb hne
  sized := by
    intro a ha
    obtain ⟨b, hb, -, -, hsize, hle⟩ := hi.exists_header ha
    rw [hsize]
    exact ⟨(hi.shape.bounds b hb).2.2, hle⟩
  merged := hi.merged

/-- **The heap is well formed after every sequence of calls** with sizes that do not overflow and
live pointers, whatever new runs the page allocator hands out. -/
theorem wellFormed_run (m : ByteMemory) (initialMem : ℕ) (es : List Event)
    (hfresh : FreshRun [] initialMem heapInitialPages)
    (hvalid : Along step Valid (init m initialMem) es) :
    ∃ bs, (run step (init m initialMem) es).WellFormed bs := by
  obtain ⟨bs, hi⟩ := inv_run m es hfresh hvalid
  exact ⟨bs, hi.wellFormed⟩

/-- Two allocations are made, the first grows and moves, and the second is freed. -/
theorem wellFormed_run_moved :
    ∃ bs, (run step (init (fun _ => 0) 0x4000000) [.kmalloc 100 0 0, .kzalloc 24 0 0,
      .write 0x4000020 7, .krealloc 0x4000020 200 0 0, .kfree 0x40000b0]).WellFormed bs :=
  wellFormed_run _ _ _ (by decide +kernel) (by decide +kernel)

/-- The heap grows by a run that ends where its first run starts, and the block of that run is
freed: the first block and its successor are free, and they are adjacent. -/
theorem free_run_below :
    FreshRun [] 0x4000000 heapInitialPages ∧
    Along step Valid (init (fun _ => 0) 0x4000000) [.kmalloc 33554432 33550336 0, .kfree 33550368] ∧
    ∃ h, h = (run step (init (fun _ => 0) 0x4000000)
        [.kmalloc 33554432 33550336 0, .kfree 33550368]).heap ∧
      (h.block h.start).isFree = true ∧ (h.block (h.block h.start).next).isFree = true ∧
      (h.block h.start).next + blockHeaderSize + (h.block (h.block h.start).next).size =
        h.start := by
  refine ⟨by decide +kernel, by decide +kernel, _, rfl, ?_⟩
  decide +kernel

end HeapState

end SubOS.Mm
