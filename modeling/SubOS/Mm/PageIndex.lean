import SubOS.Lib.Table
import SubOS.Mm.PageMoves

set_option autoImplicit false

/-!
# The index of the page cache

As long as the names of devices fit into an entry and the hash table finds memory, the index leads
to the pages that are cached and to nothing else, and the two counters of pages are exact.

## Main definitions

* `Coherent` — the index and the counters agree with the slots.

## Main results

* `makeKey_inj` — the key of a page says which page it is.
* `Coherent.step` — every call keeps the index exact.
-/

namespace SubOS.Mm

open Nat List Table

/-! ## Keys -/

lemma toNat_digitChar {d : ℕ} (hd : d < 10) : (digitChar d).toNat - 48 = d := by
  have hall : ∀ d < 10, (digitChar d).toNat - 48 = d := by decide
  exact hall d hd

lemma ofDigits_decimal (n : ℕ) :
    ofDigits 10 ((decimal n).reverse.map fun c => c.toNat - 48) = n := by
  unfold decimal
  split
  · next h => rw [h]; rfl
  · rw [reverse_reverse, map_map]
    have hid : (digits 10 n).map ((fun c => c.toNat - 48) ∘ digitChar) = digits 10 n := by
      conv_rhs => rw [← map_id (digits 10 n)]
      exact map_congr_left fun d hd => toNat_digitChar (digits_lt_base (by omega) hd)
    rw [hid, ofDigits_digits]

lemma decimal_inj {m n : ℕ} (h : decimal m = decimal n) : m = n := by
  rw [← ofDigits_decimal m, h, ofDigits_decimal]

lemma colon_notMem_decimal (n : ℕ) : ':' ∉ decimal n := by
  have hall : ∀ d < 10, digitChar d ≠ ':' := by decide
  unfold decimal
  split
  · decide
  · rw [mem_reverse, mem_map]
    rintro ⟨d, hd, heq⟩
    exact hall d (digits_lt_base (by omega) hd) heq

lemma length_decimal_le {n : ℕ} (hn : n < 2 ^ 64) : (decimal n).length ≤ 20 := by
  unfold decimal
  split
  · simp
  · rw [length_reverse, length_map, digits_length_le_iff (by omega)]
    omega

lemma split_at_last {α : Type*} {l l' r r' : List α} {c : α} (hr : c ∉ r) (hr' : c ∉ r')
    (h : l ++ c :: r = l' ++ c :: r') : l = l' ∧ r = r' := by
  rcases append_eq_append_iff.1 h with ⟨m, hl, hm⟩ | ⟨m, hl, hm⟩
  · cases m with
    | nil => exact ⟨by simpa using hl.symm, (cons.inj hm).2⟩
    | cons x m =>
      obtain ⟨-, hm⟩ := cons.inj hm
      exact absurd (hm ▸ mem_append_right m mem_cons_self) hr
  · cases m with
    | nil => exact ⟨by simpa using hl, (cons.inj hm).2.symm⟩
    | cons x m =>
      obtain ⟨-, hm⟩ := cons.inj hm
      exact absurd (hm ▸ mem_append_right m mem_cons_self) hr'

lemma makeKey_eq {dev : Name} {idx : ℕ} (hdev : dev.length < 32) (hidx : idx < 2 ^ 64) :
    makeKey dev idx = dev ++ ':' :: decimal idx := by
  have hlen := length_decimal_le hidx
  refine take_of_length_le ?_
  rw [length_append, length_cons]
  omega

/-- **The key of a page says which page it is.** -/
theorem makeKey_inj {dev dev' : Name} {idx idx' : ℕ} (hdev : dev.length < 32)
    (hdev' : dev'.length < 32) (hidx : idx < 2 ^ 64) (hidx' : idx' < 2 ^ 64)
    (h : makeKey dev idx = makeKey dev' idx') : dev = dev' ∧ idx = idx' := by
  rw [makeKey_eq hdev hidx, makeKey_eq hdev' hidx'] at h
  obtain ⟨hname, hnum⟩ := split_at_last (colon_notMem_decimal _) (colon_notMem_decimal _) h
  exact ⟨hname, decimal_inj hnum⟩

namespace PageCache

variable {env : BlockEnv} {s s' t : PageCache} {i j : Slot} {dev : Name} {idx : ℕ}

/-- The key of the page of an entry. -/
def key (e : PageEntry) : Name := makeKey e.devName e.pageIndex

/-- **The index and the counters agree with the slots.** -/
structure Coherent (s : PageCache) : Prop where
  index_iff : ∀ k i, s.index k = some i ↔ (s.pages i).valid = true ∧ key (s.pages i) = k
  named : ∀ i, (s.pages i).valid = true →
    (s.pages i).devName.length < 32 ∧ (s.pages i).pageIndex < 2 ^ 64
  residentPages : s.stats.residentPages = Table.count PageEntry.valid s.pages
  dirtyPages : s.stats.dirtyPages = Table.count (fun e => e.valid && e.dirty) s.pages

namespace Coherent

section

variable (hc : s.Coherent)
include hc

lemma slot_unique (hi : (s.pages i).valid = true) (hj : (s.pages j).valid = true)
    (hdev : (s.pages i).devName = (s.pages j).devName)
    (hidx : (s.pages i).pageIndex = (s.pages j).pageIndex) : i = j := by
  have h1 := (hc.index_iff (key (s.pages i)) i).2 ⟨hi, rfl⟩
  have h2 := (hc.index_iff (key (s.pages i)) j).2 ⟨hj, by unfold key; rw [hdev, hidx]⟩
  exact Option.some.inj (h1.symm.trans h2)

/-- **The index has a page exactly if a valid slot holds it.** -/
lemma index_eq_some (hdev : dev.length < 32) (hidx : idx < 2 ^ 64) :
    s.index (makeKey dev idx) = some i ↔
      (s.pages i).valid = true ∧ (s.pages i).devName = dev ∧ (s.pages i).pageIndex = idx := by
  rw [hc.index_iff]
  constructor
  · rintro ⟨hvalid, hkey⟩
    obtain ⟨hn, hp⟩ := hc.named i hvalid
    exact ⟨hvalid, makeKey_inj hn hdev hp hidx hkey⟩
  · rintro ⟨hvalid, rfl, rfl⟩
    exact ⟨hvalid, rfl⟩

lemma lookup_eq : s.lookup dev idx = s.index (makeKey dev idx) := by
  unfold lookup
  cases h : s.index (makeKey dev idx) with
  | none => rfl
  | some i => rw [Option.filter_some, if_pos ((hc.index_iff _ _).1 h).1]

lemma holds_of_lookup (hdev : dev.length < 32) (hidx : idx < 2 ^ 64)
    (h : s.lookup dev idx = some i) :
    (s.pages i).valid = true ∧ (s.pages i).devName = dev ∧ (s.pages i).pageIndex = idx :=
  (hc.index_eq_some hdev hidx).1 (hc.lookup_eq ▸ h)

lemma not_holds_of_lookup (hdev : dev.length < 32) (hidx : idx < 2 ^ 64)
    (h : s.lookup dev idx = none) (j : Slot) :
    ¬ ((s.pages j).valid = true ∧ (s.pages j).devName = dev ∧ (s.pages j).pageIndex = idx) := by
  intro hj
  rw [hc.lookup_eq] at h
  have hsome := (hc.index_eq_some hdev hidx).2 hj
  cases h.symm.trans hsome

lemma of_entries (hentry : ∀ i, Same (s.pages i) (s'.pages i)) (hindex : s'.index = s.index)
    (hresident : s'.stats.residentPages = s.stats.residentPages)
    (hcount : s'.stats.dirtyPages = Table.count (fun e => e.valid && e.dirty) s'.pages) :
    s'.Coherent where
  index_iff k i := by
    unfold key
    rw [hindex, (hentry i).valid, (hentry i).devName, (hentry i).pageIndex]
    exact hc.index_iff k i
  named i h := by
    rw [(hentry i).devName, (hentry i).pageIndex]
    exact hc.named i ((hentry i).valid ▸ h)
  residentPages := by
    rw [hresident, hc.residentPages]
    exact count_congr fun i => (hentry i).valid.symm
  dirtyPages := hcount

lemma congr (hentry : ∀ i, Same (s.pages i) (s'.pages i)) (hindex : s'.index = s.index)
    (hdirty : ∀ i, (s'.pages i).dirty = (s.pages i).dirty)
    (hresident : s'.stats.residentPages = s.stats.residentPages)
    (hcount : s'.stats.dirtyPages = s.stats.dirtyPages) : s'.Coherent := by
  refine hc.of_entries hentry hindex hresident ?_
  rw [hcount, hc.dirtyPages]
  exact count_congr fun i => by rw [(hentry i).valid, hdirty]

lemma setEntry {e : PageEntry} (h : Same (s.pages i) e) (hdirty : e.dirty = (s.pages i).dirty) :
    (s.setEntry i e).Coherent :=
  hc.congr (setEntry_pages .refl h) rfl
    (setEntry_pages (P := fun e e' => e'.dirty = e.dirty) (fun _ => rfl) hdirty) rfl rfl

lemma book (h : Book s s') : s'.Coherent :=
  hc.congr (fun j => (h.entry j).1) h.index h.dirty h.residentPages h.dirtyPages

lemma flushed (hvalid : (s.pages i).valid = true)
    (hdirty : (s.pages i).dirty = true) (h : Flushed env s s' i) : s'.Coherent := by
  refine hc.of_entries (fun j => (h.entry j).1.1) h.index h.residentPages ?_
  rw [h.dirtyPages, hc.dirtyPages, h.pages, count_update_leave] <;> simp [hvalid, hdirty]

lemma torn (h : Torn env s s' i) : s'.Coherent :=
  hc.congr (fun j => (h.entry j).1) h.index (fun j => by rw [h.pages]) h.residentPages h.dirtyPages

lemma dropped (hvalid : (s.pages i).valid = true)
    (hclean : (s.pages i).dirty = false) (h : Dropped s s' i) : s'.Coherent := by
  have hindex : s.index (key (s.pages i)) = some i := (hc.index_iff _ _).2 ⟨hvalid, rfl⟩
  refine ⟨fun k j => ?_, fun j hj => ?_, ?_, ?_⟩
  · rw [h.index, Function.update_apply]
    by_cases hji : j = i
    · rw [hji, h.self]
      constructor
      · intro hk
        split at hk
        · cases hk
        · next hne => exact absurd ((hc.index_iff k i).1 hk).2.symm hne
      · rintro ⟨hfalse, -⟩
        cases hfalse
    · rw [h.other hji, ← hc.index_iff]
      split
      · next hk =>
        constructor
        · intro hnone
          cases hnone
        · intro hj
          rw [hk] at hj
          exact absurd (Option.some.inj (hj.symm.trans hindex)) hji
      · exact Iff.rfl
  · have heq := h.other (h.ne_of_valid hj)
    rw [heq] at hj ⊢
    exact hc.named j hj
  · rw [h.residentPages, hc.residentPages, h.pages, count_update_leave hvalid rfl]
  · rw [h.dirtyPages, hc.dirtyPages, h.pages, count_update_of_eq]
    simp [hclean]

/-- **A move keeps the index exact.** -/
theorem move (h : Move env s s') : s'.Coherent := by
  cases h with
  | book h => exact hc.book h
  | flushed i hvalid hdirty h => exact hc.flushed hvalid hdirty h
  | torn i hvalid hdirty h => exact hc.torn h
  | dropped i hvalid hclean hpin h => exact hc.dropped hvalid hclean h

theorem moves (h : Moves env s s') : s'.Coherent := by
  induction h with
  | refl => exact hc
  | tail _ hmove ih => exact ih.move hmove

end

end Coherent

lemma Move.valid_of (h : Move env s s') (hv : (s'.pages j).valid = true) :
    (s.pages j).valid = true ∧ (s'.pages j).devName = (s.pages j).devName ∧
      (s'.pages j).pageIndex = (s.pages j).pageIndex := by
  cases h with
  | book h => exact ⟨h.valid j ▸ hv, h.devName j, h.pageIndex j⟩
  | flushed i hvalid hdirty h =>
    obtain ⟨⟨hsame, -⟩, -⟩ := h.entry j
    exact ⟨hsame.valid ▸ hv, hsame.devName, hsame.pageIndex⟩
  | torn i hvalid hdirty h =>
    rw [h.pages] at hv ⊢
    exact ⟨hv, rfl, rfl⟩
  | dropped i hvalid hclean hpin h =>
    have heq := h.other (h.ne_of_valid hv)
    rw [heq] at hv ⊢
    exact ⟨hv, rfl, rfl⟩

lemma valid_of_moves (h : Moves env s s') (hv : (s'.pages j).valid = true) :
    (s.pages j).valid = true ∧ (s'.pages j).devName = (s.pages j).devName ∧
      (s'.pages j).pageIndex = (s.pages j).pageIndex := by
  induction h with
  | refl => exact ⟨hv, rfl, rfl⟩
  | tail _ hmove ih =>
    obtain ⟨hv', hdev, hidx⟩ := hmove.valid_of hv
    obtain ⟨hv'', hdev', hidx'⟩ := ih hv'
    exact ⟨hv'', hdev.trans hdev', hidx.trans hidx'⟩

namespace Coherent

section

variable (hc : s.Coherent)
include hc

lemma not_holds_of_moves (hdev : dev.length < 32) (hidx : idx < 2 ^ 64)
    (hmiss : s.lookup dev idx = none) (h : Moves env s s') (j : Slot) :
    ¬ ((s'.pages j).valid = true ∧ (s'.pages j).devName = dev ∧ (s'.pages j).pageIndex = idx) := by
  rintro ⟨hv, rfl, rfl⟩
  obtain ⟨hv', hdev', hidx'⟩ := valid_of_moves h hv
  exact hc.not_holds_of_lookup hdev hidx hmiss j ⟨hv', hdev'.symm, hidx'.symm⟩

lemma loaded (hnode : ∀ n, env.nodeOk n = true) (hdev : dev.length < 32)
    (hidx : idx < 2 ^ 64) (hinvalid : (s.pages i).valid = false)
    (hmiss : ∀ j, ¬ ((s.pages j).valid = true ∧ (s.pages j).devName = dev ∧
      (s.pages j).pageIndex = idx)) (h : Loaded env s s' i dev idx) : s'.Coherent := by
  obtain ⟨data, hpages, -⟩ := h.pages
  obtain ⟨hvalid, -, hname, hpage, -⟩ := h.self hdev
  have hkey : key (s'.pages i) = makeKey dev idx := by
    unfold key
    rw [hname, hpage]
  refine ⟨fun k j => ?_, fun j hj => ?_, ?_, ?_⟩
  · rw [h.index hnode, Function.update_apply]
    by_cases hji : j = i
    · rw [hji, hkey, hvalid]
      constructor
      · intro hk
        split at hk
        · next heq => exact ⟨rfl, heq.symm⟩
        · have hv := ((hc.index_iff k i).1 hk).1
          cases hinvalid.symm.trans hv
      · rintro ⟨-, heq⟩
        rw [if_pos heq.symm]
    · rw [h.other hji]
      split
      · next hk =>
        constructor
        · intro hi
          exact absurd (Option.some.inj hi).symm hji
        · rintro ⟨hv, hkj⟩
          obtain ⟨hn, hp⟩ := hc.named j hv
          exact absurd ⟨hv, makeKey_inj hn hdev hp hidx (hkj.trans hk)⟩ (hmiss j)
      · exact hc.index_iff k j
  · by_cases hji : j = i
    · rw [hji, hname, hpage]
      exact ⟨hdev, hidx⟩
    · rw [h.other hji] at hj ⊢
      exact hc.named j hj
  · rw [h.residentPages, hc.residentPages, hpages, count_update_enter hinvalid rfl]
  · rw [h.dirtyPages, hc.dirtyPages, hpages, count_update_of_eq]
    simp [hinvalid, reset]

lemma touch (i : Slot) : (s.touch i).Coherent := by
  have hentry := touch_entry s i
  exact hc.congr (fun j => (hentry j).1.1) rfl (fun j => (hentry j).2) rfl rfl

/-- **`page_cache_get` keeps the index exact.** -/
theorem got (hnode : ∀ n, env.nodeOk n = true) (hdev : dev.length < 32)
    (hidx : idx < 2 ^ 64) {r : Option Slot} (h : Got env s dev idx s' r) : s'.Coherent := by
  cases h with
  | failed h => exact hc.moves h
  | hit h => exact hc.touch _
  | loaded hmiss hmoves hinvalid h =>
    exact (hc.moves hmoves).loaded hnode hdev hidx hinvalid
      (hc.not_holds_of_moves hdev hidx hmiss hmoves) h

/-- **The slot that `page_cache_get` returns holds the page.** -/
lemma holds_of_got (hdev : dev.length < 32) (hidx : idx < 2 ^ 64)
    (h : Got env s dev idx s' (some i)) : (s'.pages i).valid = true ∧ (s'.pages i).devName = dev ∧
      (s'.pages i).pageIndex = idx := by
  cases h with
  | hit h =>
    obtain ⟨⟨⟨hv, hn, hp⟩, -⟩, -⟩ := touch_entry s i i
    rw [hv, hn, hp]
    exact hc.holds_of_lookup hdev hidx h
  | loaded hmiss hmoves hinvalid h =>
    obtain ⟨hv, -, hn, hp, -⟩ := h.self hdev
    exact ⟨hv, hn, hp⟩

lemma release (i : Slot) : (s.release i).Coherent := by
  unfold PageCache.release
  split
  · exact hc.setEntry ⟨rfl, rfl, rfl⟩ rfl
  · exact hc

lemma modify (i : Slot) (pos : ℕ) (buf : ByteMemory) (src n : ℕ) :
    (s.modify i pos buf src n).Coherent :=
  hc.setEntry ⟨rfl, rfl, rfl⟩ rfl

lemma markDirty (i : Slot) : (s.markDirty i).Coherent := by
  refine hc.of_entries (fun j => (markDirty_entry s i j).1.1) ?_ ?_ ?_
  · unfold PageCache.markDirty
    split <;> rfl
  · unfold PageCache.markDirty
    split <;> rfl
  · have hcount := hc.dirtyPages
    unfold PageCache.markDirty
    split
    · next h =>
      simp only [PageCache.setEntry]
      rw [count_update_enter (by simp [h.2]) (by simp [h.1]), hcount]
    · exact hcount

end

end Coherent

/-! ## Every call -/

/-- The names of devices fit into an entry, and the indices of pages are numbers of 64 bits. -/
def ShortNames : Event → Prop
  | .read dev _ _ | .write dev _ _ => dev.length < 32
  | .get dev idx => dev.length < 32 ∧ idx < 2 ^ 64
  | _ => True

instance : DecidablePred ShortNames := by rintro ⟨⟩ <;> dsimp only [ShortNames] <;> infer_instance

lemma page_lt (n : ℕ) : n % 2 ^ 64 / pageCacheBlockSize < 2 ^ 64 := by
  have hmod := mod_lt n (Nat.two_pow_pos 64)
  exact (div_le_self _ _).trans_lt hmod

lemma coherent_init (created : Bool) (disk : Name → ByteMemory) : (init created disk).Coherent where
  index_iff := by simp [init]
  named := by simp [init]
  residentPages := by simp [init, Table.count]
  dirtyPages := by simp [init, Table.count]

section Rounds

variable (hc : s.Coherent) (hnode : ∀ n, env.nodeOk n = true) (hdev : dev.length < 32)
include hc hnode hdev

lemma Coherent.readLoop (offset len n : ℕ) (out : List UInt8) :
    (readLoop env dev offset len n s out).1.Coherent :=
  readLoop_induct (J := fun _ s => s.Coherent)
    (fun _ _ _ h _ hgot => h.got hnode hdev (page_lt _) hgot)
    (fun _ _ _ i h _ hgot => (h.got hnode hdev (page_lt _) hgot).release i) n s out hc

lemma Coherent.writeLoop (offset : ℕ) (buf : List UInt8) (n done : ℕ) :
    (writeLoop env dev offset buf n s done).1.Coherent :=
  writeLoop_induct (J := fun _ s => s.Coherent)
    (fun _ _ _ h _ hgot => h.got hnode hdev (page_lt _) hgot)
    (fun _ _ _ i h _ hgot => (((h.got hnode hdev (page_lt _) hgot).modify i _ _ _ _).markDirty
      i).release i) n s done hc

end Rounds

/-- **Every call keeps the index exact.** -/
theorem Coherent.step (hc : s.Coherent) (hnode : ∀ n, env.nodeOk n = true) {e : Event}
    (he : ShortNames e) : (s.step env e).Coherent := by
  cases e with
  | read dev offset len =>
    simp only [PageCache.step, PageCache.read]
    split
    · exact hc
    · exact hc.readLoop hnode he offset len len []
  | write dev offset buf =>
    simp only [PageCache.step, PageCache.write]
    split
    · exact hc
    · exact hc.writeLoop hnode he offset buf buf.length 0
  | get dev idx => exact hc.got hnode he.1 he.2 (PageCache.got env s dev idx)
  | release i => exact hc.release i
  | markDirty i => exact hc.markDirty i
  | poke i pos value => exact hc.modify i _ _ _ _
  | sync dev => exact hc.moves (syncDev_moves env s dev)
  | invalidate dev => exact hc.moves (invalidate_moves env s dev)
  | dropAll => exact hc.moves (dropAll_moves env s)

end PageCache

end SubOS.Mm
