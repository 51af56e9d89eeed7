import SubOS.Mm.PageCache

set_option autoImplicit false

/-!
# What the functions of the page cache do to its slots

Eviction, write-back and invalidation are sequences of four kinds of moves: bookkeeping, a
write-back that succeeds, one that fails, and giving up a clean page that nobody has pinned.
`page_cache_get` finds its page, or makes such moves and then loads the page into a slot that is not
valid. What has to hold of the cache is proved about the moves.

## Main definitions

* `Move`, `Got` — a move, and what `page_cache_get` does.

## Main results

* `evictOne_finds`, `syncDev_moves`, `invalidate_moves`, `got` — the functions make such moves.
* `readLoop_induct`, `writeLoop_induct` — rules for reading and writing.
-/

namespace SubOS.Mm

open Function

namespace PageCache

variable {env : BlockEnv} {s s' t : PageCache} {i j : Slot} {dev : Name}

/-! ## Changes -/

/-- What all changes but write-backs leave as it was. -/
structure Still (s s' : PageCache) : Prop where
  initialized : s'.initialized = s.initialized
  disk : s'.disk = s.disk
  log : s'.log = s.log
  dirtyPages : s'.stats.dirtyPages = s.stats.dirtyPages

/-- What the reading of a page and the index leave as it was. -/
structure Kept (s s' : PageCache) : Prop extends Still s s' where
  residentPages : s'.stats.residentPages = s.stats.residentPages

/-- **Bookkeeping**: what is cached, the pins and the devices stay. -/
structure Book (s s' : PageCache) : Prop extends Kept s s' where
  devName : ∀ i, (s'.pages i).devName = (s.pages i).devName
  pageIndex : ∀ i, (s'.pages i).pageIndex = (s.pages i).pageIndex
  data : ∀ i, (s'.pages i).data = (s.pages i).data
  valid : ∀ i, (s'.pages i).valid = (s.pages i).valid
  dirty : ∀ i, (s'.pages i).dirty = (s.pages i).dirty
  pinCount : ∀ i, (s'.pages i).pinCount = (s.pages i).pinCount
  index : s'.index = s.index

/-- **A write-back that succeeds**: the page of the slot is on its device, and clean. -/
structure Flushed (env : BlockEnv) (s s' : PageCache) (i : Slot) : Prop where
  device : ∃ d, env.getDevice (s.pages i).devName = some d ∧ ¬ pastEnd (s.pages i) d
  initialized : s'.initialized = s.initialized
  pages : s'.pages = update s.pages i { s.pages i with dirty := false }
  index : s'.index = s.index
  disk : s'.disk = update s.disk (s.pages i).devName
    ((s.disk (s.pages i).devName).paste (sector (s.pages i) * sectorSize) (s.pages i).data 0
      pageCacheBlockSize)
  log : s'.log = ⟨(s.pages i).devName, (s.pages i).pageIndex, (s.pages i).data⟩ :: s.log
  residentPages : s'.stats.residentPages = s.stats.residentPages
  dirtyPages : s'.stats.dirtyPages = s.stats.dirtyPages - 1

/-- **A write-back that fails**: a part of the page may be on its device. -/
structure Torn (env : BlockEnv) (s s' : PageCache) (i : Slot) : Prop where
  initialized : s'.initialized = s.initialized
  pages : s'.pages = s.pages
  index : s'.index = s.index
  disk : s'.disk = s.disk ∨ ∃ d n, env.getDevice (s.pages i).devName = some d ∧
    ¬ pastEnd (s.pages i) d ∧ env.writeOk s.writes = false ∧ n ≤ pageCacheBlockSize ∧
    s'.disk = update s.disk (s.pages i).devName
      ((s.disk (s.pages i).devName).paste (sector (s.pages i) * sectorSize) (s.pages i).data 0 n)
  log : s'.log = s.log
  residentPages : s'.stats.residentPages = s.stats.residentPages
  dirtyPages : s'.stats.dirtyPages = s.stats.dirtyPages

/-- **A page is given up.** -/
structure Dropped (s s' : PageCache) (i : Slot) : Prop extends Still s s' where
  pages : s'.pages = update s.pages i { s.pages i with valid := false }
  index : s'.index = update s.index (makeKey (s.pages i).devName (s.pages i).pageIndex) none
  residentPages : s'.stats.residentPages = s.stats.residentPages - 1

/-- **A page is loaded** into a slot. It comes from its device if that can be read. -/
structure Loaded (env : BlockEnv) (s s' : PageCache) (i : Slot) (dev : Name) (idx : ℕ) : Prop
    extends Still s s' where
  pages : ∃ data, s'.pages = update s.pages i
      { reset (s.pages i) dev idx with data := data, valid := true } ∧
    ∀ d, env.getDevice (dev.take 31) = some d → d.hasRead = true →
      ¬ pastEnd (reset (s.pages i) dev idx) d → (∀ n, env.readOk n = true) →
      ∀ k < pageCacheBlockSize,
        data k = s.disk (dev.take 31) (sector (reset (s.pages i) dev idx) * sectorSize + k)
  index : (∀ n, env.nodeOk n = true) → s'.index = update s.index (makeKey dev idx) (some i)
  residentPages : s'.stats.residentPages = s.stats.residentPages + 1

inductive Move (env : BlockEnv) (s s' : PageCache) : Prop where
  | book (h : Book s s')
  | flushed (i : Slot) (hvalid : (s.pages i).valid = true) (hdirty : (s.pages i).dirty = true)
      (h : Flushed env s s' i)
  | torn (i : Slot) (hvalid : (s.pages i).valid = true) (hdirty : (s.pages i).dirty = true)
      (h : Torn env s s' i)
  | dropped (i : Slot) (hvalid : (s.pages i).valid = true) (hclean : (s.pages i).dirty = false)
      (hpin : (s.pages i).pinCount = 0) (h : Dropped s s' i)

/-! The entries after a change. -/

/-- The page in an entry stays. -/
structure Same (e e' : PageEntry) : Prop where
  valid : e'.valid = e.valid
  devName : e'.devName = e.devName
  pageIndex : e'.pageIndex = e.pageIndex

/-- The page in an entry and its bytes stay. -/
structure SameData (e e' : PageEntry) : Prop extends Same e e' where
  data : e'.data = e.data

lemma Same.refl (e : PageEntry) : Same e e := ⟨rfl, rfl, rfl⟩

lemma Same.trans {e e' e'' : PageEntry} (h : Same e e') (h' : Same e' e'') : Same e e'' :=
  ⟨h'.1.trans h.1, h'.2.trans h.2, h'.3.trans h.3⟩

lemma SameData.refl (e : PageEntry) : SameData e e := ⟨.refl e, rfl⟩

/-- A relation of entries holds of the others too when one is changed. -/
lemma setEntry_pages {P : PageEntry → PageEntry → Prop} (hrefl : ∀ e, P e e) {e : PageEntry}
    (he : P (s.pages i) e) (j : Slot) : P (s.pages j) ((s.setEntry i e).pages j) := by
  simp only [setEntry, update_apply]
  split
  · next hj => rwa [hj]
  · exact hrefl _

lemma Flushed.other (h : Flushed env s s' i) (hj : j ≠ i) : s'.pages j = s.pages j := by
  rw [h.pages, update_of_ne hj]

lemma Flushed.entry (h : Flushed env s s' i) (j : Slot) :
    SameData (s.pages j) (s'.pages j) ∧ (s'.pages j).pinCount = (s.pages j).pinCount := by
  have hentry := setEntry_pages (s := s) (i := i) (e := { s.pages i with dirty := false })
    (P := fun e e' => SameData e e' ∧ e'.pinCount = e.pinCount) (fun e => ⟨.refl e, rfl⟩)
    ⟨⟨⟨rfl, rfl, rfl⟩, rfl⟩, rfl⟩ j
  rwa [setEntry, ← h.pages] at hentry

lemma Book.entry (h : Book s s') (j : Slot) : SameData (s.pages j) (s'.pages j) :=
  ⟨⟨h.valid j, h.devName j, h.pageIndex j⟩, h.data j⟩

lemma Torn.entry (h : Torn env s s' i) (j : Slot) : SameData (s.pages j) (s'.pages j) := by
  rw [h.pages]
  exact .refl _

lemma Dropped.other (h : Dropped s s' i) (hj : j ≠ i) : s'.pages j = s.pages j := by
  rw [h.pages, update_of_ne hj]

lemma Dropped.self (h : Dropped s s' i) : (s'.pages i).valid = false := by
  rw [h.pages, update_self]

lemma Dropped.ne_of_valid (h : Dropped s s' i) (hj : (s'.pages j).valid = true) : j ≠ i := by
  rintro rfl
  rw [h.self] at hj
  cases hj

lemma Loaded.other {idx : ℕ} (h : Loaded env s s' i dev idx) (hj : j ≠ i) :
    s'.pages j = s.pages j := by
  obtain ⟨data, hpages, -⟩ := h.pages
  rw [hpages, update_of_ne hj]

lemma Loaded.self {idx : ℕ} (h : Loaded env s s' i dev idx) (hdev : dev.length < 32) :
    (s'.pages i).valid = true ∧ (s'.pages i).dirty = false ∧ (s'.pages i).devName = dev ∧
      (s'.pages i).pageIndex = idx ∧ (s'.pages i).pinCount = 1 := by
  obtain ⟨data, hpages, -⟩ := h.pages
  rw [hpages, update_self]
  exact ⟨rfl, rfl, List.take_of_length_le (by omega), rfl, rfl⟩

abbrev Moves (env : BlockEnv) : PageCache → PageCache → Prop := Relation.ReflTransGen (Move env)

/-! ## The parts of the functions -/

section

variable (env s i)

lemma Kept.refl : Kept s s := ⟨⟨rfl, rfl, rfl, rfl⟩, rfl⟩

lemma Book.refl : Book s s := by constructor <;> intros <;> first | rfl | exact .refl s

lemma book_setEntry (referenced hasData : Bool) :
    Book s (s.setEntry i { s.pages i with referenced := referenced, hasData := hasData }) := by
  constructor
  all_goals first
    | rfl
    | exact { Kept.refl s with }
    | (intro j; simp only [setEntry, update_apply]; split
       · next h => rw [h]
       · rfl)

lemma flush_cases :
    (s.flush env i).2 = true ∧ Flushed env s (s.flush env i).1 i ∨
      (s.flush env i).2 = false ∧ Torn env s (s.flush env i).1 i := by
  have hkeep : Torn env s s i := ⟨rfl, rfl, rfl, .inl rfl, rfl, rfl, rfl⟩
  unfold flush pageWriteToDisk
  dsimp only
  split
  · exact .inr ⟨rfl, hkeep⟩
  next d hd =>
  split
  · exact .inr ⟨rfl, hkeep⟩
  split
  · exact .inr ⟨rfl, hkeep⟩
  next hend =>
  split
  · exact .inl ⟨rfl, ⟨d, hd, hend⟩, rfl, rfl, rfl, rfl, rfl, rfl, rfl⟩
  · next hfail =>
    refine .inr ⟨rfl, rfl, rfl, rfl, .inr ⟨d, _, hd, hend, ?_, Nat.min_le_right _ _, rfl⟩, rfl, rfl,
      rfl⟩
    simpa using hfail

lemma flush_move {env : BlockEnv} {s : PageCache} {i : Slot} (hvalid : (s.pages i).valid = true)
    (hdirty : (s.pages i).dirty = true) : Move env s (s.flush env i).1 := by
  rcases flush_cases env s i with ⟨-, h⟩ | ⟨-, h⟩
  · exact .flushed i hvalid hdirty h
  · exact .torn i hvalid hdirty h

lemma dropped_drop : Dropped s (s.drop i) i :=
  ⟨⟨rfl, rfl, rfl, rfl⟩, rfl, rfl, rfl⟩

/-- **What the search for a slot does**: it makes moves, and a slot that it finds is not valid. -/
def Finds (r : PageCache × Option Slot) : Prop :=
  Moves env s r.1 ∧ ∀ i, r.2 = some i → (r.1.pages i).valid = false

lemma inspect_finds : Finds env s (s.inspect env i) := by
  unfold inspect
  dsimp only
  split
  · next hvalid =>
    refine ⟨.refl, fun j hj => ?_⟩
    rw [← Option.some.inj hj]
    exact hvalid
  next hvalid =>
  split
  · exact ⟨.refl, nofun⟩
  next hpin =>
  split
  · exact ⟨.single (.book (book_setEntry s i false _)), nofun⟩
  have hvalid' : (s.pages i).valid = true := by simpa using hvalid
  have hpin' : (s.pages i).pinCount = 0 := by omega
  -- the page is dropped when it is clean
  have hdrop : ∀ r : PageCache, Moves env s r → (r.pages i).valid = true →
      (r.pages i).dirty = false → (r.pages i).pinCount = 0 →
      Moves env s { r.drop i with stats.evictions := (r.drop i).stats.evictions + 1 } := by
    intro r hr h1 h2 h3
    refine (hr.tail (.dropped i h1 h2 h3 (dropped_drop r i))).tail (.book ?_)
    exact { Book.refl _ with }
  have hgone : ∀ r : PageCache, ((r.drop i).pages i).valid = false := by
    intro r
    rw [(dropped_drop r i).pages, update_self]
  by_cases hdirty : (s.pages i).dirty = true
  · rw [if_pos hdirty]
    have hmove : Moves env s (s.flush env i).1 := .single (flush_move hvalid' hdirty)
    rcases flush_cases env s i with ⟨hok, hf⟩ | ⟨hok, -⟩
    · rw [if_pos hok]
      refine ⟨hdrop _ hmove ?_ ?_ ?_, fun j hj => ?_⟩
      · rw [hf.pages, update_self]
        exact hvalid'
      · rw [hf.pages, update_self]
      · rw [hf.pages, update_self]
        exact hpin'
      · rw [← Option.some.inj hj]
        exact hgone _
    · rw [if_neg (by simp [hok])]
      exact ⟨hmove, nofun⟩
  · rw [if_neg hdirty]
    refine ⟨hdrop _ .refl hvalid' (by simpa using hdirty) hpin', fun j hj => ?_⟩
    rw [← Option.some.inj hj]
    exact hgone _

lemma visit_finds : Finds env s (s.visit env) := by
  have hhand : Move env s { s with clockHand := s.clockHand + 1 } :=
    .book { Book.refl _ with }
  have hinspect := inspect_finds env { s with clockHand := s.clockHand + 1 } s.clockHand
  exact ⟨.head hhand hinspect.1, hinspect.2⟩

lemma evictLoop_finds (n : ℕ) (s : PageCache) : Finds env s (evictLoop env n s) := by
  induction n generalizing s with
  | zero => exact ⟨.refl, nofun⟩
  | succ n ih =>
    have hvisit := visit_finds env s
    unfold evictLoop
    split
    · next t i heq =>
      rw [heq] at hvisit
      exact hvisit
    · next t heq =>
      rw [heq] at hvisit
      exact ⟨hvisit.1.trans (ih t).1, (ih t).2⟩

/-- **`evict_one` makes moves**, and a slot that it returns is not valid. -/
theorem evictOne_finds : Finds env s (s.evictOne env) := evictLoop_finds env (64 * 2) s

lemma syncLoop_moves (dev : Option Name) (is : List Slot) (s : PageCache) (n : ℕ) :
    Moves env s (syncLoop env dev is s n).1 := by
  induction is generalizing s n with
  | nil => exact .refl
  | cons i is ih =>
    unfold syncLoop
    split
    · next h => exact .head (flush_move h.1 h.2.1) (ih _ _)
    · exact ih _ _

/-- **`page_cache_sync_dev` makes moves.** -/
theorem syncDev_moves (dev : Option Name) :
    Moves env s (s.syncDev env dev).1 := by
  unfold syncDev
  split
  · exact .refl
  · exact syncLoop_moves env dev _ s 0

lemma invalidateLoop_moves (dev : Option Name) (is : List Slot) (s : PageCache)
    (n : ℕ) : Moves env s (invalidateLoop dev is s n).1 := by
  induction is generalizing s n with
  | nil => exact .refl
  | cons i is ih =>
    unfold invalidateLoop
    split
    · next h => exact .head (.dropped i h.1 h.2.1 h.2.2.1 (dropped_drop s i)) (ih _ _)
    · exact ih _ _

/-- **`page_cache_invalidate` makes moves.** -/
theorem invalidate_moves (dev : Option Name) :
    Moves env s (s.invalidate dev).1 := by
  unfold invalidate
  split
  · exact .refl
  · exact invalidateLoop_moves env dev _ s 0

lemma dropAll_moves : Moves env s (s.dropAll env) :=
  (syncDev_moves env s none).trans (invalidate_moves env _ none)

/-! ## `page_cache_get` -/

lemma put_index (key : Name) (i : Slot)
    (hok : ∀ n, env.nodeOk n = true) : (s.put env key i).index = update s.index key (some i) := by
  unfold put
  split
  · rfl
  · rw [if_pos (hok _)]

lemma put_kept (key : Name) (i : Slot) :
    Kept s (s.put env key i) ∧ (s.put env key i).pages = s.pages := by
  unfold put
  repeat' split
  all_goals exact ⟨{ Kept.refl _ with }, rfl⟩

/-- What `page_read_from_disk` does: it changes the data of the slot, and if the device can be read,
they are those of the page. -/
lemma pageReadFromDisk_spec :
    ∃ data, (s.pageReadFromDisk env i).1.pages =
        update s.pages i { s.pages i with data := data } ∧
      (∀ d, env.getDevice (s.pages i).devName = some d → d.hasRead = true →
        ¬ pastEnd (s.pages i) d → env.readOk s.reads = true → (s.pageReadFromDisk env i).2 = true ∧
          ∀ k < pageCacheBlockSize,
            data k = s.disk (s.pages i).devName (sector (s.pages i) * sectorSize + k)) := by
  have hkeep : s.pages = update s.pages i { s.pages i with data := (s.pages i).data } :=
    (update_eq_self _ _).symm
  unfold pageReadFromDisk
  dsimp only
  split
  · next hnone => exact ⟨_, hkeep, fun d hd => absurd (hnone.symm.trans hd) (by simp)⟩
  next d hd =>
  split
  · next hread =>
    refine ⟨_, hkeep, fun d' hd' hread' => ?_⟩
    rw [← Option.some.inj (hd.symm.trans hd'), hread] at hread'
    cases hread'
  split
  · next hend =>
    refine ⟨_, rfl, fun d' hd' _ hend' => ?_⟩
    rw [← Option.some.inj (hd.symm.trans hd')] at hend'
    exact absurd hend hend'
  split
  · refine ⟨_, rfl, fun d' _ _ _ _ => ⟨rfl, fun k hk => ?_⟩⟩
    rw [ByteMemory.paste_inside (by omega), Nat.sub_zero]
  · next hfail => exact ⟨_, hkeep, fun _ _ _ _ hok => absurd hok hfail⟩

lemma pageReadFromDisk_kept :
    Kept s (s.pageReadFromDisk env i).1 ∧ (s.pageReadFromDisk env i).1.index = s.index := by
  unfold pageReadFromDisk
  dsimp only
  repeat' split
  all_goals exact ⟨{ Kept.refl _ with }, rfl⟩

lemma readOrClear_spec :
    ∃ data, (s.readOrClear env i).pages =
        update s.pages i { s.pages i with data := data } ∧
      ∀ d, env.getDevice (s.pages i).devName = some d → d.hasRead = true → ¬ pastEnd (s.pages i) d →
        env.readOk s.reads = true → ∀ k < pageCacheBlockSize,
          data k = s.disk (s.pages i).devName (sector (s.pages i) * sectorSize + k) := by
  obtain ⟨data, hpages, hdata⟩ := pageReadFromDisk_spec env s i
  unfold readOrClear
  dsimp only
  split
  · exact ⟨data, hpages, fun d hd hread hend hok => (hdata d hd hread hend hok).2⟩
  · next hfail =>
    refine ⟨fun _ => 0, ?_, fun d hd hread hend hok => absurd (hdata d hd hread hend hok).1 hfail⟩
    simp only [setEntry, hpages, update_self, update_idem]

lemma readOrClear_kept :
    Kept s (s.readOrClear env i) ∧ (s.readOrClear env i).index = s.index := by
  have hkept := pageReadFromDisk_kept env s i
  unfold readOrClear
  dsimp only
  split
  · exact hkept
  · exact ⟨{ hkept.1 with }, hkept.2⟩

/-- **Loading a page.** -/
lemma loaded_load (dev : Name) (idx : ℕ) :
    Loaded env s (s.load env i dev idx) i dev idx := by
  obtain ⟨r, hr⟩ : ∃ r, r = s.setEntry i (reset (s.pages i) dev idx) := ⟨_, rfl⟩
  have hpages : r.pages = update s.pages i (reset (s.pages i) dev idx) := by rw [hr]; rfl
  have hself : r.pages i = reset (s.pages i) dev idx := by rw [hpages, update_self]
  have hdisk : r.disk = s.disk := by rw [hr]; rfl
  obtain ⟨data, hpages', hdata⟩ := readOrClear_spec env r i
  obtain ⟨hread, hindex⟩ := readOrClear_kept env r i
  unfold load
  dsimp only
  rw [← hr]
  generalize r.readOrClear env i = t at *
  obtain ⟨hput, hp⟩ := put_kept env
    { t.setEntry i { t.pages i with valid := true } with
      stats.residentPages :=
        (t.setEntry i { t.pages i with valid := true }).stats.residentPages + 1 }
    (makeKey dev idx) i
  rw [hr] at hread hindex
  refine ⟨⟨hput.initialized.trans hread.initialized, hput.disk.trans hread.disk,
      hput.log.trans hread.log, hput.dirtyPages.trans hread.dirtyPages⟩,
    ⟨data, hp.trans ?_, fun d hd hread hend hok => ?_⟩, fun hnode => ?_,
    hput.residentPages.trans (congrArg (· + 1) hread.residentPages)⟩
  · simp only [setEntry, hpages', hpages, update_self, update_idem]
  · rw [hself, hdisk] at hdata
    exact hdata d hd hread hend (hok _)
  · rw [put_index env _ _ _ hnode]
    simp only [setEntry]
    rw [hindex]
    rfl

/-- **What `page_cache_get` does**: it fails after some moves, it finds the page, or it loads it
into a slot that is not valid, after some moves. -/
inductive Got (env : BlockEnv) (s : PageCache) (dev : Name) (idx : ℕ) :
    PageCache → Option Slot → Prop where
  | failed {s' : PageCache} (h : Moves env s s') : Got env s dev idx s' none
  | hit {i : Slot} (h : s.lookup dev idx = some i) : Got env s dev idx (s.touch i) (some i)
  | loaded {s' t : PageCache} {i : Slot} (hmiss : s.lookup dev idx = none) (hmoves : Moves env s s')
      (hinvalid : (s'.pages i).valid = false) (h : Loaded env s' t i dev idx) :
      Got env s dev idx t (some i)

lemma allocData_book : Book s (s.allocData env i).1 := by
  unfold allocData
  split
  · exact { Book.refl _ with }
  split
  · exact { book_setEntry s i (s.pages i).referenced true with }
  · exact { Book.refl _ with }

/-- **The specification of `page_cache_get`.** -/
theorem got (dev : Name) (idx : ℕ) :
    Got env s dev idx (s.get env dev idx).1 (s.get env dev idx).2 := by
  unfold get
  split
  · exact .failed .refl
  split
  · next i hlookup => exact .hit hlookup
  next hmiss =>
  have hstart : Move env s { s with stats.misses := s.stats.misses + 1 } :=
    .book { Book.refl _ with }
  have hevict := evictOne_finds env { s with stats.misses := s.stats.misses + 1 }
  unfold fetch
  dsimp only
  generalize evictOne env { s with stats.misses := s.stats.misses + 1 } = r at hevict ⊢
  obtain ⟨t, slot⟩ := r
  cases slot with
  | none => exact .failed (.head hstart hevict.1)
  | some i =>
    have hbook := allocData_book env t i
    have hmoves : Moves env s (t.allocData env i).1 :=
      (Relation.ReflTransGen.head hstart hevict.1).tail (.book hbook)
    dsimp only
    split
    · refine .loaded hmiss hmoves ?_ (loaded_load env _ i dev idx)
      rw [hbook.valid]
      exact hevict.2 i rfl
    · exact .failed hmoves

/-! ## The other functions -/

lemma touch_entry (j : Slot) :
    SameData (s.pages j) ((s.touch i).pages j) ∧ ((s.touch i).pages j).dirty =
      (s.pages j).dirty := by
  refine setEntry_pages (P := fun e e' => SameData e e' ∧
    e'.dirty = e.dirty) (fun e => ⟨.refl e, rfl⟩) ?_ j
  exact ⟨⟨⟨rfl, rfl, rfl⟩, rfl⟩, rfl⟩

lemma release_entry (j : Slot) :
    SameData (s.pages j) ((s.release i).pages j) ∧ ((s.release i).pages j).dirty =
      (s.pages j).dirty := by
  unfold release
  split
  · refine setEntry_pages (P := fun e e' => SameData e e' ∧
      e'.dirty = e.dirty) (fun e => ⟨.refl e, rfl⟩)
      ?_ j
    exact ⟨⟨⟨rfl, rfl, rfl⟩, rfl⟩, rfl⟩
  · exact ⟨.refl _, rfl⟩

lemma markDirty_entry (j : Slot) :
    SameData (s.pages j) ((s.markDirty i).pages j) ∧
      ((s.markDirty i).pages j).pinCount = (s.pages j).pinCount ∧
      ((s.pages j).dirty = true → ((s.markDirty i).pages j).dirty = true) := by
  unfold markDirty
  split
  · refine setEntry_pages (P := fun e e' => SameData e e' ∧ e'.pinCount = e.pinCount ∧
      (e.dirty = true → e'.dirty = true)) (fun e => ⟨.refl e, rfl, id⟩) ?_ j
    exact ⟨⟨⟨rfl, rfl, rfl⟩, rfl⟩, rfl, fun _ => rfl⟩
  · exact ⟨.refl _, rfl, id⟩

lemma pages_modify_markDirty {s : PageCache} {i : Slot} (hvalid : (s.pages i).valid = true)
    (pos : ℕ) (buf : ByteMemory)
    (src n : ℕ) : ((s.modify i pos buf src n).markDirty i).pages = update s.pages i
      { s.pages i with data := (s.pages i).data.paste pos buf src n, dirty := true } := by
  have hself : (s.modify i pos buf src n).pages i =
      { s.pages i with data := (s.pages i).data.paste pos buf src n } := update_self _ _ _
  unfold markDirty
  split
  · simp only [hself]
    simp only [modify, setEntry, update_idem]
  · next hnot =>
    have hdirty : (s.pages i).dirty = true := by
      rw [hself] at hnot
      simpa [hvalid] using hnot
    simp only [modify, setEntry]
    rw [← hdirty]

end

/-! ## The loops over the pages of a range -/

/-- **A rule for `page_cache_read`**: what holds of the bytes that have been read and the cache is
kept if no page is got, and by each round. -/
theorem readLoop_induct {J : List UInt8 → PageCache → Prop} {offset len : ℕ}
    (hfailed : ∀ out s s', J out s → out.length < len →
      Got env s dev ((offset + out.length) % 2 ^ 64 / pageCacheBlockSize) s' none → J out s')
    (hround : ∀ out s s' i, J out s → out.length < len →
      Got env s dev ((offset + out.length) % 2 ^ 64 / pageCacheBlockSize) s' (some i) →
      J (out ++ (s'.pages i).data.bytes ((offset + out.length) % 2 ^ 64 % pageCacheBlockSize)
        (min (pageCacheBlockSize - (offset + out.length) % 2 ^ 64 % pageCacheBlockSize)
          (len - out.length))) (s'.release i))
    (fuel : ℕ) (s : PageCache) (out : List UInt8) (h : J out s) :
    J (readLoop env dev offset len fuel s out).2 (readLoop env dev offset len fuel s out).1 := by
  induction fuel generalizing s out with
  | zero => exact h
  | succ fuel ih =>
    unfold readLoop
    split
    · next hlen =>
      have hgot := got env s dev ((offset + out.length) % 2 ^ 64 / pageCacheBlockSize)
      dsimp only
      generalize get env s dev ((offset + out.length) % 2 ^ 64 / pageCacheBlockSize) = r at hgot ⊢
      obtain ⟨t, slot⟩ := r
      cases slot with
      | none => exact hfailed out s t h hlen hgot
      | some i => exact ih _ _ (hround out s t i h hlen hgot)
    · exact h

/-- **A rule for `page_cache_write`**: what holds of the number of bytes that have been written and
the cache is kept if no page is got, and by each round. -/
theorem writeLoop_induct {J : ℕ → PageCache → Prop} {offset : ℕ} {buf : List UInt8}
    (hfailed : ∀ done s s', J done s → done < buf.length →
      Got env s dev ((offset + done) % 2 ^ 64 / pageCacheBlockSize) s' none → J done s')
    (hround : ∀ done s s' i, J done s → done < buf.length →
      Got env s dev ((offset + done) % 2 ^ 64 / pageCacheBlockSize) s' (some i) →
      J (done + min (pageCacheBlockSize - (offset + done) % 2 ^ 64 % pageCacheBlockSize)
          (buf.length - done))
        (((s'.modify i ((offset + done) % 2 ^ 64 % pageCacheBlockSize) (fun k => buf.getD k 0) done
          (min (pageCacheBlockSize - (offset + done) % 2 ^ 64 % pageCacheBlockSize)
            (buf.length - done))).markDirty i).release i))
    (fuel : ℕ) (s : PageCache) (done : ℕ) (h : J done s) :
    J (writeLoop env dev offset buf fuel s done).2
      (writeLoop env dev offset buf fuel s done).1 := by
  induction fuel generalizing s done with
  | zero => exact h
  | succ fuel ih =>
    unfold writeLoop
    split
    · next hlen =>
      have hgot := got env s dev ((offset + done) % 2 ^ 64 / pageCacheBlockSize)
      dsimp only
      generalize get env s dev ((offset + done) % 2 ^ 64 / pageCacheBlockSize) = r at hgot ⊢
      obtain ⟨t, slot⟩ := r
      cases slot with
      | none => exact hfailed done s t h hlen hgot
      | some i => exact ih _ _ (hround done s t i h hlen hgot)
    · exact h

end PageCache

end SubOS.Mm
