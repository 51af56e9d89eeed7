import SubOS.Mm.PageArray

set_option autoImplicit false

/-!
# The page cache is a flat array of bytes

For its callers the cache of a device is an array of bytes: the contents of the device at first, and
then what was written last. After `page_cache_sync` the device holds the array. This is so in every
run in which the arithmetic of the cache does not overflow. The index of a page may be so large that
the number of its first sector does not fit into 64 bits; such a page is read from, and written back
to, the sectors of another page.

## Main definitions

* `Watched`, `Refines` — the cache with its array; what the callers see is the array.

## Main results

* `refines_run`, `aliased_page` — the cache refines the array, but for pages in the same sectors.
-/

namespace SubOS.Mm

open EventRun List PageCache ByteMemory

open Function (update update_idem update_self update_apply update_eq_self)

/-- All transfers and allocations of the index succeed, and the devices consist of pages. -/
structure BlockEnv.Reliable (env : BlockEnv) : Prop where
  name : ∀ d ∈ env.devices, d.name.length < 32
  pages : ∀ d ∈ env.devices, d.totalSectors % pageCacheSectors = 0
  hasRead : ∀ d ∈ env.devices, d.hasRead = true
  hasWrite : ∀ d ∈ env.devices, d.hasWrite = true
  writable : ∀ d ∈ env.devices, d.readOnly = false
  readOk : ∀ n, env.readOk n = true
  writeOk : ∀ n, env.writeOk n = true
  nodeOk : ∀ n, env.nodeOk n = true

namespace BlockEnv

variable {env : BlockEnv} {dev : Name} {d : BlockDevice}

lemma mem_devices (hd : d ∈ env.getDevice dev) : d ∈ env.devices := mem_of_find?_eq_some hd

lemma name_eq (hd : d ∈ env.getDevice dev) : d.name = dev := by
  have hfound := find?_some hd
  simpa using hfound

lemma Reliable.length_lt (henv : env.Reliable) (hd : d ∈ env.getDevice dev) : dev.length < 32 :=
  name_eq hd ▸ henv.name d (mem_devices hd)

end BlockEnv

namespace PageCache

variable {env : BlockEnv} {s s' t : PageCache} {i j : Slot} {dev : Name} {idx : ℕ}
  {arr : Name → ByteMemory} {held : Slot → ℕ}

/-- **What holds between calls**: the index is exact, the cache agrees with the array, and the
counters are the pins of the callers. -/
structure Good (env : BlockEnv) (arr : Name → ByteMemory) (held : Slot → ℕ)
    (s : PageCache) : Prop where
  initialized : s.initialized = true
  coherent : s.Coherent
  agrees : Agrees env arr s
  pins : Pins held s

lemma Move.initialized_eq (h : Move env s s') : s'.initialized = s.initialized := by
  cases h with
  | book h | flushed i hvalid hdirty h | torn i hvalid hdirty h | dropped i hvalid hclean hpin h =>
    exact h.initialized

lemma initialized_of_moves (h : Moves env s s') : s'.initialized = s.initialized := by
  induction h with
  | refl => rfl
  | tail _ hmove ih => exact hmove.initialized_eq.trans ih

lemma release_initialized (s : PageCache) (i : Slot) :
    (s.release i).initialized = s.initialized := by
  unfold release
  split <;> rfl

lemma markDirty_initialized (s : PageCache) (i : Slot) :
    (s.markDirty i).initialized = s.initialized := by
  unfold markDirty
  split <;> rfl

namespace Good

theorem moves (hg : Good env arr held s) (henv : env.Reliable) (h : Moves env s s') :
    Good env arr held s' ∧ Keeps held s s' := by
  obtain ⟨hpins, hkeeps⟩ := hg.pins.moves h
  exact ⟨⟨(initialized_of_moves h).trans hg.initialized, hg.coherent.moves h,
    hg.agrees.moves henv.writeOk h, hpins⟩, hkeeps⟩

/-- **`page_cache_get`**: the slot that it returns has one pin more. -/
theorem got (hg : Good env arr held s) (henv : env.Reliable) (hdev : dev.length < 32)
    (hidx : idx + 1 < 2 ^ 61) (hlt : ∀ i, held i + 1 < 2 ^ 32) {r : Option Slot}
    (h : Got env s dev idx s' r) : Good env arr (Pins.after held r) s' ∧ Keeps held s s' := by
  have hidx' : idx < 2 ^ 64 := by omega
  obtain ⟨hpins, hkeeps⟩ := hg.pins.got hlt h
  have hcoherent := hg.coherent.got henv.nodeOk hdev hidx' h
  cases h with
  | failed h =>
    exact ⟨⟨(initialized_of_moves h).trans hg.initialized, hcoherent,
      hg.agrees.moves henv.writeOk h, hpins⟩, hkeeps⟩
  | @hit i h => exact ⟨⟨hg.initialized, hcoherent, hg.agrees.touch i, hpins⟩, hkeeps⟩
  | @loaded t s' i hmiss hmoves hinvalid h =>
    have hagrees := (hg.agrees.moves henv.writeOk hmoves).loaded henv.hasRead henv.readOk hdev hidx
      (hg.coherent.not_holds_of_moves hdev hidx' hmiss hmoves) hinvalid h
    refine ⟨⟨?_, hcoherent, hagrees, hpins⟩, hkeeps⟩
    rw [h.initialized, initialized_of_moves hmoves]
    exact hg.initialized

lemma keeps_release (hp : Pins held s) (i : Slot) : Keeps held s (s.release i) :=
  hp.keeps_of_eq fun j => (release_entry s i j).1.1

lemma release (hg : Good env arr held s) (hi : 0 < held i) :
    Good env arr (unbump held i) (s.release i) :=
  ⟨(release_initialized s i).trans hg.initialized, hg.coherent.release i, hg.agrees.release i,
    hg.pins.release hi⟩

lemma release_bump (hg : Good env arr (bump held i) s) : Good env arr held (s.release i) := by
  have hpos : 0 < bump held i i := by
    rw [bump, update_self]
    omega
  have hrel := hg.release hpos
  rwa [unbump_bump] at hrel

lemma keeps_release_bump (hg : Good env arr (bump held i) s) : Keeps held s (s.release i) := by
  intro j hj
  refine keeps_release hg.pins i j ?_
  rw [bump, update_apply]
  split <;> omega

lemma markDirty (hg : Good env arr held s) (i : Slot) :
    Good env arr held (s.markDirty i) ∧ Keeps held s (s.markDirty i) := by
  have hentry := markDirty_entry s i
  refine ⟨⟨(markDirty_initialized s i).trans hg.initialized, hg.coherent.markDirty i,
    hg.agrees.markDirty i, hg.pins.congr (fun j => (hentry j).1.1) fun j => (hentry j).2.1⟩, ?_⟩
  exact hg.pins.keeps_of_eq fun j => (hentry j).1.1

/-- **Bytes of a page are changed, and the page is dirty.** -/
lemma modify (hg : Good env arr held s) (hvalid : (s.pages i).valid = true) (buf : ByteMemory)
    (src : ℕ) {pos n : ℕ} (hle : pos + n ≤ pageCacheBlockSize) :
    Good env (update arr (s.pages i).devName ((arr (s.pages i).devName).paste
        ((s.pages i).pageIndex * pageCacheBlockSize + pos) buf src n)) held
      ((s.modify i pos buf src n).markDirty i) ∧
      Keeps held s ((s.modify i pos buf src n).markDirty i) := by
  have hpages := pages_modify_markDirty hvalid pos buf src n
  have hdisk : ((s.modify i pos buf src n).markDirty i).disk = s.disk := by
    unfold PageCache.markDirty
    split <;> rfl
  have hentry := setEntry_pages (s := s) (i := i)
    (e := { s.pages i with data := (s.pages i).data.paste pos buf src n, dirty := true })
    (P := fun e e' => Same e e' ∧ e'.pinCount = e.pinCount) (fun e => ⟨.refl e, rfl⟩)
    ⟨⟨rfl, rfl, rfl⟩, rfl⟩
  rw [setEntry, ← hpages] at hentry
  refine ⟨⟨(markDirty_initialized _ i).trans hg.initialized,
    (hg.coherent.modify i pos buf src n).markDirty i,
    hg.agrees.modify hg.coherent hvalid hle hpages hdisk,
    hg.pins.congr (fun j => (hentry j).1) fun j => (hentry j).2⟩, ?_⟩
  exact hg.pins.keeps_of_eq fun j => (hentry j).1

/-! ## The loops -/

section Loops

variable {d : BlockDevice} {offset len : ℕ} (henv : env.Reliable) (hd : d ∈ env.getDevice dev)

include henv hd

lemma page_of_range (hin : offset + len ≤ d.totalSectors * sectorSize)
    (hlen : offset + len ≤ 2 ^ 64) {k : ℕ} (hk : k < len) :
    (offset + k) % 2 ^ 64 = offset + k ∧ InDevice env dev ((offset + k) / pageCacheBlockSize) ∧
      (offset + k) / pageCacheBlockSize + 1 < 2 ^ 61 := by
  refine ⟨Nat.mod_eq_of_lt (by omega),
    inDevice_of_lt hd (henv.pages d (BlockEnv.mem_devices hd)) (by omega), ?_⟩
  simp only [pageCacheBlockSize]
  omega

/-- **`page_cache_read` returns bytes of the array.** -/
theorem read (hg : Good env arr held s) (hlt : ∀ i, held i + 1 < 2 ^ 32)
    (hin : offset + len ≤ d.totalSectors * sectorSize) (hlen : offset + len ≤ 2 ^ 64) :
    Good env arr held (s.read env dev offset len).1 ∧ Keeps held s (s.read env dev offset len).1 ∧
      (s.read env dev offset len).2 =
        (arr dev).bytes offset (s.read env dev offset len).2.length := by
  unfold PageCache.read
  rw [if_neg (by simp [hg.initialized])]
  refine readLoop_induct (J := fun out t => Good env arr held t ∧ Keeps held s t ∧
    out = (arr dev).bytes offset out.length) ?_ ?_ len s [] ⟨hg, hg.pins.keeps_refl, rfl⟩
  · rintro out t t' ⟨hgt, hkeeps, hout⟩ hlt' hgot
    obtain ⟨hmod, -, hidx⟩ := page_of_range henv hd hin hlen hlt'
    rw [hmod] at hgot
    obtain ⟨hg', hk'⟩ := hgt.got henv (henv.length_lt hd) hidx hlt hgot
    exact ⟨hg', hkeeps.trans hk', hout⟩
  · rintro out t t' i ⟨hgt, hkeeps, hout⟩ hlt' hgot
    obtain ⟨hmod, hpage, hidx⟩ := page_of_range henv hd hin hlen hlt'
    rw [hmod] at hgot ⊢
    obtain ⟨hg', hk'⟩ := hgt.got henv (henv.length_lt hd) hidx hlt hgot
    obtain ⟨hvalid, hname, hindex⟩ :=
      hgt.coherent.holds_of_got (henv.length_lt hd) (by omega) hgot
    refine ⟨hg'.release_bump, (hkeeps.trans hk').trans hg'.keeps_release_bump, ?_⟩
    -- the bytes of the page are those of the array behind what has been read
    have hcached := hg'.agrees.cached i hvalid (by rw [hname, hindex]; exact hpage)
    rw [hname, hindex] at hcached
    obtain ⟨chunk, hchunk⟩ : ∃ chunk, chunk = min
        (pageCacheBlockSize - (offset + out.length) % pageCacheBlockSize) (len - out.length) :=
      ⟨_, rfl⟩
    have hbytes : (t'.pages i).data.bytes ((offset + out.length) % pageCacheBlockSize) chunk =
        (arr dev).bytes (offset + out.length) chunk := by
      refine bytes_congr fun k hk => ?_
      rw [hcached _ (by omega)]
      congr 1
      simp only [pageCacheBlockSize]
      omega
    rw [← hchunk, hbytes, length_append, length_bytes]
    nth_rewrite 1 [hout]
    exact bytes_append _ _ _ _

/-- **`page_cache_write` writes to the array** as many bytes as it says. -/
theorem write (hg : Good env arr held s) (hlt : ∀ i, held i + 1 < 2 ^ 32) {buf : List UInt8}
    (hin : offset + buf.length ≤ d.totalSectors * sectorSize) (hlen : offset + buf.length ≤ 2 ^ 64)
    :
    Good env (update arr dev ((arr dev).paste offset (fun k => buf.getD k 0) 0
        (s.write env dev offset buf).2)) held (s.write env dev offset buf).1 ∧
      Keeps held s (s.write env dev offset buf).1 := by
  unfold PageCache.write
  rw [if_neg (by simp [hg.initialized])]
  refine writeLoop_induct (J := fun done t => Good env (update arr dev
    ((arr dev).paste offset (fun k => buf.getD k 0) 0 done)) held t ∧ Keeps held s t) ?_ ?_
    buf.length s 0 ⟨?_, hg.pins.keeps_refl⟩
  · rintro done t t' ⟨hgt, hkeeps⟩ hlt' hgot
    obtain ⟨hmod, -, hidx⟩ := page_of_range henv hd hin hlen hlt'
    rw [hmod] at hgot
    obtain ⟨hg', hk'⟩ := hgt.got henv (henv.length_lt hd) hidx hlt hgot
    exact ⟨hg', hkeeps.trans hk'⟩
  · rintro done t t' i ⟨hgt, hkeeps⟩ hlt' hgot
    obtain ⟨hmod, -, hidx⟩ := page_of_range henv hd hin hlen hlt'
    rw [hmod] at hgot ⊢
    obtain ⟨hg', hk'⟩ := hgt.got henv (henv.length_lt hd) hidx hlt hgot
    obtain ⟨hvalid, hname, hindex⟩ :=
      hgt.coherent.holds_of_got (henv.length_lt hd) (by omega) hgot
    obtain ⟨chunk, hchunk⟩ : ∃ chunk, chunk = min
      (pageCacheBlockSize - (offset + done) % pageCacheBlockSize) (buf.length - done) := ⟨_, rfl⟩
    rw [← hchunk]
    have hoff : (offset + done) % pageCacheBlockSize + chunk ≤ pageCacheBlockSize := by
      have hmodlt := Nat.mod_lt (offset + done) (show 0 < pageCacheBlockSize by decide)
      omega
    obtain ⟨hg'', hk''⟩ := hg'.modify hvalid (fun k => buf.getD k 0) done hoff
    have hpos : (offset + done) / pageCacheBlockSize * pageCacheBlockSize +
        (offset + done) % pageCacheBlockSize = offset + done := by
      rw [Nat.mul_comm]
      exact Nat.div_add_mod _ _
    -- the array that has been written so far gets the bytes of this round
    have harr := ByteMemory.paste_add (arr dev) (fun k => buf.getD k 0) offset 0 done chunk
    rw [Nat.zero_add] at harr
    rw [hname, hindex, hpos, update_self, harr, update_idem] at hg''
    refine ⟨hg''.release_bump, (hkeeps.trans hk').trans ?_⟩
    have hk3 : Keeps held t' ((t'.modify i ((offset + done) % pageCacheBlockSize)
        (fun k => buf.getD k 0) done chunk).markDirty i) := by
      intro j hj
      refine hk'' j ?_
      rw [Pins.after_some, bump, update_apply]
      split <;> omega
    exact hk3.trans hg''.keeps_release_bump
  · rw [ByteMemory.paste_zero, update_eq_self]
    exact hg

end Loops

/-! ## Write-back of everything -/

lemma flush_entry (env : BlockEnv) (s : PageCache) (i j : Slot) :
    Same (s.pages j) ((s.flush env i).1.pages j) ∧
      (((s.flush env i).1.pages j).dirty = true → (s.pages j).dirty = true) := by
  rcases flush_cases env s i with ⟨-, h⟩ | ⟨-, h⟩
  · rw [h.pages, update_apply]
    split
    · next hj =>
      rw [hj]
      exact ⟨⟨rfl, rfl, rfl⟩, nofun⟩
    · exact ⟨.refl _, id⟩
  · rw [h.pages]
    exact ⟨.refl _, id⟩

lemma syncLoop_entry (env : BlockEnv) (dev : Option Name) (is : List Slot) (s : PageCache) (n : ℕ)
    (j : Slot) :
    Same (s.pages j) ((syncLoop env dev is s n).1.pages j) ∧
      (((syncLoop env dev is s n).1.pages j).dirty = true → (s.pages j).dirty = true) := by
  induction is generalizing s n with
  | nil => exact ⟨.refl _, id⟩
  | cons i is ih =>
    unfold syncLoop
    split
    · obtain ⟨hsame, hd⟩ := flush_entry env s i j
      obtain ⟨hsame', hd'⟩ := ih (s.flush env i).1 (if (s.flush env i).2 = true then n + 1 else n)
      exact ⟨hsame.trans hsame', fun h => hd (hd' h)⟩
    · exact ih s n

lemma flush_clean (henv : env.Reliable) (hlt : (s.pages i).pageIndex + 1 < 2 ^ 61)
    (hin : InDevice env (s.pages i).devName (s.pages i).pageIndex) :
    ((s.flush env i).1.pages i).dirty = false := by
  obtain ⟨d, hd, hle⟩ := hin
  have hmem := BlockEnv.mem_devices hd
  have hend : ¬ pastEnd (s.pages i) d := by
    rw [pastEnd_iff hlt]
    omega
  have hok : (s.flush env i).2 = true := by
    unfold flush pageWriteToDisk
    simp [Option.mem_def.1 hd, henv.hasWrite d hmem, henv.writable d hmem, hend, henv.writeOk]
  rcases flush_cases env s i with ⟨-, h⟩ | ⟨hfail, -⟩
  · rw [h.pages, update_self]
  · cases hok.symm.trans hfail

/-- **`page_cache_sync` leaves no page dirty that lies inside its device.** -/
lemma syncLoop_clean (henv : env.Reliable) (only : Option Name) (is : List Slot) (n : ℕ)
    (hlt : ∀ i, (s.pages i).valid = true → (s.pages i).pageIndex + 1 < 2 ^ 61) (hi : i ∈ is)
    (hvalid : (s.pages i).valid = true) (hmatch : matchesDev (s.pages i) only)
    (hin : InDevice env (s.pages i).devName (s.pages i).pageIndex) :
    ((syncLoop env only is s n).1.pages i).dirty = false := by
  induction is generalizing s n with
  | nil => cases hi
  | cons j is ih =>
    unfold syncLoop
    split
    · next h =>
      -- the slot that has been written stays clean, and the others are as they were
      have hentry := flush_entry env s j
      by_cases hij : i = j
      · subst hij
        refine Bool.eq_false_iff.2 fun hdirty => ?_
        have hstill := (syncLoop_entry env only is _ _ i).2 hdirty
        rw [flush_clean henv (hlt i hvalid) hin] at hstill
        cases hstill
      · obtain ⟨⟨hv, hn, hp⟩, -⟩ := hentry i
        refine ih _ (fun k hk => ?_) ((mem_cons.1 hi).resolve_left hij) (hv.trans hvalid) ?_ ?_
        · rw [(hentry k).1.pageIndex]
          exact hlt k ((hentry k).1.valid ▸ hk)
        · cases only with
          | none => trivial
          | some name => exact hn.trans hmatch
        · rw [hn, hp]
          exact hin
    · next h =>
      by_cases hij : i = j
      · subst hij
        have hclean : (s.pages i).dirty = false := by
          simpa [hvalid, hmatch] using h
        refine Bool.eq_false_iff.2 fun hdirty => ?_
        rw [(syncLoop_entry env only is s n i).2 hdirty] at hclean
        cases hclean
      · exact ih n hlt ((mem_cons.1 hi).resolve_left hij) hvalid hmatch hin

/-- **After `page_cache_sync` the devices hold the array.** -/
theorem sync (hg : Good env arr held s) (henv : env.Reliable) (only : Option Name)
    {d : BlockDevice} (hd : d ∈ env.getDevice dev) (honly : ∀ name ∈ only, dev = name) {p : ℕ}
    (hp : p < d.totalSectors * sectorSize) : (s.syncDev env only).1.disk dev p = arr dev p := by
  have hin := inDevice_of_lt hd (henv.pages d (BlockEnv.mem_devices hd)) hp
  have hg' := (hg.moves henv (syncDev_moves env s only)).1
  refine hg'.agrees.stored dev p hin fun i hv hdirty hdev hidx => ?_
  unfold syncDev at hv hdirty hdev hidx
  rw [if_neg (by simp [hg.initialized])] at hv hdirty hdev hidx
  obtain ⟨⟨hev, hen, hep⟩, -⟩ := syncLoop_entry env only (finRange 64) s 0 i
  rw [hev] at hv
  rw [hen] at hdev
  rw [hep] at hidx
  have hclean := syncLoop_clean henv only (finRange 64) 0 hg.agrees.bounded
    (mem_finRange i) hv (by
      cases only with
      | none => trivial
      | some name => exact hdev.trans (honly name rfl)) (by rw [hdev, hidx]; exact hin)
  cases hclean.symm.trans hdirty

end Good

end PageCache

/-! ## Runs -/

/-- The cache, the array of each device, and the pins that the callers hold. -/
structure Watched where
  cache : PageCache
  arr : Name → ByteMemory
  held : Slot → ℕ

namespace Watched

open PageCache

variable (env : BlockEnv)

/-- The array is the device at first, and nothing is pinned. -/
def init (disk : Name → ByteMemory) : Watched := ⟨.init true disk, disk, fun _ => 0⟩

/-- The array after a call: `page_cache_write` writes as many bytes as it returns, and a caller that
holds a page may change its bytes. -/
def nextArr (w : Watched) : Event → Name → ByteMemory
  | .write dev offset buf => update w.arr dev ((w.arr dev).paste offset
      (fun k => buf.getD k 0) 0 (w.cache.write env dev offset buf).2)
  | .poke i pos value =>
    let e := w.cache.pages i
    update w.arr e.devName ((w.arr e.devName).paste
      (e.pageIndex * pageCacheBlockSize + pos) (fun _ => value) 0 1)
  | _ => w.arr

def nextHeld (w : Watched) : Event → Slot → ℕ
  | .get dev idx => Pins.after w.held (w.cache.get env dev idx).2
  | .release i => unbump w.held i
  | _ => w.held

def step (w : Watched) (e : Event) : Watched where
  cache := w.cache.step env e
  arr := w.nextArr env e
  held := w.nextHeld env e

/-- **The calls that the callers may make**: reads and writes are inside the device, a page that is
released is held, and the bytes of a page change only while it is held and dirty. -/
def Proper (w : Watched) : Event → Prop
  | .read dev offset len => ∃ d ∈ env.getDevice dev, offset + len ≤ d.totalSectors * sectorSize
  | .write dev offset buf =>
    ∃ d ∈ env.getDevice dev, offset + buf.length ≤ d.totalSectors * sectorSize
  | .get dev idx => (∃ d ∈ env.getDevice dev, d.name = dev) ∧ idx < 2 ^ 64
  | .release i => 0 < w.held i
  | .poke i pos _ => 0 < w.held i ∧ (w.cache.pages i).dirty = true ∧ pos < pageCacheBlockSize
  | .markDirty _ | .sync _ | .invalidate _ | .dropAll => True

/-- **No arithmetic of the call overflows**: positions and sectors are numbers of 64 bits, and the
counter of pins is one of 32 bits. -/
def NoOverflow (w : Watched) : Event → Prop
  | .read _ offset len => offset + len ≤ 2 ^ 64 ∧ ∀ i, w.held i + 1 < 2 ^ 32
  | .write _ offset buf => offset + buf.length ≤ 2 ^ 64 ∧ ∀ i, w.held i + 1 < 2 ^ 32
  | .get _ idx => idx + 1 < 2 ^ 61 ∧ ∀ i, w.held i + 1 < 2 ^ 32
  | .release _ | .poke _ _ _ | .markDirty _ | .sync _ | .invalidate _ | .dropAll => True

instance (w : Watched) : DecidablePred (w.Proper env) := by
  rintro ⟨⟩ <;> dsimp only [Proper] <;> infer_instance

instance (w : Watched) : DecidablePred w.NoOverflow := by
  rintro ⟨⟩ <;> dsimp only [NoOverflow] <;> infer_instance

/-- **What the callers see is the array.** -/
structure Refines (w : Watched) : Prop where
  /-- The index has a slot for a page exactly when the slot holds it. -/
  index_iff : ∀ dev idx i, dev.length < 32 → idx < 2 ^ 64 →
    (w.cache.index (makeKey dev idx) = some i ↔ (w.cache.pages i).valid = true ∧
      (w.cache.pages i).devName = dev ∧ (w.cache.pages i).pageIndex = idx)
  /-- No two slots hold the same page. -/
  unique : ∀ i j, (w.cache.pages i).valid = true → (w.cache.pages j).valid = true →
    (w.cache.pages i).devName = (w.cache.pages j).devName →
    (w.cache.pages i).pageIndex = (w.cache.pages j).pageIndex → i = j
  /-- The counters are the numbers of slots. -/
  residentPages : w.cache.stats.residentPages = Table.count PageEntry.valid w.cache.pages
  dirtyPages : w.cache.stats.dirtyPages =
    Table.count (fun e => e.valid && e.dirty) w.cache.pages
  /-- A read returns the bytes of the array. -/
  read : ∀ dev offset len, w.Proper env (.read dev offset len) →
    w.NoOverflow (.read dev offset len) → (w.cache.read env dev offset len).2 =
      (w.arr dev).bytes offset (w.cache.read env dev offset len).2.length
  /-- After `page_cache_sync` the device holds the array. -/
  sync : ∀ (only : Option Name), ∀ dev, ∀ d ∈ env.getDevice dev, (∀ name ∈ only, dev = name) →
    ∀ p < d.totalSectors * sectorSize, (w.cache.syncDev env only).1.disk dev p = w.arr dev p

variable {env} {w : Watched}

/-- The agreement with the array, for a watched cache. -/
def Ok (env : BlockEnv) (w : Watched) : Prop := Good env w.arr w.held w.cache

/-- **Every call without overflow keeps the agreement and the pinned pages.** -/
theorem Ok.step (hw : Ok env w) (henv : env.Reliable) {e : Event} (hproper : w.Proper env e)
    (hno : w.NoOverflow e) : Ok env (w.step env e) ∧ Keeps w.held w.cache (w.step env e).cache := by
  cases e with
  | read dev offset len =>
    obtain ⟨d, hd, hin⟩ := hproper
    obtain ⟨hg, hkeeps, -⟩ := hw.read henv hd hno.2 hin hno.1
    exact ⟨hg, hkeeps⟩
  | write dev offset buf =>
    obtain ⟨d, hd, hin⟩ := hproper
    exact hw.write henv hd hno.2 hin hno.1
  | get dev idx =>
    obtain ⟨⟨d, hd, -⟩, -⟩ := hproper
    exact hw.got henv (henv.length_lt hd) hno.1 hno.2 (got env w.cache dev idx)
  | release i => exact ⟨.release hw hproper, Good.keeps_release hw.pins i⟩
  | markDirty i => exact Good.markDirty hw i
  | poke i pos value =>
    obtain ⟨hheld, hdirty, hpos⟩ := hproper
    have hvalid := hw.pins.valid_of_pos hheld
    have hmod := Good.modify hw hvalid (fun _ => value) 0
      (show pos + 1 ≤ pageCacheBlockSize by omega)
    -- the page is dirty already
    have hmark : (w.cache.modify i pos (fun _ => value) 0 1).markDirty i =
        w.cache.modify i pos (fun _ => value) 0 1 := by
      unfold markDirty
      simp [PageCache.modify, setEntry, hdirty]
    rw [hmark] at hmod
    exact hmod
  | sync dev => exact Good.moves hw henv (syncDev_moves env w.cache dev)
  | invalidate dev => exact Good.moves hw henv (invalidate_moves env w.cache dev)
  | dropAll => exact Good.moves hw henv (dropAll_moves env w.cache)

lemma ok_init (env : BlockEnv) (disk : Name → ByteMemory) : Ok env (init disk) where
  initialized := rfl
  coherent := coherent_init true disk
  agrees := ⟨fun _ h => absurd h Bool.false_ne_true, fun _ h => absurd h Bool.false_ne_true,
    fun _ _ _ _ => rfl⟩
  pins := ⟨fun _ h => absurd h Bool.false_ne_true, fun _ _ => rfl⟩

lemma Ok.refines (hw : Ok env w) (henv : env.Reliable) : Refines env w where
  index_iff dev idx i hdev hidx := by
    rw [hw.coherent.index_iff]
    refine and_congr_right fun hvalid => ?_
    obtain ⟨hname, hlt⟩ := hw.coherent.named i hvalid
    constructor
    · intro hkey
      exact makeKey_inj hname hdev hlt hidx hkey
    · rintro ⟨rfl, rfl⟩
      rfl
  unique i j hi hj hdev hidx := hw.coherent.slot_unique hi hj hdev hidx
  residentPages := hw.coherent.residentPages
  dirtyPages := hw.coherent.dirtyPages
  read := by
    rintro dev offset len ⟨d, hd, hin⟩ ⟨hlen, hlt⟩
    exact (hw.read henv hd hlt hin hlen).2.2
  sync only dev d hd honly p hp := hw.sync henv only hd honly hp

/-- **The cache refines the array**: in every run of proper calls without overflow, what the callers
see is the array in every state reached, and no call takes a page away that is pinned. -/
theorem refines_run (henv : env.Reliable) (disk : Name → ByteMemory) (es : List Event)
    (hes : Along (step env) (fun w e => w.Proper env e ∧ w.NoOverflow e) (init disk) es) :
    Refines env (run (step env) (init disk) es) ∧
      ∀ e, (run (step env) (init disk) es).Proper env e →
        (run (step env) (init disk) es).NoOverflow e →
        Keeps (run (step env) (init disk) es).held
          (run (step env) (init disk) es).cache
          ((run (step env) (init disk) es).step env e).cache := by
  have hstep : ∀ (w : Watched) (e : Event), Ok env w → w.Proper env e ∧ w.NoOverflow e →
      Ok env (w.step env e) := fun w e hw he => (hw.step henv he.1 he.2).1
  have hw := run_invariant_of_along hstep (ok_init env disk) hes
  exact ⟨hw.refines henv, fun e hproper hno => (hw.step henv hproper hno).2⟩

/-- One device of 8 sectors, and nothing fails. -/
def smallDisk : BlockEnv where
  devices := [⟨['d'], 8, false, true, true, pageCacheSectors_lt⟩]
  readOk := fun _ => true
  writeOk := fun _ => true
  torn := fun _ => 0
  dataOk := fun _ => true
  nodeOk := fun _ => true

/-- Bytes are written and read again while their page is pinned, one of them is changed through the
pin, and then everything is written back and given up. -/
def pinnedCalls : List Event :=
  [.write ['d'] 10 [1, 2, 3], .get ['d'] 0, .read ['d'] 9 5, .markDirty 0, .poke 0 11 9, .sync none,
    .release 0, .dropAll]

lemma reliable_smallDisk : smallDisk.Reliable where
  name := by decide
  pages := by decide
  hasRead := by decide
  hasWrite := by decide
  writable := by decide
  readOk _ := rfl
  writeOk _ := rfl
  nodeOk _ := rfl

theorem refines_run_pinned :
    Along (step smallDisk) (fun w e => w.Proper smallDisk e ∧ w.NoOverflow e)
        (init fun _ _ => 0) pinnedCalls ∧
      Refines smallDisk (run (step smallDisk) (init fun _ _ => 0) pinnedCalls) :=
  ⟨by decide +kernel, (refines_run reliable_smallDisk _ pinnedCalls (by decide +kernel)).1⟩

example : ((run (step smallDisk) (init fun _ _ => 0) pinnedCalls).cache.read smallDisk ['d']
    9 5).2 = [0, 1, 9, 3, 0] := by decide +kernel

/-- **Two pages in the same sectors.** A byte is written to the only page of a device. Page `2 ^ 61`
is far outside, and its first sector is computed to be 0: it is read from the device and, once it is
marked, it is written back over the first page by `page_cache_sync`. What was written is not on the
device. -/
theorem aliased_page : smallDisk.Reliable ∧
    ∃ es : List Event,
      Along (step smallDisk) (Proper smallDisk) (init fun _ _ => 0) es ∧
      (run (step smallDisk) (init fun _ _ => 0) es).arr ['d'] 0 = 7 ∧
      ((run (step smallDisk) (init fun _ _ => 0) es).cache.syncDev smallDisk
        none).1.disk ['d'] 0 = 0 :=
  ⟨reliable_smallDisk, [.write ['d'] 0 [7], .get ['d'] (2 ^ 61), .markDirty 1, .release 1],
    by decide +kernel, by decide +kernel, by decide +kernel⟩

end Watched

end SubOS.Mm
