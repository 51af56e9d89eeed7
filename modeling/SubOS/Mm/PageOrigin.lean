import SubOS.Mm.PageArray

set_option autoImplicit false

/-!
# Where the bytes of the page cache come from

A byte that the cache holds or stores is a byte of the device, or a caller has written it. This
needs every read of a device to succeed: a page that cannot be read is filled with zeros and is
valid all the same, and the write-back after the next `page_cache_write` puts them on the device.

## Main definitions

* `Sourced`, `Accounted` — every byte has an origin, in a state and in a call.

## Main results

* `accounted_run`, `zeros_stored` — runs in which no read fails, and one in which a read fails.
-/

namespace SubOS.Mm

open EventRun List ByteMemory

/-- No read of a device fails. -/
structure BlockEnv.Readable (env : BlockEnv) : Prop where
  hasRead : ∀ d ∈ env.devices, d.hasRead = true
  readOk : ∀ n, env.readOk n = true

namespace PageCache

variable {env : BlockEnv} {s s' t : PageCache} {i j : Slot} {dev : Name} {idx : ℕ}
  {orig : Name → ByteMemory} {written written' : List (Name × ℕ × UInt8)}

/-- **Every byte has an origin.** A page that is cached has the bytes of its device, except for
those that a caller has written, and so has the device with respect to what it was at first. -/
structure Sourced (env : BlockEnv) (orig : Name → ByteMemory) (written : List (Name × ℕ × UInt8))
    (s : PageCache) : Prop where
  coherent : s.Coherent
  bounded : ∀ i, (s.pages i).valid = true → (s.pages i).pageIndex + 1 < 2 ^ 61
  cached : ∀ i, (s.pages i).valid = true → InDevice env (s.pages i).devName (s.pages i).pageIndex →
    ∀ k < pageCacheBlockSize,
      (s.pages i).data k =
        s.disk (s.pages i).devName ((s.pages i).pageIndex * pageCacheBlockSize + k) ∨
      ((s.pages i).devName, (s.pages i).pageIndex * pageCacheBlockSize + k, (s.pages i).data k) ∈
        written
  stored : ∀ dev p, s.disk dev p = orig dev p ∨ (dev, p, s.disk dev p) ∈ written

/-- What a caller has written with the first bytes of a buffer. -/
def wrote (dev : Name) (offset : ℕ) (buf : List UInt8) (n : ℕ) : List (Name × ℕ × UInt8) :=
  (List.range n).map fun k => (dev, offset + k, buf.getD k 0)

lemma wrote_subset (dev : Name) (offset : ℕ) (buf : List UInt8) {n m : ℕ} (h : n ≤ m) :
    wrote dev offset buf n ⊆ wrote dev offset buf m :=
  map_subset _ (range_subset.2 h)

namespace Sourced

section

variable (hs : Sourced env orig written s)
include hs

lemma mono (hsub : written ⊆ written') : Sourced env orig written' s where
  coherent := hs.coherent
  bounded := hs.bounded
  cached i hv hin k hk := (hs.cached i hv hin k hk).imp_right fun h => hsub h
  stored dev p := (hs.stored dev p).imp_right fun h => hsub h

lemma restart : Sourced env s.disk written s where
  coherent := hs.coherent
  bounded := hs.bounded
  cached := hs.cached
  stored _ _ := .inl rfl

lemma of_entries (hc : s'.Coherent) (hentry : ∀ j, SameData (s.pages j) (s'.pages j))
    (hdisk : s'.disk = s.disk) : Sourced env orig written s' where
  coherent := hc
  bounded j hj := by
    rw [(hentry j).pageIndex]
    exact hs.bounded j ((hentry j).valid ▸ hj)
  cached j hj hin := by
    obtain ⟨⟨hv, hn, hp⟩, hdata⟩ := hentry j
    rw [hn, hp] at hin ⊢
    rw [hdata, hdisk]
    exact hs.cached j (hv ▸ hj) hin
  stored dev p := by
    rw [hdisk]
    exact hs.stored dev p

/-- **The first bytes of a page are stored on its device.** No other page lies there, so the cache
is still accounted for. -/
lemma store (hc : s'.Coherent) (hvalid : (s.pages i).valid = true) {d : BlockDevice}
    (hd : env.getDevice (s.pages i).devName = some d) (hend : ¬ pastEnd (s.pages i) d) {n : ℕ}
    (hn : n ≤ pageCacheBlockSize) (hentry : ∀ j, SameData (s.pages j) (s'.pages j))
    (hdisk : s'.disk = Function.update s.disk (s.pages i).devName
      ((s.disk (s.pages i).devName).paste (sector (s.pages i) * sectorSize) (s.pages i).data 0 n)) :
    Sourced env orig written s' := by
  have hbound := hs.bounded i hvalid
  have hin := inDevice_of_not_pastEnd hbound hd hend
  rw [sector_mul hbound] at hdisk
  -- a position is on the stored part of the page, or its byte stays
  have hbyte : ∀ dev p, (∃ k < n, dev = (s.pages i).devName ∧
      p = (s.pages i).pageIndex * pageCacheBlockSize + k ∧ s'.disk dev p = (s.pages i).data k) ∨
      s'.disk dev p = s.disk dev p := by
    intro dev p
    rw [hdisk, Function.update_apply]
    split
    · next hdev =>
      by_cases hrange : (s.pages i).pageIndex * pageCacheBlockSize ≤ p ∧
          p < (s.pages i).pageIndex * pageCacheBlockSize + n
      · refine .inl ⟨p - (s.pages i).pageIndex * pageCacheBlockSize, by omega, hdev, by omega, ?_⟩
        rw [paste_inside hrange, Nat.zero_add]
      · rw [paste_outside hrange, hdev]
        exact .inr rfl
    · exact .inr rfl
  refine ⟨hc, fun j hj => ?_, fun j hj hjin k hk => ?_, fun dev p => ?_⟩
  · rw [(hentry j).pageIndex]
    exact hs.bounded j ((hentry j).valid ▸ hj)
  · obtain ⟨⟨hv, hname, hindex⟩, hdata⟩ := hentry j
    rw [hv] at hj
    rw [hname, hindex] at hjin ⊢
    rw [hdata]
    rcases hbyte (s.pages j).devName ((s.pages j).pageIndex * pageCacheBlockSize + k) with
      ⟨k', hk', hdev, hpos, hstored⟩ | hkept
    · have hidx : (s.pages j).pageIndex = (s.pages i).pageIndex ∧ k = k' := by
        simp only [pageCacheBlockSize] at hk hpos hn
        omega
      obtain rfl := hs.coherent.slot_unique hj hvalid hdev hidx.1
      rw [hstored, hidx.2]
      exact .inl rfl
    · rw [hkept]
      exact hs.cached j hj hjin k hk
  · rcases hbyte dev p with ⟨k, hk, rfl, rfl, hstored⟩ | hkept
    · rw [hstored]
      rcases hs.cached i hvalid hin k (by omega) with hsame | hmem
      · rw [hsame]
        exact hs.stored _ _
      · exact .inr hmem
    · rw [hkept]
      exact hs.stored dev p

/-- **A move keeps the account**, whether write-backs fail or not. -/
theorem move (h : Move env s s') : Sourced env orig written s' := by
  have hc : s'.Coherent := hs.coherent.moves (.single h)
  cases h with
  | book h => exact hs.of_entries hc h.entry h.disk
  | flushed i hvalid hdirty h =>
    obtain ⟨d, hd, hend⟩ := h.device
    exact hs.store hc hvalid hd hend le_rfl (fun j => (h.entry j).1) h.disk
  | torn i hvalid hdirty h =>
    rcases h.disk with hdisk | ⟨d, n, hd, hend, -, hn, hdisk⟩
    · exact hs.of_entries hc h.entry hdisk
    · exact hs.store hc hvalid hd hend hn h.entry hdisk
  | dropped i hvalid hclean hpin h =>
    refine ⟨hc, fun j hj => ?_, fun j hj => ?_, fun dev p => ?_⟩
    · have heq := h.other (h.ne_of_valid hj)
      rw [heq] at hj ⊢
      exact hs.bounded j hj
    · have heq := h.other (h.ne_of_valid hj)
      rw [heq] at hj ⊢
      rw [h.disk]
      exact hs.cached j hj
    · rw [h.disk]
      exact hs.stored dev p

theorem moves (h : Moves env s s') : Sourced env orig written s' := by
  induction h with
  | refl => exact hs
  | tail _ hmove ih => exact ih.move hmove

/-- **`page_cache_get` keeps the account.** -/
theorem got (henv : env.Readable) (hnode : ∀ n, env.nodeOk n = true) (hdev : dev.length < 32)
    (hidx : idx + 1 < 2 ^ 61) {r : Option Slot} (h : Got env s dev idx s' r) :
    Sourced env orig written s' := by
  have hc := hs.coherent.got hnode hdev (by omega) h
  cases h with
  | failed h => exact hs.moves h
  | @hit i h => exact hs.of_entries hc (fun j => (touch_entry s i j).1) rfl
  | @loaded t s' i hmiss hmoves hinvalid h =>
    have ht := hs.moves hmoves
    obtain ⟨-, -, hn, hp, -⟩ := h.self hdev
    refine ⟨hc, fun j hj => ?_, fun j hj hin k hk => ?_, fun d p => ?_⟩
    · by_cases hji : j = i
      · rw [hji, hp]
        exact hidx
      · rw [h.other hji] at hj ⊢
        exact ht.bounded j hj
    · rw [h.disk]
      by_cases hji : j = i
      · rw [hji, hn, hp] at hin ⊢
        exact .inl (h.data_eq henv.hasRead henv.readOk hdev hidx hin hk)
      · rw [h.other hji] at hj hin ⊢
        exact ht.cached j hj hin k hk
    · rw [h.disk]
      exact ht.stored d p

lemma release (i : Slot) : Sourced env orig written (s.release i) := by
  refine hs.of_entries (hs.coherent.release i) (fun j => (release_entry s i j).1) ?_
  unfold PageCache.release
  split <;> rfl

lemma markDirty (i : Slot) : Sourced env orig written (s.markDirty i) := by
  refine hs.of_entries (hs.coherent.markDirty i) (fun j => (markDirty_entry s i j).1) ?_
  unfold PageCache.markDirty
  split <;> rfl

/-- **A caller changes bytes of a page** and has written them. -/
lemma modify {pos src n : ℕ} {buf : ByteMemory}
    (hwritten : (s.pages i).valid = true → ∀ k < n, ((s.pages i).devName,
      (s.pages i).pageIndex * pageCacheBlockSize + (pos + k), buf (src + k)) ∈ written) :
    Sourced env orig written (s.modify i pos buf src n) := by
  have hentry : ∀ j, Same (s.pages j) ((s.modify i pos buf src n).pages j) :=
    setEntry_pages .refl ⟨rfl, rfl, rfl⟩
  refine ⟨hs.coherent.modify i pos buf src n, fun j hj => ?_, fun j hj hin k hk => ?_,
    hs.stored⟩
  · rw [(hentry j).pageIndex]
    exact hs.bounded j ((hentry j).valid ▸ hj)
  · obtain ⟨hv, hn, hp⟩ := hentry j
    rw [hv] at hj
    rw [hn, hp] at hin ⊢
    have hold := hs.cached j hj hin k hk
    simp only [PageCache.modify, setEntry, Function.update_apply]
    split
    · next hji =>
      subst hji
      by_cases hrange : pos ≤ k ∧ k < pos + n
      · right
        dsimp only
        rw [paste_inside hrange]
        have hmem := hwritten hj (k - pos) (by omega)
        rwa [show pos + (k - pos) = k by omega] at hmem
      · dsimp only
        rw [paste_outside hrange]
        exact hold
    · exact hold

end

/-! ## The loops -/

lemma page_bound (n : ℕ) : n % 2 ^ 64 / pageCacheBlockSize + 1 < 2 ^ 61 := by
  simp only [pageCacheBlockSize]
  omega

section Loops

variable (henv : env.Readable) (hnode : ∀ n, env.nodeOk n = true) (hdev : dev.length < 32)

include henv hnode hdev

/-- **`page_cache_read` returns bytes of the device or bytes that were written.** -/
theorem read (hs : Sourced env orig written s) (offset len : ℕ) :
    Sourced env orig written (s.read env dev offset len).1 ∧
      (offset + len ≤ 2 ^ 64 →
        (∀ k < len, InDevice env dev ((offset + k) / pageCacheBlockSize)) →
        ∀ k b, (s.read env dev offset len).2[k]? = some b →
          b = orig dev (offset + k) ∨ (dev, offset + k, b) ∈ written) := by
  unfold PageCache.read
  split
  · exact ⟨hs, by simp⟩
  refine readLoop_induct (J := fun out t => Sourced env orig written t ∧ (offset + len ≤ 2 ^ 64 →
    (∀ k < len, InDevice env dev ((offset + k) / pageCacheBlockSize)) → ∀ k b, out[k]? = some b →
      b = orig dev (offset + k) ∨ (dev, offset + k, b) ∈ written)) ?_ ?_ len s [] ⟨hs, by simp⟩
  · rintro out t t' ⟨ht, hout⟩ - hgot
    exact ⟨ht.got henv hnode hdev (page_bound _) hgot, hout⟩
  · rintro out t t' i ⟨ht, hout⟩ hlt hgot
    have ht' := ht.got henv hnode hdev (page_bound _) hgot
    obtain ⟨hvalid, hname, hindex⟩ := ht.coherent.holds_of_got hdev (page_lt _) hgot
    refine ⟨ht'.release i, fun hlen hin k b hb => ?_⟩
    rw [Nat.mod_eq_of_lt (show offset + out.length < 2 ^ 64 by omega)] at hindex hb
    rw [getElem?_append] at hb
    split at hb
    · exact hout hlen hin k b hb
    next hk =>
    -- a byte of this round is one of the page
    obtain ⟨hchunk, rfl⟩ := getElem?_bytes_eq_some.1 hb
    have hpage : (offset + out.length) % pageCacheBlockSize + (k - out.length) <
        pageCacheBlockSize := by omega
    have hpos : (offset + out.length) / pageCacheBlockSize * pageCacheBlockSize +
        ((offset + out.length) % pageCacheBlockSize + (k - out.length)) = offset + k := by
      simp only [pageCacheBlockSize]
      omega
    have hcached := ht'.cached i hvalid (by rw [hname, hindex]; exact hin _ hlt) _ hpage
    rw [hname, hindex, hpos] at hcached
    rcases hcached with hdisk | hmem
    · rw [hdisk]
      exact ht'.stored dev (offset + k)
    · exact .inr hmem

/-- **`page_cache_write`** accounts for as many bytes as it says. -/
theorem write (hs : Sourced env orig written s) (offset : ℕ) (buf : List UInt8)
    (hlen : offset + buf.length ≤ 2 ^ 64) :
    Sourced env orig (written ++ wrote dev offset buf (s.write env dev offset buf).2)
      (s.write env dev offset buf).1 := by
  unfold PageCache.write
  split
  · exact hs.mono (List.subset_append_left _ _)
  refine writeLoop_induct (J := fun done t =>
    Sourced env orig (written ++ wrote dev offset buf done) t) ?_ ?_ buf.length s 0
    (hs.mono (List.subset_append_left _ _))
  · rintro done t t' ht - hgot
    exact ht.got henv hnode hdev (page_bound _) hgot
  · rintro done t t' i ht hlt hgot
    have ht' := ht.got henv hnode hdev (page_bound _) hgot
    obtain ⟨-, hname, hindex⟩ := ht.coherent.holds_of_got hdev (page_lt _) hgot
    rw [Nat.mod_eq_of_lt (show offset + done < 2 ^ 64 by omega)] at hindex ⊢
    obtain ⟨chunk, hchunk⟩ : ∃ chunk, chunk = min
      (pageCacheBlockSize - (offset + done) % pageCacheBlockSize) (buf.length - done) := ⟨_, rfl⟩
    rw [← hchunk]
    have hmore := ht'.mono (List.append_subset.2 ⟨List.subset_append_left written _,
      List.Subset.trans (wrote_subset dev offset buf (Nat.le_add_right done chunk))
        (List.subset_append_right written _)⟩)
    refine ((hmore.modify fun _ k hk => ?_).markDirty i).release i
    rw [hname, hindex]
    refine List.mem_append_right _ (List.mem_map.2 ⟨done + k, List.mem_range.2 (by omega), ?_⟩)
    rw [Prod.mk.injEq, Prod.mk.injEq]
    refine ⟨rfl, ?_, rfl⟩
    simp only [pageCacheBlockSize]
    omega

end Loops

end Sourced

end PageCache

/-! ## Runs -/

/-- The cache, and what the callers have written: the device, the position and the byte. -/
structure Journal where
  cache : PageCache
  written : List (Name × ℕ × UInt8)

namespace Journal

open PageCache

variable (env : BlockEnv)

def init (disk : Name → ByteMemory) : Journal := ⟨.init true disk, []⟩

def writes (w : Journal) : Event → List (Name × ℕ × UInt8)
  | .write dev offset buf => wrote dev offset buf (w.cache.write env dev offset buf).2
  | .poke i pos value =>
    [((w.cache.pages i).devName, (w.cache.pages i).pageIndex * pageCacheBlockSize + pos, value)]
  | _ => []

def step (w : Journal) (e : Event) : Journal where
  cache := w.cache.step env e
  written := w.written ++ w.writes env e

/-- **The positions of a call are numbers of 64 bits**, and names have at most 31 characters. -/
def Addressed : Event → Prop
  | .read dev offset len => dev.length < 32 ∧ offset + len ≤ 2 ^ 64
  | .write dev offset buf => dev.length < 32 ∧ offset + buf.length ≤ 2 ^ 64
  | .get dev idx => dev.length < 32 ∧ idx + 1 < 2 ^ 61
  | .poke _ pos _ => pos < pageCacheBlockSize
  | .release _ | .markDirty _ | .sync _ | .invalidate _ | .dropAll => True

instance : DecidablePred Addressed := by rintro ⟨⟩ <;> dsimp only [Addressed] <;> infer_instance

/-- **No byte without an origin is read or stored.** A byte that `page_cache_read` returns is on the
device when it is called, or a caller has written it there; a byte of a device was there at first,
or a caller has written it there. -/
structure Accounted (disk : Name → ByteMemory) (w : Journal) : Prop where
  read : ∀ dev offset len, Addressed (.read dev offset len) →
    (∀ k < len, InDevice env dev ((offset + k) / pageCacheBlockSize)) →
    ∀ k b, (w.cache.read env dev offset len).2[k]? = some b →
      b = w.cache.disk dev (offset + k) ∨ (dev, offset + k, b) ∈ w.written
  stored : ∀ dev p, w.cache.disk dev p = disk dev p ∨ (dev, p, w.cache.disk dev p) ∈ w.written

variable {env} {w : Journal} {disk : Name → ByteMemory}

lemma sourced_init (env : BlockEnv) (disk : Name → ByteMemory) :
    Sourced env disk (init disk).written (init disk).cache where
  coherent := coherent_init true disk
  bounded _ h := absurd h Bool.false_ne_true
  cached _ h := absurd h Bool.false_ne_true
  stored _ _ := .inl rfl

/-- **Every call keeps the account.** -/
theorem sourced_step (henv : env.Readable) (hnode : ∀ n, env.nodeOk n = true)
    (hs : Sourced env disk w.written w.cache) {e : Event} (he : Addressed e) :
    Sourced env disk (w.step env e).written (w.step env e).cache := by
  have hkeep : ∀ t, Sourced env disk w.written t → Sourced env disk (w.written ++ []) t :=
    fun _ h => h.mono (subset_append_left _ _)
  cases e with
  | read dev offset len => exact hkeep _ ((hs.read henv hnode he.1 offset len).1)
  | write dev offset buf => exact hs.write henv hnode he.1 offset buf he.2
  | get dev idx => exact hkeep _ (hs.got henv hnode he.1 he.2 (PageCache.got env _ dev idx))
  | release i => exact hkeep _ (hs.release i)
  | markDirty i => exact hkeep _ (hs.markDirty i)
  | poke i pos value =>
    refine (hs.mono (subset_append_left _ _)).modify fun _ k hk => ?_
    obtain rfl : k = 0 := by omega
    exact mem_append_right _ (mem_singleton.2 rfl)
  | sync dev => exact hkeep _ (hs.moves (syncDev_moves env _ dev))
  | invalidate dev => exact hkeep _ (hs.moves (invalidate_moves env _ dev))
  | dropAll => exact hkeep _ (hs.moves (dropAll_moves env _))

/-- **No byte without an origin is read or stored in any run in which no read of a device fails.**
-/
theorem accounted_run (henv : env.Readable) (hnode : ∀ n, env.nodeOk n = true)
    (disk : Name → ByteMemory) (es : List Event) (hes : ∀ e ∈ es, Addressed e) :
    Accounted env disk (run (step env) (init disk) es) := by
  have hstep : ∀ (w : Journal) (e : Event), Sourced env disk w.written w.cache → Addressed e →
      Sourced env disk (w.step env e).written (w.step env e).cache :=
    fun w e hs he => sourced_step henv hnode hs he
  have hs := run_invariant_of_along hstep (sourced_init env disk)
    (along_of_mem hes)
  exact ⟨fun dev offset len haddr hin =>
    (hs.restart.read henv hnode haddr.1 offset len).2 haddr.2 hin, hs.stored⟩

/-- One device of 16 sectors with a write that fails in the middle of a page. -/
def tornDisk : BlockEnv where
  devices := [⟨['d'], 16, false, true, true, by decide⟩]
  readOk := fun _ => true
  writeOk := fun n => n != 0
  torn := fun _ => 1
  dataOk := fun _ => true
  nodeOk := fun _ => true

/-- Two bytes are written and the first attempt to store them fails after one byte. -/
theorem accounted_run_torn : tornDisk.Readable ∧
    (run (step tornDisk) (init fun _ _ => 5)
      [.write ['d'] 0 [1, 2], .sync none]).cache.disk ['d'] 1 = 5 ∧
    Accounted tornDisk (fun _ _ => 5) (run (step tornDisk) (init fun _ _ => 5)
      [.write ['d'] 0 [1, 2], .sync none]) :=
  ⟨⟨by decide, fun _ => rfl⟩, by decide +kernel,
    accounted_run ⟨by decide, fun _ => rfl⟩ (fun _ => rfl) _ _ (by decide)⟩

/-- The same device, and no read of it succeeds. -/
def unreadableDisk : BlockEnv :=
  { tornDisk with readOk := fun _ => false, writeOk := fun _ => true }

/-- **The zeros of a page that cannot be read.** The device has the byte 5 everywhere, and it cannot
be read. `page_cache_read` returns 0 from it. After one byte has been written at position 0 and
`page_cache_sync` has run, the byte at position 1 is 0 on the device, where no caller has written.
-/
theorem zeros_stored :
    ((init fun _ _ => 5).cache.read unreadableDisk ['d'] 1 1).2 = [0] ∧
      InDevice unreadableDisk ['d'] 0 ∧ ∃ es : List Event, (∀ e ∈ es, Addressed e) ∧
        (run (step unreadableDisk) (init fun _ _ => 5) es).cache.disk ['d'] 1 = 0 ∧
        (run (step unreadableDisk) (init fun _ _ => 5) es).written = [(['d'], 0, 7)] :=
  ⟨by decide +kernel, ⟨_, rfl, by decide⟩, [.write ['d'] 0 [7], .sync none], by decide,
    by decide +kernel, by decide +kernel⟩

end Journal

end SubOS.Mm
