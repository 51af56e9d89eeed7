import SubOS.Mm.PageIndex

set_option autoImplicit false

/-!
# Pinned pages, and the array behind the cache

A caller that has got a page and has not released it has a pin on its slot. As long as the counters
of the slots do not overflow, they count these pins, and a slot with a pin keeps its page.

What the callers see of a device through the cache is an array of bytes. The page of a slot holds
the bytes of the array, and so does the device, except for the pages that are dirty.

## Main definitions

* `Pins`, `Keeps` — the counters are the numbers of pins; pinned slots keep their pages.
* `Agrees` — the cache and the devices agree with an array.

## Main results

* `Pins.move`, `Pins.got`, `Pins.release` — what becomes of the pins.
* `Agrees.move`, `Agrees.loaded`, `Agrees.modify` — what becomes of the array.
-/

namespace SubOS.Mm.PageCache

open Function Nat ByteMemory

variable {env : BlockEnv} {s s' t : PageCache} {i j : Slot} {dev : Name} {idx : ℕ} {held : Slot → ℕ}
  {arr : Name → ByteMemory} {e : PageEntry} {d : BlockDevice}

/-! ## Pins -/

/-- **The counters are the numbers of pins**, and slots that are not valid have none. -/
structure Pins (held : Slot → ℕ) (s : PageCache) : Prop where
  valid : ∀ i, (s.pages i).valid = true → (s.pages i).pinCount = held i
  invalid : ∀ i, (s.pages i).valid = false → held i = 0

/-- **The slots with a pin keep their pages.** -/
def Keeps (held : Slot → ℕ) (s s' : PageCache) : Prop :=
  ∀ i, 0 < held i → (s'.pages i).valid = true ∧ (s'.pages i).devName = (s.pages i).devName ∧
    (s'.pages i).pageIndex = (s.pages i).pageIndex

/-- One more pin on a slot. -/
def bump (held : Slot → ℕ) (i : Slot) : Slot → ℕ := update held i (held i + 1)

/-- One pin less. -/
def unbump (held : Slot → ℕ) (i : Slot) : Slot → ℕ := update held i (held i - 1)

lemma unbump_bump (held : Slot → ℕ) (i : Slot) : unbump (bump held i) i = held := by
  unfold unbump bump
  rw [update_self, update_idem, Nat.add_sub_cancel, update_eq_self]

lemma Keeps.trans (h : Keeps held s s') (h' : Keeps held s' t) : Keeps held s t := by
  intro i hi
  obtain ⟨-, hdev, hidx⟩ := h i hi
  obtain ⟨hv', hdev', hidx'⟩ := h' i hi
  exact ⟨hv', hdev'.trans hdev, hidx'.trans hidx⟩

namespace Pins

section

variable (hp : Pins held s)
include hp

lemma valid_of_pos (hi : 0 < held i) : (s.pages i).valid = true := by
  by_contra h
  have hzero := hp.invalid i (by simpa using h)
  omega

lemma keeps_refl : Keeps held s s := fun _ hi => ⟨hp.valid_of_pos hi, rfl, rfl⟩

lemma congr (hentry : ∀ i, Same (s.pages i) (s'.pages i))
    (hpin : ∀ i, (s'.pages i).pinCount = (s.pages i).pinCount) : Pins held s' where
  valid i hi := (hpin i).trans (hp.valid i ((hentry i).valid ▸ hi))
  invalid i hi := hp.invalid i ((hentry i).valid ▸ hi)

lemma keeps_of_eq (hentry : ∀ i, Same (s.pages i) (s'.pages i)) : Keeps held s s' :=
  fun i hi => ⟨(hentry i).valid.trans (hp.valid_of_pos hi), (hentry i).devName,
    (hentry i).pageIndex⟩

/-- **A move changes no counter and keeps the pinned pages.** -/
theorem move (h : Move env s s') : Pins held s' ∧ Keeps held s s' := by
  cases h with
  | book h =>
    have hentry := fun j => (h.entry j).1
    exact ⟨hp.congr hentry h.pinCount, hp.keeps_of_eq hentry⟩
  | torn i hvalid hdirty h =>
    have hentry := fun j => (h.entry j).1
    exact ⟨hp.congr hentry (fun j => by rw [h.pages]), hp.keeps_of_eq hentry⟩
  | flushed i hvalid hdirty h =>
    have hentry := fun j => (h.entry j).1.1
    exact ⟨hp.congr hentry (fun j => (h.entry j).2), hp.keeps_of_eq hentry⟩
  | dropped i hvalid hclean hpin h =>
    -- the slot that is given up has no pin
    have hzero : held i = 0 := (hp.valid i hvalid).symm.trans hpin
    refine ⟨⟨fun j hj => ?_, fun j hj => ?_⟩, fun j hj => ?_⟩
    · have hji := h.ne_of_valid hj
      rw [h.other hji] at hj ⊢
      exact hp.valid j hj
    · by_cases hji : j = i
      · rw [hji]
        exact hzero
      · rw [h.other hji] at hj
        exact hp.invalid j hj
    · have hji : j ≠ i := by
        rintro rfl
        omega
      rw [h.other hji]
      exact ⟨hp.valid_of_pos hj, rfl, rfl⟩

theorem moves (h : Moves env s s') : Pins held s' ∧ Keeps held s s' := by
  induction h with
  | refl => exact ⟨hp, hp.keeps_refl⟩
  | tail _ hmove ih =>
    obtain ⟨hp', hk'⟩ := ih.1.move hmove
    exact ⟨hp', ih.2.trans hk'⟩

end

/-- The pins after `page_cache_get`. -/
def after (held : Slot → ℕ) : Option Slot → Slot → ℕ
  | none => held
  | some i => bump held i

lemma after_some (held : Slot → ℕ) (i : Slot) : after held (some i) = bump held i := rfl

/-- **`page_cache_get` puts a pin on the slot that it returns**, and keeps the pinned pages. -/
theorem got (hp : Pins held s) (hlt : ∀ i, held i + 1 < 2 ^ 32) {r : Option Slot}
    (h : Got env s dev idx s' r) : Pins (after held r) s' ∧ Keeps held s s' := by
  cases h with
  | failed h => exact hp.moves h
  | @hit i h =>
    have hi : (s.pages i).valid = true := by
      exact (Option.filter_eq_some_iff.1 h).2
    have hentry := fun j => (touch_entry s i j).1.1
    refine ⟨⟨fun j hj => ?_, fun j hj => ?_⟩, hp.keeps_of_eq hentry⟩
    · rw [(hentry j).valid] at hj
      rw [after_some, bump]
      simp only [PageCache.touch, setEntry, update_apply]
      split
      · rw [hp.valid i hi]
        exact mod_eq_of_lt (hlt i)
      · exact hp.valid j hj
    · rw [(hentry j).valid] at hj
      have hji : j ≠ i := by
        rintro rfl
        cases hi.symm.trans hj
      rw [after_some, bump]
      rw [update_of_ne hji]
      exact hp.invalid j hj
  | @loaded t s' i hmiss hmoves hinvalid h =>
    obtain ⟨hp', hk'⟩ := hp.moves hmoves
    obtain ⟨data, hpages, -⟩ := h.pages
    have hzero : held i = 0 := hp'.invalid i hinvalid
    refine ⟨⟨fun j hj => ?_, fun j hj => ?_⟩, hk'.trans fun j hj => ?_⟩
    · rw [after_some, bump]
      by_cases hji : j = i
      · rw [hji, hpages, update_self, update_self, hzero]
        rfl
      · rw [update_of_ne hji]
        rw [h.other hji] at hj ⊢
        exact hp'.valid j hj
    · rw [after_some, bump]
      by_cases hji : j = i
      · rw [hji, hpages, update_self] at hj
        cases hj
      · rw [update_of_ne hji]
        rw [h.other hji] at hj
        exact hp'.invalid j hj
    · have hji : j ≠ i := by
        rintro rfl
        omega
      rw [h.other hji]
      exact ⟨hp'.valid_of_pos hj, rfl, rfl⟩

/-- **`page_cache_release` takes a pin away.** -/
theorem release (hp : Pins held s) (hi : 0 < held i) : Pins (unbump held i) (s.release i) := by
  have hvalid := hp.valid_of_pos hi
  have hpin : 0 < (s.pages i).pinCount := hp.valid i hvalid ▸ hi
  have hentry : ∀ j, (s.release i).pages j = if j = i then { s.pages i with
      pinCount := (s.pages i).pinCount - 1 } else s.pages j := by
    intro j
    unfold PageCache.release
    rw [if_pos hpin]
    exact update_apply _ _ _ _
  refine ⟨fun j hj => ?_, fun j hj => ?_⟩
  · rw [hentry] at hj ⊢
    unfold unbump
    rw [update_apply]
    split
    · rw [hp.valid i hvalid]
    · next hji =>
      rw [if_neg hji] at hj
      exact hp.valid j hj
  · rw [hentry] at hj
    unfold unbump
    rw [update_apply]
    split
    · next hji =>
      rw [if_pos hji] at hj
      cases hvalid.symm.trans hj
    · next hji =>
      rw [if_neg hji] at hj
      exact hp.invalid j hj

end Pins

/-! ## Pages and sectors -/

/-- The page lies inside a registered device. -/
def InDevice (env : BlockEnv) (dev : Name) (idx : ℕ) : Prop :=
  ∃ d ∈ env.getDevice dev, (idx + 1) * pageCacheSectors ≤ d.totalSectors

section

variable (hlt : e.pageIndex + 1 < 2 ^ 61)
include hlt

lemma sector_eq : sector e = e.pageIndex * pageCacheSectors := by
  unfold sector
  simp only [pageCacheSectors]
  omega

lemma sector_mul : sector e * sectorSize = e.pageIndex * pageCacheBlockSize := by
  rw [sector_eq hlt]
  simp only [pageCacheSectors, sectorSize, pageCacheBlockSize]
  omega

lemma pastEnd_iff : pastEnd e d ↔ d.totalSectors < (e.pageIndex + 1) * pageCacheSectors := by
  unfold pastEnd
  rw [sector_eq hlt, mod_eq_of_lt]
  · rw [succ_mul]
  · simp only [pageCacheSectors]
    omega

lemma inDevice_of_not_pastEnd (hd : env.getDevice e.devName = some d) (h : ¬ pastEnd e d) :
    InDevice env e.devName e.pageIndex := by
  rw [pastEnd_iff hlt] at h
  exact ⟨d, hd, by omega⟩

end

lemma inDevice_of_lt {p : ℕ} (hd : d ∈ env.getDevice dev)
    (hmod : d.totalSectors % pageCacheSectors = 0) (hp : p < d.totalSectors * sectorSize) :
    InDevice env dev (p / pageCacheBlockSize) := by
  refine ⟨d, hd, ?_⟩
  simp only [pageCacheSectors, sectorSize, pageCacheBlockSize] at *
  omega

/-- **A page inside its device is loaded with the bytes of the device**, if no read fails. -/
lemma Loaded.data_eq (h : Loaded env s s' i dev idx) (hread : ∀ d ∈ env.devices, d.hasRead = true)
    (hok : ∀ n, env.readOk n = true) (hdev : dev.length < 32) (hidx : idx + 1 < 2 ^ 61)
    (hin : InDevice env dev idx) {k : ℕ} (hk : k < pageCacheBlockSize) :
    (s'.pages i).data k = s.disk dev (idx * pageCacheBlockSize + k) := by
  obtain ⟨data, hpages, hdata⟩ := h.pages
  have hname : dev.take 31 = dev := List.take_of_length_le (by omega)
  have hbound : (reset (s.pages i) dev idx).pageIndex + 1 < 2 ^ 61 := hidx
  obtain ⟨d, hd, hle⟩ := hin
  have hend : ¬ pastEnd (reset (s.pages i) dev idx) d := by
    rw [pastEnd_iff hbound]
    exact not_lt.2 hle
  have hbyte := hdata d (hname.symm ▸ hd) (hread d (List.mem_of_find?_eq_some hd)) hend hok k hk
  rw [sector_mul hbound, hname] at hbyte
  rw [hpages, update_self]
  exact hbyte

/-! ## Agreement with an array -/

/-- **The cache and the devices agree with an array**: a page that is cached holds its bytes, and a
byte of a device is one of the array unless its page is dirty. -/
structure Agrees (env : BlockEnv) (arr : Name → ByteMemory) (s : PageCache) : Prop where
  bounded : ∀ i, (s.pages i).valid = true → (s.pages i).pageIndex + 1 < 2 ^ 61
  cached : ∀ i, (s.pages i).valid = true → InDevice env (s.pages i).devName (s.pages i).pageIndex →
    ∀ k < pageCacheBlockSize, (s.pages i).data k =
      arr (s.pages i).devName ((s.pages i).pageIndex * pageCacheBlockSize + k)
  stored : ∀ dev p, InDevice env dev (p / pageCacheBlockSize) →
    (∀ i, (s.pages i).valid = true → (s.pages i).dirty = true → (s.pages i).devName = dev →
      (s.pages i).pageIndex ≠ p / pageCacheBlockSize) → s.disk dev p = arr dev p

namespace Agrees

section

variable (ha : Agrees env arr s)
include ha

/-- Where the pages and their bytes stay, only the bytes of the devices have to be looked at. -/
lemma of_entries (hentry : ∀ j, SameData (s.pages j) (s'.pages j))
    (hstored : ∀ dev p, InDevice env dev (p / pageCacheBlockSize) →
      (∀ i, (s'.pages i).valid = true → (s'.pages i).dirty = true → (s'.pages i).devName = dev →
        (s'.pages i).pageIndex ≠ p / pageCacheBlockSize) → s'.disk dev p = arr dev p) :
    Agrees env arr s' where
  bounded j hj := by
    rw [(hentry j).pageIndex]
    exact ha.bounded j ((hentry j).valid ▸ hj)
  cached j hj hin := by
    rw [(hentry j).devName, (hentry j).pageIndex] at hin ⊢
    rw [(hentry j).data]
    exact ha.cached j ((hentry j).valid ▸ hj) hin
  stored := hstored

lemma congr (hentry : ∀ j, SameData (s.pages j) (s'.pages j))
    (hdirty : ∀ j, (s.pages j).dirty = true → (s'.pages j).dirty = true)
    (hdisk : s'.disk = s.disk) : Agrees env arr s' := by
  refine ha.of_entries hentry fun dev p hin hclean => ?_
  rw [hdisk]
  refine ha.stored dev p hin fun j hv hd hdev => ?_
  rw [← (hentry j).pageIndex]
  exact hclean j ((hentry j).valid.trans hv) (hdirty j hd) ((hentry j).devName.trans hdev)

lemma book (h : Book s s') : Agrees env arr s' :=
  ha.congr h.entry (fun j hd => (h.dirty j).trans hd) h.disk

/-- **A write-back brings the bytes of the array to the device.** -/
lemma flushed (hvalid : (s.pages i).valid = true) (h : Flushed env s s' i) : Agrees env arr s' := by
  have hbound := ha.bounded i hvalid
  obtain ⟨d, hd, hend⟩ := h.device
  have hin := inDevice_of_not_pastEnd hbound hd hend
  refine ha.of_entries (fun j => (h.entry j).1) fun dev p hp hclean => ?_
  -- what the array has outside the page that is written was on the device before
  have hrest : ((s.pages i).devName = dev → (s.pages i).pageIndex ≠ p / pageCacheBlockSize) →
      s.disk dev p = arr dev p := by
    intro hne
    refine ha.stored dev p hp fun j hv hdirty hdev => ?_
    by_cases hji : j = i
    · rw [hji] at hdev ⊢
      exact hne hdev
    · rw [← h.other hji] at hv hdirty hdev ⊢
      exact hclean j hv hdirty hdev
  rw [h.disk, update_apply, sector_mul hbound]
  split
  · next hdev =>
    rw [hdev] at hrest hp ⊢
    by_cases hrange : (s.pages i).pageIndex * pageCacheBlockSize ≤ p ∧
        p < (s.pages i).pageIndex * pageCacheBlockSize + pageCacheBlockSize
    · rw [paste_inside hrange, zero_add, ha.cached i hvalid hin _ (by omega)]
      congr 1
      omega
    · rw [paste_outside hrange]
      refine hrest fun _ hpage => hrange ?_
      simp only [pageCacheBlockSize] at hpage ⊢
      omega
  · next hdev => exact hrest fun heq => absurd heq.symm hdev

lemma torn (hwrite : ∀ n, env.writeOk n = true) (h : Torn env s s' i) : Agrees env arr s' := by
  have hdisk : s'.disk = s.disk := by
    rcases h.disk with hdisk | ⟨d, n, -, -, hfail, -⟩
    · exact hdisk
    · rw [hwrite] at hfail
      cases hfail
  refine ha.congr h.entry (fun j hd => ?_) hdisk
  rwa [h.pages]

lemma dropped (hclean : (s.pages i).dirty = false) (h : Dropped s s' i) : Agrees env arr s' := by
  refine ⟨fun j hj => ?_, fun j hj => ?_, fun dev p hp hdirty => ?_⟩
  · have heq := h.other (h.ne_of_valid hj)
    rw [heq] at hj ⊢
    exact ha.bounded j hj
  · have heq := h.other (h.ne_of_valid hj)
    rw [heq] at hj ⊢
    exact ha.cached j hj
  · rw [h.disk]
    refine ha.stored dev p hp fun j hv hd hdev => ?_
    have hji : j ≠ i := by
      rintro rfl
      cases hclean.symm.trans hd
    rw [← h.other hji] at hv hd hdev ⊢
    exact hdirty j hv hd hdev

/-- **A move keeps the agreement**, if no write fails. -/
theorem move (hwrite : ∀ n, env.writeOk n = true) (h : Move env s s') : Agrees env arr s' := by
  cases h with
  | book h => exact ha.book h
  | flushed i hvalid hdirty h => exact ha.flushed hvalid h
  | torn i hvalid hdirty h => exact ha.torn hwrite h
  | dropped i hvalid hclean hpin h => exact ha.dropped hclean h

theorem moves (hwrite : ∀ n, env.writeOk n = true) (h : Moves env s s') : Agrees env arr s' := by
  induction h with
  | refl => exact ha
  | tail _ hmove ih => exact ih.move hwrite hmove

/-- **A page that is loaded holds the bytes of the array**, for the device does. -/
lemma loaded (hread : ∀ d ∈ env.devices, d.hasRead = true)
    (hok : ∀ n, env.readOk n = true) (hdev : dev.length < 32) (hidx : idx + 1 < 2 ^ 61)
    (hmiss : ∀ j, ¬ ((s.pages j).valid = true ∧ (s.pages j).devName = dev ∧
      (s.pages j).pageIndex = idx)) (hinvalid : (s.pages i).valid = false)
    (h : Loaded env s s' i dev idx) : Agrees env arr s' := by
  obtain ⟨-, -, hname, hindex, -⟩ := h.self hdev
  refine ⟨fun j hj => ?_, fun j hj hin k hk => ?_, fun d p hp hdirty => ?_⟩
  · by_cases hji : j = i
    · rw [hji, hindex]
      exact hidx
    · rw [h.other hji] at hj ⊢
      exact ha.bounded j hj
  · by_cases hji : j = i
    · rw [hji, hname, hindex] at hin ⊢
      have hpage : (idx * pageCacheBlockSize + k) / pageCacheBlockSize = idx := by
        simp only [pageCacheBlockSize] at hk ⊢
        omega
      rw [h.data_eq hread hok hdev hidx hin hk]
      refine ha.stored dev _ (hpage.symm ▸ hin) fun j hv _ hdev' hidx' => ?_
      rw [hpage] at hidx'
      exact hmiss j ⟨hv, hdev', hidx'⟩
    · rw [h.other hji] at hj hin ⊢
      exact ha.cached j hj hin k hk
  · rw [h.disk]
    refine ha.stored d p hp fun j hv hd hdev' => ?_
    have hji : j ≠ i := by
      rintro rfl
      cases hinvalid.symm.trans hv
    rw [← h.other hji] at hv hd hdev' ⊢
    exact hdirty j hv hd hdev'

lemma touch (i : Slot) : Agrees env arr (s.touch i) :=
  ha.congr (fun j => (touch_entry s i j).1) (fun j hd => (touch_entry s i j).2.trans hd) rfl

lemma release (i : Slot) : Agrees env arr (s.release i) := by
  refine ha.congr (fun j => (release_entry s i j).1)
    (fun j hd => (release_entry s i j).2.trans hd) ?_
  unfold PageCache.release
  split <;> rfl

lemma markDirty (i : Slot) : Agrees env arr (s.markDirty i) := by
  refine ha.congr (fun j => (markDirty_entry s i j).1) (fun j =>
    (markDirty_entry s i j).2.2) ?_
  unfold PageCache.markDirty
  split <;> rfl

/-- **Bytes of a page are changed, and the page is dirty**: the array has them too. -/
lemma modify (hc : s.Coherent) (hvalid : (s.pages i).valid = true) {pos src n : ℕ}
    {buf : ByteMemory} (hle : pos + n ≤ pageCacheBlockSize) (hpages : s'.pages = update s.pages i
      { s.pages i with data := (s.pages i).data.paste pos buf src n, dirty := true })
    (hdisk : s'.disk = s.disk) :
    Agrees env (update arr (s.pages i).devName ((arr (s.pages i).devName).paste
      ((s.pages i).pageIndex * pageCacheBlockSize + pos) buf src n)) s' := by
  have hother : ∀ j, j ≠ i → s'.pages j = s.pages j := by
    intro j hj
    rw [hpages, update_of_ne hj]
  have hself : s'.pages i =
      { s.pages i with data := (s.pages i).data.paste pos buf src n, dirty := true } := by
    rw [hpages, update_self]
  -- the array is the same outside the page
  have hrest : ∀ dev p, (dev = (s.pages i).devName →
      p / pageCacheBlockSize ≠ (s.pages i).pageIndex) →
      update arr (s.pages i).devName ((arr (s.pages i).devName).paste
        ((s.pages i).pageIndex * pageCacheBlockSize + pos) buf src n) dev p = arr dev p := by
    intro dev p hne
    rw [update_apply]
    split
    · next hdev =>
      rw [hdev, paste_outside]
      have hpage := hne hdev
      simp only [pageCacheBlockSize] at hpage hle ⊢
      omega
    · rfl
  refine ⟨fun j hj => ?_, fun j hj hin k hk => ?_, fun dev p hp hdirty => ?_⟩
  · by_cases hji : j = i
    · rw [hji, hself]
      exact ha.bounded i hvalid
    · rw [hother j hji] at hj ⊢
      exact ha.bounded j hj
  · by_cases hji : j = i
    · rw [hji, hself] at hin ⊢
      dsimp only at hin ⊢
      rw [update_self]
      have hold := ha.cached i hvalid hin k hk
      by_cases hrange : pos ≤ k ∧ k < pos + n
      · rw [paste_inside hrange, paste_inside (by omega)]
        congr 1
        omega
      · rw [paste_outside hrange, paste_outside (by omega)]
        exact hold
    · rw [hother j hji] at hj hin ⊢
      rw [hrest]
      · exact ha.cached j hj hin k hk
      · intro hdev hpage
        refine hji (hc.slot_unique hj hvalid hdev ?_)
        simp only [pageCacheBlockSize] at hpage hk
        omega
  · rw [hdisk, hrest]
    · refine ha.stored dev p hp fun j hv hd hdev => ?_
      by_cases hji : j = i
      · have hi := hdirty i (by rw [hself]; exact hvalid) (by rw [hself])
        rw [hself] at hi
        rw [hji] at hdev ⊢
        exact hi hdev
      · rw [← hother j hji] at hv hd hdev ⊢
        exact hdirty j hv hd hdev
    · intro hdev hpage
      have hi := hdirty i (by rw [hself]; exact hvalid) (by rw [hself])
      rw [hself] at hi
      exact hi hdev.symm hpage.symm

end

end Agrees

end SubOS.Mm.PageCache
