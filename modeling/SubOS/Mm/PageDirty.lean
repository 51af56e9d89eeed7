import SubOS.Mm.PageIndex

set_option autoImplicit false

/-!
# Dirty pages are not lost

A page that is marked dirty stays in its slot, dirty and in the index, until it has been written
back, whatever writes of the devices fail. A name of 32 or more characters, of which an entry keeps
only the first 31, breaks this: giving up the page of the long name removes the index of another
page.

## Main definitions

* `KeepsDirtyCall`, `GivesUpFairly` — dirty pages stay or are written back; when `evict_one` fails.

## Main results

* `dirty_kept_run`, `dirty_page_unindexed` — runs with short names, and one with a long name.
-/

namespace SubOS.Mm

open Function EventRun

namespace PageCache

variable {env : BlockEnv} {s s' t t' : PageCache} {i j : Slot} {changed : Bool}

/-! ## Pages that stay -/

/-- The page in an entry stays, dirty if it was, and its contents stay unless they are `changed`. -/
structure Stays (changed : Bool) (e e' : PageEntry) : Prop extends Same e e' where
  dirty : e.dirty = true → e'.dirty = true
  data : changed = false → e'.data = e.data

/-- **The page of a slot has been written back** between `s` and `s'`, with the contents it had in
`s`: some moves after `s` it was on its device, and its contents are in the log of `s'`. -/
def WrittenBack (env : BlockEnv) (s : PageCache) (i : Slot) (s' : PageCache) : Prop :=
  ∃ u u', Moves env s u ∧ SameData (s.pages i) (u.pages i) ∧ Flushed env u u' i ∧ u'.log <:+ s'.log

/-- The page of a slot stays or has been written back. -/
def Pending (env : BlockEnv) (changed : Bool) (s : PageCache) (i : Slot) (s' : PageCache) : Prop :=
  Stays changed (s.pages i) (s'.pages i) ∨ WrittenBack env s i s'

lemma Stays.of_sameData {e e' : PageEntry} (h : SameData e e')
    (hdirty : e.dirty = true → e'.dirty = true) : Stays changed e e' :=
  ⟨h.1, hdirty, fun _ => h.data⟩

lemma Stays.refl (e : PageEntry) : Stays changed e e := .of_sameData (.refl e) id

lemma Stays.trans {e e' e'' : PageEntry} (h : Stays changed e e') (h' : Stays changed e' e'') :
    Stays changed e e'' :=
  ⟨h.1.trans h'.1, fun hd => h'.dirty (h.dirty hd), fun hc => (h'.data hc).trans (h.data hc)⟩

lemma Move.log_suffix (h : Move env s s') : s.log <:+ s'.log := by
  cases h with
  | book h => rw [h.log]
  | flushed j hvalid hdirty h =>
    rw [h.log]
    exact List.suffix_cons _ _
  | torn j hvalid hdirty h => rw [h.log]
  | dropped j hvalid hclean hpin h => rw [h.log]

lemma Pending.refl : Pending env changed s i s := .inl (.refl _)

lemma Pending.mono (h : Pending env false s i s') : Pending env changed s i s' :=
  h.imp_left fun h => ⟨h.1, h.dirty, fun _ => h.data rfl⟩

lemma Pending.next (h : Pending env changed s i t) (hlog : t'.log = t.log)
    (hstays : Stays changed (t.pages i) (t'.pages i)) : Pending env changed s i t' := by
  rcases h with h | ⟨u, u', hmoves, hsame, hflushed, hsuffix⟩
  · exact .inl (h.trans hstays)
  · exact .inr ⟨u, u', hmoves, hsame, hflushed, hlog ▸ hsuffix⟩

section

variable (hdirty : (s.pages i).dirty = true)
include hdirty

/-- One move: a dirty page that is not written back stays, since only clean pages are given up. -/
lemma Move.pending (hmoves : Moves env s t) (h : Move env t t') (hp : Pending env false s i t) :
    Pending env false s i t' := by
  rcases hp with hp | ⟨u, u', hmoves', hsame, hflushed, hsuffix⟩
  · cases h with
    | book h => exact .inl (hp.trans (.of_sameData (h.entry i) fun hd => (h.dirty i).trans hd))
    | torn j hvalid _ h =>
      exact .inl (hp.trans (.of_sameData (h.entry i) fun hd => by rw [h.pages, hd]))
    | dropped j hvalid hclean hpin h =>
      have hij : i ≠ j := by
        rintro rfl
        cases hclean.symm.trans (hp.dirty hdirty)
      rw [Pending, h.other hij]
      exact .inl hp
    | flushed j hvalid _ h =>
      by_cases hij : i = j
      · subst hij
        exact .inr ⟨t, t', hmoves, ⟨hp.1, hp.data rfl⟩, h, List.suffix_rfl⟩
      · rw [Pending, h.other hij]
        exact .inl hp
  · exact .inr ⟨u, u', hmoves', hsame, hflushed, hsuffix.trans h.log_suffix⟩

lemma Moves.pending (h : Moves env s t) : Pending env false s i t := by
  induction h with
  | refl => exact .refl
  | tail hmoves hmove ih => exact hmove.pending hdirty hmoves ih

/-- **`page_cache_get` keeps a dirty page until it is written back.** -/
lemma Got.pending (hvalid : (s.pages i).valid = true) {d : Name} {x : ℕ} {r : Option Slot}
    (h : Got env s d x s' r) : Pending env false s i s' := by
  cases h with
  | failed h => exact Moves.pending hdirty h
  | @hit j h =>
    obtain ⟨hsame, hd⟩ := touch_entry s j i
    exact .inl (.of_sameData hsame hd.trans)
  | @loaded t s' j hmiss hmoves hinvalid h =>
    rcases Moves.pending hdirty hmoves with hp | ⟨u, u', hmoves', hsame, hflushed, hsuffix⟩
    · -- the slot of the new page was not valid
      have hij : i ≠ j := by
        rintro rfl
        cases (hp.valid.trans hvalid).symm.trans hinvalid
      rw [Pending, h.other hij]
      exact .inl hp
    · exact .inr ⟨u, u', hmoves', hsame, hflushed, h.log ▸ hsuffix⟩

end

lemma Pending.release (h : Pending env changed s i t) (j : Slot) :
    Pending env changed s i (t.release j) := by
  obtain ⟨hsame, hd⟩ := release_entry t j i
  refine h.next ?_ (.of_sameData hsame hd.trans)
  unfold PageCache.release
  split <;> rfl

lemma Pending.markDirty (h : Pending env changed s i t) (j : Slot) :
    Pending env changed s i (t.markDirty j) := by
  obtain ⟨hsame, -, hd⟩ := markDirty_entry t j i
  refine h.next ?_ (.of_sameData hsame hd)
  unfold PageCache.markDirty
  split <;> rfl

lemma Pending.modify (h : Pending env true s i t) (j : Slot) (pos : ℕ) (buf : ByteMemory)
    (src n : ℕ) : Pending env true s i (t.modify j pos buf src n) :=
  h.next rfl (setEntry_pages .refl ⟨⟨rfl, rfl, rfl⟩, id, nofun⟩ i)

/-! ## When `evict_one` gives up -/

/-- The cache after `n` visits. -/
def sweep (env : BlockEnv) (n : ℕ) (s : PageCache) : PageCache := (fun s => (s.visit env).1)^[n] s

lemma sweep_succ (env : BlockEnv) (n : ℕ) (s : PageCache) :
    sweep env (n + 1) s = ((sweep env n s).visit env).1 :=
  iterate_succ_apply' _ _ _

lemma evictLoop_eq_sweep (env : BlockEnv) (n : ℕ) (s : PageCache) :
    ∃ m ≤ n, (evictLoop env n s).1 = sweep env m s := by
  induction n generalizing s with
  | zero => exact ⟨0, le_rfl, rfl⟩
  | succ n ih =>
    unfold evictLoop
    split
    · next t i heq => exact ⟨1, by omega, (congrArg Prod.fst heq).symm⟩
    · next t heq =>
      obtain ⟨m, hm, hsweep⟩ := ih t
      refine ⟨m + 1, by omega, hsweep.trans ?_⟩
      rw [show t = (s.visit env).1 by rw [heq]]
      exact (iterate_succ_apply _ _ _).symm

lemma visit_none_of_evictLoop {n : ℕ} (h : (evictLoop env n s).2 = none) :
    ∀ m < n, ((sweep env m s).visit env).2 = none := by
  induction n generalizing s with
  | zero =>
    intro m hm
    omega
  | succ n ih =>
    unfold evictLoop at h
    split at h
    · cases h
    · next t heq =>
      intro m hm
      cases m with
      | zero => exact congrArg Prod.snd heq
      | succ m =>
        have ht : t = (s.visit env).1 := by rw [heq]
        have hrest := ih h m (by omega)
        rw [ht] at hrest
        exact hrest

lemma pageWriteToDisk_hand (env : BlockEnv) (s : PageCache) (c i : Slot) :
    ({ s with clockHand := c }.pageWriteToDisk env i).2 = (s.pageWriteToDisk env i).2 := by
  unfold pageWriteToDisk
  dsimp only
  split
  · rfl
  split
  · rfl
  split
  · rfl
  split <;> rfl

lemma flush_snd (env : BlockEnv) (s : PageCache) (i : Slot) :
    (s.flush env i).2 = (s.pageWriteToDisk env i).2 := by
  unfold flush
  dsimp only
  split
  · next h => exact h.symm
  · next h => simpa using h

lemma flush_clockHand (env : BlockEnv) (s : PageCache) (i : Slot) :
    (s.flush env i).1.clockHand = s.clockHand := by
  unfold flush pageWriteToDisk
  dsimp only
  split
  · rfl
  split
  · rfl
  split
  · rfl
  split <;> rfl

/-- What a visit does that finds nothing. -/
inductive Skipped (env : BlockEnv) (s s' : PageCache) (i : Slot) : Prop where
  | pinned (hpin : 0 < (s.pages i).pinCount) (h : s'.pages = s.pages)
  | referenced (hpin : (s.pages i).pinCount = 0) (href : (s.pages i).referenced = true)
      (h : s'.pages = update s.pages i { s.pages i with referenced := false })
  | unflushable (hpin : (s.pages i).pinCount = 0) (href : (s.pages i).referenced = false)
      (hdirty : (s.pages i).dirty = true) (hwrite : (s.pageWriteToDisk env i).2 = false)
      (h : s'.pages = s.pages)

lemma skipped_inspect (h : (s.inspect env i).2 = none) :
    (s.inspect env i).1.clockHand = s.clockHand ∧ Skipped env s (s.inspect env i).1 i := by
  unfold inspect at h ⊢
  dsimp only at h ⊢
  split at h
  · cases h
  next hvalid =>
  rw [if_neg hvalid]
  split at h
  · next hpin =>
    rw [if_pos hpin]
    exact ⟨rfl, .pinned hpin rfl⟩
  next hpin =>
  rw [if_neg hpin]
  have hzero : (s.pages i).pinCount = 0 := by omega
  split at h
  · next href =>
    rw [if_pos href]
    exact ⟨rfl, .referenced hzero href rfl⟩
  next href =>
  rw [if_neg href]
  have href' : (s.pages i).referenced = false := by simpa using href
  by_cases hdirty : (s.pages i).dirty = true
  · rw [if_pos hdirty] at h ⊢
    split at h
    · cases h
    next hfail =>
    rw [if_neg hfail]
    have hfail' : (s.pageWriteToDisk env i).2 = false := by
      rw [← flush_snd]
      simpa using hfail
    refine ⟨flush_clockHand env s i, .unflushable hzero href' hdirty hfail' ?_⟩
    rcases flush_cases env s i with ⟨hok, -⟩ | ⟨-, htorn⟩
    · exact absurd hok hfail
    · exact htorn.pages
  · rw [if_neg hdirty] at h
    simp at h

/-- **A visit that finds nothing.** -/
lemma skipped_visit (h : (s.visit env).2 = none) :
    (s.visit env).1.clockHand = s.clockHand + 1 ∧ Skipped env s (s.visit env).1 s.clockHand := by
  obtain ⟨hhand, hskip⟩ := skipped_inspect h
  refine ⟨hhand, ?_⟩
  cases hskip with
  | pinned hpin h => exact .pinned hpin h
  | referenced hpin href h => exact .referenced hpin href h
  | unflushable hpin href hdirty hwrite h =>
    rw [pageWriteToDisk_hand] at hwrite
    exact .unflushable hpin href hdirty hwrite h

lemma Skipped.other (h : Skipped env s s' i) (hj : j ≠ i) : s'.pages j = s.pages j := by
  cases h with
  | pinned _ h => rw [h]
  | referenced _ _ h => rw [h, update_of_ne hj]
  | unflushable _ _ _ _ h => rw [h]

/-- A slot is pinned after a visit as it was before, or its reference bit is gone. -/
lemma Skipped.self (h : Skipped env s s' i) :
    0 < (s'.pages i).pinCount ∨ (s'.pages i).pinCount = 0 ∧ (s'.pages i).referenced = false := by
  cases h with
  | pinned hpin h =>
    rw [h]
    exact .inl hpin
  | referenced hpin _ h =>
    rw [h, update_self]
    exact .inr ⟨hpin, rfl⟩
  | unflushable hpin href _ _ h =>
    rw [h]
    exact .inr ⟨hpin, href⟩

section Sweep

variable {n : ℕ} (hnone : ∀ m < n, ((sweep env m s).visit env).2 = none)

include hnone

lemma sweep_clockHand {m : ℕ} (hm : m ≤ n) :
    (sweep env m s).clockHand = s.clockHand + Fin.ofNat 64 m := by
  induction m with
  | zero => simp [sweep]
  | succ m ih =>
    rw [sweep_succ, (skipped_visit (hnone m (by omega))).1, ih (by omega)]
    ext
    simp only [Fin.val_add, Fin.val_ofNat, Fin.val_one]
    omega

lemma sweep_pages {m k : ℕ} (hk : m + k ≤ n)
    (hother : ∀ l < k, (sweep env (m + l) s).clockHand ≠ i) :
    (sweep env (m + k) s).pages i = (sweep env m s).pages i := by
  induction k with
  | zero => rfl
  | succ k ih =>
    have hskip := (skipped_visit (hnone (m + k) (by omega))).2
    rw [← Nat.add_assoc, sweep_succ, hskip.other (hother k (by omega)).symm,
      ih (by omega) fun l hl => hother l (by omega)]

end Sweep

/-- **`evict_one` gives up only if every slot, when it is visited for the last time, is pinned, or
dirty with a write-back that fails.**

**Proof sketch.** If nothing is found, all slots are visited twice, 64 visits apart, and nothing
else touches a slot in between. The first visit takes away the reference bit of a slot that is not
pinned, so the second one comes to the write-back. -/
theorem evictOne_null (h : (s.evictOne env).2 = none) (i : Slot) :
    ∃ n < 64 * 2, (sweep env n s).clockHand = i ∧
      (∀ m, n < m → m < 64 * 2 → (sweep env m s).clockHand ≠ i) ∧
      (0 < ((sweep env n s).pages i).pinCount ∨ ((sweep env n s).pages i).dirty = true ∧
        ((sweep env n s).pageWriteToDisk env i).2 = false) := by
  have hnone := visit_none_of_evictLoop h
  have hhand : ∀ m ≤ 64 * 2, (sweep env m s).clockHand = s.clockHand + Fin.ofNat 64 m :=
    fun m hm => sweep_clockHand hnone hm
  -- the first visit of the slot is visit `k`, and the second is visit `k + 64`
  obtain ⟨k, hk⟩ : ∃ k, k = (i - s.clockHand).val := ⟨_, rfl⟩
  have hat : ∀ m ≤ 64 * 2, ((sweep env m s).clockHand = i ↔ m % 64 = k) := by
    intro m hm
    rw [hhand m hm, Fin.ext_iff, Fin.val_add, Fin.val_ofNat, hk, Fin.sub_def]
    simp only
    omega
  have hfirst : (sweep env k s).clockHand = i := (hat k (by omega)).2 (by omega)
  have hsecond : (sweep env (k + 64) s).clockHand = i := (hat _ (by omega)).2 (by omega)
  refine ⟨k + 64, by omega, hsecond, fun m hm hm' heq => ?_, ?_⟩
  · have hmod := (hat m (by omega)).1 heq
    omega
  · have hafter := (skipped_visit (hnone k (by omega))).2
    rw [hfirst, ← sweep_succ] at hafter
    have hsame : (sweep env (k + 64) s).pages i = (sweep env (k + 1) s).pages i := by
      rw [show k + 64 = k + 1 + 63 by omega]
      refine sweep_pages hnone (by omega) fun l hl heq => ?_
      have hmod := (hat _ (by omega)).1 heq
      omega
    have hlast := (skipped_visit (hnone (k + 64) (by omega))).2
    rw [hsecond] at hlast
    cases hlast with
    | pinned hpin _ => exact .inl hpin
    | referenced hpin href _ =>
      rw [hsame] at hpin href
      rcases hafter.self with hpin' | ⟨-, href'⟩
      · exact absurd hpin hpin'.ne'
      · cases href.symm.trans href'
    | unflushable _ _ hdirty hwrite _ => exact .inr ⟨hdirty, hwrite⟩

/-! ## Rounds of a call -/

/-- The states of a call: before it, after each round of `page_cache_read` and `page_cache_write`,
which give up and dirty pages as they go, and after it. -/
def rounds (env : BlockEnv) (s : PageCache) : Event → List PageCache
  | .read dev offset len =>
    (List.range (len + 1)).map fun n => (readLoop env dev offset len n s []).1
  | .write dev offset buf =>
    (List.range (buf.length + 1)).map fun n => (writeLoop env dev offset buf n s 0).1
  | e => [s, s.step env e]

/-- The call changes bytes of pages. -/
def Event.changes : Event → Bool
  | .write .. | .poke .. => true
  | _ => false

/-- **The dirty pages of `s` are kept until they are written back**: in `s'` each is in its slot,
dirty and in the index, with its contents unless they are `changed`, or it has been written back
with the contents it had in `s`. -/
def KeepsDirty (env : BlockEnv) (changed : Bool) (s s' : PageCache) : Prop :=
  ∀ i, (s.pages i).valid = true → (s.pages i).dirty = true →
    (Stays changed (s.pages i) (s'.pages i) ∧ s'.index (key (s.pages i)) = some i) ∨
      WrittenBack env s i s'

/-- A call goes from `s` to its result in rounds that keep the dirty pages. -/
structure KeepsDirtyCall (env : BlockEnv) (s : PageCache) (e : Event) : Prop where
  first : (rounds env s e).head? = some s
  last : (rounds env s e).getLast? = some (s.step env e)
  kept : (rounds env s e).IsChain (KeepsDirty env e.changes)

lemma Coherent.keepsDirty (hc : s'.Coherent) (h : ∀ i, (s.pages i).valid = true →
      (s.pages i).dirty = true → Pending env changed s i s') : KeepsDirty env changed s s' := by
  refine fun i hv hd => (h i hv hd).imp_left
    fun hs => ⟨hs, (hc.index_iff _ _).2 ⟨hs.valid.trans hv, ?_⟩⟩
  unfold key
  rw [hs.devName, hs.pageIndex]

section Loops

variable (env s) (dev : Name) (offset len : ℕ) (buf : List UInt8) (n : ℕ)

/-- One more round of `page_cache_read`: the loop has ended, or it gets a page and releases it. -/
lemma readLoop_succ (out : List UInt8) :
    readLoop env dev offset len (n + 1) s out = readLoop env dev offset len n s out ∨
      readLoop env dev offset len (n + 1) s out = readLoop env dev offset len 1
        (readLoop env dev offset len n s out).1 (readLoop env dev offset len n s out).2 := by
  induction n generalizing s out with
  | zero => exact .inr rfl
  | succ n ih =>
    rw [readLoop.eq_def env dev offset len (n + 1 + 1), readLoop.eq_def env dev offset len (n + 1)]
    dsimp only
    split
    · split
      · exact .inl rfl
      · exact ih _ _
    · exact .inl rfl

lemma writeLoop_succ (done : ℕ) :
    writeLoop env dev offset buf (n + 1) s done = writeLoop env dev offset buf n s done ∨
      writeLoop env dev offset buf (n + 1) s done = writeLoop env dev offset buf 1
        (writeLoop env dev offset buf n s done).1 (writeLoop env dev offset buf n s done).2 := by
  induction n generalizing s done with
  | zero => exact .inr rfl
  | succ n ih =>
    rw [writeLoop.eq_def env dev offset buf (n + 1 + 1),
      writeLoop.eq_def env dev offset buf (n + 1)]
    dsimp only
    split
    · split
      · exact .inl rfl
      · exact ih _ _
    · exact .inl rfl

variable {env s}

section

variable (hvalid : (s.pages i).valid = true) (hdirty : (s.pages i).dirty = true)
include hvalid hdirty

lemma pending_readRound (out : List UInt8) :
    Pending env false s i (readLoop env dev offset len 1 s out).1 := by
  have hgot := got env s dev ((offset + out.length) % 2 ^ 64 / pageCacheBlockSize)
  unfold readLoop
  dsimp only
  split
  · generalize get env s dev ((offset + out.length) % 2 ^ 64 / pageCacheBlockSize) = r at hgot ⊢
    obtain ⟨t, slot⟩ := r
    cases slot with
    | none => exact hgot.pending hdirty hvalid
    | some j => exact (hgot.pending hdirty hvalid).release j
  · exact .refl

lemma pending_writeRound (done : ℕ) :
    Pending env true s i (writeLoop env dev offset buf 1 s done).1 := by
  have hgot := got env s dev ((offset + done) % 2 ^ 64 / pageCacheBlockSize)
  unfold writeLoop
  dsimp only
  split
  · generalize get env s dev ((offset + done) % 2 ^ 64 / pageCacheBlockSize) = r at hgot ⊢
    obtain ⟨t, slot⟩ := r
    cases slot with
    | none => exact (hgot.pending hdirty hvalid).mono
    -- the page is changed after the write-backs of the round
    | some j =>
      have hp : Pending env true s i t := (hgot.pending hdirty hvalid).mono
      exact ((hp.modify j _ _ _ _).markDirty j).release j
  · exact .refl

end

lemma readLoop_uninitialized (h : s.initialized = false) :
    (readLoop env dev offset len n s []).1 = s := by
  cases n with
  | zero => rfl
  | succ n =>
    simp only [readLoop, get, if_pos h]
    split <;> rfl

lemma writeLoop_uninitialized (h : s.initialized = false) :
    (writeLoop env dev offset buf n s 0).1 = s := by
  cases n with
  | zero => rfl
  | succ n =>
    simp only [writeLoop, get, if_pos h]
    split <;> rfl

end Loops

lemma head?_map_range {n : ℕ} (f : ℕ → PageCache) :
    ((List.range (n + 1)).map f).head? = some (f 0) := by
  rw [List.range_succ_eq_map]
  rfl

lemma getLast?_map_range {n : ℕ} (f : ℕ → PageCache) :
    ((List.range (n + 1)).map f).getLast? = some (f n) := by
  rw [List.range_succ, List.map_append, List.map_singleton, List.getLast?_concat]

lemma KeepsDirtyCall.of_pair {e : Event} (hrounds : rounds env s e = [s, s.step env e])
    (hc : (s.step env e).Coherent) (h : ∀ i, (s.pages i).valid = true →
      (s.pages i).dirty = true → Pending env e.changes s i (s.step env e)) :
    KeepsDirtyCall env s e := by
  refine ⟨?_, ?_, ?_⟩ <;> rw [hrounds]
  · rfl
  · rfl
  · exact List.isChain_pair.2 (hc.keepsDirty h)

/-- **A call keeps the dirty pages until they are written back.** -/
theorem Coherent.keepsDirtyCall (hc : s.Coherent) (hnode : ∀ n, env.nodeOk n = true) {e : Event}
    (he : ShortNames e) : KeepsDirtyCall env s e := by
  have hnext := hc.step hnode he
  cases e with
  | read dev offset len =>
    refine ⟨head?_map_range _, (getLast?_map_range _).trans ?_, ?_⟩
    · simp only [PageCache.step, PageCache.read]
      split
      · next h => rw [readLoop_uninitialized dev offset len len h]
      · rfl
    · refine (List.isChain_map _).2 ((List.isChain_range_succ _ _).2 fun n _ => ?_)
      refine (hc.readLoop hnode he offset len (n + 1) []).keepsDirty fun i hv hd => ?_
      rcases readLoop_succ env s dev offset len n [] with heq | heq
      · rw [heq]
        exact .refl
      · rw [heq]
        exact pending_readRound dev offset len hv hd _
  | write dev offset buf =>
    refine ⟨head?_map_range _, (getLast?_map_range _).trans ?_, ?_⟩
    · simp only [PageCache.step, PageCache.write]
      split
      · next h => rw [writeLoop_uninitialized dev offset buf buf.length h]
      · rfl
    · refine (List.isChain_map _).2 ((List.isChain_range_succ _ _).2 fun n _ => ?_)
      refine (hc.writeLoop hnode he offset buf (n + 1) 0).keepsDirty fun i hv hd => ?_
      rcases writeLoop_succ env s dev offset buf n 0 with heq | heq
      · rw [heq]
        exact .refl
      · rw [heq]
        exact pending_writeRound dev offset buf hv hd _
  | get d x => exact .of_pair rfl hnext fun i hv hd => (PageCache.got env s d x).pending hd hv
  | release j => exact .of_pair rfl hnext fun i _ _ => Pending.refl.release j
  | markDirty j => exact .of_pair rfl hnext fun i _ _ => Pending.refl.markDirty j
  | poke j pos value => exact .of_pair rfl hnext fun i _ _ => Pending.refl.modify j _ _ _ _
  | sync d => exact .of_pair rfl hnext fun i _ hd => Moves.pending hd (syncDev_moves env s d)
  | invalidate d =>
    exact .of_pair rfl hnext fun i _ hd => Moves.pending hd (invalidate_moves env s d)
  | dropAll => exact .of_pair rfl hnext fun i _ hd => Moves.pending hd (dropAll_moves env s)

/-! ## Runs -/

/-- `evict_one` gives up for a reason: it makes at most 128 visits, and if it finds no slot, then
each slot, when it is visited for the last time, is pinned, or dirty with a write-back that fails.
-/
def GivesUpFairly (env : BlockEnv) (s : PageCache) : Prop :=
  (∃ n ≤ 64 * 2, (s.evictOne env).1 = sweep env n s) ∧
    ((s.evictOne env).2 = none → ∀ i : Slot, ∃ n < 64 * 2, (sweep env n s).clockHand = i ∧
      (∀ m, n < m → m < 64 * 2 → (sweep env m s).clockHand ≠ i) ∧
      (0 < ((sweep env n s).pages i).pinCount ∨ ((sweep env n s).pages i).dirty = true ∧
        ((sweep env n s).pageWriteToDisk env i).2 = false))

/-- **Dirty pages are not lost** in any run with short names in which the hash table finds memory,
whatever transfers of the devices fail: in every round of every call a page that is dirty before it
stays dirty and in the index, or is written back with the contents it had then; and `evict_one`
gives up only for a reason, in any state. -/
theorem dirty_kept_run (env : BlockEnv) (created : Bool) (disk : Name → ByteMemory)
    (es : List Event) (hnode : ∀ n, env.nodeOk n = true) (hnames : ∀ e ∈ es, ShortNames e) :
    Along (step env) (KeepsDirtyCall env) (init created disk) es ∧ ∀ s, GivesUpFairly env s := by
  refine ⟨?_, fun s => ⟨evictLoop_eq_sweep env _ s, evictOne_null⟩⟩
  refine along_of_along (fun s e (hc : s.Coherent) he => ?_) (coherent_init created disk)
    (along_of_mem hnames)
  exact ⟨hc.keepsDirtyCall hnode he, hc.step hnode he⟩

/-- A device of one page that cannot be written. -/
def brokenDisk : BlockEnv where
  devices := [⟨['d'], 8, false, true, true, pageCacheSectors_lt⟩]
  readOk _ := true
  writeOk _ := false
  torn _ := 0
  dataOk _ := true
  nodeOk _ := true

/-- A page of that device is written and stays dirty when all pages are to be dropped. -/
theorem dirty_kept_run_broken :
    Along (step brokenDisk) (KeepsDirtyCall brokenDisk) (init true fun _ _ => 0)
        [.write ['d'] 0 [7], .dropAll] ∧
      (((run (step brokenDisk) (init true fun _ _ => 0) [.write ['d'] 0 [7], .dropAll]).pages
        0).dirty = true) :=
  ⟨(dirty_kept_run brokenDisk true (fun _ _ => 0) _ (fun _ => rfl) (by decide)).1,
    by decide +kernel⟩

/-- A device whose name has 31 characters. -/
def longNamedDisk : BlockEnv where
  devices := [⟨List.replicate 31 'd', 8, false, true, true, by decide⟩]
  readOk _ := true
  writeOk _ := true
  torn _ := 0
  dataOk _ := true
  nodeOk _ := true

/-- A page is written and is dirty. Then a page is got under a name with one character more, and
given up: this takes the first page from the index, and nothing has been written back. -/
theorem dirty_page_unindexed :
    ∃ s, s = run (step longNamedDisk) (init true fun _ _ => 0)
        [.write (List.replicate 31 'd') 0 [7], .get (List.replicate 32 'd') 0, .release 1] ∧
      (s.pages 0).valid = true ∧ (s.pages 0).dirty = true ∧
      (s.pages 0).devName = List.replicate 31 'd' ∧ (s.pages 0).pageIndex = 0 ∧
      s.index (makeKey (List.replicate 31 'd') 0) = some 0 ∧
      (s.step longNamedDisk (.invalidate none)).index (makeKey (List.replicate 31 'd') 0) = none ∧
      (s.step longNamedDisk (.invalidate none)).log.length = 0 :=
  ⟨_, rfl, by decide +kernel⟩

end PageCache

end SubOS.Mm
