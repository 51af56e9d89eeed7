import Mathlib.Data.Nat.Pairing
import SubOS.Net.Http.Handoff

set_option autoImplicit false

/-!
# Every job of the HTTP client comes to its end

A released job that is not freed yet is in the hands of the worker, or in the call that released
it; an installed job that is not taken yet is in the mailbox. In both cases every further step of
that thread brings the job nearer to its end, so that under a fair schedule it gets there.

## Main definitions

* `Fair` — the worker goes on again and again, and every fetch ends.

## Main results

* `handed_over` — jobs are handed over properly, and freed in the end.
-/

namespace SubOS.Net.Http

open Nat Schedule

/-- The worker goes on again and again and every fetch returns; every call goes on. -/
structure Fair {F : Type} (sched : ℕ → Event F) : Prop where
  worker : ∀ n, ∃ m ≥ n, sched m = .worker .done ∨ sched m = .worker .error
  calls : ∀ t n, ∃ m ≥ n, ∃ ans, sched m = .call t ans

namespace HttpClient

variable {F : Type} {s : HttpClient F} {stage : ℕ → Stage} {j : ℕ}

/-- The job is in the mailbox or with the worker. -/
def WithWorker (s : HttpClient F) (j : ℕ) : Prop :=
  s.mailbox = some j ∨ s.worker.fetching = some j ∨ s.worker.dooming = some j

/-- The steps of the worker until it has freed job `j`: with another job in hand it first has to
finish that one. -/
def distance (j : ℕ) : WorkerPc → ℕ
  | .freeJob i => if i = j then 1 else 6
  | .freeBuf i => if i = j then 2 else 7
  | .finalize i _ => if i = j then 3 else 8
  | .fetch i => if i = j then 4 else 9
  | .take => 5

/-! ### What the steps leave alone -/

lemma mem_note {i : ℕ} {o o' : Obs} (h : o ∈ s.hist j) : o ∈ (s.note i o').hist j := by
  by_cases hij : j = i
  · subst hij
    simp [note, h]
  · simpa [note, hij] using h

/-- Histories only grow; the worker, a full mailbox and the calls of `keep` stay as they are. -/
structure Frame (keep : ℕ → Prop) (s s' : HttpClient F) : Prop where
  hist : ∀ j, s.hist j ⊆ s'.hist j
  worker : s'.worker = s.worker
  mailbox : ∀ j, s.mailbox = some j → s'.mailbox = some j
  calls : ∀ t, keep t → s'.calls t = s.calls t

namespace Frame

variable {keep : ℕ → Prop} {s' : HttpClient F}

lemma refl : Frame keep s s := ⟨fun _ => List.Subset.refl _, rfl, fun _ h => h, fun _ _ => rfl⟩

lemma setJob (h : Frame keep s s') (i : ℕ) (f : HttpFetch F) : Frame keep s (s'.setJob i f) :=
  { h with }

lemma note (h : Frame keep s s') (i : ℕ) (o : Obs) : Frame keep s (s'.note i o) :=
  { h with hist := fun j _ ho => mem_note (h.hist j ho) }

lemma goto {u : ℕ} (h : Frame keep s s') (hu : ¬ keep u) (pc : CallPc) :
    Frame keep s (s'.goto u pc) where
  __ := h
  calls t ht := by
    have hne : t ≠ u := by
      rintro rfl
      exact hu ht
    exact (Function.update_of_ne hne _ _).trans (h.calls t ht)

end Frame

lemma workerStep_frame (f : FetchStep F) :
    (∀ j, s.hist j ⊆ (s.workerStep f s.worker).hist j) ∧
      (s.workerStep f s.worker).calls = s.calls := by
  cases s.worker with
  | take =>
    rw [workerStep]
    cases s.mailbox with
    | none => exact ⟨fun _ _ h => h, rfl⟩
    | some i => exact ⟨fun _ _ h => mem_note h, rfl⟩
  | fetch i =>
    cases f with
    | access g => exact ⟨fun _ _ h => mem_note h, rfl⟩
    | done | error => exact ⟨fun _ _ h => h, rfl⟩
  | finalize i r =>
    rw [workerStep, finalizeSection]
    split <;> exact ⟨fun _ _ h => mem_note h, rfl⟩
  | freeBuf i => exact ⟨fun _ _ h => mem_note (mem_note h), rfl⟩
  | freeJob i => exact ⟨fun _ _ h => mem_note h, rfl⟩

section Steps

variable [Inhabited F]

lemma callStep_frame {keep : ℕ → Prop} {u : ℕ} (hu : ¬ keep u) (ans : Answer F) (pc : CallPc) :
    Frame keep s (s.callStep u ans pc) := by
  cases pc with
  | idle => exact .refl
  | look => exact Frame.refl.goto hu _
  | alloc =>
    rw [callStep]
    split
    · have hnext : Frame keep s { s with nextJob := s.nextJob + 1 } := { Frame.refl with }
      exact (hnext.setJob _ _).goto hu _
    · exact Frame.refl.goto hu _
  | allocBuf i =>
    rw [callStep]
    split
    · exact ((Frame.refl.setJob i _).note i _).goto hu _
    · exact (Frame.refl.note i _).goto hu _
  | fill i | parse i => exact ((Frame.refl.setJob i _).note i _).goto hu _
  | install i =>
    rw [callStep]
    split
    · exact Frame.refl.goto hu _
    · rename_i hmb
      have hput : Frame keep s { s with mailbox := some i } :=
        { Frame.refl with mailbox := fun _ h => by simp [h] at hmb }
      exact (hput.note i _).goto hu _
  | dropBuf i | closeBuf i => exact ((Frame.refl.note i _).note i _).goto hu _
  | drop i | close i => exact (Frame.refl.note i _).goto hu _

/-- An event that is none of the worker's changes a call only from rest or by its own step. -/
lemma step_frame (e : Event F) (he : ∀ f, e ≠ .worker f) :
    Frame (fun t => s.calls t ≠ .idle ∧ ∀ ans, e ≠ .call t ans) s (s.step e) := by
  cases e with
  | worker f => exact absurd rfl (he f)
  | call u ans => exact callStep_frame (fun h => h.2 ans rfl) ans _
  | start u valid =>
    unfold step
    dsimp only
    split_ifs with hc
    · exact Frame.refl.goto (fun h => h.1 hc.1) _
    · exact .refl
  | poll i | inspect i =>
    unfold step
    dsimp only
    split
    · exact Frame.refl.note i _
    · exact .refl
  | release u i =>
    unfold step releaseSection
    dsimp only
    split_ifs with hc
    · exact ((Frame.refl.note i _).setJob i _).note i _
    · exact ((Frame.refl.note i _).note i _).goto (fun h => h.1 hc.1) _
    · exact .refl

lemma mem_step {o : Obs} (e : Event F) (h : o ∈ s.hist j) : o ∈ (s.step e).hist j := by
  by_cases he : ∃ f, e = .worker f
  · obtain ⟨f, rfl⟩ := he
    exact (workerStep_frame f).1 j h
  · exact (step_frame e (not_exists.1 he)).hist j h

end Steps

/-! ### The worker's progress -/

/-- A step of the worker brings it nearer to freeing job `j`, unless it is an access of `do_fetch`
after which the fetch goes on. -/
def Nearer (j : ℕ) (f : FetchStep F) (w w' : WorkerPc) : Prop :=
  distance j w' ≤ distance j w ∧ (f = .done ∨ f = .error → distance j w' < distance j w)

lemma Nearer.of_lt {f : FetchStep F} {w w' : WorkerPc} (h : distance j w' < distance j w) :
    Nearer j f w w' :=
  ⟨le_of_lt h, fun _ => h⟩

lemma Nearer.access {g : F → F} {w : WorkerPc} : Nearer j (.access g) w w :=
  ⟨le_refl _, fun h => by rcases h with h | h <;> exact nomatch h⟩

attribute [local simp] workerGoto distance HttpClient.workerStep workerStep

/-- With another job in hand and none to fetch next, every step of the worker comes nearer to the
job in the mailbox. -/
lemma nearer_other {f : FetchStep F}
    (hother : ∀ i, s.worker.fetching = some i ∨ s.worker.dooming = some i → i ≠ j)
    (htake : s.worker ≠ .take) :
    Nearer j f s.worker (s.workerStep f s.worker).worker ∧
      (s.workerStep f s.worker).mailbox = s.mailbox := by
  cases hpc : s.worker with
  | take => exact absurd hpc htake
  | fetch i =>
    have hne := hother i (.inl (by rw [hpc]; rfl))
    cases f with
    | access g => exact ⟨by rw [workerStep]; exact hpc ▸ .access, rfl⟩
    | done | error => exact ⟨.of_lt (by simp [hne]), rfl⟩
  | finalize i r =>
    have hne := hother i (.inl (by rw [hpc]; rfl))
    rw [workerStep, finalizeSection]
    split <;> exact ⟨.of_lt (by simp [hne]), rfl⟩
  | freeBuf i | freeJob i =>
    have hne := hother i (.inr (by rw [hpc]; rfl))
    exact ⟨.of_lt (by simp [hne]), rfl⟩

/-- The worker with a job in the mailbox: it takes it, or comes nearer to doing so. -/
lemma Inv.queued_progress (h : Inv s stage) (hmb : s.mailbox = some j) (f : FetchStep F) :
    .taken ∈ (s.workerStep f s.worker).hist j ∧ s.worker = .take ∧
        (s.workerStep f s.worker).worker = .fetch j ∨
      (s.workerStep f s.worker).mailbox = some j ∧
        Nearer j f s.worker (s.workerStep f s.worker).worker := by
  have hst := (h.refs.mailbox j).1 hmb
  have hother : ∀ i, s.worker.fetching = some i ∨ s.worker.dooming = some i → i ≠ j := by
    rintro i hi rfl
    rcases hi with hi | hi
    · rw [(h.refs.fetching i).1 hi] at hst
      exact nomatch hst
    · rw [(h.refs.dooming i).1 hi] at hst
      exact nomatch hst
  by_cases htake : s.worker = .take
  · left
    rw [htake, HttpClient.workerStep, hmb]
    exact ⟨by simp [note, HttpClient.workerGoto], rfl, rfl⟩
  · obtain ⟨hnear, hmail⟩ := nearer_other hother htake
    exact .inr ⟨hmail.trans hmb, hnear⟩

/-- The worker with a released job in the mailbox or in hand: it frees it, or comes nearer to
doing so. -/
lemma Inv.released_progress (h : Inv s stage) (hrel : .released ∈ s.hist j)
    (hw : s.WithWorker j) (f : FetchStep F) :
    .freed ∈ (s.workerStep f s.worker).hist j ∨
      (s.workerStep f s.worker).WithWorker j ∧
        Nearer j f s.worker (s.workerStep f s.worker).worker := by
  rcases hw with hmb | hf | hd
  · right
    rcases h.queued_progress hmb f with ⟨-, htake, hfetch⟩ | ⟨hmb', hnear⟩
    · refine ⟨.inr (.inl (by rw [hfetch]; rfl)), .of_lt ?_⟩
      rw [hfetch, htake]
      simp
    · exact ⟨.inl hmb', hnear⟩
  · obtain ⟨-, -, hab, -⟩ := h.fits_fetching hf
    right
    cases hpc : s.worker with
    | fetch i =>
      rw [hpc] at hf
      cases hf
      cases f with
      | access g =>
        have hstay : (s.workerStep (.access g) (.fetch j)).worker = .fetch j := hpc
        exact ⟨.inr (.inl (by rw [hstay]; rfl)), by rw [hstay]; exact .access⟩
      | done | error =>
        exact ⟨.inr (.inl rfl), .of_lt (by simp)⟩
    | finalize i r =>
      rw [hpc] at hf
      cases hf
      rw [HttpClient.workerStep, HttpClient.finalizeSection, if_pos (hab.2 hrel)]
      exact ⟨.inr (.inr rfl), .of_lt (by simp)⟩
    | _ =>
      rw [hpc] at hf
      cases hf
  · cases hpc : s.worker with
    | freeBuf i =>
      rw [hpc] at hd
      cases hd
      exact .inr ⟨.inr (.inr rfl), .of_lt (by simp)⟩
    | freeJob i =>
      rw [hpc] at hd
      cases hd
      left
      simp [note]
    | _ =>
      rw [hpc] at hd
      cases hd

/-! ### Where an unfinished job is -/

lemma Inv.taken_or_queued (h : Inv s stage) (hi : .installed ∈ s.hist j) :
    .taken ∈ s.hist j ∨ s.mailbox = some j := by
  have hfits := h.fits j
  generalize hst : stage j = st at hfits
  cases st with
  | unborn => exact absurd hi hfits.not_mem
  | building t => rcases hfits.2.2 _ hi with h | h <;> exact nomatch h
  | queued => exact .inr ((h.refs.mailbox j).2 hst)
  | dead => exact .inl (hfits.2 hi)
  | fetching | closing t => exact .inl hfits.2.2.2
  | doomed => exact .inl hfits.2.2
  | settled => exact .inl hfits.2.2.2.2

/-- A released job that has not been freed is with the worker or in the call that released it. -/
lemma Inv.freed_or_custody (h : Inv s stage) (hr : .released ∈ s.hist j) :
    .freed ∈ s.hist j ∨ s.WithWorker j ∨ ∃ t, (s.calls t).closing = some j := by
  have hfits := h.fits j
  generalize hst : stage j = st at hfits
  cases st with
  | unborn => exact absurd hr hfits.not_mem
  | building t => rcases hfits.2.2 _ hr with h | h <;> exact nomatch h
  | queued => exact .inr (.inl (.inl ((h.refs.mailbox j).2 hst)))
  | fetching => exact .inr (.inl (.inr (.inl ((h.refs.fetching j).2 hst))))
  | doomed => exact .inr (.inl (.inr (.inr ((h.refs.dooming j).2 hst))))
  | settled => exact absurd hr hfits.2.2.2.1
  | closing t => exact .inr (.inr ⟨t, (h.refs.closing t j).2 hst⟩)
  | dead => exact .inl hfits.1

section Runs

variable [Inhabited F] {sched : ℕ → Event F} {n : ℕ}

lemma inv_stateAt (sched : ℕ → Event F) (n : ℕ) :
    ∃ stage, Inv (stateAt step (init : HttpClient F) sched n) stage :=
  stateAt_invariant (I := fun s => ∃ stage, Inv s stage)
    (fun _ e ⟨_, h⟩ => h.step e) ⟨_, inv_init⟩ n

/-- What the other events keep and every step of the worker brings nearer is reached. -/
lemma eventually_by_worker (hfair : Fair sched) {P Q : HttpClient F → Prop}
    (hkeep : ∀ s e, (∀ f, e ≠ .worker f) → P s → P (s.step e))
    (hwork : ∀ s stage f, Inv s stage → P s → Q (s.step (.worker f)) ∨
      P (s.step (.worker f)) ∧ Nearer j f s.worker (s.step (.worker f)).worker)
    (hP : P (stateAt step init sched n)) : ∃ m ≥ n, Q (stateAt step init sched m) := by
  refine eventually_of_rank (fun s => ∃ stage, Inv s stage) P Q
    (fun s => distance j s.worker) (fun e => e = .worker .done ∨ e = .worker .error)
    (inv_stateAt sched) hfair.worker ?_ hP
  rintro s e ⟨stage, h⟩ hP
  by_cases he : ∃ f, e = .worker f
  · obtain ⟨f, rfl⟩ := he
    rcases hwork s stage f h hP with hQ | ⟨hP', hle, hlt⟩
    · exact .inl hQ
    · exact .inr ⟨hP', hle, fun hp => hlt (by simpa using hp)⟩
  · rw [not_exists] at he
    refine .inr ⟨hkeep s e he hP, by rw [(step_frame e he).worker], fun hp => ?_⟩
    rcases hp with rfl | rfl <;> exact absurd rfl (he _)

lemma eventually_taken (hfair : Fair sched) (hmb : (stateAt step init sched n).mailbox = some j) :
    ∃ m ≥ n, .taken ∈ (stateAt step init sched m).hist j :=
  eventually_by_worker (Q := fun s => .taken ∈ s.hist j) hfair
    (fun _ e he hmb => (step_frame e he).mailbox j hmb)
    (fun _ _ f h hmb => (h.queued_progress hmb f).imp_left fun ht => ht.1) hmb

lemma eventually_freed_by_worker (hfair : Fair sched)
    (hrel : .released ∈ (stateAt step init sched n).hist j)
    (hw : (stateAt step init sched n).WithWorker j) :
    ∃ m ≥ n, .freed ∈ (stateAt step init sched m).hist j := by
  refine eventually_by_worker (P := fun s => .released ∈ s.hist j ∧ s.WithWorker j)
    (Q := fun s => .freed ∈ s.hist j) (j := j) hfair
    (fun s e he hP => ⟨mem_step e hP.1, ?_⟩) (fun s stage f h hP => ?_) ⟨hrel, hw⟩
  · unfold WithWorker
    rw [(step_frame e he).worker]
    exact hP.2.imp_left ((step_frame e he).mailbox j)
  · exact (h.released_progress hP.1 hP.2 f).imp_right
      fun hnear => ⟨⟨mem_step _ hP.1, hnear.1⟩, hnear.2⟩

lemma eventually_freed_by_call (hfair : Fair sched) {t : ℕ}
    (hc : ((stateAt step init sched n).calls t).closing = some j) :
    ∃ m ≥ n, .freed ∈ (stateAt step init sched m).hist j := by
  refine eventually_of_rank (fun _ => True)
    (fun s : HttpClient F => (s.calls t).closing = some j) (fun s => .freed ∈ s.hist j)
    (fun s => if s.calls t = .closeBuf j then 1 else 0) (fun e => ∃ ans, e = .call t ans)
    (fun _ => trivial) (hfair.calls t) ?_ hc
  intro s e _ hc
  by_cases he : ∃ ans, e = .call t ans
  · obtain ⟨ans, rfl⟩ := he
    cases hpc : s.calls t with
    | closeBuf i =>
      rw [hpc] at hc
      cases hc
      have hclose : (s.step (.call t ans)).calls t = .close j := by
        unfold step
        dsimp only
        rw [hpc]
        exact Function.update_self ..
      exact .inr ⟨by rw [hclose]; rfl, by simp [hclose], fun _ => by simp [hclose]⟩
    | close i =>
      rw [hpc] at hc
      cases hc
      left
      unfold step
      dsimp only
      rw [hpc]
      simp [callStep, goto, note]
    | _ =>
      rw [hpc] at hc
      cases hc
  · rw [not_exists] at he
    have hbusy : s.calls t ≠ .idle := by
      intro hidle
      rw [hidle] at hc
      cases hc
    have hsame : (s.step e).calls t = s.calls t := by
      by_cases hw : ∃ f, e = .worker f
      · obtain ⟨f, rfl⟩ := hw
        exact congrFun (workerStep_frame f).2 t
      · exact (step_frame e (not_exists.1 hw)).calls t ⟨hbusy, he⟩
    exact .inr ⟨by rw [hsame]; exact hc, by rw [hsame], fun h => absurd h (not_exists.2 he)⟩

/-- **Jobs are handed over properly.** In every interleaving every job is freed at most once and
only after its release, is not read or written after that, is taken at most once, and shows a
final state only after the worker's last access. Under a fair schedule every installed job is
taken and every released job is freed. -/
theorem handed_over (sched : ℕ → Event F) (j : ℕ) :
    (∀ n, Handed ((Schedule.stateAt step init sched n).hist j)) ∧
      (Fair sched →
        (∀ n, .installed ∈ (Schedule.stateAt step init sched n).hist j →
          ∃ m, ((Schedule.stateAt step init sched m).hist j).count .taken = 1) ∧
        ∀ n, .released ∈ (Schedule.stateAt step init sched n).hist j →
          ∃ m, ((Schedule.stateAt step init sched m).hist j).count .freed = 1) := by
  have hhanded : ∀ n, Handed ((stateAt step init sched n).hist j) := by
    intro n
    obtain ⟨stage, h⟩ := inv_stateAt sched n
    exact h.handed j
  have honce : ∀ {m o}, ((stateAt step init sched m).hist j).count o ≤ 1 →
      o ∈ (stateAt step init sched m).hist j →
        ((stateAt step init sched m).hist j).count o = 1 := by
    intro m o hle hmem
    have hpos := List.count_pos_iff.2 hmem
    omega
  refine ⟨hhanded, fun hfair => ⟨fun n hi => ?_, fun n hr => ?_⟩⟩
  · have hend : ∃ m ≥ n, .taken ∈ (stateAt step init sched m).hist j := by
      obtain ⟨stage, h⟩ := inv_stateAt sched n
      rcases h.taken_or_queued hi with ht | hmb
      · exact ⟨n, le_rfl, ht⟩
      · exact eventually_taken hfair hmb
    obtain ⟨m, -, hm⟩ := hend
    exact ⟨m, honce (hhanded m).takenOnce hm⟩
  · have hend : ∃ m ≥ n, .freed ∈ (stateAt step init sched m).hist j := by
      obtain ⟨stage, h⟩ := inv_stateAt sched n
      rcases h.freed_or_custody hr with hf | hw | ⟨t, hc⟩
      · exact ⟨n, le_rfl, hf⟩
      · exact eventually_freed_by_worker hfair hr hw
      · exact eventually_freed_by_call hfair hc
    obtain ⟨m, -, hm⟩ := hend
    exact ⟨m, honce (hhanded m).freedOnce hm⟩

end Runs

/-- Task 0 starts a job and releases it at once; then the worker and the tasks take turns. -/
def releaseAtOnce : ℕ → Event Unit
  | 0 => .start 0 true
  | 7 => .release 0 0
  | n =>
    if n < 7 then .call 0 ⟨true, (), true⟩
    else if n % 2 = 0 then .worker .done
    else .call (Nat.unpair (n / 2)).1 ⟨true, (), true⟩

lemma fair_releaseAtOnce : Fair releaseAtOnce where
  worker n := by
    refine ⟨2 * (n + 4), by omega, .inl ?_⟩
    rw [releaseAtOnce] <;> simp <;> omega
  calls t n := by
    have hle : n + 8 ≤ pair t (n + 8) := right_le_pair t (n + 8)
    refine ⟨2 * pair t (n + 8) + 1, by omega, ⟨true, (), true⟩, ?_⟩
    have hhalf : (2 * pair t (n + 8) + 1) / 2 = pair t (n + 8) := by omega
    rw [releaseAtOnce, hhalf] <;> simp <;> omega

/-- A job that is released while it is still in the mailbox is freed once. -/
theorem handed_over_released :
    Fair releaseAtOnce ∧
      ∃ m, ((Schedule.stateAt step init releaseAtOnce m).hist 0).count .freed = 1 :=
  ⟨fair_releaseAtOnce, ((handed_over releaseAtOnce 0).2 fair_releaseAtOnce).2 8 (by decide)⟩

end HttpClient

end SubOS.Net.Http
