import SubOS.Lib.EventRun
import SubOS.Net.Http.Client

set_option autoImplicit false

/-!
# Who owns a job of the HTTP client

Every job is at one place at a time: in a call of `http_fetch_start`, in the mailbox, with the
worker, with the requester, or in a call of `http_fetch_release`.

## Main definitions

* `Handed` — what is promised of the history of one job.
* `Stage`, `Inv` — the place of a job, and the invariant.

## Main results

* `Inv.step` — every step keeps the places and the pointers of the threads in agreement.
-/

namespace SubOS.Net.Http

open Function List WorkerPc

/-! ### Histories -/

/-- The job is read or written. -/
def Obs.IsAccess : Obs → Prop
  | .worked | .used | .observed _ => True
  | _ => False

/-- A requester sees a state other than `HTTP_STATE_RUNNING`. -/
def Obs.IsFinal (o : Obs) : Prop := o = .observed .done ∨ o = .observed .error

/-- What is promised of the history of one job, the latest first. -/
structure Handed (h : List Obs) : Prop where
  /-- It is freed at most once, and once installed only after it has been released. -/
  freedOnce : h.count .freed ≤ 1
  freedReleased : .installed ∈ h → .freed ∈ h → .released ∈ h
  /-- It is not read or written after it is freed. -/
  untouched : h.Pairwise fun later earlier => earlier = .freed → ¬ later.IsAccess
  /-- The worker takes it at most once. -/
  takenOnce : h.count .taken ≤ 1
  /-- A state other than `HTTP_STATE_RUNNING` is seen only after the worker's last access. -/
  lastWorked : h.Pairwise fun later earlier => earlier.IsFinal → later ≠ .worked

lemma Handed.nil : Handed [] := by
  constructor <;> simp

lemma Handed.cons {h : List Obs} {o : Obs} (hh : Handed h) (hlive : .freed ∉ h)
    (hfreed : o = .freed → .installed ∈ h → .released ∈ h) (htaken : o = .taken → .taken ∉ h)
    (hworked : o = .worked → ∀ e ∈ h, ¬ e.IsFinal) : Handed (o :: h) where
  freedOnce := by
    have hzero : h.count .freed = 0 := count_eq_zero.2 hlive
    rw [count_cons, hzero]
    split <;> omega
  freedReleased := by
    intro hi hf
    rw [mem_cons] at hi hf ⊢
    rcases hf with rfl | hf
    · exact .inr (hfreed rfl (hi.resolve_left nofun))
    · exact absurd hf hlive
  untouched := by
    refine pairwise_cons.2 ⟨fun e he hef => ?_, hh.untouched⟩
    subst hef
    exact absurd he hlive
  takenOnce := by
    rw [count_cons]
    split
    · rename_i heq
      have hzero : h.count .taken = 0 := count_eq_zero.2 (htaken (by simpa using heq))
      omega
    · exact hh.takenOnce
  lastWorked := by
    refine pairwise_cons.2 ⟨fun e he hfin ho => ?_, hh.lastWorked⟩
    exact hworked ho e he hfin

/-- Something is done with a job that neither takes nor frees it and is not the worker's. -/
lemma Handed.use {h : List Obs} (hh : Handed h) (hlive : .freed ∉ h) (o : Obs)
    (hfreed : o ≠ .freed) (htaken : o ≠ .taken) (hworked : o ≠ .worked) : Handed (o :: h) :=
  hh.cons hlive (fun h => absurd h hfreed) (fun h => absurd h htaken) fun h => absurd h hworked

/-! ### Places -/

inductive Stage where
  /-- Not allocated yet. -/
  | unborn
  /-- In a call of `http_fetch_start` of the task. -/
  | building (t : ℕ)
  /-- In the mailbox. -/
  | queued
  /-- With the worker, which fetches or is about to finalize it. -/
  | fetching
  /-- With the worker, which is about to free it. -/
  | doomed
  /-- Back with the requester. -/
  | settled
  /-- In a call of `http_fetch_release` of the task, which is about to free it. -/
  | closing (t : ℕ)
  /-- Freed. -/
  | dead
  deriving DecidableEq

/-- The job that a call of `http_fetch_start` prepares. -/
def CallPc.building : CallPc → Option ℕ
  | .allocBuf j | .fill j | .parse j | .install j | .dropBuf j | .drop j => some j
  | _ => none

/-- The job that a call of `http_fetch_release` frees. -/
def CallPc.closing : CallPc → Option ℕ
  | .closeBuf j | .close j => some j
  | _ => none

/-- The job the worker fetches. -/
def WorkerPc.fetching : WorkerPc → Option ℕ
  | .fetch j | .finalize j _ => some j
  | _ => none

def WorkerPc.dooming : WorkerPc → Option ℕ
  | .freeBuf j | .freeJob j => some j
  | _ => none

/-- A job that is installed, not freed, and whose final state nobody has seen. -/
structure Pending (h : List Obs) : Prop where
  installed : .installed ∈ h
  live : .freed ∉ h
  unseen : ∀ e ∈ h, ¬ e.IsFinal

section Fits

variable {F : Type}

/-- What the fields and the history of a job say about where it is. -/
def Fits (f : HttpFetch F) (h : List Obs) : Stage → Prop
  | .unborn => h = []
  | .building _ => f.state = .running ∧ f.abandoned = false ∧ ∀ o ∈ h, o = .used ∨ o = .freedBuf
  | .queued => Pending h ∧ f.state = .running ∧ (f.abandoned = true ↔ .released ∈ h) ∧ .taken ∉ h
  | .fetching => Pending h ∧ f.state = .running ∧ (f.abandoned = true ↔ .released ∈ h) ∧ .taken ∈ h
  | .doomed => Pending h ∧ .released ∈ h ∧ .taken ∈ h
  | .settled => .installed ∈ h ∧ .freed ∉ h ∧ f.state ≠ .running ∧ .released ∉ h ∧ .taken ∈ h
  | .closing _ => .installed ∈ h ∧ .freed ∉ h ∧ .released ∈ h ∧ .taken ∈ h
  | .dead => .freed ∈ h ∧ (.installed ∈ h → .taken ∈ h)

variable {f : HttpFetch F} {h : List Obs} {t : ℕ} {o : Obs}

lemma Fits.not_mem (hfits : Fits f h .unborn) : o ∉ h := by
  rw [show h = [] from hfits]
  exact not_mem_nil

lemma Fits.fresh (hfits : Fits f h (.building t)) (hused : o ≠ .used)
    (hbuf : o ≠ .freedBuf) : o ∉ h :=
  fun hmem => (hfits.2.2 o hmem).elim hused hbuf

lemma Fits.live (hfits : Fits f h (.building t)) : .freed ∉ h := hfits.fresh nofun nofun

lemma Fits.prepare (hfits : Fits f h (.building t)) (f' : HttpFetch F)
    (ho : o = .used ∨ o = .freedBuf) (hstate : f'.state = .running)
    (habandoned : f'.abandoned = false) : Fits f' (o :: h) (.building t) :=
  ⟨hstate, habandoned, forall_mem_cons.2 ⟨ho, hfits.2.2⟩⟩

/-- Something is done with a pending job that neither frees it nor sees a final state. -/
lemma Pending.cons (hp : Pending h) (o : Obs) (hfreed : o ≠ .freed) (hfinal : ¬ o.IsFinal) :
    Pending (o :: h) :=
  ⟨mem_cons_of_mem _ hp.installed, by simp [hfreed.symm, hp.live],
    forall_mem_cons.2 ⟨hfinal, hp.unseen⟩⟩

end Fits

namespace HttpClient

variable {F : Type} {s : HttpClient F} {stage : ℕ → Stage} {calls : ℕ → CallPc} {mb : Option ℕ}
  {hs : List Obs} {w : WorkerPc} {next j : ℕ} {st : Stage}

/-- The mailbox and the threads point to the jobs that are where they say. -/
structure Refs (mailbox : Option ℕ) (worker : WorkerPc) (calls : ℕ → CallPc) (nextJob : ℕ)
    (stage : ℕ → Stage) : Prop where
  mailbox : ∀ j, mailbox = some j ↔ stage j = .queued
  fetching : ∀ j, worker.fetching = some j ↔ stage j = .fetching
  dooming : ∀ j, worker.dooming = some j ↔ stage j = .doomed
  building : ∀ t j, (calls t).building = some j ↔ stage j = .building t
  closing : ∀ t j, (calls t).closing = some j ↔ stage j = .closing t
  unborn : ∀ j, nextJob ≤ j ↔ stage j = .unborn
  result : ∀ j r, worker = .finalize j r → r ≠ .running

structure Inv (s : HttpClient F) (stage : ℕ → Stage) : Prop where
  refs : Refs s.mailbox s.worker s.calls s.nextJob stage
  handed : ∀ j, Handed (s.hist j)
  fits : ∀ j, Fits (s.jobs j) (s.hist j) (stage j)

/-- The jobs are where the mailbox and the threads say. -/
abbrev Owned (s : HttpClient F) : Prop := ∃ stage, Inv s stage

lemma Inv.of_refs (h : Inv s stage) {s' : HttpClient F} (hjobs : s'.jobs = s.jobs)
    (hhist : s'.hist = s.hist) (hrefs : Refs s'.mailbox s'.worker s'.calls s'.nextJob stage) :
    Inv s' stage :=
  ⟨hrefs, by rw [hhist]; exact h.handed, by rw [hjobs, hhist]; exact h.fits⟩

lemma Inv.change (h : Inv s stage) {f : HttpFetch F}
    (hrefs : Refs mb w calls next (update stage j st)) (hhanded : Handed hs)
    (hfits : Fits f hs st) :
    Inv { mailbox := mb, jobs := update s.jobs j f, nextJob := next, worker := w,
          calls := calls, hist := update s.hist j hs } (update stage j st) := by
  refine ⟨hrefs, fun i => ?_, fun i => ?_⟩
  · by_cases hi : i = j
    · subst hi
      simpa using hhanded
    · simpa [hi] using h.handed i
  · by_cases hi : i = j
    · subst hi
      simpa using hfits
    · simpa [hi] using h.fits i

lemma Inv.noted (h : Inv s stage)

    (hrefs : Refs mb w calls next (update stage j st)) (hhanded : Handed hs)
    (hfits : Fits (s.jobs j) hs st) :
    Inv { mailbox := mb, jobs := s.jobs, nextJob := next, worker := w, calls := calls,
          hist := update s.hist j hs } (update stage j st) := by
  have hsame : s.jobs = update s.jobs j (s.jobs j) := (update_eq_self j _).symm
  rw [hsame]
  exact h.change hrefs hhanded hfits

namespace Refs

attribute [local grind =] CallPc.building CallPc.closing WorkerPc.fetching WorkerPc.dooming

attribute [local grind cases] Refs

variable {mb : Option ℕ} {w : WorkerPc} {calls : ℕ → CallPc} {next : ℕ} {t j : ℕ}

lemma goto (h : Refs mb w calls next stage) {pc : CallPc} (hpc : calls t = pc) (pc' : CallPc)
    (hb : pc'.building = pc.building) (hc : pc'.closing = pc.closing) :
    Refs mb w (update calls t pc') next stage where
  __ := h
  building u i := by
    by_cases hu : u = t
    · subst hu
      rw [update_self, hb, ← hpc, h.building]
    · rw [update_of_ne hu, h.building]
  closing u i := by
    by_cases hu : u = t
    · subst hu
      rw [update_self, hc, ← hpc, h.closing]
    · rw [update_of_ne hu, h.closing]

lemma install (h : Refs none w calls next stage) (hpc : calls t = .install j) :
    Refs (some j) w (update calls t .idle) next (update stage j .queued) := by
  constructor <;> grind

section

variable (h : Refs mb w calls next stage)
include h

lemma alloc (hpc : calls t = .alloc) :
    Refs mb w (update calls t (.allocBuf next)) (next + 1) (update stage next (.building t)) := by
  constructor <;> grind

lemma drop (hpc : calls t = .drop j) :
    Refs mb w (update calls t .idle) next (update stage j .dead) := by
  constructor <;> grind

lemma closeBuf (hpc : calls t = .idle) (hj : stage j = .settled) :
    Refs mb w (update calls t (.closeBuf j)) next
      (update stage j (.closing t)) := by
  constructor <;> grind

lemma close (hpc : calls t = .close j) :
    Refs mb w (update calls t .idle) next (update stage j .dead) := by
  constructor <;> grind

lemma workerGoto (w' : WorkerPc) (hf : w'.fetching = w.fetching) (hd : w'.dooming = w.dooming)
    (hr : ∀ j r, w' = .finalize j r → r ≠ .running) : Refs mb w' calls next stage where
  __ := h
  fetching i := by rw [hf, h.fetching]
  dooming i := by rw [hd, h.dooming]
  result := hr

end

lemma take (h : Refs (some j) .take calls next stage) :
    Refs none (.fetch j) calls next (update stage j .fetching) := by
  constructor <;> grind

section

variable (h : Refs mb w calls next stage)
include h

lemma settle {r : FetchState} (hpc : w = .finalize j r) :
    Refs mb .take calls next (update stage j .settled) := by
  constructor <;> grind

lemma doom {r : FetchState} (hpc : w = .finalize j r) :
    Refs mb (.freeBuf j) calls next (update stage j .doomed) := by
  constructor <;> grind

lemma bury (hpc : w = .freeJob j) :
    Refs mb .take calls next (update stage j .dead) := by
  constructor <;> grind

end

end Refs

/-! ### One step -/

attribute [local simp] Obs.IsFinal

lemma note_note (s : HttpClient F) (j : ℕ) (o o' : Obs) :
    (s.note j o).note j o' = { s with hist := update s.hist j (o' :: o :: s.hist j) } := by
  simp [note]

lemma Refs.same (h : Refs mb w calls next stage) (hst : stage j = st) :
    Refs mb w calls next (update stage j st) := by
  rwa [← hst, update_eq_self]

section Calls

variable {t j : ℕ} {f : HttpFetch F} {pc : CallPc}

section

variable (h : Inv s stage)
include h

lemma Inv.stage_building (hpc : s.calls t = pc) (hb : pc.building = some j) :
    stage j = .building t :=
  (h.refs.building t j).1 (hpc ▸ hb)

lemma Inv.fits_building (hpc : s.calls t = pc) (hb : pc.building = some j) :
    Fits (s.jobs j) (s.hist j) (.building t) := by
  rw [← h.stage_building hpc hb]
  exact h.fits j

lemma Inv.stage_closing (hpc : s.calls t = pc) (hc : pc.closing = some j) : stage j = .closing t :=
  (h.refs.closing t j).1 (hpc ▸ hc)

lemma Inv.fits_closing (hpc : s.calls t = pc) (hc : pc.closing = some j) :
    Fits (s.jobs j) (s.hist j) (.closing t) := by
  rw [← h.stage_closing hpc hc]
  exact h.fits j

lemma Inv.prepare (hpc : s.calls t = pc) (hb : pc.building = some j) (hc : pc.closing = none)
    (pc' : CallPc) (hb' : pc'.building = some j) (hc' : pc'.closing = none)
    (hstate : f.state = .running) (habandoned : f.abandoned = false) :
    Owned (((s.setJob j f).note j .used).goto t pc') := by
  have hfits := h.fits_building hpc hb
  have hrefs := h.refs.goto hpc pc' (hb'.trans hb.symm) (hc'.trans hc.symm)
  exact ⟨_, h.change (hrefs.same (h.stage_building hpc hb))
    ((h.handed j).use hfits.live .used nofun nofun nofun)
    (hfits.prepare f (.inl rfl) hstate habandoned)⟩

lemma Inv.install (hpc : s.calls t = .install j) (hmb : s.mailbox = none) :
    Owned (({ s with mailbox := some j }.note j .installed).goto t .idle) := by
  have hfits := h.fits_building hpc rfl
  have hrefs : Refs none s.worker s.calls s.nextJob stage := hmb ▸ h.refs
  refine ⟨_, h.noted (hrefs.install hpc)
    ((h.handed j).use hfits.live .installed nofun nofun nofun) ⟨⟨?_, ?_, ?_⟩, hfits.1, ?_, ?_⟩⟩
  · exact mem_cons_self
  · simp [hfits.live]
  · refine forall_mem_cons.2 ⟨by simp, fun e he hfin => ?_⟩
    rcases hfin with rfl | rfl
    · exact hfits.fresh (o := .observed .done) nofun nofun he
    · exact hfits.fresh (o := .observed .error) nofun nofun he
  · simp [hfits.2.1, hfits.fresh (o := .released) nofun nofun]
  · simp [hfits.fresh (o := .taken) nofun nofun]

lemma Inv.dropBuf (hpc : s.calls t = .dropBuf j) :
    Owned (((s.note j .used).note j .freedBuf).goto t (.drop j)) := by
  have hfits := h.fits_building hpc rfl
  have hrefs := h.refs.goto hpc (.drop j) rfl rfl
  have hused := hfits.prepare (s.jobs j) (.inl rfl) hfits.1 hfits.2.1
  rw [note_note]
  exact ⟨_, h.noted (hrefs.same (h.stage_building hpc rfl))
    (((h.handed j).use hfits.live .used nofun nofun nofun).use hused.live .freedBuf
      nofun nofun nofun)
    (hused.prepare _ (.inr rfl) hfits.1 hfits.2.1)⟩

lemma Inv.drop (hpc : s.calls t = .drop j) :
    Owned ((s.note j .freed).goto t .idle) := by
  have hfits := h.fits_building hpc rfl
  have hprivate : .installed ∉ s.hist j := hfits.fresh nofun nofun
  refine ⟨_, h.noted (h.refs.drop hpc)
    ((h.handed j).cons hfits.live (fun _ hi => absurd hi hprivate) nofun nofun) ⟨?_, ?_⟩⟩
  · exact mem_cons_self
  · simp [hprivate]

lemma Inv.closeBuf (hpc : s.calls t = .closeBuf j) :
    Owned (((s.note j .used).note j .freedBuf).goto t (.close j)) := by
  obtain ⟨hi, hlive, hr, ht⟩ := h.fits_closing hpc rfl
  have hrefs := h.refs.goto hpc (.close j) rfl rfl
  rw [note_note]
  exact ⟨_, h.noted (hrefs.same (h.stage_closing hpc rfl))
    (((h.handed j).use hlive .used nofun nofun nofun).use (by simp [hlive]) .freedBuf
      nofun nofun nofun)
    ⟨by simp [hi], by simp [hlive], by simp [hr], by simp [ht]⟩⟩

lemma Inv.close (hpc : s.calls t = .close j) :
    Owned ((s.note j .freed).goto t .idle) := by
  obtain ⟨hi, hlive, hr, ht⟩ := h.fits_closing hpc rfl
  exact ⟨_, h.noted (h.refs.close hpc)
    ((h.handed j).cons hlive (fun _ _ => hr) nofun nofun) ⟨by simp, by simp [ht]⟩⟩

end

variable [Inhabited F]

lemma Inv.alloc (h : Inv s stage) (hpc : s.calls t = .alloc) :
    Owned (({ s with nextJob := s.nextJob + 1 }.setJob s.nextJob
      { state := .running, abandoned := false, buf := false, rest := default }).goto t
        (.allocBuf s.nextJob)) := by
  have hnil : s.hist s.nextJob = [] := by
    have hfits := h.fits s.nextJob
    rwa [(h.refs.unborn _).1 le_rfl] at hfits
  have hkeep := h.change (f := ⟨.running, false, false, default⟩) (h.refs.alloc hpc) .nil
    ⟨rfl, rfl, fun o ho => nomatch ho⟩
  rw [← hnil, update_eq_self] at hkeep
  exact ⟨_, hkeep⟩

lemma Inv.callStep (h : Inv s stage) (t : ℕ) (ans : Answer F) :
    Owned (s.callStep t ans (s.calls t)) := by
  -- a step to a place where the task has no job, or has the same one
  have hgoto : ∀ {pc}, s.calls t = pc → ∀ pc' : CallPc, pc'.building = pc.building →
      pc'.closing = pc.closing → Owned (s.goto t pc') :=
    fun hpc pc' hb hc => ⟨stage, h.of_refs rfl rfl (h.refs.goto hpc pc' hb hc)⟩
  cases hpc : s.calls t with
  | idle => exact ⟨stage, h⟩
  | look => refine hgoto hpc _ ?_ ?_ <;> split <;> rfl
  | alloc =>
    rw [HttpClient.callStep]
    split
    · exact h.alloc hpc
    · exact hgoto hpc _ rfl rfl
  | allocBuf j =>
    have hfits := h.fits_building hpc rfl
    rw [HttpClient.callStep]
    split
    · exact h.prepare hpc rfl rfl _ rfl rfl hfits.1 hfits.2.1
    · have hset : s.setJob j (s.jobs j) = s := by simp [setJob]
      have hprep := h.prepare hpc rfl rfl (.drop j) rfl rfl hfits.1 hfits.2.1
      rwa [hset] at hprep
  | fill j => exact h.prepare hpc rfl rfl _ rfl rfl rfl (h.fits_building hpc rfl).2.1
  | parse j =>
    have hfits := h.fits_building hpc rfl
    refine h.prepare hpc rfl rfl _ ?_ ?_ hfits.1 hfits.2.1 <;> split <;> rfl
  | install j =>
    rw [HttpClient.callStep]
    split
    · exact hgoto hpc _ rfl rfl
    · rename_i hmb
      exact h.install hpc (by simpa using hmb)
  | dropBuf j => exact h.dropBuf hpc
  | drop j => exact h.drop hpc
  | closeBuf j => exact h.closeBuf hpc
  | close j => exact h.close hpc

end Calls

section Requesters

variable {t j : ℕ}

/-- A job that a requester has is queued, with the worker or back with the requester. -/
lemma Inv.stage_of_held (h : Inv s stage) (hheld : s.Held j) :
    (stage j = .queued ∨ stage j = .fetching) ∨ stage j = .settled := by
  obtain ⟨hi, hr⟩ := hheld
  have hfits := h.fits j
  generalize stage j = st at hfits
  cases st with
  | unborn => exact absurd hi hfits.not_mem
  | building t => exact absurd hi (hfits.fresh nofun nofun)
  | queued => exact .inl (.inl rfl)
  | fetching => exact .inl (.inr rfl)
  | doomed => exact absurd hfits.2.1 hr
  | settled => exact .inr rfl
  | closing t => exact absurd hfits.2.2.1 hr
  | dead => exact absurd ((h.handed j).freedReleased hi hfits.1) hr

lemma Inv.live_of_held (h : Inv s stage) (hheld : s.Held j) : .freed ∉ s.hist j :=
  fun hf => hheld.2 ((h.handed j).freedReleased hheld.1 hf)

lemma Inv.look (h : Inv s stage) (hheld : s.Held j) {o : Obs} (hfreed : o ≠ .freed)
    (htaken : o ≠ .taken) (hworked : o ≠ .worked) (hreleased : o ≠ .released)
    (hfinal : (s.jobs j).state = .running → ¬ o.IsFinal) : Owned (s.note j o) := by
  have hhanded := (h.handed j).use (h.live_of_held hheld) o hfreed htaken hworked
  have hfits := h.fits j
  rcases h.stage_of_held hheld with (hst | hst) | hst <;> rw [hst] at hfits
  · obtain ⟨hp, hrun, hab, ht⟩ := hfits
    exact ⟨_, h.noted (h.refs.same hst) hhanded
      ⟨hp.cons _ hfreed (hfinal hrun),
        hrun, by simp [hab, hreleased.symm], by simp [ht, htaken.symm]⟩⟩
  · obtain ⟨hp, hrun, hab, ht⟩ := hfits
    exact ⟨_, h.noted (h.refs.same hst) hhanded
      ⟨hp.cons _ hfreed (hfinal hrun), hrun, by simp [hab, hreleased.symm], by simp [ht]⟩⟩
  · obtain ⟨hi, hlive, hstate, hr, ht⟩ := hfits
    exact ⟨_, h.noted (h.refs.same hst) hhanded
      ⟨by simp [hi], by simp [hlive, hfreed.symm], hstate, by simp [hr, hreleased.symm],
        by simp [ht]⟩⟩

lemma Inv.releaseSection (h : Inv s stage) (hpc : s.calls t = .idle) (hheld : s.Held j) :
    Owned (s.releaseSection t j) := by
  have hlive := h.live_of_held hheld
  have hhanded : Handed (.released :: .observed (s.jobs j).state :: s.hist j) :=
    ((h.handed j).use hlive (.observed (s.jobs j).state) nofun nofun nofun).use (by simp [hlive])
      .released nofun nofun nofun
  -- the job is still the worker's: it is only marked
  have hmark : ∀ st, stage j = st → (s.jobs j).state = .running →
      Fits { s.jobs j with abandoned := true } (.released :: .observed .running :: s.hist j) st →
        Owned (s.releaseSection t j) := by
    intro st hst hrun hfits
    unfold HttpClient.releaseSection
    rw [if_pos hrun, note_note]
    rw [hrun] at hhanded ⊢
    exact ⟨_, h.change (h.refs.same hst) hhanded hfits⟩
  have hfits := h.fits j
  rcases h.stage_of_held hheld with hst | hst
  · rcases hst with hst | hst <;> rw [hst] at hfits
    all_goals
      obtain ⟨hp, hrun, -, ht⟩ := hfits
      have hp' := (hp.cons (.observed .running) nofun (by simp)).cons .released nofun (by simp)
      exact hmark _ hst hrun ⟨hp', hrun, by simp, by simp [ht]⟩
  · rw [hst] at hfits
    obtain ⟨hi, -, hstate, -, ht⟩ := hfits
    unfold HttpClient.releaseSection
    rw [if_neg hstate, note_note]
    exact ⟨_, h.noted (h.refs.closeBuf hpc hst) hhanded
      ⟨by simp [hi], by simp [hlive], by simp, by simp [ht]⟩⟩

end Requesters

section Worker

variable {j : ℕ}

lemma Inv.fits_fetching (h : Inv s stage) (hf : s.worker.fetching = some j) :
    Fits (s.jobs j) (s.hist j) .fetching := by
  rw [← (h.refs.fetching j).1 hf]
  exact h.fits j

lemma Inv.fits_doomed (h : Inv s stage) (hd : s.worker.dooming = some j) :
    Fits (s.jobs j) (s.hist j) .doomed := by
  rw [← (h.refs.dooming j).1 hd]
  exact h.fits j

lemma Handed.work (hh : Handed hs) (hp : Pending hs) : Handed (.worked :: hs) :=
  hh.cons hp.live nofun nofun fun _ => hp.unseen

lemma Inv.finalizeSection (h : Inv s stage) {result : FetchState}
    (hpc : s.worker = .finalize j result) : Owned (s.finalizeSection j result) := by
  obtain ⟨hp, hrun, hab, ht⟩ := h.fits_fetching (by rw [hpc]; rfl)
  have hhanded := Handed.work (h.handed j) hp
  unfold HttpClient.finalizeSection
  split
  · rename_i habandoned
    exact ⟨_, h.noted (h.refs.doom hpc) hhanded
      ⟨hp.cons _ nofun (by simp), by simp [hab.1 habandoned], by simp [ht]⟩⟩
  · rename_i habandoned
    have hr : .released ∉ s.hist j := fun hr => habandoned (hab.2 hr)
    exact ⟨_, h.change (h.refs.settle hpc) hhanded
      ⟨by simp [hp.installed], by simp [hp.live], h.refs.result j result hpc, by simp [hr],
        by simp [ht]⟩⟩

lemma Inv.workerStep (h : Inv s stage) (f : FetchStep F) :
    Owned (s.workerStep f s.worker) := by
  cases hpc : s.worker with
  | take =>
    unfold HttpClient.workerStep
    cases hmb : s.mailbox with
    | none => exact ⟨stage, h⟩
    | some j =>
      have hfits := h.fits j
      rw [(h.refs.mailbox j).1 hmb] at hfits
      obtain ⟨hp, hrun, hab, ht⟩ := hfits
      have hrefs : Refs (some j) .take s.calls s.nextJob stage := hmb ▸ hpc ▸ h.refs
      exact ⟨_, h.noted hrefs.take ((h.handed j).cons hp.live nofun (fun _ => ht) nofun)
        ⟨hp.cons _ nofun (by simp), hrun, by simp [hab], by simp⟩⟩
  | fetch j =>
    have hf : s.worker.fetching = some j := by rw [hpc]; rfl
    obtain ⟨hp, hrun, hab, ht⟩ := h.fits_fetching hf
    have hgoto : ∀ r : FetchState, r ≠ .running →
        Owned (s.workerGoto (.finalize j r)) := by
      intro r hr
      refine ⟨stage, h.of_refs rfl rfl
        (h.refs.workerGoto _ (by rw [hpc]; rfl) (by rw [hpc]; rfl) ?_)⟩
      rintro _ _ ⟨⟩
      exact hr
    cases f with
    | access g =>
      exact ⟨_, h.change (h.refs.same ((h.refs.fetching j).1 hf)) (Handed.work (h.handed j) hp)
        ⟨hp.cons _ nofun (by simp), hrun, by simp [setJob, hab], by simp [setJob, ht]⟩⟩
    | done => exact hgoto .done nofun
    | error => exact hgoto .error nofun
  | finalize j result => exact h.finalizeSection hpc
  | freeBuf j =>
    have hd : s.worker.dooming = some j := by rw [hpc]; rfl
    obtain ⟨hp, hr, ht⟩ := h.fits_doomed hd
    have hwork := Handed.work (h.handed j) hp
    have hp' : Pending (.worked :: s.hist j) := hp.cons _ nofun (by simp)
    have hrefs := h.refs.workerGoto (.freeJob j) (by rw [hpc]; rfl) (by rw [hpc]; rfl) nofun
    rw [HttpClient.workerStep, note_note]
    exact ⟨_, h.noted (hrefs.same ((h.refs.dooming j).1 hd))
      (hwork.use hp'.live .freedBuf nofun nofun nofun)
      ⟨hp'.cons _ nofun (by simp), by simp [hr], by simp [ht]⟩⟩
  | freeJob j =>
    have hd : s.worker.dooming = some j := by rw [hpc]; rfl
    obtain ⟨hp, hr, ht⟩ := h.fits_doomed hd
    exact ⟨_, h.noted (h.refs.bury hpc)
      ((h.handed j).cons hp.live (fun _ _ => hr) nofun nofun) ⟨by simp, by simp [ht]⟩⟩

end Worker

variable [Inhabited F]

lemma Inv.step (h : Inv s stage) (e : Event F) : Owned (s.step e) := by
  cases e with simp only [HttpClient.step]
  | start t valid =>
    split_ifs with hc
    · exact ⟨stage, h.of_refs rfl rfl (h.refs.goto hc.1 .look rfl rfl)⟩
    · exact ⟨stage, h⟩
  | call t ans => exact h.callStep t ans
  | poll j =>
    split_ifs with hheld
    · exact h.look hheld nofun nofun nofun nofun fun hrun => by simp [hrun]
    · exact ⟨stage, h⟩
  | inspect j =>
    split_ifs with hheld
    · exact h.look hheld.1 nofun nofun nofun nofun fun _ => by simp
    · exact ⟨stage, h⟩
  | release t j =>
    split_ifs with hc
    · exact h.releaseSection hc.1 hc.2
    · exact ⟨stage, h⟩
  | worker f => exact h.workerStep f

lemma inv_init : Inv (init : HttpClient F) fun _ => .unborn where
  refs := by constructor <;> simp [init, fetching, dooming, CallPc.building, CallPc.closing]
  handed _ := .nil
  fits _ := rfl

end HttpClient

end SubOS.Net.Http
