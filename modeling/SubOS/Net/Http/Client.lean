import Mathlib.Data.List.Basic

set_option autoImplicit false

/-!
# The asynchronous HTTP client

The hand-over of jobs in `net/http_client.c`: `http_fetch_start` allocates a job and puts it into
the mailbox, the worker takes it out, fetches and finalizes it, and `http_fetch_release` frees it
or leaves that to the worker.

## Main definitions

* `HttpClient.callStep`, `HttpClient.workerStep` — a step of a call, and of the worker.

## Design

Any thread may take the next step, so that every interleaving is a run; a section with interrupts
off is one step. A task polls or releases a job only after `http_fetch_start` has handed it over and
before it is released, which is how the interface is to be used; other events do nothing. Jobs are
named by the order of their allocation. The fields that only `parse_url` and `do_fetch` write are
the type `F`. What `kzalloc` and `parse_url` answer is part of the event. `hist` records what has
been done with each job, the latest first. No function reads it.
-/

namespace SubOS.Net.Http

/-- `http_fetch_state_t`. -/
inductive FetchState where
  | running
  | done
  | error
  deriving DecidableEq, Repr

/-- `http_fetch_t`. The fields of the request and of the result are `rest`. -/
structure HttpFetch (F : Type) where
  state : FetchState
  abandoned : Bool
  /-- `buf` points to a buffer. -/
  buf : Bool
  rest : F

/-- What has been done with a job. -/
inductive Obs where
  /-- It was put into the mailbox. -/
  | installed
  /-- The worker took it out of the mailbox. -/
  | taken
  /-- The worker read or wrote it. -/
  | worked
  /-- A requester read or wrote it. -/
  | used
  /-- A requester read its state. -/
  | observed (st : FetchState)
  /-- `http_fetch_release` was called for it. -/
  | released
  /-- Its buffer was freed. -/
  | freedBuf
  /-- It was freed. -/
  | freed
  deriving DecidableEq, Repr

/-- Where a task stands in `http_fetch_start` or `http_fetch_release`. -/
inductive CallPc where
  /-- In neither. -/
  | idle
  /-- The arguments are good; about to look at the mailbox. -/
  | look
  /-- About to allocate the job. -/
  | alloc
  /-- About to allocate the buffer. -/
  | allocBuf (j : ℕ)
  /-- About to set `cap` and `state`. -/
  | fill (j : ℕ)
  /-- About to parse the URL into the job. -/
  | parse (j : ℕ)
  /-- About to enter the section that installs the job. -/
  | install (j : ℕ)
  /-- `http_fetch_start` gives up: about to free the buffer. -/
  | dropBuf (j : ℕ)
  /-- The same, about to free the job. -/
  | drop (j : ℕ)
  /-- `free_job` in `http_fetch_release`: about to free the buffer. -/
  | closeBuf (j : ℕ)
  /-- The same, about to free the job. -/
  | close (j : ℕ)
  deriving DecidableEq, Repr

inductive WorkerPc where
  /-- About to take a job from the mailbox. -/
  | take
  /-- In `do_fetch`. -/
  | fetch (j : ℕ)
  /-- About to enter the section of `finalize`. -/
  | finalize (j : ℕ) (result : FetchState)
  /-- `free_job` in `finalize`: about to free the buffer. -/
  | freeBuf (j : ℕ)
  /-- The same, about to free the job. -/
  | freeJob (j : ℕ)
  deriving DecidableEq, Repr

/-- The mailbox, the jobs, the worker and the calls of the requesters. -/
structure HttpClient (F : Type) where
  mailbox : Option ℕ
  jobs : ℕ → HttpFetch F
  nextJob : ℕ
  worker : WorkerPc
  calls : ℕ → CallPc
  hist : ℕ → List Obs

/-- What a step of a call finds: whether `kzalloc` has memory, what `parse_url` makes of the URL,
and whether it finds a host. -/
structure Answer (F : Type) where
  granted : Bool
  parsed : F
  hasHost : Bool

/-- What a step of the worker in `do_fetch` does: an access to the job, or its return. -/
inductive FetchStep (F : Type) where
  | access (g : F → F)
  | done
  | error

inductive Event (F : Type) where
  /-- A task calls `http_fetch_start`; `valid` is its test of `worker_task`, `url` and `cap`. -/
  | start (t : ℕ) (valid : Bool)
  /-- A task goes on with its call. -/
  | call (t : ℕ) (ans : Answer F)
  /-- A requester reads the state of a job. -/
  | poll (j : ℕ)
  /-- A requester reads another field of a job whose state it has seen to be final. -/
  | inspect (j : ℕ)
  /-- A task calls `http_fetch_release`, up to the end of its section. -/
  | release (t : ℕ) (j : ℕ)
  /-- The worker goes on. -/
  | worker (f : FetchStep F)

namespace HttpClient

variable {F : Type}

/-- Record something about a job. -/
def note (s : HttpClient F) (j : ℕ) (o : Obs) : HttpClient F :=
  { s with hist := Function.update s.hist j (o :: s.hist j) }

def setJob (s : HttpClient F) (j : ℕ) (f : HttpFetch F) : HttpClient F :=
  { s with jobs := Function.update s.jobs j f }

def goto (s : HttpClient F) (t : ℕ) (pc : CallPc) : HttpClient F :=
  { s with calls := Function.update s.calls t pc }

/-- Set where the worker stands. -/
def workerGoto (s : HttpClient F) (pc : WorkerPc) : HttpClient F := { s with worker := pc }

/-- A requester has the job: it is started and not released. -/
def Held (s : HttpClient F) (j : ℕ) : Prop := .installed ∈ s.hist j ∧ .released ∉ s.hist j
  deriving Decidable

/-- A requester has seen a final state of the job. -/
def SeenFinal (s : HttpClient F) (j : ℕ) : Prop :=
  .observed .done ∈ s.hist j ∨ .observed .error ∈ s.hist j
  deriving Decidable

/-- The next step of a call. The job of the call is private until it is installed. -/
def callStep [Inhabited F] (s : HttpClient F) (t : ℕ) (ans : Answer F) :
    CallPc → HttpClient F
  | .idle => s
  | .look => s.goto t (if s.mailbox.isSome then .idle else .alloc)
  | .alloc =>
    if ans.granted then
      -- `kzalloc` clears the job, and `HTTP_STATE_RUNNING` is 0
      ({ s with nextJob := s.nextJob + 1 }.setJob s.nextJob
        { state := .running, abandoned := false, buf := false, rest := default }).goto t
          (.allocBuf s.nextJob)
    else s.goto t .idle
  | .allocBuf j =>
    if ans.granted then
      ((s.setJob j { s.jobs j with buf := true }).note j .used).goto t (.fill j)
    else (s.note j .used).goto t (.drop j)
  | .fill j => ((s.setJob j { s.jobs j with state := .running }).note j .used).goto t (.parse j)
  | .parse j =>
    ((s.setJob j { s.jobs j with rest := ans.parsed }).note j .used).goto t
      (if ans.hasHost then .install j else .dropBuf j)
  | .install j =>
    if s.mailbox.isSome then s.goto t (.dropBuf j)
    else ({ s with mailbox := some j }.note j .installed).goto t .idle
  | .dropBuf j => ((s.note j .used).note j .freedBuf).goto t (.drop j)
  | .drop j => (s.note j .freed).goto t .idle
  | .closeBuf j => ((s.note j .used).note j .freedBuf).goto t (.close j)
  | .close j => (s.note j .freed).goto t .idle

/-- The section of `http_fetch_release`. -/
def releaseSection (s : HttpClient F) (t j : ℕ) : HttpClient F :=
  let s' := (s.note j (.observed (s.jobs j).state)).note j .released
  if (s.jobs j).state = .running then s'.setJob j { s.jobs j with abandoned := true }
  else s'.goto t (.closeBuf j)

/-- The section of `finalize`. -/
def finalizeSection (s : HttpClient F) (j : ℕ) (result : FetchState) : HttpClient F :=
  let s' := s.note j .worked
  if (s.jobs j).abandoned then s'.workerGoto (.freeBuf j)
  else (s'.setJob j { s.jobs j with state := result }).workerGoto .take

/-- The next step of the worker. -/
def workerStep (s : HttpClient F) (f : FetchStep F) : WorkerPc → HttpClient F
  | .take =>
    match s.mailbox with
    | none => s
    | some j => ({ s with mailbox := none }.note j .taken).workerGoto (.fetch j)
  | .fetch j =>
    match f with
    | .access g => (s.setJob j { s.jobs j with rest := g (s.jobs j).rest }).note j .worked
    | .done => s.workerGoto (.finalize j .done)
    | .error => s.workerGoto (.finalize j .error)
  | .finalize j result => s.finalizeSection j result
  | .freeBuf j => ((s.note j .worked).note j .freedBuf).workerGoto (.freeJob j)
  | .freeJob j => (s.note j .freed).workerGoto .take

def step [Inhabited F] (s : HttpClient F) : Event F → HttpClient F
  | .start t valid =>
    if s.calls t = .idle ∧ valid then s.goto t .look else s
  | .call t ans => s.callStep t ans (s.calls t)
  | .poll j => if s.Held j then s.note j (.observed (s.jobs j).state) else s
  | .inspect j => if s.Held j ∧ s.SeenFinal j then s.note j .used else s
  | .release t j => if s.calls t = .idle ∧ s.Held j then s.releaseSection t j else s
  | .worker f => s.workerStep f s.worker

/-- `http_client_init`. -/
def init [Inhabited F] : HttpClient F where
  mailbox := none
  jobs := fun _ => { state := .running, abandoned := false, buf := false, rest := default }
  nextJob := 0
  worker := .take
  calls := fun _ => .idle
  hist := fun _ => []

end HttpClient

end SubOS.Net.Http
