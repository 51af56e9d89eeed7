import Mathlib.Data.Nat.Digits.Lemmas
import SubOS.Lib.ByteMemory
import SubOS.Lib.EventRun

set_option autoImplicit false

/-!
# The page cache

`mm/page_cache.c`: a write-back cache of 64 pages between its callers and the block devices. A hash
table maps the name of a device and the index of a page, printed as a string, to the slot that holds
the page. Slots are reused in the order of a clock hand.

## Main definitions

* `PageCache.get`, `PageCache.read`, `PageCache.write` — pages and bytes for the callers.
* `PageCache.evictOne`, `PageCache.syncDev`, `PageCache.invalidate` — pages are given up or stored.

## Design

The hash table of `lib/hashtable.c` is a map from keys to slots: `put` stands for `hashtable_put`,
where inserting a new key may fail, `lookup` for `hashtable_get` and `unindex` for
`hashtable_remove`, with the key made from the page. Whether a transfer of a device succeeds is
given in advance, by its number; a write that fails may have stored a part of the page. `log`
records the write-backs that have succeeded, and `reads`, `writes`, `dataAllocs` and `nodeAllocs`
number the attempts; none of these is read by the code. `last_access` and `hits` of an entry are
left out. All functions run with `g_lock` held; pointers to names and buffers are not NULL.
-/

namespace SubOS.Mm

def pageCacheBlockSize : ℕ := 4096

def pageCacheSectors : ℕ := 8

lemma pageCacheSectors_lt : pageCacheSectors < 2 ^ 64 := by decide

def sectorSize : ℕ := 512

/-- The index of an entry of `g_pages`; there are `PAGE_CACHE_MAX_PAGES`. -/
abbrev Slot := Fin 64

scoped instance neZeroSlot : NeZero 64 := ⟨by decide⟩

abbrev Name := List Char

/-- The digits that `format_number` prints. -/
def decimal (n : ℕ) : Name :=
  if n = 0 then ['0'] else ((Nat.digits 10 n).map Nat.digitChar).reverse

/-- `make_key`, for a buffer of 64 characters. -/
def makeKey (dev : Name) (idx : ℕ) : Name := (dev ++ ':' :: decimal idx).take 63

/-- `page_cache_entry_t`. The memory of the page is not there until it is needed. -/
structure PageEntry where
  devName : Name
  pageIndex : ℕ
  hasData : Bool
  data : ByteMemory
  valid : Bool
  dirty : Bool
  referenced : Bool
  pinCount : ℕ

/-- `page_cache_stats_t`. -/
structure PageStats where
  hits : ℕ
  misses : ℕ
  evictions : ℕ
  writebacks : ℕ
  readIos : ℕ
  writeIos : ℕ
  residentPages : ℕ
  dirtyPages : ℕ
  memoryBytes : ℕ
  deriving DecidableEq, Repr

structure BlockDevice where
  name : Name
  totalSectors : ℕ
  readOnly : Bool
  /-- The device has a function `read_sectors`. -/
  hasRead : Bool
  /-- The device has a function `write_sectors`. -/
  hasWrite : Bool
  totalSectors_lt : totalSectors < 2 ^ 64

/-- The devices, and what succeeds: the transfers and the allocations, by their number. -/
structure BlockEnv where
  /-- `registered_devices`. -/
  devices : List BlockDevice
  readOk : ℕ → Bool
  writeOk : ℕ → Bool
  /-- How many bytes a write that fails has stored. -/
  torn : ℕ → ℕ
  /-- The allocation of the memory of a page. -/
  dataOk : ℕ → Bool
  /-- The allocation of a node of the hash table. -/
  nodeOk : ℕ → Bool

/-- `block_get_device`. -/
def BlockEnv.getDevice (env : BlockEnv) (name : Name) : Option BlockDevice :=
  env.devices.find? fun d => d.name = name

/-- A write-back: the page, and what was written. -/
structure Writeback where
  devName : Name
  pageIndex : ℕ
  data : ByteMemory

/-- The page cache and the contents of the devices. -/
structure PageCache where
  initialized : Bool
  pages : Slot → PageEntry
  index : Name → Option Slot
  stats : PageStats
  clockHand : Slot
  disk : Name → ByteMemory
  log : List Writeback
  reads : ℕ
  writes : ℕ
  dataAllocs : ℕ
  nodeAllocs : ℕ

namespace PageCache

variable (env : BlockEnv) (s : PageCache)

/-- Change the entry of a slot. -/
def setEntry (i : Slot) (e : PageEntry) : PageCache :=
  { s with pages := Function.update s.pages i e }

/-- The state after `page_cache_init`, and the contents of the devices. -/
def init (created : Bool) (disk : Name → ByteMemory) : PageCache where
  initialized := created
  pages := fun _ => ⟨[], 0, false, fun _ => 0, false, false, false, 0⟩
  index := fun _ => none
  stats := ⟨0, 0, 0, 0, 0, 0, 0, 0, 0⟩
  clockHand := 0
  disk := disk
  log := []
  reads := 0
  writes := 0
  dataAllocs := 0
  nodeAllocs := 0

/-! ## Transfers -/

/-- The first sector of a page. -/
def sector (e : PageEntry) : ℕ := e.pageIndex * pageCacheSectors % 2 ^ 64

/-- The page ends behind the last sector of the device. -/
def pastEnd (e : PageEntry) (d : BlockDevice) : Prop :=
  d.totalSectors < (sector e + pageCacheSectors) % 2 ^ 64
  deriving Decidable

/-- `page_read_from_disk`: whether the page was read. -/
def pageReadFromDisk (i : Slot) : PageCache × Bool :=
  let e := s.pages i
  match env.getDevice e.devName with
  | none => (s, false)
  | some d =>
    if d.hasRead = false then (s, false)
    else if pastEnd e d then (s.setEntry i { e with data := fun _ => 0 }, true)
    else if env.readOk s.reads = true then
      let s := s.setEntry i
        { e with
          data := e.data.paste 0 (s.disk e.devName) (sector e * sectorSize) pageCacheBlockSize }
      ({ s with stats.readIos := s.stats.readIos + 1, reads := s.reads + 1 }, true)
    else ({ s with reads := s.reads + 1 }, false)

/-- Store the first bytes of a page on its device. -/
def storePage (e : PageEntry) (n : ℕ) : PageCache :=
  { s with
    disk := Function.update s.disk e.devName
      ((s.disk e.devName).paste (sector e * sectorSize) e.data 0 n)
    writes := s.writes + 1 }

/-- `page_write_to_disk`: whether the page was written. -/
def pageWriteToDisk (i : Slot) : PageCache × Bool :=
  let e := s.pages i
  match env.getDevice e.devName with
  | none => (s, false)
  | some d =>
    if d.hasWrite = false ∨ d.readOnly = true then (s, false)
    else if pastEnd e d then (s, false)
    else if env.writeOk s.writes = true then
      let s := s.storePage e pageCacheBlockSize
      ({ s with
        stats.writeIos := s.stats.writeIos + 1
        stats.writebacks := s.stats.writebacks + 1
        log := ⟨e.devName, e.pageIndex, e.data⟩ :: s.log }, true)
    else (s.storePage e (min (env.torn s.writes) pageCacheBlockSize), false)

/-- Write a dirty page back; it is clean if that succeeds. -/
def flush (i : Slot) : PageCache × Bool :=
  let r := s.pageWriteToDisk env i
  if r.2 = true then
    let s := r.1.setEntry i { r.1.pages i with dirty := false }
    ({ s with stats.dirtyPages := s.stats.dirtyPages - 1 }, true)
  else (r.1, false)

def unindex (e : PageEntry) : PageCache :=
  { s with index := Function.update s.index (makeKey e.devName e.pageIndex) none }

/-- Give up the page of a slot. -/
def drop (i : Slot) : PageCache :=
  let s := s.unindex (s.pages i)
  let s := s.setEntry i { s.pages i with valid := false }
  { s with stats.residentPages := s.stats.residentPages - 1 }

/-! ## Eviction -/

/-- A slot is inspected: the slot, if it can be reused. -/
def inspect (i : Slot) : PageCache × Option Slot :=
  let e := s.pages i
  if e.valid = false then (s, some i)
  else if 0 < e.pinCount then (s, none)
  else if e.referenced = true then (s.setEntry i { e with referenced := false }, none)
  else
    let r := if e.dirty = true then s.flush env i else (s, true)
    if r.2 = true then
      let s := r.1.drop i
      ({ s with stats.evictions := s.stats.evictions + 1 }, some i)
    else (r.1, none)

/-- The slot at the clock hand is visited, and the hand moves on. -/
def visit : PageCache × Option Slot :=
  { s with clockHand := s.clockHand + 1 }.inspect env s.clockHand

/-- The loop of `evict_one`. -/
def evictLoop : ℕ → PageCache → PageCache × Option Slot
  | 0, s => (s, none)
  | n + 1, s =>
    match s.visit env with
    | (s, some i) => (s, some i)
    | (s, none) => evictLoop n s

def evictOne : PageCache × Option Slot := evictLoop env (64 * 2) s

/-! ## Pages -/

/-- `hashtable_put`: a key that is there gets a new value, and any other needs memory. -/
def put (key : Name) (i : Slot) : PageCache :=
  if (s.index key).isSome = true then { s with index := Function.update s.index key (some i) }
  else if env.nodeOk s.nodeAllocs = true then
    { s with index := Function.update s.index key (some i), nodeAllocs := s.nodeAllocs + 1 }
  else { s with nodeAllocs := s.nodeAllocs + 1 }

/-- The entry of a slot when it gets a page. -/
def reset (e : PageEntry) (dev : Name) (idx : ℕ) : PageEntry :=
  { e with
    devName := dev.take 31
    pageIndex := idx
    dirty := false
    referenced := true
    pinCount := 1 }

/-- Read the page of a slot; its memory is cleared if that fails. -/
def readOrClear (i : Slot) : PageCache :=
  let r := s.pageReadFromDisk env i
  if r.2 = true then r.1 else r.1.setEntry i { r.1.pages i with data := fun _ => 0 }

def load (i : Slot) (dev : Name) (idx : ℕ) : PageCache :=
  let s := s.setEntry i (reset (s.pages i) dev idx)
  let s := s.readOrClear env i
  let s := s.setEntry i { s.pages i with valid := true }
  let s := { s with stats.residentPages := s.stats.residentPages + 1 }
  s.put env (makeKey dev idx) i

/-- The slot has memory for a page, if there is any. -/
def allocData (i : Slot) : PageCache × Bool :=
  if (s.pages i).hasData = true then (s, true)
  else if env.dataOk s.dataAllocs = true then
    let s := s.setEntry i { s.pages i with hasData := true }
    ({ s with
      stats.memoryBytes := s.stats.memoryBytes + pageCacheBlockSize
      dataAllocs := s.dataAllocs + 1 }, true)
  else ({ s with dataAllocs := s.dataAllocs + 1 }, false)

/-- The part of `page_cache_get` behind the lookup. -/
def fetch (dev : Name) (idx : ℕ) : PageCache × Option Slot :=
  let s := { s with stats.misses := s.stats.misses + 1 }
  match s.evictOne env with
  | (s, none) => (s, none)
  | (s, some i) =>
    let r := s.allocData env i
    if r.2 = true then (r.1.load env i dev idx, some i) else (r.1, none)

/-- The page of a slot is found. -/
def touch (i : Slot) : PageCache :=
  let s := s.setEntry i
    { s.pages i with referenced := true, pinCount := ((s.pages i).pinCount + 1) % 2 ^ 32 }
  { s with stats.hits := s.stats.hits + 1 }

/-- The slot that the index has for a page, if it is valid. -/
def lookup (dev : Name) (idx : ℕ) : Option Slot :=
  (s.index (makeKey dev idx)).filter fun i => (s.pages i).valid

/-- `page_cache_get`. -/
def get (dev : Name) (idx : ℕ) : PageCache × Option Slot :=
  if s.initialized = false then (s, none)
  else
    match s.lookup dev idx with
    | some i => (s.touch i, some i)
    | none => s.fetch env dev idx

/-- `page_cache_release`. -/
def release (i : Slot) : PageCache :=
  if 0 < (s.pages i).pinCount then
    s.setEntry i { s.pages i with pinCount := (s.pages i).pinCount - 1 }
  else s

/-- `page_cache_mark_dirty`. -/
def markDirty (i : Slot) : PageCache :=
  if (s.pages i).valid = true ∧ (s.pages i).dirty = false then
    let s := s.setEntry i { s.pages i with dirty := true }
    { s with stats.dirtyPages := s.stats.dirtyPages + 1 }
  else s

/-- Change bytes of the page of a slot. -/
def modify (i : Slot) (pos : ℕ) (buf : ByteMemory) (src n : ℕ) : PageCache :=
  s.setEntry i { s.pages i with data := (s.pages i).data.paste pos buf src n }

/-- The loop of `page_cache_read`; `out` are the bytes that it has read. -/
def readLoop (dev : Name) (offset len : ℕ) : ℕ → PageCache → List UInt8 → PageCache × List UInt8
  | 0, s, out => (s, out)
  | fuel + 1, s, out =>
    if out.length < len then
      let pos := (offset + out.length) % 2 ^ 64
      let pageOff := pos % pageCacheBlockSize
      let chunk := min (pageCacheBlockSize - pageOff) (len - out.length)
      match s.get env dev (pos / pageCacheBlockSize) with
      | (s, none) => (s, out)
      | (s, some i) =>
        readLoop dev offset len fuel (s.release i) (out ++ (s.pages i).data.bytes pageOff chunk)
    else (s, out)

/-- `page_cache_read`: each round reads at least one byte. -/
def read (dev : Name) (offset len : ℕ) : PageCache × List UInt8 :=
  if s.initialized = false then (s, []) else readLoop env dev offset len len s []

/-- The loop of `page_cache_write`; `done` bytes are written. -/
def writeLoop (dev : Name) (offset : ℕ) (buf : List UInt8) : ℕ → PageCache → ℕ → PageCache × ℕ
  | 0, s, done => (s, done)
  | fuel + 1, s, done =>
    if done < buf.length then
      let pos := (offset + done) % 2 ^ 64
      let pageOff := pos % pageCacheBlockSize
      let chunk := min (pageCacheBlockSize - pageOff) (buf.length - done)
      match s.get env dev (pos / pageCacheBlockSize) with
      | (s, none) => (s, done)
      | (s, some i) =>
        writeLoop dev offset buf fuel
          (((s.modify i pageOff (fun k => buf.getD k 0) done chunk).markDirty i).release i)
          (done + chunk)
    else (s, done)

/-- `page_cache_write`. -/
def write (dev : Name) (offset : ℕ) (buf : List UInt8) : PageCache × ℕ :=
  if s.initialized = false then (s, 0) else writeLoop env dev offset buf buf.length s 0

/-- The slot belongs to the device, if one is given. -/
def matchesDev (e : PageEntry) : Option Name → Prop
  | none => True
  | some dev => e.devName = dev

instance (e : PageEntry) : DecidablePred (matchesDev e) := by
  rintro ⟨⟩ <;> dsimp only [matchesDev] <;> infer_instance

/-- The loop of `page_cache_sync_dev`, with the number of pages that are written. -/
def syncLoop (dev : Option Name) : List Slot → PageCache → ℕ → PageCache × ℕ
  | [], s, flushed => (s, flushed)
  | i :: is, s, flushed =>
    if (s.pages i).valid = true ∧ (s.pages i).dirty = true ∧ matchesDev (s.pages i) dev then
      let r := s.flush env i
      syncLoop dev is r.1 (if r.2 = true then flushed + 1 else flushed)
    else syncLoop dev is s flushed

/-- `page_cache_sync_dev`; without a device it is `page_cache_sync`. -/
def syncDev (dev : Option Name) : PageCache × Option ℕ :=
  if s.initialized = false then (s, none)
  else
    let r := syncLoop env dev (List.finRange 64) s 0
    (r.1, some r.2)

/-- The loop of `page_cache_invalidate`, with the number of pages that are given up. -/
def invalidateLoop (dev : Option Name) : List Slot → PageCache → ℕ → PageCache × ℕ
  | [], s, dropped => (s, dropped)
  | i :: is, s, dropped =>
    if (s.pages i).valid = true ∧ (s.pages i).dirty = false ∧ (s.pages i).pinCount = 0 ∧
        matchesDev (s.pages i) dev then
      invalidateLoop dev is (s.drop i) (dropped + 1)
    else invalidateLoop dev is s dropped

/-- `page_cache_invalidate`. -/
def invalidate (dev : Option Name) : PageCache × Option ℕ :=
  if s.initialized = false then (s, none)
  else
    let r := invalidateLoop dev (List.finRange 64) s 0
    (r.1, some r.2)

/-- `page_cache_drop_all`. -/
def dropAll : PageCache := ((s.syncDev env none).1.invalidate none).1

/-! ## Sequences of calls -/

/-- A call. `poke` is no function of the cache: a caller changes a byte of a page that it has got.
-/
inductive Event where
  | read (dev : Name) (offset len : ℕ)
  | write (dev : Name) (offset : ℕ) (buf : List UInt8)
  | get (dev : Name) (idx : ℕ)
  | release (i : Slot)
  | markDirty (i : Slot)
  | poke (i : Slot) (pos : ℕ) (value : UInt8)
  | sync (dev : Option Name)
  | invalidate (dev : Option Name)
  | dropAll
  deriving DecidableEq, Repr

def step (s : PageCache) : Event → PageCache
  | .read dev offset len => (s.read env dev offset len).1
  | .write dev offset buf => (s.write env dev offset buf).1
  | .get dev idx => (s.get env dev idx).1
  | .release i => s.release i
  | .markDirty i => s.markDirty i
  | .poke i pos value => s.modify i pos (fun _ => value) 0 1
  | .sync dev => (s.syncDev env dev).1
  | .invalidate dev => (s.invalidate dev).1
  | .dropAll => s.dropAll env

end PageCache

end SubOS.Mm
