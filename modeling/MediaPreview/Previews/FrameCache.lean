import MediaPreview.Lib.Dict
import MediaPreview.Lib.Runs
import MediaPreview.Lib.Trim
import MediaPreview.Previews.Journal

/-!
# The frame cache

`FrameCache` of `processing/frame_cache.py` and the dispatches of `processing/multi_server.py` that use it
(`_process_canonical_path_previews`, from its fingerprint of the source to the release of the path's generation lock).
Three things are shared: the entries, the slot folders and the generation locks, by the key of a path
(`sha256` cut to 16 digits, so two paths may have one key). A call of the cache is one step, as it holds the cache's
lock; what a dispatch does in its slot goes frame by frame.

What is on the disk at a time is taken from outside: `source` says what file a path has at a time. A file or folder
that cannot be removed stays: an event says what is left of each folder it removes, and what is left in a slot that is
emptied.

A step of a dispatch changes no slot, entry or lock of a key another one holds (`touches_of_step`).
-/

namespace MediaPreview.Frames

open Previews (SourceFingerprint sameSource)

/-- What a frame was made from. -/
inductive Origin (σ : Type*) where
  /-- The source's file when the frame was written, by an extraction with these settings. -/
  | extracted (source : Option SourceFingerprint) (settings : σ)
  /-- Another publisher's BIF that was judged fresh: of what file and with what settings it was made it does not say. -/
  | unpacked
  deriving DecidableEq

/-- A frame in a slot. -/
structure Frame (σ : Type*) where
  /-- The run it is of: an extraction, or a BIF unpacked. -/
  run : ℕ
  /-- Its number in the run. -/
  index : ℕ
  /-- What it was made from. -/
  origin : Origin σ
  deriving DecidableEq

/-- A slot's folder: its frames, and when it was last written to. -/
structure Slot (σ : Type*) where
  /-- The `.jpg` files. -/
  frames : List (Frame σ)
  /-- `st_mtime`. -/
  mtime : ℕ

/-- `CacheEntry`, whose folder is its key's slot. -/
structure CacheEntry (σ : Type*) where
  /-- `frame_count`. -/
  frameCount : ℕ
  /-- `cached_at`. -/
  cachedAt : ℕ
  /-- `extraction_key`. -/
  extractionKey : σ
  /-- `source_fingerprint`. -/
  sourceFingerprint : SourceFingerprint
  /-- `size_bytes`. -/
  sizeBytes : ℕ

/-- How far a dispatch is. -/
inductive Phase where
  /-- Waiting for the generation lock, as every dispatch begins. -/
  | waiting
  /-- It has the lock. -/
  | locked
  /-- `cache.get` found nothing. -/
  | missed
  /-- About to empty its slot, for a sibling's BIF or for an extraction. -/
  | trying (reuse : Bool)
  /-- A run writes frames into its slot, emptied before. -/
  | working (run : ℕ) (reuse : Bool)
  /-- The run returned with so many frames. -/
  | made (run : ℕ) (reuse : Bool) (count : ℕ)
  /-- So many frames are published from the slot. -/
  | publishing (count : ℕ)
  /-- Only the lock is left to release. -/
  | leaving
  deriving DecidableEq

namespace Phase

/-- `slot_emptied`. -/
def slotEmptied : Phase → Bool
  | .trying _ | .working _ _ | .made _ _ _ => true
  | .waiting | .locked | .missed | .publishing _ | .leaving => false

/-- Whether a dispatch goes on to a BIF, or else to an extraction: after a lookup, which a regenerate skips, and to an
extraction also after the BIFs. -/
def mayTry (regenerate siblings reuse : Bool) : Phase → Bool
  | .locked => regenerate && !reuse
  | .missed => !reuse || siblings
  | .trying reuse' | .working _ reuse' => reuse' && !reuse
  | .waiting | .made _ _ _ | .publishing _ | .leaving => false

/-- What a run that begins now is of: retries and further BIFs empty the slot again. -/
def tried : Phase → Option Bool
  | .trying reuse | .working _ reuse => some reuse
  | .waiting | .locked | .missed | .made _ _ _ | .publishing _ | .leaving => none

/-- The run at work, and whether it unpacks a BIF. -/
def run : Phase → Option (ℕ × Bool)
  | .working run reuse => some (run, reuse)
  | .waiting | .locked | .missed | .trying _ | .made _ _ _ | .publishing _ | .leaving => none

/-- How many frames the run that returned left. -/
def made? : Phase → Option ℕ
  | .made _ _ count => some count
  | .waiting | .locked | .missed | .trying _ | .working _ _ | .publishing _ | .leaving => none

/-- Whether frames are published. -/
def publishing? : Phase → Bool
  | .publishing _ => true
  | .waiting | .locked | .missed | .trying _ | .working _ _ | .made _ _ _ | .leaving => false

end Phase

/-- A dispatch with the frame cache on. -/
structure Dispatch (π σ : Type*) where
  /-- `canonical_path`. -/
  path : π
  /-- `regenerate`. -/
  regenerate : Bool
  /-- More than one publisher: another one's BIF may do. -/
  siblings : Bool
  /-- `extraction_key`. -/
  extractionKey : σ
  /-- When its fingerprint of the source was taken. -/
  began : ℕ
  /-- `source_fingerprint`. -/
  fingerprint : SourceFingerprint
  /-- How far it is. -/
  phase : Phase

/-- The cache, its folders, and the dispatches under way by number. -/
structure FrameCache (κ π σ : Type*) where
  /-- The time. -/
  now : ℕ
  /-- `_ttl_seconds`. -/
  ttl : ℕ
  /-- `_max_entries`. -/
  maxEntries : ℕ
  /-- `_max_disk_bytes`. -/
  maxDiskBytes : ℕ
  /-- `_entries`, the last used last. -/
  entries : List (κ × CacheEntry σ)
  /-- The slots' folders. -/
  slots : κ → Option (Slot σ)
  /-- `_generation_locks`: by whom each is held. -/
  locks : κ → Option ℕ
  /-- The dispatches. -/
  dispatches : ℕ → Option (Dispatch π σ)
  /-- The number of the next run. -/
  runs : ℕ
  /-- The runs that returned, with how many frames; nothing reads it. -/
  completed : List (ℕ × ℕ)

/-- What the disk does at an event: what is left of a folder that is removed, and which slots a listing comes to. -/
structure Disk (κ σ : Type*) where
  /-- `none` where all of it is removed. -/
  left : κ → Option (Slot σ)
  /-- The slots listed before the listing fails, if it does. -/
  listed : κ → Bool

/-- What can happen. -/
inductive CacheEvent (κ π σ : Type*) where
  /-- Time passes. -/
  | tick
  /-- `get_frame_cache` takes over new settings. -/
  | configure (ttl maxDiskBytes : ℕ)
  /-- Dispatch `d` takes its fingerprint of the source. -/
  | start (d : ℕ) (path : π) (regenerate siblings : Bool) (extractionKey : σ)
  /-- It gets the generation lock. -/
  | acquire (d : ℕ)
  /-- It is cancelled while it waits. -/
  | giveUp (d : ℕ)
  /-- `cache.get`. -/
  | lookup (d : ℕ) (disk : Disk κ σ)
  /-- It goes on to a sibling's BIF, or to an extraction. -/
  | try (d : ℕ) (reuse : Bool)
  /-- A run begins: `_clean_output_images`, and what that leaves. -/
  | empty (d : ℕ) (left : List (Frame σ))
  /-- The run writes a frame. -/
  | write (d : ℕ)
  /-- The run returns, with frames. -/
  | finish (d : ℕ)
  /-- The source is found unchanged, and the frames are stored: `cache.put`, the frames' size measured. -/
  | put (d sizeBytes : ℕ) (disk : Disk κ σ)
  /-- The source is found unchanged, and a publisher reads the frames. -/
  | publish (d : ℕ)
  /-- It stops, at its end or before: what its `finally` does before the release. -/
  | stop (d : ℕ) (disk : Disk κ σ)
  /-- It releases the lock. -/
  | release (d : ℕ)
  /-- The app dies and is started again. -/
  | restart (disk : Disk κ σ)

/-- The dispatch whose event it is. -/
def CacheEvent.dispatch {κ π σ : Type*} : CacheEvent κ π σ → Option ℕ
  | .start d _ _ _ _ | .acquire d | .giveUp d | .lookup d _ | .try d _ | .empty d _ | .write d | .finish d
  | .put d _ _ | .publish d | .stop d _ | .release d => some d
  | .tick | .configure _ _ | .restart _ => none

/-- `same_source` of a source as it is. -/
def unchanged (source : Option SourceFingerprint) (fingerprint : SourceFingerprint) : Bool :=
  source.any fun current => sameSource current fingerprint

namespace FrameCache

variable {κ π σ : Type*} [DecidableEq κ] [DecidableEq σ] (key : π → κ) (source : ℕ → π → Option SourceFingerprint)

/-- Nothing cached yet. -/
def fresh (ttl maxEntries maxDiskBytes : ℕ) (slots : κ → Option (Slot σ)) : FrameCache κ π σ where
  now := 0
  ttl := ttl
  maxEntries := maxEntries
  maxDiskBytes := maxDiskBytes
  entries := []
  slots := slots
  locks _ := none
  dispatches _ := none
  runs := 0
  completed := []

/-- `_generation_lock_for_key(key).acquire(blocking=False)` would succeed. -/
def idle (s : FrameCache κ π σ) (k : κ) : Bool := (s.locks k).isNone

/-- Entries and folders are removed. -/
def remove (s : FrameCache κ π σ) (gone : κ → Bool) (disk : Disk κ σ) : FrameCache κ π σ where
  __ := s
  entries := s.entries.filter fun e => !gone e.1
  slots k := if gone k then (s.slots k).bind fun _ => disk.left k else s.slots k

/-- `_evict`. -/
def evict (s : FrameCache κ π σ) (k : κ) (disk : Disk κ σ) : FrameCache κ π σ := s.remove (· = k) disk

/-- What `_sweep_expired` finds expired: an entry by its age, a slot without one by its folder's. -/
def expired (s : FrameCache κ π σ) (disk : Disk κ σ) (k : κ) : Bool :=
  match Dict.get? s.entries k with
  | some entry => entry.cachedAt + s.ttl < s.now
  | none => disk.listed k && (s.slots k).any fun slot => slot.mtime + s.ttl < s.now

/-- `_sweep_expired`, with `_remove_slot_if_idle`. -/
def sweepExpired (s : FrameCache κ π σ) (keep : Option κ) (disk : Disk κ σ) : FrameCache κ π σ :=
  s.remove (fun k => s.expired disk k && keep ≠ some k && s.idle k) disk

/-- The keys the entry cap takes. -/
def overEntries (s : FrameCache κ π σ) : List κ :=
  Trim.trim s.idle (fun _ => 1) s.maxEntries s.entries.length (s.entries.map Prod.fst)

/-- An entry's size by its key. -/
def sizeOf (s : FrameCache κ π σ) (k : κ) : ℕ := (Dict.get? s.entries k).elim 0 CacheEntry.sizeBytes

/-- The keys the disk cap takes: never the last. -/
def overDisk (s : FrameCache κ π σ) : List κ :=
  Trim.trim s.idle s.sizeOf s.maxDiskBytes (s.entries.map fun e => e.2.sizeBytes).sum
    (s.entries.map Prod.fst).dropLast

/-- `_enforce_caps`. -/
def enforceCaps (s : FrameCache κ π σ) (disk : Disk κ σ) : FrameCache κ π σ :=
  let s := s.remove (· ∈ s.overEntries) disk
  if s.maxDiskBytes = 0 ∨ s.entries = [] then s else s.remove (· ∈ s.overDisk) disk

/-- An entry becomes the last. -/
def store (s : FrameCache κ π σ) (k : κ) (entry : CacheEntry σ) : FrameCache κ π σ where
  __ := s
  entries := Dict.erase s.entries k ++ [(k, entry)]

/-- `put`. -/
def put (s : FrameCache κ π σ) (k : κ) (entry : CacheEntry σ) (disk : Disk κ σ) : FrameCache κ π σ :=
  ((s.store k entry).sweepExpired (some k) disk).enforceCaps disk

/-- `invalidate`. -/
def invalidate (s : FrameCache κ π σ) (k : κ) (disk : Disk κ σ) : FrameCache κ π σ := s.evict k disk

/-- What an entry has to be for `get` to give it: made with the same settings, young enough, its frames all there and
its source unchanged. -/
def valid (s : FrameCache κ π σ) (k : κ) (path : π) (extractionKey : σ) (entry : CacheEntry σ) : Bool :=
  entry.extractionKey = extractionKey && !decide (entry.cachedAt + s.ttl < s.now) &&
    (s.slots k).any (fun slot => slot.frames.length = entry.frameCount) &&
    unchanged (source s.now path) entry.sourceFingerprint

/-- A dispatch goes on, or is over. -/
def withDispatch (s : FrameCache κ π σ) (d : ℕ) (dispatch : Option (Dispatch π σ)) : FrameCache κ π σ where
  __ := s
  dispatches d' := if d' = d then dispatch else s.dispatches d'

/-- A slot's folder is written to. -/
def withSlot (s : FrameCache κ π σ) (k : κ) (frames : List (Frame σ)) : FrameCache κ π σ where
  __ := s
  slots k' := if k' = k then some ⟨frames, s.now⟩ else s.slots k'

/-- A generation lock changes hands. -/
def withLock (s : FrameCache κ π σ) (k : κ) (holder : Option ℕ) : FrameCache κ π σ where
  __ := s
  locks k' := if k' = k then holder else s.locks k'

/-- A run has its number. -/
def nextRun (s : FrameCache κ π σ) : FrameCache κ π σ := { s with runs := s.runs + 1 }

/-- A run returned. -/
def complete (s : FrameCache κ π σ) (run count : ℕ) : FrameCache κ π σ :=
  { s with completed := (run, count) :: s.completed }

/-! ### The steps of a dispatch `d` that is as far as `D` -/

variable (s : FrameCache κ π σ) (d : ℕ) (D : Dispatch π σ)

/-- It goes on to a phase. -/
def goOn (p : Phase) : FrameCache κ π σ := s.withDispatch d (some { D with phase := p })

/-- `generation_lock.acquire`. -/
def acquire : Option (FrameCache κ π σ) :=
  if D.phase = .waiting ∧ s.locks (key D.path) = none then
    some ((s.withLock (key D.path) (some d)).goOn d D .locked)
  else none

/-- Cancelled while it waits. -/
def giveUp : Option (FrameCache κ π σ) := if D.phase = .waiting then some (s.withDispatch d none) else none

/-- `get`. -/
def get (disk : Disk κ σ) : FrameCache κ π σ :=
  match Dict.get? s.entries (key D.path) with
  | none => s.goOn d D .missed
  | some entry =>
    if s.valid source (key D.path) D.path D.extractionKey entry then
      (s.store (key D.path) entry).goOn d D (.publishing entry.frameCount)
    else (s.evict (key D.path) disk).goOn d D .missed

/-- The lookup, which a regenerate skips. -/
def lookup (disk : Disk κ σ) : Option (FrameCache κ π σ) :=
  if D.phase = .locked ∧ D.regenerate = false then some (s.get key source d D disk) else none

/-- On to a sibling's BIF, or to an extraction. -/
def tryRun (reuse : Bool) : Option (FrameCache κ π σ) :=
  if D.phase.mayTry D.regenerate D.siblings reuse then some (s.goOn d D (.trying reuse)) else none

/-- A run begins in the slot, with what could not be removed from it. -/
def empty (left : List (Frame σ)) : Option (FrameCache κ π σ) :=
  D.phase.tried.map fun reuse => ((s.withSlot (key D.path) left).nextRun).goOn d D (.working s.runs reuse)

/-- The run writes a frame. -/
def write : Option (FrameCache κ π σ) :=
  D.phase.run.bind fun run => (s.slots (key D.path)).map fun slot => s.withSlot (key D.path) (slot.frames ++
    [⟨run.1, slot.frames.length, if run.2 then .unpacked else .extracted (source s.now D.path) D.extractionKey⟩])

/-- The run returns. -/
def finish : Option (FrameCache κ π σ) :=
  D.phase.run.bind fun run => (s.slots (key D.path)).bind fun slot =>
    if slot.frames = [] then none
    else some ((s.complete run.1 slot.frames.length).goOn d D (.made run.1 run.2 slot.frames.length))

/-- The frames are stored, the source unchanged. -/
def storeFrames (sizeBytes : ℕ) (disk : Disk κ σ) : Option (FrameCache κ π σ) :=
  D.phase.made?.bind fun count =>
    if unchanged (source s.now D.path) D.fingerprint then
      some ((s.put (key D.path) ⟨count, s.now, D.extractionKey, D.fingerprint, sizeBytes⟩ disk).goOn d D
        (.publishing count))
    else none

/-- A publisher reads the frames, the source unchanged. -/
def publish : Option (FrameCache κ π σ) :=
  if D.phase.publishing? && unchanged (source s.now D.path) D.fingerprint then some s else none

/-- It stops: `invalidate`, if it emptied the slot and stored nothing. -/
def stop (disk : Disk κ σ) : Option (FrameCache κ π σ) :=
  if D.phase = .waiting ∨ D.phase = .leaving then none
  else some ((if D.phase.slotEmptied then s.invalidate (key D.path) disk else s).goOn d D .leaving)

/-- `generation_lock.release`. -/
def release : Option (FrameCache κ π σ) :=
  if D.phase = .leaving then some ((s.withLock (key D.path) none).withDispatch d none) else none

/-- The app starts again: a new cache sweeps what the last one left. -/
def restart (disk : Disk κ σ) : FrameCache κ π σ :=
  sweepExpired { s with entries := [], locks := fun _ => none, dispatches := fun _ => none } none disk

/-- One event. -/
def step (s : FrameCache κ π σ) : CacheEvent κ π σ → Option (FrameCache κ π σ)
  | .tick => some { s with now := s.now + 1 }
  | .configure ttl maxDiskBytes => some { s with ttl := ttl, maxDiskBytes := maxDiskBytes }
  | .start d path regenerate siblings extractionKey =>
    if s.dispatches d = none then
      (source s.now path).map fun fingerprint => s.withDispatch d (some
        ⟨path, regenerate, siblings, extractionKey, s.now, fingerprint, .waiting⟩)
    else none
  | .acquire d => (s.dispatches d).bind fun D => s.acquire key d D
  | .giveUp d => (s.dispatches d).bind fun D => s.giveUp d D
  | .lookup d disk => (s.dispatches d).bind fun D => s.lookup key source d D disk
  | .try d reuse => (s.dispatches d).bind fun D => s.tryRun d D reuse
  | .empty d left => (s.dispatches d).bind fun D => s.empty key d D left
  | .write d => (s.dispatches d).bind fun D => s.write key source D
  | .finish d => (s.dispatches d).bind fun D => s.finish key d D
  | .put d sizeBytes disk => (s.dispatches d).bind fun D => s.storeFrames key source d D sizeBytes disk
  | .publish d => (s.dispatches d).bind fun D => s.publish source D
  | .stop d disk => (s.dispatches d).bind fun D => s.stop key d D disk
  | .release d => (s.dispatches d).bind fun D => s.release key d D
  | .restart disk => some (s.restart disk)

/-! ### What an event touches -/

/-- What a step of a dispatch, or of none, does not change: what another dispatch has the lock of. -/
structure Touches (d : Option ℕ) (s s' : FrameCache κ π σ) : Prop where
  /-- Time does not go back. -/
  now : s.now ≤ s'.now
  /-- Runs stay completed. -/
  completed : s.completed ⊆ s'.completed
  /-- The locks stay. -/
  locks : s'.locks = s.locks
  /-- So does every other dispatch. -/
  dispatches : ∀ d', some d' ≠ d → s'.dispatches d' = s.dispatches d'
  /-- The slots of other dispatches stay as they are. -/
  slots : ∀ k d', s.locks k = some d' → some d' ≠ d → s'.slots k = s.slots k
  /-- So do their entries. -/
  found : ∀ k d', s.locks k = some d' → some d' ≠ d → Dict.get? s'.entries k = Dict.get? s.entries k
  /-- An entry that is there was, with its slot, or is the dispatch's own. -/
  entries : ∀ k entry, (k, entry) ∈ s'.entries →
    (k, entry) ∈ s.entries ∧ s'.slots k = s.slots k ∨ ∃ d', d = some d' ∧ s.locks k = some d'
  /-- The entries have keys of their own, as they had. -/
  nodup : (s.entries.map Prod.fst).Nodup → (s'.entries.map Prod.fst).Nodup

omit [DecidableEq σ] s d D

variable {s s' s'' : FrameCache κ π σ} {d : Option ℕ} {disk : Disk κ σ}

theorem Touches.refl (s : FrameCache κ π σ) : Touches d s s where
  now := Nat.le_refl _
  completed := List.Subset.refl _
  locks := rfl
  dispatches _ _ := rfl
  slots _ _ _ _ := rfl
  found _ _ _ _ := rfl
  entries _ _ h := .inl ⟨h, rfl⟩
  nodup := id

theorem Touches.trans (h : Touches d s s') (h' : Touches d s' s'') : Touches d s s'' where
  now := Nat.le_trans h.now h'.now
  completed := List.Subset.trans h.completed h'.completed
  locks := h'.locks.trans h.locks
  dispatches d' hd := (h'.dispatches d' hd).trans (h.dispatches d' hd)
  slots k d' hk hd := (h'.slots k d' (by rw [h.locks, hk]) hd).trans (h.slots k d' hk hd)
  found k d' hk hd := (h'.found k d' (by rw [h.locks, hk]) hd).trans (h.found k d' hk hd)
  entries k entry hentry := by
    rcases h'.entries k entry hentry with ⟨hthere, hslot⟩ | ⟨d', hd, hlock⟩
    · rcases h.entries k entry hthere with ⟨hthere, hslot'⟩ | hmine
      · exact .inl ⟨hthere, hslot.trans hslot'⟩
      · exact .inr hmine
    · exact .inr ⟨d', hd, by rw [← h.locks, hlock]⟩
  nodup := h'.nodup ∘ h.nodup

theorem touches_withDispatch (s : FrameCache κ π σ) (d : ℕ) (dispatch : Option (Dispatch π σ)) :
    Touches (some d) s (s.withDispatch d dispatch) where
  now := Nat.le_refl _
  completed := List.Subset.refl _
  locks := rfl
  dispatches _ hd := if_neg fun h => hd (congrArg some h)
  slots _ _ _ _ := rfl
  found _ _ _ _ := rfl
  entries _ _ h := .inl ⟨h, rfl⟩
  nodup := id

theorem touches_tick (s : FrameCache κ π σ) : Touches d s { s with now := s.now + 1 } :=
  ⟨Nat.le_succ _, List.Subset.refl _, rfl, fun _ _ => rfl, fun _ _ _ _ => rfl, fun _ _ _ _ => rfl,
    fun _ _ h => .inl ⟨h, rfl⟩, id⟩

theorem touches_configure (s : FrameCache κ π σ) (ttl maxDiskBytes : ℕ) :
    Touches d s { s with ttl := ttl, maxDiskBytes := maxDiskBytes } :=
  ⟨Nat.le_refl _, List.Subset.refl _, rfl, fun _ _ => rfl, fun _ _ _ _ => rfl, fun _ _ _ _ => rfl,
    fun _ _ h => .inl ⟨h, rfl⟩, id⟩

theorem touches_nextRun (s : FrameCache κ π σ) : Touches d s s.nextRun :=
  ⟨Nat.le_refl _, List.Subset.refl _, rfl, fun _ _ => rfl, fun _ _ _ _ => rfl, fun _ _ _ _ => rfl,
    fun _ _ h => .inl ⟨h, rfl⟩, id⟩

theorem touches_complete (s : FrameCache κ π σ) (run count : ℕ) : Touches d s (s.complete run count) :=
  ⟨Nat.le_refl _, List.subset_cons_self _ _, rfl, fun _ _ => rfl, fun _ _ _ _ => rfl, fun _ _ _ _ => rfl,
    fun _ _ h => .inl ⟨h, rfl⟩, id⟩

omit [DecidableEq κ] in
/-- A key another dispatch has the lock of is not this one's. -/
theorem ne_of_locks {k k' : κ} {d d' : ℕ} (hk : s.locks k = some d) (hk' : s.locks k' = some d')
    (hne : some d' ≠ some d) : k' ≠ k := by
  rintro rfl
  exact hne (hk'.symm.trans hk)

theorem touches_withSlot {d : ℕ} {k : κ} (hk : s.locks k = some d) (frames : List (Frame σ)) :
    Touches (some d) s (s.withSlot k frames) where
  now := Nat.le_refl _
  completed := List.Subset.refl _
  locks := rfl
  dispatches _ _ := rfl
  slots _ _ hk' hd := if_neg (ne_of_locks hk hk' hd)
  found _ _ _ _ := rfl
  entries k' _ h := by
    by_cases heq : k' = k
    · exact .inr ⟨d, rfl, heq ▸ hk⟩
    · exact .inl ⟨h, if_neg heq⟩
  nodup := id

theorem nodup_store (h : (s.entries.map Prod.fst).Nodup) (k : κ) (entry : CacheEntry σ) :
    ((s.store k entry).entries.map Prod.fst).Nodup := by
  rw [store, List.map_append]
  refine List.nodup_append.mpr ⟨(List.filter_sublist.map Prod.fst).nodup h, List.pairwise_singleton _ _, ?_⟩
  intro k' hk' k'' hk''
  obtain ⟨e, he, rfl⟩ := List.mem_map.mp hk'
  obtain rfl := List.mem_singleton.mp hk''
  simpa using (List.mem_filter.mp he).2

theorem touches_store {d : ℕ} {k : κ} (hk : s.locks k = some d) (entry : CacheEntry σ) :
    Touches (some d) s (s.store k entry) where
  now := Nat.le_refl _
  completed := List.Subset.refl _
  locks := rfl
  dispatches _ _ := rfl
  slots _ _ _ _ := rfl
  found k' d' hk' hd := by
    have hne := ne_of_locks hk hk' hd
    have hlast : k' ∉ [(k, entry)].map Prod.fst := fun h => hne (List.mem_singleton.mp h)
    exact (Dict.get?_append_left _ hlast).trans (Dict.get?_erase _ hne.symm)
  entries k' entry' h := by
    rcases List.mem_append.mp h with h | h
    · exact .inl ⟨List.mem_of_mem_filter h, rfl⟩
    · obtain ⟨rfl, -⟩ := Prod.mk.inj (List.mem_singleton.mp h)
      exact .inr ⟨d, rfl, hk⟩
  nodup h := nodup_store h k entry

/-- Only keys that are idle, or the dispatch's own, are removed. -/
theorem touches_remove {gone : κ → Bool}
    (h : ∀ k, gone k = true → s.idle k = true ∨ ∃ d', d = some d' ∧ s.locks k = some d') :
    Touches d s (s.remove gone disk) := by
  have hstays : ∀ k d', s.locks k = some d' → some d' ≠ d → gone k = false := by
    intro k d' hk hd
    refine Bool.eq_false_iff.mpr fun hgone => ?_
    rcases h k hgone with hidle | ⟨d'', rfl, hk'⟩
    · rw [idle, hk] at hidle
      cases hidle
    · exact hd (hk.symm.trans hk')
  refine ⟨Nat.le_refl _, List.Subset.refl _, rfl, fun _ _ => rfl, fun k d' hk hd => ?_, fun k d' hk hd => ?_,
    fun k entry hentry => ?_, (List.filter_sublist.map Prod.fst).nodup⟩
  · exact if_neg (by rw [hstays k d' hk hd]; exact Bool.false_ne_true)
  · rw [remove, Dict.get?_filter fun k => !gone k, hstays k d' hk hd]
    rfl
  · obtain ⟨hthere, hgone⟩ := List.mem_filter.mp hentry
    refine .inl ⟨hthere, if_neg ?_⟩
    rw [Bool.not_eq_true'] at hgone
    rw [hgone]
    exact Bool.false_ne_true

/-- Entries of the dispatch's own key may be removed. -/
theorem touches_evict {d : ℕ} {k : κ} (hk : s.locks k = some d) (disk : Disk κ σ) :
    Touches (some d) s (s.evict k disk) :=
  touches_remove fun _ hgone => .inr ⟨d, rfl, of_decide_eq_true hgone ▸ hk⟩

theorem touches_sweepExpired (keep : Option κ) : Touches d s (s.sweepExpired keep disk) := by
  refine touches_remove fun k hgone => .inl ?_
  rw [Bool.and_eq_true] at hgone
  exact hgone.2

theorem touches_enforceCaps : Touches d s (s.enforceCaps disk) := by
  have hentries : Touches d s (s.remove (· ∈ s.overEntries) disk) :=
    touches_remove fun k hgone => .inl (Trim.idle_of_mem_trim (of_decide_eq_true hgone))
  unfold enforceCaps
  dsimp only
  split_ifs
  · exact hentries
  · exact hentries.trans (touches_remove fun k hgone => .inl (Trim.idle_of_mem_trim (of_decide_eq_true hgone)))

/-- Frames are stored: nothing of another dispatch is swept or trimmed. -/
theorem touches_put {d : ℕ} {k : κ} (hk : s.locks k = some d) (entry : CacheEntry σ) (disk : Disk κ σ) :
    Touches (some d) s (s.put k entry disk) :=
  ((touches_store hk entry).trans (touches_sweepExpired (some k))).trans touches_enforceCaps

omit [DecidableEq κ] in
/-- What a removal leaves of a key that is not removed. -/
theorem remove_of_stays (s : FrameCache κ π σ) (gone : κ → Bool) (disk : Disk κ σ) {k : κ} (h : gone k = false) :
    (s.remove gone disk).slots k = s.slots k ∧
      ∀ entry, (k, entry) ∈ (s.remove gone disk).entries ↔ (k, entry) ∈ s.entries := by
  refine ⟨if_neg (by rw [h]; exact Bool.false_ne_true), fun entry => ?_⟩
  rw [remove, List.mem_filter, h]
  exact and_iff_left rfl

/-- Neither is a key whose lock is held. -/
theorem stays_of_locks {k : κ} {d : ℕ} (hk : s.locks k = some d) {total cap : ℕ} {keys : List κ} {weight : κ → ℕ} :
    decide (k ∈ Trim.trim s.idle weight cap total keys) = false := by
  refine decide_eq_false fun hmem => ?_
  have hidle := Trim.idle_of_mem_trim hmem
  rw [idle, hk] at hidle
  cases hidle

/-- An entry that is stored is the only one of its key. -/
theorem mem_store (s : FrameCache κ π σ) (k : κ) (entry entry' : CacheEntry σ) :
    (k, entry') ∈ (s.store k entry).entries ↔ entry' = entry := by
  rw [store, List.mem_append, List.mem_singleton, Prod.mk.injEq]
  constructor
  · rintro (hold | ⟨-, rfl⟩)
    · exact absurd (List.mem_filter.mp hold).2 (by simp)
    · rfl
  · rintro rfl
    exact .inr ⟨rfl, rfl⟩

/-- **What `put` stores stays**, with its slot, whatever it sweeps and trims. -/
theorem put_self {k : κ} {d : ℕ} (hk : s.locks k = some d) (entry : CacheEntry σ) (disk : Disk κ σ) :
    (s.put k entry disk).slots k = s.slots k ∧
      ∀ entry', (k, entry') ∈ (s.put k entry disk).entries ↔ entry' = entry := by
  have hswept := remove_of_stays (s.store k entry)
    (fun k' => (s.store k entry).expired disk k' && some k ≠ some k' && (s.store k entry).idle k') disk (k := k)
    (by simp)
  generalize hswept' : (s.store k entry).sweepExpired (some k) disk = swept
  have hlock : swept.locks k = some d := by
    rw [← hswept']
    exact hk
  have hslot : swept.slots k = s.slots k := by
    rw [← hswept']
    exact hswept.1
  have hmem : ∀ entry', (k, entry') ∈ swept.entries ↔ entry' = entry := by
    rw [← hswept']
    exact fun entry' => (hswept.2 entry').trans (mem_store s k entry entry')
  have hentries := remove_of_stays swept (· ∈ swept.overEntries) disk (stays_of_locks hlock)
  unfold put enforceCaps
  rw [hswept']
  dsimp only
  split_ifs
  · exact ⟨hentries.1.trans hslot, fun entry' => (hentries.2 entry').trans (hmem entry')⟩
  · have hdisk := remove_of_stays (swept.remove (· ∈ swept.overEntries) disk)
      (· ∈ (swept.remove (· ∈ swept.overEntries) disk).overDisk) disk (stays_of_locks (k := k) (d := d) hlock)
    exact ⟨hdisk.1.trans (hentries.1.trans hslot), fun entry' =>
      (hdisk.2 entry').trans ((hentries.2 entry').trans (hmem entry'))⟩

end FrameCache

end MediaPreview.Frames
