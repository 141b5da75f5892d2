import MediaPreview.Audio.Points
import MediaPreview.Lib.Tally

/-!
# The vectorised matcher

`audio/matcher.py`: the alignment shifts two fingerprints match best at, and the runs they
match in there.

A point of the first fingerprint and one of the second whose values differ by at most 2 are
a *hit*, a vote for the shift between them. `topShifts` ranks the shifts by votes, ties by the
least *key* of their votes, the position a hit has in a scan of the first fingerprint. It finds
the hits of one position by binary search in the sorted second fingerprint and expands them a
chunk of positions at a time.

`np.argsort` is not stable: of equal points it may put either first (`Argsort`). Keys are
`int64` and wrap (`toInt64`).
-/

namespace MediaPreview.Audio

open Ranking Vectors Tally

/-- `VALUE_SHIFTS`. -/
def valueShifts : List ℤ := [-2, -1, 0, 1, 2]

/-- `TOP_SHIFTS`. -/
def topCount : ℕ := 40

/-- `_MATCHES_PER_CHUNK`. -/
def matchesPerChunk : ℕ := 2 ^ 18

/-- What an `int64` holds of an integer. -/
def toInt64 (k : ℤ) : ℤ := k.bmod (2 ^ 64)

/-- `np.iinfo(np.int64).max`. -/
def int64Max : ℤ := 2 ^ 63 - 1

/-- The value of point `i`, as an `int64`. -/
def value (p : List UInt32) (i : ℕ) : ℤ := (p.getD i 0).toNat

/-- A result of `np.argsort(b)`: the positions of `b`, their values ascending. -/
structure Argsort (b : List UInt32) where
  /-- The positions. -/
  order : List ℕ
  /-- Every position once. -/
  perm : order.Perm (List.range b.length)
  /-- In the order of the values. -/
  sorted : order.Pairwise fun i j => value b i ≤ value b j

/-- A stable sort is one. -/
def Argsort.stable (b : List UInt32) : Argsort b where
  order := sortBy (value b) (List.range b.length)
  perm := sortBy_perm _ _
  sorted := pairwise_sortBy _ _

/-! ### Ranking the shifts -/

section TopShifts

variable (a b : List UInt32) (order : List ℕ)

/-- `sorted_b`. -/
def sortedB : List ℤ := order.map (value b)

/-- `lefts[d]`: where the values `d` above each point's begin in `sorted_b`. -/
def lefts (d : ℤ) : List ℕ := a.map fun v => searchLeft (sortedB b order) (v.toNat + d)

/-- `matches[d]`: how many points have a value `d` above each point's. -/
def matchesAt (d : ℤ) : List ℕ :=
  a.map fun v => searchRight (sortedB b order) (v.toNat + d) - searchLeft (sortedB b order) (v.toNat + d)

/-- `matches_up_to`: the hits of the positions up to each. -/
def matchesUpTo : List ℕ :=
  cumsum ((List.range a.length).map fun i => (valueShifts.map fun d => (matchesAt a b order d).getD i 0).sum)

/-- The index shift `j - i` is counted at. -/
def slotOf (i j : ℕ) : ℕ := j + a.length - i

/-- A hit's place in the scan. -/
def keyOf (i dIndex j : ℕ) : ℤ := toInt64 ((i * valueShifts.length + dIndex) * (b.length + 1) + j)

/-- `counts` and `first_seen`. -/
structure Scan where
  /-- How many hits each slot has. -/
  counts : ℕ → ℕ
  /-- The least key of each slot's hits. -/
  firstSeen : ℕ → ℤ

/-- Nothing scanned. -/
def Scan.empty : Scan := ⟨fun _ => 0, fun _ => int64Max⟩

/-- `counts += np.bincount(slot)` and `np.minimum.at(first_seen, slot, key)`. -/
def Scan.add (st : Scan) (votes : List (ℕ × ℤ)) : Scan where
  counts := fun s => st.counts s + (votes.map Prod.fst).count s
  firstSeen := votes.foldl keepFirst st.firstSeen

/-- The slots and keys of the hits of positions `lo` to `hi` at value shift `d`. -/
def batch (lo hi : ℕ) (d : ℤ) (dIndex : ℕ) : List (ℕ × ℤ) :=
  let per := ((matchesAt a b order d).drop lo).take (hi - lo)
  let i := repeatBy (List.range' lo (hi - lo)) per
  let at_ := List.zipWith (· + ·) (repeatBy (((lefts a b order d).drop lo).take (hi - lo)) per) (within per)
  let j := at_.map fun p => order.getD p 0
  (List.zipWith (slotOf a) i j).zip (List.zipWith (fun i j => keyOf b i dIndex j) i j)

/-- One chunk: the value shifts in order. -/
def chunk (lo hi : ℕ) (st : Scan) : Scan :=
  valueShifts.zipIdx.foldl (fun st d =>
    if (((matchesAt a b order d.1).drop lo).take (hi - lo)).sum = 0 then st
    else st.add (batch a b order lo hi d.1 d.2)) st

variable (perChunk : ℕ)

/-- The end of the chunk that starts at `lo`: as many positions as have `perChunk` hits, and one at
least. -/
def chunkEnd (lo : ℕ) : ℕ :=
  let before := if lo = 0 then 0 else (matchesUpTo a b order).getD (lo - 1) 0
  max (lo + 1) (searchRight (matchesUpTo a b order) (before + perChunk))

/-- The loop over the chunks. -/
def scan (lo : ℕ) (st : Scan) : Scan :=
  let hi := chunkEnd a b order perChunk lo
  if lo < a.length then scan hi (chunk a b order lo hi st) else st
termination_by a.length - lo
decreasing_by
  have : lo + 1 ≤ chunkEnd a b order perChunk lo := le_max_left _ _
  omega

/-- `seen`: the slots with a hit. -/
def seen (st : Scan) : List ℕ := (List.range (a.length + b.length)).filter fun s => st.counts s ≠ 0

/-- `_top_shifts`, expanding about `perChunk` hits at a time. -/
def topShifts : List ℤ :=
  if a.length = 0 ∨ b.length = 0 then []
  else
    let st := scan a b order perChunk 0 Scan.empty
    let ranked := sortBy (fun s => toLex (-(st.counts s : ℤ), st.firstSeen s)) (seen a b st)
    (ranked.take topCount).map fun slot : ℕ => (slot : ℤ) - a.length

end TopShifts

/-- `pair_runs`. -/
def pairRuns (a b : List UInt32) (order : Argsort b) : List Run :=
  keepRuns ((topShifts a b order.order matchesPerChunk).flatMap (runsAt minPts a b))

/-! ### An episode's hits -/

/-- `Hit`: a run on the target's side, with its partner. -/
structure Hit where
  /-- Where it starts. -/
  start : ℚ
  /-- Where it ends. -/
  stop : ℚ
  /-- The episode it matched. -/
  partner : String
  /-- Where it starts there. -/
  partnerStart : ℚ
  deriving DecidableEq

/-- `_too_long`. -/
def tooLong (r : Run) : Bool := maxIntroS < r.length

/-- `file_hits`: the target's runs of intro length against every other episode; `None` where
`index` raises. -/
def fileHits (target : String) (files : List String) (runsBetween : String → String → List Run) : Option (List Hit) :=
  (files.idxOf? target).map fun k =>
    ((files.take k).flatMap fun earlier => ((runsBetween earlier target).filter fun r => !tooLong r).map fun r =>
      ⟨r.bStart, r.bEnd, earlier, r.aStart⟩) ++
    ((files.drop (k + 1)).flatMap fun later => ((runsBetween target later).filter fun r => !tooLong r).map fun r =>
      ⟨r.aStart, r.aEnd, later, r.bStart⟩)

end MediaPreview.Audio
