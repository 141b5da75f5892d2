import MediaPreview.Audio.Matcher

/-!
# The reference matcher

`tools/markers_eval/fp3_reference.py`: the measured algorithm, which reads the hits one by one
in the scan's order and counts their shifts in a dictionary. It takes the runs at a shift and
selects among them as the matcher does, line for line (`runsAt`, `keepRuns`).
-/

namespace MediaPreview.Audio.Reference

open Ranking Tally

/-- `index`: the positions of each value. -/
def index (b : List UInt32) : ℤ → List ℕ :=
  b.zipIdx.foldl (fun ix v => Function.update ix (v.1.toNat : ℤ) (ix v.1.toNat ++ [v.2])) fun _ => []

/-- The shifts in the order the triple loop meets them. -/
def shiftVotes (a b : List UInt32) : List ℤ :=
  a.zipIdx.flatMap fun v => valueShifts.flatMap fun d => (index b (v.1.toNat + d)).map fun j : ℕ => (j : ℤ) - v.2

/-- `shifts`: the dictionary after the loop. -/
def shifts (a b : List UInt32) : List (ℤ × ℕ) := tally (shiftVotes a b)

/-- `sorted(shifts.items(), key=lambda kv: -kv[1])[:40]`, the shifts of it. -/
def bestShifts (a b : List UInt32) : List ℤ :=
  ((sortBy (fun kv => -(kv.2 : ℤ)) (shifts a b)).take 40).map Prod.fst

/-- `runs`. -/
def runs (a b : List UInt32) (least : ℕ) : List Run := keepRuns ((bestShifts a b).flatMap (runsAt least a b))

end MediaPreview.Audio.Reference
