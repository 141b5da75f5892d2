import MediaPreview.Lib.Binary64

/-!
# Playback speeds

The speed families of `markers/speed.py`: film-rate files (23.976 and 24 fps) and
25 fps ones, a PAL speed-up. An online database's times are read on a file's own
clock by multiplying them with `onlineTimeScale`.
-/

namespace MediaPreview.Markers

open Binary64

/-- `FILM_FPS = 24000 / 1001`. -/
def filmFps : ℚ := fl (24000 / 1001)

/-- `PAL_FPS = 25.0`. -/
def palFps : ℚ := 25

/-- `_RATE_TOLERANCE = 0.05`: how far a probed rate may be from a nominal one. -/
def rateTolerance : ℚ := fl (1 / 20)

/-- `_FAMILIES`: a nominal rate and the speed it plays at. -/
def families : List (ℚ × ℚ) := [(filmFps, filmFps), (24, filmFps), (palFps, palFps)]

/-- `playback_speed`: the speed a file plays at, `none` for an unknown or any other rate. -/
def playbackSpeed : Option PyFloat → Option ℚ
  | some (.finite rate) =>
    if rate = 0 then none
    else (families.find? fun f => |fl (rate - f.1)| ≤ rateTolerance).map Prod.snd
  | _ => none

/-- `online_time_scale`: what an online database's times are multiplied by on a file of this
rate, when they were taken from a release at the other speed. -/
def onlineTimeScale (frameRate : Option PyFloat) : Option ℚ :=
  (playbackSpeed frameRate).map fun own =>
    let other := if own = palFps then filmFps else palFps
    fl (other / own)

/-- `round(ms * scale)`. -/
def scaledMs (ms : ℤ) (scale : ℚ) : ℤ := roundEven (fl (fl ms * scale))

@[simp] theorem onlineTimeScale_none : onlineTimeScale none = none := rfl

/-- A scaled time is the whole number nearest to it, where that is clear of rounding. -/
theorem scaledMs_eq {ms n : ℤ} {scale lo hi : ℚ} (hms : 0 ≤ ms) (hms' : ms ≤ 2 ^ 53) (hlo : lo ≤ scale)
    (hhi : scale ≤ hi) (hlo0 : 0 ≤ lo) (h₁ : n - 1 / 3 ≤ ms * lo) (h₂ : ms * hi ≤ n + 1 / 3) (hn : n ≤ 2 ^ 40) :
    scaledMs ms scale = n := by
  have hfl : fl ms = ms := fl_intCast (by rw [abs_of_nonneg hms]; exact hms')
  have hms0 : (0 : ℚ) ≤ ms := by exact_mod_cast hms
  have hge : (n : ℚ) - 1 / 3 ≤ ms * scale := h₁.trans (by gcongr)
  have hle : ms * scale ≤ (n : ℚ) + 1 / 3 := le_trans (by gcongr) h₂
  have hpos : 0 ≤ ms * scale := mul_nonneg hms0 (hlo0.trans hlo)
  have herr := abs_fl_sub_le ((ms : ℚ) * scale)
  have hn' : (n : ℚ) ≤ 2 ^ 40 := by exact_mod_cast hn
  have hsmall : |(ms : ℚ) * scale| / 2 ^ 53 < 1 / 6 := by
    rw [abs_of_nonneg hpos, div_lt_iff₀ (by norm_num)]
    linarith
  unfold scaledMs
  rw [hfl]
  refine roundEven_eq ?_
  have h3 := abs_lt.mp (herr.trans_lt hsmall)
  rw [abs_lt]
  constructor <;> linarith [h3.1, h3.2]

/-- A film-rate time on a 25 fps file: `23.976 / 25`. -/
theorem onlineTimeScale_pal : ∃ k, onlineTimeScale (some (.finite 25)) = some k ∧
    959040 / 1000000 ≤ k ∧ k ≤ 959041 / 1000000 := by
  have hfilm := abs_fl_sub_le (24000 / 1001)
  have htol := abs_fl_sub_le (1 / 20)
  rw [show |(24000 / 1001 : ℚ)| = 24000 / 1001 by norm_num, abs_le] at hfilm
  rw [show |(1 / 20 : ℚ)| = 1 / 20 by norm_num, abs_le] at htol
  have hf₁ : (23976023 / 1000000 : ℚ) ≤ filmFps := by unfold filmFps; linarith [hfilm.1]
  have hf₂ : filmFps ≤ (23976024 / 1000000 : ℚ) := by unfold filmFps; linarith [hfilm.2]
  -- 25 fps is neither 23.976 nor 24
  have hfar : ¬ |fl (25 - filmFps)| ≤ rateTolerance := by
    have herr := abs_fl_sub_le (25 - filmFps)
    rw [abs_of_nonneg (by linarith : (0 : ℚ) ≤ 25 - filmFps), abs_le] at herr
    have : 1 ≤ |fl (25 - filmFps)| := le_trans (by linarith [herr.1]) (le_abs_self _)
    unfold rateTolerance
    linarith [htol.2]
  have hfar' : ¬ |fl (25 - 24)| ≤ rateTolerance := by
    rw [show (25 - 24 : ℚ) = ((1 : ℤ) : ℚ) by norm_num, fl_intCast (by norm_num)]
    unfold rateTolerance
    have := htol.2
    norm_num
    linarith
  have hnear : |fl (25 - palFps)| ≤ rateTolerance := by
    rw [palFps, sub_self, fl_zero, abs_zero]
    unfold rateTolerance
    linarith [htol.1]
  have hspeed : playbackSpeed (some (.finite 25)) = some palFps := by
    simp [playbackSpeed, families, List.find?, hfar, hfar', hnear]
  refine ⟨fl (filmFps / palFps), by simp [onlineTimeScale, hspeed], ?_⟩
  have herr := abs_fl_sub_le (filmFps / palFps)
  rw [palFps, abs_of_nonneg (by linarith : (0 : ℚ) ≤ filmFps / 25), abs_le] at herr
  rw [palFps]
  constructor <;> linarith [herr.1, herr.2]

end MediaPreview.Markers
