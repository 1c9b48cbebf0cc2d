/-
# The box around a position

`find_best_price_for_notification` and `get_nearby_stations` filter the
stations by a box of latitudes and longitudes before they compare the
distance. The box takes 111.32 km for a degree; on the sphere of radius
6371 km of the distance a degree is `6371 π / 180 < 111.2` km. So the box is
less high than the circle and, but for the poles, less wide: due north or south
of every position, and due east or west, there are places in range that are not
in the box. A box that reaches the antimeridian ends there. All in exact real
arithmetic.

Key definitions: `Position`, `distanceKm`, `InBox`, `KeepsInRange`, `SameStations`, `Drops`.
Key theorems: `keepsInRange_iff`, `meridian_dropped_iff`, `distanceKm_parallel_le`,
`exists_dropped_meridian`, `exists_dropped_parallel`, `box_drops_in_range`.
-/
import Mathlib.Analysis.Real.Pi.Bounds
import Mathlib.Analysis.SpecialFunctions.Trigonometric.Inverse
import Mathlib.Tactic

namespace FuelNear
namespace Stations

open Real

/-- Degrees. -/
structure Position where
  lat : ℝ
  lng : ℝ

/-- A place on the globe; the endpoints check this of the user's position. -/
structure Position.Valid (p : Position) : Prop where
  lat : -90 ≤ p.lat ∧ p.lat ≤ 90
  lng : -180 ≤ p.lng ∧ p.lng ≤ 180

noncomputable def radians (degrees : ℝ) : ℝ := degrees * (π / 180)

/-- `6371 * acos(least(1, …))`. -/
noncomputable def distanceKm (u s : Position) : ℝ :=
  6371 * arccos (min 1 (cos (radians u.lat) * cos (radians s.lat) * cos (radians s.lng - radians u.lng) +
    sin (radians u.lat) * sin (radians s.lat)))

noncomputable def latDelta (radiusKm : ℝ) : ℝ := radiusKm / 111.32

noncomputable def lngDivisor (u : Position) : ℝ := 111.32 * max (cos (radians u.lat)) 0.01

noncomputable def lngDelta (u : Position) (radiusKm : ℝ) : ℝ := radiusKm / lngDivisor u

/-- `s.latitude BETWEEN … AND … AND s.longitude BETWEEN … AND …`. -/
structure InBox (u : Position) (radiusKm : ℝ) (s : Position) : Prop where
  lat : u.lat - latDelta radiusKm ≤ s.lat ∧ s.lat ≤ u.lat + latDelta radiusKm
  lng : u.lng - lngDelta u radiusKm ≤ s.lng ∧ s.lng ≤ u.lng + lngDelta u radiusKm

/-- The box drops no station in range. -/
def KeepsInRange (u : Position) (radiusKm : ℝ) : Prop :=
  ∀ s : Position, s.Valid → distanceKm u s ≤ radiusKm → InBox u radiusKm s

open Classical in
/-- The stations that the query returns. -/
noncomputable def stationsInRange (u : Position) (radiusKm : ℝ) (stations : List Position) : List Position :=
  (stations.filter fun s => InBox u radiusKm s).filter fun s => distanceKm u s ≤ radiusKm

open Classical in
/-- The stations that it would return without the box. -/
noncomputable def stationsInRangeUnfiltered (u : Position) (radiusKm : ℝ) (stations : List Position) : List Position :=
  stations.filter fun s => distanceKm u s ≤ radiusKm

/-- The query returns the same with the box as without it. -/
def SameStations (u : Position) (radiusKm : ℝ) : Prop :=
  ∀ stations : List Position, (∀ s ∈ stations, s.Valid) →
    stationsInRange u radiusKm stations = stationsInRangeUnfiltered u radiusKm stations

variable {u s : Position} {radiusKm : ℝ}

/-- The query returns the same exactly if the box drops no station in range. -/
theorem keepsInRange_iff : KeepsInRange u radiusKm ↔ SameStations u radiusKm := by
  unfold SameStations stationsInRange stationsInRangeUnfiltered
  constructor
  · intro h stations hvalid
    rw [List.filter_filter]
    refine List.filter_congr fun s hs => ?_
    rw [Bool.and_eq_left_iff_imp]
    intro hrange
    have hbox := h s (hvalid s hs) (of_decide_eq_true hrange)
    simpa using hbox
  · intro h s hvalid hrange
    have hsame := h [s] fun t ht => by rwa [List.mem_singleton.mp ht]
    by_contra hbox
    simp [hbox, hrange] at hsame

/-! ### The distance along a meridian, and across -/

theorem radians_sub (a b : ℝ) : radians a - radians b = radians (a - b) := (sub_mul a b _).symm

theorem radians_abs (a : ℝ) : radians |a| = |radians a| := by
  unfold radians
  rw [abs_mul, abs_of_pos (by positivity : 0 < π / 180)]

/-- The distance of two places on one meridian is the arc of their latitudes. -/
theorem distanceKm_meridian (hlng : s.lng = u.lng) (hlat : |s.lat - u.lat| ≤ 180) :
    distanceKm u s = 6371 * radians |s.lat - u.lat| := by
  have hcos : cos (radians u.lat) * cos (radians s.lat) * cos (radians s.lng - radians u.lng) +
      sin (radians u.lat) * sin (radians s.lat) = cos (radians |s.lat - u.lat|) := by
    rw [hlng, sub_self, cos_zero, mul_one, radians_abs, cos_abs, ← radians_sub, cos_sub]
    ring
  have hpi : radians |s.lat - u.lat| ≤ π := by
    unfold radians
    calc |s.lat - u.lat| * (π / 180) ≤ 180 * (π / 180) := by gcongr
      _ = π := by ring
  have hnonneg : 0 ≤ radians |s.lat - u.lat| := mul_nonneg (abs_nonneg _) (by positivity)
  unfold distanceKm
  rw [hcos, min_eq_right (cos_le_one _), arccos_cos hnonneg hpi]

/-- On the parallel of the user the distance is at most the arc of the parallel,
and a little less for the radii of the endpoints. -/
theorem distanceKm_parallel_le (hlat : s.lat = u.lat) (hr : 0 ≤ radiusKm ∧ radiusKm ≤ 100)
    (hin : 6371 * (cos (radians u.lat) * radians |s.lng - u.lng|) ≤ 0.9992 * radiusKm)
    (hcos : 0 ≤ cos (radians u.lat)) : distanceKm u s ≤ radiusKm := by
  have hpi := pi_gt_three
  obtain ⟨arc, harc⟩ : ∃ arc, radiusKm = 6371 * arc := ⟨radiusKm / 6371, by ring⟩
  have hnonneg : 0 ≤ arc := by linarith [hr.1]
  have hsmall : arc ≤ 0.0157 := by linarith [hr.2]
  have hwidth : 0 ≤ radians |s.lng - u.lng| := mul_nonneg (abs_nonneg _) (by positivity)
  have hinner : cos (radians u.lat) * cos (radians s.lat) * cos (radians s.lng - radians u.lng) +
      sin (radians u.lat) * sin (radians s.lat) =
        1 - cos (radians u.lat) ^ 2 * (1 - cos (radians |s.lng - u.lng|)) := by
    rw [hlat, radians_abs, cos_abs, ← radians_sub]
    linear_combination sin_sq_add_cos_sq (radians u.lat)
  -- the arc of the parallel, and its cosine
  have hproduct : (cos (radians u.lat) * radians |s.lng - u.lng|) ^ 2 ≤ (0.9992 * arc) ^ 2 := by
    apply pow_le_pow_left₀ (mul_nonneg hcos hwidth)
    linarith
  have hparallel : cos (radians u.lat) ^ 2 * (1 - cos (radians |s.lng - u.lng|)) ≤ (0.9992 * arc) ^ 2 / 2 := by
    have hbound := one_sub_sq_div_two_le_cos (x := radians |s.lng - u.lng|)
    calc cos (radians u.lat) ^ 2 * (1 - cos (radians |s.lng - u.lng|))
        ≤ cos (radians u.lat) ^ 2 * (radians |s.lng - u.lng| ^ 2 / 2) := by gcongr; linarith
      _ = (cos (radians u.lat) * radians |s.lng - u.lng|) ^ 2 / 2 := by ring
      _ ≤ (0.9992 * arc) ^ 2 / 2 := by gcongr
  -- the cosine of the radius
  have hradius : cos arc ≤ 1 - (0.9992 * arc) ^ 2 / 2 := by
    have hbound := (abs_le.mp (cos_bound (x := arc) (by rw [abs_of_nonneg hnonneg]; linarith))).2
    rw [abs_of_nonneg hnonneg] at hbound
    have hsquare : arc ^ 2 ≤ 0.0157 ^ 2 := pow_le_pow_left₀ hnonneg hsmall 2
    nlinarith [sq_nonneg arc]
  have hle : arccos (min 1 (cos (radians u.lat) * cos (radians s.lat) * cos (radians s.lng - radians u.lng) +
      sin (radians u.lat) * sin (radians s.lat))) ≤ arccos (cos arc) := by
    apply antitone_arccos
    rw [hinner]
    exact le_min (cos_le_one _) (by linarith)
  rw [arccos_cos hnonneg (by linarith)] at hle
  unfold distanceKm
  linarith

/-! ### The rim -/

theorem lngDelta_nonneg (u : Position) (hr : 0 < radiusKm) : 0 ≤ lngDelta u radiusKm := by
  have hdivisor : 0 < lngDivisor u := mul_pos (by norm_num) (lt_max_of_lt_right (by norm_num))
  exact (div_pos hr hdivisor).le

/-- On the meridian of the user the box is a matter of the latitudes. -/
theorem inBox_meridian (hlng : s.lng = u.lng) (hr : 0 < radiusKm) :
    InBox u radiusKm s ↔ |s.lat - u.lat| ≤ latDelta radiusKm := by
  have hdelta := lngDelta_nonneg u hr
  rw [abs_le]
  constructor
  · rintro ⟨⟨h1, h2⟩, -⟩
    constructor <;> linarith
  · rintro ⟨h1, h2⟩
    refine ⟨⟨by linarith, by linarith⟩, ?_⟩
    rw [hlng]
    constructor <;> linarith

/-- A place on the meridian of the user is in range and not in the box exactly
on the rim: a degree has 111.32 km for the box, and less for the distance. -/
theorem meridian_dropped_iff (hlng : s.lng = u.lng) (hlat : |s.lat - u.lat| ≤ 180) (hr : 0 < radiusKm) :
    distanceKm u s ≤ radiusKm ∧ ¬ InBox u radiusKm s ↔
      6371 * radians |s.lat - u.lat| ≤ radiusKm ∧ radiusKm < 111.32 * |s.lat - u.lat| := by
  rw [distanceKm_meridian hlng hlat, inBox_meridian hlng hr, not_le]
  refine and_congr_right fun _ => ?_
  unfold latDelta
  rw [div_lt_iff₀ (by norm_num), mul_comm]

/-- A degree has less than 111.2 km for the distance. -/
theorem degree_lt {degrees : ℝ} (h : 0 ≤ degrees) : 6371 * radians degrees ≤ 111.2 * degrees := by
  have hpi : 6371 * (π / 180) ≤ 111.2 := by linarith [pi_lt_d4]
  calc 6371 * radians degrees = 6371 * (π / 180) * degrees := by unfold radians; ring
    _ ≤ 111.2 * degrees := mul_le_mul_of_nonneg_right hpi h

/-- That many degrees nearer to the middle, or past it. -/
noncomputable def towards (middle x degrees : ℝ) : ℝ := if middle ≤ x then x - degrees else x + degrees

theorem towards_abs (middle x : ℝ) {degrees : ℝ} (h : 0 ≤ degrees) : |towards middle x degrees - x| = degrees := by
  unfold towards
  split_ifs with hx
  · rw [sub_sub_cancel_left, abs_neg, abs_of_nonneg h]
  · rw [add_sub_cancel_left, abs_of_nonneg h]

theorem towards_mem {a b x degrees : ℝ} (hx : a ≤ x ∧ x ≤ b) (h : 0 ≤ degrees) (hwide : 2 * degrees ≤ b - a) :
    a ≤ towards ((a + b) / 2) x degrees ∧ towards ((a + b) / 2) x degrees ≤ b := by
  unfold towards
  split_ifs with hmiddle <;> constructor <;> linarith [hx.1, hx.2]

/-- Between the two lengths of a degree a place is on the rim. -/
theorem rim {degrees : ℝ} (hlng : s.lng = u.lng) (hlat : |s.lat - u.lat| = degrees) (hr : 0 < radiusKm)
    (hdegrees : degrees ≤ 180) (hin : 111.2 * degrees ≤ radiusKm) (hout : radiusKm < 111.32 * degrees) :
    distanceKm u s ≤ radiusKm ∧ ¬ InBox u radiusKm s := by
  have hnonneg : 0 ≤ degrees := hlat ▸ abs_nonneg _
  rw [meridian_dropped_iff hlng (hlat.trans_le hdegrees) hr, hlat]
  exact ⟨(degree_lt hnonneg).trans hin, hout⟩

/-- Due north or due south of the user there is a place in range that is not in
the box. -/
theorem exists_dropped_meridian (hu : u.Valid) (hr : 0 < radiusKm ∧ radiusKm ≤ 100) :
    ∃ s : Position, s.Valid ∧ s.lng = u.lng ∧ distanceKm u s ≤ radiusKm ∧ ¬ InBox u radiusKm s := by
  obtain ⟨degrees, hdegrees⟩ : ∃ degrees, radiusKm = 111.25 * degrees := ⟨radiusKm / 111.25, by ring⟩
  have hpos : 0 < degrees := by linarith [hr.1]
  have hle : degrees ≤ 0.9 := by linarith [hr.2]
  refine ⟨⟨towards _ u.lat degrees, u.lng⟩, ⟨towards_mem hu.lat hpos.le (by linarith), hu.lng⟩, rfl, ?_⟩
  exact rim rfl (towards_abs _ _ hpos.le) hr.1 (by linarith) (by linarith) (by linarith)

/-- So it is due east or due west, as far as the box follows the parallels. -/
theorem exists_dropped_parallel (hu : u.Valid) (hr : 0 < radiusKm ∧ radiusKm ≤ 100)
    (hcos : 0.01 ≤ cos (radians u.lat)) :
    ∃ s : Position, s.Valid ∧ s.lat = u.lat ∧ distanceKm u s ≤ radiusKm ∧ ¬ InBox u radiusKm s := by
  have hpos : 0 < cos (radians u.lat) := by linarith
  obtain ⟨degrees, hdegrees⟩ : ∃ degrees, radiusKm = 111.3 * (cos (radians u.lat) * degrees) :=
    ⟨radiusKm / (111.3 * cos (radians u.lat)), by field_simp⟩
  have hnonneg : 0 < degrees := by
    by_contra hle
    nlinarith [hr.1]
  have hle : degrees ≤ 90 := by
    by_contra hlt
    nlinarith [hr.2]
  have hdelta : lngDelta u radiusKm < degrees := by
    unfold lngDelta lngDivisor
    rw [max_eq_left hcos, div_lt_iff₀ (by positivity), hdegrees]
    nlinarith
  have habs : |towards ((-180 + 180) / 2) u.lng degrees - u.lng| = degrees := towards_abs _ _ hnonneg.le
  refine ⟨⟨u.lat, towards _ u.lng degrees⟩, ⟨hu.lat, towards_mem hu.lng hnonneg.le (by linarith)⟩, rfl, ?_, ?_⟩
  · have harc := mul_le_mul_of_nonneg_left (degree_lt hnonneg.le) hpos.le
    refine @distanceKm_parallel_le u ⟨u.lat, towards _ u.lng degrees⟩ _ rfl ⟨hr.1.le, hr.2⟩ ?_ hpos.le
    rw [habs]
    linarith
  · rintro ⟨-, hlng⟩
    have hin : |towards ((-180 + 180) / 2) u.lng degrees - u.lng| ≤ lngDelta u radiusKm :=
      abs_le.mpr ⟨by linarith [hlng.1], by linarith [hlng.2]⟩
    rw [habs] at hin
    linarith

/-- The longitudes of the box do not go on beyond the antimeridian. -/
theorem not_inBox_across (hr : 0 < radiusKm ∧ radiusKm ≤ 100) (hacross : 180 ≤ |s.lng - u.lng|) :
    ¬ InBox u radiusKm s := by
  rintro ⟨-, hlng⟩
  have hdivisor : 1.1132 ≤ lngDivisor u := by
    unfold lngDivisor
    linarith [le_max_right (cos (radians u.lat)) 0.01]
  have hdelta : lngDelta u radiusKm ≤ 90 := by
    unfold lngDelta
    rw [div_le_iff₀ (by linarith)]
    linarith [hr.2]
  have hin : |s.lng - u.lng| ≤ lngDelta u radiusKm := abs_le.mpr ⟨by linarith [hlng.1], by linarith [hlng.2]⟩
  linarith

/-- Where the box drops places: north or south, east or west, and whatever is
beyond the antimeridian. -/
structure Drops (u : Position) (radiusKm : ℝ) : Prop where
  meridian : ∃ s : Position, s.Valid ∧ s.lng = u.lng ∧ distanceKm u s ≤ radiusKm ∧ ¬ InBox u radiusKm s
  parallel : 0.01 ≤ cos (radians u.lat) →
    ∃ s : Position, s.Valid ∧ s.lat = u.lat ∧ distanceKm u s ≤ radiusKm ∧ ¬ InBox u radiusKm s
  antimeridian : ∀ s : Position, 180 ≤ |s.lng - u.lng| → ¬ InBox u radiusKm s

/-- **The box drops a station in range**, for every position and every radius
that the endpoints accept, so the query does not always return the same. -/
theorem box_drops_in_range (hu : u.Valid) (hr : 0 < radiusKm ∧ radiusKm ≤ 100) :
    ¬ KeepsInRange u radiusKm ∧ ¬ SameStations u radiusKm ∧ Drops u radiusKm := by
  have hdropped := exists_dropped_meridian hu hr
  have hnot : ¬ KeepsInRange u radiusKm := by
    intro hkeeps
    obtain ⟨s, hs, -, hrange, hout⟩ := hdropped
    exact hout (hkeeps s hs hrange)
  exact ⟨hnot, keepsInRange_iff.not.mp hnot, hdropped, exists_dropped_parallel hu hr, fun _ => not_inBox_across hr⟩

/-- A user in Rome. -/
noncomputable def rome : Position := ⟨41.9, 12.5⟩

theorem rome_valid : rome.Valid := by
  constructor <;> unfold rome <;> constructor <;> norm_num

theorem box_drops_near_rome : ¬ KeepsInRange rome 5 ∧ ¬ SameStations rome 5 ∧ Drops rome 5 :=
  box_drops_in_range rome_valid ⟨by norm_num, by norm_num⟩

/-- A station 0.044930 degrees south of the user in Rome is 4.996 km away; the box
of the radius 5 ends at 0.044916 degrees. -/
theorem box_drops_south_of_rome :
    ¬ ∀ u : Position, u.Valid → ∀ radiusKm, 0 < radiusKm ∧ radiusKm ≤ 100 → KeepsInRange u radiusKm := by
  intro h
  have hsouth : (⟨41.85507, 12.5⟩ : Position).Valid := by constructor <;> constructor <;> norm_num
  have habs : |(41.85507 : ℝ) - 41.9| = 0.04493 := by
    rw [abs_of_neg (by norm_num)]
    norm_num
  obtain ⟨hrange, hout⟩ := @rim rome ⟨41.85507, 12.5⟩ 5 0.04493 rfl habs (by norm_num) (by norm_num) (by norm_num)
    (by norm_num)
  exact hout (h rome rome_valid 5 ⟨by norm_num, by norm_num⟩ _ hsouth hrange)

end Stations
end FuelNear
