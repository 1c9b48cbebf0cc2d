/-
# The best price near a position

`find_best_price_for_notification` takes the cheapest of all price rows in
range. `get_nearby_stations` first takes one row of each station, the one
reported last, and `get_best_station` the cheapest of these; a cheaper row of
the station that was reported before is not shown. So the two prices are equal
exactly if some cheapest row in range is not older than another row of its
station for the fuel.

Both queries have one text for the distance and for the box around the
position; these are parameters here (`Floats`).

Key definitions: `findBestPriceForNotification`, `getNearbyStations`,
`getBestStation`, `Shown`, `CheapestIsLatest`.
Key theorems: `mem_rankedPrices`, `getBestStation_ok`, `notification_price_shown_iff`.
-/
import FuelNear.Mimit.Stations

namespace FuelNear
namespace Stations

open Sql Mimit

/-! ### Prices -/

/-- The order of DOUBLE PRECISION: NaN is above all numbers. -/
def rank : Number → ℕ ×ₗ ℚ
  | .infinite true => toLex (0, 0)
  | .finite q => toLex (1, q)
  | .infinite false => toLex (2, 0)
  | .nan => toLex (3, 0)

theorem rank_injective : Function.Injective rank := by
  intro a b h
  cases a with
  | nan => cases b with
    | nan => rfl
    | finite q => simp [rank] at h
    | infinite negative => cases negative <;> simp [rank] at h
  | finite q => cases b with
    | nan => simp [rank] at h
    | finite r => simpa [rank] using h
    | infinite negative => cases negative <;> simp [rank] at h
  | infinite negative => cases b with
    | nan => cases negative <;> simp [rank] at h
    | finite q => cases negative <;> simp [rank] at h
    | infinite other => cases negative <;> cases other <;> simp_all [rank]

/-- The position, and the radius. -/
structure Search where
  latitude : ℚ
  longitude : ℚ
  radiusKm : ℚ

/-- What the database computes of a position and a station. -/
structure Floats where
  /-- `s.latitude BETWEEN … AND … AND s.longitude BETWEEN … AND …` -/
  inBox : Search → Station → Bool
  /-- `6371 * acos(least(1, …))` -/
  distanceKm : Search → Station → Number
  /-- `round(distance_km::numeric, 3)` -/
  round3 : Number → Number

/-- A row of the join of the stations in range with the prices of the fuel. -/
structure Offer where
  station : Station
  distanceKm : Number
  price : FuelPrice

/-- `candidate_stations`. -/
def candidateStations (f : Floats) (q : Search) (s : Store) : List Station :=
  s.stations.rows.filter fun c => c.isActive && c.geodataStatus = .valid && f.inBox q c

/-- The join of a station, `WHERE cs.distance_km <= … AND fp.fuel_type = …
AND (… IS NULL OR fp.is_self_service = …)`. -/
def offersAt (f : Floats) (q : Search) (fuelType : String) (isSelfService : Option Bool) (s : Store) (c : Station) :
    List Offer :=
  (s.fuelPrices.rows.filter fun p => p.stationId = c.id && rank (f.distanceKm q c) ≤ rank (.finite q.radiusKm) &&
    p.fuelType = fuelType && isSelfService.all (p.isSelfService = ·)).map fun p => ⟨c, f.distanceKm q c, p⟩

def offers (f : Floats) (q : Search) (fuelType : String) (s : Store) : List Offer :=
  (candidateStations f q s).flatMap (offersAt f q fuelType none s)

/-! ### The price of a notification -/

/-- `BTRIM(s)`: spaces alone. -/
def btrim (s : String) : String := String.ofList ((s.toList.dropWhile (· = ' ')).rdropWhile (· = ' '))

/-- `NULLIF(BTRIM(s), '')`. -/
def nullIfBlank (s : Option String) : Option String := (s.map btrim).filter (· ≠ "")

structure BestPrice where
  stationId : ℤ
  price : Number
  fuelType : String
  reportedAt : ℤ
  distanceKm : Number
  stationName : String

def Offer.toBestPrice (o : Offer) : BestPrice where
  stationId := o.station.id
  price := o.price.price
  fuelType := o.price.fuelType
  reportedAt := o.price.reportedAt
  distanceKm := o.distanceKm
  stationName := (nullIfBlank o.station.brand).getD ((nullIfBlank o.station.name).getD "Distributore")

/-- `ORDER BY fp.price ASC, cs.distance_km ASC, fp.reported_at DESC`. -/
def Offer.notificationKey (o : Offer) : (ℕ ×ₗ ℚ) ×ₗ (ℕ ×ₗ ℚ) ×ₗ ℤᵒᵈ :=
  toLex (rank o.price.price, toLex (rank o.distanceKm, OrderDual.toDual o.price.reportedAt))

/-- `find_best_price_for_notification`. -/
def findBestPriceForNotification (f : Floats) (scan : Scan Offer) (q : Search) (fuelType : String) (s : Store) :
    Option BestPrice :=
  (orderBy scan Offer.notificationKey (offers f q fuelType s)).head?.map Offer.toBestPrice

/-! ### The best station -/

structure HttpException where
  statusCode : ℕ
  detail : String
  deriving DecidableEq

def supportedFuelTypes : List String :=
  ["benzina", "benzina_premium", "diesel", "diesel_premium", "gpl", "hvo", "metano"]

/-- `COMMUNITY_FUEL_TYPE_ALIASES.get(fuel_type, fuel_type)`. -/
def unaliased (fuelType : String) : String :=
  if fuelType = "gasolio" then "diesel"
  else if fuelType = "lpg" then "gpl"
  else if fuelType = "gnc" ∨ fuelType = "cng" then "metano"
  else fuelType

def normalizeCommunityFuelType (raw : String) : String := unaliased (Text.lower (Text.strip raw))

def normalizeNotificationFuelType : Option String → Except HttpException (Option String)
  | none => .ok none
  | some value =>
    let fuelType := normalizeCommunityFuelType value
    if fuelType ∈ supportedFuelTypes then .ok (some fuelType) else .error ⟨400, "Unsupported fuel type"⟩

/-- A row of the answer. -/
structure NearbyStation where
  station : Station
  distanceKm : Number
  fuelType : String
  price : Number
  isSelfService : Bool
  reportedAt : ℤ
  lastReportedAt : ℤ

def Offer.toNearbyStation (f : Floats) (o : Offer) : NearbyStation where
  station := o.station
  distanceKm := f.round3 o.distanceKm
  fuelType := o.price.fuelType
  price := o.price.price
  isSelfService := o.price.isSelfService
  reportedAt := o.price.reportedAt
  lastReportedAt := o.price.reportedAt

/-- `fp.reported_at DESC, fp.price ASC, fp.is_self_service DESC`. -/
def Offer.stationKey (o : Offer) : ℤᵒᵈ ×ₗ (ℕ ×ₗ ℚ) ×ₗ Boolᵒᵈ :=
  toLex (OrderDual.toDual o.price.reportedAt, toLex (rank o.price.price, OrderDual.toDual o.price.isSelfService))

/-- `ORDER BY price ASC, distance_km ASC`; this is the rounded distance. -/
def NearbyStation.key (r : NearbyStation) : (ℕ ×ₗ ℚ) ×ₗ (ℕ ×ₗ ℚ) := toLex (rank r.price, rank r.distanceKm)

/-- How the database comes upon the rows of a station, and upon the stations. -/
structure Scans where
  prices : Scan Offer
  stations : Scan NearbyStation

/-- `ranked_prices`: `DISTINCT ON (cs.id)`. -/
def rankedPrices (f : Floats) (scan : Scan Offer) (q : Search) (fuelType : String) (isSelfService : Option Bool)
    (s : Store) : List Offer :=
  (candidateStations f q s).filterMap fun c =>
    (orderBy scan Offer.stationKey (offersAt f q fuelType isSelfService s c)).head?

/-- The items of `get_nearby_stations`. -/
def getNearbyStations (f : Floats) (scans : Scans) (q : Search) (rawFuelType : String) (isSelfService : Option Bool)
    (limit : ℕ) (s : Store) : Except HttpException (List NearbyStation) := do
  match ← normalizeNotificationFuelType (some rawFuelType) with
  | none => throw ⟨400, "Unsupported fuel type"⟩
  | some fuelType =>
    let rows := (rankedPrices f scans.prices q fuelType isSelfService s).map (Offer.toNearbyStation f)
    return (orderBy scans.stations NearbyStation.key rows).take limit

def getBestStation (f : Floats) (scans : Scans) (q : Search) (rawFuelType : String) (isSelfService : Option Bool)
    (s : Store) : Except HttpException NearbyStation := do
  match ← getNearbyStations f scans q rawFuelType isSelfService 1 s with
  | [] => throw ⟨404, "No stations found for the selected filters"⟩
  | item :: _ => return item

/-! ### The rows in range -/

variable {f : Floats} {q : Search} {fuelType : String} {s : Store}

theorem station_of_offersAt {isSelfService : Option Bool} {c : Station} {o : Offer}
    (h : o ∈ offersAt f q fuelType isSelfService s c) : o.station = c := by
  obtain ⟨p, -, rfl⟩ := List.mem_map.mp h
  rfl

theorem mem_offers {o : Offer} : o ∈ offers f q fuelType s ↔
    o.station ∈ candidateStations f q s ∧ o ∈ offersAt f q fuelType none s o.station := by
  unfold offers
  rw [List.mem_flatMap]
  constructor
  · rintro ⟨c, hc, ho⟩
    obtain rfl := station_of_offersAt ho
    exact ⟨hc, ho⟩
  · exact fun ⟨hc, ho⟩ => ⟨o.station, hc, ho⟩

/-- The id of a station identifies it. -/
theorem station_eq_of_id {a b : Offer} (ha : a ∈ offers f q fuelType s) (hb : b ∈ offers f q fuelType s)
    (h : a.station.id = b.station.id) : a.station = b.station := by
  have hstation : ∀ o ∈ offers f q fuelType s, o.station ∈ s.stations := fun o ho =>
    (List.mem_filter.mp (mem_offers.mp ho).1).1
  exact Table.eq_of_key (k := .inl a.station.id) (hstation a ha) (hstation b hb) (by simp [Station.keys])
    (by simp [Station.keys, h])

/-! ### One row of each station -/

variable {scan : Scan Offer}

/-- A ranked row comes first among the rows of its station. -/
theorem mem_rankedPrices {r : Offer} (h : r ∈ rankedPrices f scan q fuelType none s) :
    r ∈ offers f q fuelType s ∧
      ∀ o ∈ offers f q fuelType s, o.station.id = r.station.id → r.stationKey ≤ o.stationKey := by
  obtain ⟨c, hc, hr⟩ := List.mem_filterMap.mp h
  obtain ⟨hmem, hleast⟩ := orderBy_head hr
  obtain rfl := station_of_offersAt hmem
  have hoffer : r ∈ offers f q fuelType s := mem_offers.mpr ⟨hc, hmem⟩
  refine ⟨hoffer, fun o ho hid => hleast o ?_⟩
  rw [← station_eq_of_id ho hoffer hid]
  exact (mem_offers.mp ho).2

theorem exists_rankedPrices (scan : Scan Offer) {o : Offer} (ho : o ∈ offers f q fuelType s) :
    ∃ r ∈ rankedPrices f scan q fuelType none s, r.station = o.station := by
  obtain ⟨hc, hmem⟩ := mem_offers.mp ho
  cases hr : (orderBy scan Offer.stationKey (offersAt f q fuelType none s o.station)).head? with
  | none =>
    rw [orderBy_head_none.mp hr] at hmem
    exact absurd hmem List.not_mem_nil
  | some r => exact ⟨r, List.mem_filterMap.mpr ⟨o.station, hc, hr⟩, station_of_offersAt (orderBy_head hr).1⟩

/-- Which row of a station comes first: none is later, and of those as late none is cheaper. -/
theorem stationKey_le {r o : Offer} (h : r.stationKey ≤ o.stationKey) :
    o.price.reportedAt ≤ r.price.reportedAt ∧
      (o.price.reportedAt = r.price.reportedAt → rank r.price.price ≤ rank o.price.price) := by
  rcases (Prod.Lex.le_iff.mp h) with hlt | ⟨heq, hle⟩
  · have hlater : o.price.reportedAt < r.price.reportedAt := hlt
    exact ⟨hlater.le, fun heq => absurd heq hlater.ne⟩
  · have hsame : r.price.reportedAt = o.price.reportedAt := heq
    refine ⟨hsame.ge, fun _ => ?_⟩
    rcases (Prod.Lex.le_iff.mp hle) with hlt | ⟨heq, -⟩
    · exact le_of_lt hlt
    · exact le_of_eq heq

/-! ### The two prices -/

/-- The price of a notification is that of a cheapest row. -/
theorem findBestPrice_some {best : BestPrice} (h : findBestPriceForNotification f scan q fuelType s = some best) :
    ∃ o ∈ offers f q fuelType s, o.price.price = best.price ∧
      ∀ b ∈ offers f q fuelType s, rank o.price.price ≤ rank b.price.price := by
  obtain ⟨o, ho, rfl⟩ := Option.map_eq_some_iff.mp h
  obtain ⟨hmem, hleast⟩ := orderBy_head ho
  refine ⟨o, hmem, rfl, fun b hb => ?_⟩
  rcases Prod.Lex.le_iff.mp (hleast b hb) with hlt | ⟨heq, -⟩
  · exact le_of_lt hlt
  · exact le_of_eq heq

theorem findBestPrice_none : findBestPriceForNotification f scan q fuelType s = none ↔ offers f q fuelType s = [] := by
  rw [← @orderBy_head_none _ _ _ scan Offer.notificationKey]
  exact Option.map_eq_none_iff

variable {scans : Scans} {raw : String}

theorem getBestStation_eq (hfuel : normalizeNotificationFuelType (some raw) = .ok (some fuelType)) :
    getBestStation f scans q raw none s =
      match (orderBy scans.stations NearbyStation.key
        ((rankedPrices f scans.prices q fuelType none s).map (Offer.toNearbyStation f))).head? with
      | none => .error ⟨404, "No stations found for the selected filters"⟩
      | some item => .ok item := by
  unfold getBestStation getNearbyStations
  rw [hfuel]
  cases h : orderBy scans.stations NearbyStation.key
    ((rankedPrices f scans.prices q fuelType none s).map (Offer.toNearbyStation f)) with
  | nil => simp only [bind, Except.bind, pure, Except.pure, h]; rfl
  | cons item rest => simp only [bind, Except.bind, pure, Except.pure, h]; rfl

/-- The station shown is ranked, and none that is ranked is cheaper. -/
theorem getBestStation_ok (hfuel : normalizeNotificationFuelType (some raw) = .ok (some fuelType))
    {item : NearbyStation} (h : getBestStation f scans q raw none s = .ok item) :
    ∃ r ∈ rankedPrices f scans.prices q fuelType none s, r.price.price = item.price ∧
      ∀ b ∈ rankedPrices f scans.prices q fuelType none s, rank r.price.price ≤ rank b.price.price := by
  rw [getBestStation_eq hfuel] at h
  split at h
  · exact absurd h (by simp)
  · rename_i row hrow
    obtain rfl := Except.ok.inj h
    obtain ⟨hmem, hleast⟩ := orderBy_head hrow
    obtain ⟨r, hr, rfl⟩ := List.mem_map.mp hmem
    refine ⟨r, hr, rfl, fun b hb => ?_⟩
    rcases Prod.Lex.le_iff.mp (hleast _ (List.mem_map_of_mem hb)) with hlt | ⟨heq, -⟩
    · exact le_of_lt hlt
    · exact le_of_eq heq

/-- No station is shown if there is no row in range, and only then. -/
theorem getBestStation_error (hfuel : normalizeNotificationFuelType (some raw) = .ok (some fuelType))
    {e : HttpException} (h : getBestStation f scans q raw none s = .error e) :
    offers f q fuelType s = [] ∧ e.statusCode = 404 := by
  rw [getBestStation_eq hfuel] at h
  split at h
  · rename_i hnone
    have hranked : rankedPrices f scans.prices q fuelType none s = [] := List.map_eq_nil_iff.mp (orderBy_head_none.mp hnone)
    refine ⟨List.eq_nil_iff_forall_not_mem.mpr fun o ho => ?_, by rw [← Except.error.inj h]⟩
    obtain ⟨r, hr, -⟩ := exists_rankedPrices scans.prices ho
    rw [hranked] at hr
    exact List.not_mem_nil hr
  · exact absurd h (by simp)

/-- The price of the notification is the one that the app shows, and no row in
range is cheaper. -/
structure Shown (f : Floats) (q : Search) (fuelType : String) (s : Store) (best : Option BestPrice)
    (shown : Except HttpException NearbyStation) : Prop where
  same : best.map (·.price) = shown.toOption.map (·.price)
  cheapest : ∀ item, shown = .ok item → ∀ o ∈ offers f q fuelType s, rank item.price ≤ rank o.price.price

/-- Some cheapest row is not older than another row of its station. -/
def CheapestIsLatest (l : List Offer) : Prop :=
  ∃ o ∈ l, (∀ b ∈ l, rank o.price.price ≤ rank b.price.price) ∧
    ∀ b ∈ l, b.station.id = o.station.id → b.price.reportedAt ≤ o.price.reportedAt

/-- A cheapest row that is the latest of its station has the price that is ranked for it. -/
theorem ranked_cheapest {o : Offer} (ho : o ∈ offers f q fuelType s)
    (hleast : ∀ b ∈ offers f q fuelType s, rank o.price.price ≤ rank b.price.price)
    (hlatest : ∀ b ∈ offers f q fuelType s, b.station.id = o.station.id → b.price.reportedAt ≤ o.price.reportedAt) :
    ∃ r ∈ rankedPrices f scan q fuelType none s, rank r.price.price = rank o.price.price := by
  obtain ⟨r, hr, hstation⟩ := exists_rankedPrices scan ho
  obtain ⟨hmem, hfirst⟩ := mem_rankedPrices hr
  obtain ⟨hlater, hcheaper⟩ := stationKey_le (hfirst o ho (by rw [hstation]))
  have htime : o.price.reportedAt = r.price.reportedAt := hlater.antisymm (hlatest r hmem (by rw [hstation]))
  exact ⟨r, hr, le_antisymm (hcheaper htime) (hleast r hmem)⟩

/-- **When the price in a notification is the price the app shows.** For every
database, position, radius and fuel: exactly if no row is in range, or some
cheapest row in range is not older than another row of its station. -/
theorem notification_price_shown_iff (f : Floats) (scan : Scan Offer) (scans : Scans) (q : Search) (s : Store)
    {raw fuelType : String} (hfuel : normalizeNotificationFuelType (some raw) = .ok (some fuelType)) :
    Shown f q fuelType s (findBestPriceForNotification f scan q fuelType s) (getBestStation f scans q raw none s) ↔
      offers f q fuelType s = [] ∨ CheapestIsLatest (offers f q fuelType s) := by
  cases hshown : getBestStation f scans q raw none s with
  | error e =>
    obtain ⟨hempty, -⟩ := getBestStation_error hfuel hshown
    refine ⟨fun _ => Or.inl hempty, fun _ => ⟨?_, fun item h => absurd h (by simp)⟩⟩
    rw [findBestPrice_none.mpr hempty]
    rfl
  | ok item =>
    obtain ⟨r, hr, hprice, hcheap⟩ := getBestStation_ok hfuel hshown
    obtain ⟨hmem, hfirst⟩ := mem_rankedPrices hr
    have hne : offers f q fuelType s ≠ [] := List.ne_nil_of_mem hmem
    constructor
    · rintro ⟨-, hleast⟩
      refine Or.inr ⟨r, hmem, fun b hb => ?_, fun b hb hid => (stationKey_le (hfirst b hb hid)).1⟩
      rw [hprice]
      exact hleast item rfl b hb
    · intro h
      obtain ⟨o, ho, hleast, hlatest⟩ := h.resolve_left hne
      obtain ⟨p, hp, hpo⟩ := @ranked_cheapest _ _ _ _ scans.prices _ ho hleast hlatest
      have hrank : rank item.price = rank o.price.price := by
        rw [← hprice]
        exact le_antisymm ((hcheap p hp).trans hpo.le) (hleast r hmem)
      refine ⟨?_, fun x hx b hb => ?_⟩
      · cases hbest : findBestPriceForNotification f scan q fuelType s with
        | none => exact absurd (findBestPrice_none.mp hbest) hne
        | some best =>
          obtain ⟨c, hc, hcprice, hcleast⟩ := findBestPrice_some hbest
          have hsame : rank best.price = rank item.price := by
            rw [← hcprice, hrank]
            exact le_antisymm (hcleast o ho) (hleast c hc)
          exact congrArg some (rank_injective hsame)
      · rw [← Except.ok.inj hx, hrank]
        exact hleast b hb

/-- What the database computes of a station at the position itself. -/
def hereFloats : Floats := ⟨fun _ _ => true, fun _ _ => .finite 0, id⟩

def hereSearch : Search := ⟨419 / 10, 25 / 2, 5⟩

def hereStation : Station :=
  ⟨1, 9001, some "Distributore", none, none, "Via Roma", "Roma", "RM", .finite (419 / 10), .finite (25 / 2), true, .valid,
    none, 0, 0⟩

def selfPrice : FuelPrice := ⟨1, 1, "diesel", .finite (9 / 5), true, 100, "mimit", 0⟩

def servedPrice (reportedAt : ℤ) : FuelPrice := ⟨2, 1, "diesel", .finite 2, false, reportedAt, "mimit", 0⟩

/-- One station with a self-service price of 1.80, and one of 2.00 with service. -/
def hereStore (reportedAt : ℤ) : Store where
  stations := ⟨[hereStation], by decide⟩
  fuelPrices := ⟨[selfPrice, servedPrice reportedAt], by simp [selfPrice, servedPrice, FuelPrice.keys]⟩
  references := by
    intro p hp
    have hid : p.stationId = 1 := by
      rcases List.mem_pair.mp hp with rfl | rfl <;> rfl
    exact ⟨hereStation, List.mem_singleton_self _, hid.symm⟩

def tableScans : Scans := ⟨.table _, .table _⟩

/-- Both prices were reported at one time: the app shows the cheaper. -/
theorem notification_price_shown_here :
    Shown hereFloats hereSearch "diesel" (hereStore 100)
      (findBestPriceForNotification hereFloats (.table _) hereSearch "diesel" (hereStore 100))
      (getBestStation hereFloats tableScans hereSearch " Gasolio" none (hereStore 100)) := by
  refine (notification_price_shown_iff hereFloats (.table _) tableScans hereSearch (hereStore 100)
    (by decide +kernel : normalizeNotificationFuelType (some " Gasolio") = .ok (some "diesel"))).mpr (Or.inr ?_)
  have hoffers : offers hereFloats hereSearch "diesel" (hereStore 100) =
      [⟨hereStation, .finite 0, selfPrice⟩, ⟨hereStation, .finite 0, servedPrice 100⟩] := by
    rfl
  rw [hoffers]
  refine ⟨_, List.mem_cons_self, fun b hb => ?_, fun b hb _ => ?_⟩ <;> rcases List.mem_pair.mp hb with rfl | rfl <;>
    decide +kernel

/-- The price with service was reported last: the notification says 1.80, and the app shows 2.00. -/
theorem notification_price_not_shown :
    ¬ Shown hereFloats hereSearch "diesel" (hereStore 200)
      (findBestPriceForNotification hereFloats (.table _) hereSearch "diesel" (hereStore 200))
      (getBestStation hereFloats tableScans hereSearch "diesel" none (hereStore 200)) := by
  rintro ⟨hsame, -⟩
  have hbest : (findBestPriceForNotification hereFloats (.table _) hereSearch "diesel" (hereStore 200)).map (·.price) =
      some (.finite (9 / 5)) := by
    decide +kernel
  have hshown : (getBestStation hereFloats tableScans hereSearch "diesel" none (hereStore 200)).toOption.map (·.price) =
      some (.finite 2) := by
    decide +kernel
  rw [hbest, hshown] at hsame
  exact absurd hsame (by decide +kernel)

end Stations
end FuelNear
