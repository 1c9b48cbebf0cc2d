/-
# The stations of a MIMIT import

The rows of the station CSV, the assessment of their coordinates, the tables
`stations` and `fuel_prices`, and the upsert of a station. A store carries the
proof of the foreign key from a price to its station. What the database gives
an import beside its data (the next ids, the clock, the session's time zone,
and where it fails) stands in `Environment`.

Key definitions: `loadStationsDataframe`, `assessStationCoordinateQuality`, `Store`, `importStations`.
Key theorems: `upsertStation_spec`, `importStations_spec`.
-/
import FuelNear.Connection
import FuelNear.Mimit.Prices
import Mathlib.Tactic

namespace FuelNear
namespace Mimit

open Sql Connection

/-! ### The station CSV -/

/-- A row of the station frame; `none` is a missing value. -/
structure StationRow where
  idImpianto : Option String
  gestore : Option String
  bandiera : Option String
  nomeImpianto : Option String
  indirizzo : Option String
  comune : Option String
  provincia : Option String
  latitudine : Option String
  longitudine : Option String
  deriving DecidableEq

/-- `" | ".join(part.strip() for part in parts if part.strip())`. -/
def joinAddress (parts : List String) : String :=
  " | ".intercalate ((parts.filter (Text.strip · ≠ "")).map Text.strip)

/-- A line of the CSV: four fields first and four last; what is between is the
name and the address, which may hold the separator. -/
def stationRow? (row : List String) : Option StationRow :=
  if row.length < 10 then none
  else
    let middle := (row.drop 4).dropLast.dropLast.dropLast.dropLast
    let tail := row.drop (row.length - 4)
    match row, middle, tail with
    | idImpianto :: gestore :: bandiera :: _, nome :: rest, [comune, provincia, latitudine, longitudine] =>
      if rest = [] then none
      else some {
        idImpianto := some (Text.strip idImpianto)
        gestore := some (Text.strip gestore)
        bandiera := some (Text.strip bandiera)
        nomeImpianto := some (Text.strip nome)
        indirizzo := some (joinAddress rest)
        comune := some (Text.strip comune)
        provincia := some (Text.strip provincia)
        latitudine := some (Text.strip latitudine)
        longitudine := some (Text.strip longitudine) }
    | _, _, _ => none

/-- The frame of the lines after the two of the header. -/
def loadStationsDataframe (lines : List (List String)) : List StationRow := (lines.drop 2).filterMap stationRow?

/-! ### The quality of the coordinates -/

inductive GeodataStatus where
  | unassessed
  | valid
  | quarantined
  deriving DecidableEq

structure AssessedStation extends StationRow where
  geodataStatus : GeodataStatus
  geodataReason : Option String

/-- A finite coordinate. -/
def coordinate (py : Python) (cell : Option String) : Option ℚ :=
  match cell.bind py.toNumeric with
  | some (.finite q) => some q
  | _ => none

def locationKey (py : Python) (cell : Option String) : String := py.casefold (Text.strip (cell.getD ""))

def insideItalyBounds (latitude longitude : ℚ) : Bool :=
  35 ≤ latitude && latitude ≤ 48 && 6 ≤ longitude && longitude ≤ 39 / 2

/-- A station that counts for the median of its municipality. -/
structure Reference where
  cityKey : String
  provinceKey : String
  latitude : ℚ
  longitude : ℚ

def reference? (py : Python) (row : StationRow) : Option Reference := do
  let latitude ← coordinate py row.latitudine
  let longitude ← coordinate py row.longitudine
  let cityKey := locationKey py row.comune
  let provinceKey := locationKey py row.provincia
  if insideItalyBounds latitude longitude && cityKey ≠ "" && provinceKey ≠ "" then
    some { cityKey, provinceKey, latitude, longitude }
  else none

def median (py : Python) (l : List ℚ) : ℚ :=
  let s := l.mergeSort fun a b => decide (a ≤ b)
  if s.length % 2 = 1 then s.getD (s.length / 2) 0
  else py.midpoint (s.getD (s.length / 2 - 1) 0) (s.getD (s.length / 2) 0)

def assessStation (py : Python) (references : List Reference) (row : StationRow) : GeodataStatus × Option String :=
  match coordinate py row.latitudine, coordinate py row.longitudine with
  | some latitude, some longitude =>
    if !insideItalyBounds latitude longitude then (.quarantined, some "outside_italy_bounds")
    else
      match reference? py row with
      | none => (.valid, none)
      | some r =>
        let municipality := references.filter fun x => x.cityKey = r.cityKey && x.provinceKey = r.provinceKey
        if municipality.length < 5 then (.valid, none)
        else if 100 < py.geodataDistanceKm latitude longitude (median py (municipality.map (·.latitude)))
            (median py (municipality.map (·.longitude))) then (.quarantined, some "municipality_outlier")
        else (.valid, none)
  | _, _ => (.quarantined, some "invalid_coordinate")

def assessStationCoordinateQuality (py : Python) (df : List StationRow) : List AssessedStation :=
  df.map fun row =>
    let quality := assessStation py (df.filterMap (reference? py)) row
    { row with geodataStatus := quality.1, geodataReason := quality.2 }

/-! ### The tables -/

structure Station where
  id : ℤ
  mimitId : ℤ
  name : Option String
  brand : Option String
  operator : Option String
  address : String
  city : String
  province : String
  latitude : Number
  longitude : Number
  isActive : Bool
  geodataStatus : GeodataStatus
  geodataReason : Option String
  createdAt : ℤ
  updatedAt : ℤ
  deriving DecidableEq

/-- The primary key and the unique `mimit_id`. -/
def Station.keys (s : Station) : List (ℤ ⊕ ℤ) := [.inl s.id, .inr s.mimitId]

structure FuelPrice where
  id : ℤ
  stationId : ℤ
  fuelType : String
  price : Number
  isSelfService : Bool
  reportedAt : ℤ
  source : String
  createdAt : ℤ
  deriving DecidableEq

def FuelPrice.keys (p : FuelPrice) : List ℤ := [p.id]

/-- The two tables; every price is of a station. -/
structure Store where
  stations : Table Station Station.keys
  fuelPrices : Table FuelPrice FuelPrice.keys
  references : ∀ p ∈ fuelPrices, ∃ s ∈ stations, s.id = p.stationId

/-- What an import meets: the settings, Python, and the database server, whose
answers may differ from step to step. -/
structure Environment where
  python : Python
  minFinalPriceRows : ℕ
  faults : ℕ → Option Raised
  nextStationId : ℕ → ℤ
  nextPriceId : ℕ → ℤ
  now : ℤ
  /-- a naive datetime in the session's time zone -/
  sessionTime : ℤ → ℤ

/-! ### The upsert of a station -/

/-- The values of the INSERT. -/
structure StationValues where
  mimitId : ℤ
  name : Option String
  brand : Option String
  operator : Option String
  address : String
  city : String
  province : String
  latitude : Number
  longitude : Number
  geodataStatus : GeodataStatus
  geodataReason : Option String

/-- `int(s)` of a cell; the missing value is a float that has no integer. -/
def intCell (cell : Option String) : Except Raised ℤ :=
  match cell.bind Text.int? with
  | some n => .ok n
  | none => .error .valueError

/-- What is inserted for a row; `none` if the row is skipped. -/
def stationValues (py : Python) (row : AssessedStation) : Except Raised (Option StationValues) := do
  let latitudeRaw := (row.latitudine.map Text.strip).getD ""
  let longitudeRaw := (row.longitudine.map Text.strip).getD ""
  if latitudeRaw = "" || longitudeRaw = "" then
    return none
  let mimitId ← intCell row.idImpianto
  let address := (row.indirizzo.map Text.strip).getD ""
  let city := (row.comune.map Text.strip).getD ""
  let province := (row.provincia.map Text.strip).getD ""
  if address = "" || city = "" || province = "" then
    return none
  let latitude ← py.float latitudeRaw
  let longitude ← py.float longitudeRaw
  return some {
    mimitId := mimitId
    name := row.nomeImpianto.map Text.strip
    brand := row.bandiera.map Text.strip
    operator := row.gestore.map Text.strip
    address := address
    city := city
    province := province
    latitude := latitude
    longitude := longitude
    geodataStatus := row.geodataStatus
    geodataReason := row.geodataReason }

/-- The row of the INSERT. -/
def StationValues.toStation (v : StationValues) (id now : ℤ) : Station where
  id := id
  mimitId := v.mimitId
  name := v.name
  brand := v.brand
  operator := v.operator
  address := v.address
  city := v.city
  province := v.province
  latitude := v.latitude
  longitude := v.longitude
  isActive := true
  geodataStatus := v.geodataStatus
  geodataReason := v.geodataReason
  createdAt := now
  updatedAt := now

/-- The SET of `ON CONFLICT (mimit_id) DO UPDATE`. -/
def StationValues.overwrite (v : StationValues) (now : ℤ) (s : Station) : Station :=
  { s with
    name := v.name
    brand := v.brand
    operator := v.operator
    address := v.address
    city := v.city
    province := v.province
    latitude := v.latitude
    longitude := v.longitude
    isActive := true
    geodataStatus := v.geodataStatus
    geodataReason := v.geodataReason
    updatedAt := now }

theorem overwrite_keys (v : StationValues) (now : ℤ) (s : Station) :
    (v.overwrite now s).keys.Sublist s.keys := List.Sublist.refl _

/-- The store with other stations, under which every old id is still there. -/
def Store.withStations (s : Store) (t : Table Station Station.keys)
    (h : ∀ x ∈ s.stations, ∃ y ∈ t, y.id = x.id ∧ y.mimitId = x.mimitId) : Store where
  stations := t
  fuelPrices := s.fuelPrices
  references p hp := by
    obtain ⟨x, hx, hxp⟩ := s.references p hp
    obtain ⟨y, hy, hyx, -⟩ := h x hx
    exact ⟨y, hy, hyx.trans hxp⟩

theorem mem_overwrite (t : Table Station Station.keys) (p : Station → Bool) (v : StationValues) (now : ℤ) :
    ∀ x ∈ t, ∃ y ∈ t.update p (v.overwrite now) (overwrite_keys v now), y.id = x.id ∧ y.mimitId = x.mimitId := by
  intro x hx
  refine ⟨_, Table.mem_update.mpr ⟨x, hx, rfl⟩, ?_⟩
  split_ifs <;> exact ⟨rfl, rfl⟩

theorem mem_inserted {t u : Table Station Station.keys} {r : Station} (h : t.insert? r = some u) :
    ∀ x ∈ t, ∃ y ∈ u, y.id = x.id ∧ y.mimitId = x.mimitId :=
  fun x hx => ⟨x, (Table.mem_insert h).mpr (.inl hx), rfl, rfl⟩

/-- `INSERT INTO stations … ON CONFLICT (mimit_id) DO UPDATE … RETURNING id`. -/
def upsertStation (env : Environment) (v : StationValues) (n : ℕ) (s : Store) : Except Raised (ℤ × Store) :=
  match s.stations.find? fun x => x.mimitId = v.mimitId with
  | some x =>
    .ok (x.id, s.withStations
      (s.stations.update (fun y => y.mimitId = v.mimitId) (v.overwrite env.now) (overwrite_keys v env.now))
      (mem_overwrite _ _ _ _))
  | none =>
    match h : s.stations.insert? (v.toStation (env.nextStationId n) env.now) with
    | some t => .ok (env.nextStationId n, s.withStations t (mem_inserted h))
    | none => .error (.database .unique)

/-- A turn of the loop of `import_stations`. -/
def importStation (env : Environment) (stationIdMap : Dict ℤ ℤ) (row : AssessedStation) :
    Script Raised Store (Dict ℤ ℤ) := do
  let values ← compute env.faults (stationValues env.python row)
  match values with
  | none => return stationIdMap
  | some v =>
    let stationDbId ← statement env.faults (upsertStation env v)
    return stationIdMap.set v.mimitId stationDbId

def importStations (env : Environment) (df : List AssessedStation) : Script Raised Store (Dict ℤ ℤ) :=
  df.foldlM (importStation env) Dict.empty

theorem upsertStation_spec {env : Environment} {v : StationValues} {n : ℕ} {s t : Store} {id : ℤ}
    (h : upsertStation env v n s = .ok (id, t)) :
    (∃ x ∈ t.stations, x.id = id ∧ x.mimitId = v.mimitId) ∧
      ∀ x ∈ s.stations, ∃ y ∈ t.stations, y.id = x.id ∧ y.mimitId = x.mimitId := by
  unfold upsertStation at h
  split at h
  · next x hx =>
    obtain ⟨rfl, rfl⟩ := Prod.mk.inj (Except.ok.inj h)
    have hkept := mem_overwrite s.stations (fun y => y.mimitId = v.mimitId) v env.now
    have hm : x.mimitId = v.mimitId := by simpa using Table.find?_prop hx
    obtain ⟨y, hy, hid, hy'⟩ := hkept x (Table.find?_mem hx)
    exact ⟨⟨y, hy, hid, hy'.trans hm⟩, hkept⟩
  · split at h
    · next t' ht =>
      obtain ⟨rfl, rfl⟩ := Prod.mk.inj (Except.ok.inj h)
      exact ⟨⟨_, (Table.mem_insert ht).mpr (.inr rfl), rfl, rfl⟩, mem_inserted ht⟩
    · exact absurd h (by simp)

/-- The map of the rows `done` leads to their stations in `s`. -/
structure Mapped (env : Environment) (done : List AssessedStation) (ids : Dict ℤ ℤ) (s : Store) : Prop where
  keys : ∀ m, m ∈ ids.keys ↔ ∃ row ∈ done, ∃ v, stationValues env.python row = .ok (some v) ∧ v.mimitId = m
  station : ∀ m i, ids.get? m = some i → ∃ x ∈ s.stations, x.id = i ∧ x.mimitId = m

theorem Mapped.empty (env : Environment) (s : Store) : Mapped env [] Dict.empty s where
  keys m := by simp
  station m i h := by
    rw [Dict.get?_eq_some] at h
    exact absurd h (by simp)

/-- A row more, that is skipped. -/
theorem Mapped.skipped {env : Environment} {done : List AssessedStation} {row : AssessedStation} {ids : Dict ℤ ℤ}
    {s : Store} (h : Mapped env done ids s) (hrow : stationValues env.python row = .ok none) :
    Mapped env (done ++ [row]) ids s where
  keys m := by
    rw [h.keys]
    constructor
    · rintro ⟨r, hr, hv⟩
      exact ⟨r, List.mem_append_left _ hr, hv⟩
    · rintro ⟨r, hr, v, hv, hm⟩
      rcases List.mem_append.mp hr with hr | hr
      · exact ⟨r, hr, v, hv, hm⟩
      · rw [List.mem_singleton.mp hr, hrow] at hv
        exact absurd hv (by simp)
  station := h.station

/-- A row more, upserted under the id `id`. -/
theorem Mapped.upserted {env : Environment} {done : List AssessedStation} {row : AssessedStation} {ids : Dict ℤ ℤ}
    {s t : Store} {v : StationValues} {n : ℕ} {id : ℤ} (h : Mapped env done ids s)
    (hrow : stationValues env.python row = .ok (some v)) (hup : upsertStation env v n s = .ok (id, t)) :
    Mapped env (done ++ [row]) (ids.set v.mimitId id) t where
  keys m := by
    rw [Dict.mem_keys_set, h.keys]
    constructor
    · rintro (rfl | ⟨r, hr, hv⟩)
      · exact ⟨row, by simp, v, hrow, rfl⟩
      · exact ⟨r, List.mem_append_left _ hr, hv⟩
    · rintro ⟨r, hr, w, hw, hm⟩
      rcases List.mem_append.mp hr with hr | hr
      · exact .inr ⟨r, hr, w, hw, hm⟩
      · rw [List.mem_singleton.mp hr, hrow] at hw
        obtain rfl : v = w := by simpa using hw
        exact .inl hm.symm
  station m i hi := by
    obtain ⟨hnew, hkept⟩ := upsertStation_spec hup
    rw [Dict.get?_set] at hi
    by_cases hm : m = v.mimitId
    · rw [if_pos hm] at hi
      obtain rfl := Option.some.inj hi
      rwa [hm]
    · rw [if_neg hm] at hi
      obtain ⟨x, hx, hxi, hxm⟩ := h.station m i hi
      obtain ⟨y, hy, hyi, hym⟩ := hkept x hx
      exact ⟨y, hy, hyi.trans hxi, hym.trans hxm⟩

/-- The map that `import_stations` answers leads to the stations of the rows
that are not skipped. -/
theorem importStations_spec {env : Environment} {df : List AssessedStation} {ids : Dict ℤ ℤ} {s t : Store}
    (h : Yields (importStations env df) s ids t) : Mapped env df ids t := by
  refine Yields.foldlM ?_ df (Mapped.empty env s) h
  intro done row ids s ids' t hI hstep
  obtain ⟨values, u, hvalues, hstep⟩ := Yields.bind hstep
  obtain ⟨hrow, rfl⟩ := Yields.compute hvalues
  cases values with
  | none =>
    obtain ⟨rfl, rfl⟩ := Yields.pure hstep
    exact hI.skipped hrow
  | some v =>
    obtain ⟨id, w, hup, hstep⟩ := Yields.bind hstep
    obtain ⟨n, hup⟩ := Yields.statement hup
    obtain ⟨rfl, rfl⟩ := Yields.pure hstep
    exact hI.upserted hrow hup

theorem importStations_tentative (env : Environment) (df : List AssessedStation) :
    Tentative env.faults (importStations env df) := by
  refine Tentative.foldlM (fun ids row => ?_) df Dict.empty
  refine Tentative.bind (Tentative.compute _) fun values => ?_
  cases values with
  | none => exact Tentative.pure _
  | some v => exact Tentative.bind (Tentative.statement _) fun id => Tentative.pure _

end Mimit
end FuelNear
