/-
# A MIMIT import is all or nothing

`import_local_mimit_files` upserts the stations, chooses the price rows,
checks their number, clears `fuel_prices`, inserts the rows, counts them again
and commits, all on one connection. Whatever raises on the way, at whatever
step, both tables stay as they were committed; when it succeeds, `fuel_prices`
holds the chosen rows and no other, in number at least the required minimum.

The metrics, which no statement reads, are not here.

Key definitions: `importLocalMimitFiles`, `Imported`.
Key theorems: `import_all_or_nothing`.
-/
import FuelNear.Mimit.Stations
import Mathlib.Tactic

namespace FuelNear
namespace Mimit

open Sql Connection

/-! ### The checks of the number of rows -/

def validateCandidatePriceCount (requiredRows candidateRows : ℕ) : Except Raised Unit :=
  if 0 < candidateRows ∧ requiredRows ≤ candidateRows then .ok ()
  else .error (.candidateDatasetRejected ("Candidate dataset rejected: final price rows " ++ toString candidateRows ++
    " below required minimum " ++ toString requiredRows ++ "; existing dataset preserved"))

def validatePostWritePriceCount (requiredRows writtenRows candidateRows : ℕ) : Except Raised Unit :=
  if 0 < writtenRows ∧ requiredRows ≤ writtenRows ∧ writtenRows = candidateRows then .ok ()
  else .error (.databaseWriteValidationError ("Database write validation failed: wrote " ++ toString writtenRows ++
    " price rows for " ++ toString candidateRows ++ " candidates with required minimum " ++ toString requiredRows))

/-! ### The statements on `fuel_prices` -/

/-- `DELETE FROM fuel_prices`. -/
def clearPrices (s : Store) : Except Raised (Unit × Store) :=
  .ok ((), {
    stations := s.stations
    fuelPrices := s.fuelPrices.delete fun _ => true
    references := fun p hp => s.references p (Table.mem_delete.mp hp).1 })

/-- The row of the INSERT. -/
def NormalizedMimitPrice.toFuelPrice (item : NormalizedMimitPrice) (id stationId reportedAt now : ℤ) : FuelPrice where
  id := id
  stationId := stationId
  fuelType := item.fuelType.name
  price := .finite item.price
  isSelfService := item.isSelfService
  reportedAt := reportedAt
  source := "mimit"
  createdAt := now

/-- `INSERT INTO fuel_prices`; NaT is no timestamp. -/
def insertPrice (env : Environment) (stationId : ℤ) (item : NormalizedMimitPrice) (n : ℕ) (s : Store) :
    Except Raised (Unit × Store) :=
  match item.reportedAt with
  | none => .error (.other "InvalidDatetimeFormat" true)
  | some reportedAt =>
    let row := item.toFuelPrice (env.nextPriceId n) stationId (env.sessionTime reportedAt) env.now
    if hs : ∃ x ∈ s.stations.rows, x.id = stationId then
      match h : s.fuelPrices.insert? row with
      | none => .error (.database .unique)
      | some t => .ok ((), {
          stations := s.stations
          fuelPrices := t
          references := fun p hp => by
            rcases (Table.mem_insert h).mp hp with hp | rfl
            · exact s.references p hp
            · exact hs })
    else .error (.database .foreignKey)

/-- `SELECT COUNT(*), MAX(reported_at) FROM fuel_prices`. -/
def countPrices (s : Store) : Except Raised ((ℕ × Option ℤ) × Store) :=
  .ok ((s.fuelPrices.rows.length, (s.fuelPrices.rows.map (·.reportedAt)).max?), s)

/-! ### The import -/

/-- A turn of the loop of `import_prices`. -/
def importPrice (env : Environment) (stationIdMap : Dict ℤ ℤ) (item : NormalizedMimitPrice) :
    Script Raised Store PUnit := do
  let stationId ← compute env.faults ((stationIdMap.get? item.mimitId).elim (.error .keyError) .ok)
  statement env.faults (insertPrice env stationId item)

/-- `import_prices`, of the rows prepared. -/
def importPrices (env : Environment) (stationIdMap : Dict ℤ ℤ)
    (prepared : List NormalizedMimitPrice × PriceSelectionDiagnostics) : Script Raised Store ℕ := do
  prepared.1.forM (importPrice env stationIdMap)
  return prepared.2.selectedRows

/-- The two files, or what reading one raises. -/
structure Files where
  anagrafica : Except Raised (List (List String))
  prezzi : Except Raised (List PriceRow)

def getPricesCsvMaxReportedAt (py : Python) (df : List PriceRow) : Option ℤ :=
  (df.filterMap fun row => (py.toDatetime (Text.strip row.dtComu.str)).toOption.join).max?

structure ImportResult where
  stationsCsv : ℕ
  pricesCsv : ℕ
  stationsImported : ℕ
  stationsGeodataQuarantined : ℕ
  pricesImported : ℕ
  maxReportedAtCsv : Option ℤ
  maxReportedAtImported : Option ℤ
  deriving DecidableEq

/-- The body of the `try`. -/
def importBody (env : Environment) (files : Files) : Script Raised Store ImportResult := do
  let lines ← compute env.faults files.anagrafica
  let dfStations := loadStationsDataframe lines
  require (dfStations ≠ []) (.runtimeError "Anagrafica CSV vuota o non valida")
  let assessed := assessStationCoordinateQuality env.python dfStations
  let stationsGeodataQuarantined := assessed.countP fun s =>
    s.geodataStatus = .quarantined && s.geodataReason ≠ some "invalid_coordinate"
  let dfPrices ← compute env.faults files.prezzi
  require (dfPrices.length ≠ 0) (.runtimeError "Prezzi CSV vuoto o non valido")
  let stationIdMap ← importStations env assessed
  require (stationIdMap.entries ≠ []) (.runtimeError "Nessuna stazione importata: import interrotto")
  let prepared ← compute env.faults (preparePricesForImport env.python dfPrices stationIdMap)
  compute env.faults (validateCandidatePriceCount env.minFinalPriceRows prepared.2.selectedRows)
  statement env.faults fun _ => clearPrices
  let importedPrices ← importPrices env stationIdMap prepared
  let (postWriteCount, maxReportedAtImported) ← statement env.faults fun _ => countPrices
  compute env.faults
    (validatePostWritePriceCount env.minFinalPriceRows postWriteCount prepared.2.selectedRows)
  commit env.faults
  return {
    stationsCsv := dfStations.length
    pricesCsv := dfPrices.length
    stationsImported := stationIdMap.entries.length
    stationsGeodataQuarantined := stationsGeodataQuarantined
    pricesImported := importedPrices
    maxReportedAtCsv := getPricesCsvMaxReportedAt env.python dfPrices
    maxReportedAtImported := maxReportedAtImported }

/-- `import_local_mimit_files`, on the connection that it is handed. -/
def importLocalMimitFiles (env : Environment) (files : Files) : Script Raised Store ImportResult :=
  closing (rollingBack env.faults Raised.isException (importBody env files))

/-! ### What is inserted -/

/-- A price as a reader sees it. -/
structure PriceContent where
  stationId : ℤ
  fuelType : String
  price : Number
  isSelfService : Bool
  reportedAt : ℤ
  source : String
  deriving DecidableEq

def FuelPrice.content (p : FuelPrice) : PriceContent where
  stationId := p.stationId
  fuelType := p.fuelType
  price := p.price
  isSelfService := p.isSelfService
  reportedAt := p.reportedAt
  source := p.source

/-- The station, fuel and service mode of a price. -/
def PriceContent.key (c : PriceContent) : ℤ × String × Bool := (c.stationId, c.fuelType, c.isSelfService)

/-- A chosen row as the table holds it. -/
def NormalizedMimitPrice.content? (env : Environment) (stationIdMap : Dict ℤ ℤ) (item : NormalizedMimitPrice) :
    Option PriceContent := do
  let stationId ← stationIdMap.get? item.mimitId
  let reportedAt ← item.reportedAt
  return {
    stationId := stationId
    fuelType := item.fuelType.name
    price := .finite item.price
    isSelfService := item.isSelfService
    reportedAt := env.sessionTime reportedAt
    source := "mimit" }

variable {env : Environment} {ids : Dict ℤ ℤ} {s t : Store}

/-- The rows `done` are in the table, in order, and no other row is; the
stations are those of `s`. -/
structure Filled (env : Environment) (ids : Dict ℤ ℤ) (s : Store) (done : List NormalizedMimitPrice) (t : Store) :
    Prop where
  rows : t.fuelPrices.rows.map (some ·.content) = done.map (·.content? env ids)
  stations : t.stations = s.stations

theorem clearPrices_filled (h : clearPrices s = .ok ((), t)) : Filled env ids s [] t := by
  obtain ⟨-, rfl⟩ := Prod.mk.inj (Except.ok.inj h)
  refine ⟨?_, rfl⟩
  simp [Table.delete]

theorem insertPrice_spec {stationId : ℤ} {item : NormalizedMimitPrice} {n : ℕ}
    (h : insertPrice env stationId item n s = .ok ((), t)) :
    ∃ reportedAt, item.reportedAt = some reportedAt ∧ t.stations = s.stations ∧
      t.fuelPrices.rows = s.fuelPrices.rows ++
        [item.toFuelPrice (env.nextPriceId n) stationId (env.sessionTime reportedAt) env.now] := by
  unfold insertPrice at h
  split at h
  · exact absurd h (by simp)
  · next reportedAt hr =>
    dsimp only at h
    split at h
    · split at h
      · exact absurd h (by simp)
      · next hu =>
        obtain ⟨-, rfl⟩ := Prod.mk.inj (Except.ok.inj h)
        exact ⟨reportedAt, hr, rfl, Table.insert?_rows hu⟩
    · exact absurd h (by simp)

/-- A turn of the insertion loop adds the item's row. -/
theorem importPrice_filled {done : List NormalizedMimitPrice} {item : NormalizedMimitPrice} {u : Store} {r : PUnit}
    (hI : Filled env ids s done t) (h : Yields (importPrice env ids item) t r u) :
    Filled env ids s (done ++ [item]) u := by
  obtain ⟨stationId, v, hlookup, hstep⟩ := Yields.bind h
  obtain ⟨hid, rfl⟩ := Yields.compute hlookup
  obtain ⟨n, hins⟩ := Yields.statement hstep
  obtain ⟨reportedAt, hr, hstations, hrows⟩ := insertPrice_spec hins
  have hget : ids.get? item.mimitId = some stationId := by
    cases hm : ids.get? item.mimitId with
    | none =>
      rw [hm] at hid
      exact absurd hid (by simp)
    | some i =>
      rw [hm] at hid
      exact congrArg some (Except.ok.inj hid)
  refine ⟨?_, hstations.trans hI.stations⟩
  rw [hrows, List.map_append, List.map_append, hI.rows]
  simp [NormalizedMimitPrice.content?, hget, hr, FuelPrice.content, NormalizedMimitPrice.toFuelPrice]

theorem importPrices_filled {prepared : List NormalizedMimitPrice × PriceSelectionDiagnostics} {n : ℕ} {u : Store}
    (hI : Filled env ids s [] t) (h : Yields (importPrices env ids prepared) t n u) :
    Filled env ids s prepared.1 u := by
  obtain ⟨r, v, hloop, hret⟩ := Yields.bind h
  obtain ⟨-, rfl⟩ := Yields.pure hret
  have hfilled := Yields.forM (fun _ _ _ _ _ hI h => importPrice_filled hI h) prepared.1 hI hloop
  rwa [List.nil_append] at hfilled

theorem importPrices_tentative (env : Environment) (ids : Dict ℤ ℤ)
    (prepared : List NormalizedMimitPrice × PriceSelectionDiagnostics) :
    Tentative env.faults (importPrices env ids prepared) := by
  refine Tentative.bind (Tentative.forM (fun item => ?_) prepared.1) fun _ => Tentative.pure _
  exact Tentative.bind (Tentative.compute _) fun _ => Tentative.statement _

/-! ### The whole import -/

theorem validateCandidatePriceCount_ok {requiredRows candidateRows : ℕ} {r : Unit}
    (h : validateCandidatePriceCount requiredRows candidateRows = .ok r) :
    0 < candidateRows ∧ requiredRows ≤ candidateRows := by
  unfold validateCandidatePriceCount at h
  split_ifs at h with hc
  exact hc

/-- What a completed import of the files leaves: the map of the station file's
rows to their stations, and in `fuel_prices` the choice among the rows of the
price file. -/
structure Imported (env : Environment) (files : Files) (ids : Dict ℤ ℤ) (selected : List NormalizedMimitPrice)
    (t : Store) : Prop where
  stations : ∃ lines, files.anagrafica = .ok lines ∧
    Mapped env (assessStationCoordinateQuality env.python (loadStationsDataframe lines)) ids t
  prepared : ∃ df diagnostics, files.prezzi = .ok df ∧
    preparePricesForImport env.python df ids = .ok (selected, diagnostics)
  rows : t.fuelPrices.rows.map (some ·.content) = selected.map (·.content? env ids)
  once : (t.fuelPrices.rows.map (·.content.key)).Nodup
  positive : 0 < t.fuelPrices.rows.length
  minimum : env.minFinalPriceRows ≤ t.fuelPrices.rows.length

/-- Two stations of the map are two rows of the table. -/
theorem Mapped.injective {done : List AssessedStation} (h : Mapped env done ids s) {m m' i : ℤ}
    (hm : ids.get? m = some i) (hm' : ids.get? m' = some i) : m = m' := by
  obtain ⟨x, hx, hxi, rfl⟩ := h.station m i hm
  obtain ⟨y, hy, hyi, rfl⟩ := h.station m' i hm'
  have hk : Sum.inl i ∈ x.keys := by simp [Station.keys, hxi]
  have hk' : Sum.inl i ∈ y.keys := by simp [Station.keys, hyi]
  rw [Table.eq_of_key hx hy hk hk']

/-- The content of two chosen rows has one key only if the rows have. -/
theorem key_of_content {done : List AssessedStation} (hmap : Mapped env done ids s) {a b : NormalizedMimitPrice}
    {c d : PriceContent} (ha : a.content? env ids = some c) (hb : b.content? env ids = some d)
    (h : c.key = d.key) : a.key = b.key := by
  obtain ⟨i, hi, r, -, rfl⟩ : ∃ i, ids.get? a.mimitId = some i ∧ ∃ r, a.reportedAt = some r ∧ _ := by
    simpa [NormalizedMimitPrice.content?, Option.bind_eq_some_iff] using ha
  obtain ⟨j, hj, r', -, rfl⟩ : ∃ j, ids.get? b.mimitId = some j ∧ ∃ r, b.reportedAt = some r ∧ _ := by
    simpa [NormalizedMimitPrice.content?, Option.bind_eq_some_iff] using hb
  obtain ⟨rfl, hname, hself⟩ : i = j ∧ a.fuelType.name = b.fuelType.name ∧ a.isSelfService = b.isSelfService := by
    simpa [PriceContent.key] using h
  rw [NormalizedMimitPrice.key, NormalizedMimitPrice.key, hmap.injective hi hj, FuelType.name_injective hname, hself]

/-- A table filled with rows chosen once each holds each key once. -/
theorem Filled.once {done : List AssessedStation} {selected : List NormalizedMimitPrice}
    (h : Filled env ids s selected t) (hmap : Mapped env done ids t) (hnodup : (selected.map (·.key)).Nodup) :
    (t.fuelPrices.rows.map (·.content.key)).Nodup := by
  have hsel : (selected.map (·.content? env ids)).Pairwise fun c d =>
      ∀ x y, c = some x → d = some y → x.key ≠ y.key := by
    rw [List.pairwise_map]
    refine (List.pairwise_map.mp hnodup).imp fun hne x y hx hy hk => ?_
    exact hne (key_of_content hmap hx hy hk)
  rw [← h.rows, List.pairwise_map] at hsel
  exact List.pairwise_map.mpr (hsel.imp fun hne => hne _ _ rfl rfl)

theorem importBody_atomic (env : Environment) (files : Files) : Atomic env.faults (importBody env files) := by
  refine (Tentative.compute _).bind_atomic fun lines => ?_
  refine (Tentative.require _ _).bind_atomic fun _ => ?_
  refine (Tentative.compute _).bind_atomic fun df => ?_
  refine (Tentative.require _ _).bind_atomic fun _ => ?_
  refine (importStations_tentative _ _).bind_atomic fun ids => ?_
  refine (Tentative.require _ _).bind_atomic fun _ => ?_
  refine (Tentative.compute _).bind_atomic fun prepared => ?_
  refine (Tentative.compute _).bind_atomic fun _ => ?_
  refine (Tentative.statement _).bind_atomic fun _ => ?_
  refine (importPrices_tentative _ _ _).bind_atomic fun n => ?_
  refine (Tentative.statement _).bind_atomic fun count => ?_
  refine (Tentative.compute _).bind_atomic fun _ => ?_
  exact atomic_commit _

/-- What the body of the `try` makes of a store. -/
theorem importBody_spec {files : Files} {result : ImportResult}
    (h : Yields (importBody env files) s result t) : ∃ ids selected, Imported env files ids selected t := by
  obtain ⟨lines, s₁, hread, h1⟩ := Yields.bind h
  obtain ⟨hlines, rfl⟩ := Yields.compute hread
  obtain ⟨_, s₂, hreq, h2⟩ := Yields.bind h1
  obtain ⟨-, rfl⟩ := Yields.require hreq
  obtain ⟨df, s₃, hread', h3⟩ := Yields.bind h2
  obtain ⟨hdf, rfl⟩ := Yields.compute hread'
  obtain ⟨_, s₄, hreq', h4⟩ := Yields.bind h3
  obtain ⟨-, rfl⟩ := Yields.require hreq'
  obtain ⟨ids, s₅, hstations, h5⟩ := Yields.bind h4
  have hmap := importStations_spec hstations
  obtain ⟨_, s₆, hreq'', h6⟩ := Yields.bind h5
  obtain ⟨-, rfl⟩ := Yields.require hreq''
  obtain ⟨⟨selected, d⟩, s₇, hprep, h7⟩ := Yields.bind h6
  obtain ⟨hprepared, rfl⟩ := Yields.compute hprep
  obtain ⟨_, s₈, hvalid, h8⟩ := Yields.bind h7
  obtain ⟨hcount, rfl⟩ := Yields.compute hvalid
  obtain ⟨_, s₉, hclear, h9⟩ := Yields.bind h8
  obtain ⟨_, hcleared⟩ := Yields.statement hclear
  obtain ⟨n, s₁₀, hinsert, h10⟩ := Yields.bind h9
  have hfilled := importPrices_filled (clearPrices_filled hcleared) hinsert
  -- the second count and the commit leave the data as the inserts left them
  obtain ⟨count, s₁₁, hsecond, h11⟩ := Yields.bind h10
  obtain ⟨_, hsame⟩ := Yields.statement hsecond
  obtain ⟨-, rfl⟩ := Prod.mk.inj (Except.ok.inj hsame)
  obtain ⟨_, s₁₂, hpost, h12⟩ := Yields.bind h11
  obtain ⟨-, rfl⟩ := Yields.compute hpost
  obtain ⟨_, s₁₃, hcommit, h13⟩ := Yields.bind h12
  obtain rfl := Yields.commit hcommit
  obtain ⟨-, rfl⟩ := Yields.pure h13
  obtain ⟨hnodup, hselected, -⟩ := prepare_spec hprepared
  obtain ⟨hpos, hmin⟩ := validateCandidatePriceCount_ok hcount
  have hlength : t.fuelPrices.rows.length = selected.length := by
    simpa using congrArg List.length hfilled.rows
  have hmap' : Mapped env _ ids t := ⟨hmap.keys, by rw [hfilled.stations]; exact hmap.station⟩
  refine ⟨ids, selected, ⟨lines, hlines, hmap'⟩, ⟨df, d, hdf, hprepared⟩, hfilled.rows,
    hfilled.once hmap' hnodup, ?_, ?_⟩
  · rwa [hlength, ← hselected]
  · rwa [hlength, ← hselected]

/-- **An import is all or nothing.** For every pair of files and every store,
whichever steps raise: if the import raises, `stations` and `fuel_prices` are
committed as they were; if it completes, no step has raised and `fuel_prices`
holds the chosen rows, each station, fuel and service mode once, in number
positive and at least the required minimum. -/
theorem import_all_or_nothing (env : Environment) (files : Files) (db : Store) :
    match importLocalMimitFiles env files (.opened db) with
    | .ok _ t => (∃ ids selected, Imported env files ids selected t.committed) ∧ ∀ n < t.steps, env.faults n = none
    | .error _ t => t.committed = db := by
  have h := all_or_nothing (importBody_atomic env files) Raised.isException db
  have himport : importLocalMimitFiles env files (.opened db) =
      closing (rollingBack env.faults Raised.isException (importBody env files)) (.opened db) := rfl
  rw [himport]
  cases hrun : closing (rollingBack env.faults Raised.isException (importBody env files)) (.opened db) with
  | error e t =>
    rw [hrun] at h
    exact h
  | ok result t =>
    rw [hrun] at h
    exact ⟨importBody_spec h.1, h.2⟩

/-! ### One run that completes and one that raises after the DELETE -/

namespace Sample

def environment (faults : ℕ → Option Raised) : Environment where
  python := python
  minFinalPriceRows := 1
  faults := faults
  nextStationId n := n
  nextPriceId n := n
  now := 0
  sessionTime t := t

def cell (s : String) : Cell where
  str := s
  int := (Text.int? s).elim (.error .valueError) .ok
  float := if s = "1.8" then .ok (.finite (9 / 5)) else .error .valueError

def files : Files where
  anagrafica := .ok [["Estrazione"], ["idImpianto"],
    ["7", "Operator", "Brand", "Stradale", "Name", "Via Roma", "1", "Roma", "RM", "41.9", "12.5"]]
  prezzi := .ok [⟨cell "7", cell "Benzina", cell "1.8", cell "1", cell "01/07/2026 08:00:00"⟩]

def station : Station := ⟨1, 9001, none, none, none, "Old address", "Roma", "RM", .nan, .nan, true, .valid, none, 0, 0⟩

def price : FuelPrice := ⟨1, 1, "diesel", .finite 2, true, 0, "mimit", 0⟩

def db : Store where
  stations := ⟨[station], by decide⟩
  fuelPrices := ⟨[price], by decide⟩
  references p hp := ⟨station, List.mem_singleton.mpr rfl, by rw [List.mem_singleton.mp hp]; rfl⟩

/-- Whether the import completes, and the stations of the prices committed. -/
def outcome (faults : ℕ → Option Raised) : Bool × List ℤ :=
  match importLocalMimitFiles (environment faults) files (.opened db) with
  | .ok _ t => (true, t.committed.fuelPrices.rows.map (·.stationId))
  | .error _ t => (false, t.committed.fuelPrices.rows.map (·.stationId))

example : outcome (fun _ => none) = (true, [3]) := by decide +kernel
example : outcome (fun n => if n = 8 then some .keyError else none) = (false, [1]) := by decide +kernel

end Sample

end Mimit
end FuelNear
