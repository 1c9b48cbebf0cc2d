/-
# The price rows of a MIMIT import

The parsed rows of the price CSV, what `prepare_prices_for_import` makes of
them, and the choice of one row for each station, fuel and service mode.

pandas and Python's text and number parsing stand in `Python`: a cell is
known by what `str`, `int` and `float` make of it, and a price is a finite
float, so a rational. A datetime is in seconds; `none` is pandas' NaT, which
no comparison holds of but `!=`.

Key definitions: `NormalizedMimitPrice`, `candidateWins`, `selectDeterministicPriceRows`,
`preparePricesForImport`.
Key theorems: `select_keys_nodup`, `prepare_spec`.
-/
import FuelNear.Dict
import FuelNear.Runs
import FuelNear.Sql
import FuelNear.Text
import Mathlib.Data.Rat.Defs
import Mathlib.Tactic

namespace FuelNear
namespace Mimit

/-- What an import raises. -/
inductive Raised where
  | runtimeError (message : String)
  | candidateDatasetRejected (message : String)
  | databaseWriteValidationError (message : String)
  | valueError
  | typeError
  | keyError
  | database (violation : Sql.Violation)
  | other (name : String) (isException : Bool)
  deriving DecidableEq

/-- `except Exception` is for all but the few that derive from BaseException. -/
def Raised.isException : Raised → Bool
  | .other _ isException => isException
  | _ => true

/-- A float. -/
inductive Number where
  | finite (q : ℚ)
  | infinite (negative : Bool)
  | nan
  deriving DecidableEq

/-- A naive datetime; `none` is NaT. -/
abbrev Datetime := Option ℤ

namespace Datetime

/-- `a < b`. -/
def lt : Datetime → Datetime → Bool
  | some a, some b => a < b
  | _, _ => false

/-- `a != b`. -/
def ne : Datetime → Datetime → Bool
  | some a, some b => a ≠ b
  | _, _ => true

end Datetime

/-- The text, number and float functions that the import uses. -/
structure Python where
  /-- `s.casefold()` -/
  casefold : String → String
  /-- `float(s)` -/
  float : String → Except Raised Number
  /-- `pd.to_numeric(s, errors="coerce")`; `none` is the missing value. -/
  toNumeric : String → Option Number
  /-- `pd.to_datetime(s, format="%d/%m/%Y %H:%M:%S")` -/
  toDatetime : String → Except Raised Datetime
  /-- the mean of two floats, as pandas' median takes it -/
  midpoint : ℚ → ℚ → ℚ
  /-- `geodata_distance_km`, in floating point -/
  geodataDistanceKm : ℚ → ℚ → ℚ → ℚ → ℚ

/-- A cell of a data frame. -/
structure Cell where
  str : String
  int : Except Raised ℤ
  float : Except Raised Number

/-- A row of the price CSV. -/
structure PriceRow where
  idImpianto : Cell
  descCarburante : Cell
  prezzo : Cell
  isSelf : Cell
  dtComu : Cell

/-! ### Fuel names -/

inductive FuelType where
  | benzina
  | benzinaPremium
  | diesel
  | dieselPremium
  | hvo
  | gpl
  | metano
  deriving DecidableEq

def FuelType.name : FuelType → String
  | .benzina => "benzina"
  | .benzinaPremium => "benzina_premium"
  | .diesel => "diesel"
  | .dieselPremium => "diesel_premium"
  | .hvo => "hvo"
  | .gpl => "gpl"
  | .metano => "metano"

theorem FuelType.name_injective : Function.Injective FuelType.name := by
  intro f g h
  cases f <;> cases g <;> first | rfl | exact absurd h (by decide)

/-- The commercial names of a fuel, the canonical one first. -/
def mimitFuelNames : FuelType → List String
  | .benzina => ["benzina", "super", "super senza piombo"]
  | .benzinaPremium =>
    ["blue super", "benzina speciale", "benzina speciale 98 ottani", "benzina wr 100", "benzina shell v power",
      "benzina energy 98 ottani", "benzina plus 98", "v-power", "verde speciale", "f101", "f-101",
      "hiq perform b100 ottani", "benzina 100 ottani", "benzina 102 ottani"]
  | .diesel => ["gasolio", "diesel", "gasolio alpino", "gasolio gelo", "gasolio artico"]
  | .dieselPremium =>
    ["blue diesel", "supreme diesel", "hi-q diesel", "hiq perform+", "gasolio speciale", "gasolio premium",
      "diesel shell v power", "v-power diesel", "excellium diesel", "gasolio oro diesel", "gasolio prestazionale",
      "gasolio plus", "blu diesel alpino", "s-diesel", "dieselmax", "e-diesel", "gp diesel", "gasolio energy d"]
  | .hvo => []
  | .gpl => ["gpl", "lpg"]
  | .metano => ["metano", "gnc", "cng", "l-gnc", "lng", "gnl"]

/-- The fuels of the table of names, in its order. -/
def mimitFuelTypes : List FuelType := [.benzina, .benzinaPremium, .diesel, .dieselPremium, .gpl, .metano]

/-- No name stands for two fuels, or twice for one. -/
example : (mimitFuelTypes.flatMap mimitFuelNames).Nodup := by decide +kernel

def normalizeMimitFuelName (py : Python) (rawFuel : String) : String :=
  " ".intercalate (Text.words (py.casefold (Text.strip rawFuel)))

def normalizeFuelType (py : Python) (rawFuel : String) : Option FuelType :=
  let value := normalizeMimitFuelName py rawFuel
  match mimitFuelTypes.find? fun f => value ∈ mimitFuelNames f with
  | some mapped => some mapped
  | none => if Text.hasSubstring "hvo" value then some .hvo else none

def getCanonicalFuelPriority (py : Python) (rawFuel : String) (fuelType : FuelType) : ℕ :=
  let normalizedName := normalizeMimitFuelName py rawFuel
  if fuelType = .hvo then if normalizedName = "hvo" then 0 else 100
  else ((mimitFuelNames fuelType).idxOf? normalizedName).getD 100

/-! ### One row for each station, fuel and service mode -/

structure NormalizedMimitPrice where
  mimitId : ℤ
  rawFuel : String
  fuelType : FuelType
  price : ℚ
  isSelfService : Bool
  reportedAt : Datetime
  deriving DecidableEq

def NormalizedMimitPrice.key (r : NormalizedMimitPrice) : ℤ × FuelType × Bool :=
  (r.mimitId, r.fuelType, r.isSelfService)

def candidateWins (py : Python) (candidate current : NormalizedMimitPrice) : Bool :=
  if candidate.reportedAt.ne current.reportedAt then current.reportedAt.lt candidate.reportedAt
  else
    let candidatePriority := getCanonicalFuelPriority py candidate.rawFuel candidate.fuelType
    let currentPriority := getCanonicalFuelPriority py current.rawFuel current.fuelType
    if candidatePriority ≠ currentPriority then candidatePriority < currentPriority
    else
      -- the tuples (normalized name, price, raw name), in their order
      let candidateName := normalizeMimitFuelName py candidate.rawFuel
      let currentName := normalizeMimitFuelName py current.rawFuel
      if candidateName ≠ currentName then candidateName < currentName
      else if candidate.price ≠ current.price then candidate.price < current.price
      else candidate.rawFuel < current.rawFuel

/-- The `<` of the sort key, a tuple. -/
def sortsBefore (py : Python) (a b : NormalizedMimitPrice) : Bool :=
  if a.mimitId ≠ b.mimitId then a.mimitId < b.mimitId
  else if a.fuelType ≠ b.fuelType then a.fuelType.name < b.fuelType.name
  else if a.isSelfService ≠ b.isSelfService then b.isSelfService
  else if a.reportedAt ≠ b.reportedAt then a.reportedAt.lt b.reportedAt
  else
    let aName := normalizeMimitFuelName py a.rawFuel
    let bName := normalizeMimitFuelName py b.rawFuel
    if aName ≠ bName then aName < bName else a.price < b.price

/-- A turn of the loop over the rows. -/
def selectRow (py : Python) (selected : Dict (ℤ × FuelType × Bool) NormalizedMimitPrice)
    (row : NormalizedMimitPrice) : Dict (ℤ × FuelType × Bool) NormalizedMimitPrice :=
  match selected.get? row.key with
  | none => selected.set row.key row
  | some current => if candidateWins py row current then selected.set row.key row else selected

def selectDeterministicPriceRows (py : Python) (rows : List NormalizedMimitPrice) : List NormalizedMimitPrice :=
  (rows.foldl (selectRow py) Dict.empty).values.mergeSort fun a b => !sortsBefore py b a

theorem selectRow_keyed {py : Python} {d : Dict (ℤ × FuelType × Bool) NormalizedMimitPrice}
    (h : ∀ e ∈ d.entries, e.2.key = e.1) (row : NormalizedMimitPrice) :
    ∀ e ∈ (selectRow py d row).entries, e.2.key = e.1 := by
  have hset : ∀ e ∈ (d.set row.key row).entries, e.2.key = e.1 := by
    intro e he
    rcases Dict.mem_set.mp he with rfl | ⟨he, -⟩
    · rfl
    · exact h e he
  unfold selectRow
  split
  · exact hset
  · split
    · exact hset
    · exact h

/-- The dict of the chosen rows keeps each row under its own key. -/
theorem selected_keyed (py : Python) : ∀ (rows : List NormalizedMimitPrice)
    {d : Dict (ℤ × FuelType × Bool) NormalizedMimitPrice}, (∀ e ∈ d.entries, e.2.key = e.1) →
    ∀ e ∈ (rows.foldl (selectRow py) d).entries, e.2.key = e.1
  | [], _, h => h
  | row :: rows, _, h => selected_keyed py rows (selectRow_keyed h row)

/-- No station, fuel and service mode is chosen twice. -/
theorem select_keys_nodup (py : Python) (rows : List NormalizedMimitPrice) :
    ((selectDeterministicPriceRows py rows).map (·.key)).Nodup := by
  unfold selectDeterministicPriceRows
  set d := rows.foldl (selectRow py) Dict.empty
  have hkeyed : d.values.map (·.key) = d.keys := Dict.map_values (selected_keyed py rows (by simp))
  have hperm := (List.mergeSort_perm d.values fun a b => !sortsBefore py b a).map (·.key)
  rw [hperm.nodup_iff, hkeyed]
  exact d.keys_nodup

/-! ### The preparation of the rows -/

structure PriceSelectionDiagnostics where
  inputRows : ℕ := 0
  candidateRows : ℕ := 0
  selectedRows : ℕ := 0
  duplicateRowsRemoved : ℕ := 0
  collisionGroups : ℕ := 0
  skippedMissingStation : ℕ := 0
  skippedInvalidPrice : ℕ := 0
  unknownFuelRows : ℕ := 0
  unknownFuelNames : Counter String := Dict.empty
  unknownFuelStationIds : Dict String (Finset ℤ) := Dict.empty
  finalFuelTypeCounts : Counter FuelType := Dict.empty
  oldestReportedAt : Option Datetime := none
  newestReportedAt : Option Datetime := none
  finalDuplicateKeys : ℕ := 0

/-- The locals of `prepare_prices_for_import`. -/
structure Preparation where
  diagnostics : PriceSelectionDiagnostics
  candidates : List NormalizedMimitPrice := []
  groupCounts : Counter (ℤ × FuelType × Bool) := Dict.empty

/-- A row of a fuel that is not known. -/
def PriceSelectionDiagnostics.addUnknownFuel (py : Python) (d : PriceSelectionDiagnostics) (mimitId : ℤ)
    (rawFuel : String) : PriceSelectionDiagnostics :=
  let name := if rawFuel = "" then "<empty>" else rawFuel
  let normalizedUnknown := normalizeMimitFuelName py name
  { d with
    unknownFuelRows := d.unknownFuelRows + 1
    unknownFuelNames := Counter.increment d.unknownFuelNames name
    unknownFuelStationIds := d.unknownFuelStationIds.set normalizedUnknown
      (insert mimitId ((d.unknownFuelStationIds.get? normalizedUnknown).getD ∅)) }

def Preparation.skipInvalidPrice (p : Preparation) : Preparation :=
  { p with diagnostics := { p.diagnostics with skippedInvalidPrice := p.diagnostics.skippedInvalidPrice + 1 } }

def Preparation.addCandidate (p : Preparation) (r : NormalizedMimitPrice) : Preparation :=
  { p with candidates := p.candidates ++ [r], groupCounts := Counter.increment p.groupCounts r.key }

/-- A turn of the loop of `prepare_prices_for_import`. -/
def prepareRow (py : Python) (stationIdMap : Dict ℤ ℤ) (p : Preparation) (row : PriceRow) :
    Except Raised Preparation := do
  let mimitId ← row.idImpianto.int
  if !stationIdMap.contains mimitId then
    return { p with diagnostics :=
      { p.diagnostics with skippedMissingStation := p.diagnostics.skippedMissingStation + 1 } }
  let rawFuel := Text.strip row.descCarburante.str
  match normalizeFuelType py rawFuel with
  | none => return { p with diagnostics := p.diagnostics.addUnknownFuel py mimitId rawFuel }
  | some fuelType =>
    match row.prezzo.float with
    | .error .valueError | .error .typeError => return p.skipInvalidPrice
    | .error e => throw e
    | .ok (.finite price) =>
      if price ≤ 0 then
        return p.skipInvalidPrice
      let isSelfService := Text.strip row.isSelf.str = "1"
      let reportedAt ← py.toDatetime (Text.strip row.dtComu.str)
      return p.addCandidate { mimitId, rawFuel, fuelType, price, isSelfService, reportedAt }
    | .ok _ => return p.skipInvalidPrice

/-- `min(l)`, by what `<` says; of equals, the first. -/
def earliest : List Datetime → Option Datetime
  | [] => none
  | a :: l => some (l.foldl (fun m x => if x.lt m then x else m) a)

/-- `max(l)`. -/
def latest : List Datetime → Option Datetime
  | [] => none
  | a :: l => some (l.foldl (fun m x => if m.lt x then x else m) a)

def preparePricesForImport (py : Python) (dfPrices : List PriceRow) (stationIdMap : Dict ℤ ℤ) :
    Except Raised (List NormalizedMimitPrice × PriceSelectionDiagnostics) := do
  let p ← dfPrices.foldlM (prepareRow py stationIdMap) { diagnostics := { inputRows := dfPrices.length } }
  let selected := selectDeterministicPriceRows py p.candidates
  let diagnostics := { p.diagnostics with
    candidateRows := p.candidates.length
    selectedRows := selected.length
    duplicateRowsRemoved := p.candidates.length - selected.length
    collisionGroups := Counter.repeated p.groupCounts
    finalFuelTypeCounts := Counter.of (selected.map (·.fuelType))
    oldestReportedAt := earliest (selected.map (·.reportedAt))
    newestReportedAt := latest (selected.map (·.reportedAt))
    finalDuplicateKeys := Counter.repeated (Counter.of (selected.map (·.key))) }
  return (selected, diagnostics)

/-- What comes out of the preparation is the choice among some candidates,
counted. -/
theorem prepare_spec {py : Python} {df : List PriceRow} {ids : Dict ℤ ℤ} {selected : List NormalizedMimitPrice}
    {d : PriceSelectionDiagnostics} (h : preparePricesForImport py df ids = .ok (selected, d)) :
    (selected.map (·.key)).Nodup ∧ d.selectedRows = selected.length ∧ d.finalDuplicateKeys = 0 := by
  obtain ⟨p, -, hp⟩ := bind_eq_ok.mp h
  obtain ⟨rfl, rfl⟩ := Prod.mk.inj (Except.ok.inj hp)
  have hnodup := select_keys_nodup py p.candidates
  exact ⟨hnodup, rfl, Counter.repeated_of_nodup hnodup⟩

/-- Python on the few texts of the samples. -/
def Sample.python : Python where
  casefold := Text.casefold
  float s := if s = "41.9" then .ok (.finite (419 / 10)) else if s = "12.5" then .ok (.finite (25 / 2)) else .error .valueError
  toNumeric s := if s = "41.9" then some (.finite (419 / 10)) else if s = "12.5" then some (.finite (25 / 2)) else none
  toDatetime s := if s = "01/07/2026 08:00:00" then .ok (some 1782892800) else .error .valueError
  midpoint a b := (a + b) / 2
  geodataDistanceKm _ _ _ _ := 0

end Mimit
end FuelNear
