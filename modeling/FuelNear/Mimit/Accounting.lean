/-
# The accounts of a price import balance

Each row of the price CSV counts as one thing: its station is not imported,
its fuel is unknown, its price is not valid, or it is a candidate. What it
counts as does not depend on the rows before it (`prepareRow_ok_iff`), so the
counters add up to the rows, and another order of the rows changes only the
order in which names and candidates are met. The details of the unknown fuels
are sorted, and each of them is made of its rows in a way that forgets their
order.

Key definitions: `getUnknownFuelDetails`, `Outcome`, `CountsAs`, `Tallied`, `Balanced`.
Key theorems: `prepareRow_ok_iff`, `prepareRows_ok_iff`, `tallied_foldl`, `details_sum`, `details_perm`,
`import_accounts_balance`.
-/
import FuelNear.Mimit.Import
import FuelNear.Mimit.Selection

namespace FuelNear
namespace Mimit

/-! ### The details of the unknown fuels -/

def knownUnknownMimitFuelNames : List String := ["gasolio ecoplus", "gasolio artico igloo"]

/-- An entry of `grouped`. -/
@[ext]
structure UnknownFuelGroup where
  rawName : String
  normalizedName : String
  count : ℕ
  exampleStationIds : Finset ℤ
  known : Bool

structure UnknownFuelDetail where
  rawName : String
  normalizedName : String
  count : ℕ
  exampleStationIds : List ℤ
  known : Bool
  deriving DecidableEq

/-- `(a.casefold(), a) < (b.casefold(), b)`. -/
def rawNameBefore (py : Python) (a b : String) : Bool :=
  if py.casefold a ≠ py.casefold b then py.casefold a < py.casefold b else a < b

/-- What `setdefault` puts under a name that is not there. -/
def UnknownFuelGroup.start (py : Python) (rawName : String) : UnknownFuelGroup where
  rawName := rawName
  normalizedName := normalizeMimitFuelName py rawName
  count := 0
  exampleStationIds := ∅
  known := normalizeMimitFuelName py rawName ∈ knownUnknownMimitFuelNames

/-- A turn of the loop over the names, on the group of the name. -/
def addUnknownName (py : Python) (stationIds : Dict String (Finset ℤ)) (group : Option UnknownFuelGroup)
    (item : String × ℕ) : UnknownFuelGroup :=
  let current := group.getD (.start py item.1)
  { current with
    rawName := if rawNameBefore py item.1 current.rawName then item.1 else current.rawName
    count := current.count + item.2
    exampleStationIds := current.exampleStationIds ∪
      (stationIds.get? (normalizeMimitFuelName py item.1)).getD ∅ }

def groupUnknownFuels (py : Python) (diagnostics : PriceSelectionDiagnostics) : Dict String UnknownFuelGroup :=
  diagnostics.unknownFuelNames.entries.foldl
    (Dict.alter (fun item => normalizeMimitFuelName py item.1) (addUnknownName py diagnostics.unknownFuelStationIds))
    Dict.empty

def UnknownFuelGroup.detail (normalizedName : String) (item : UnknownFuelGroup) : UnknownFuelDetail where
  rawName := item.rawName
  normalizedName := normalizedName
  count := item.count
  exampleStationIds := (item.exampleStationIds.sort (· ≤ ·)).take 5
  known := item.known

def getUnknownFuelDetails (py : Python) (diagnostics : PriceSelectionDiagnostics) : List UnknownFuelDetail :=
  let grouped := groupUnknownFuels py diagnostics
  (grouped.keys.mergeSort (· ≤ ·)).filterMap fun name => (grouped.get? name).map (·.detail name)

variable {py : Python} {ids : Dict ℤ ℤ} {row : PriceRow} {rows rows' : List PriceRow} {p p' : Preparation}
  {d d' : PriceSelectionDiagnostics}

/-! ### What a row counts as -/

inductive Outcome where
  | missingStation
  | unknownFuel (mimitId : ℤ) (rawFuel : String)
  | invalidPrice
  | candidate (r : NormalizedMimitPrice)

/-- What `float` makes of a price that is skipped. -/
inductive InvalidPrice : Except Raised Number → Prop where
  | valueError : InvalidPrice (.error .valueError)
  | typeError : InvalidPrice (.error .typeError)
  | nonpositive {q : ℚ} (h : q ≤ 0) : InvalidPrice (.ok (.finite q))
  | infinite (negative : Bool) : InvalidPrice (.ok (.infinite negative))
  | nan : InvalidPrice (.ok .nan)

/-- A row and what it counts as. -/
inductive CountsAs (py : Python) (ids : Dict ℤ ℤ) (row : PriceRow) : Outcome → Prop where
  | missingStation {mimitId : ℤ} (parsed : row.idImpianto.int = .ok mimitId) (missing : ids.contains mimitId = false) :
      CountsAs py ids row .missingStation
  | unknownFuel {mimitId : ℤ} (parsed : row.idImpianto.int = .ok mimitId) (there : ids.contains mimitId = true)
      (unknown : normalizeFuelType py (Text.strip row.descCarburante.str) = none) :
      CountsAs py ids row (.unknownFuel mimitId (Text.strip row.descCarburante.str))
  | invalidPrice {mimitId : ℤ} {fuelType : FuelType} (parsed : row.idImpianto.int = .ok mimitId)
      (there : ids.contains mimitId = true)
      (fuel : normalizeFuelType py (Text.strip row.descCarburante.str) = some fuelType)
      (invalid : InvalidPrice row.prezzo.float) : CountsAs py ids row .invalidPrice
  | candidate {mimitId : ℤ} {fuelType : FuelType} {price : ℚ} {reportedAt : Datetime}
      (parsed : row.idImpianto.int = .ok mimitId) (there : ids.contains mimitId = true)
      (fuel : normalizeFuelType py (Text.strip row.descCarburante.str) = some fuelType)
      (finite : row.prezzo.float = .ok (.finite price)) (positive : 0 < price)
      (reported : py.toDatetime (Text.strip row.dtComu.str) = .ok reportedAt) :
      CountsAs py ids row (.candidate ⟨mimitId, Text.strip row.descCarburante.str, fuelType, price,
        Text.strip row.isSelf.str = "1", reportedAt⟩)

/-- The locals after one more row. -/
def Preparation.count (py : Python) (p : Preparation) : Outcome → Preparation
  | .missingStation =>
    { p with diagnostics := { p.diagnostics with skippedMissingStation := p.diagnostics.skippedMissingStation + 1 } }
  | .unknownFuel mimitId rawFuel => { p with diagnostics := p.diagnostics.addUnknownFuel py mimitId rawFuel }
  | .invalidPrice => p.skipInvalidPrice
  | .candidate r => p.addCandidate r

/-- A turn of the loop counts the row as what it is, whatever came before. -/
theorem prepareRow_ok_iff : prepareRow py ids p row = .ok p' ↔ ∃ o, CountsAs py ids row o ∧ p' = p.count py o := by
  constructor
  · intro h
    unfold prepareRow at h
    obtain ⟨mimitId, hparsed, h⟩ := bind_eq_ok.mp h
    cases hthere : ids.contains mimitId with
    | false =>
      rw [hthere] at h
      exact ⟨_, .missingStation hparsed hthere, (Except.ok.inj h).symm⟩
    | true =>
      rw [hthere, if_neg (by simp)] at h
      dsimp only at h
      cases hfuel : normalizeFuelType py (Text.strip row.descCarburante.str) with
      | none =>
        rw [hfuel] at h
        exact ⟨_, .unknownFuel hparsed hthere hfuel, (Except.ok.inj h).symm⟩
      | some fuelType =>
        rw [hfuel] at h
        have hskip : InvalidPrice row.prezzo.float → p' = p.skipInvalidPrice →
            ∃ o, CountsAs py ids row o ∧ p' = p.count py o :=
          fun hinvalid hp => ⟨_, .invalidPrice hparsed hthere hfuel hinvalid, hp⟩
        cases hprice : row.prezzo.float with
        | error e =>
          rw [hprice] at h hskip
          cases e with
          | valueError => exact hskip .valueError (Except.ok.inj h).symm
          | typeError => exact hskip .typeError (Except.ok.inj h).symm
          | _ => exact absurd h (by simp [throw, throwThe, MonadExceptOf.throw])
        | ok x =>
          rw [hprice] at h hskip
          cases x with
          | infinite negative => exact hskip (.infinite negative) (Except.ok.inj h).symm
          | nan => exact hskip .nan (Except.ok.inj h).symm
          | finite price =>
            dsimp only at h
            split_ifs at h with hle
            · exact hskip (.nonpositive hle) (Except.ok.inj h).symm
            · obtain ⟨reportedAt, hreported, h⟩ := bind_eq_ok.mp h
              exact ⟨_, .candidate hparsed hthere hfuel hprice (not_le.mp hle) hreported, (Except.ok.inj h).symm⟩
  · rintro ⟨o, ho, rfl⟩
    unfold prepareRow
    cases ho with
    | missingStation hparsed hmissing =>
      rw [hparsed]
      simp [bind, Except.bind, hmissing, Preparation.count, pure, Except.pure]
    | unknownFuel hparsed hthere hunknown =>
      rw [hparsed]
      simp [bind, Except.bind, hthere, hunknown, Preparation.count, pure, Except.pure]
    | invalidPrice hparsed hthere hfuel hinvalid =>
      rw [hparsed]
      cases hprice : row.prezzo.float <;> rw [hprice] at hinvalid <;> cases hinvalid <;>
        simp_all [bind, Except.bind, Preparation.count, pure, Except.pure]
    | candidate hparsed hthere hfuel hfinite hpositive hreported =>
      rw [hparsed]
      simp [bind, Except.bind, hthere, hfuel, hfinite, not_le.mpr hpositive, hreported, Preparation.count, pure,
        Except.pure]

/-- The whole loop counts each row. -/
theorem prepareRows_ok_iff : ∀ {rows : List PriceRow} {p p' : Preparation},
    rows.foldlM (prepareRow py ids) p = .ok p' ↔
      ∃ os, List.Forall₂ (CountsAs py ids) rows os ∧ p' = os.foldl (Preparation.count py) p
  | [], p, p' => by
    constructor
    · intro h
      exact ⟨[], .nil, (Except.ok.inj h).symm⟩
    · rintro ⟨os, hos, rfl⟩
      cases hos
      rfl
  | row :: rows, p, p' => by
    rw [List.foldlM_cons, bind_eq_ok]
    constructor
    · rintro ⟨q, hq, h⟩
      obtain ⟨o, ho, rfl⟩ := prepareRow_ok_iff.mp hq
      obtain ⟨os, hos, rfl⟩ := prepareRows_ok_iff.mp h
      exact ⟨o :: os, .cons ho hos, rfl⟩
    · rintro ⟨os, hos, rfl⟩
      cases hos with
      | cons ho hos => exact ⟨_, prepareRow_ok_iff.mpr ⟨_, ho, rfl⟩, prepareRows_ok_iff.mpr ⟨_, hos, rfl⟩⟩

/-- What is counted was a row. -/
theorem exists_row_of_counted {o : Outcome} : ∀ {rows : List PriceRow} {os : List Outcome},
    List.Forall₂ (CountsAs py ids) rows os → o ∈ os → ∃ row ∈ rows, CountsAs py ids row o
  | _, _, .cons (a := row) hrow hrows, ho => by
    rcases List.mem_cons.mp ho with rfl | ho
    · exact ⟨row, List.mem_cons_self, hrow⟩
    · obtain ⟨row', hrow', hcounts⟩ := exists_row_of_counted hrows ho
      exact ⟨row', List.mem_cons_of_mem _ hrow', hcounts⟩

/-! ### The counters -/

def Outcome.isMissingStation : Outcome → Bool
  | .missingStation => true
  | _ => false

/-- The station and the fuel of a row of an unknown fuel. -/
def Outcome.unknown? : Outcome → Option (ℤ × String)
  | .unknownFuel mimitId rawFuel => some (mimitId, rawFuel)
  | _ => none

def Outcome.isInvalidPrice : Outcome → Bool
  | .invalidPrice => true
  | _ => false

def Outcome.candidate? : Outcome → Option NormalizedMimitPrice
  | .candidate r => some r
  | _ => none

/-- The locals `q` count the outcomes `os` on top of `p`. -/
structure Tallied (os : List Outcome) (p q : Preparation) : Prop where
  missingStation : q.diagnostics.skippedMissingStation =
    p.diagnostics.skippedMissingStation + os.countP (·.isMissingStation)
  unknownFuel : q.diagnostics.unknownFuelRows = p.diagnostics.unknownFuelRows + (os.filterMap Outcome.unknown?).length
  invalidPrice : q.diagnostics.skippedInvalidPrice = p.diagnostics.skippedInvalidPrice + os.countP (·.isInvalidPrice)
  candidates : q.candidates = p.candidates ++ os.filterMap Outcome.candidate?

theorem tallied_foldl : ∀ (os : List Outcome) (p : Preparation), Tallied os p (os.foldl (Preparation.count py) p)
  | [], p => ⟨rfl, rfl, rfl, (List.append_nil _).symm⟩
  | o :: os, p => by
    obtain ⟨hmissing, hunknown, hinvalid, hcandidates⟩ := tallied_foldl os (p.count py o)
    rw [List.foldl_cons]
    constructor
    · rw [hmissing, List.countP_cons]
      cases o <;> simp [Preparation.count, Outcome.isMissingStation, PriceSelectionDiagnostics.addUnknownFuel,
        Preparation.skipInvalidPrice, Preparation.addCandidate]
      omega
    · rw [hunknown, List.filterMap_cons]
      cases o <;> simp [Preparation.count, Outcome.unknown?, PriceSelectionDiagnostics.addUnknownFuel,
        Preparation.skipInvalidPrice, Preparation.addCandidate]
      omega
    · rw [hinvalid, List.countP_cons]
      cases o <;> simp [Preparation.count, Outcome.isInvalidPrice, PriceSelectionDiagnostics.addUnknownFuel,
        Preparation.skipInvalidPrice, Preparation.addCandidate]
      omega
    · rw [hcandidates, List.filterMap_cons]
      cases o <;> simp [Preparation.count, Outcome.candidate?, Preparation.skipInvalidPrice, Preparation.addCandidate]

/-- Each outcome is of one kind. -/
theorem length_outcomes : ∀ os : List Outcome, os.length = os.countP (·.isMissingStation) +
    (os.filterMap Outcome.unknown?).length + os.countP (·.isInvalidPrice) + (os.filterMap Outcome.candidate?).length
  | [] => rfl
  | o :: os => by
    rw [List.length_cons, length_outcomes os]
    cases o <;> simp [List.filterMap_cons, Outcome.isMissingStation, Outcome.unknown?, Outcome.isInvalidPrice,
      Outcome.candidate?] <;> omega

theorem inputRows_foldl : ∀ (os : List Outcome) (p : Preparation),
    (os.foldl (Preparation.count py) p).diagnostics.inputRows = p.diagnostics.inputRows
  | [], _ => rfl
  | o :: os, p => by
    rw [List.foldl_cons, inputRows_foldl os]
    cases o <;> rfl

/-- The names count the rows of unknown fuels. -/
theorem names_count (h : p.diagnostics.unknownFuelNames.values.sum = p.diagnostics.unknownFuelRows) (o : Outcome) :
    (p.count py o).diagnostics.unknownFuelNames.values.sum = (p.count py o).diagnostics.unknownFuelRows := by
  cases o with
  | unknownFuel mimitId rawFuel =>
    have hsum := Counter.sum_foldl [if rawFuel = "" then "<empty>" else rawFuel] p.diagnostics.unknownFuelNames
    rw [h] at hsum
    exact hsum
  | _ => exact h

theorem names_foldl : ∀ (os : List Outcome) {p : Preparation},
    p.diagnostics.unknownFuelNames.values.sum = p.diagnostics.unknownFuelRows →
    (os.foldl (Preparation.count py) p).diagnostics.unknownFuelNames.values.sum =
      (os.foldl (Preparation.count py) p).diagnostics.unknownFuelRows
  | [], _, h => h
  | o :: os, _, h => names_foldl os (names_count h o)

/-! ### The details in another order of the rows -/

/-- The name under which a raw fuel is counted. -/
def unknownName (rawFuel : String) : String := if rawFuel = "" then "<empty>" else rawFuel

/-- The names are counted in one loop over the rows of unknown fuels. -/
theorem unknownFuelNames_foldl : ∀ (os : List Outcome) (p : Preparation),
    (os.foldl (Preparation.count py) p).diagnostics.unknownFuelNames =
      (os.filterMap Outcome.unknown?).foldl (Dict.alter (fun u => unknownName u.2) fun n _ => n.getD 0 + 1)
        p.diagnostics.unknownFuelNames
  | [], _ => rfl
  | o :: os, p => by
    rw [List.foldl_cons, unknownFuelNames_foldl os]
    cases o <;> rfl

/-- So are the stations under the normalized names. -/
theorem unknownFuelStationIds_foldl : ∀ (os : List Outcome) (p : Preparation),
    (os.foldl (Preparation.count py) p).diagnostics.unknownFuelStationIds =
      (os.filterMap Outcome.unknown?).foldl
        (Dict.alter (fun u => normalizeMimitFuelName py (unknownName u.2)) fun s u => insert u.1 (s.getD ∅))
        p.diagnostics.unknownFuelStationIds
  | [], _ => rfl
  | o :: os, p => by
    rw [List.foldl_cons, unknownFuelStationIds_foldl os]
    cases o <;> rfl

/-- The order of the raw names. -/
def nameRank (py : Python) (rawName : String) : String ×ₗ String := toLex (py.casefold rawName, rawName)

theorem rawNameBefore_eq (a b : String) : rawNameBefore py a b = decide (nameRank py a < nameRank py b) := by
  rw [nameRank, nameRank, decide_lex]
  rfl

/-- The loop keeps the first of the raw names. -/
theorem nameRank_addUnknownName (stationIds : Dict String (Finset ℤ)) (o : Option UnknownFuelGroup)
    (item : String × ℕ) : nameRank py (addUnknownName py stationIds o item).rawName =
      min (nameRank py item.1) (nameRank py (o.getD (.start py item.1)).rawName) := by
  show nameRank py (if rawNameBefore py item.1 _ then item.1 else _) = _
  rw [rawNameBefore_eq]
  by_cases h : nameRank py item.1 < nameRank py (o.getD (.start py item.1)).rawName
  · rw [if_pos (by simpa using h), min_eq_left h.le]
  · rw [if_neg (by simpa using h), min_eq_right (not_lt.mp h)]

/-- Two names of one group may come in either order. -/
theorem addUnknownName_comm (stationIds : Dict String (Finset ℤ)) (o : Option UnknownFuelGroup) (b c : String × ℕ)
    (h : normalizeMimitFuelName py b.1 = normalizeMimitFuelName py c.1) :
    addUnknownName py stationIds (some (addUnknownName py stationIds o b)) c =
      addUnknownName py stationIds (some (addUnknownName py stationIds o c)) b := by
  have hrank : nameRank py (addUnknownName py stationIds (some (addUnknownName py stationIds o b)) c).rawName =
      nameRank py (addUnknownName py stationIds (some (addUnknownName py stationIds o c)) b).rawName := by
    simp only [nameRank_addUnknownName, Option.getD_some]
    cases o with
    | none => simp [UnknownFuelGroup.start, min_comm]
    | some g => exact min_left_comm _ _ _
  ext1
  · exact (Prod.mk.inj (toLex.injective hrank)).2
  · cases o with
    | none => exact h
    | some g => rfl
  · cases o with
    | none => simp [addUnknownName, UnknownFuelGroup.start, Nat.add_comm]
    | some g => simp [addUnknownName, Nat.add_right_comm]
  · cases o with
    | none => simp [addUnknownName, UnknownFuelGroup.start, h]
    | some g => simp [addUnknownName, h]
  · cases o with
    | none => simp [addUnknownName, UnknownFuelGroup.start, h]
    | some g => rfl

/-- The details are made of what the two dicts answer. -/
theorem details_congr (hnames : ∀ k, d.unknownFuelNames.get? k = d'.unknownFuelNames.get? k)
    (hids : ∀ k, d.unknownFuelStationIds.get? k = d'.unknownFuelStationIds.get? k) :
    getUnknownFuelDetails py d = getUnknownFuelDetails py d' := by
  have hadd : addUnknownName py d.unknownFuelStationIds = addUnknownName py d'.unknownFuelStationIds := by
    funext o item
    rw [addUnknownName, addUnknownName, hids]
  have hget : ∀ k, (groupUnknownFuels py d).get? k = (groupUnknownFuels py d').get? k := by
    intro k
    rw [groupUnknownFuels, groupUnknownFuels, hadd]
    exact Dict.get?_foldl_alter_perm (Dict.entries_perm hnames) (addUnknownName_comm _) _ k
  have hkeys : (groupUnknownFuels py d).keys.mergeSort (· ≤ ·) = (groupUnknownFuels py d').keys.mergeSort (· ≤ ·) := by
    have hsorted : ∀ l : List String, (l.mergeSort (· ≤ ·)).Pairwise (· ≤ ·) := by
      intro l
      refine (List.pairwise_mergeSort (fun a b c hab hbc => ?_) (fun a b => ?_) l).imp fun h => of_decide_eq_true h
      · simpa using (of_decide_eq_true hab).trans (of_decide_eq_true hbc)
      · simpa using le_total a b
    have hperm : (groupUnknownFuels py d).keys.Perm (groupUnknownFuels py d').keys := (Dict.entries_perm hget).map Prod.fst
    have hsort := ((List.mergeSort_perm _ (· ≤ ·)).trans hperm).trans (List.mergeSort_perm _ (· ≤ ·)).symm
    exact hsort.eq_of_pairwise (fun a b _ _ => le_antisymm) (hsorted _) (hsorted _)
  unfold getUnknownFuelDetails
  dsimp only
  rw [hkeys]
  exact List.filterMap_congr fun k _ => by rw [hget]

/-- The details do not depend on the order of the rows. -/
theorem details_perm {os os' : List Outcome} (h : os.Perm os') (p : Preparation) :
    getUnknownFuelDetails py (os.foldl (Preparation.count py) p).diagnostics =
      getUnknownFuelDetails py (os'.foldl (Preparation.count py) p).diagnostics := by
  have hunknown := h.filterMap Outcome.unknown?
  apply details_congr
  · intro k
    rw [unknownFuelNames_foldl, unknownFuelNames_foldl]
    exact Dict.get?_foldl_alter_perm hunknown (fun _ _ _ _ => rfl) _ k
  · intro k
    rw [unknownFuelStationIds_foldl, unknownFuelStationIds_foldl]
    exact Dict.get?_foldl_alter_perm hunknown (fun _ _ _ _ => Finset.insert_comm _ _ _) _ k

/-! ### The sum of the details -/

/-- The groups count what the names count. -/
theorem groups_sum (py : Python) (stationIds : Dict String (Finset ℤ)) : ∀ (l : List (String × ℕ)) (g : Dict String UnknownFuelGroup),
    ((l.foldl (Dict.alter (fun item => normalizeMimitFuelName py item.1) (addUnknownName py stationIds)) g).values.map
      (·.count)).sum = (g.values.map (·.count)).sum + (l.map Prod.snd).sum
  | [], _ => rfl
  | item :: l, g => by
    rw [List.foldl_cons, groups_sum py stationIds l, List.map_cons, List.sum_cons, Dict.alter]
    have hset := g.sum_set (normalizeMimitFuelName py item.1)
      (addUnknownName py stationIds (g.get? (normalizeMimitFuelName py item.1)) item) (·.count)
    have hcount : (addUnknownName py stationIds (g.get? (normalizeMimitFuelName py item.1)) item).count =
        ((g.get? (normalizeMimitFuelName py item.1)).map (·.count)).getD 0 + item.2 := by
      cases g.get? (normalizeMimitFuelName py item.1) <;> rfl
    omega

/-- The details count what the names count. -/
theorem details_sum (py : Python) (d : PriceSelectionDiagnostics) :
    ((getUnknownFuelDetails py d).map (·.count)).sum = d.unknownFuelNames.values.sum := by
  have hsum := groups_sum py d.unknownFuelStationIds d.unknownFuelNames.entries Dict.empty
  have hperm := ((List.mergeSort_perm (groupUnknownFuels py d).keys (· ≤ ·)).filterMap fun name =>
    ((groupUnknownFuels py d).get? name).map (·.detail name)).map (·.count)
  unfold getUnknownFuelDetails
  dsimp only
  rw [hperm.sum_eq, Dict.filterMap_keys, List.map_map]
  rw [Dict.values, List.map_map] at hsum
  exact hsum.trans (Nat.zero_add _)

/-! ### The balance -/

/-- What the accounts of an import say. -/
structure Balanced (py : Python) (ids : Dict ℤ ℤ) (rows : List PriceRow) (selected : List NormalizedMimitPrice)
    (d : PriceSelectionDiagnostics) : Prop where
  inputRows : d.inputRows = rows.length
  /-- Each row is counted as what it is, and the choice is among the candidates. -/
  outcomes : ∃ os, List.Forall₂ (CountsAs py ids) rows os ∧
    d.skippedMissingStation = os.countP (·.isMissingStation) ∧
    d.unknownFuelRows = (os.filterMap Outcome.unknown?).length ∧
    d.skippedInvalidPrice = os.countP (·.isInvalidPrice) ∧
    d.candidateRows = (os.filterMap Outcome.candidate?).length ∧
    selected = selectDeterministicPriceRows py (os.filterMap Outcome.candidate?)
  counted : d.inputRows = d.skippedMissingStation + d.unknownFuelRows + d.skippedInvalidPrice + d.candidateRows
  chosen : d.candidateRows = d.selectedRows + d.duplicateRowsRemoved
  selectedRows : d.selectedRows = selected.length
  fuelCounts : d.finalFuelTypeCounts.values.sum = selected.length
  keys : (selected.map (·.key)).Nodup
  /-- Each selected row comes from a row with its station and a finite, positive price. -/
  source : ∀ r ∈ selected, ids.contains r.mimitId = true ∧ 0 < r.price ∧
    ∃ row ∈ rows, row.idImpianto.int = .ok r.mimitId ∧ row.prezzo.float = .ok (.finite r.price)
  details : ((getUnknownFuelDetails py d).map (·.count)).sum = d.unknownFuelRows

/-- The chosen rows are among the candidates. -/
theorem select_subset (py : Python) (cs : List NormalizedMimitPrice) : ∀ r ∈ selectDeterministicPriceRows py cs, r ∈ cs := by
  intro r hr
  rw [mem_select, winner_eq] at hr
  rcases Dict.foldl_keep_mem hr with h | h
  · exact absurd h (by simp)
  · exact (List.mem_filter.mp h).1

theorem select_length_le (py : Python) (cs : List NormalizedMimitPrice) :
    (selectDeterministicPriceRows py cs).length ≤ cs.length :=
  (List.subperm_of_subset (select_keys_nodup py cs).of_map (select_subset py cs)).length_le

/-- The accounts balance. -/
theorem prepare_balanced {selected : List NormalizedMimitPrice}
    (h : preparePricesForImport py rows ids = .ok (selected, d)) : Balanced py ids rows selected d := by
  obtain ⟨p, hp, h⟩ := bind_eq_ok.mp h
  obtain ⟨rfl, rfl⟩ := Prod.mk.inj (Except.ok.inj h)
  obtain ⟨os, hos, rfl⟩ := prepareRows_ok_iff.mp hp
  set start : Preparation := { diagnostics := { inputRows := rows.length } } with hstart
  have hinput : (os.foldl (Preparation.count py) start).diagnostics.inputRows = rows.length := inputRows_foldl os start
  obtain ⟨hmissing, hunknown, hinvalid, hcandidates⟩ := @tallied_foldl py os start
  have hcandidates : (os.foldl (Preparation.count py) start).candidates = os.filterMap Outcome.candidate? := hcandidates
  have hlength : (selectDeterministicPriceRows py (os.foldl (Preparation.count py) start).candidates).length ≤ _ :=
    select_length_le py _
  constructor
  case inputRows => exact hinput
  case outcomes =>
    exact ⟨os, hos, hmissing.trans (Nat.zero_add _), hunknown.trans (Nat.zero_add _), hinvalid.trans (Nat.zero_add _),
      congrArg List.length hcandidates, congrArg (selectDeterministicPriceRows py) hcandidates⟩
  case counted =>
    have hkinds := length_outcomes os
    have hrows := hos.length_eq
    have hlist := congrArg List.length hcandidates
    have hzero : start.diagnostics.skippedMissingStation = 0 ∧ start.diagnostics.unknownFuelRows = 0 ∧
      start.diagnostics.skippedInvalidPrice = 0 := ⟨rfl, rfl, rfl⟩
    dsimp only
    omega
  case chosen => exact (Nat.add_sub_cancel' hlength).symm
  case selectedRows => rfl
  case fuelCounts => exact (Counter.sum_of _).trans (List.length_map _)
  case keys => exact select_keys_nodup py _
  case source =>
    intro r hr
    have hchosen := select_subset py _ r hr
    rw [hcandidates] at hchosen
    obtain ⟨o, ho, hsome⟩ := List.mem_filterMap.mp hchosen
    obtain ⟨row, hrow, hcounts⟩ := exists_row_of_counted hos ho
    cases hcounts with
    | candidate hparsed hthere hfuel hfinite hpositive hreported =>
      obtain rfl := Option.some.inj hsome
      exact ⟨hthere, hpositive, row, hrow, hparsed, hfinite⟩
    | _ => exact absurd hsome (by simp [Outcome.candidate?])
  case details => exact (details_sum py _).trans (names_foldl os rfl)

/-- Another order of the rows changes no details. -/
theorem prepare_perm {selected : List NormalizedMimitPrice}
    (h : preparePricesForImport py rows ids = .ok (selected, d)) (hperm : rows'.Perm rows) :
    ∃ selected' d', preparePricesForImport py rows' ids = .ok (selected', d') ∧
      getUnknownFuelDetails py d' = getUnknownFuelDetails py d := by
  obtain ⟨p, hp, h⟩ := bind_eq_ok.mp h
  obtain ⟨rfl, rfl⟩ := Prod.mk.inj (Except.ok.inj h)
  obtain ⟨os, hos, rfl⟩ := prepareRows_ok_iff.mp hp
  obtain ⟨os', hos', hos'os⟩ := List.perm_comp_forall₂ hperm hos
  refine ⟨_, _, bind_eq_ok.mpr ⟨_, prepareRows_ok_iff.mpr ⟨os', hos', rfl⟩, rfl⟩, ?_⟩
  rw [hperm.length_eq]
  exact details_perm hos'os _

/-- **The accounts of an import balance.** Whenever the preparation returns,
every row is counted once and as what it is, the choice among the candidates once more, and the
details of the unknown fuels add up to the rows of unknown fuels. It returns
for every order of the rows, with the same details. -/
theorem import_accounts_balance {selected : List NormalizedMimitPrice}
    (h : preparePricesForImport py rows ids = .ok (selected, d)) :
    Balanced py ids rows selected d ∧
      ∀ rows', rows'.Perm rows → ∃ selected' d', preparePricesForImport py rows' ids = .ok (selected', d') ∧
        getUnknownFuelDetails py d' = getUnknownFuelDetails py d :=
  ⟨prepare_balanced h, fun _ hperm => prepare_perm h hperm⟩

namespace Sample

/-- The same row twice, two names of one unknown fuel, a price that is no
number and a station that is not imported. -/
def priceRows : List PriceRow :=
  [⟨cell "7", cell "Benzina", cell "1.8", cell "1", cell "01/07/2026 08:00:00"⟩,
    ⟨cell "7", cell "Benzina", cell "1.8", cell "1", cell "01/07/2026 08:00:00"⟩,
    ⟨cell "7", cell "Super Ecoplus", cell "1.8", cell "1", cell "01/07/2026 08:00:00"⟩,
    ⟨cell "7", cell "super  ecoplus", cell "1.8", cell "1", cell "01/07/2026 08:00:00"⟩,
    ⟨cell "7", cell "Gasolio", cell "n.d.", cell "1", cell "01/07/2026 08:00:00"⟩,
    ⟨cell "8", cell "Gasolio", cell "1.8", cell "1", cell "01/07/2026 08:00:00"⟩]

def stationIdMap : Dict ℤ ℤ := ⟨[(7, 3)], by decide⟩

end Sample

/-- The sample is prepared, and its accounts balance. -/
theorem sample_accounts_balance : ∃ selected d,
    preparePricesForImport Sample.python Sample.priceRows Sample.stationIdMap = .ok (selected, d) ∧
      Balanced Sample.python Sample.stationIdMap Sample.priceRows selected d := by
  have hcompletes : (preparePricesForImport Sample.python Sample.priceRows Sample.stationIdMap).toOption.isSome = true := by
    decide +kernel
  obtain ⟨⟨selected, d⟩, hsome⟩ := Option.isSome_iff_exists.mp hcompletes
  have h := toOption_eq_some.mp hsome
  exact ⟨selected, d, h, (import_accounts_balance h).1⟩

end Mimit
end FuelNear
