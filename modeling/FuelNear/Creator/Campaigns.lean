/-
# Creators and their campaigns

`create_creator`, `create_creator_campaign` and `update_creator_campaign_status`.
What the validation lets through passes the CHECKs of the table and is stored
as it is, so a campaign that is not created was refused by the code, but for
three kinds of values that the code does not check: a date that is no date in
UTC, a name with a zero character, which the driver refuses, and hours beyond
the column.

A campaign keeps its creator, code, dates and compensation. Its status moves
along the transitions, and never away from `ended`.

Key definitions: `Roster`, `createCreator`, `createCreatorCampaign`, `Unchecked`,
`updateCreatorCampaignStatus`, `Succeeds`.
Key theorems: `normalizeCompensation_spec`, `campaign_created_or_refused`,
`statusUpdated_of_ok`, `Succeeds.ended`.
-/
import FuelNear.Creator.Attribution
import FuelNear.Numeric

namespace FuelNear
namespace Creator

open Sql Apple Text Numeric

/-! ### The tables -/

/-- A row of `creators`. -/
structure CreatorRecord extends CreatorRow where
  name : String
  slug : String
  createdAt : ℤ
  updatedAt : ℤ
  deriving DecidableEq

def CreatorRecord.keys (c : CreatorRecord) : List (ℤ ⊕ String) := [.inl c.id, .inr c.slug]

/-- `_COMPENSATION_TYPES`. -/
inductive CompensationType where
  | none
  | perQualifiedUser
  deriving DecidableEq

/-- A row of `creator_campaigns`. -/
structure CampaignRecord extends CreatorCampaign where
  name : String
  compensationType : CompensationType
  compensationValue : Option ℚ
  compensationCurrency : String
  createdAt : ℤ
  updatedAt : ℤ
  deriving DecidableEq

def CampaignRecord.keys (c : CampaignRecord) : List (ℤ ⊕ String) := c.toCreatorCampaign.keys

/-- `starts_at IS NULL OR ends_at IS NULL OR ends_at > starts_at`. -/
def dateRangeCheck (startsAt endsAt : Option ℤ) : Bool :=
  match startsAt, endsAt with
  | some s, some e => s < e
  | _, _ => true

/-- `creator_campaigns_compensation_value_check`. -/
def compensationValueCheck (t : CompensationType) (value : Option ℚ) : Bool :=
  match t with
  | .none => value.isNone
  | .perQualifiedUser => value.any (0 < ·)

def CampaignRecord.check (c : CampaignRecord) : Bool :=
  isCreatorCode c.code && dateRangeCheck c.startsAt c.endsAt && 0 < c.postRegistrationWindowHours &&
    compensationValueCheck c.compensationType c.compensationValue && currencyCheck c.compensationCurrency

/-- The two tables. -/
structure Roster where
  creators : Table CreatorRecord CreatorRecord.keys
  campaigns : Checked CampaignRecord CampaignRecord.keys CampaignRecord.check

def Roster.empty : Roster := ⟨.empty, .empty⟩

def Roster.creator? (s : Roster) (id : ℤ) : Option CreatorRecord := s.creators.find? fun c => c.id = id

def Roster.campaign? (s : Roster) (id : ℤ) : Option CampaignRecord := s.campaigns.find? fun c => c.id = id

theorem Roster.campaign?_spec {s : Roster} {id : ℤ} {c : CampaignRecord} (h : s.campaign? id = some c) :
    c ∈ s.campaigns ∧ c.id = id :=
  ⟨Table.find?_mem h, by simpa using Table.find?_prop h⟩

theorem campaign_eq_of_id {s : Roster} {c d : CampaignRecord} (hc : c ∈ s.campaigns) (hd : d ∈ s.campaigns) (h : c.id = d.id) :
    c = d :=
  Table.eq_of_key (k := .inl c.id) hc hd (by simp [CampaignRecord.keys, CreatorCampaign.keys])
    (by simp [CampaignRecord.keys, CreatorCampaign.keys, h])

theorem Roster.campaign?_of_mem {s : Roster} {c : CampaignRecord} (h : c ∈ s.campaigns) : s.campaign? c.id = some c := by
  apply Table.find?_of_mem (k := .inl c.id)
  · intro d hd
    simp only [decide_eq_true_eq] at hd
    simp [CampaignRecord.keys, CreatorCampaign.keys, hd]
  · exact h
  · simp

/-- Ids later than every id of the tables. -/
def Roster.nextCreatorId (s : Roster) : ℤ := (s.creators.rows.map (·.id)).foldr max 0 + 1

def Roster.nextCampaignId (s : Roster) : ℤ := (s.campaigns.rows.map (·.id)).foldr max 0 + 1

/-! ### The arguments -/

/-- The errors of the three functions; `outOfRange` is the database's, of a number
that the column cannot hold, `nulCharacter` the driver's `ValueError` and
`dateOverflow` the `OverflowError` of `astimezone`. -/
inductive AdminError where
  | validation (message : String)
  | codeFormatInvalid
  | slugAlreadyExists
  | creatorNotFound
  | campaignCodeAlreadyExists
  | campaignNotFound
  | campaignTransition
  | creatorInactive
  | outOfRange
  | nulCharacter
  | dateOverflow
  | violation (v : Violation)
  deriving DecidableEq

/-- The refusals that the functions raise themselves. -/
def AdminError.isRefusal : AdminError → Bool
  | .outOfRange => false
  | .nulCharacter => false
  | .dateOverflow => false
  | .violation _ => false
  | _ => true

/-- `_normalize_admin_text`, of a string. -/
def normalizeAdminText (value fieldName : String) (maxLength : ℕ) : Except AdminError String :=
  if strip value = "" ∨ maxLength < (strip value).toList.length then .error (.validation (fieldName ++ " is invalid"))
  else .ok (strip value)

/-- `CREATOR_SLUG_PATTERN`, on the whole text: groups of letters and digits, none of them empty. -/
def isCreatorSlug (x : String) : Bool :=
  (x.toList.splitOn '-').all fun group => group ≠ [] && group.all fun c => c.isLower || c.isDigit

/-- `normalize_creator_slug`. -/
def normalizeCreatorSlug (slug : String) : Except AdminError String := do
  let normalized ← normalizeAdminText slug "slug" 100
  if isCreatorSlug (lower normalized) then return lower normalized else .error (.validation "slug is invalid")

/-- A `Decimal`. -/
inductive PyDecimal where
  | finite (negative : Bool) (coefficient : ℕ) (exponent : ℤ)
  | infinite (negative : Bool)
  | nan
  deriving DecidableEq

/-- The number of a finite `Decimal`. -/
def decimalValue (negative : Bool) (coefficient : ℕ) (exponent : ℤ) : ℚ :=
  (if negative then -(coefficient : ℚ) else coefficient) * 10 ^ exponent

/-- `CompensationType` of the normalized text. -/
def compensationType? (x : String) : Option CompensationType :=
  if x = "none" then some .none else if x = "per_qualified_user" then some .perQualifiedUser else none

/-- The value of a compensation per qualified user. -/
def compensationAmount (value : Option PyDecimal) : Except AdminError ℚ :=
  match value with
  | some (.finite negative coefficient exponent) =>
    let x := decimalValue negative coefficient exponent
    if x ≤ 0 then .error (.validation "compensation_value must be positive for per_qualified_user")
    else if exponent < -4 then .error (.validation "compensation_value must have at most four decimal places")
    else if 100000000 ≤ x then .error (.validation "compensation_value is out of range")
    else .ok x
  | _ => .error (.validation "compensation_value must be positive for per_qualified_user")

/-- The value that goes with the type. -/
def compensationOf (value : Option PyDecimal) : CompensationType → Except AdminError (Option ℚ)
  | .none =>
    if value.isSome then .error (.validation "compensation_value must be absent when compensation_type is none")
    else .ok none
  | .perQualifiedUser => do
    let amount ← compensationAmount value
    return some amount

/-- `_normalize_compensation`. -/
def normalizeCompensation (type : String) (value : Option PyDecimal) (currency : String) :
    Except AdminError (CompensationType × Option ℚ × String) := do
  let normalizedType ← normalizeAdminText type "compensation_type" 32
  match compensationType? (lower normalizedType) with
  | none => .error (.validation "compensation_type is invalid")
  | some t =>
    let normalizedCurrency ← normalizeAdminText currency "compensation_currency" 3
    if currencyCheck (upper normalizedCurrency) = false then
      .error (.validation "compensation_currency is invalid")
    else do
      let amount ← compensationOf value t
      return (t, amount, upper normalizedCurrency)

/-- A `datetime`; an aware one is an instant. -/
inductive PyDatetime where
  | aware (instant : ℤ)
  | naive
  deriving DecidableEq

/-- From the first to the last instant of a `datetime` in UTC, the years 1 to 9999. -/
def inDatetimeRange (t : ℤ) : Bool := -62135596800000000 ≤ t && t ≤ 253402300799999999

/-- `_normalize_reference_date` of an optional date. -/
def normalizeOptionalDate (fieldName : String) : Option PyDatetime → Except AdminError (Option ℤ)
  | none => .ok none
  | some (.aware t) => if inDatetimeRange t then .ok (some t) else .error .dateOverflow
  | some .naive => .error (.validation (fieldName ++ " must be timezone-aware"))

/-! ### Creating -/

/-- The parameters of a statement: the driver takes no text with a zero character. -/
def bindText (x : String) : Except AdminError Unit := if '\x00' ∈ x.toList then .error .nulCharacter else .ok ()

/-- `create_creator`. -/
def createCreator (name slug : String) (now : ℤ) (s : Roster) : Except AdminError (CreatorRecord × Roster) := do
  let normalizedName ← normalizeAdminText name "name" 200
  let normalizedSlug ← normalizeCreatorSlug slug
  bindText normalizedName
  let creator : CreatorRecord := ⟨⟨s.nextCreatorId, .active⟩, normalizedName, normalizedSlug, now, now⟩
  match s.creators.insert? creator with
  | none => .error .slugAlreadyExists
  | some creators => return (creator, { s with creators })

/-- The arguments of `create_creator_campaign`. -/
structure CampaignRequest where
  creatorId : ℤ
  name : String
  code : String
  startsAt : Option PyDatetime
  endsAt : Option PyDatetime
  postRegistrationWindowHours : ℤ
  compensationType : String
  compensationValue : Option PyDecimal
  compensationCurrency : String

def liftCodeError : Except AttributionError String → Except AdminError String
  | .ok x => .ok x
  | .error _ => .error .codeFormatInvalid

/-- The columns of the INSERT. -/
structure CampaignColumns where
  name : String
  code : String
  startsAt : Option ℤ
  endsAt : Option ℤ
  compensation : CompensationType × Option ℚ × String

/-- `raise CreatorAdminValidationError(message)` unless the condition holds. -/
def require (condition : Bool) (message : String) : Except AdminError Unit :=
  if condition then .ok () else .error (.validation message)

/-- The checks before the first statement. -/
def normalizeCampaign (r : CampaignRequest) : Except AdminError CampaignColumns := do
  require (0 < r.creatorId) "creator_id is invalid"
  let name ← normalizeAdminText r.name "name" 200
  let code ← liftCodeError (normalizeCreatorCode r.code)
  require (0 < r.postRegistrationWindowHours) "post_registration_window_hours must be positive"
  let startsAt ← normalizeOptionalDate "starts_at" r.startsAt
  let endsAt ← normalizeOptionalDate "ends_at" r.endsAt
  require (dateRangeCheck startsAt endsAt) "ends_at must be after starts_at"
  let compensation ← normalizeCompensation r.compensationType r.compensationValue r.compensationCurrency
  return ⟨name, code, startsAt, endsAt, compensation⟩

/-- What `NUMERIC(12,4)` makes of the value; NULL stays NULL. -/
def storedCompensation : Option ℚ → Except AdminError (Option ℚ)
  | none => .ok none
  | some x =>
    match stored 12 4 x with
    | none => .error .outOfRange
    | some y => .ok (some y)

/-- The row of the INSERT. -/
def newCampaign (id now creatorId hours : ℤ) (c : CampaignColumns) (value : Option ℚ) : CampaignRecord where
  id := id
  creatorId := creatorId
  code := c.code
  status := .draft
  startsAt := c.startsAt
  endsAt := c.endsAt
  postRegistrationWindowHours := hours
  name := c.name
  compensationType := c.compensation.1
  compensationValue := value
  compensationCurrency := c.compensation.2.2
  createdAt := now
  updatedAt := now

/-- The INSERT … ON CONFLICT (code) DO NOTHING. -/
def insertCampaign (r : CampaignRequest) (c : CampaignColumns) (now : ℤ) (s : Roster) :
    Except AdminError (CampaignRecord × Roster) := do
  bindText c.name
  if 2 ^ 31 ≤ r.postRegistrationWindowHours then .error .outOfRange
  else do
    let value ← storedCompensation c.compensation.2.1
    let campaign := newCampaign s.nextCampaignId now r.creatorId r.postRegistrationWindowHours c value
    match s.campaigns.insert campaign with
    | .error .unique => .error .campaignCodeAlreadyExists
    | .error v => .error (.violation v)
    | .ok campaigns => return (campaign, { s with campaigns })

/-- `create_creator_campaign`. -/
def createCreatorCampaign (r : CampaignRequest) (now : ℤ) (s : Roster) : Except AdminError (CampaignRecord × Roster) := do
  let columns ← normalizeCampaign r
  match s.creator? r.creatorId with
  | none => .error .creatorNotFound
  | some _ => insertCampaign r columns now s

/-! ### The status -/

/-- `_CREATOR_CAMPAIGN_STATUSES`. -/
def campaignStatus? (x : String) : Option CampaignStatus :=
  if x = "draft" then some .draft
  else if x = "active" then some .active
  else if x = "paused" then some .paused
  else if x = "ended" then some .ended
  else none

/-- `_CREATOR_CAMPAIGN_TRANSITIONS`. -/
def creatorCampaignTransitions : CampaignStatus → List CampaignStatus
  | .draft => [.active, .ended]
  | .active => [.paused, .ended]
  | .paused => [.active, .ended]
  | .ended => []

def CampaignRecord.withStatus (status : CampaignStatus) (now : ℤ) (c : CampaignRecord) : CampaignRecord :=
  { c with status := status, updatedAt := now }

theorem withStatus_keys (status : CampaignStatus) (now : ℤ) (c : CampaignRecord) :
    (c.withStatus status now).keys.Sublist c.keys :=
  List.Sublist.refl _

/-- The checks and the UPDATE, of a campaign that is found: the row, and whether it changed. -/
def moveCampaign (campaign : CampaignRecord) (creatorStatus : CreatorStatus) (status : CampaignStatus) (now : ℤ) (s : Roster) :
    Except AdminError ((CampaignRecord × Bool) × Roster) :=
  if status = campaign.status then .ok ((campaign, false), s)
  else if status ∉ creatorCampaignTransitions campaign.status then .error .campaignTransition
  else if status = .active ∧ creatorStatus ≠ .active then .error .creatorInactive
  else
    match s.campaigns.update (fun c => c.id = campaign.id) (·.withStatus status now) (withStatus_keys status now) with
    | .error v => .error (.violation v)
    | .ok campaigns => .ok ((campaign.withStatus status now, true), { s with campaigns })

/-- `update_creator_campaign_status`. -/
def updateCreatorCampaignStatus (campaignId : ℤ) (status : String) (now : ℤ) (s : Roster) :
    Except AdminError ((CampaignRecord × Bool) × Roster) :=
  if campaignId ≤ 0 then .error (.validation "campaign_id is invalid")
  else do
    let normalized ← normalizeAdminText status "status" 16
    match campaignStatus? (lower normalized) with
    | none => .error (.validation "status is invalid")
    | some normalizedStatus =>
      match s.campaign? campaignId with
      | none => .error .campaignNotFound
      | some campaign =>
        match s.creator? campaign.creatorId with
        | none => .error .campaignNotFound
        | some creator => moveCampaign campaign creator.status normalizedStatus now s

/-! ### What the validation lets through -/

theorem normalizeAdminText_ok {value fieldName x : String} {maxLength : ℕ} :
    normalizeAdminText value fieldName maxLength = .ok x ↔
      x = strip value ∧ strip value ≠ "" ∧ (strip value).toList.length ≤ maxLength := by
  unfold normalizeAdminText
  by_cases h : strip value = "" ∨ maxLength < (strip value).toList.length
  · rw [if_pos h]
    refine ⟨fun hx => absurd hx (by simp), fun hx => ?_⟩
    rcases h with h | h
    · exact absurd h hx.2.1
    · omega
  · rw [if_neg h]
    push Not at h
    rw [Except.ok.injEq, eq_comm]
    exact ⟨fun hx => ⟨hx, h⟩, fun hx => hx.1⟩

theorem normalizeAdminText_error {value fieldName : String} {maxLength : ℕ} {e : AdminError}
    (h : normalizeAdminText value fieldName maxLength = .error e) : e.isRefusal = true := by
  unfold normalizeAdminText at h
  split_ifs at h
  rw [← Except.error.inj h]
  rfl

/-- A positive decimal of at most four places, below a hundred million, is kept by `NUMERIC(12,4)`. -/
theorem decimal_fits {negative : Bool} {coefficient : ℕ} {exponent : ℤ} (hplaces : -4 ≤ exponent)
    (hpos : 0 < decimalValue negative coefficient exponent)
    (hlt : decimalValue negative coefficient exponent < 100000000) :
    Fits 12 4 (decimalValue negative coefficient exponent) := by
  obtain ⟨n, hn⟩ := Int.eq_ofNat_of_zero_le (by omega : 0 ≤ exponent + 4)
  set signed : ℤ := if negative then -(coefficient : ℤ) else coefficient with hsigned
  have hvalue : decimalValue negative coefficient exponent * 10 ^ 4 = ((signed * 10 ^ n : ℤ) : ℚ) := by
    have hpow : (10 : ℚ) ^ exponent * 10 ^ 4 = 10 ^ n := by
      rw [← zpow_natCast (10 : ℚ) 4, ← zpow_add₀ (by norm_num), ← zpow_natCast (10 : ℚ) n]
      congr 1
    unfold decimalValue
    rw [mul_assoc, hpow, hsigned]
    cases negative <;> push_cast <;> rfl
  refine ⟨signed * 10 ^ n, hvalue, ?_⟩
  have hlower : (0 : ℚ) < ((signed * 10 ^ n : ℤ) : ℚ) := by
    rw [← hvalue]
    positivity
  have hupper : ((signed * 10 ^ n : ℤ) : ℚ) < 100000000 * 10 ^ 4 := by
    rw [← hvalue]
    exact mul_lt_mul_of_pos_right hlt (by norm_num)
  have hlower : 0 < signed * 10 ^ n := by exact_mod_cast hlower
  have hupper : signed * 10 ^ n < 100000000 * 10 ^ 4 := by exact_mod_cast hupper
  rw [abs_of_pos hlower]
  omega

/-- The amount of an accepted compensation. -/
theorem compensationAmount_ok {value : Option PyDecimal} {x : ℚ} (h : compensationAmount value = .ok x) :
    0 < x ∧ Fits 12 4 x := by
  unfold compensationAmount at h
  split at h
  · next negative coefficient exponent =>
    dsimp only at h
    split_ifs at h with hpos hplaces hlt
    obtain rfl := Except.ok.inj h
    exact ⟨not_le.mp hpos, decimal_fits (not_lt.mp hplaces) (not_le.mp hpos) (not_le.mp hlt)⟩
  · exact absurd h (by simp)

theorem compensationAmount_error {value : Option PyDecimal} {e : AdminError} (h : compensationAmount value = .error e) :
    e.isRefusal = true := by
  unfold compensationAmount at h
  split at h
  · dsimp only at h
    split_ifs at h <;> rw [← Except.error.inj h] <;> rfl
  · rw [← Except.error.inj h]
    rfl

/-- The value of an accepted compensation passes its CHECK, and fits. -/
theorem compensationOf_ok {value : Option PyDecimal} {t : CompensationType} {amount : Option ℚ}
    (h : compensationOf value t = .ok amount) :
    compensationValueCheck t amount = true ∧ ∀ x ∈ amount, Fits 12 4 x := by
  cases t with
  | none =>
    unfold compensationOf at h
    dsimp only at h
    split_ifs at h
    obtain rfl := Except.ok.inj h
    exact ⟨rfl, fun x hx => absurd hx (by simp)⟩
  | perQualifiedUser =>
    obtain ⟨y, hy, h⟩ := bind_eq_ok.mp h
    obtain rfl := Except.ok.inj h
    obtain ⟨hpos, hfits⟩ := compensationAmount_ok hy
    exact ⟨by simpa [compensationValueCheck] using hpos, fun x hx => by rwa [← Option.some.inj hx]⟩

theorem compensationOf_error {value : Option PyDecimal} {t : CompensationType} {e : AdminError}
    (h : compensationOf value t = .error e) : e.isRefusal = true := by
  cases t with
  | none =>
    unfold compensationOf at h
    dsimp only at h
    split_ifs at h
    rw [← Except.error.inj h]
    rfl
  | perQualifiedUser =>
    rcases bind_eq_error.mp h with h | ⟨amount, -, h⟩
    · exact compensationAmount_error h
    · exact absurd h (by simp [pure, Except.pure])

/-- An accepted compensation passes its two CHECKs, and its value fits. -/
theorem normalizeCompensation_spec {type currency : String} {value : Option PyDecimal}
    {c : CompensationType × Option ℚ × String} (h : normalizeCompensation type value currency = .ok c) :
    compensationValueCheck c.1 c.2.1 = true ∧ currencyCheck c.2.2 = true ∧ ∀ x ∈ c.2.1, Fits 12 4 x := by
  unfold normalizeCompensation at h
  obtain ⟨t, -, h⟩ := bind_eq_ok.mp h
  split at h
  · exact absurd h (by simp)
  · next kind _ =>
    obtain ⟨normalizedCurrency, -, h⟩ := bind_eq_ok.mp h
    split_ifs at h with hcurrency
    obtain ⟨amount, hamount, h⟩ := bind_eq_ok.mp h
    obtain rfl := Except.ok.inj h
    obtain ⟨hvalue, hfits⟩ := compensationOf_ok hamount
    exact ⟨hvalue, by simpa using hcurrency, hfits⟩

theorem normalizeCompensation_error {type currency : String} {value : Option PyDecimal} {e : AdminError}
    (h : normalizeCompensation type value currency = .error e) : e.isRefusal = true := by
  unfold normalizeCompensation at h
  rcases bind_eq_error.mp h with h | ⟨t, -, h⟩
  · exact normalizeAdminText_error h
  · split at h
    · rw [← Except.error.inj h]
      rfl
    · next kind _ =>
      rcases bind_eq_error.mp h with h | ⟨normalizedCurrency, -, h⟩
      · exact normalizeAdminText_error h
      · split_ifs at h with hcurrency
        · rw [← Except.error.inj h]
          rfl
        · rcases bind_eq_error.mp h with h | ⟨amount, -, h⟩
          · exact compensationOf_error h
          · exact absurd h (by simp [pure, Except.pure])

/-- What the checks before the first statement establish. -/
structure CampaignColumns.Valid (r : CampaignRequest) (c : CampaignColumns) : Prop where
  creatorId : 0 < r.creatorId
  name : c.name = strip r.name
  code : c.code = upper (strip r.code)
  codeCheck : isCreatorCode c.code = true
  hours : 0 < r.postRegistrationWindowHours
  dates : dateRangeCheck c.startsAt c.endsAt = true
  compensation : compensationValueCheck c.compensation.1 c.compensation.2.1 = true
  currency : currencyCheck c.compensation.2.2 = true
  fits : ∀ x ∈ c.compensation.2.1, Fits 12 4 x

theorem require_ok {condition : Bool} {message : String} {u : Unit} (h : require condition message = .ok u) :
    condition = true := by
  unfold require at h
  split_ifs at h with hc
  exact hc

theorem require_error {condition : Bool} {message : String} {e : AdminError}
    (h : require condition message = .error e) : e.isRefusal = true := by
  unfold require at h
  split_ifs at h
  rw [← Except.error.inj h]
  rfl

theorem normalizeCampaign_ok {r : CampaignRequest} {c : CampaignColumns} (h : normalizeCampaign r = .ok c) :
    c.Valid r := by
  unfold normalizeCampaign at h
  obtain ⟨_, hcreator, h⟩ := bind_eq_ok.mp h
  obtain ⟨name, hname, h⟩ := bind_eq_ok.mp h
  obtain ⟨code, hcode, h⟩ := bind_eq_ok.mp h
  obtain ⟨_, hhours, h⟩ := bind_eq_ok.mp h
  obtain ⟨startsAt, -, h⟩ := bind_eq_ok.mp h
  obtain ⟨endsAt, -, h⟩ := bind_eq_ok.mp h
  obtain ⟨_, hdates, h⟩ := bind_eq_ok.mp h
  obtain ⟨compensation, hcompensation, h⟩ := bind_eq_ok.mp h
  obtain rfl := Except.ok.inj h
  obtain ⟨hvalue, hcurrency, hfits⟩ := normalizeCompensation_spec hcompensation
  have hcode' : isCreatorCode (upper (strip r.code)) = true ∧ upper (strip r.code) = code := by
    unfold normalizeCreatorCode at hcode
    split_ifs at hcode with hc
    · exact ⟨hc, Except.ok.inj hcode⟩
    · exact absurd hcode (by simp [liftCodeError])
  exact ⟨by simpa using require_ok hcreator, (normalizeAdminText_ok.mp hname).1, hcode'.2.symm, hcode'.2 ▸ hcode'.1,
    by simpa using require_ok hhours, require_ok hdates, hvalue, hcurrency, hfits⟩

/-- The date is aware, but no date in UTC. -/
def Overflows (d : Option PyDatetime) : Prop := ∃ t, d = some (.aware t) ∧ inDatetimeRange t = false

theorem normalizeOptionalDate_error {fieldName : String} {d : Option PyDatetime} {e : AdminError}
    (h : normalizeOptionalDate fieldName d = .error e) :
    e.isRefusal = true ∨ (e = .dateOverflow ∧ Overflows d) := by
  rcases d with _ | (t | _)
  · exact absurd h (by simp [normalizeOptionalDate])
  · unfold normalizeOptionalDate at h
    dsimp only at h
    split_ifs at h with ht
    exact Or.inr ⟨(Except.error.inj h).symm, t, rfl, by simpa using ht⟩
  · rw [← Except.error.inj h]
    exact Or.inl rfl

theorem normalizeCampaign_error {r : CampaignRequest} {e : AdminError} (h : normalizeCampaign r = .error e) :
    e.isRefusal = true ∨ (e = .dateOverflow ∧ (Overflows r.startsAt ∨ Overflows r.endsAt)) := by
  unfold normalizeCampaign at h
  rcases bind_eq_error.mp h with h | ⟨-, -, h⟩
  · exact Or.inl (require_error h)
  rcases bind_eq_error.mp h with h | ⟨name, -, h⟩
  · exact Or.inl (normalizeAdminText_error h)
  rcases bind_eq_error.mp h with h | ⟨code, -, h⟩
  · unfold liftCodeError at h
    split at h
    · exact absurd h (by simp)
    · rw [← Except.error.inj h]
      exact Or.inl rfl
  rcases bind_eq_error.mp h with h | ⟨-, -, h⟩
  · exact Or.inl (require_error h)
  rcases bind_eq_error.mp h with h | ⟨startsAt, -, h⟩
  · exact (normalizeOptionalDate_error h).imp_right fun hover => ⟨hover.1, Or.inl hover.2⟩
  rcases bind_eq_error.mp h with h | ⟨endsAt, -, h⟩
  · exact (normalizeOptionalDate_error h).imp_right fun hover => ⟨hover.1, Or.inr hover.2⟩
  rcases bind_eq_error.mp h with h | ⟨-, -, h⟩
  · exact Or.inl (require_error h)
  rcases bind_eq_error.mp h with h | ⟨compensation, -, h⟩
  · exact Or.inl (normalizeCompensation_error h)
  · exact absurd h (by simp [pure, Except.pure])

theorem bindText_error {x : String} {e : AdminError} (h : bindText x = .error e) :
    e = .nulCharacter ∧ '\x00' ∈ x.toList := by
  unfold bindText at h
  split_ifs at h with hnul
  exact ⟨(Except.error.inj h).symm, hnul⟩

theorem storedCompensation_of_fits {value : Option ℚ} (h : ∀ x ∈ value, Fits 12 4 x) :
    storedCompensation value = .ok value := by
  cases value with
  | none => rfl
  | some x =>
    unfold storedCompensation
    dsimp only
    rw [stored_of_fits (h x rfl)]

theorem CampaignColumns.Valid.check {r : CampaignRequest} {c : CampaignColumns} (h : c.Valid r) (id now : ℤ) :
    (newCampaign id now r.creatorId r.postRegistrationWindowHours c c.compensation.2.1).check = true := by
  simp [CampaignRecord.check, newCampaign, h.codeCheck, h.dates, h.hours, h.compensation, h.currency]

/-! ### A creation -/

/-- A completed creation: the new row comes last, with the columns as they were
normalized, and a code that no campaign had. -/
structure CampaignCreated (r : CampaignRequest) (now : ℤ) (s : Roster) (c : CampaignRecord) (s' : Roster) : Prop where
  row : ∃ columns, normalizeCampaign r = .ok columns ∧
    c = newCampaign s.nextCampaignId now r.creatorId r.postRegistrationWindowHours columns columns.compensation.2.1
  creator : (s.creator? r.creatorId).isSome = true
  inserts : s.campaigns.insert c = .ok s'.campaigns
  creators : s'.creators = s.creators

/-- What the code does not check: a date that is no date in UTC, a zero character
in the name, hours beyond the INTEGER column. -/
inductive Unchecked (r : CampaignRequest) : AdminError → Prop where
  | date (overflows : Overflows r.startsAt ∨ Overflows r.endsAt) : Unchecked r .dateOverflow
  | name (nul : '\x00' ∈ (strip r.name).toList) : Unchecked r .nulCharacter
  | hours (large : 2 ^ 31 ≤ r.postRegistrationWindowHours) : Unchecked r .outOfRange

/-- **A campaign is created as it was normalized, or refused by the code**, but
for what the code does not check: no CHECK and no overflow of the value is left
to the database. -/
theorem campaign_created_or_refused (r : CampaignRequest) (now : ℤ) (s : Roster) :
    (∃ c s', createCreatorCampaign r now s = .ok (c, s') ∧ CampaignCreated r now s c s') ∨
      ∃ e, createCreatorCampaign r now s = .error e ∧ (e.isRefusal = true ∨ Unchecked r e) := by
  unfold createCreatorCampaign
  cases hcolumns : normalizeCampaign r with
  | error e =>
    refine Or.inr ⟨e, rfl, (normalizeCampaign_error hcolumns).imp_right fun hover => ?_⟩
    rw [hover.1]
    exact .date hover.2
  | ok columns =>
    have hvalid := normalizeCampaign_ok hcolumns
    dsimp only [bind, Except.bind]
    cases hcreator : s.creator? r.creatorId with
    | none => exact Or.inr ⟨_, rfl, Or.inl rfl⟩
    | some creator =>
      dsimp only
      unfold insertCampaign
      cases hname : bindText columns.name with
      | error e =>
        obtain ⟨rfl, hnul⟩ := bindText_error hname
        rw [hvalid.name] at hnul
        exact Or.inr ⟨_, rfl, Or.inr (.name hnul)⟩
      | ok u =>
        dsimp only [bind, Except.bind]
        by_cases hhours : 2 ^ 31 ≤ r.postRegistrationWindowHours
        · rw [if_pos hhours]
          exact Or.inr ⟨_, rfl, Or.inr (.hours hhours)⟩
        · rw [if_neg hhours, storedCompensation_of_fits hvalid.fits]
          dsimp only
          cases hinsert : s.campaigns.insert (newCampaign s.nextCampaignId now r.creatorId r.postRegistrationWindowHours
              columns columns.compensation.2.1) with
          | error v =>
            rcases Checked.insert_error hinsert with rfl | ⟨-, hcheck⟩
            · exact Or.inr ⟨_, rfl, Or.inl rfl⟩
            · rw [hvalid.check] at hcheck
              exact absurd hcheck (by simp)
          | ok campaigns => exact Or.inl ⟨_, _, rfl, ⟨columns, hcolumns, rfl⟩, by rw [hcreator]; rfl, hinsert, rfl⟩

/-- A roster with one creator. -/
def sampleRoster : Roster := ⟨⟨[⟨⟨1, .active⟩, "Ada", "ada", 0, 0⟩], by decide⟩, .empty⟩

/-- A compensation of 12.50 for a qualified user. -/
def sampleRequest : CampaignRequest :=
  ⟨1, " Spring ", "fuelnear1", none, none, 24, "per_qualified_user", some (.finite false 1250 (-2)), "eur"⟩

example : (createCreatorCampaign sampleRequest 5 sampleRoster).toOption.map (·.1.compensationValue) =
    some (some (25 / 2)) := by decide +kernel
example : (createCreatorCampaign { sampleRequest with name := "a\x00b" } 5 sampleRoster).toOption.isNone := by
  decide +kernel

/-- Every completed creation is of this kind. -/
theorem campaignCreated_of_ok {r : CampaignRequest} {now : ℤ} {s s' : Roster} {c : CampaignRecord}
    (h : createCreatorCampaign r now s = .ok (c, s')) : CampaignCreated r now s c s' := by
  rcases campaign_created_or_refused r now s with ⟨d, t, hok, hcreated⟩ | ⟨e, herror, -⟩
  · rw [h] at hok
    obtain ⟨rfl, rfl⟩ := Prod.mk.inj (Except.ok.inj hok)
    exact hcreated
  · rw [h] at herror
    exact absurd herror (by simp)

/-! ### A change of the status -/

/-- A completed change: the status is the one asked for, or the row moved there. -/
inductive StatusUpdated (campaignId now : ℤ) (s : Roster) : CampaignRecord × Bool → Roster → Prop where
  | same {c} (found : s.campaign? campaignId = some c) : StatusUpdated campaignId now s (c, false) s
  | moved {c status s'} (found : s.campaign? campaignId = some c)
      (allowed : status ∈ creatorCampaignTransitions c.status)
      (creator : status = .active → ∃ k, s.creator? c.creatorId = some k ∧ k.status = .active)
      (campaigns : s'.campaigns.toTable = s.campaigns.toTable.update (fun d => d.id = c.id) (·.withStatus status now)
        (withStatus_keys status now))
      (creators : s'.creators = s.creators) :
      StatusUpdated campaignId now s (c.withStatus status now, true) s'

theorem statusUpdated_of_ok {campaignId now : ℤ} {status : String} {s s' : Roster} {out : CampaignRecord × Bool}
    (h : updateCreatorCampaignStatus campaignId status now s = .ok (out, s')) : StatusUpdated campaignId now s out s' := by
  unfold updateCreatorCampaignStatus at h
  split_ifs at h
  obtain ⟨normalized, -, h⟩ := bind_eq_ok.mp h
  split at h
  · exact absurd h (by simp)
  · next normalizedStatus _ =>
    split at h
    · exact absurd h (by simp)
    · next campaign hcampaign =>
      split at h
      · exact absurd h (by simp)
      · next creator hcreator =>
        unfold moveCampaign at h
        split_ifs at h with hsame hallowed hactive
        · obtain ⟨rfl, rfl⟩ := Prod.mk.inj (Except.ok.inj h)
          exact StatusUpdated.same hcampaign
        · split at h
          · exact absurd h (by simp)
          · next campaigns hcampaigns =>
            obtain ⟨rfl, rfl⟩ := Prod.mk.inj (Except.ok.inj h)
            refine StatusUpdated.moved hcampaign hallowed (fun hs => ⟨creator, hcreator, ?_⟩)
              (Checked.update_ok hcampaigns) rfl
            by_contra hne
            exact hactive ⟨hs, hne⟩

/-! ### The life of a campaign -/

/-- A later version of a campaign: only the status has moved, along the transitions. -/
structure Succeeds (c d : CampaignRecord) : Prop where
  id : d.id = c.id
  creatorId : d.creatorId = c.creatorId
  code : d.code = c.code
  startsAt : d.startsAt = c.startsAt
  endsAt : d.endsAt = c.endsAt
  hours : d.postRegistrationWindowHours = c.postRegistrationWindowHours
  name : d.name = c.name
  compensationType : d.compensationType = c.compensationType
  compensationValue : d.compensationValue = c.compensationValue
  compensationCurrency : d.compensationCurrency = c.compensationCurrency
  createdAt : d.createdAt = c.createdAt
  status : Relation.ReflTransGen (fun a b => b ∈ creatorCampaignTransitions a) c.status d.status

theorem Succeeds.refl (c : CampaignRecord) : Succeeds c c :=
  ⟨rfl, rfl, rfl, rfl, rfl, rfl, rfl, rfl, rfl, rfl, rfl, Relation.ReflTransGen.refl⟩

theorem Succeeds.trans {c d e : CampaignRecord} (h : Succeeds c d) (h' : Succeeds d e) : Succeeds c e where
  id := h'.id.trans h.id
  creatorId := h'.creatorId.trans h.creatorId
  code := h'.code.trans h.code
  startsAt := h'.startsAt.trans h.startsAt
  endsAt := h'.endsAt.trans h.endsAt
  hours := h'.hours.trans h.hours
  name := h'.name.trans h.name
  compensationType := h'.compensationType.trans h.compensationType
  compensationValue := h'.compensationValue.trans h.compensationValue
  compensationCurrency := h'.compensationCurrency.trans h.compensationCurrency
  createdAt := h'.createdAt.trans h.createdAt
  status := h.status.trans h'.status

/-- No transition leaves `ended`. -/
theorem Succeeds.ended {c d : CampaignRecord} (h : Succeeds c d) (hended : c.status = .ended) : d.status = .ended := by
  have hstatus := h.status
  rw [hended] at hstatus
  rcases Relation.ReflTransGen.cases_head hstatus with heq | ⟨x, hx, -⟩
  · exact heq.symm
  · exact absurd hx List.not_mem_nil

/-- And none leads back to `draft`. -/
theorem Succeeds.draft {c d : CampaignRecord} (h : Succeeds c d) (hdraft : d.status = .draft) : c.status = .draft := by
  have hstatus := h.status
  rw [hdraft] at hstatus
  rcases Relation.ReflTransGen.cases_tail hstatus with heq | ⟨x, -, hx⟩
  · exact heq.symm
  · cases x <;> exact absurd hx (by decide)

theorem withStatus_succeeds {c : CampaignRecord} {status : CampaignStatus} {now : ℤ}
    (h : status ∈ creatorCampaignTransitions c.status) : Succeeds c (c.withStatus status now) :=
  ⟨rfl, rfl, rfl, rfl, rfl, rfl, rfl, rfl, rfl, rfl, rfl, Relation.ReflTransGen.single h⟩

/-- What an administrator's call leaves of a roster: every campaign has its later
version, the creators stay. -/
structure Roster.Kept (s s' : Roster) : Prop where
  campaigns : ∀ c ∈ s.campaigns, ∃ d ∈ s'.campaigns, Succeeds c d
  creators : ∀ c ∈ s.creators, c ∈ s'.creators

theorem Roster.Kept.refl (s : Roster) : s.Kept s := ⟨fun c hc => ⟨c, hc, Succeeds.refl c⟩, fun _ hc => hc⟩

theorem Roster.Kept.trans {s t u : Roster} (h : s.Kept t) (h' : t.Kept u) : s.Kept u := by
  refine ⟨fun c hc => ?_, fun c hc => h'.creators c (h.creators c hc)⟩
  obtain ⟨d, hd, hcd⟩ := h.campaigns c hc
  obtain ⟨e, he, hde⟩ := h'.campaigns d hd
  exact ⟨e, he, hcd.trans hde⟩

theorem CampaignCreated.kept {r : CampaignRequest} {now : ℤ} {s s' : Roster} {c : CampaignRecord}
    (h : CampaignCreated r now s c s') : s.Kept s' := by
  refine ⟨fun d hd => ⟨d, ?_, Succeeds.refl d⟩, fun k hk => by rwa [h.creators]⟩
  exact (Table.mem_insert (Checked.insert_ok h.inserts)).mpr (Or.inl hd)

theorem StatusUpdated.kept {campaignId now : ℤ} {s s' : Roster} {out : CampaignRecord × Bool}
    (h : StatusUpdated campaignId now s out s') : s.Kept s' := by
  cases h with
  | same found => exact Roster.Kept.refl s
  | @moved c status _ found allowed creator campaigns creators =>
    refine ⟨fun d hd => ?_, fun k hk => by rwa [creators]⟩
    have hmem := Table.mem_update_of_mem (p := fun x => x.id = c.id) (withStatus_keys status now) hd
    refine ⟨_, Checked.mem_def.mpr (campaigns ▸ hmem), ?_⟩
    by_cases hid : d.id = c.id
    · obtain rfl := campaign_eq_of_id hd (Roster.campaign?_spec found).1 hid
      rw [if_pos (by simp)]
      exact withStatus_succeeds allowed
    · rw [if_neg (by simpa using hid)]
      exact Succeeds.refl d

/-- A completed creation of a creator: the new row comes last. -/
theorem creatorCreated_of_ok {name slug : String} {now : ℤ} {s s' : Roster} {c : CreatorRecord}
    (h : createCreator name slug now s = .ok (c, s')) :
    s.creators.insert? c = some s'.creators ∧ s'.campaigns = s.campaigns ∧ c.status = .active := by
  unfold createCreator at h
  obtain ⟨normalizedName, -, h⟩ := bind_eq_ok.mp h
  obtain ⟨normalizedSlug, -, h⟩ := bind_eq_ok.mp h
  obtain ⟨_, -, h⟩ := bind_eq_ok.mp h
  dsimp only at h
  split at h
  · exact absurd h (by simp)
  · next creators hcreators =>
    obtain ⟨rfl, rfl⟩ := Prod.mk.inj (Except.ok.inj h)
    exact ⟨hcreators, rfl, rfl⟩

end Creator
end FuelNear
