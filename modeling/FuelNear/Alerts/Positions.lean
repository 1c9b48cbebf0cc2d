/-
# Whose position it is, and since when

A stored position was posted by its user, and since then the user has neither
posted another one by `/user/location`, nor deleted it, nor deleted the
account. Each run drops what is older than the retention, so an older position
that is stored after it was posted after it. What `GET /user/location` shows is
fresh besides.

A run selects the positions once, so the position it goes by may be deleted by
the time a user is looked at. It was stored when the run started, it is the one
position of its source (a coordinate of `user_locations` is not mixed with the
instant of the preferences), and it is fresh when the devices are selected.

Key definitions: `AlertStore.Holds`, `Posts`, `Posted`.
Key theorems: `served_holds`, `cleanedUp_holds`, `subject_holds`,
`stored_positions`, `selected_position`.
-/
import FuelNear.Alerts.Worker
import FuelNear.Since

namespace FuelNear
namespace Alerts

open Sql Text Notifications
open Mimit (Number)
open Stations (HttpException)

/-! ### Positions of a store -/

def UserLocation.position (l : UserLocation) : Position := ⟨l.lat, l.lng, l.updatedAt⟩

/-- The preferences hold the position. -/
structure Preferences.At (p : Preferences) (x : Position) : Prop where
  latitude : p.latitude = some x.latitude
  longitude : p.longitude = some x.longitude
  updatedAt : p.locationUpdatedAt = some x.updatedAt

/-- The position is stored for the user. -/
def AlertStore.Holds (s : AlertStore) (userId : ℤ) (x : Position) : Prop :=
  (∃ l ∈ s.locations, l.userId = userId ∧ l.position = x) ∨ ∃ p ∈ s.preferences, p.userId = userId ∧ p.At x

variable {g : Settings} {s t : AlertStore} {q : Request} {u v now clock : ℤ} {x : Position}
  {locations : LocationTable} {preferences : PreferencesTable} {p : Preferences} {l : UserLocation}

theorem Preferences.At.located (h : p.At x) : p.located = true := by
  simp [Preferences.located, h.latitude]

theorem not_at_unlocated : ¬ p.unlocated.At x := by
  intro h
  exact absurd h.latitude (by simp [Preferences.unlocated])

/-- What is left after the positions of one user are cleared. -/
theorem at_of_clear (h : p ∈ clearLegacyNotificationLocation v preferences) (hx : p.At x) :
    p ∈ preferences ∧ p.userId ≠ v := by
  obtain ⟨r, hr, hrp⟩ := Table.mem_update.mp h
  by_cases hcond : (decide (r.userId = v) && r.located) = true
  · rw [if_pos hcond] at hrp
    exact absurd (hrp ▸ hx) not_at_unlocated
  · rw [if_neg hcond] at hrp
    subst hrp
    refine ⟨hr, fun huser => hcond ?_⟩
    simp [huser, hx.located]

/-- What is left after the old positions are dropped. -/
theorem at_of_cleanup {scope : Option ℤ}
    (h : p ∈ cleanupExpiredLegacyNotificationLocations g now scope preferences) (hx : p.At x) :
    p ∈ preferences ∧ (scope.all (p.userId = ·) = true → now - g.retention ≤ x.updatedAt) := by
  obtain ⟨r, hr, hrp⟩ := Table.mem_update.mp h
  by_cases hcond : (r.expired g now && scope.all (r.userId = ·)) = true
  · rw [if_pos hcond] at hrp
    exact absurd (hrp ▸ hx) not_at_unlocated
  · rw [if_neg hcond] at hrp
    subst hrp
    refine ⟨hr, fun hscope => ?_⟩
    rw [hscope, Bool.and_true] at hcond
    have hold : ¬ x.updatedAt < now - g.retention := by
      intro hlt
      apply hcond
      simp [Preferences.expired, hx.located, hx.updatedAt, hlt]
    omega

/-- A row of defaults has no position. -/
theorem at_of_ensure {preferences' : PreferencesTable} (h : ensurePreferences v now preferences = some preferences')
    (hp : p ∈ preferences') (hx : p.At x) : p ∈ preferences := by
  unfold ensurePreferences at h
  split_ifs at h with hfound
  · rw [Option.some.inj h]
    exact hp
  · rcases (Table.mem_insert h).mp hp with hp | rfl
    · exact hp
    · exact absurd hx.latitude (by simp [defaultPreferences])

/-- The position of a row that is updated is the one that was sent, if one was. -/
theorem at_of_updated {updates : Updates} (h : (p.updated updates now).At x) :
    updates.position = none ∧ p.At x ∨ updates.position = some (some x) := by
  have hlat := h.latitude
  have hlng := h.longitude
  have hat := h.updatedAt
  cases hposition : updates.position with
  | none =>
    simp only [Preferences.updated, hposition, Option.map_none, Option.getD_none] at hlat hlng hat
    exact Or.inl ⟨rfl, hlat, hlng, hat⟩
  | some position =>
    simp only [Preferences.updated, hposition, Option.map_some, Option.getD_some] at hlat hlng hat
    obtain ⟨y, rfl, hylat⟩ := Option.map_eq_some_iff.mp hlat
    have hylng : y.longitude = x.longitude := by simpa using hlng
    have hyat : y.updatedAt = x.updatedAt := by simpa using hat
    have hyx : y = x := by
      cases y
      cases x
      simp_all
    rw [hyx]
    exact Or.inr rfl

/-- The one row of the user is written over, or a row is new. -/
theorem position_of_upsert {new : UserLocation} {locations' : LocationTable}
    (h : upsertLocation new locations = some locations') (hl : l ∈ locations') :
    l.userId = new.userId ∧ l.position = new.position ∨ l.userId ≠ new.userId ∧ l ∈ locations := by
  rcases mem_upsert h hl with ⟨r, hr, rfl⟩ | ⟨hmem, hother⟩ | rfl
  · exact Or.inl ⟨by simpa [UserLocation.moved] using hr, rfl⟩
  · exact Or.inr ⟨by simpa using hother, hmem⟩
  · exact Or.inl ⟨rfl, rfl⟩

/-! ### What the requests do to them -/

theorem checkPosition_eq_ok {latitude longitude : Field Number}
    (h : checkPosition clock latitude longitude = .ok (some (some x))) :
    latitude = some (some (.finite x.latitude)) ∧ longitude = some (some (.finite x.longitude)) ∧
      clock = x.updatedAt := by
  unfold checkPosition at h
  split at h
  case h_6 =>
    exact absurd h (by simp)
  case h_7 lat lng =>
    split at h
    · next a b ha hb =>
      have hx : (⟨a, b, clock⟩ : Position) = x := by simpa using h
      subst hx
      rw [coordinate?_eq_some ha, coordinate?_eq_some hb]
      exact ⟨rfl, rfl, rfl⟩
    · exact absurd h (by simp)
  all_goals exact absurd h (by simp)

theorem checkUpdates_position {payload : NotificationPreferencesRequest} {updates : Updates}
    (h : checkUpdates clock payload = .ok updates) :
    checkPosition clock payload.latitude payload.longitude = .ok updates.position := by
  unfold checkUpdates at h
  obtain ⟨enabled, henabled, h1⟩ := bind_eq_ok.mp h
  obtain ⟨fuelType, hfuel, h2⟩ := bind_eq_ok.mp h1
  obtain ⟨radius, hradius, h3⟩ := bind_eq_ok.mp h2
  obtain ⟨favorites, hfavorites, h4⟩ := bind_eq_ok.mp h3
  obtain ⟨position, hposition, h5⟩ := bind_eq_ok.mp h4
  rw [← Except.ok.inj h5]
  exact hposition

/-- The request posts the position for the user. -/
inductive Posts (userId : ℤ) (x : Position) : Request → Prop where
  | location {payload} (lat : payload.lat = .finite x.latitude) (lng : payload.lng = .finite x.longitude) :
      Posts userId x (.putLocation userId x.updatedAt payload)
  | preferences {now payload} (lat : payload.latitude = some (some (.finite x.latitude)))
      (lng : payload.longitude = some (some (.finite x.longitude))) :
      Posts userId x (.putPreferences userId x.updatedAt now payload)

/-- No earlier position of the user is left after the request. -/
def Request.clears (userId : ℤ) : Request → Bool
  | .putLocation u _ _ => u = userId
  | .deleteLocation u => u = userId
  | .deleteAccount u => u = userId
  | _ => false

theorem holds_of_tables (h : t.Holds u x) (hl : t.locations = s.locations)
    (hp : ∀ p ∈ t.preferences, p.At x → p ∈ s.preferences) : s.Holds u x := by
  rcases h with ⟨l, hmem, hl'⟩ | ⟨p, hmem, huser, hx⟩
  · exact Or.inl ⟨l, hl ▸ hmem, hl'⟩
  · exact Or.inr ⟨p, hp p hmem hx, huser, hx⟩

/-- A position that is stored after a request is posted by it, or was stored
before and is not cleared. -/
theorem served_holds (h : serve g q s = .ok t) (ht : t.Holds u x) : Posts u x q ∨ s.Holds u x ∧ q.clears u = false := by
  cases served h with
  | register => exact Or.inr ⟨ht, rfl⟩
  | @deleteAccount w =>
    rcases ht with ⟨l, hl, huser, hx⟩ | ⟨p, hp, huser, hx⟩
    · obtain ⟨hmem, hother⟩ := Table.mem_delete.mp hl
      exact Or.inr ⟨Or.inl ⟨l, hmem, huser, hx⟩, by simpa [Request.clears, huser, eq_comm] using hother⟩
    · obtain ⟨hmem, hother⟩ := Table.mem_delete.mp hp
      exact Or.inr ⟨Or.inr ⟨p, hmem, huser, hx⟩, by simpa [Request.clears, huser, eq_comm] using hother⟩
  | @putLocation w now payload lat lng accuracy source locations hlat hlng upsert =>
    rcases ht with ⟨l, hl, huser, hx⟩ | ⟨p, hp, huser, hx⟩
    · rcases position_of_upsert upsert hl with ⟨hsame, hposition⟩ | ⟨hother, hmem⟩
      · obtain rfl : x = ⟨lat, lng, now⟩ := hx.symm.trans hposition
        obtain rfl : u = w := huser.symm.trans hsame
        exact Or.inl (Posts.location hlat hlng)
      · exact Or.inr ⟨Or.inl ⟨l, hmem, huser, hx⟩, by simpa [Request.clears, huser, eq_comm] using hother⟩
    · obtain ⟨hmem, hother⟩ := at_of_clear hp hx
      exact Or.inr ⟨Or.inr ⟨p, hmem, huser, hx⟩, by simpa [Request.clears, huser, eq_comm] using hother⟩
  | @deleteLocation w =>
    rcases ht with ⟨l, hl, huser, hx⟩ | ⟨p, hp, huser, hx⟩
    · obtain ⟨hmem, hother⟩ := Table.mem_delete.mp hl
      exact Or.inr ⟨Or.inl ⟨l, hmem, huser, hx⟩, by simpa [Request.clears, huser, eq_comm] using hother⟩
    · obtain ⟨hmem, hother⟩ := at_of_clear hp hx
      exact Or.inr ⟨Or.inr ⟨p, hmem, huser, hx⟩, by simpa [Request.clears, huser, eq_comm] using hother⟩
  | getPreferences ensure =>
    exact Or.inr ⟨holds_of_tables ht rfl fun p hp hx => (at_of_cleanup (at_of_ensure ensure hp hx) hx).1, rfl⟩
  | @putPreferences w clock now payload updates preferences hupdates ensure =>
    rcases ht with hl | ⟨p, hp, huser, hx⟩
    · exact Or.inr ⟨Or.inl hl, rfl⟩
    · have hkept : ∀ r ∈ preferences, r.At x → r ∈ s.preferences := fun r hr hr' =>
        (at_of_cleanup (at_of_ensure ensure hr hr') hr').1
      rcases mem_applyUpdates hp with hmem | ⟨r, hr, hrw, rfl⟩
      · exact Or.inr ⟨Or.inr ⟨p, hkept p hmem hx, huser, hx⟩, rfl⟩
      · obtain rfl : u = w := huser.symm.trans hrw
        rcases at_of_updated hx with ⟨-, hr'⟩ | hsent
        · exact Or.inr ⟨Or.inr ⟨r, hkept r hr hr', hrw, hr'⟩, rfl⟩
        · have hcheck := checkUpdates_position hupdates
          rw [hsent] at hcheck
          obtain ⟨hlat, hlng, rfl⟩ := checkPosition_eq_ok hcheck
          exact Or.inl (Posts.preferences hlat hlng)
  | postToken => exact Or.inr ⟨ht, rfl⟩
  | deleteToken => exact Or.inr ⟨ht, rfl⟩
  | testPushInvalid => exact Or.inr ⟨ht, rfl⟩

/-! ### Runs -/

/-- A position of a run's row is a stored one: all of it comes from one table. -/
theorem subject_holds {k : Subject} (h : k ∈ selectSubjects s) (hlat : k.latitude = some x.latitude)
    (hlng : k.longitude = some x.longitude) (hat : k.locationUpdatedAt = some x.updatedAt) : s.Holds k.userId x := by
  obtain ⟨p, hp, rfl⟩ := List.mem_map.mp h
  have hmem : p ∈ s.preferences := (List.mem_filter.mp (orderBy_perm.mem_iff.mp hp)).1
  unfold subjectOf at hlat hlng hat ⊢
  dsimp only at hlat hlng hat ⊢
  cases hl : s.locations.find? fun l => l.userId = p.userId with
  | none =>
    rw [hl] at hlat hlng hat
    exact Or.inr ⟨p, hmem, rfl, hlat, hlng, hat⟩
  | some l =>
    rw [hl] at hlat hlng hat
    have huser : l.userId = p.userId := by simpa using Table.find?_prop hl
    refine Or.inl ⟨l, Table.find?_mem hl, huser, ?_⟩
    cases x
    simp_all [UserLocation.position]

/-- What the start of a run leaves is not older than the retention. -/
theorem cleanedUp_holds {recovery : Recovery} (h : (cleanedUp g now recovery s).Holds u x) :
    s.Holds u x ∧ now - g.retention ≤ x.updatedAt := by
  rcases h with ⟨l, hl, huser, hx⟩ | ⟨p, hp, huser, hx⟩
  · obtain ⟨hmem, hyoung⟩ := Table.mem_delete.mp hl
    have hle : now - g.retention ≤ l.updatedAt := by simpa using hyoung
    subst hx
    exact ⟨Or.inl ⟨l, hmem, huser, rfl⟩, hle⟩
  · obtain ⟨hmem, hyoung⟩ := at_of_cleanup hp hx
    exact ⟨Or.inr ⟨p, hmem, huser, hx⟩, hyoung rfl⟩

section Runs

variable {ι : Type*} [DecidableEq ι] {s₀ s₁ s₂ : System ι} {w : ι} {a : Action ι} {e : Event}
  {log l₁ l₂ : List (Action ι × Event)}

/-- An entry of the log that posts the position. -/
def posts (userId : ℤ) (x : Position) (c : Action ι × Event) : Prop := ∃ q, c.1 = .request q ∧ Posts userId x q

def clears (userId : ℤ) (c : Action ι × Event) : Prop := ∃ q, c.1 = .request q ∧ q.clears userId = true

/-- The position was posted, or there from the start, and not cleared since. -/
def Posted (s : System ι) (userId : ℤ) (x : Position) (log : List (Action ι × Event)) : Prop :=
  SinceStart (s.store.Holds userId x) (fun _ => posts userId x) (clears userId) log

omit [DecidableEq ι] in
theorem turn_holds {t : AlertStore} {k : Worker} {k' : Option Worker} (h : Turn g s k a e k' t) (ht : t.Holds u x) :
    s.Holds u x := by
  cases h <;> exact holds_of_tables ht rfl fun _ hp _ => hp

theorem step_holds (h : step g a s₁ = .ok (e, s₂)) (ht : s₂.store.Holds u x) :
    posts u x (a, e) ∨ s₁.store.Holds u x ∧ ¬ clears u (a, e) := by
  have hnot : ∀ v, a.worker? = some v → ¬ clears u (a, e) := by
    rintro v hv ⟨q, hq, -⟩
    obtain rfl : a = .request q := hq
    exact absurd hv (by simp [Action.worker?])
  cases step_effect h with
  | @request q t served =>
    rcases served_holds served ht with hposts | ⟨hs, hkeeps⟩
    · exact Or.inl ⟨q, rfl, hposts⟩
    · refine Or.inr ⟨hs, ?_⟩
      rintro ⟨q', hq, hclears⟩
      obtain rfl : q = q' := by simpa using hq
      rw [hkeeps] at hclears
      exact absurd hclears (by simp)
  | start idle => exact Or.inr ⟨(cleanedUp_holds ht).1, hnot _ rfl⟩
  | turn takes works turn => exact Or.inr ⟨turn_holds turn ht, hnot _ takes⟩
  | leave => exact Or.inr ⟨ht, hnot _ rfl⟩

theorem posted_of_holds (h : Run (step g) s₀ log s₁) (hx : s₁.store.Holds u x) : Posted s₀ u x log :=
  h.since (fun _ _ _ _ _ _ hop ht => step_holds hop ht) hx

/-- After a request that clears without posting, a stored position was posted
again. -/
theorem posted_again {q : Request} {out : Event} (h : Run (step g) s₀ (l₁ ++ (.request q, out) :: l₂) s₁)
    (hclears : q.clears u = true) (hq : ¬ Posts u x q) (hx : s₁.store.Holds u x) : ∃ c ∈ l₂, posts u x c := by
  obtain ⟨before, c, after, rfl, hc, -⟩ := (posted_of_holds h hx).of_break ⟨q, rfl, hclears⟩ (by
    rintro ⟨q', hq', hposts⟩
    obtain rfl : q = q' := by simpa using hq'
    exact hq hposts)
  exact ⟨c, by simp, hc⟩

/-- After the start of a run, what is older than its retention was posted
later. -/
theorem posted_after_start {successful configured : Bool} {recovery : Recovery} {out : Event}
    (h : Run (step g) s₀ (l₁ ++ (.start w successful configured now recovery, out) :: l₂) s₁)
    (hold : x.updatedAt < now - g.retention) (hx : s₁.store.Holds u x) : ∃ c ∈ l₂, posts u x c := by
  rw [List.append_cons] at h
  obtain ⟨y, hrun, hafter⟩ := h.split_append
  obtain ⟨z, -, hop⟩ := hrun.last
  rcases posted_of_holds hafter hx with ⟨before, c, after, rfl, hc, -⟩ | ⟨hy, -⟩
  · exact ⟨c, by simp, hc⟩
  · cases step_effect hop with
    | start idle =>
      have hyoung := (cleanedUp_holds hy).2
      omega
    | turn takes works turn => cases turn with
      | skip devices records subject held turn => exact absurd turn (by simp [Action.moves])
      | go devices records subject held turn => exact absurd turn (by simp [Action.moves])

/-! ### The position of an alert -/

/-- The worker still has to look at the user. -/
def Awaits (w : ι) (k : Subject) (s : System ι) : Prop := ∃ j, s.workers w = some j ∧ k ∈ j.todo

omit [DecidableEq ι] in
/-- No transaction of a worker adds a user. -/
theorem turn_todo {t : AlertStore} {j j' : Worker} {k : Subject} (h : Turn g s j a e (some j') t) (hk : k ∈ j'.todo) :
    k ∈ j.todo := by
  cases h with
  | pass phase todo => rw [todo]; exact List.mem_cons_of_mem _ hk
  | select phase todo => rw [todo]; exact List.mem_cons_of_mem _ hk
  | skip | go | push | report | finalize => exact hk

/-- The entry is the start of `w`, before which a position of `k` had been
posted. -/
def StartedWith (s : System ι) (w : ι) (k : Subject) (before : List (Action ι × Event)) (c : Action ι × Event) : Prop :=
  starts w c ∧ ∀ x : Position, k.latitude = some x.latitude → k.longitude = some x.longitude →
    k.locationUpdatedAt = some x.updatedAt → Posted s k.userId x before

theorem awaits_since (hidle : ∀ w, s₀.workers w = none) (h : Run (step g) s₀ log s₁) {k : Subject}
    (hk : Awaits w k s₁) : Since (StartedWith s₀ w k) (borders w) log := by
  have hfirst : ¬ Awaits w k s₀ := by
    rintro ⟨j, hj, -⟩
    rw [hidle] at hj
    exact absurd hj (by simp)
  refine (h.since (fun l y a e z hrun hop hz => ?_) hk).resolve_right fun hs => hfirst hs.1
  obtain ⟨j, hj, hmem⟩ := hz
  cases step_seen hop w with
  | other takes same => exact Or.inr ⟨⟨j, same ▸ hj, hmem⟩, fun hb => takes (worker?_of_borders hb)⟩
  | start after =>
    obtain rfl := Option.some.inj (after.symm.trans hj)
    refine Or.inl ⟨⟨_, _, _, _, rfl⟩, fun x hlat hlng hat => ?_⟩
    exact posted_of_holds hrun (cleanedUp_holds (subject_holds hmem hlat hlng hat)).1
  | turn takes works turn =>
    rw [hj] at turn
    exact Or.inr ⟨⟨_, works, turn_todo turn hmem⟩, turn_borders turn⟩
  | leave after => exact absurd (after.symm.trans hj) (by simp)

/-- Where a user is not passed over, the position is whole and fresh. -/
theorem passedOver_eq_none {configured : Bool} {k : Subject} {devices : List DeviceToken}
    (h : passedOver g configured now k devices = none) : ∃ x : Position, k.latitude = some x.latitude ∧
      k.longitude = some x.longitude ∧ k.locationUpdatedAt = some x.updatedAt ∧ now - g.maxAge ≤ x.updatedAt := by
  unfold passedOver at h
  split_ifs at h with h1 h2 h3 h4 h5
  obtain ⟨hlat', hlng'⟩ : k.latitude ≠ none ∧ k.longitude ≠ none := by simpa using h3
  obtain ⟨lat, hlat⟩ := Option.ne_none_iff_exists'.mp hlat'
  obtain ⟨lng, hlng⟩ := Option.ne_none_iff_exists'.mp hlng'
  cases hat : k.locationUpdatedAt with
  | none => exact absurd h4 (by simp [hat, isUserLocationFresh])
  | some updatedAt => exact ⟨⟨lat, lng, updatedAt⟩, hlat, hlng, rfl, by simpa [hat, isUserLocationFresh] using h4⟩

/-- The position of an alert was posted by the user and not cleared before its
run started, and is fresh when the devices are selected. -/
theorem selected_position (hidle : ∀ w, s₀.workers w = none) (h : Run (step g) s₀ log s₁) :
    ∀ l₁ w now k devices l₂, log = l₁ ++ (.select w now, .selected k devices) :: l₂ →
      ∃ x : Position, k.latitude = some x.latitude ∧ k.longitude = some x.longitude ∧
        k.locationUpdatedAt = some x.updatedAt ∧ now - g.maxAge ≤ x.updatedAt ∧
        Since (fun before c => starts w c ∧ Posted s₀ k.userId x before) (borders w) l₁ := by
  rintro l₁ w now k devices l₂ rfl
  rw [List.append_cons] at h
  obtain ⟨y, hrun, -⟩ := h.split_append
  obtain ⟨z, hz, hop⟩ := hrun.last
  cases step_effect hop with
  | turn takes works turn => cases turn with
    | select phase todo why =>
      obtain ⟨x, hlat, hlng, hat, hfresh⟩ := passedOver_eq_none why
      have hv := takes
      obtain rfl := Option.some.inj takes
      refine ⟨x, hlat, hlng, hat, hfresh, ?_⟩
      have hsince := awaits_since hidle hz ⟨_, works, by rw [todo]; exact List.mem_cons_self⟩
      exact hsince.mono (fun before c after _ hc => ⟨hc.1, hc.2 x hlat hlng hat⟩) fun _ hb => hb
    | go devices records subject held turn goes => exact absurd turn (by simp [Action.moves])

/-- A stored position was posted by its user and has not been cleared since; one
that a deletion or a run would have dropped was posted after it; and what is
shown is one of them, and fresh. -/
theorem stored_positions (h : Run (step g) s₀ log s₁) :
    (∀ u x, s₁.store.Holds u x → Posted s₀ u x log ∧
      (∀ l₁ q out l₂, log = l₁ ++ (.request q, out) :: l₂ → q = .deleteLocation u ∨ q = .deleteAccount u →
        ∃ c ∈ l₂, posts u x c) ∧
      ∀ l₁ w successful configured now recovery out l₂,
        log = l₁ ++ (.start w successful configured now recovery, out) :: l₂ → x.updatedAt < now - g.retention →
          ∃ c ∈ l₂, posts u x c) ∧
    ∀ u now l stale, getCurrentUserLocation g u now s₁.store = (some l, stale) →
      s₁.store.Holds u l.position ∧ now - g.maxAge ≤ l.updatedAt ∧ stale = false := by
  refine ⟨fun u x hx => ⟨posted_of_holds h hx, ?_, ?_⟩, ?_⟩
  · rintro l₁ q out l₂ rfl (rfl | rfl)
    · exact posted_again h (by simp [Request.clears]) (by rintro ⟨⟩) hx
    · exact posted_again h (by simp [Request.clears]) (by rintro ⟨⟩) hx
  · rintro l₁ w successful configured now recovery out l₂ rfl hold
    exact posted_after_start h hold hx
  · intro u now l stale hget
    unfold getCurrentUserLocation at hget
    dsimp only at hget
    split_ifs at hget with hstale
    · exact absurd hget (by simp)
    · obtain ⟨hfind, rfl⟩ := Prod.mk.inj hget
      rw [hfind] at hstale
      have huser : l.userId = u := by simpa using Table.find?_prop hfind
      exact ⟨Or.inl ⟨l, Table.find?_mem hfind, huser, rfl⟩, by simpa [isUserLocationFresh] using hstale, rfl⟩

end Runs

theorem stored_positions_sample :
    sampleAlertRun.2.store.Holds 1 ⟨45, 9, 10⟩ ∧ Posted noAlerts 1 ⟨45, 9, 10⟩ sampleAlertRun.1 := by
  have hmem : (⟨1, 45, 9, none, none, 10, 10⟩ : UserLocation) ∈ sampleAlertRun.2.store.locations.rows := by
    decide +kernel
  have hholds : sampleAlertRun.2.store.Holds 1 ⟨45, 9, 10⟩ := Or.inl ⟨_, Table.mem_def.mpr hmem, rfl, rfl⟩
  exact ⟨hholds, ((stored_positions run_sampleAlerts).1 1 ⟨45, 9, 10⟩ hholds).1⟩

theorem selected_position_sample : ∃ l₁ now k devices l₂, k.userId = 1 ∧
    sampleAlertRun.1 = l₁ ++ (.select () now, .selected k devices) :: l₂ ∧
    ∃ x : Position, k.latitude = some x.latitude ∧ k.longitude = some x.longitude ∧
      k.locationUpdatedAt = some x.updatedAt ∧ now - sampleAlertSettings.maxAge ≤ x.updatedAt ∧
      Since (fun before c => starts () c ∧ Posted noAlerts 1 x before) (borders ()) l₁ := by
  have hsome : ∃ c ∈ sampleAlertRun.1, selection c = some (1, ["a1"]) := by decide +kernel
  obtain ⟨c, hc, hselection⟩ := hsome
  obtain ⟨w, now, k, rfl, huser⟩ := selection_eq_some hselection
  obtain ⟨l₁, l₂, hl⟩ := List.append_of_mem hc
  refine ⟨l₁, now, k, ["a1"], l₂, huser, hl, ?_⟩
  rw [← huser]
  exact selected_position (fun _ => rfl) run_sampleAlerts l₁ () now k ["a1"] l₂ hl

end Alerts
end FuelNear
