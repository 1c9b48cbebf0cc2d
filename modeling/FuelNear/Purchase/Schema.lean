/-
# What the creator ledger writes is legal

The status, the amount and the currency of a conversion event stand under two
CHECKs and in a NUMERIC(18,6). Whatever row of `apple_transactions` they are
derived from, and whatever event is there already, what
`record_creator_apple_conversion` writes passes the CHECKs and is kept exactly.
So only the texts of a row, its ids, can have a write refused and a purchase
rolled back (`record_violation`, `process_violation`).

Key definitions: `Legal`, `writtenValue`.
Key theorems: `written_legal`, `recorded_legal`, `run_legal`, `creator_writes_satisfy_schema`.
-/
import FuelNear.Numeric
import FuelNear.Purchase.Process

namespace FuelNear
namespace Purchase

open Sql Apple Text Creator

/-! ### The values that are written -/

/-- The economic columns pass their CHECKs, and the amount is kept exactly. -/
structure Legal (status : AppleCreatorEconomicStatus) (value : Option ℚ × Option String) : Prop where
  amountCurrency : amountCurrencyCheck value.1 value.2 = true
  economicValue : economicValueCheck status value.1 value.2 = true
  exact : ∀ a ∈ value.1, Numeric.stored 18 6 a = some a

def LegalEvent (e : ConversionEvent) : Prop := Legal e.economicStatus (e.amount, e.currency)

/-- The amount and the currency of the INSERT, or of the UPDATE of an event. -/
def writtenValue (state : AppleCreatorEconomicState) : Option ConversionEvent → Option ℚ × Option String
  | none => (state.amount, state.currency)
  | some e => desiredValue state e

/-- A price in milliunits has at most twelve digits before its three decimals. -/
theorem evidence_amount_fits {e : AppleEconomicEvidence} {a : ℚ} (h : e.amount = some a) : Numeric.Fits 18 6 a := by
  cases e with
  | absent => exact absurd h (by simp [AppleEconomicEvidence.amount, AppleEconomicEvidence.priceMilliunits])
  | invalid reason => exact absurd h (by simp [AppleEconomicEvidence.amount, AppleEconomicEvidence.priceMilliunits])
  | valid p c hp hc =>
    obtain rfl : (p : ℚ) / 1000 = a := Option.some.inj h
    have hfits : Numeric.Fits 18 6 ((p : ℚ) / 10 ^ 3) := by
      apply Numeric.fits_of_units (by norm_num)
      rw [abs_of_nonneg hp.1]
      have hmax : p ≤ 999999999999999 := hp.2
      norm_num
      omega
    norm_num at hfits
    exact hfits

/-- The derived amount is the price of the row. -/
theorem derived_amount {r : AppleRow} {a : ℚ} (h : (deriveAppleCreatorEconomicState r).amount = some a) :
    (rowEvidence r).amount = some a := by
  revert h
  unfold deriveAppleCreatorEconomicState
  cases deriveAppleBaseEconomicStatus r <;> rcases r.economicAdjustment with _ | (_ | _ | _ | _) <;> simp

theorem derived_legal (r : AppleRow) : Legal (deriveAppleCreatorEconomicState r).status
    ((deriveAppleCreatorEconomicState r).amount, (deriveAppleCreatorEconomicState r).currency) := by
  obtain ⟨hamount, hvalue⟩ := Bool.and_eq_true_iff.mp (derived_valueCheck r)
  exact ⟨hamount, hvalue, fun a ha => Numeric.stored_of_fits (evidence_amount_fits (derived_amount ha))⟩

/-- The price recorded before is good for a refund and a revocation too. -/
theorem desired_legal {e : ConversionEvent} {state : AppleCreatorEconomicState}
    (hstate : Legal state.status (state.amount, state.currency)) (he : LegalEvent e) :
    Legal state.status (desiredValue state e) := by
  have hcheck := desiredValue_check (e := e)
    (Bool.and_eq_true_iff.mpr ⟨hstate.amountCurrency, hstate.economicValue⟩)
    (Bool.and_eq_true_iff.mpr ⟨he.amountCurrency, he.economicValue⟩)
  obtain ⟨hamount, hvalue⟩ := Bool.and_eq_true_iff.mp hcheck
  refine ⟨hamount, hvalue, fun a ha => ?_⟩
  unfold desiredValue at ha
  split_ifs at ha
  · exact he.exact a ha
  · exact hstate.exact a ha

/-- What is written is legal, whatever the row and the event before it. -/
theorem written_legal (r : AppleRow) {e : Option ConversionEvent} (he : ∀ x ∈ e, LegalEvent x) :
    Legal (deriveAppleCreatorEconomicState r).status (writtenValue (deriveAppleCreatorEconomicState r) e) := by
  cases e with
  | none => exact derived_legal r
  | some x => exact desired_legal (derived_legal r) (he x rfl)

/-! ### The writes -/

section Writes

variable {c : AppleConversion} {apple : AppleTable} {s s' : Ledger} {out : Option CreatorAppleConversionResult}
  {v : Violation}

/-- An event with legal economic columns is refused for its texts only. -/
theorem insertConversion_violation {a : CreatorAttribution} {t : ConversionType}
    (hvalue : valueCheck c.economicState.status c.economicState.amount c.economicState.currency = true)
    (h : insertConversion c a t s = .error (.violation v)) :
    textCheck (strip c.transactionId) = false ∨ textCheck (strip c.productId) = false := by
  unfold insertConversion at h
  dsimp only at h
  split at h
  · split at h
    · exact absurd h (by simp)
    · split_ifs at h
      exact absurd h (by simp)
  · next w hne hinsert =>
    rcases Checked.insert_error hinsert with rfl | ⟨-, hcheck⟩
    · exact absurd rfl hne
    · by_contra hne
      simp only [not_or, Bool.not_eq_false] at hne
      have hpass : (newEvent (nextEventId s.events) c a t).check = true := by
        simp [ConversionEvent.check, newEvent, hne.1, hne.2, hvalue]
      rw [hpass] at hcheck
      exact absurd hcheck (by simp)
  · exact absurd h (by simp)

/-- The UPDATE of a stored event with legal columns is never refused. -/
theorem updateConversion_violation {a : CreatorAttribution} {e : ConversionEvent} (he : e ∈ s.events)
    (hvalue : valueCheck c.economicState.status c.economicState.amount c.economicState.currency = true) :
    updateConversion c a e s ≠ .error (.violation v) := by
  intro h
  unfold updateConversion at h
  split_ifs at h
  · exact absurd h (by simp)
  · obtain ⟨u, hu⟩ := bringUpToDate_completes he hvalue
    rw [hu] at h
    exact absurd h (by simp [bind, Except.bind, pure, Except.pure])

/-- Only the id of the transaction, or the product id, can have a write refused. -/
theorem record_violation
    (hvalue : valueCheck c.economicState.status c.economicState.amount c.economicState.currency = true)
    (h : recordCreatorAppleConversion c apple s = .error (.violation v)) :
    textCheck (strip c.transactionId) = false ∨ textCheck (strip c.productId) = false := by
  unfold recordCreatorAppleConversion at h
  rcases bind_eq_error.mp h with hcheck | ⟨_, -, h⟩
  · unfold checkConversion at hcheck
    split_ifs at hcheck <;> exact absurd hcheck (by simp)
  split_ifs at h
  · exact absurd h (by simp [pure, Except.pure])
  split at h
  · exact absurd h (by simp [pure, Except.pure])
  unfold recordAttributed at h
  split_ifs at h
  split at h
  · next e he =>
    rcases bind_eq_error.mp h with hupdate | ⟨_, -, hpure⟩
    · exact absurd hupdate (updateConversion_violation (eventByKey_iff.mp he).1 hvalue)
    · exact absurd hpure (by simp [pure, Except.pure])
  · unfold recordNew at h
    split at h
    · exact absurd h (by simp)
    · split_ifs at h
      rcases bind_eq_error.mp h with hinsert | ⟨_, -, hpure⟩
      · exact insertConversion_violation hvalue hinsert
      · exact absurd hpure (by simp [pure, Except.pure])

/-- The derived value of a row is legal, so its texts decide. -/
theorem conversion_violation {userId : ℤ} {r : AppleRow}
    (h : recordCreatorAppleConversion (conversionOf userId r) apple s = .error (.violation v)) :
    textCheck (strip r.transactionId) = false ∨ textCheck (strip r.productId) = false := by
  obtain ⟨c, hc⟩ : ∃ c, conversionOf userId r = c := ⟨_, rfl⟩
  have hvalue : valueCheck c.economicState.status c.economicState.amount c.economicState.currency = true := by
    rw [← hc]
    exact derived_valueCheck r
  have htransaction : c.transactionId = r.transactionId := by rw [← hc]; rfl
  have hproduct : c.productId = r.productId := by rw [← hc]; rfl
  rw [hc] at h
  rw [← htransaction, ← hproduct]
  exact record_violation hvalue h

/-- A completed call leaves legal events. -/
theorem recorded_legal {userId : ℤ} {r : AppleRow} (h : Recorded (conversionOf userId r) apple s out s')
    (hs : ∀ e ∈ s.events, LegalEvent e) : ∀ e ∈ s'.events, LegalEvent e := by
  cases h with
  | revoked date kept => exact hs
  | unattributed noAttribution => exact hs
  | early attribution before => exact hs
  | unrecorded attribution new left => exact hs
  | @updated a e events q live attribution date found same written answer =>
    intro x hx
    have hmem : x ∈ events.toTable := hx
    rw [written, Table.mem_update] at hmem
    obtain ⟨y, hy, rfl⟩ := hmem
    by_cases hid : y.id = e.id
    · obtain rfl := event_eq_of_id hy (eventByKey_iff.mp found).1 hid
      rw [if_pos (by simp)]
      exact written_legal (e := some y) r fun z hz => Option.some.inj hz ▸ hs y hy
    · rw [if_neg (by simpa using hid)]
      exact hs y hy
  | @inserted a t events q live attribution date new identity counts written answer =>
    intro x hx
    rcases (Table.mem_insert (Checked.insert_ok written)).mp hx with hx | rfl
    · exact hs x hx
    · exact derived_legal r

end Writes

/-! ### Purchases and claims -/

theorem within_eq_error {ε α : Type*} {f : ε → PurchaseError} {x : Except ε α} {e : PurchaseError}
    (h : within f x = .error e) : ∃ d, x = .error d ∧ f d = e := by
  cases x with
  | ok y => exact absurd h (by simp [within])
  | error d => exact ⟨d, rfl, Except.error.inj h⟩

/-- What the creator ledger refuses in a purchase, it refuses for the texts of
the saved row. -/
theorem process_violation {c : ProcessCall} {db : Db} {v : Violation}
    (h : processAppleTransaction c db = .error (.conversion (.violation v))) :
    ∃ n saved t, SaveCompleted db.accounts n db.apple saved t ∧
      (textCheck (strip saved.row.transactionId) = false ∨ textCheck (strip saved.row.productId) = false) := by
  unfold processAppleTransaction at h
  rcases bind_eq_error.mp h with h | ⟨n, -, h⟩
  · obtain ⟨d, -, hd⟩ := within_eq_error h
    exact absurd hd (by simp)
  rcases bind_eq_error.mp h with h | ⟨⟨saved, store⟩, hsave, h⟩
  · obtain ⟨d, -, hd⟩ := within_eq_error h
    cases d <;> exact absurd hd (by simp [ProcessError.toPurchaseError])
  refine ⟨n, saved, store.apple, (processTransaction_ok (within_ok.mp hsave)).1, ?_⟩
  cases howner : n.owner with
  | guest guestId =>
    rw [howner] at h
    exact absurd h (by simp [pure, Except.pure])
  | user userId =>
    rw [howner] at h
    rcases bind_eq_error.mp h with h | ⟨_, -, h⟩
    · obtain ⟨d, hrecord, hd⟩ := within_eq_error h
      obtain rfl := PurchaseError.conversion.inj hd
      unfold recordSaved at hrecord
      split_ifs at hrecord
      rcases bind_eq_error.mp hrecord with hcall | ⟨_, -, hpure⟩
      · exact conversion_violation hcall
      · exact absurd hpure (by simp [pure, Except.pure])
    · rcases bind_eq_error.mp h with h | ⟨_, -, h⟩
      · obtain ⟨d, -, hd⟩ := within_eq_error h
        exact absurd hd (by simp)
      · exact absurd h (by simp [pure, Except.pure])

theorem recordSaved_legal {userId : ℤ} {notificationType : Option String} {saved : AppleTransactionSaveResult}
    {apple : AppleTable} {s s' : Ledger} {l : List CreatorAppleConversionResult}
    (h : recordSaved userId notificationType saved apple s = .ok (l, s')) (hs : ∀ e ∈ s.events, LegalEvent e) :
    ∀ e ∈ s'.events, LegalEvent e := by
  unfold recordSaved at h
  split_ifs at h
  · obtain ⟨⟨out, s₁⟩, hrecord, h⟩ := bind_eq_ok.mp h
    obtain ⟨-, rfl⟩ := Prod.mk.inj (Except.ok.inj h)
    exact recorded_legal (recorded_of_ok hrecord) hs
  · obtain ⟨-, rfl⟩ := Prod.mk.inj (Except.ok.inj h)
    exact hs

theorem recordRows_legal {userId : ℤ} {apple : AppleTable} : ∀ {rows : List AppleRow} {s s' : Ledger}
    {l : List CreatorAppleConversionResult}, recordRows userId apple rows s = .ok (l, s') →
    (∀ e ∈ s.events, LegalEvent e) → ∀ e ∈ s'.events, LegalEvent e
  | [], s, s', l, h, hs => by
    obtain ⟨-, rfl⟩ := Prod.mk.inj (Except.ok.inj h)
    exact hs
  | r :: rows, s, s', l, h, hs => by
    rw [recordRows] at h
    obtain ⟨⟨out, s₁⟩, hrecord, h⟩ := bind_eq_ok.mp h
    obtain ⟨⟨rest, s₂⟩, hrows, h⟩ := bind_eq_ok.mp h
    obtain ⟨-, rfl⟩ := Prod.mk.inj (Except.ok.inj h)
    exact recordRows_legal hrows (recorded_legal (recorded_of_ok hrecord) hs)

/-- Every run of purchases and claims keeps the events legal. -/
theorem run_legal {db db' : Db} {log : CallLog} (h : Run handle db log db') (hdb : ∀ e ∈ db.ledger.events, LegalEvent e) :
    ∀ e ∈ db'.ledger.events, LegalEvent e := by
  refine h.invariant (P := fun x => ∀ e ∈ x.ledger.events, LegalEvent e) ?_ hdb
  intro c x out y hx hop
  cases c with
  | process c =>
    obtain ⟨o, hcall, rfl⟩ := handle_process hop
    obtain ⟨n, saved, hprocessed⟩ := processed_of_ok hcall
    cases howner : n.owner with
    | user userId => exact recordSaved_legal (hprocessed.ofUser userId howner) hx
    | guest guestId =>
      rw [(hprocessed.ofGuest (by rw [NormalizedTransaction.userId, howner]; rfl)).1]
      exact hx
  | claim c =>
    obtain ⟨o, hcall, rfl⟩ := handle_claim hop
    obtain ⟨store, hclaimed⟩ := claimed_of_ok hcall
    exact recordRows_legal hclaimed.record hx

/-- **Creator event writes satisfy the schema.** For every row of
`apple_transactions` and every legal event, or none, what is inserted or
updated is legal; the call is refused for the texts of the row alone, and
leaves legal events; so it is for every purchase, and over every run of
purchases and claims. -/
theorem creator_writes_satisfy_schema :
    (∀ (r : AppleRow) (e : Option ConversionEvent), (∀ x ∈ e, LegalEvent x) →
      Legal (deriveAppleCreatorEconomicState r).status (writtenValue (deriveAppleCreatorEconomicState r) e)) ∧
    (∀ (r : AppleRow) (userId : ℤ) (apple : AppleTable) (s : Ledger) (v : Violation),
      recordCreatorAppleConversion (conversionOf userId r) apple s = .error (.violation v) →
        textCheck (strip r.transactionId) = false ∨ textCheck (strip r.productId) = false) ∧
    (∀ (r : AppleRow) (userId : ℤ) (apple : AppleTable) (s s' : Ledger) (out : Option CreatorAppleConversionResult),
      (∀ e ∈ s.events, LegalEvent e) → recordCreatorAppleConversion (conversionOf userId r) apple s = .ok (out, s') →
        ∀ e ∈ s'.events, LegalEvent e) ∧
    (∀ (c : ProcessCall) (db : Db) (v : Violation),
      processAppleTransaction c db = .error (.conversion (.violation v)) →
        ∃ n saved t, SaveCompleted db.accounts n db.apple saved t ∧
          (textCheck (strip saved.row.transactionId) = false ∨ textCheck (strip saved.row.productId) = false)) ∧
    ∀ (db db' : Db) (log : CallLog), Run handle db log db' → (∀ e ∈ db.ledger.events, LegalEvent e) →
      ∀ e ∈ db'.ledger.events, LegalEvent e := by
  refine ⟨fun r e he => written_legal r he, fun r userId apple s v h => ?_, fun r userId apple s s' out hs h => ?_,
    fun c db v h => process_violation h, fun db db' log h hdb => run_legal h hdb⟩
  · exact conversion_violation h
  · exact recorded_legal (recorded_of_ok h) hs

end Purchase
end FuelNear
