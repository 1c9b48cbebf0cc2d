/-
# Price evidence of an Apple transaction

`normalize_apple_economic_evidence`: a price in milliunits and a currency
are evidence only as a pair, in range, and in a known currency. Valid
evidence carries the proof of both.

Key definitions: `PyObject`, `AppleEconomicEvidence`,
`normalizeAppleEconomicEvidence`.
Key theorems: `normalizeAppleEconomicEvidence_valid`.
-/
import FuelNear.Text
import Mathlib.Data.Rat.Defs

namespace FuelNear
namespace Apple

open Text

/-- A value of a decoded payload, as far as the code tells them apart. -/
inductive PyObject where
  | int (n : ℤ)
  | str (s : String)
  | other
  deriving DecidableEq

def maxApplePriceMilliunits : ℤ := 999999999999999

/-- The currencies accepted for Apple transaction prices. -/
def iso4217CurrencyCodes : List String :=
  ["AED", "AFN", "ALL", "AMD", "ANG", "AOA", "ARS", "AUD", "AWG", "AZN", "BAM", "BBD", "BDT", "BGN",
   "BHD", "BIF", "BMD", "BND", "BOB", "BOV", "BRL", "BSD", "BTN", "BWP", "BYN", "BZD", "CAD", "CDF",
   "CHE", "CHF", "CHW", "CLF", "CLP", "CNY", "COP", "COU", "CRC", "CUC", "CUP", "CVE", "CZK", "DJF",
   "DKK", "DOP", "DZD", "EGP", "ERN", "ETB", "EUR", "FJD", "FKP", "GBP", "GEL", "GHS", "GIP", "GMD",
   "GNF", "GTQ", "GYD", "HKD", "HNL", "HTG", "HUF", "IDR", "ILS", "INR", "IQD", "IRR", "ISK", "JMD",
   "JOD", "JPY", "KES", "KGS", "KHR", "KMF", "KPW", "KRW", "KWD", "KYD", "KZT", "LAK", "LBP", "LKR",
   "LRD", "LSL", "LYD", "MAD", "MDL", "MGA", "MKD", "MMK", "MNT", "MOP", "MRU", "MUR", "MVR", "MWK",
   "MXN", "MXV", "MYR", "MZN", "NAD", "NGN", "NIO", "NOK", "NPR", "NZD", "OMR", "PAB", "PEN", "PGK",
   "PHP", "PKR", "PLN", "PYG", "QAR", "RON", "RSD", "RUB", "RWF", "SAR", "SBD", "SCR", "SDG", "SEK",
   "SGD", "SHP", "SLE", "SOS", "SRD", "SSP", "STN", "SVC", "SYP", "SZL", "THB", "TJS", "TMT", "TND",
   "TOP", "TRY", "TTD", "TWD", "TZS", "UAH", "UGX", "USD", "USN", "UYI", "UYU", "UYW", "UZS", "VED",
   "VES", "VND", "VUV", "WST", "XAF", "XCD", "XCG", "XDR", "XOF", "XPF", "XSU", "XUA", "YER", "ZAR",
   "ZMW", "ZWG"]

/-- `AppleEconomicEvidence`: the price and the currency are there only when
the status is `VALID`, the reason only when it is `INVALID`. -/
inductive AppleEconomicEvidence where
  | absent
  | valid (priceMilliunits : ℤ) (currency : String)
      (inRange : 0 ≤ priceMilliunits ∧ priceMilliunits ≤ maxApplePriceMilliunits)
      (known : currency ∈ iso4217CurrencyCodes)
  | invalid (reason : String)
  deriving DecidableEq

namespace AppleEconomicEvidence

def priceMilliunits : AppleEconomicEvidence → Option ℤ
  | valid p _ _ _ => some p
  | _ => none

def currency : AppleEconomicEvidence → Option String
  | valid _ c _ _ => some c
  | _ => none

def isValid : AppleEconomicEvidence → Bool
  | valid _ _ _ _ => true
  | _ => false

/-- The `amount` property: the price in units. -/
def amount (e : AppleEconomicEvidence) : Option ℚ := e.priceMilliunits.map fun p => (p : ℚ) / 1000

end AppleEconomicEvidence

/-- `len(c) == 3 and c.isascii() and c.isalpha()`. -/
def currencyFormat (c : String) : Bool :=
  c.toList.length == 3 && c.toList.all fun x => x.toNat < 128 && x.isAlpha

/-- The checks of the currency, once the price is known to be in range. -/
def currencyEvidence (p : ℤ) (hp : 0 ≤ p ∧ p ≤ maxApplePriceMilliunits) (c : String) : AppleEconomicEvidence :=
  if currencyFormat (upper (strip c)) then
    if hc : upper (strip c) ∈ iso4217CurrencyCodes then .valid p (upper (strip c)) hp hc
    else .invalid "unknown_currency"
  else .invalid "invalid_currency_format"

/-- `normalize_apple_economic_evidence`. -/
def normalizeAppleEconomicEvidence (price currency : Option PyObject) : AppleEconomicEvidence :=
  match price, currency with
  | none, none => .absent
  | none, some _ => .invalid "incomplete_pair"
  | some _, none => .invalid "incomplete_pair"
  | some (.int p), some c =>
    if hp : 0 ≤ p ∧ p ≤ maxApplePriceMilliunits then
      match c with
      | .str c => currencyEvidence p hp c
      | _ => .invalid "invalid_currency_type"
    else .invalid "price_out_of_range"
  | some _, some _ => .invalid "invalid_price_type"

/-- Normalizing valid evidence again gives the same evidence. -/
theorem normalizeAppleEconomicEvidence_valid {p : ℤ} {c : String}
    (hp : 0 ≤ p ∧ p ≤ maxApplePriceMilliunits) (hc : c ∈ iso4217CurrencyCodes) :
    normalizeAppleEconomicEvidence (some (.int p)) (some (.str c)) = .valid p c hp hc := by
  have hcodes : ∀ c ∈ iso4217CurrencyCodes, upper (strip c) = c ∧ currencyFormat c = true := by
    decide +kernel
  obtain ⟨h1, h2⟩ := hcodes c hc
  simp [normalizeAppleEconomicEvidence, currencyEvidence, hp, h1, h2, hc]

end Apple
end FuelNear
