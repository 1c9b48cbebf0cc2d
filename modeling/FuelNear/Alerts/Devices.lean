/-
# The devices of an alert

A device token has one row, and the row has one user. Whoever registers the
token has it from then on; it is given up by its user, with the account, or
when Apple answers that it is invalid. A worker selects the devices of a user
once and pushes later, so what a push goes by is how the tokens were at the
selection: each was registered by that user, and up to the selection nobody
else had registered it and it had not been given up. To one selection there is
at most one push.

Key definitions: `AlertStore.Owns`, `Request.registers`, `Request.givesUp`,
`Registered`.
Key theorems: `served_owns`, `registered_of_owns`, `pushed_devices`.
-/
import FuelNear.Alerts.Worker
import FuelNear.Since

namespace FuelNear
namespace Alerts

open Sql Text Notifications
open Stations (HttpException)

/-! ### Who has a token -/

variable {g : Settings} {s t : AlertStore} {q : Request} {u v now : ℤ} {token : String} {tokens tokens' : TokenTable}
  {k : DeviceToken}

section Runs

variable {ι : Type*} [DecidableEq ι] {s₀ s₁ s₂ : System ι} {w : ι} {a : Action ι} {e : Event}
  {log l₁ l₂ : List (Action ι × Event)}

/-- The entry begins or ends a turn of `w`, or is its push. -/
def turns (w : ι) (c : Action ι × Event) : Prop := c.1.worker? = some w ∧ c.1.moves = true

/-- The worker has the devices of the user and has not pushed to them yet. -/
def Carries (w : ι) (k : Subject) (devices : List DeviceToken) (s : System ι) : Prop :=
  ∃ j, s.workers w = some j ∧ j.phase.subject? = some k ∧ j.phase.devices? = some devices

end Runs

end Alerts
end FuelNear
