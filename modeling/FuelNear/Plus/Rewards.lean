/-
# The stored rewards

A row of `rewards` with the referral it is for. A referral has at most one
reward, by the partial unique index; rewards for no referral are not limited
by the table. The reconciliation reads the rows without the referral.

Key definitions: `StoredReward`, `StoredRewards`, `StoredRewards.rewards`.
-/
import FuelNear.Plus.Tables

namespace FuelNear
namespace Plus

open Sql

/-- A row of `rewards`. -/
structure StoredReward extends Reward where
  referralId : Option ℤ
  deriving DecidableEq

/-- The primary key, and `idx_rewards_unique_referral_id`. -/
def StoredReward.keys (r : StoredReward) : List (ℤ ⊕ ℤ) := .inl r.id :: r.referralId.toList.map .inr

abbrev StoredRewards := Table StoredReward StoredReward.keys

namespace StoredRewards

theorem ids_sublist : ∀ l : List StoredReward, (l.map fun r => (Sum.inl r.id : ℤ ⊕ ℤ)).Sublist (l.flatMap StoredReward.keys)
  | [] => List.Sublist.refl _
  | r :: l => by
    rw [List.map_cons, List.flatMap_cons]
    exact ((List.nil_sublist _).append (ids_sublist l)).cons_cons _

/-- The rows as the reconciliation reads them. -/
def rewards (t : StoredRewards) : RewardTable where
  rows := t.rows.map (·.toReward)
  unique := by
    have hids : ((t.rows.map (·.id)).map (Sum.inl : ℤ → ℤ ⊕ ℤ)).Nodup := by
      rw [List.map_map]
      exact t.unique.sublist (ids_sublist t.rows)
    have hkeys : (t.rows.map (·.toReward)).flatMap Reward.keys = t.rows.map (·.id) := by
      rw [List.flatMap_map]
      exact List.map_eq_flatMap.symm
    rw [hkeys]
    exact hids.of_map _

/-- An id later than every id of the table. -/
def nextId (t : StoredRewards) : ℤ := (t.rows.map (·.id)).foldr max 0 + 1

end StoredRewards

end Plus
end FuelNear
