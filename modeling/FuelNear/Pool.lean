/-
# The slots of the connection pool

`get_connection` takes a permit of a semaphore and then a connection of
psycopg2's pool, and the wrapper gives both back when it is closed; entered
again, it takes both again. Every thread stands somewhere in a call on its
own wrapper, and the steps of different threads interleave.

A permit that is taken is in the hand of a call, until there is a wrapper that
is not returned, or again after the wrapper is marked as returned
(`Place.inHand`). So the free permits, the live wrappers and the permits in
hand add up to the capacity at every moment, and where no call has one in hand
the first two do.

Key definitions: `Wrapper`, `Move`, `Step`, `Reachable`, `Balanced`.
Key theorems: `Move.permits`, `Move.counted`, `Move.held`, `reachable_balanced`, `pool_slots_balance`.
-/
import Mathlib.Data.List.Nodup
import Mathlib.Data.Set.Insert
import Mathlib.Logic.Relation
import Mathlib.Tactic

namespace FuelNear
namespace Pool

/-- Where a thread stands in a call on its wrapper. -/
inductive Place (Raw : Type*) where
  /-- between two calls -/
  | outside
  /-- `_acquire_raw_connection`, before the permit -/
  | acquire
  /-- with the permit, before the connection -/
  | getconn
  /-- with the connection, before the wrapper has it -/
  | got (raw : Raw)
  /-- `getconn` has raised -/
  | giveBack
  /-- in `__enter__`, before that of the connection -/
  | rawEnter
  /-- in `__exit__`, before that of the connection -/
  | rawExit
  /-- in `close`, before `if self._returned` -/
  | close
  /-- with `_returned` set -/
  | putconn
  /-- `putconn` has raised -/
  | discard
  /-- in `finally` -/
  | release

/-- A call of `get_connection` and the wrapper that it makes. -/
structure Wrapper (Raw : Type*) where
  /-- `_raw_connection`; `none` as long as there is no wrapper -/
  raw : Option Raw
  /-- `_returned` -/
  returned : Bool
  place : Place Raw

/-- The semaphore and the pool. The numbers of permits taken and given back
are there to be compared. -/
structure Slots (Raw : Type*) where
  free : ℕ
  acquired : ℕ
  released : ℕ
  /-- the connections that the pool has handed out -/
  used : Set Raw

section

variable {Raw : Type*} {capacity : ℕ}

/-- `connection_slots.acquire`, which has found a permit. -/
def Slots.acquire (p : Slots Raw) : Slots Raw := { p with free := p.free - 1, acquired := p.acquired + 1 }

/-- `connection_slots.release`; with all permits free it raises. -/
def Slots.release (capacity : ℕ) (p : Slots Raw) : Slots Raw :=
  if p.free < capacity then { p with free := p.free + 1, released := p.released + 1 } else p

/-- One step of a thread in a call on its wrapper. -/
inductive Move (capacity : ℕ) (p : Slots Raw) (w : Wrapper Raw) : Slots Raw → Wrapper Raw → Prop where
  -- `_acquire_raw_connection`
  | timesOut (here : w.place = .acquire) : Move capacity p w p { w with place := .outside }
  | acquires (here : w.place = .acquire) (permit : 0 < p.free) :
      Move capacity p w p.acquire { w with place := .getconn }
  | getconn {raw : Raw} (here : w.place = .getconn) (unused : raw ∉ p.used) :
      Move capacity p w { p with used := insert raw p.used } { w with place := .got raw }
  /-- `PoolError`, or another `Exception` -/
  | getconnRaises (here : w.place = .getconn) : Move capacity p w p { w with place := .giveBack }
  | givesBack (here : w.place = .giveBack) : Move capacity p w (p.release capacity) { w with place := .outside }
  -- the constructor, and the rest of `__enter__`
  | made {raw : Raw} (here : w.place = .got raw) (new : w.raw = none) : Move capacity p w p ⟨some raw, false, .outside⟩
  | madeAgain {raw : Raw} (here : w.place = .got raw) (old : w.raw.isSome) :
      Move capacity p w p ⟨some raw, false, .rawEnter⟩
  | enter (here : w.place = .outside) (there : w.raw.isSome) :
      Move capacity p w p { w with place := if w.returned then .acquire else .rawEnter }
  | rawEntered (here : w.place = .rawEnter) : Move capacity p w p { w with place := .outside }
  | rawEnterRaises (here : w.place = .rawEnter) : Move capacity p w p { w with place := .close }
  -- `__exit__`, whatever that of the connection does
  | exit (here : w.place = .outside) (there : w.raw.isSome) : Move capacity p w p { w with place := .rawExit }
  | rawExited (here : w.place = .rawExit) : Move capacity p w p { w with place := .close }
  -- `close`
  | close (here : w.place = .outside) (there : w.raw.isSome) : Move capacity p w p { w with place := .close }
  | returnedAlready (here : w.place = .close) (returned : w.returned = true) :
      Move capacity p w p { w with place := .outside }
  | returns (here : w.place = .close) (live : w.returned = false) :
      Move capacity p w p { w with returned := true, place := .putconn }
  | putconn {raw : Raw} (here : w.place = .putconn) (holds : w.raw = some raw) :
      Move capacity p w { p with used := p.used \ {raw} } { w with place := .release }
  /-- The pool may or may not have taken the connection back. -/
  | putconnRaises {raw : Raw} {used : Set Raw} (here : w.place = .putconn) (holds : w.raw = some raw)
      (most : used ⊆ p.used) (others : p.used \ {raw} ⊆ used) :
      Move capacity p w { p with used := used } { w with place := .discard }
  | discards (here : w.place = .discard) : Move capacity p w p { w with place := .release }
  | releases (here : w.place = .release) : Move capacity p w (p.release capacity) { w with place := .outside }

/-- The pool and every call of `get_connection` so far. -/
structure State (Raw : Type*) where
  slots : Slots Raw
  wrappers : List (Wrapper Raw)

inductive Step (capacity : ℕ) : State Raw → State Raw → Prop where
  | getConnection {s : State Raw} : Step capacity s { s with wrappers := s.wrappers ++ [⟨none, true, .acquire⟩] }
  | move {p p' : Slots Raw} {w w' : Wrapper Raw} {l l' : List (Wrapper Raw)} (step : Move capacity p w p' w') :
      Step capacity ⟨p, l ++ w :: l'⟩ ⟨p', l ++ w' :: l'⟩

/-- `get_connection_pool` has made the pool. -/
def State.initial (Raw : Type*) (capacity : ℕ) : State Raw where
  slots := ⟨capacity, 0, 0, ∅⟩
  wrappers := []

/-- Any number of steps of any threads, in any order. -/
def Reachable (capacity : ℕ) (s : State Raw) : Prop :=
  Relation.ReflTransGen (Step capacity) (State.initial Raw capacity) s

/-! ### Permits -/

/-- A call has a permit in hand: it has taken one that no live wrapper has
yet, or has to give back that of a wrapper marked as returned. -/
def Place.inHand : Place Raw → Bool
  | .getconn | .got _ | .giveBack | .putconn | .discard | .release => true
  | _ => false

/-- A wrapper that is not returned. -/
def Wrapper.live (w : Wrapper Raw) : Bool := !w.returned

/-- The permits that the wrapper accounts for. -/
def Wrapper.permits (w : Wrapper Raw) : ℕ := (if w.live = true then 1 else 0) + if w.place.inHand = true then 1 else 0

/-- A live wrapper has a connection, and no call on it is after a permit. -/
structure Wrapper.Ok (w : Wrapper Raw) : Prop where
  raw : w.returned = false → w.raw.isSome
  live : w.returned = false → w.place.inHand = false ∧ w.place ≠ .acquire
  closing : w.place = .putconn → w.raw.isSome

/-- The connection that the wrapper holds, or the call on it. -/
def Wrapper.heldRaw (w : Wrapper Raw) : Option Raw :=
  match w.place with
  | .got raw => some raw
  | .putconn => w.raw
  | _ => if w.returned then none else w.raw

variable {p p' : Slots Raw} {w w' : Wrapper Raw}

/-- A wrapper on which a call is after a permit, or has one, is returned. -/
theorem Wrapper.Ok.returned (hw : w.Ok) (h : w.place.inHand = true ∨ w.place = .acquire) : w.returned = true := by
  by_contra hlive
  obtain ⟨hhand, hacquire⟩ := hw.live (by simpa using hlive)
  rcases h with h | h
  · exact absurd h (by simp [hhand])
  · exact hacquire h

/-- A live wrapper holds its connection. -/
theorem Wrapper.Ok.holds (hw : w.Ok) (h : w.live = true) : ∃ raw, w.raw = some raw ∧ w.heldRaw = some raw := by
  have hlive : w.returned = false := by simpa [Wrapper.live] using h
  obtain ⟨raw, hraw⟩ := Option.isSome_iff_exists.mp (hw.raw hlive)
  refine ⟨raw, hraw, ?_⟩
  have hhand := (hw.live hlive).1
  unfold Wrapper.heldRaw
  cases hplace : w.place <;> simp_all [Place.inHand]

theorem Move.ok (h : Move capacity p w p' w') (hw : w.Ok) : w'.Ok := by
  have hreturned := hw.returned
  have hmoved : ∀ place : Place Raw, (w.returned = false → place.inHand = false ∧ place ≠ .acquire) → place ≠ .putconn →
      Wrapper.Ok { w with place := place } := fun place hlive hclosing =>
    ⟨hw.raw, hlive, fun hc => absurd hc hclosing⟩
  cases h with
  | timesOut here => exact hmoved _ (fun _ => ⟨rfl, by simp⟩) (by simp)
  | acquires here permit => exact hmoved _ (fun hl => absurd (hreturned (.inr here)) (by simp [hl])) (by simp)
  | getconn here unused =>
    exact hmoved _ (fun hl => absurd (hreturned (.inl (by simp [here, Place.inHand]))) (by simp [hl])) (by simp)
  | getconnRaises here =>
    exact hmoved _ (fun hl => absurd (hreturned (.inl (by simp [here, Place.inHand]))) (by simp [hl])) (by simp)
  | givesBack here => exact hmoved _ (fun _ => ⟨rfl, by simp⟩) (by simp)
  | made here new => exact ⟨fun _ => rfl, fun _ => ⟨rfl, by simp⟩, fun hc => absurd hc (by simp)⟩
  | madeAgain here old => exact ⟨fun _ => rfl, fun _ => ⟨rfl, by simp⟩, fun hc => absurd hc (by simp)⟩
  | enter here there =>
    refine hmoved _ (fun hl => ?_) ?_
    · rw [hl]
      exact ⟨rfl, by simp⟩
    · split_ifs <;> exact nofun
  | rawEntered here => exact hmoved _ (fun _ => ⟨rfl, by simp⟩) (by simp)
  | rawEnterRaises here => exact hmoved _ (fun _ => ⟨rfl, by simp⟩) (by simp)
  | exit here there => exact hmoved _ (fun _ => ⟨rfl, by simp⟩) (by simp)
  | rawExited here => exact hmoved _ (fun _ => ⟨rfl, by simp⟩) (by simp)
  | close here there => exact hmoved _ (fun _ => ⟨rfl, by simp⟩) (by simp)
  | returnedAlready here returned => exact hmoved _ (fun _ => ⟨rfl, by simp⟩) (by simp)
  | returns here live => exact ⟨fun hl => absurd hl (by simp), fun hl => absurd hl (by simp), fun _ => hw.raw live⟩
  | putconn here holds =>
    exact hmoved _ (fun hl => absurd (hreturned (.inl (by simp [here, Place.inHand]))) (by simp [hl])) (by simp)
  | putconnRaises here holds most others =>
    exact hmoved _ (fun hl => absurd (hreturned (.inl (by simp [here, Place.inHand]))) (by simp [hl])) (by simp)
  | discards here =>
    exact hmoved _ (fun hl => absurd (hreturned (.inl (by simp [here, Place.inHand]))) (by simp [hl])) (by simp)
  | releases here => exact hmoved _ (fun _ => ⟨rfl, by simp⟩) (by simp)

/-- A permit goes from the semaphore to the hand of a call, from there to a
live wrapper, and back. -/
theorem Move.permits (h : Move capacity p w p' w') (hw : w.Ok) (hroom : w.place.inHand = true → p.free < capacity) :
    p'.free + w'.permits = p.free + w.permits := by
  have hreturned : w.place.inHand = true → w.returned = true := fun hhand => hw.returned (.inl hhand)
  have hrelease : w.place.inHand = true → (p.release capacity).free = p.free + 1 := by
    intro hplace
    rw [Slots.release, if_pos (hroom hplace)]
  cases h with
  | acquires here permit =>
    simp [Wrapper.permits, Wrapper.live, Slots.acquire, here, Place.inHand]
    omega
  | givesBack here =>
    have hhand : w.place.inHand = true := by simp [here, Place.inHand]
    simp [Wrapper.permits, Wrapper.live, hrelease hhand, here, Place.inHand]
    omega
  | releases here =>
    have hhand : w.place.inHand = true := by simp [here, Place.inHand]
    simp [Wrapper.permits, Wrapper.live, hrelease hhand, here, Place.inHand]
    omega
  | made here new =>
    have hhand : w.place.inHand = true := by simp [here, Place.inHand]
    simp [Wrapper.permits, Wrapper.live, hreturned hhand, here, Place.inHand]
  | madeAgain here old =>
    have hhand : w.place.inHand = true := by simp [here, Place.inHand]
    simp [Wrapper.permits, Wrapper.live, hreturned hhand, here, Place.inHand]
  | enter here there =>
    cases hr : w.returned <;> simp [Wrapper.permits, Wrapper.live, here, hr, Place.inHand]
  | returns here live => simp [Wrapper.permits, Wrapper.live, here, live, Place.inHand]
  | _ => simp_all [Wrapper.permits, Wrapper.live, Place.inHand]

/-- What is free, and what was given back, are what there was and was taken. -/
theorem Move.counted (h : Move capacity p w p' w') : p'.free + p'.acquired + p.released = p.free + p.acquired + p'.released := by
  have hrelease : (p.release capacity).free + (p.release capacity).acquired + p.released =
      p.free + p.acquired + (p.release capacity).released := by
    unfold Slots.release
    split_ifs
    · dsimp only
      omega
    · rfl
  cases h with
  | acquires here permit =>
    simp only [Slots.acquire]
    omega
  | givesBack here => exact hrelease
  | releases here => exact hrelease
  | _ => rfl

/-! ### Connections -/

/-- A step hands out a connection that nobody holds, lets one go, or changes
nothing about them. -/
theorem Move.held (h : Move capacity p w p' w') (hw : w.Ok) :
    (w'.heldRaw = w.heldRaw ∧ p'.used = p.used) ∨
      (∃ raw, raw ∉ p.used ∧ w.heldRaw = none ∧ w'.heldRaw = some raw ∧ p'.used = insert raw p.used) ∨
      ∃ raw, w.heldRaw = some raw ∧ w'.heldRaw = none ∧ p.used \ {raw} ⊆ p'.used := by
  have hreturned : w.place.inHand = true → w.returned = true := fun hhand => hw.returned (.inl hhand)
  have hrelease : (p.release capacity).used = p.used := by
    unfold Slots.release
    split_ifs <;> rfl
  cases h with
  | getconn here unused =>
    have hhand : w.place.inHand = true := by simp [here, Place.inHand]
    refine .inr (.inl ⟨_, unused, ?_, rfl, rfl⟩)
    simp [Wrapper.heldRaw, here, hreturned hhand]
  | putconn here holds =>
    have hhand : w.place.inHand = true := by simp [here, Place.inHand]
    refine .inr (.inr ⟨_, ?_, ?_, subset_rfl⟩)
    · simp [Wrapper.heldRaw, here, holds]
    · simp [Wrapper.heldRaw, hreturned hhand]
  | putconnRaises here holds most others =>
    have hhand : w.place.inHand = true := by simp [here, Place.inHand]
    refine .inr (.inr ⟨_, ?_, ?_, others⟩)
    · simp [Wrapper.heldRaw, here, holds]
    · simp [Wrapper.heldRaw, hreturned hhand]
  | givesBack here => exact .inl ⟨by simp [Wrapper.heldRaw, here], hrelease⟩
  | releases here => exact .inl ⟨by simp [Wrapper.heldRaw, here], hrelease⟩
  | enter here there => exact .inl ⟨by cases hr : w.returned <;> simp [Wrapper.heldRaw, here, hr], rfl⟩
  | returns here live => exact .inl ⟨by simp [Wrapper.heldRaw, here, live], rfl⟩
  | made here new => exact .inl ⟨by simp [Wrapper.heldRaw, here], rfl⟩
  | madeAgain here old => exact .inl ⟨by simp [Wrapper.heldRaw, here], rfl⟩
  | _ => exact .inl ⟨by simp_all [Wrapper.heldRaw], rfl⟩

/-! ### The balance -/

/-- The live wrappers. -/
def State.live (s : State Raw) : ℕ := s.wrappers.countP Wrapper.live

/-- The permits in the hand of a call. -/
def State.inHand (s : State Raw) : ℕ := s.wrappers.countP fun w => w.place.inHand

/-- Connections are held once, and the pool knows them as used. -/
structure State.Held (s : State Raw) : Prop where
  once : (s.wrappers.filterMap Wrapper.heldRaw).Nodup
  used : ∀ w ∈ s.wrappers, ∀ raw, w.heldRaw = some raw → raw ∈ s.slots.used

structure State.Balanced (capacity : ℕ) (s : State Raw) : Prop where
  ok : ∀ w ∈ s.wrappers, w.Ok
  permits : s.slots.free + (s.wrappers.map Wrapper.permits).sum = capacity
  counted : s.slots.free + s.slots.acquired = capacity + s.slots.released
  held : s.Held

theorem State.permits_eq (s : State Raw) : (s.wrappers.map Wrapper.permits).sum = s.live + s.inHand := by
  unfold State.live State.inHand
  induction s.wrappers with
  | nil => rfl
  | cons w l ih =>
    rw [List.map_cons, List.sum_cons, ih, List.countP_cons, List.countP_cons, Wrapper.permits]
    omega

/-- A call with a permit in hand keeps one from being free. -/
theorem State.Balanced.room {s : State Raw} (h : s.Balanced capacity) (hw : w ∈ s.wrappers)
    (hhand : w.place.inHand = true) : s.slots.free < capacity := by
  have hle : w.permits ≤ (s.wrappers.map Wrapper.permits).sum :=
    List.single_le_sum (fun _ _ => Nat.zero_le _) _ (List.mem_map.mpr ⟨w, hw, rfl⟩)
  have hone : 1 ≤ w.permits := by
    rw [Wrapper.permits, if_pos hhand]
    exact Nat.le_add_left 1 _
  have := h.permits
  omega

theorem initial_balanced : (State.initial Raw capacity).Balanced capacity where
  ok w hw := absurd hw (by simp [State.initial])
  permits := rfl
  counted := rfl
  held := ⟨List.nodup_nil, fun w hw => absurd hw (by simp [State.initial])⟩

/-- A step changes what one wrapper, or the call on it, holds. -/
theorem Move.keeps_held {l l' : List (Wrapper Raw)} (h : Move capacity p w p' w') (hw : w.Ok)
    (hs : State.Held ⟨p, l ++ w :: l'⟩) : State.Held ⟨p', l ++ w' :: l'⟩ := by
  obtain ⟨honce, hused⟩ := hs
  dsimp only at honce hused
  rw [List.filterMap_append, List.filterMap_cons] at honce
  have hothers : ∀ x ∈ l ++ l', ∀ raw, x.heldRaw = some raw → raw ∈ p.used := by
    intro x hx
    apply hused x
    rcases List.mem_append.mp hx with hx | hx
    · exact List.mem_append_left _ hx
    · exact List.mem_append_right _ (List.mem_cons_of_mem _ hx)
  have hmem : ∀ x ∈ l ++ w' :: l', x = w' ∨ x ∈ l ++ l' := by
    intro x hx
    rcases List.mem_append.mp hx with hx | hx
    · exact .inr (List.mem_append_left _ hx)
    · exact (List.mem_cons.mp hx).imp id (List.mem_append_right _)
  rcases h.held hw with ⟨hsame, hpool⟩ | ⟨raw, hfree, hnone, hsome, hpool⟩ | ⟨raw, hsome, hnone, hpool⟩
  · constructor
    · rw [List.filterMap_append, List.filterMap_cons, hsame]
      exact honce
    · intro x hx r hr
      rw [hpool]
      rcases hmem x hx with rfl | hx
      · exact hused w (by simp) r (hsame ▸ hr)
      · exact hothers x hx r hr
  · rw [hnone] at honce
    have hnot : raw ∉ (l ++ l').filterMap Wrapper.heldRaw := by
      intro hraw
      obtain ⟨x, hx, hr⟩ := List.mem_filterMap.mp hraw
      exact hfree (hothers x hx raw hr)
    constructor
    · rw [List.filterMap_append, List.filterMap_cons, hsome]
      rw [List.filterMap_append] at hnot
      exact List.nodup_middle.mpr (List.nodup_cons.mpr ⟨hnot, honce⟩)
    · intro x hx r hr
      rw [hpool]
      rcases hmem x hx with rfl | hx
      · rw [hsome] at hr
        exact .inl (Option.some.inj hr).symm
      · exact .inr (hothers x hx r hr)
  · rw [hsome] at honce
    obtain ⟨hnot, hrest⟩ := List.nodup_cons.mp (List.nodup_middle.mp honce)
    rw [← List.filterMap_append] at hnot
    constructor
    · rw [List.filterMap_append, List.filterMap_cons, hnone]
      exact hrest
    · intro x hx r hr
      rcases hmem x hx with rfl | hx
      · exact absurd hr (by simp [hnone])
      · refine hpool ⟨hothers x hx r hr, fun heq => hnot (List.mem_filterMap.mpr ⟨x, hx, ?_⟩)⟩
        rw [hr, heq]

theorem Step.balanced {s s' : State Raw} (h : Step capacity s s') (hs : s.Balanced capacity) : s'.Balanced capacity := by
  cases h with
  | getConnection =>
    constructor
    case ok =>
      intro w hw
      rcases List.mem_append.mp hw with hw | hw
      · exact hs.ok w hw
      · rw [List.mem_singleton.mp hw]
        exact ⟨nofun, nofun, nofun⟩
    case permits =>
      rw [List.map_append, List.sum_append]
      exact hs.permits
    case counted => exact hs.counted
    case held =>
      constructor
      · rw [List.filterMap_append]
        simpa [Wrapper.heldRaw] using hs.held.once
      · intro w hw raw hraw
        rcases List.mem_append.mp hw with hw | hw
        · exact hs.held.used w hw raw hraw
        · rw [List.mem_singleton.mp hw] at hraw
          exact absurd hraw (by simp [Wrapper.heldRaw])
  | @move p p' w w' l l' step =>
    have hw : w.Ok := hs.ok w (by simp)
    have hroom : w.place.inHand = true → p.free < capacity := fun hhand => hs.room (w := w) (by simp) hhand
    constructor
    case ok =>
      intro x hx
      rcases List.mem_append.mp hx with hx | hx
      · exact hs.ok x (List.mem_append_left _ hx)
      · rcases List.mem_cons.mp hx with rfl | hx
        · exact step.ok hw
        · exact hs.ok x (by simp [hx])
    case permits =>
      have hold := hs.permits
      have hmove := step.permits hw hroom
      simp only [List.map_append, List.map_cons, List.sum_append, List.sum_cons] at hold ⊢
      omega
    case counted =>
      have hold := hs.counted
      have hmove := step.counted
      dsimp only at hold ⊢
      omega
    case held => exact step.keeps_held hw hs.held

theorem reachable_balanced {s : State Raw} (h : Reachable capacity s) : s.Balanced capacity := by
  induction h with
  | refl => exact initial_balanced
  | tail _ hstep ih => exact hstep.balanced ih

/-- **The slots of the pool balance.** At every moment of every interleaving
the free permits, the live wrappers and the permits in the hand of a call add
up to the capacity, so wherever no call is between its permit and its wrapper,
the first two do. No more permits are given back than were taken, a call that
is about to give one back finds room for it, and no connection is that of two
live wrappers. -/
theorem pool_slots_balance {s : State Raw} (h : Reachable capacity s) :
    s.slots.free + s.live + s.inHand = capacity ∧
      ((∀ w ∈ s.wrappers, w.place.inHand = false) → s.slots.free + s.live = capacity) ∧
      s.slots.released ≤ s.slots.acquired ∧
      (∀ w ∈ s.wrappers, w.place = .giveBack ∨ w.place = .release → s.slots.free < capacity) ∧
      (∀ w ∈ s.wrappers, w.live = true → w.raw.isSome) ∧
      ((s.wrappers.filter Wrapper.live).map Wrapper.raw).Nodup := by
  have hs := reachable_balanced h
  have hsum : s.slots.free + s.live + s.inHand = capacity := by
    rw [Nat.add_assoc, ← s.permits_eq]
    exact hs.permits
  refine ⟨hsum, fun hnone => ?_, ?_, fun w hw hplace => ?_, fun w hw hlive => ?_, ?_⟩
  · have hzero : s.inHand = 0 := List.countP_eq_zero.mpr fun w hw => by simp [hnone w hw]
    rw [hzero] at hsum
    exact hsum
  · have := hs.counted
    omega
  · refine hs.room hw ?_
    rcases hplace with hplace | hplace <;> rw [hplace] <;> rfl
  · exact (hs.ok w hw).raw (by simpa [Wrapper.live] using hlive)
  · rw [List.Nodup, List.pairwise_map]
    have honce := List.pairwise_filterMap.mp hs.held.once
    refine (honce.sublist List.filter_sublist).imp_of_mem fun {w x} hw hx hne heq => ?_
    obtain ⟨hw, hwlive⟩ := List.mem_filter.mp hw
    obtain ⟨hx, hxlive⟩ := List.mem_filter.mp hx
    obtain ⟨raw, hraw, hheld⟩ := (hs.ok w hw).holds hwlive
    obtain ⟨raw', hraw', hheld'⟩ := (hs.ok x hx).holds hxlive
    rw [hraw, hraw'] at heq
    exact hne raw hheld raw' hheld' (Option.some.inj heq)

end

/-- A wrapper with the connection 7 of two. -/
def sampleState : State ℕ where
  slots := ⟨1, 1, 0, insert 7 ∅⟩
  wrappers := [⟨some 7, false, .outside⟩]

theorem sample_reachable : Reachable 2 sampleState := by
  have hstep : ∀ {p p' : Slots ℕ} {w w' : Wrapper ℕ}, Reachable 2 ⟨p, [w]⟩ → Move 2 p w p' w' → Reachable 2 ⟨p', [w']⟩ :=
    fun h hmove => h.tail (.move (l := []) hmove)
  have hcalled : Reachable 2 ⟨⟨2, 0, 0, ∅⟩, [⟨none, true, .acquire⟩]⟩ :=
    .single (.getConnection (s := State.initial ℕ 2))
  have hacquired : Reachable 2 ⟨⟨1, 1, 0, ∅⟩, [⟨none, true, .getconn⟩]⟩ := hstep hcalled (.acquires rfl two_pos)
  have hgot : Reachable 2 ⟨⟨1, 1, 0, insert 7 ∅⟩, [⟨none, true, .got 7⟩]⟩ :=
    hstep hacquired (.getconn rfl (Set.notMem_empty 7))
  exact hstep hgot (.made rfl rfl)

/-- One permit is free and one wrapper is live. -/
theorem sample_slots_balance : sampleState.slots.free + sampleState.live = 2 :=
  (pool_slots_balance sample_reachable).2.1 (by simp [sampleState, Place.inHand])

end Pool
end FuelNear
