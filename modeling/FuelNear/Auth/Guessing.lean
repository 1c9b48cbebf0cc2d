/-
# Guesses at a verification code

A request that is `Careful` comes with an email if its credential has six
digits, and does not guess a code that its user has used up. In a run of such
requests, among any other calls, a six-digit credential verifies only the user
whose email came with it, and between two codes of a user at most
`maxAttempts` guesses are tested against the code that can still verify them
(`guesses_bounded`). Without the condition the code does neither: a request
with the digits in `token` and no email is looked up among all users, and
counts as nobody's attempt (`guess_without_email`).

What a run of careful requests uses up is the number of attempts left: it
never grows but by a new code, and every tested guess takes one.

Key definitions: `Careful`, `tests`, `issues`, `OneUnused`, `Left`.
Key theorems: `respond_left`, `tested_left`, `guesses_bounded`.
-/
import FuelNear.Auth.Endpoints
import Mathlib.Tactic

namespace FuelNear
namespace Auth

open Sql

/-! ### Guesses -/

/-- A call, with the store that it found and its answer. -/
abbrev Served := Event AccountStore Call (Except AuthError Answer)

/-- The request is looked up by `code_hash`. -/
def VerifyRequest.isGuess (r : VerifyRequest) : Bool := r.refusal.isNone && isSixDigits r.credential

/-- The token's code can still verify the user. -/
def VerificationToken.isLive (g : AccountSettings) (now : ℤ) (u : UserRow) (r : VerificationToken) : Bool :=
  r.isUnusedOf u.id && r.codeHash.isSome && r.lockedAt.isNone && r.failedAttempts < g.maxAttempts && now < r.expiresAt &&
    u.isActive && !u.isEmailVerified

/-- The request is a guess whose lookup covers the live code of the user. -/
def tests (g : AccountSettings) (userId : ℤ) (e : Served) : Bool :=
  match e.call with
  | .verify r => r.isGuess && (e.before.user? userId).any fun u =>
      r.address.all (u.email = ·) && e.before.verifications.rows.any (·.isLive g r.now u)
  | _ => false

/-- The call has made a new code for the user. -/
def issues (userId : ℤ) (e : Served) : Bool := e.answer.toOption.any (·.issues userId)

/-- A guess comes with an email, and is not the used-up code of its user. -/
def Careful (g : AccountSettings) (e : Served) : Prop :=
  ∀ r, e.call = .verify r → r.isGuess = true → ∃ email, r.address = some email ∧
    ∀ x ∈ e.before.verifications, ∀ u, e.before.user? x.userId = some u → u.email = email →
      x.codeHash = some (g.sha256 r.credential) → x.usedAt = none

/-- A user has at most one unused code. -/
def OneUnused (v : Table VerificationToken VerificationToken.keys) : Prop :=
  ∀ id, ∀ x ∈ v, ∀ y ∈ v, x.isUnusedOf id = true → y.isUnusedOf id = true → x = y

/-- The user is verified, or the unused code has at most `n` attempts left. -/
def Left (g : AccountSettings) (id : ℤ) (n : ℕ) (s : AccountStore) : Prop :=
  (∃ u ∈ s.users, u.id = id ∧ u.isEmailVerified = true) ∨
    ∀ x ∈ s.verifications, x.isUnusedOf id = true → g.maxAttempts ≤ x.failedAttempts + n

/-! ### The attempts left -/

variable {g : AccountSettings} {s t : AccountStore} {id : ℤ} {n : ℕ}

/-- An unused token after such an UPDATE was unused before. -/
theorem Ages.before {f : VerificationToken → VerificationToken} (hf : Ages f) {p : VerificationToken → Bool}
    (hk : ∀ r : VerificationToken, (f r).keys.Sublist r.keys) {y : VerificationToken}
    (hy : y ∈ s.verifications.update p f hk) (hunused : y.isUnusedOf id = true) :
    ∃ x ∈ s.verifications, x.isUnusedOf id = true ∧ (if p x then f x else x) = y ∧ x.failedAttempts ≤ y.failedAttempts := by
  obtain ⟨x, hx, rfl⟩ := Table.mem_update.mp hy
  by_cases hp : p x = true
  · rw [if_pos hp] at hunused ⊢
    exact ⟨x, hx, hf.isUnusedOf hunused, if_pos hp, hf.attempts x⟩
  · rw [if_neg hp] at hunused ⊢
    exact ⟨x, hx, hunused, if_neg hp, le_rfl⟩

theorem isUnusedOf_iff {x : VerificationToken} : x.isUnusedOf id = true ↔ x.userId = id ∧ x.usedAt = none := by
  simp [VerificationToken.isUnusedOf]

/-- What is still unused after a user's tokens are retired is another user's. -/
theorem unused_of_retired {i now : ℤ} {x : VerificationToken}
    (hx : x ∈ s.verifications.update (·.isUnusedOf i) (·.retire now) (retire_keys now)) (hunused : x.isUnusedOf id = true) :
    id ≠ i ∧ x ∈ s.verifications := by
  obtain ⟨y, hy, hyu, hxy, -⟩ := (ages_retire now).before (retire_keys now) hx hunused
  by_cases hi : y.isUnusedOf i = true
  · rw [if_pos hi] at hxy
    rw [← hxy] at hunused
    exact absurd (isUnusedOf_iff.mp hunused).2 (by simp [VerificationToken.retire])
  · rw [if_neg hi] at hxy
    refine ⟨fun hid => hi (hid ▸ hyu), hxy ▸ hy⟩

/-- A call leaves a user at most one unused code. -/
theorem TokenChange.oneUnused {out : Except AuthError Answer} {v : Table VerificationToken VerificationToken.keys}
    (h : TokenChange g s out v) (hs : OneUnused s.verifications) : OneUnused v := by
  intro id x hx y hy hxu hyu
  cases h with
  | none => exact hs id x hx y hy hxu hyu
  | aged hk ages =>
    obtain ⟨x', hx', hxu', hxeq, -⟩ := ages.before hk hx hxu
    obtain ⟨y', hy', hyu', hyeq, -⟩ := ages.before hk hy hyu
    rw [← hxeq, ← hyeq, hs id x' hx' y' hy' hxu' hyu']
  | @issued a c i code _ new row =>
    have hown : (c.row g i code).isUnusedOf id = true → i = id := fun h => (isUnusedOf_iff.mp h).1
    rcases (Table.mem_insert row).mp hx with hx | rfl <;> rcases (Table.mem_insert row).mp hy with hy | rfl
    · exact hs id x (unused_of_retired hx hxu).2 y (unused_of_retired hy hyu).2 hxu hyu
    · exact absurd (hown hyu).symm (unused_of_retired hx hxu).1
    · exact absurd (hown hxu).symm (unused_of_retired hy hyu).1
    · rfl

/-- Without a new code for the user, what is unused was unused before, with no
fewer failed attempts now. -/
theorem TokenChange.before {out : Except AuthError Answer} {v : Table VerificationToken VerificationToken.keys}
    (h : TokenChange g s out v) (hnew : ∀ a, out = .ok a → a.issues id = false) {y : VerificationToken} (hy : y ∈ v)
    (hunused : y.isUnusedOf id = true) :
    ∃ x ∈ s.verifications, x.isUnusedOf id = true ∧ x.failedAttempts ≤ y.failedAttempts := by
  cases h with
  | none => exact ⟨y, hy, hunused, le_rfl⟩
  | aged hk ages =>
    obtain ⟨x, hx, hxu, -, hle⟩ := ages.before hk hy hunused
    exact ⟨x, hx, hxu, hle⟩
  | @issued a c i code _ new row =>
    rcases (Table.mem_insert row).mp hy with hy | rfl
    · exact ⟨y, (unused_of_retired hy hunused).2, hunused, le_rfl⟩
    · have hi : i = id := (isUnusedOf_iff.mp hunused).1
      rw [hi, hnew a rfl] at new
      exact absurd new (by decide)

/-- No call but a new code gives an attempt back. -/
theorem respond_left (c : Call) (hnew : ∀ a, (respond g c s).1 = .ok a → a.issues id = false) (h : Left g id n s) :
    Left g id n (respond g c s).2 := by
  rcases h with ⟨u, hu, rfl, hverified⟩ | hleft
  · exact .inl ((respond_users g c s).verified_mono hu hverified)
  · refine .inr fun y hy hunused => ?_
    obtain ⟨x, hx, hxu, hle⟩ := (respond_tokens g c s).before hnew hy hunused
    have hx' := hleft x hx hxu
    omega

/-! ### A tested guess -/

/-- A live code is unused and has an attempt left; its user is not verified. -/
theorem isLive_iff {now : ℤ} {u : UserRow} {x : VerificationToken} : x.isLive g now u = true ↔
    x.isUnusedOf u.id = true ∧ x.codeHash.isSome = true ∧ x.lockedAt = none ∧ x.failedAttempts < g.maxAttempts ∧
      now < x.expiresAt ∧ u.isActive = true ∧ u.isEmailVerified = false := by
  simp [VerificationToken.isLive, and_assoc]

/-- What a tested guess is tested against. -/
theorem tests_spec {e : Served} (h : tests g id e = true) : ∃ r u x, e.call = .verify r ∧ r.isGuess = true ∧
    e.before.user? id = some u ∧ r.address.all (u.email = ·) = true ∧ x ∈ e.before.verifications ∧
    x.isLive g r.now u = true := by
  unfold tests at h
  cases hc : e.call with
  | verify r =>
    rw [hc] at h
    simp only [Bool.and_eq_true, Option.any_eq_true, List.any_eq_true] at h
    obtain ⟨hguess, u, hu, haddress, x, hx, hlive⟩ := h
    exact ⟨r, u, x, rfl, hguess, hu, haddress, hx, hlive⟩
  | register | resend | login | signIn => simp [hc] at h

theorem isGuess_iff {r : VerifyRequest} : r.isGuess = true ↔ r.refusal = none ∧ isSixDigits r.credential = true := by
  simp [VerifyRequest.isGuess]

/-- **A tested guess takes an attempt**, or verifies the user. -/
theorem tested_left {e : Served} (hone : OneUnused e.before.verifications) (hcareful : Careful g e)
    (htests : tests g id e = true) (h : Left g id n e.before) :
    ∃ m, n = m + 1 ∧ Left g id m (respond g e.call e.before).2 := by
  obtain ⟨r, u, x, hc, hguess, hu, haddress, hx, hlive⟩ := tests_spec htests
  obtain ⟨email, hemail, hfresh⟩ := hcareful r hc hguess
  obtain ⟨hxu, -, hlocked, hattempts, hexpires, hactive, hverified⟩ := isLive_iff.mp hlive
  obtain ⟨humem, rfl⟩ := user?_spec hu
  obtain ⟨hrefusal, hsix⟩ := isGuess_iff.mp hguess
  have hue : u.email = email := by simpa [hemail] using haddress
  have hxuser : x.userId = u.id := (isUnusedOf_iff.mp hxu).1
  have hleft : g.maxAttempts ≤ x.failedAttempts + n := by
    rcases h with ⟨v, hv, hvid, hvv⟩ | hleft
    · have hvu : v = u := user_of_id hv humem hvid
      rw [hvu, hverified] at hvv
      exact absurd hvv (by decide)
    · exact hleft x hx hxu
  refine ⟨n - 1, by omega, ?_⟩
  rw [hc, respond]
  cases hp : r.pick.pick (matching (g.sha256 r.credential) (isSixDigits r.credential) r.address e.before) with
  | none =>
    -- a wrong guess: it counts at the newest unused code, and there is one
    obtain ⟨y, hy⟩ := newestUnused_isSome hx (hxuser.symm ▸ hu) (isUnusedOf_iff.mp hxu).2
    obtain ⟨hymem, ⟨v, hv, hve⟩, hyused⟩ := newestUnused_spec hy
    obtain ⟨hvmem, hvid⟩ := user?_spec hv
    have hvu : v = u := user_of_email hvmem humem hve
    have hyx : y = x := hone u.id y hymem x hx (isUnusedOf_iff.mpr ⟨hvid ▸ hvu ▸ rfl, hyused⟩) hxu
    rw [verifyEmail_unmatched hrefusal hp (x := x) (by rw [hemail, ← hyx, ← hue]; exact hy) hlocked]
    refine .inr fun z hz hzu => ?_
    obtain ⟨w, hw, hwu, hwz, -⟩ := (ages_fail g r.now).before (fail_keys g r.now) hz hzu
    have hwx : w = x := hone u.id w hw x hx hwu hxu
    rw [hwx, if_pos (by simp)] at hwz
    rw [← hwz]
    show g.maxAttempts ≤ x.failedAttempts + 1 + (n - 1)
    omega
  | some p =>
    obtain ⟨y, v⟩ := p
    obtain ⟨hymem, hv, hmatch⟩ := mem_matching.mp (r.pick.pick_mem hp)
    simp only [Bool.and_eq_true, VerificationToken.answers, hsix, if_true, decide_eq_true_eq, hemail, Option.all_some] at hmatch
    obtain ⟨hvmem, hvid⟩ := user?_spec hv
    have hvu : v = u := user_of_email hvmem humem (hmatch.2.trans hue.symm)
    have hyused : y.usedAt = none := hfresh y hymem v hv hmatch.2 hmatch.1
    have hyx : y = x := hone u.id y hymem x hx (isUnusedOf_iff.mpr ⟨hvid ▸ hvu ▸ rfl, hyused⟩) hxu
    rw [hyx, hvu] at hp
    rw [verifyEmail_matched hrefusal hp hlocked hattempts hverified hexpires (isUnusedOf_iff.mp hxu).2 hactive]
    refine .inl ⟨_, Table.mem_update_of_mem verify_keys humem, ?_⟩
    simp [hactive, UserRow.verify]

/-! ### Runs -/

theorem trace_serve (g : AccountSettings) (s : AccountStore) (c : Call) (l : List Call) :
    trace (serve g) s (c :: l) = ⟨s, c, (respond g c s).1⟩ :: trace (serve g) (respond g c s).2 l := rfl

/-- What is left of a run is a run. -/
theorem trace_suffix : ∀ {pre rest : List Served} {s : AccountStore} {calls : List Call}, OneUnused s.verifications →
    trace (serve g) s calls = pre ++ rest →
    ∃ (t : AccountStore) (calls' : List Call), OneUnused t.verifications ∧ trace (serve g) t calls' = rest
  | [], rest, s, calls, hs, h => ⟨s, calls, hs, h⟩
  | e :: pre, rest, s, [], _, h => absurd h (by simp [trace])
  | e :: pre, rest, s, c :: l, hs, h => by
    rw [trace_serve, List.cons_append] at h
    obtain ⟨-, htail⟩ := List.cons.inj h
    exact trace_suffix ((respond_tokens g c s).oneUnused hs) htail

/-- With `n` attempts left and no new code, at most `n` guesses are tested. -/
theorem guesses_le : ∀ {mid post : List Served} {s : AccountStore} {calls : List Call} {n : ℕ},
    OneUnused s.verifications → Left g id n s → trace (serve g) s calls = mid ++ post → (∀ e ∈ mid, Careful g e) →
    (∀ e ∈ mid, issues id e = false) → mid.countP (tests g id) ≤ n
  | [], post, s, calls, n, _, _, _, _, _ => by simp
  | e :: mid, post, s, [], n, _, _, h, _, _ => absurd h (by simp [trace])
  | e :: mid, post, s, c :: l, n, hs, hleft, h, hcareful, hnew => by
    rw [trace_serve, List.cons_append] at h
    obtain ⟨rfl, htail⟩ := List.cons.inj h
    have hs' : OneUnused (respond g c s).2.verifications := (respond_tokens g c s).oneUnused hs
    have hcareful' : ∀ e ∈ mid, Careful g e := fun e he => hcareful e (List.mem_cons_of_mem _ he)
    have hnew' : ∀ e ∈ mid, issues id e = false := fun e he => hnew e (List.mem_cons_of_mem _ he)
    by_cases htests : tests g id ⟨s, c, (respond g c s).1⟩ = true
    · obtain ⟨m, rfl, hm⟩ := tested_left hs (hcareful _ List.mem_cons_self) htests hleft
      rw [List.countP_cons_of_pos htests]
      exact Nat.succ_le_succ (guesses_le hs' hm htail hcareful' hnew')
    · have hissues : ∀ a, (respond g c s).1 = .ok a → a.issues id = false := by
        intro a ha
        have hfirst := hnew _ List.mem_cons_self
        simpa [issues, ha, Except.toOption] using hfirst
      rw [List.countP_cons_of_neg htests]
      exact guesses_le hs' (respond_left c hissues hleft) htail hcareful' hnew'

/-- A six-digit credential that came with an email verifies its user only. -/
theorem verified_with_email {e : Served} (hcareful : Careful g e) {r : VerifyRequest} (hc : e.call = .verify r)
    (hsix : isSixDigits r.credential = true) {u v : UserRow} (hu : u ∈ e.before.users) (hunverified : u.isEmailVerified = false)
    (hv : v ∈ (respond g e.call e.before).2.users) (hid : v.id = u.id) (hverified : v.isEmailVerified = true) :
    r.address = some u.email := by
  have hstays : v ∈ e.before.users → False := fun h => by
    rw [user_of_id h hu hid, hunverified] at hverified
    exact absurd hverified (by decide)
  have hserved : v ∈ (verifyEmail g r e.before).2.users := by
    have hrespond : (respond g (.verify r) e.before).2 = (verifyEmail g r e.before).2 := rfl
    rwa [hc, hrespond] at hv
  cases hr : r.refusal with
  | some err =>
    rw [verifyEmail, hr] at hserved
    exact (hstays hserved).elim
  | none =>
    obtain ⟨email, hemail, -⟩ := hcareful r hc (isGuess_iff.mpr ⟨hr, hsix⟩)
    rcases verifyEmail_cases g r e.before with h | ⟨id, h⟩ | ⟨id, h⟩ | ⟨x, w, hmem, h⟩
    · rw [h] at hserved
      exact (hstays hserved).elim
    · rw [h] at hserved
      exact (hstays hserved).elim
    · rw [h] at hserved
      exact (hstays hserved).elim
    · obtain ⟨-, hw, hmatch⟩ := mem_matching.mp hmem
      have hwmem := (user?_spec hw).1
      simp only [Bool.and_eq_true, hemail, Option.all_some, decide_eq_true_eq] at hmatch
      rw [h] at hserved
      obtain ⟨y, hy, rfl⟩ := mem_markVerified.mp hserved
      by_cases hp : (y.id = w.id && y.isActive) = true
      · rw [if_pos hp] at hid
        have hwid : w.id = y.id := by
          simp only [Bool.and_eq_true, decide_eq_true_eq] at hp
          exact hp.1.symm
        have hwu : w = u := user_of_id hwmem hu (hwid.trans hid)
        rw [hemail, ← hmatch.2, hwu]
      · rw [if_neg hp] at hstays
        exact (hstays hy).elim

/-- **Guesses are bounded.** In a run of any calls that starts with at most one
unused code a user, and whose guesses are careful, six digits verify only the
user whose email came with them, and between two codes of a user at most
`maxAttempts` guesses are tested against its live code. -/
theorem guesses_bounded (g : AccountSettings) {s : AccountStore} (hs : OneUnused s.verifications) (calls : List Call)
    (hcareful : ∀ e ∈ trace (serve g) s calls, Careful g e) :
    (∀ e ∈ trace (serve g) s calls, ∀ r, e.call = .verify r → isSixDigits r.credential = true →
      ∀ u ∈ e.before.users, u.isEmailVerified = false →
        ∀ v ∈ (respond g e.call e.before).2.users, v.id = u.id → v.isEmailVerified = true → r.address = some u.email) ∧
    ∀ pre mid post id, trace (serve g) s calls = pre ++ mid ++ post → (∀ e ∈ mid, issues id e = false) →
      mid.countP (tests g id) ≤ g.maxAttempts := by
  constructor
  · intro e he r hc hsix u hu hunverified v hv hid hverified
    exact verified_with_email (hcareful e he) hc hsix hu hunverified hv hid hverified
  · intro pre mid post id h hnew
    rw [List.append_assoc] at h
    obtain ⟨t, calls', ht, htrace⟩ := trace_suffix hs h
    have hstart : Left g id g.maxAttempts t := .inr fun x _ _ => Nat.le_add_left _ _
    refine guesses_le ht hstart htrace (fun e he => hcareful e ?_) hnew
    rw [h]
    exact List.mem_append_right _ (List.mem_append_left _ he)

/-! ### A user that awaits its code -/

/-- The code 123456 of an unverified user. -/
def sampleToken : VerificationToken := ⟨5, 1, "#token", some "#123456", 86400000000, 0, none, none, none, 0⟩

def awaiting : AccountStore :=
  { emptyAccounts with
    users := ⟨[⟨1, "ada@example.org", some "$", false, true⟩], by decide⟩
    verifications := ⟨[sampleToken], by decide⟩ }

def guess (digits : String) (email : Option String) : VerifyRequest :=
  { code := none, token := some digits, email := email, pick := Pick.first _, now := 1000000 }

theorem mem_awaiting {x : VerificationToken} (hx : x ∈ awaiting.verifications) : x = sampleToken := by
  have hmem : x ∈ [sampleToken] := hx
  exact List.mem_singleton.mp hmem

/-- The condition on a guess, on the rows of the store. -/
def isCareful (g : AccountSettings) (s : AccountStore) : Call → Bool
  | .verify r => !r.isGuess || r.address.any fun email => s.verifications.rows.all fun x =>
      (s.user? x.userId).all fun u => u.email ≠ email || x.codeHash ≠ some (g.sha256 r.credential) || x.usedAt = none
  | _ => true

theorem careful_of_check {e : Served} (h : isCareful g e.before e.call = true) : Careful g e := by
  intro r hr hguess
  rw [hr] at h
  simp only [isCareful, hguess, Bool.not_true, Bool.false_or, Option.any_eq_true] at h
  obtain ⟨email, hemail, hrows⟩ := h
  refine ⟨email, hemail, fun x hx u hu hue hcode => ?_⟩
  have hrow := List.all_eq_true.mp hrows x (Table.mem_def.mp hx)
  rw [hu] at hrow
  simpa [hue, hcode] using hrow

/-- Three wrong guesses with the email. -/
def wrongGuesses : List Call :=
  ["000000", "111111", "222222"].map fun digits => .verify (guess digits (some "ada@example.org"))

/-- Two of them are tested, which uses up the code. -/
theorem guesses_bounded_sample :
    (trace (serve sampleAccounts) awaiting wrongGuesses).length = 3 ∧
    (trace (serve sampleAccounts) awaiting wrongGuesses).countP (tests sampleAccounts 1) = 2 ∧
    (trace (serve sampleAccounts) awaiting wrongGuesses).countP (tests sampleAccounts 1) ≤
      sampleAccounts.maxAttempts := by
  have hone : OneUnused awaiting.verifications := by
    intro id x hx y hy _ _
    exact (mem_awaiting hx).trans (mem_awaiting hy).symm
  have hcheck : ∀ e ∈ trace (serve sampleAccounts) awaiting wrongGuesses,
      isCareful sampleAccounts e.before e.call = true := by decide +kernel
  have hissues : ∀ e ∈ trace (serve sampleAccounts) awaiting wrongGuesses, issues 1 e = false := by decide +kernel
  refine ⟨by decide +kernel, by decide +kernel, ?_⟩
  exact (guesses_bounded sampleAccounts hone wrongGuesses fun e he => careful_of_check (hcheck e he)).2
    [] _ [] 1 (List.append_nil _).symm hissues

/-- Without an email, the code verifies, and three wrong guesses in a row are
tested where two attempts are allowed. -/
theorem guess_without_email :
    ((respond sampleAccounts (.verify (guess "123456" none)) awaiting).1 =
        .ok (.verified ⟨1, "ada@example.org", some "$", true, true⟩) ∧
      isSixDigits (guess "123456" none).credential = true ∧ (guess "123456" none).address = none) ∧
    (∀ e ∈ trace (serve sampleAccounts) awaiting (List.replicate 3 (.verify (guess "000000" none))), issues 1 e = false) ∧
    sampleAccounts.maxAttempts < (trace (serve sampleAccounts) awaiting
      (List.replicate 3 (.verify (guess "000000" none)))).countP (tests sampleAccounts 1) := by
  decide +kernel

end Auth
end FuelNear
