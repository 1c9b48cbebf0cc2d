/-
# Whose password a login is

A password is set by a registration, before the email is verified, and it can
be used from the moment that `is_email_verified` is set. Email verification
sets it, and so does a sign-in with a provider that vouches for the email: the
account that it links to keeps its password, whoever registered it.

If no sign-in links to an account that has a password and is not verified,
then in every run the password of a login was registered, and the email
verified after that (`login_proved`). One such link is enough to let in a
password whose email was never verified (`linked_password_usable`).

Key definitions: `Proved`, `NoPromotion`.
Key theorems: `backed_step`, `login_proved`.
-/
import FuelNear.Auth.Endpoints
import Mathlib.Tactic

namespace FuelNear
namespace Auth

open Sql

abbrev Log := List (Call × Except AuthError Answer)

/-- The account was registered, with its password. -/
def RegisteredIn (id : ℤ) (log : Log) : Prop := .ok (.registered id) ∈ log.map (·.2)

/-- The account was registered with its password, and its email verified after that. -/
def Proved (id : ℤ) (log : Log) : Prop :=
  ∃ u : UserRow, u.id = id ∧ [.ok (.registered id), .ok (.verified u)].Sublist (log.map (·.2))

/-- A sign-in that a provider vouches for links to no account that has a
password and is not verified. -/
def NoPromotion (s : AccountStore) (c : Call) : Prop :=
  ∀ d, c = .signIn d → d.emailVerified = true → s.providers.find? d.isFor = none → ∀ u ∈ s.users,
    d.email = some u.email → u.isActive = true → u.passwordHash.isSome = true → u.isEmailVerified = true

/-- Every password was registered, and that of a verified account was proved. -/
def Backed (log : Log) (s : AccountStore) : Prop :=
  ∀ u ∈ s.users, u.passwordHash.isSome = true →
    RegisteredIn u.id log ∧ (u.isEmailVerified = true → Proved u.id log)

variable {g : AccountSettings} {s : AccountStore} {log : Log} {id : ℤ}

theorem RegisteredIn.append (h : RegisteredIn id log) (e : Call × Except AuthError Answer) : RegisteredIn id (log ++ [e]) := by
  simp only [RegisteredIn, List.map_append, List.mem_append]
  exact .inl h

theorem Proved.append (h : Proved id log) (e : Call × Except AuthError Answer) : Proved id (log ++ [e]) := by
  obtain ⟨u, hu, hsub⟩ := h
  refine ⟨u, hu, ?_⟩
  rw [List.map_append]
  exact hsub.trans (List.sublist_append_left _ _)

/-- A verification after the registration proves the password. -/
theorem RegisteredIn.verified (h : RegisteredIn id log) {u : UserRow} (hu : u.id = id) (c : Call) :
    Proved id (log ++ [(c, .ok (.verified u))]) := by
  refine ⟨u, hu, ?_⟩
  rw [List.map_append]
  exact (List.singleton_sublist.mpr h).append (List.Sublist.refl _)

/-- A row that has what an old one has is as well backed. -/
theorem Backed.of_old (h : Backed log s) (e : Call × Except AuthError Answer) {u v : UserRow} (hu : u ∈ s.users)
    (hid : v.id = u.id) (hpassword : v.passwordHash.isSome = true → u.passwordHash.isSome = true)
    (hverified : v.isEmailVerified = true → u.isEmailVerified = true) (hv : v.passwordHash.isSome = true) :
    RegisteredIn v.id (log ++ [e]) ∧ (v.isEmailVerified = true → Proved v.id (log ++ [e])) := by
  obtain ⟨hregistered, hproved⟩ := h u hu (hpassword hv)
  rw [hid]
  exact ⟨hregistered.append e, fun hvv => (hproved (hverified hvv)).append e⟩

/-- **A call keeps every password backed.** -/
theorem backed_step (h : Backed log s) (c : Call) (hc : NoPromotion s c) :
    Backed (log ++ [(c, (respond g c s).1)]) (respond g c s).2 := by
  intro v hv hpassword
  generalize hout : (respond g c s).1 = out
  have hchange := respond_users g c s
  rw [hout] at hchange
  generalize (respond g c s).2.users = users at hv hchange
  cases hchange with
  | none => exact h.of_old _ hv rfl id id hpassword
  | @registered r hash _ new =>
    rcases (Table.mem_insert new).mp hv with hv | rfl
    · exact h.of_old _ hv rfl id id hpassword
    · refine ⟨?_, fun hverified => absurd hverified (by simp [Registration.user])⟩
      simp [RegisteredIn, Registration.user]
  | @verified r x w row =>
    obtain ⟨u, hu, rfl⟩ := mem_markVerified.mp hv
    by_cases hp : (u.id = w.id && u.isActive) = true
    · rw [if_pos hp] at hpassword ⊢
      obtain ⟨hregistered, -⟩ := h u hu hpassword
      have hid : w.id = u.id := by
        simp only [Bool.and_eq_true, decide_eq_true_eq] at hp
        exact hp.1.symm
      exact ⟨hregistered.append _, fun _ => hregistered.verified (u := w.verify) hid _⟩
    · rw [if_neg hp] at hpassword ⊢
      exact h.of_old _ hu rfl id id hpassword
  | @rehashed l w new mem password verified =>
    rw [Table.mem_update] at hv
    obtain ⟨u, hu, rfl⟩ := hv
    by_cases hp : u.id = w.id
    · obtain rfl := user_of_id hu mem hp
      exact h.of_old _ hu (by split_ifs <;> rfl) (fun _ => password) (fun _ => verified) hpassword
    · rw [if_neg (by simpa using hp)] at hpassword ⊢
      exact h.of_old _ hu rfl id id hpassword
  | @linked d w _ mem email verified active first =>
    rw [Table.mem_update] at hv
    obtain ⟨u, hu, rfl⟩ := hv
    by_cases hp : u.id = w.id
    · obtain rfl := user_of_id hu mem hp
      -- the account that is linked had no password, or was verified already
      have hpromoted : u.passwordHash.isSome = true → u.isEmailVerified = true := hc d rfl verified first u hu email active
      rw [if_pos (by simp)] at hpassword ⊢
      exact h.of_old _ hu rfl id (fun _ => hpromoted hpassword) hpassword
    · rw [if_neg (by simpa using hp)] at hpassword ⊢
      exact h.of_old _ hu rfl id id hpassword
  | @created d email _ _ new =>
    rcases (Table.mem_insert new).mp hv with hv | rfl
    · exact h.of_old _ hv rfl id id hpassword
    · exact absurd hpassword (by simp)

theorem transact_answer {α : Type} {f : α → Answer} {r : Except AuthError (α × AccountStore)} {a : Answer}
    (h : (transact f r s).1 = .ok a) : ∃ x t, r = .ok (x, t) ∧ f x = a := by
  rcases transact_cases f r s with ⟨e, he⟩ | ⟨x, t, hr, hx⟩
  · rw [he] at h
    exact absurd h (by simp)
  · rw [hx] at h
    exact ⟨x, t, hr, Except.ok.inj h⟩

/-- A login is of a user with a password that is verified. -/
theorem loggedIn_spec {c : Call} (h : (respond g c s).1 = .ok (.loggedIn id)) :
    ∃ u ∈ s.users, u.id = id ∧ u.passwordHash.isSome = true ∧ u.isEmailVerified = true := by
  cases c with
  | login l =>
    obtain ⟨x, t, hr, hx⟩ := transact_answer h
    obtain rfl := Answer.loggedIn.inj hx
    exact (loginUser_spec hr).1
  | register r =>
    obtain ⟨x, t, -, hx⟩ := transact_answer h
    exact absurd hx (by simp)
  | resend r =>
    obtain ⟨x, t, -, hx⟩ := transact_answer h
    exact absurd hx (by simp)
  | signIn d =>
    obtain ⟨x, t, -, hx⟩ := transact_answer h
    exact absurd hx (by simp)
  | verify r =>
    obtain ⟨u, -, hu⟩ := map_eq_ok.mp h
    exact absurd hu (by simp)

/-- A run of such calls keeps every password backed. -/
theorem backed_run (h : Run (serve g) emptyAccounts log s)
    (hC : EveryCall (serve g) emptyAccounts (fun _ => NoPromotion) log) : Backed log s := by
  induction h with
  | start => exact fun u hu => absurd hu List.not_mem_nil
  | @done log x c out y hrun hop ih =>
    obtain ⟨hout, hy⟩ : (respond g c x).1 = out ∧ (respond g c x).2 = y := Prod.mk.inj (Except.ok.inj hop)
    rw [← hout, ← hy]
    exact backed_step (ih hC.of_append) c (hC log c out [] x rfl hrun)
  | refused _ hop _ => exact absurd hop (by simp [serve])

/-- **No account is taken over before it is proved.** In every run in which no
sign-in promotes an unproved password, each login by password is of an account
that was registered with it, and whose email was verified after that. -/
theorem login_proved (g : AccountSettings) {log : Log} {s : AccountStore} (h : Run (serve g) emptyAccounts log s)
    (hC : EveryCall (serve g) emptyAccounts (fun _ => NoPromotion) log) (l₁ l₂ : Log) (c : Call) (id : ℤ)
    (hlog : log = l₁ ++ (c, .ok (.loggedIn id)) :: l₂) : Proved id l₁ := by
  subst hlog
  obtain ⟨x, hx, hrest⟩ := Run.split_append h
  obtain ⟨y, hop, -⟩ := Run.call_at h hx
  have hanswer : (respond g c x).1 = .ok (.loggedIn id) := congrArg Prod.fst (Except.ok.inj hop)
  obtain ⟨u, hu, rfl, hpassword, hverified⟩ := loggedIn_spec hanswer
  exact (backed_run hx hC.of_append u hu hpassword).2 hverified

/-! ### Two runs -/

def seed (tokens : TokenPair) (id : ℤ) : SessionSeed := ⟨none, tokens, id, 0, 0⟩

/-- The address registered by somebody. -/
def registration : Call :=
  .register ⟨"ada@example.org", "attacker-password", "salt", 1, ⟨"token", ["123456"], 5, 0, 0⟩⟩

/-- A sign-in by its owner. -/
def googleSignIn : Call :=
  .signIn ⟨.google, "subject", some "ada@example.org", true, none, 2, 1, seed ⟨"a0", "r0"⟩ 7⟩

def passwordLogin : Call := .login ⟨"ada@example.org", "attacker-password", "salt", seed ⟨"a1", "r1"⟩ 8⟩

def codeRequest : Call := .verify ⟨some "123456", none, some "ada@example.org", Pick.first _, 1000000⟩

/-- A registration, its verification, a sign-in by the owner of the address, and
a login. -/
def provedRun : List Call := [registration, codeRequest, googleSignIn, passwordLogin]

/-- A registration, a sign-in by the owner of the address, and a login. -/
def hijackedRun : List Call := [registration, googleSignIn, passwordLogin]

/-- The condition on a sign-in, on the rows of the store. -/
def promotesNone (s : AccountStore) : Call → Bool
  | .signIn d => !d.emailVerified || (s.providers.find? d.isFor).isSome || s.users.rows.all fun u =>
      d.email ≠ some u.email || !u.isActive || !u.passwordHash.isSome || u.isEmailVerified
  | _ => true

theorem noPromotion_of_check {c : Call} (h : promotesNone s c = true) : NoPromotion s c := by
  intro d hd hverified hfirst u hu hemail hactive hpassword
  rw [hd] at h
  simp only [promotesNone, hverified, hfirst, Bool.not_true, Option.isSome_none, Bool.or_self, Bool.false_or] at h
  have hrow := List.all_eq_true.mp h u (Table.mem_def.mp hu)
  simpa [hemail, hactive, hpassword] using hrow

/-- The sign-in links to the account of the registration, which is verified by
then; the login after it is of a proved password. -/
theorem login_proved_sample : ∃ log u, (execute (serve sampleAccounts) emptyAccounts provedRun).1 =
      log ++ [(passwordLogin, .ok (.loggedIn 1))] ∧
    u.passwordHash.isSome = true ∧ log.map (·.2) = [.ok (.registered 1), .ok (.verified u), .ok (.signedIn 1)] ∧
    Proved 1 log := by
  set before := execute (serve sampleAccounts) emptyAccounts [registration, codeRequest, googleSignIn] with hbefore
  have hlogin : (respond sampleAccounts passwordLogin before.2).1 = .ok (.loggedIn 1) := by decide +kernel
  have hlog : (execute (serve sampleAccounts) emptyAccounts provedRun).1 =
      before.1 ++ (passwordLogin, .ok (.loggedIn 1)) :: [] := by
    rw [← hlogin]
    exact execute_append (serve sampleAccounts) [registration, codeRequest, googleSignIn] [passwordLogin] emptyAccounts
  have hcheck : ∀ e ∈ trace (serve sampleAccounts) emptyAccounts provedRun, promotesNone e.before e.call = true := by
    decide +kernel
  have hC : EveryCall (serve sampleAccounts) emptyAccounts (fun _ => NoPromotion)
      (execute (serve sampleAccounts) emptyAccounts provedRun).1 :=
    everyCall_of_trace fun e he => noPromotion_of_check (hcheck e he)
  refine ⟨before.1, ⟨1, "ada@example.org", some "$attacker-password", true, true⟩, hlog, rfl, by decide +kernel, ?_⟩
  exact login_proved sampleAccounts (run_execute _ provedRun _) hC before.1 [] passwordLogin 1 hlog

/-- The owner's sign-in makes the password of the account usable: the login
succeeds, and no email was verified. -/
theorem linked_password_usable :
    (execute (serve sampleAccounts) emptyAccounts hijackedRun).1.map (·.2) =
        [.ok (.registered 1), .ok (.signedIn 1), .ok (.loggedIn 1)] ∧
      ∀ l₁ l₂ c, (execute (serve sampleAccounts) emptyAccounts hijackedRun).1 = l₁ ++ (c, .ok (.loggedIn 1)) :: l₂ →
        ¬Proved 1 l₁ := by
  have hanswers : (execute (serve sampleAccounts) emptyAccounts hijackedRun).1.map (·.2) =
      [.ok (.registered 1), .ok (.signedIn 1), .ok (.loggedIn 1)] := by decide +kernel
  refine ⟨hanswers, fun l₁ l₂ c hl hproved => ?_⟩
  obtain ⟨u, -, hsub⟩ := hproved
  have hmem : (.ok (.verified u) : Except AuthError Answer) ∈
      (execute (serve sampleAccounts) emptyAccounts hijackedRun).1.map (·.2) := by
    rw [hl, List.map_append]
    exact List.mem_append_left _ (hsub.subset (by simp))
  rw [hanswers] at hmem
  simp at hmem

end Auth
end FuelNear
