/-
# Invitations and accounts

The network has the tables of the accounts with further columns. On the
account columns each of its calls does what the account's own endpoint does:
a registration and a sign-in with a code what they do without one, a deletion
what `deleteUser` does, and the calls that are about referrals alone nothing.
So the accounts of the network go through no state that the endpoints of the
accounts do not lead to.

Key definitions: `AccountStep`, `OnAccounts`.
Key theorems: `registerUser_accounts`, `authenticateWithProvider_accounts`, `onAccounts_of_ok`, `accounts_simulated`.
-/
import FuelNear.Referrals.History

namespace FuelNear
namespace Referrals

open Sql Plus Auth

section Columns

variable {s t : Network} {g : AccountSettings}

theorem accounts_userByEmail? (s : Network) (email : String) :
    s.accounts.userByEmail? email = (s.userByEmail? email).map Member.toUserRow := by
  rw [AccountStore.userByEmail?, Network.accounts, Table.find?_project]
  rfl

theorem accounts_user? (s : Network) (id : ℤ) : s.accounts.user? id = (s.user? id).map Member.toUserRow := by
  rw [Auth.Store.user?, Network.accounts, Table.find?_project]
  rfl

theorem insertUser_accounts {m : Member} (h : s.insertUser m = .ok t) :
    Auth.insertUser m.toUserRow s.accounts = .ok t.accounts := by
  unfold Network.insertUser at h
  cases hinsert : s.users.insert? m with
  | none => simp [hinsert] at h
  | some users =>
    rw [hinsert] at h
    dsimp only at h
    split_ifs at h
    obtain rfl := Except.ok.inj h
    have hproject : s.accounts.users.insert? m.toUserRow = some (users.project Member.toUserRow _ account_keys) :=
      Table.insert?_project hinsert
    unfold Auth.insertUser
    rw [hproject]
    rfl

theorem createReferral_accounts {referralId userId now : ℤ} {code : Option PersonalCode} {referrer : Option ℤ}
    (h : s.createReferral referralId code referrer userId now = .ok t) : t.accounts = s.accounts := by
  unfold Network.createReferral at h
  split at h
  · unfold Network.createPendingReferral at h
    split at h
    · exact absurd h (by simp)
    · split_ifs at h
      obtain rfl := Except.ok.inj h
      rfl
  · obtain rfl := Except.ok.inj h
    rfl

theorem attributeCreator_accounts {attribution : Except AuthError CreatorGrant} {creatorCode : Option String} {userId : ℤ}
    (h : s.attributeCreator attribution creatorCode userId = .ok t) : t.accounts = s.accounts := by
  unfold Network.attributeCreator at h
  cases creatorCode with
  | none =>
    obtain rfl := Except.ok.inj h
    rfl
  | some code =>
    obtain ⟨grant, -, h⟩ := bind_eq_ok.mp h
    split at h
    · obtain rfl := Except.ok.inj h
      rfl
    · exact absurd h (by simp [throw, throwThe, MonadExceptOf.throw])

/-- Of a new user only the INSERT is in these columns. -/
theorem admit_accounts {i : Invite} {code : Option PersonalCode} {creatorCode : Option String} {referrer : Option ℤ}
    {account : Auth.UserRow} {now : ℤ} (h : s.admit i code creatorCode referrer account now = .ok t) :
    Auth.insertUser account s.accounts = .ok t.accounts := by
  unfold Network.admit at h
  obtain ⟨own, -, h⟩ := bind_eq_ok.mp h
  obtain ⟨u, hinsert, h⟩ := bind_eq_ok.mp h
  obtain ⟨v, hreferral, hattribute⟩ := bind_eq_ok.mp h
  rw [attributeCreator_accounts hattribute, createReferral_accounts hreferral]
  exact insertUser_accounts hinsert

/-- **A registration with a code is a registration.** -/
theorem registerUser_accounts {r : MemberRegistration} {id : ℤ} (h : registerUser g r s = .ok (id, t)) :
    Auth.registerUser g r.toRegistration s.accounts = .ok (id, t.accounts) := by
  unfold registerUser at h
  obtain ⟨⟨code, creatorCode⟩, -, h⟩ := bind_eq_ok.mp h
  dsimp only at h
  split_ifs at h with hemail
  rw [mapError_eq_ok] at h
  obtain ⟨referrer, -, h⟩ := bind_eq_ok.mp h
  obtain ⟨hash, hhash, h⟩ := bind_eq_ok.mp h
  obtain ⟨u, hadmit, h⟩ := bind_eq_ok.mp h
  obtain ⟨accounts, htoken, h⟩ := bind_eq_ok.mp h
  obtain ⟨rfl, rfl⟩ := Prod.mk.inj (Except.ok.inj h)
  have hnew : ¬ (s.accounts.userByEmail? (normalizeEmail r.email)).isSome = true := by
    rw [accounts_userByEmail?, Option.isSome_map]
    exact hemail
  have haccounts : accounts = ({ u with verifications := accounts.verifications } : Network).accounts :=
    (createEmailVerificationToken_spec htoken).1
  unfold Auth.registerUser
  rw [if_neg hnew, mapError_eq_ok, bind_eq_ok]
  refine ⟨hash, hhash, bind_eq_ok.mpr ⟨u.accounts, admit_accounts hadmit, bind_eq_ok.mpr ⟨accounts, htoken, ?_⟩⟩⟩
  rw [← haccounts]
  rfl

theorem link_accounts (s : Network) (emailVerified : Bool) (id : ℤ) :
    ({ s with users := s.users.update (fun x => x.id = id) (·.link emailVerified) (Member.link_keys _) } : Network).accounts =
      { s.accounts with
        users := s.accounts.users.update (fun x => x.id = id) (·.link emailVerified) (Auth.link_keys _) } := by
  have hrows : (s.users.rows.map fun x => if x.id = id then x.link emailVerified else x).map Member.toUserRow =
      (s.users.rows.map Member.toUserRow).map fun x => if x.id = id then x.link emailVerified else x := by
    rw [List.map_map, List.map_map]
    refine List.map_congr_left fun m _ => ?_
    show Member.toUserRow (if m.id = id then m.link emailVerified else m) = if m.id = id then _ else _
    split_ifs <;> rfl
  unfold Network.accounts
  congr 2
  refine Table.ext ?_
  simpa [Table.project, Table.update] using hrows

theorem linkOrCreateUser_accounts {c : MemberSignIn} {code : Option PersonalCode} {creatorCode : Option String}
    {email : String} {id : ℤ} (h : linkOrCreateUser c code creatorCode email s = .ok (id, t)) :
    Auth.linkOrCreateUser c.toSignIn email s.accounts = .ok (id, t.accounts) := by
  unfold linkOrCreateUser at h
  unfold Auth.linkOrCreateUser
  rw [accounts_userByEmail?]
  cases huser : s.userByEmail? email with
  | some m =>
    rw [huser] at h
    dsimp only [Option.map_some] at h ⊢
    split_ifs at h ⊢
    obtain ⟨rfl, rfl⟩ := Prod.mk.inj (Except.ok.inj h)
    rw [link_accounts]
  | none =>
    rw [huser] at h
    obtain ⟨referrer, -, h⟩ := bind_eq_ok.mp h
    obtain ⟨u, hadmit, h⟩ := bind_eq_ok.mp h
    obtain ⟨rfl, rfl⟩ := Prod.mk.inj (Except.ok.inj h)
    exact map_eq_ok.mpr ⟨u.accounts, admit_accounts hadmit, rfl⟩

theorem insertProvider_accounts {c : SignIn} {email : String} {userId id : ℤ} {accounts : AccountStore}
    (h : insertProvider c email userId s.accounts = .ok (id, accounts)) :
    accounts = ({ s with providers := accounts.providers } : Network).accounts := by
  unfold insertProvider at h
  split at h
  · obtain ⟨-, rfl⟩ := Prod.mk.inj (Except.ok.inj h)
    rfl
  · split at h
    · obtain ⟨-, rfl⟩ := Prod.mk.inj (Except.ok.inj h)
      rfl
    · exact absurd h (by simp)

theorem resolveUser_accounts {c : MemberSignIn} {code : Option PersonalCode} {creatorCode : Option String} {id : ℤ}
    (h : resolveUser c code creatorCode s = .ok (id, t)) : Auth.resolveUser c.toSignIn s.accounts = .ok (id, t.accounts) := by
  unfold resolveUser at h
  unfold Auth.resolveUser
  have hproviders : s.accounts.providers.find? c.toSignIn.isFor = s.providers.find? c.isFor := rfl
  rw [hproviders]
  cases hprovider : s.providers.find? c.isFor with
  | some p =>
    rw [hprovider] at h
    obtain ⟨rfl, rfl⟩ := Prod.mk.inj (Except.ok.inj h)
    rfl
  | none =>
    rw [hprovider] at h
    cases hemail : c.email.filter (· ≠ "") with
    | none =>
      rw [hemail] at h
      exact absurd h (by simp)
    | some email =>
      rw [hemail] at h
      obtain ⟨⟨userId, u⟩, hlink, h⟩ := bind_eq_ok.mp h
      obtain ⟨⟨linkedId, accounts⟩, hinsert, h⟩ := bind_eq_ok.mp h
      obtain ⟨rfl, rfl⟩ := Prod.mk.inj (Except.ok.inj h)
      rw [← insertProvider_accounts hinsert]
      exact bind_eq_ok.mpr ⟨_, linkOrCreateUser_accounts hlink, hinsert⟩

theorem storeCiphertext_accounts (c : SignIn) (s : Network) :
    ({ s with providers := (storeCiphertext c s.accounts).providers } : Network).accounts = storeCiphertext c s.accounts := by
  unfold storeCiphertext
  split <;> rfl

theorem createUserSession_accounts {c : SessionSeed} {userId : ℤ} {accounts : AccountStore}
    (h : createUserSession g c userId s.accounts = .ok accounts) :
    accounts = ({ s with sessions := accounts.sessions } : Network).accounts := by
  obtain ⟨u, hinsert, rfl⟩ := map_eq_ok.mp h
  unfold insertSession at hinsert
  split_ifs at hinsert
  split at hinsert
  · obtain rfl := Except.ok.inj hinsert
    rfl
  · exact absurd hinsert (by simp)

/-- **A sign-in with a code is a sign-in.** -/
theorem authenticateWithProvider_accounts {c : MemberSignIn} {id : ℤ} (h : authenticateWithProvider g c s = .ok (id, t)) :
    Auth.authenticateWithProvider g c.toSignIn s.accounts = .ok (id, t.accounts) := by
  unfold authenticateWithProvider at h
  obtain ⟨⟨code, creatorCode⟩, -, h⟩ := bind_eq_ok.mp h
  rw [mapError_eq_ok] at h
  obtain ⟨⟨userId, u⟩, hresolve, h⟩ := bind_eq_ok.mp h
  unfold Auth.authenticateWithProvider
  rw [mapError_eq_ok, bind_eq_ok]
  refine ⟨(userId, u.accounts), resolveUser_accounts hresolve, ?_⟩
  dsimp only at h ⊢
  rw [accounts_user?]
  cases huser : u.user? userId with
  | none =>
    rw [huser] at h
    exact absurd h (by simp [throw, throwThe, MonadExceptOf.throw])
  | some m =>
    rw [huser] at h
    dsimp only [Option.map_some] at h ⊢
    split_ifs at h ⊢ with hactive
    · obtain ⟨accounts, hsession, h⟩ := bind_eq_ok.mp h
      obtain ⟨rfl, rfl⟩ := Prod.mk.inj (Except.ok.inj h)
      have hsame := createUserSession_accounts hsession
      rw [storeCiphertext_accounts] at hsession
      refine bind_eq_ok.mpr ⟨accounts, hsession, ?_⟩
      rw [← hsame]
      rfl

/-! ### The calls of an account -/

/-- What a call does to the columns of a user, beside those of its identity. -/
structure Harmless (f : Auth.UserRow → Auth.UserRow) : Prop where
  id : ∀ u, (f u).id = u.id
  email : ∀ u, (f u).email = u.email
  isActive : ∀ u, (f u).isActive = u.isActive

theorem harmless_verify : Harmless Auth.UserRow.verify := ⟨fun _ => rfl, fun _ => rfl, fun _ => rfl⟩

theorem harmless_rehash (hash : String) : Harmless (·.rehash hash) := ⟨fun _ => rfl, fun _ => rfl, fun _ => rfl⟩

theorem user?_update {p : Auth.UserRow → Bool} {f : Auth.UserRow → Auth.UserRow} (hf : Harmless f)
    {hkeys : ∀ u, (f u).keys.Sublist u.keys} {accounts : AccountStore}
    (husers : accounts.users = s.accounts.users.update p f hkeys) {m : Member} (hm : m ∈ s.users) :
    accounts.user? m.id = some (if p m.toUserRow then f m.toUserRow else m.toUserRow) := by
  have hfound : s.user? m.id = some m := Table.find?_of_mem (k := .inl m.id)
    (fun n hn => by simp [Member.keys, of_decide_eq_true hn]) hm (by simp)
  have hq : ∀ u : Auth.UserRow, decide ((f u).id = m.id) = decide (u.id = m.id) := fun u => by rw [hf.id]
  have haccount : s.accounts.users.find? (fun u => u.id = m.id) = some m.toUserRow := by
    have hlookup := accounts_user? s m.id
    rw [hfound] at hlookup
    exact hlookup
  rw [Auth.Store.user?, husers, Table.find?_update hq, haccount]
  rfl

/-- The network adopts what a call of an account has done. -/
theorem adopt_accounts {p : Auth.UserRow → Bool} {f : Auth.UserRow → Auth.UserRow} (hf : Harmless f)
    {hkeys : ∀ u, (f u).keys.Sublist u.keys} {accounts : AccountStore}
    (husers : accounts.users = s.accounts.users.update p f hkeys) : (s.adopt accounts).accounts = accounts := by
  have hrows : (s.adopt accounts).accounts.users = accounts.users := by
    refine Table.ext ?_
    rw [husers]
    show (s.users.rows.map fun m => if true then m.adopt accounts else m).map Member.toUserRow =
      (s.users.rows.map Member.toUserRow).map fun u => if p u then f u else u
    rw [List.map_map, List.map_map]
    refine List.map_congr_left fun m hm => ?_
    show (m.adopt accounts).toUserRow = if p m.toUserRow then f m.toUserRow else m.toUserRow
    unfold Member.adopt
    rw [user?_update hf husers hm]
    split_ifs
    · rw [Auth.UserRow.mk.injEq]
      exact ⟨(hf.id _).symm, (hf.email _).symm, rfl, rfl, (hf.isActive _).symm⟩
    · rfl
  show (⟨⟨(s.adopt accounts).accounts.users, accounts.providers, accounts.sessions⟩, accounts.verifications⟩ : AccountStore) =
    accounts
  rw [hrows]

theorem adopt_same {accounts : AccountStore} (husers : accounts.users = s.accounts.users) :
    (s.adopt accounts).accounts = accounts := by
  have hsame : Harmless fun u => u := ⟨fun _ => rfl, fun _ => rfl, fun _ => rfl⟩
  have hupdate : accounts.users =
      s.accounts.users.update (fun _ => false) (fun u => u) fun _ => List.Sublist.refl _ := by
    rw [husers, Table.update_eq_self fun _ _ _ => rfl]
  exact adopt_accounts hsame hupdate

theorem resend_accounts {r : Resend} {userId : Option ℤ} {accounts : AccountStore}
    (h : resendEmailVerification g r s.accounts = .ok (userId, accounts)) : (s.adopt accounts).accounts = accounts := by
  rcases resendEmailVerification_spec h with ⟨-, rfl⟩ | ⟨u, -, htoken⟩
  · exact adopt_same rfl
  · rw [(createEmailVerificationToken_spec htoken).1]
    exact adopt_same rfl

theorem verify_accounts (g : AccountSettings) (r : VerifyRequest) (s : Network) :
    (s.adopt (verifyEmail g r s.accounts).2).accounts = (verifyEmail g r s.accounts).2 := by
  rcases verifyEmail_cases g r s.accounts with heq | ⟨id, heq⟩ | ⟨id, heq⟩ | ⟨x, u, -, heq⟩
  · rw [heq]
    exact adopt_same rfl
  · rw [heq]
    exact adopt_same rfl
  · rw [heq]
    exact adopt_same rfl
  · rw [heq]
    have hupdate : (markVerified u.id r.now s.accounts).users = s.accounts.users.update
        (fun v => v.id = u.id && v.isActive) Auth.UserRow.verify verify_keys := rfl
    exact adopt_accounts harmless_verify hupdate

theorem login_accounts {l : Login} {id : ℤ} {accounts : AccountStore}
    (h : loginUser g l s.accounts = .ok (id, accounts)) : (s.adopt accounts).accounts = accounts := by
  obtain ⟨-, -, husers | ⟨new, husers⟩⟩ := loginUser_spec h
  · exact adopt_same husers
  · exact adopt_accounts (harmless_rehash new) husers

end Columns

/-! ### The simulation -/

section Simulation

variable {g : NetworkSettings} {call : NetworkCall} {s t : Network} {u : Unit} {l : List (NetworkCall × Unit)}

/-- A call of an account, or the deletion of one. -/
inductive AccountStep (g : AccountSettings) (s : AccountStore) : AccountStore → Prop where
  | call (c : Auth.Call) : AccountStep g s (respond g c s).2
  | delete (userId : ℤ) : AccountStep g s (s.deleteUser userId)

theorem refer_accounts (s : Network) (referrerId userId : ℤ) : (s.refer referrerId userId).accounts = s.accounts := by
  have hrows : (s.users.rows.map fun m => if decide (m.id = userId) = true then m.refer referrerId else m).map Member.toUserRow =
      s.users.rows.map Member.toUserRow := by
    rw [List.map_map]
    refine List.map_congr_left fun m _ => ?_
    show Member.toUserRow (if decide (m.id = userId) = true then m.refer referrerId else m) = m.toUserRow
    split_ifs <;> rfl
  have husers : (s.refer referrerId userId).accounts.users = s.accounts.users := Table.ext hrows
  show (⟨⟨(s.refer referrerId userId).accounts.users, s.providers, s.sessions⟩, s.verifications⟩ : AccountStore) = s.accounts
  rw [husers]
  rfl

theorem applyCode_accounts {c : ApplyCode} (h : applyCurrentUserReferralCode c s = .ok t) : t.accounts = s.accounts := by
  unfold applyCurrentUserReferralCode at h
  obtain ⟨code, -, h⟩ := bind_eq_ok.mp h
  cases code with
  | none => simp [throw, throwThe, MonadExceptOf.throw] at h
  | some code =>
    dsimp only at h
    rw [mapError_eq_ok] at h
    unfold Network.applyCode at h
    split at h
    · exact absurd h (by simp)
    · split_ifs at h
      split at h
      · exact absurd h (by simp)
      · next referrerId _ =>
        split_ifs at h
        have hreferral : (s.refer referrerId c.userId).createReferral c.referralId (some code) (some referrerId) c.userId c.now =
            .ok t := h
        rw [createReferral_accounts hreferral, refer_accounts]

theorem overlay_accounts {now : ℤ} : ∀ {writes : List Write} {s : Network}, s.overlay now writes = some t →
    t.accounts = s.accounts
  | [], _, h => by rw [← Option.some.inj h]
  | w :: writes, s, h => by
    obtain ⟨v, hv, h⟩ := Option.bind_eq_some_iff.mp h
    rw [overlay_accounts h]
    cases w with
    | skip id reason => rw [← Option.some.inj hv]; rfl
    | validate id => rw [← Option.some.inj hv]; rfl
    | reward w =>
      obtain ⟨rewards, -, rfl⟩ := Option.map_eq_some_iff.mp hv
      rfl

theorem deleteUser_accounts (s : Network) (userId now : ℤ) :
    (s.deleteUser userId now).accounts = s.accounts.deleteUser userId := by
  have hrows : (s.deleteUser userId now).accounts.users = (s.accounts.deleteUser userId).users := by
    refine Table.ext ?_
    show ((s.users.rows.filter fun m => !decide (m.id = userId)).map fun m =>
        if decide (m.referredByUserId = some userId) = true then m.unrefer else m).map Member.toUserRow =
      (s.users.rows.map Member.toUserRow).filter fun u => !decide (u.id = userId)
    rw [List.map_map, List.filter_map]
    refine List.map_congr_left fun m _ => ?_
    show Member.toUserRow (if decide (m.referredByUserId = some userId) = true then m.unrefer else m) = m.toUserRow
    split_ifs <;> rfl
  show (⟨⟨(s.deleteUser userId now).accounts.users, _, _⟩, _⟩ : AccountStore) = _
  rw [hrows]
  rfl

/-- What a completed call does on the account columns: a registration and a
sign-in, with their answer, what the endpoint does without the codes. -/
def OnAccounts (g : AccountSettings) (s : Network) (call : NetworkCall) (t : Network) : Prop :=
  match call with
  | .register r =>
    ∃ id, registerUser g r s = .ok (id, t) ∧ Auth.registerUser g r.toRegistration s.accounts = .ok (id, t.accounts)
  | .signIn c => ∃ id, authenticateWithProvider g c s = .ok (id, t) ∧
      Auth.authenticateWithProvider g c.toSignIn s.accounts = .ok (id, t.accounts)
  | .resend r => ∃ userId, resendEmailVerification g r s.accounts = .ok (userId, t.accounts)
  | .verify r => t.accounts = (verifyEmail g r s.accounts).2
  | .login l => ∃ id, loginUser g l s.accounts = .ok (id, t.accounts)
  | .apply _ => t.accounts = s.accounts
  | .process _ => t.accounts = s.accounts
  | .delete userId _ => t.accounts = s.accounts.deleteUser userId

/-- **A call of the network on the accounts.** -/
theorem onAccounts_of_ok (h : networkCall g call s = .ok (u, t)) : OnAccounts g.account s call t := by
  cases call with
  | register r =>
    obtain ⟨⟨id, v⟩, hregister, hv⟩ := map_eq_ok.mp h
    obtain rfl : v = t := (Prod.mk.inj hv).2
    exact ⟨id, hregister, registerUser_accounts hregister⟩
  | signIn c =>
    obtain ⟨⟨id, v⟩, hsignIn, hv⟩ := map_eq_ok.mp h
    obtain rfl : v = t := (Prod.mk.inj hv).2
    exact ⟨id, hsignIn, authenticateWithProvider_accounts hsignIn⟩
  | resend r =>
    unfold networkCall at h
    obtain ⟨⟨userId, accounts⟩, hresend, hv⟩ := map_eq_ok.mp h
    obtain rfl : s.adopt accounts = t := (Prod.mk.inj hv).2
    refine ⟨userId, ?_⟩
    rw [resend_accounts hresend]
    exact hresend
  | verify r =>
    obtain rfl := (Prod.mk.inj (Except.ok.inj h)).2
    exact verify_accounts g.account r s
  | login l =>
    unfold networkCall at h
    obtain ⟨⟨id, accounts⟩, hlogin, hv⟩ := map_eq_ok.mp h
    obtain rfl : s.adopt accounts = t := (Prod.mk.inj hv).2
    refine ⟨id, ?_⟩
    rw [login_accounts hlogin]
    exact hlogin
  | apply c =>
    unfold networkCall at h
    obtain ⟨v, happly, hv⟩ := map_eq_ok.mp h
    have hv : ((), v) = (u, t) := hv
    obtain rfl : v = t := (Prod.mk.inj hv).2
    exact applyCode_accounts happly
  | process b =>
    unfold networkCall processBatch at h
    dsimp only at h
    cases hoverlay : s.overlay b.now (committedWrites (processItems g.referral b.now b.fate (b.rows g.referral s) s.store).1) with
    | none => simp [hoverlay] at h
    | some v =>
      rw [hoverlay] at h
      obtain rfl := (Prod.mk.inj (Except.ok.inj h)).2
      exact overlay_accounts hoverlay
  | delete userId now =>
    unfold networkCall at h
    dsimp only at h
    split_ifs at h
    obtain rfl := (Prod.mk.inj (Except.ok.inj h)).2
    exact deleteUser_accounts s userId now

/-- So it is a step of the accounts, or none. -/
theorem OnAccounts.step {g : AccountSettings} (h : OnAccounts g s call t) :
    t.accounts = s.accounts ∨ AccountStep g s.accounts t.accounts := by
  cases call with
  | register r =>
    obtain ⟨id, -, hregister⟩ := h
    have hstep := AccountStep.call (g := g) (s := s.accounts) (.register r.toRegistration)
    rw [respond, hregister] at hstep
    exact Or.inr hstep
  | signIn c =>
    obtain ⟨id, -, hsignIn⟩ := h
    have hstep := AccountStep.call (g := g) (s := s.accounts) (.signIn c.toSignIn)
    rw [respond, hsignIn] at hstep
    exact Or.inr hstep
  | resend r =>
    obtain ⟨userId, hresend⟩ := h
    have hstep := AccountStep.call (g := g) (s := s.accounts) (.resend r)
    rw [respond, hresend] at hstep
    exact Or.inr hstep
  | verify r =>
    have h : t.accounts = (verifyEmail g r s.accounts).2 := h
    rw [h]
    exact Or.inr (.call (.verify r))
  | login l =>
    obtain ⟨id, hlogin⟩ := h
    have hstep := AccountStep.call (g := g) (s := s.accounts) (.login l)
    rw [respond, hlogin] at hstep
    exact Or.inr hstep
  | apply c => exact Or.inl h
  | process b => exact Or.inl h
  | delete userId now =>
    have h : t.accounts = s.accounts.deleteUser userId := h
    rw [h]
    exact Or.inr (.delete userId)

/-- **The accounts go through what their own endpoints do.** In every run of the
network, with any codes, each completed call does on the accounts what it does
without the codes, so they are as some calls of the account endpoints and
deletions lead to. -/
theorem accounts_simulated (h : Run (networkCall g) s l t) :
    EveryStep (networkCall g) s (fun x call _ y => OnAccounts g.account x call y) l ∧
      Relation.ReflTransGen (AccountStep g.account) s.accounts t.accounts := by
  refine ⟨fun _ _ _ _ _ _ _ _ hop => onAccounts_of_ok hop, ?_⟩
  induction h with
  | start => exact .refl
  | done _ hop ih =>
    rcases (onAccounts_of_ok hop).step with heq | hstep
    · rw [heq]
      exact ih
    · exact ih.tail hstep
  | refused _ _ ih => exact ih

/-- The user 1 signs in, the user 2 with the code of the user 1, and the user 2 is deleted. -/
theorem accounts_simulated_sample :
    sampleLeftStore.accounts.users.rows.map (·.id) = [1] ∧
      sampleInvitedStore.accounts.users.rows.map (·.id) = [1, 2] ∧
      EveryStep (networkCall sampleNetwork) Network.empty (fun x call _ y => OnAccounts sampleNetwork.account x call y)
        ((execute (networkCall sampleNetwork) Network.empty sampleInvited).1 ++
          (execute (networkCall sampleNetwork) sampleInvitedStore sampleLeft).1) ∧
      Relation.ReflTransGen (AccountStep sampleNetwork.account) Network.empty.accounts sampleLeftStore.accounts :=
  ⟨by decide +kernel, by decide +kernel, accounts_simulated (sampleInvited_run.trans sampleLeft_run)⟩

end Simulation

end Referrals
end FuelNear
