import AcharyaOS.Foundation.Run
import AcharyaOS.User.Code

/-!
# The authenticated identity

The session is sound while `active_uid` is the account whose password was checked
last.  Logging in and out keep it so; `user_set_active` does not look at the
session at all.
-/

namespace AcharyaOS.User

open Foundation Foundation.Run

inductive UserCall
  | add (username fullName : Option CString) (role : UserRole)
  | enable (username : CString)
  | disable (username : CString)
  | setActive (username : CString)
  | setPassword (username : CString) (password : Option CString)
  | login (username : CString) (password : Option CString)
  | logout

/-- The state a call leaves and its result; `user_logout` returns nothing. -/
def UserCall.perform (s : UserState) : UserCall → UserState × Int
  | .add username fullName role => userAdd s username fullName role
  | .enable username => userEnable s username
  | .disable username => userDisable s username
  | .setActive username => userSetActive s username
  | .setPassword username password => userSetPassword s username password
  | .login username password => userLogin s username password
  | .logout => (userLogout s, 0)

/-- The static variables and, for the specification only, the uid of the account the
last successful login since the last logout has checked. -/
structure UserSession where
  state : UserState
  checked : Option UInt32

/-- The account a call proves the password of, if it is a login that succeeds. -/
def checkedBy (s : UserState) : UserCall → Option UInt32
  | .login username password =>
      if (userLogin s username password).2 = 0 then
        (userFind s username).map fun idx => (s.users idx).uid
      else none
  | _ => none

def userStep (g : UserSession) (c : UserCall) : UserSession where
  state := (c.perform g.state).1
  checked :=
    match c with
    | .logout => none
    | c => (checkedBy g.state c).or g.checked

def userStart : UserSession := ⟨userCreateDefaultPasswords userInit, none⟩

/-- An authenticated session belongs to the account that was checked. -/
def UserSession.Authentic (g : UserSession) : Prop :=
  g.state.authenticated = true → g.checked = some g.state.activeUid

instance (g : UserSession) : Decidable g.Authentic :=
  inferInstanceAs (Decidable (_ → _))

/-- A `user_set_active` that is refused, meets no authenticated session, or names the
account that is active already. -/
def SwitchHarmless (g : UserSession) : UserCall → Prop
  | .setActive username =>
      ∀ idx, userFind g.state username = some idx → (g.state.users idx).enabled = true →
        g.state.authenticated = true → (g.state.users idx).uid = g.state.activeUid
  | _ => True

/-! ## Single calls -/

theorem session_unchanged (s : UserState) {c : UserCall}
    (hswitch : ∀ u, c ≠ .setActive u) (hlogin : ∀ u p, c ≠ .login u p) (hlogout : c ≠ .logout) :
    (c.perform s).1.activeUid = s.activeUid ∧
      (c.perform s).1.authenticated = s.authenticated := by
  cases c with
  | add username fullName role =>
      cases username with
      | none => exact ⟨rfl, rfl⟩
      | some username =>
          cases fullName with
          | none => exact ⟨rfl, rfl⟩
          | some fullName =>
              simp only [UserCall.perform, userAdd]
              split
              · exact ⟨rfl, rfl⟩
              · split
                · exact ⟨rfl, rfl⟩
                · split <;> exact ⟨rfl, rfl⟩
  | enable username =>
      simp only [UserCall.perform, userEnable]
      split <;> exact ⟨rfl, rfl⟩
  | disable username =>
      simp only [UserCall.perform, userDisable]
      split
      · exact ⟨rfl, rfl⟩
      · split <;> exact ⟨rfl, rfl⟩
  | setActive username => exact absurd rfl (hswitch username)
  | setPassword username password =>
      simp only [UserCall.perform, userSetPassword]
      split <;> exact ⟨rfl, rfl⟩
  | login username password => exact absurd rfl (hlogin username password)
  | logout => exact absurd rfl hlogout

/-- A login fails and leaves the session alone, or makes it the checked account's. -/
theorem userLogin_cases (s : UserState) (username : CString) (password : Option CString) :
    ((userLogin s username password).2 = -1 ∧
        (userLogin s username password).1.activeUid = s.activeUid ∧
        (userLogin s username password).1.authenticated = s.authenticated) ∨
      ∃ idx, userFind s username = some idx ∧ userCheckPassword s username password = 0 ∧
        (userLogin s username password).2 = 0 ∧
        (userLogin s username password).1.activeUid = (s.users idx).uid := by
  unfold userLogin
  cases hfind : userFind s username with
  | none => exact Or.inl ⟨rfl, rfl, rfl⟩
  | some idx =>
      by_cases henabled : (s.users idx).enabled = true
      · by_cases hhash : (s.users idx).passwordHash = 0
        · left
          simp [henabled, hhash]
        · by_cases hcheck : userCheckPassword s username password = 0
          · right
            refine ⟨idx, rfl, hcheck, ?_⟩
            simp [henabled, hhash, hcheck, UserState.setEntry]
          · left
            simp [henabled, hhash, hcheck, UserState.setEntry]
      · left
        simp [henabled]

theorem userFind_some {s : UserState} {username : CString} {idx : Fin userEntryMax}
    (h : userFind s username = some idx) :
    (s.users idx).present = true ∧
      cText (s.users idx).username.toList = username.bytes := by
  have hboth := firstSlot_some h
  rw [Bool.and_eq_true, beq_iff_eq, strcmp_eq_zero_iff, cText_bytes] at hboth
  exact hboth

theorem userLogin_sound {s : UserState} {username : CString} {password : Option CString}
    (hok : (userLogin s username password).2 = 0) :
    ∃ idx text, password = some text ∧
      cText (s.users idx).username.toList = username.bytes ∧
      (s.users idx).passwordHash = userHashPassword text ∧
      (userLogin s username password).1.activeUid = (s.users idx).uid := by
  rcases userLogin_cases s username password with ⟨hfail, -⟩ | ⟨idx, hfind, hcheck, -, hactive⟩
  · rw [hok] at hfail
    exact absurd hfail (by decide)
  · unfold userCheckPassword at hcheck
    rw [hfind] at hcheck
    cases password with
    | none => simp at hcheck
    | some text =>
        refine ⟨idx, text, rfl, (userFind_some hfind).2, ?_, hactive⟩
        by_contra hhash
        simp [hhash] at hcheck

theorem authentic_login {g : UserSession} (h : g.Authentic) (username : CString)
    (password : Option CString) : (userStep g (.login username password)).Authentic := by
  unfold UserSession.Authentic userStep checkedBy
  rcases userLogin_cases g.state username password with
    ⟨hfail, hactive, hauth⟩ | ⟨idx, hfind, -, hok, hactive⟩
  · simp only [UserCall.perform, hfail, hactive, hauth]
    exact h
  · intro _
    simp only [UserCall.perform, hok, hfind, hactive, if_true, Option.map_some, Option.some_or]

theorem authentic_setActive_iff {g : UserSession} (h : g.Authentic) (username : CString) :
    (userStep g (.setActive username)).Authentic ↔
      SwitchHarmless g (.setActive username) := by
  unfold UserSession.Authentic at h
  simp only [UserSession.Authentic, userStep, checkedBy, UserCall.perform, SwitchHarmless,
    userSetActive, Option.none_or]
  cases hfind : userFind g.state username with
  | none => simpa using h
  | some idx =>
      by_cases henabled : (g.state.users idx).enabled = true
      · simp only [henabled, Bool.not_true, Bool.false_eq_true, if_false, Option.some.injEq,
          forall_eq', forall_const]
        constructor
        · intro hafter hauth
          exact (Option.some.inj ((h hauth).symm.trans (hafter hauth))).symm
        · intro hsame hauth
          rw [h hauth, hsame hauth]
      · simp only [henabled, Bool.not_false, if_true, Option.some.injEq, forall_eq',
          Bool.false_eq_true, false_implies, iff_true]
        exact h

theorem authentic_step_iff {g : UserSession} (h : g.Authentic) (c : UserCall) :
    (userStep g c).Authentic ↔ SwitchHarmless g c := by
  have hother : (∀ u, c ≠ .setActive u) → (∀ u p, c ≠ .login u p) → c ≠ .logout →
      (userStep g c).Authentic := by
    intro hswitch hlogin hlogout
    obtain ⟨hactive, hauth⟩ := session_unchanged g.state hswitch hlogin hlogout
    have hchecked : (userStep g c).checked = g.checked := by
      cases c with
      | login username password => exact absurd rfl (hlogin username password)
      | logout => exact absurd rfl hlogout
      | _ => rfl
    intro hafter
    rw [hchecked]
    show g.checked = some (c.perform g.state).1.activeUid
    rw [hactive]
    exact h (hauth.symm.trans hafter)
  cases c with
  | setActive username => exact authentic_setActive_iff h username
  | login username password => exact iff_of_true (authentic_login h username password) trivial
  | logout => exact iff_of_true (fun hauth => absurd hauth Bool.false_ne_true) trivial
  | _ => exact iff_of_true (hother (by simp) (by simp) (by simp)) trivial

/-! ## Runs -/

theorem authentic_start : userStart.Authentic := by
  decide +kernel

/-- A run keeps the session authentic exactly when each of its `user_set_active` calls
is refused, meets no authenticated session or names the active account. -/
theorem authentic_run_iff (calls : List UserCall) :
    AllStates userStep UserSession.Authentic userStart calls ↔
      AllSteps userStep SwitchHarmless userStart calls :=
  allStates_iff_allSteps (I := fun _ => True) (fun _ _ _ => trivial)
    (fun _ c _ h => authentic_step_iff h c) calls userStart trivial authentic_start

/-! ### `login root root`, `su guest` -/

theorem not_authentic_after_su :
    ¬ AllStates userStep UserSession.Authentic userStart
        [.login rootName (some rootName), .setActive guestName] ∧
      (runSteps userStep userStart
        [.login rootName (some rootName), .setActive guestName]).state.authenticated = true ∧
      (runSteps userStep userStart
        [.login rootName (some rootName), .setActive guestName]).state.activeUid = 3 ∧
      (runSteps userStep userStart
        [.login rootName (some rootName), .setActive guestName]).checked = some 1 := by
  refine ⟨?_, by decide +kernel, by decide +kernel, by decide +kernel⟩
  rintro ⟨-, -, hlast⟩
  exact absurd hlast (by
    unfold AllStates
    decide +kernel)

end AcharyaOS.User
