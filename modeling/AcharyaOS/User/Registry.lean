import AcharyaOS.User.Session

/-!
# The registry invariant

The table is keyed by username, an account's uid is its slot, and the active uid is that of
an enabled account.  The calls find their account by name, so that an account once in the
table keeps its slot; only `user_disable` takes an account out of use, and it spares the
active one.
-/

namespace AcharyaOS.User

open Foundation Foundation.Run

/-- The username of an account, `none` in a free slot. -/
def UserEntry.name (e : UserEntry) : Option (List UInt8) :=
  if e.present then some (cText e.username.toList) else none

def UserState.names (s : UserState) (i : Fin userEntryMax) : Option (List UInt8) :=
  (s.users i).name

/-- Usernames are distinct and the account in slot `i` has uid `i + 1`. -/
structure Accounts (s : UserState) : Prop where
  distinct : Distinct s.names
  uid_eq : ∀ i, (s.users i).present = true → (s.users i).uid = UInt32.ofNat (i.val + 1)

/-- The active uid belongs to exactly one account, which is enabled. -/
structure Registry (s : UserState) : Prop extends Accounts s where
  active_unique : ∃! i, (s.users i).present = true ∧ (s.users i).uid = s.activeUid
  active_enabled : ∀ i, (s.users i).present = true → (s.users i).uid = s.activeUid →
    (s.users i).enabled = true

/-- The bound on usernames that the shell keeps. -/
def UserCall.Fits : UserCall → Prop
  | .add (some username) _ _ => username.length < userNameMax
  | _ => True

def userCallStep (s : UserState) (c : UserCall) : UserState := (c.perform s).1

/-- Slot `i` holds the active account, and it is enabled. -/
structure ActiveAt (s : UserState) (i : Fin userEntryMax) : Prop where
  present : (s.users i).present = true
  uid_eq : (s.users i).uid = s.activeUid
  enabled : (s.users i).enabled = true

theorem uid_inj {i j : Fin userEntryMax}
    (h : UInt32.ofNat (i.val + 1) = UInt32.ofNat (j.val + 1)) : i = j := by
  have hi := i.isLt
  have hj := j.isLt
  have hval := congrArg UInt32.toNat h
  simp only [userEntryMax, UInt32.toNat_ofNat'] at hi hj hval
  apply Fin.ext
  omega

theorem Accounts.registry {s : UserState} (h : Accounts s) {i : Fin userEntryMax}
    (hactive : ActiveAt s i) : Registry s := by
  have honly : ∀ j, (s.users j).present = true → (s.users j).uid = s.activeUid → j = i := by
    intro j hj huid
    apply uid_inj
    rw [← h.uid_eq j hj, ← h.uid_eq i hactive.present, huid, hactive.uid_eq]
  refine ⟨h, ⟨i, ⟨hactive.present, hactive.uid_eq⟩, fun j hj => honly j hj.1 hj.2⟩, ?_⟩
  intro j hj huid
  rw [honly j hj huid]
  exact hactive.enabled

theorem Registry.exists_activeAt {s : UserState} (h : Registry s) : ∃ i, ActiveAt s i := by
  obtain ⟨i, ⟨hpresent, huid⟩, -⟩ := h.active_unique
  exact ⟨i, hpresent, huid, h.active_enabled i hpresent huid⟩

/-! ## Looking up -/

theorem UserEntry.name_eq_some_iff {e : UserEntry} {u : List UInt8} :
    e.name = some u ↔ e.present = true ∧ cText e.username.toList = u := by
  unfold UserEntry.name
  split
  · next hpresent => simp [hpresent]
  · next hpresent => simp [hpresent]

theorem userFind_eq (s : UserState) (username : CString) :
    userFind s username = slotOf s.names username.bytes := by
  unfold userFind slotOf UserState.names
  congr 1
  ext i : 1
  rw [Bool.eq_iff_iff, Bool.and_eq_true, beq_iff_eq, strcmp_eq_zero_iff, cText_bytes,
    decide_eq_true_iff, UserEntry.name_eq_some_iff]

theorem userFindFree_some {s : UserState} {i : Fin userEntryMax}
    (h : userFindFree s = some i) : (s.users i).present = false := by
  have hfree := firstSlot_some h
  simpa using hfree

section Entries

variable {s : UserState} {idx : Fin userEntryMax} {e : UserEntry}

theorem setEntry_self : (s.setEntry idx e).users idx = e := Function.update_self _ _ _

theorem setEntry_of_ne {i : Fin userEntryMax} (hi : i ≠ idx) :
    (s.setEntry idx e).users i = s.users i := Function.update_of_ne hi _ _

theorem names_setEntry : (s.setEntry idx e).names = Function.update s.names idx e.name := by
  ext i : 1
  unfold UserState.names
  by_cases hi : i = idx
  · rw [hi, setEntry_self, Function.update_self]
  · rw [setEntry_of_ne hi, Function.update_of_ne hi]

theorem Accounts.change (h : Accounts s) (hname : e.username = (s.users idx).username)
    (huid : e.uid = (s.users idx).uid) : Accounts (s.setEntry idx e) := by
  have hpresent : e.present = (s.users idx).present := by
    unfold UserEntry.present
    rw [hname]
  have hkey : e.name = s.names idx := by
    unfold UserState.names UserEntry.name
    rw [hpresent, hname]
  constructor
  · rw [names_setEntry, hkey, Function.update_eq_self]
    exact h.distinct
  · intro i hi
    by_cases hidx : i = idx
    · rw [hidx, setEntry_self] at hi ⊢
      rw [huid]
      exact h.uid_eq idx (hpresent ▸ hi)
    · rw [setEntry_of_ne hidx] at hi ⊢
      exact h.uid_eq i hi

/-- An account that changes stays enabled if it is the active one. -/
theorem Registry.change (h : Registry s) (hname : e.username = (s.users idx).username)
    (huid : e.uid = (s.users idx).uid)
    (henabled : (s.users idx).uid = s.activeUid → (s.users idx).enabled = true →
      e.enabled = true) : Registry (s.setEntry idx e) := by
  obtain ⟨i, hactive⟩ := h.exists_activeAt
  apply (h.toAccounts.change hname huid).registry (i := i)
  by_cases hi : i = idx
  · subst hi
    have hpresent : e.present = (s.users i).present := by
      unfold UserEntry.present
      rw [hname]
    exact ⟨by rw [setEntry_self, hpresent]; exact hactive.present,
      by rw [setEntry_self, huid]; exact hactive.uid_eq,
      by rw [setEntry_self]; exact henabled hactive.uid_eq hactive.enabled⟩
  · exact ⟨by rw [setEntry_of_ne hi]; exact hactive.present,
      by rw [setEntry_of_ne hi]; exact hactive.uid_eq,
      by rw [setEntry_of_ne hi]; exact hactive.enabled⟩

end Entries

/-! ## Adding accounts -/

section Add

variable {s : UserState} {idx : Fin userEntryMax} {username fullName : CString}
  {role : UserRole} {enabled : Bool}

theorem name_userFillEntry (e : UserEntry) (hne : username.bytes ≠ [])
    (hlen : username.length < userNameMax) :
    (userFillEntry e idx username fullName role enabled).name = some username.bytes := by
  have htext : cText (userCopyText e.username username).toList = username.bytes := by
    show cText (boundedCopy e.username.toList username.bytes) = username.bytes
    rw [cText_boundedCopy _ _ username.no_nul]
    apply List.take_of_length_le
    have hsize : e.username.toList.length = userNameMax := e.username.length_toList
    unfold CString.length at hlen
    omega
  rw [UserEntry.name_eq_some_iff]
  refine ⟨?_, htext⟩
  unfold UserEntry.present
  rw [bne_iff_ne, ne_eq, ← cText_eq_nil_iff]
  exact htext ▸ hne

theorem Accounts.fill (h : Accounts s) (hfind : userFind s username = none)
    (hne : username.bytes ≠ []) (hlen : username.length < userNameMax) :
    Accounts (s.setEntry idx
      (userFillEntry (s.users idx) idx username fullName role enabled)) := by
  rw [userFind_eq, slotOf_eq_none_iff] at hfind
  constructor
  · rw [names_setEntry, name_userFillEntry _ hne hlen]
    apply h.distinct.update
    intro x hx j _
    rw [← Option.some.inj hx]
    exact hfind j
  · intro i hi
    by_cases hidx : i = idx
    · rw [hidx, setEntry_self]
      rfl
    · rw [setEntry_of_ne hidx] at hi ⊢
      exact h.uid_eq i hi

theorem Accounts.userRegister (h : Accounts s) (hfind : userFind s username = none)
    (hne : username.bytes ≠ []) (hlen : username.length < userNameMax) :
    Accounts (userRegister s username fullName role enabled) := by
  unfold User.userRegister
  split
  · exact h
  · exact h.fill hfind hne hlen

theorem bytes_ne_nil_of_charAt (h : ¬ (username.charAt 0 == 0) = true) :
    username.bytes ≠ [] := by
  intro hnil
  apply h
  unfold CString.charAt
  rw [hnil]
  rfl

theorem Registry.add (h : Registry s) (username fullName : Option CString) (role : UserRole)
    (hfits : (UserCall.add username fullName role).Fits) :
    Registry (userAdd s username fullName role).1 := by
  unfold userAdd
  split
  · next username fullName =>
      split
      · exact h
      · next hne =>
          split
          · exact h
          · next hfind =>
              split
              · exact h
              · next idx hfree =>
                  obtain ⟨i, hactive⟩ := h.exists_activeAt
                  have hi : i ≠ idx := by
                    rintro rfl
                    exact absurd hactive.present (by simp [userFindFree_some hfree])
                  have hnone : userFind s username = none := by simpa using hfind
                  apply (h.toAccounts.fill hnone (bytes_ne_nil_of_charAt hne) hfits).registry
                    (i := i)
                  exact ⟨by rw [setEntry_of_ne hi]; exact hactive.present,
                    by rw [setEntry_of_ne hi]; exact hactive.uid_eq,
                    by rw [setEntry_of_ne hi]; exact hactive.enabled⟩
  · exact h

end Add

/-! ## Runs -/

theorem accounts_userInit : Accounts userInit := by
  have hempty : Accounts ⟨fun _ => .zero, 0, false⟩ := ⟨Distinct.free, fun _ h => by cases h⟩
  have hroot : Accounts (userRegister _ rootName rootFullName .admin true) :=
    hempty.userRegister (by decide +kernel) (by decide) (by decide)
  have hadmin : Accounts (userRegister _ adminName adminFullName .admin true) :=
    hroot.userRegister (by decide +kernel) (by decide) (by decide)
  have hguest : Accounts (userRegister _ guestName guestFullName .guest true) :=
    hadmin.userRegister (by decide +kernel) (by decide) (by decide)
  exact ⟨hguest.distinct, hguest.uid_eq⟩

theorem registry_userInit : Registry userInit :=
  accounts_userInit.registry (i := 0) ⟨by decide +kernel, by decide +kernel, by decide +kernel⟩

theorem Registry.switch {s : UserState} (h : Registry s) {username : CString}
    {idx : Fin userEntryMax} (hfind : userFind s username = some idx)
    (henabled : (s.users idx).enabled = true) (authenticated : Bool) :
    Registry { s with
      activeUid := (s.users idx).uid
      authenticated := authenticated } := by
  have haccounts : Accounts { s with
      activeUid := (s.users idx).uid
      authenticated := authenticated } := ⟨h.distinct, h.uid_eq⟩
  exact haccounts.registry (i := idx) ⟨(userFind_some hfind).1, rfl, henabled⟩

theorem Registry.login {s : UserState} (h : Registry s) (username : CString)
    (password : Option CString) : Registry (userLogin s username password).1 := by
  unfold userLogin
  split
  · exact h
  · next idx hfind =>
      split
      · exact h
      · next henabled =>
          split
          · exact h
          · split
            · exact h.change rfl rfl fun _ henabled => henabled
            · have hswitch := h.switch hfind (by simpa using henabled) true
              exact hswitch.change rfl rfl fun _ henabled => henabled

theorem Registry.step {s : UserState} (h : Registry s) (c : UserCall) (hfits : c.Fits) :
    Registry (userCallStep s c) := by
  unfold userCallStep
  cases c with
  | add username fullName role => exact h.add username fullName role hfits
  | enable username =>
      show Registry (userEnable s username).1
      unfold userEnable
      split
      · exact h
      · exact h.change rfl rfl fun _ _ => rfl
  | disable username =>
      show Registry (userDisable s username).1
      unfold userDisable
      split
      · exact h
      · split
        · exact h
        · next hother =>
            refine h.change rfl rfl fun hactive => ?_
            exact absurd (beq_iff_eq.mpr hactive) hother
  | setActive username =>
      show Registry (userSetActive s username).1
      unfold userSetActive
      split
      · exact h
      · next idx hfind =>
          split
          · exact h
          · next henabled => exact h.switch hfind (by simpa using henabled) s.authenticated
  | setPassword username password =>
      show Registry (userSetPassword s username password).1
      unfold userSetPassword
      split
      · exact h.change rfl rfl fun _ henabled => henabled
      · exact h
  | login username password => exact h.login username password
  | logout => exact ⟨⟨h.distinct, h.uid_eq⟩, h.active_unique, h.active_enabled⟩

/-- No order of calls leaves two accounts of one name, an account with another slot's uid,
or the session on a missing or disabled account. -/
theorem registry_run (calls : List UserCall) (h : ∀ c ∈ calls, c.Fits) :
    AllStates userCallStep Registry userInit calls := by
  have hsteps : AllSteps userCallStep (fun _ c => c.Fits) userInit calls :=
    (allSteps_iff_forall_mem calls userInit).mpr h
  exact AllSteps.allStates (I := Registry) (fun s c hs hc => hs.step c hc) (fun _ hs => hs)
    calls registry_userInit hsteps

theorem registry_run_disable :
    AllStates userCallStep Registry userInit [.setActive guestName, .disable rootName] :=
  registry_run _ (by simp [UserCall.Fits])

end AcharyaOS.User
