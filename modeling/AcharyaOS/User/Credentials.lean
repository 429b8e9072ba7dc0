import AcharyaOS.Foundation.Keyed
import AcharyaOS.User.Directory

/-!
# What a login is decided by

The part of an account that decides a login, and the calls that change it: only those on the
account itself.
-/

namespace AcharyaOS.User

open Foundation

/-- Whether the account is in use, and the hash of its password. -/
def Account.credential (a : Account) : Bool × UInt64 := (a.enabled, a.hash)

namespace Directory

variable {d : Directory} {name other : List UInt8} {c : Bool × UInt64}

/-- The account a name stands for. -/
def account (d : Directory) (name : List UInt8) : Option Account :=
  d.accounts.find? fun a => a.name == name

def credential (d : Directory) (name : List UInt8) : Option (Bool × UInt64) :=
  (d.account name).map Account.credential

theorem getElem?_position {i : Nat} (hi : d.position name = some i) :
    d.accounts[i]? = d.account name :=
  Keyed.getElem?_of_findIdx? hi

theorem account_of_position_none (hnone : d.position name = none) : d.account name = none :=
  Keyed.find?_of_findIdx?_none hnone

theorem account_change {i : Nat} (hi : d.position other = some i) {f : Account → Account}
    (hf : ∀ a, (f a).name = a.name) (name : List UInt8) :
    (d.change i f).account name =
      if name == other then (d.account other).map f else d.account name :=
  Keyed.find?_modify hf hi name

theorem credential_change {i : Nat} (hi : d.position other = some i) {f : Account → Account}
    (hf : ∀ a, (f a).name = a.name) (hsame : ∀ a, (f a).credential = a.credential) :
    (d.change i f).credential name = d.credential name := by
  rw [credential, credential, account_change hi hf]
  split
  · next heq =>
    rw [eq_of_beq heq, Option.map_map]
    cases d.account other with
    | none => rfl
    | some a => exact congrArg some (hsame a)
  · rfl

theorem credential_change_of_ne {i : Nat} (hi : d.position other = some i) (hne : other ≠ name)
    {f : Account → Account} (hf : ∀ a, (f a).name = a.name) :
    (d.change i f).credential name = d.credential name := by
  rw [credential, account_change hi hf, if_neg fun h => hne (eq_of_beq h).symm]
  rfl

theorem credential_onAccount {call : Nat → Account → Option Directory}
    (hcall : ∀ i a d', d.position other = some i → d.accounts[i]? = some a → call i a = some d' →
      d'.credential name = d.credential name) :
    (d.onAccount other call).1.credential name = d.credential name := by
  unfold onAccount
  cases hposition : d.position other with
  | none => rfl
  | some i =>
    cases hresult : (d.accounts[i]?).bind (call i) with
    | none => simp only [hresult]
    | some d' =>
      obtain ⟨a, hget, ha⟩ := Option.bind_eq_some_iff.mp hresult
      simp only [hresult]
      exact hcall i a d' hposition hget ha

theorem credential_disable (hne : other ≠ name) :
    (d.disable other).1.credential name = d.credential name := by
  apply credential_onAccount
  intro i a d' hposition _ hd'
  rw [Option.ite_none_left_eq_some, Option.some.injEq] at hd'
  rw [← hd'.2]
  exact credential_change_of_ne hposition hne fun _ => rfl

theorem credential_setPassword_of_ne (hne : other ≠ name) (password : CString) :
    (d.setPassword other password).1.credential name = d.credential name := by
  apply credential_onAccount
  intro i a d' hposition _ hd'
  rw [← Option.some.inj hd']
  exact credential_change_of_ne hposition hne fun _ => rfl

theorem credential_setActive : (d.setActive other).1.credential name = d.credential name := by
  apply credential_onAccount
  intro i a d' _ _ hd'
  rw [Option.ite_none_right_eq_some, Option.some.injEq] at hd'
  rw [← hd'.2]
  rfl

/-- A wrong password locks the account, which no login looks at. -/
theorem credential_login (password : CString) :
    (d.login other password).1.credential name = d.credential name := by
  unfold login
  cases hposition : d.position other with
  | none => rfl
  | some i =>
    cases hget : d.accounts[i]? with
    | none => simp only [hget]
    | some a =>
      simp only [hget]
      split
      · rfl
      · split
        · exact credential_change hposition (fun _ => rfl) fun _ => rfl
        · exact credential_change hposition (fun _ => rfl) fun _ => rfl

theorem credential_add (h : d.credential name = some c) (fullName : List UInt8) (role : UserRole) :
    (d.add other fullName role).1.credential name = some c := by
  obtain ⟨a, ha, hc⟩ := Option.map_eq_some_iff.mp h
  unfold add
  split
  · exact h
  · split
    · exact h
    · split
      · rw [credential, account, Keyed.find?_append_of_some ha, Option.map_some, hc]
      · exact h

theorem credential_setPassword (h : d.credential name = some c) (password : CString) :
    (d.setPassword name password).1.credential name =
      some (c.1, userHashPassword password) := by
  obtain ⟨a, ha, rfl⟩ := Option.map_eq_some_iff.mp h
  unfold setPassword onAccount
  cases hposition : d.position name with
  | none =>
    rw [account_of_position_none hposition] at ha
    exact absurd ha.symm (Option.some_ne_none a)
  | some i =>
    have hget : d.accounts[i]? = some a := (getElem?_position hposition).trans ha
    have hchange := account_change hposition
      (f := fun a => { a with hash := userHashPassword password, locked := false })
      (fun _ => rfl) name
    simp only [hget, Option.bind_some]
    rw [credential, hchange, if_pos (beq_self_eq_true name), ha]
    rfl

/-- What a login is decided by. -/
theorem login_accepts (h : d.credential name = some c) (password : CString) :
    (d.login name password).2 = (c.1 && c.2 != 0 && c.2 == userHashPassword password) := by
  obtain ⟨a, ha, rfl⟩ := Option.map_eq_some_iff.mp h
  unfold login
  cases hposition : d.position name with
  | none =>
    rw [account_of_position_none hposition] at ha
    exact absurd ha.symm (Option.some_ne_none a)
  | some i =>
    have hget : d.accounts[i]? = some a := (getElem?_position hposition).trans ha
    simp only [hget, Account.credential]
    cases a.enabled with
    | false => rfl
    | true =>
      cases hzero : a.hash == 0 with
      | true => simp [bne, hzero]
      | false =>
        cases hsame : a.hash == userHashPassword password with
        | true => simp [bne, hzero]
        | false => simp [bne]

end Directory

end AcharyaOS.User
