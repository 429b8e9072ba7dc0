import AcharyaOS.Foundation.Field
import AcharyaOS.Foundation.FrontTable
import AcharyaOS.User.Registry

/-!
# The registry as a list of accounts

What the table is for: a list of at most sixteen accounts that only grows, the place of the
active one, and whether its password was checked.  The first account of a name counts.  The
functions of the registry do to the table what is said here of the list, for names of any
length.
-/

namespace AcharyaOS.User

open Foundation

structure Account where
  name : List UInt8
  fullName : List UInt8
  hash : UInt64
  role : UserRole
  enabled : Bool
  locked : Bool
  deriving DecidableEq

structure Directory where
  accounts : List Account
  active : Nat
  authenticated : Bool
  deriving DecidableEq

namespace Directory

def position (d : Directory) (name : List UInt8) : Option Nat :=
  d.accounts.findIdx? fun a => a.name == name

def change (d : Directory) (i : Nat) (f : Account → Account) : Directory :=
  { d with accounts := d.accounts.modify i f }

/-- The account that is stored for a new name. -/
def newAccount (name fullName : List UInt8) (role : UserRole) : Account where
  name := name.take (userNameMax - 1)
  fullName := fullName.take (userFullMax - 1)
  hash := 0
  role := role
  enabled := true
  locked := false

def add (d : Directory) (name fullName : List UInt8) (role : UserRole) : Directory × Bool :=
  if name = [] then (d, false)
  else if (d.position name).isSome then (d, false)
  else if d.accounts.length < userEntryMax then
    ({ d with accounts := d.accounts ++ [newAccount name fullName role] }, true)
  else (d, false)

/-- A call on the account of a name; a call that refuses it leaves everything as it is. -/
def onAccount (d : Directory) (name : List UInt8)
    (call : Nat → Account → Option Directory) : Directory × Bool :=
  match d.position name with
  | none => (d, false)
  | some i =>
      match (d.accounts[i]?).bind (call i) with
      | none => (d, false)
      | some d => (d, true)

def disable (d : Directory) (name : List UInt8) : Directory × Bool :=
  d.onAccount name fun i _ =>
    if i = d.active then none else some (d.change i fun a => { a with enabled := false })

def setActive (d : Directory) (name : List UInt8) : Directory × Bool :=
  d.onAccount name fun i a => if a.enabled then some { d with active := i } else none

def setPassword (d : Directory) (name : List UInt8) (password : CString) : Directory × Bool :=
  d.onAccount name fun i _ =>
    some (d.change i fun a => { a with hash := userHashPassword password, locked := false })

/-- A wrong password locks the account, though the call fails. -/
def login (d : Directory) (name : List UInt8) (password : CString) : Directory × Bool :=
  match d.position name with
  | none => (d, false)
  | some i =>
      match d.accounts[i]? with
      | none => (d, false)
      | some a =>
          if !a.enabled || a.hash == 0 then (d, false)
          else if a.hash == userHashPassword password then
            ({ d.change i fun a => { a with locked := false } with
                active := i
                authenticated := true }, true)
          else (d.change i fun a => { a with locked := true }, false)

def logout (d : Directory) : Directory := { d with authenticated := false }

def activeName (d : Directory) : List UInt8 := (d.accounts[d.active]?).elim [] Account.name

end Directory

/-! ## What the calls keep -/

/-- Names are distinct, and the active account is there and enabled. -/
structure Directory.Sound (d : Directory) : Prop where
  nodup : (d.accounts.map Account.name).Nodup
  active_enabled : ∃ a, d.accounts[d.active]? = some a ∧ a.enabled = true

namespace Directory

variable {d : Directory}

theorem map_name_modify (l : List Account) (i : Nat) {f : Account → Account}
    (hname : ∀ a, (f a).name = a.name) :
    (l.modify i f).map Account.name = l.map Account.name := by
  apply List.ext_getElem?
  intro j
  rw [List.getElem?_map, List.getElem?_map, List.getElem?_modify, Option.map_eq_map,
    Option.map_map]
  cases l[j]? with
  | none => rfl
  | some a =>
    rw [Option.map_some, Option.map_some, Function.comp_apply]
    split
    · rw [hname]
    · rfl

theorem Sound.change (h : d.Sound) (i : Nat) {f : Account → Account}
    (hname : ∀ a, (f a).name = a.name)
    (henabled : ∀ a, i = d.active → a.enabled = true → (f a).enabled = true) :
    (d.change i f).Sound where
  nodup := by
    rw [Directory.change, map_name_modify d.accounts i hname]
    exact h.nodup
  active_enabled := by
    obtain ⟨a, hget, ha⟩ := h.active_enabled
    show ∃ b, (d.accounts.modify i f)[d.active]? = some b ∧ b.enabled = true
    rw [List.getElem?_modify, hget, Option.map_eq_map, Option.map_some]
    by_cases hi : i = d.active
    · exact ⟨f a, by rw [if_pos hi], henabled a hi ha⟩
    · exact ⟨a, by rw [if_neg hi], ha⟩

theorem Sound.moveTo (h : d.Sound) {i : Nat} {a : Account} (hget : d.accounts[i]? = some a)
    (ha : a.enabled = true) (b : Bool) :
    ({ d with active := i, authenticated := b } : Directory).Sound :=
  ⟨h.nodup, a, hget, ha⟩

theorem Sound.onAccount (h : d.Sound) (name : List UInt8)
    {call : Nat → Account → Option Directory}
    (hcall : ∀ i a d', d.accounts[i]? = some a → call i a = some d' → d'.Sound) :
    (d.onAccount name call).1.Sound := by
  unfold Directory.onAccount
  cases d.position name with
  | none => exact h
  | some i =>
    cases hresult : (d.accounts[i]?).bind (call i) with
    | none =>
      simp only [hresult]
      exact h
    | some d' =>
      obtain ⟨a, hget, ha⟩ := Option.bind_eq_some_iff.mp hresult
      simp only [hresult]
      exact hcall i a d' hget ha

theorem Sound.setPassword (h : d.Sound) (name : List UInt8) (password : CString) :
    (d.setPassword name password).1.Sound := by
  apply h.onAccount
  intro i a d' _ hd'
  rw [← Option.some.inj hd']
  exact h.change i (fun _ => rfl) fun _ _ ha => ha

theorem Sound.disable (h : d.Sound) (name : List UInt8) : (d.disable name).1.Sound := by
  apply h.onAccount
  intro i a d' _ hd'
  rw [Option.ite_none_left_eq_some, Option.some.injEq] at hd'
  rw [← hd'.2]
  exact h.change i (fun _ => rfl) fun _ heq => absurd heq hd'.1

theorem Sound.setActive (h : d.Sound) (name : List UInt8) : (d.setActive name).1.Sound := by
  apply h.onAccount
  intro i a d' hget hd'
  rw [Option.ite_none_right_eq_some, Option.some.injEq] at hd'
  rw [← hd'.2]
  exact h.moveTo hget hd'.1 d.authenticated

theorem Sound.login (h : d.Sound) (name : List UInt8) (password : CString) :
    (d.login name password).1.Sound := by
  unfold Directory.login
  cases d.position name with
  | none => exact h
  | some i =>
    cases hget : d.accounts[i]? with
    | none =>
      simp only [hget]
      exact h
    | some a =>
      simp only [hget]
      cases hrefused : !a.enabled || a.hash == 0 with
      | true => exact h
      | false =>
        have ha : a.enabled = true := by
          cases hon : a.enabled with
          | true => rfl
          | false => simp [hon] at hrefused
        cases a.hash == userHashPassword password with
        | true =>
          refine (h.moveTo hget ha true).change i ?_ ?_
          · exact fun _ => rfl
          · exact fun _ _ ha => ha
        | false =>
          refine h.change i ?_ ?_
          · exact fun _ => rfl
          · exact fun _ _ ha => ha

theorem Sound.logout (h : d.Sound) : d.logout.Sound := ⟨h.nodup, h.active_enabled⟩

theorem Sound.add (h : d.Sound) {name : List UInt8} (hlen : name.length < userNameMax)
    (fullName : List UInt8) (role : UserRole) : (d.add name fullName role).1.Sound := by
  unfold Directory.add
  split
  · exact h
  · split
    · exact h
    · next hnew =>
      split
      · refine ⟨?_, ?_⟩
        · have hname : (newAccount name fullName role).name = name :=
            List.take_of_length_le (Nat.le_sub_one_of_lt hlen)
          rw [Option.not_isSome_iff_eq_none, position, List.findIdx?_eq_none_iff] at hnew
          rw [List.map_append, List.map_singleton, hname, List.nodup_append]
          refine ⟨h.nodup, List.nodup_singleton name, fun x hx y hy => ?_⟩
          obtain ⟨a, ha, rfl⟩ := List.mem_map.mp hx
          rw [List.mem_singleton.mp hy]
          simpa using hnew a ha
        · obtain ⟨a, hget, ha⟩ := h.active_enabled
          have hlt := (List.getElem?_eq_some_iff.mp hget).1
          exact ⟨a, (List.getElem?_append_left hlt).trans hget, ha⟩
      · exact h

end Directory

/-! ## The table -/

def UserEntry.account (e : UserEntry) : Account where
  name := cText e.username.toList
  fullName := cText e.fullName.toList
  hash := e.passwordHash
  role := e.role
  enabled := e.enabled
  locked := e.locked

/-- What the slots hold. -/
def userView (s : UserState) (i : Fin userEntryMax) : Option Account :=
  if (s.users i).present then some (s.users i).account else none

/-- The table stands for the directory. -/
structure Describes (s : UserState) (d : Directory) : Prop where
  fills : Fills (userView s) d.accounts
  uid_eq : ∀ i, (s.users i).present = true → (s.users i).uid = UInt32.ofNat (i.val + 1)
  name_lt : ∀ a ∈ d.accounts, a.name.length < userNameMax
  active_lt : d.active < d.accounts.length
  active_eq : s.activeUid = UInt32.ofNat (d.active + 1)
  authenticated_eq : s.authenticated = d.authenticated

/-- The answer of a call: what it leaves, and 0 or -1. -/
structure Answers (r : UserState × Int) (a : Directory × Bool) : Prop where
  describes : Describes r.1 a.1
  code_eq : r.2 = if a.2 then 0 else -1

namespace Describes

variable {s : UserState} {d : Directory}

theorem find_eq (h : Describes s d) (name : CString) :
    (userFind s name).map Fin.val = d.position name.bytes := by
  have hfirst := h.fills.firstSlot_any fun a => a.name == name.bytes
  rw [Directory.position, ← hfirst, userFind]
  congr 2
  ext i : 1
  rw [userView]
  by_cases hpresent : (s.users i).present = true
  · rw [if_pos hpresent, hpresent, Bool.true_and, Option.any_some, Bool.eq_iff_iff, beq_iff_eq,
      strcmp_eq_zero_iff, cText_bytes, beq_iff_eq]
    rfl
  · rw [if_neg hpresent, Bool.eq_false_iff.mpr hpresent, Bool.false_and, Option.any_none]

theorem find_none (h : Describes s d) {name : CString} (hfind : userFind s name = none) :
    d.position name.bytes = none := by
  have hposition := h.find_eq name
  rw [hfind, Option.map_none] at hposition
  exact hposition.symm

theorem find_some (h : Describes s d) {name : CString} {i : Fin userEntryMax}
    (hfind : userFind s name = some i) :
    d.position name.bytes = some i.val ∧ userView s i = some (s.users i).account ∧
      d.accounts[i.val]? = some (s.users i).account := by
  have hposition := h.find_eq name
  rw [hfind, Option.map_some] at hposition
  have hview : userView s i = some (s.users i).account := if_pos (userFind_some hfind).1
  exact ⟨hposition.symm, hview, h.fills.getElem?_of_view hview⟩

theorem view_setEntry (s : UserState) (i : Fin userEntryMax) (e : UserEntry) :
    userView (s.setEntry i e) =
      Function.update (userView s) i (if e.present then some e.account else none) := by
  ext j : 1
  by_cases hj : j = i
  · rw [hj, Function.update_self, userView, setEntry_self]
  · rw [Function.update_of_ne hj, userView, setEntry_of_ne hj, userView]

theorem change (h : Describes s d) {i : Fin userEntryMax} {e : UserEntry}
    (hview : userView s i = some (s.users i).account)
    (hname : e.username = (s.users i).username) (huid : e.uid = (s.users i).uid)
    {f : Account → Account} (hf : e.account = f (s.users i).account) :
    Describes (s.setEntry i e) (d.change i.val f) := by
  have hpresent : e.present = true := by
    have hslot : (s.users i).present = true := by
      by_contra hfree
      rw [userView, if_neg hfree] at hview
      exact absurd hview (Option.some_ne_none _).symm
    rw [UserEntry.present, hname]
    exact hslot
  have hget := h.fills.getElem?_of_view hview
  refine ⟨?_, fun j hj => ?_, fun a ha => ?_, ?_, h.active_eq, h.authenticated_eq⟩
  · rw [view_setEntry, if_pos hpresent, hf]
    exact h.fills.modify hview f
  · by_cases hji : j = i
    · rw [hji, setEntry_self] at hj ⊢
      rw [huid]
      apply h.uid_eq
      rw [UserEntry.present, hname] at hj
      exact hj
    · rw [setEntry_of_ne hji] at hj ⊢
      exact h.uid_eq j hj
  · have hset : d.accounts.modify i.val f = d.accounts.set i.val e.account := by
      rw [List.modify_eq_set_getElem?, hget, hf]
      rfl
    rw [Directory.change, hset] at ha
    rcases List.mem_or_eq_of_mem_set ha with hold | rfl
    · exact h.name_lt a hold
    · have hsame : e.account.name = (s.users i).account.name := by
        rw [UserEntry.account, hname]
        rfl
      rw [hsame]
      exact h.name_lt _ (List.mem_of_getElem? hget)
  · show d.active < (d.accounts.modify i.val f).length
    rw [List.length_modify]
    exact h.active_lt

theorem moveTo (h : Describes s d) {i : Fin userEntryMax}
    (hview : userView s i = some (s.users i).account) (b : Bool) :
    Describes { s with activeUid := (s.users i).uid, authenticated := b }
      { d with active := i.val, authenticated := b } := by
  have hpresent : (s.users i).present = true := by
    by_contra hfree
    rw [userView, if_neg hfree] at hview
    exact absurd hview (Option.some_ne_none _).symm
  exact ⟨h.fills, h.uid_eq, h.name_lt, h.fills.lt_of_view hview, h.uid_eq i hpresent, rfl⟩

theorem uid_active_iff (h : Describes s d) {i : Fin userEntryMax}
    (hpresent : (s.users i).present = true) :
    (s.users i).uid = s.activeUid ↔ i.val = d.active := by
  have hlt := h.active_lt.trans_le h.fills.length_le
  rw [h.uid_eq i hpresent, h.active_eq]
  constructor
  · exact fun heq => congrArg Fin.val (uid_inj (i := i) (j := ⟨d.active, hlt⟩) heq)
  · intro heq
    rw [heq]

/-! ### The calls -/

theorem setPassword (h : Describes s d) (name password : CString) :
    Answers (userSetPassword s name (some password)) (d.setPassword name.bytes password) := by
  unfold userSetPassword Directory.setPassword Directory.onAccount
  cases hfind : userFind s name with
  | none =>
    rw [h.find_none hfind]
    exact ⟨h, rfl⟩
  | some i =>
    obtain ⟨hposition, hview, hget⟩ := h.find_some hfind
    simp only [hposition, hget, Option.bind_some]
    refine ⟨h.change hview ?_ ?_ ?_, rfl⟩ <;> rfl

theorem disable (h : Describes s d) (name : CString) :
    Answers (userDisable s name) (d.disable name.bytes) := by
  unfold userDisable Directory.disable Directory.onAccount
  cases hfind : userFind s name with
  | none =>
    rw [h.find_none hfind]
    exact ⟨h, rfl⟩
  | some i =>
    obtain ⟨hposition, hview, hget⟩ := h.find_some hfind
    have hactive := h.uid_active_iff (userFind_some hfind).1
    simp only [hposition, hget, Option.bind_some, beq_iff_eq, hactive]
    by_cases hi : i.val = d.active
    · rw [if_pos hi, if_pos hi]
      exact ⟨h, rfl⟩
    · rw [if_neg hi, if_neg hi]
      refine ⟨h.change hview ?_ ?_ ?_, rfl⟩ <;> rfl

theorem setActive (h : Describes s d) (name : CString) :
    Answers (userSetActive s name) (d.setActive name.bytes) := by
  unfold userSetActive Directory.setActive Directory.onAccount
  cases hfind : userFind s name with
  | none =>
    rw [h.find_none hfind]
    exact ⟨h, rfl⟩
  | some i =>
    obtain ⟨hposition, hview, hget⟩ := h.find_some hfind
    have henabled : (s.users i).account.enabled = (s.users i).enabled := rfl
    simp only [hposition, hget, Option.bind_some, henabled]
    cases (s.users i).enabled with
    | false => exact ⟨h, rfl⟩
    | true =>
      have hmove := h.moveTo hview s.authenticated
      exact ⟨{ hmove with authenticated_eq := h.authenticated_eq }, rfl⟩

theorem login (h : Describes s d) (name password : CString) :
    Answers (userLogin s name (some password)) (d.login name.bytes password) := by
  unfold userLogin Directory.login
  cases hfind : userFind s name with
  | none =>
    rw [h.find_none hfind]
    exact ⟨h, rfl⟩
  | some i =>
    obtain ⟨hposition, hview, hget⟩ := h.find_some hfind
    have henabled : (s.users i).account.enabled = (s.users i).enabled := rfl
    have hhash : (s.users i).account.hash = (s.users i).passwordHash := rfl
    have hcheck : userCheckPassword s name (some password) =
        if (s.users i).passwordHash == 0 then -1
        else if (s.users i).passwordHash == userHashPassword password then 0 else -1 := by
      simp only [userCheckPassword, hfind]
    simp only [hposition, hget, henabled, hhash, hcheck]
    cases hoff : !(s.users i).enabled with
    | true =>
      simp only [Bool.true_or, if_true]
      exact ⟨h, rfl⟩
    | false =>
      cases hzero : (s.users i).passwordHash == 0 with
      | true =>
        simp only [Bool.or_true, Bool.false_eq_true, if_true, if_false]
        exact ⟨h, rfl⟩
      | false =>
        cases hsame : (s.users i).passwordHash == userHashPassword password with
        | true =>
          simp only [Bool.or_self, Bool.false_eq_true, if_true, if_false, ne_eq,
            not_true_eq_false]
          have hmove := h.moveTo hview true
          refine ⟨hmove.change hview ?_ ?_ ?_, rfl⟩ <;> rfl
        | false =>
          simp only [Bool.or_self, Bool.false_eq_true, if_false, ne_eq, not_false_eq_true,
            if_true, reduceCtorEq, Int.reduceNeg]
          refine ⟨h.change hview ?_ ?_ ?_, rfl⟩ <;> rfl

theorem logout (h : Describes s d) : Describes (userLogout s) d.logout :=
  { h with authenticated_eq := rfl }

theorem account_userFillEntry (e : UserEntry) (i : Fin userEntryMax) (name fullName : CString)
    (role : UserRole) :
    (userFillEntry e i name fullName role true).account =
      Directory.newAccount name.bytes fullName.bytes role := by
  have hname : cText (userCopyText e.username name).toList =
      name.bytes.take (userNameMax - 1) := by
    show cText (boundedCopy e.username.toList name.bytes) = _
    rw [cText_boundedCopy _ _ name.no_nul, e.username.length_toList]
  have hfull : cText (userCopyText e.fullName fullName).toList =
      fullName.bytes.take (userFullMax - 1) := by
    show cText (boundedCopy e.fullName.toList fullName.bytes) = _
    rw [cText_boundedCopy _ _ fullName.no_nul, e.fullName.length_toList]
  unfold UserEntry.account userFillEntry Directory.newAccount
  simp only [hname, hfull]

theorem present_userFillEntry (e : UserEntry) (i : Fin userEntryMax) {name : CString}
    (hne : name.bytes ≠ []) (fullName : CString) (role : UserRole) :
    (userFillEntry e i name fullName role true).present = true := by
  have hname : cText (userCopyText e.username name).toList =
      name.bytes.take (userNameMax - 1) := by
    show cText (boundedCopy e.username.toList name.bytes) = _
    rw [cText_boundedCopy _ _ name.no_nul, e.username.length_toList]
  rw [UserEntry.present, bne_iff_ne, ne_eq, ← cText_eq_nil_iff]
  show ¬ cText (userCopyText e.username name).toList = []
  rw [hname, List.take_eq_nil_iff]
  rintro (h | h)
  · exact absurd h (by decide)
  · exact hne h

theorem findFree_eq (h : Describes s d) :
    (userFindFree s).map Fin.val =
      if d.accounts.length < userEntryMax then some d.accounts.length else none := by
  rw [← h.fills.firstSlot_isNone, userFindFree]
  congr 2
  ext i : 1
  rw [userView]
  cases (s.users i).present <;> rfl

theorem add (h : Describes s d) (name fullName : CString) (role : UserRole) :
    Answers (userAdd s (some name) (some fullName) role)
      (d.add name.bytes fullName.bytes role) := by
  have hsome := congrArg Option.isSome (h.find_eq name)
  rw [Option.isSome_map] at hsome
  unfold userAdd Directory.add
  by_cases hnil : name.bytes = []
  · have hchar : (name.charAt 0 == 0) = true := by
      rw [CString.charAt, hnil]
      rfl
    simp only [hchar, hnil, if_true]
    exact ⟨h, rfl⟩
  · have hchar : ¬ (name.charAt 0 == 0) = true := by
      have hmem := name.no_nul
      rw [CString.charAt, beq_iff_eq]
      intro hzero
      cases hbytes : name.bytes with
      | nil => exact hnil hbytes
      | cons c cs =>
        rw [hbytes] at hzero hmem
        exact hmem (List.mem_cons.mpr (.inl hzero.symm))
    rw [if_neg hnil]
    simp only [hchar, if_false, hsome, Bool.false_eq_true]
    by_cases hfound : (d.position name.bytes).isSome = true
    · rw [if_pos hfound, if_pos hfound]
      exact ⟨h, rfl⟩
    · rw [if_neg hfound, if_neg hfound]
      have hfree := h.findFree_eq
      by_cases hlt : d.accounts.length < userEntryMax
      · rw [if_pos hlt] at hfree ⊢
        obtain ⟨i, hi, hval⟩ := Option.map_eq_some_iff.mp hfree
        have hslot : i = ⟨d.accounts.length, hlt⟩ := Fin.ext hval
        have hpresent := present_userFillEntry (s.users i) i hnil fullName role
        simp only [hi]
        refine ⟨⟨?_, fun j hj => ?_, fun a ha => ?_, ?_, h.active_eq, h.authenticated_eq⟩,
          rfl⟩
        · rw [view_setEntry, if_pos hpresent, account_userFillEntry, hslot]
          exact h.fills.push hlt _
        · by_cases hji : j = i
          · rw [hji, setEntry_self]
            rfl
          · rw [setEntry_of_ne hji] at hj ⊢
            exact h.uid_eq j hj
        · rcases List.mem_append.mp ha with hold | hnew
          · exact h.name_lt a hold
          · rw [List.mem_singleton.mp hnew, Directory.newAccount, List.length_take]
            exact Nat.lt_of_le_of_lt (Nat.min_le_left _ _) (by decide)
        · show d.active < (d.accounts ++ [_]).length
          rw [List.length_append]
          exact Nat.lt_add_right _ h.active_lt
      · rw [if_neg hlt, Option.map_eq_none_iff] at hfree
        rw [if_neg hlt]
        simp only [hfree]
        exact ⟨h, rfl⟩

/-! ### Reading -/

theorem getActive (h : Describes s d) :
    (userGetActive s).map UserEntry.account = d.accounts[d.active]? := by
  have hlt := h.active_lt.trans_le h.fills.length_le
  obtain ⟨a, hget⟩ : ∃ a, d.accounts[d.active]? = some a :=
    ⟨_, List.getElem?_eq_getElem h.active_lt⟩
  have hview : userView s ⟨d.active, hlt⟩ = some a := by
    rw [h.fills.view_eq, hget]
  have hpresent : (s.users ⟨d.active, hlt⟩).present = true := by
    by_contra hfree
    rw [userView, if_neg hfree] at hview
    exact absurd hview (Option.some_ne_none _).symm
  have hfirst : (firstSlot fun i => (s.users i).uid == s.activeUid && (s.users i).present) =
      some ⟨d.active, hlt⟩ := by
    apply firstSlot_of_unique
    · rw [hpresent, Bool.and_true, beq_iff_eq]
      exact (h.uid_active_iff hpresent).mpr rfl
    · intro j hj
      rw [Bool.and_eq_true, beq_iff_eq] at hj
      exact Fin.ext ((h.uid_active_iff hj.2).mp hj.1)
  rw [userView, if_pos hpresent] at hview
  rw [userGetActive, hfirst, hget, Option.map_some, Option.map_some, hview]

theorem list_uid (h : Describes s d) :
    (userList s userEntryMax).map (fun e => (e.account, e.uid)) =
      d.accounts.zipIdx.map fun p => (p.1, UInt32.ofNat (p.2 + 1)) := by
  have hfills : Fills
      (fun i => if (s.users i).present then some ((s.users i).account, (s.users i).uid) else none)
      (d.accounts.zipIdx.map fun p => (p.1, UInt32.ofNat (p.2 + 1))) := by
    refine ⟨by rw [List.length_map, List.length_zipIdx]; exact h.fills.length_le, fun i => ?_⟩
    have hview := h.fills.view_eq i
    rw [List.getElem?_map, List.getElem?_zipIdx, ← hview, userView, Nat.zero_add]
    by_cases hpresent : (s.users i).present = true
    · rw [if_pos hpresent, if_pos hpresent, h.uid_eq i hpresent, Option.map_some,
        Option.map_some]
    · rw [if_neg hpresent, if_neg hpresent, Option.map_none, Option.map_none]
  have hlen : (((List.finRange userEntryMax).map s.users).filter UserEntry.present).length ≤
      userEntryMax := by
    refine (List.length_filter_le _ _).trans_eq ?_
    rw [List.length_map, List.length_finRange]
  rw [userList, List.take_of_length_le hlen]
  exact hfills.map_filter_finRange

theorem count (h : Describes s d) (p : Account → Bool) :
    (countSlots fun i => (s.users i).present && p (s.users i).account) = d.accounts.countP p := by
  rw [← h.fills.countSlots_any p]
  congr 1
  ext i : 1
  rw [userView]
  cases (s.users i).present <;> rfl

theorem activeName (h : Describes s d) :
    userGetActiveName s (List.replicate userNameMax 0) =
        (boundedCopy (List.replicate userNameMax 0) d.activeName, true) ∧
      cText (boundedCopy (List.replicate userNameMax 0) d.activeName) = d.activeName := by
  obtain ⟨a, hget⟩ : ∃ a, d.accounts[d.active]? = some a :=
    ⟨_, List.getElem?_eq_getElem h.active_lt⟩
  have hactive := h.getActive
  rw [hget] at hactive
  obtain ⟨e, he, rfl⟩ := Option.map_eq_some_iff.mp hactive
  have hname : d.activeName = cText e.username.toList := by
    rw [Directory.activeName, hget]
    rfl
  have hlt : d.activeName.length < userNameMax := by
    rw [hname]
    exact h.name_lt e.account (List.mem_of_getElem? hget)
  have hno : 0 ∉ d.activeName := by
    rw [hname]
    exact zero_notMem_cText _
  refine ⟨?_, ?_⟩
  · rw [userGetActiveName, he, hname]
  · rw [cText_boundedCopy _ _ hno, List.length_replicate,
      List.take_of_length_le (Nat.le_sub_one_of_lt hlt)]

theorem activeName_ne_nil (h : Describes s d) : d.activeName ≠ [] := by
  obtain ⟨a, hget⟩ : ∃ a, d.accounts[d.active]? = some a :=
    ⟨_, List.getElem?_eq_getElem h.active_lt⟩
  obtain ⟨i, hi⟩ := h.fills.exists_view (List.mem_of_getElem? hget)
  rw [userView, Option.ite_none_right_eq_some, Option.some.injEq] at hi
  rw [Directory.activeName, hget, Option.elim_some, ← hi.2]
  have hpresent := hi.1
  rw [UserEntry.present, bne_iff_ne, ne_eq, ← cText_eq_nil_iff] at hpresent
  exact hpresent

theorem stats (h : Describes s d) :
    userGetStats s =
      { totalUsers := d.accounts.length
        enabledUsers := d.accounts.countP Account.enabled
        lockedUsers := d.accounts.countP Account.locked
        activeUid := UInt32.ofNat (d.active + 1)
        activeUsername := d.activeName
        authenticated := d.authenticated } := by
  have htotal := h.count fun _ => true
  have henabled := h.count Account.enabled
  have hlocked := h.count Account.locked
  simp only [Bool.and_true, List.countP_true] at htotal
  obtain ⟨hname, htext⟩ := h.activeName
  unfold userGetStats
  simp only [hname, htext, if_true, h.active_eq, h.authenticated_eq, htotal]
  rw [← henabled, ← hlocked]
  rfl

end Describes

/-! ## The accounts at boot -/

/-- The directory `user_init` and `user_create_default_passwords` build. -/
def Directory.boot : Directory where
  accounts :=
    [⟨rootName.bytes, rootFullName.bytes, userHashPassword rootName, .admin, true, false⟩,
      ⟨adminName.bytes, adminFullName.bytes, userHashPassword adminName, .admin, true, false⟩,
      ⟨guestName.bytes, guestFullName.bytes, userHashPassword guestName, .guest, true, false⟩]
  active := 0
  authenticated := false

theorem describes_boot : Describes (userCreateDefaultPasswords userInit) .boot where
  fills := ⟨by decide, by decide +kernel⟩
  uid_eq := by decide +kernel
  name_lt := by decide
  active_lt := by decide
  active_eq := by decide +kernel
  authenticated_eq := by decide +kernel

end AcharyaOS.User
