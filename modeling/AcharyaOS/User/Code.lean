import AcharyaOS.Foundation.CString
import AcharyaOS.Foundation.Packed
import AcharyaOS.Foundation.Slots
import Mathlib.Logic.Function.Basic

/-!
# The user registry

The functions of `kernel/user/user.c` that change the registry or the session.
-/

namespace AcharyaOS.User

open Foundation

/-! ## Records -/

abbrev userNameMax : Nat := 32

abbrev userFullMax : Nat := 64

abbrev userEntryMax : Nat := 16

inductive UserRole
  | guest
  | user
  | admin
  deriving DecidableEq

structure UserEntry where
  username : Bytes userNameMax
  fullName : Bytes userFullMax
  passwordHash : UInt64
  role : UserRole
  enabled : Bool
  locked : Bool
  uid : UInt32
  deriving DecidableEq

def UserEntry.zero : UserEntry := ⟨.zero _, .zero _, 0, .guest, false, false, 0⟩

/-- The slot holds an account: `username[0] != '\0'`. -/
def UserEntry.present (e : UserEntry) : Bool := e.username.toList.headD 0 != 0

/-- The static variables of `user.c`. -/
structure UserState where
  users : Fin userEntryMax → UserEntry
  activeUid : UInt32
  authenticated : Bool

/-! ## Passwords and names -/

def userHashPassword (text : CString) : UInt64 :=
  text.bytes.foldl (fun hash c => (hash ^^^ c.toUInt64) * 1099511628211) 1469598103934665603

def userCopyText {size : Nat} (dest : Bytes size) (src : CString) : Bytes size :=
  ⟨boundedCopy dest.toList src.bytes, by simp⟩

/-- `user_find`, `none` standing for -1. -/
def userFind (s : UserState) (username : CString) : Option (Fin userEntryMax) :=
  firstSlot fun i =>
    (s.users i).present && strcmp (s.users i).username.toList username.bytes == 0

def userFindFree (s : UserState) : Option (Fin userEntryMax) :=
  firstSlot fun i => !(s.users i).present

def UserState.setEntry (s : UserState) (idx : Fin userEntryMax) (e : UserEntry) : UserState :=
  { s with users := Function.update s.users idx e }

/-- The assignments by which `user_register` and `user_add` fill a slot. -/
def userFillEntry (e : UserEntry) (idx : Fin userEntryMax) (username fullName : CString)
    (role : UserRole) (enabled : Bool) : UserEntry where
  username := userCopyText e.username username
  fullName := userCopyText e.fullName fullName
  passwordHash := 0
  role := role
  enabled := enabled
  locked := false
  uid := UInt32.ofNat (idx.val + 1)

/-! ## Accounts -/

def userRegister (s : UserState) (username fullName : CString) (role : UserRole)
    (enabled : Bool) : UserState :=
  match userFindFree s with
  | none => s
  | some idx =>
      s.setEntry idx (userFillEntry (s.users idx) idx username fullName role enabled)

/-- "root" -/
def rootName : CString := ⟨[114, 111, 111, 116], by decide⟩

/-- "admin" -/
def adminName : CString := ⟨[97, 100, 109, 105, 110], by decide⟩

/-- "guest" -/
def guestName : CString := ⟨[103, 117, 101, 115, 116], by decide⟩

/-- "AcharyaOS Root" -/
def rootFullName : CString :=
  ⟨[65, 99, 104, 97, 114, 121, 97, 79, 83, 32, 82, 111, 111, 116], by decide⟩

/-- "System Administrator" -/
def adminFullName : CString :=
  ⟨[83, 121, 115, 116, 101, 109, 32, 65, 100, 109, 105, 110, 105, 115, 116, 114, 97, 116, 111,
    114], by decide⟩

/-- "Guest Session" -/
def guestFullName : CString :=
  ⟨[71, 117, 101, 115, 116, 32, 83, 101, 115, 115, 105, 111, 110], by decide⟩

/-- `user_init`, which overwrites all static variables. -/
def userInit : UserState :=
  let s : UserState := ⟨fun _ => .zero, 0, false⟩
  let s := userRegister s rootName rootFullName .admin true
  let s := userRegister s adminName adminFullName .admin true
  let s := userRegister s guestName guestFullName .guest true
  { s with activeUid := 1, authenticated := false }

def userAdd (s : UserState) (username fullName : Option CString) (role : UserRole) :
    UserState × Int :=
  match username, fullName with
  | some username, some fullName =>
      if username.charAt 0 == 0 then (s, -1)
      else if (userFind s username).isSome then (s, -1)
      else match userFindFree s with
        | none => (s, -1)
        | some idx =>
            (s.setEntry idx (userFillEntry (s.users idx) idx username fullName role true), 0)
  | _, _ => (s, -1)

def userEnable (s : UserState) (username : CString) : UserState × Int :=
  match userFind s username with
  | none => (s, -1)
  | some idx => (s.setEntry idx { s.users idx with enabled := true }, 0)

def userDisable (s : UserState) (username : CString) : UserState × Int :=
  match userFind s username with
  | none => (s, -1)
  | some idx =>
      if (s.users idx).uid == s.activeUid then (s, -1)
      else (s.setEntry idx { s.users idx with enabled := false }, 0)

/-- `user_set_active` leaves `authenticated` alone. -/
def userSetActive (s : UserState) (username : CString) : UserState × Int :=
  match userFind s username with
  | none => (s, -1)
  | some idx =>
      if !(s.users idx).enabled then (s, -1)
      else ({ s with activeUid := (s.users idx).uid }, 0)

/-! ## Passwords and the session -/

def userSetPassword (s : UserState) (username : CString) (password : Option CString) :
    UserState × Int :=
  match userFind s username, password with
  | some idx, some password =>
      (s.setEntry idx
        { s.users idx with passwordHash := userHashPassword password, locked := false }, 0)
  | _, _ => (s, -1)

def userCheckPassword (s : UserState) (username : CString) (password : Option CString) : Int :=
  match userFind s username, password with
  | some idx, some password =>
      if (s.users idx).passwordHash == 0 then -1
      else if (s.users idx).passwordHash == userHashPassword password then 0 else -1
  | _, _ => -1

def userLogin (s : UserState) (username : CString) (password : Option CString) :
    UserState × Int :=
  match userFind s username with
  | none => (s, -1)
  | some idx =>
      if !(s.users idx).enabled then (s, -1)
      else if (s.users idx).passwordHash == 0 then (s, -1)
      else if userCheckPassword s username password ≠ 0 then
        (s.setEntry idx { s.users idx with locked := true }, -1)
      else
        let s := { s with activeUid := (s.users idx).uid, authenticated := true }
        (s.setEntry idx { s.users idx with locked := false }, 0)

def userLogout (s : UserState) : UserState := { s with authenticated := false }

/-- The password hash of one account, if it exists. -/
def userSeedPassword (s : UserState) (username password : CString) : UserState :=
  match userFind s username with
  | none => s
  | some idx => s.setEntry idx { s.users idx with passwordHash := userHashPassword password }

def userCreateDefaultPasswords (s : UserState) : UserState :=
  let s := userSeedPassword s rootName rootName
  let s := userSeedPassword s adminName adminName
  userSeedPassword s guestName guestName

/-! ## Reading the registry -/

def userRoleName : UserRole → String
  | .guest => "guest"
  | .user => "user"
  | .admin => "admin"

/-- `user_list(out_entries, max_entries)` with a non-null array: the entries stored. -/
def userList (s : UserState) (maxEntries : Nat) : List UserEntry :=
  (((List.finRange userEntryMax).map s.users).filter UserEntry.present).take maxEntries

/-- `user_get_active`, `none` standing for -1. -/
def userGetActive (s : UserState) : Option UserEntry :=
  (firstSlot fun i => (s.users i).uid == s.activeUid && (s.users i).present).map s.users

/-- `user_get_active_name` into an array that is not empty: the array, and whether the call
returns 0. -/
def userGetActiveName (s : UserState) (out : List UInt8) : List UInt8 × Bool :=
  match userGetActive s with
  | none => (out.set 0 0, false)
  | some active => (boundedCopy out (cText active.username.toList), true)

structure UserStats where
  totalUsers : Nat
  enabledUsers : Nat
  lockedUsers : Nat
  activeUid : UInt32
  activeUsername : List UInt8
  authenticated : Bool

/-- `user_get_stats`; of the arrays for the name only the text they end with is given. -/
def userGetStats (s : UserState) : UserStats where
  totalUsers := countSlots fun i => (s.users i).present
  enabledUsers := countSlots fun i => (s.users i).present && (s.users i).enabled
  lockedUsers := countSlots fun i => (s.users i).present && (s.users i).locked
  activeUid := s.activeUid
  activeUsername :=
    let name := userGetActiveName s (List.replicate userNameMax 0)
    if name.2 then cText (boundedCopy (List.replicate userNameMax 0) (cText name.1)) else []
  authenticated := s.authenticated

end AcharyaOS.User
