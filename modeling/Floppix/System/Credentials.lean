import Floppix.System.Process

/-! # The ids of a process

POSIX gives a process three user ids and three group ids. Who may change them is decided by
one of them, the effective user id: under the superuser's a call of `setuid` or `setgid` sets
all three, under any other it only chooses among what the process has already. So a process
that gives up the superuser's user id can no longer take a group.
-/

namespace Floppix

structure Ids where
  real : Nat
  effective : Nat
  saved : Nat
deriving DecidableEq, Repr

def Ids.all (id : Nat) : Ids := ⟨id, id, id⟩

theorem Ids.eq_all_iff {ids : Ids} {id : Nat} :
    ids = Ids.all id ↔ ids.real = id ∧ ids.effective = id ∧ ids.saved = id := by
  cases ids
  simp [Ids.all]

def eperm : Errno := ⟨1, by decide⟩

def Ids.set (privileged : Bool) (id : Nat) (ids : Ids) : Option Errno × Ids :=
  if privileged then (none, Ids.all id)
  else if id = ids.real ∨ id = ids.saved then (none, { ids with effective := id })
  else (some eperm, ids)

structure Credentials where
  user : Ids
  group : Ids
deriving DecidableEq, Repr

structure Accounts where
  getpwnam : Bytes → Option Nat
  getgrnam : Bytes → Option Nat

namespace Credentials

def privileged (c : Credentials) : Bool := c.user.effective = 0

def setuid (c : Credentials) (uid : Nat) : Option Errno × Credentials :=
  let (answer, ids) := c.user.set c.privileged uid
  (answer, { c with user := ids })

def setgid (c : Credentials) (gid : Nat) : Option Errno × Credentials :=
  let (answer, ids) := c.group.set c.privileged gid
  (answer, { c with group := ids })

def processSetUser (db : Accounts) (user : Bytes) (c : Credentials) : Err × Credentials :=
  if c.user.effective ≠ 0 then (Err.ok, c)
  else
    match db.getpwnam user with
    | none => (Err.failed, c)
    | some uid =>
        let (answer, c) := c.setuid uid
        (status answer, c)

def processSetGroup (db : Accounts) (group : Bytes) (c : Credentials) : Err × Credentials :=
  if c.group.effective ≠ 0 then (Err.ok, c)
  else
    match db.getgrnam group with
    | none => (Err.failed, c)
    | some gid =>
        let (answer, c) := c.setgid gid
        (status answer, c)

/-- Some id of the process is the superuser's or that of its group. -/
def HoldsRoot (c : Credentials) : Prop :=
  (c.user.real = 0 ∨ c.user.effective = 0 ∨ c.user.saved = 0) ∨
    c.group.real = 0 ∨ c.group.effective = 0 ∨ c.group.saved = 0

instance (c : Credentials) : Decidable c.HoldsRoot := inferInstanceAs (Decidable (_ ∨ _))

variable {db : Accounts} {c : Credentials} {user group : Bytes} {uid gid : Nat}

/-! ## What the two functions do -/

theorem processSetUser_root (hroot : c.user.effective = 0) (huser : db.getpwnam user = some uid) :
    c.processSetUser db user = (Err.ok, { c with user := Ids.all uid }) := by
  have hprivileged : c.privileged = true := decide_eq_true hroot
  rw [processSetUser, if_neg (not_not.mpr hroot), huser]
  simp only [setuid, Ids.set, hprivileged, if_true]
  rfl

theorem processSetGroup_other (hgroup : c.group.effective ≠ 0) :
    c.processSetGroup db group = (Err.ok, c) := if_pos hgroup

theorem processSetGroup_own (huser : c.user.effective ≠ 0) (hroot : c.group.effective = 0)
    (hgroup : db.getgrnam group = some gid) (hown : gid = c.group.real ∨ gid = c.group.saved) :
    c.processSetGroup db group =
      (Err.ok, { c with group := { c.group with effective := gid } }) := by
  have hprivileged : c.privileged = false := decide_eq_false huser
  rw [processSetGroup, if_neg (not_not.mpr hroot), hgroup]
  simp only [setgid, Ids.set, hprivileged, if_pos hown, Bool.false_eq_true, if_false]
  rfl

theorem processSetGroup_refused (huser : c.user.effective ≠ 0) (hroot : c.group.effective = 0)
    (hgroup : db.getgrnam group = some gid)
    (hother : ¬ (gid = c.group.real ∨ gid = c.group.saved)) :
    c.processSetGroup db group = (eperm.code, c) := by
  have hprivileged : c.privileged = false := decide_eq_false huser
  rw [processSetGroup, if_neg (not_not.mpr hroot), hgroup]
  simp only [setgid, Ids.set, hprivileged, if_neg hother, Bool.false_eq_true, if_false]
  rfl

end Credentials

end Floppix
