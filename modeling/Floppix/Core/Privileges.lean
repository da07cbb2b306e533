import Floppix.Core.Server
import Floppix.System.Credentials

/-! # Dropping privileges

`fpx_core_init` takes over the configured user and then the configured group. The first step
takes away the privileges that the second one needs.
-/

namespace Floppix

open Logging

variable (db : Accounts)

/-- The two steps of `fpx_core_init`, with the ids that they leave. -/
def coreIdentity (user group : Option Bytes) (c : Credentials) : Err × Credentials :=
  let (err, c) := user.elim (Err.ok, c) fun user => c.processSetUser db user
  if err ≠ Err.ok then (err, c)
  else group.elim (Err.ok, c) fun group => c.processSetGroup db group

def afterUser (user : Option Bytes) (c : Credentials) : Credentials :=
  (user.elim (Err.ok, c) fun user => c.processSetUser db user).2

/-- The system answers the calls of the startup as it does a process with these ids. -/
structure AnswersAs (c : Credentials) (user : Option Bytes) (os : ProcessOs) : Prop where
  geteuid : os.geteuid = c.user.effective
  getpwnam : os.getpwnam = db.getpwnam
  setuid : ∀ uid, os.setuid uid = (c.setuid uid).1
  getegid : os.getegid = (afterUser db user c).group.effective
  getgrnam : os.getgrnam = db.getgrnam
  setgid : ∀ gid, os.setgid gid = ((afterUser db user c).setgid gid).1

variable {db} {c : Credentials} {os : ProcessOs}

theorem AnswersAs.userStatus {user : Option Bytes} (h : AnswersAs db c user os) :
    user.elim Err.ok (processSetUser os) =
      (user.elim (Err.ok, c) fun user => c.processSetUser db user).1 := by
  cases user with
  | none => rfl
  | some user =>
      simp only [Option.elim_some, processSetUser, processSetIdentity,
        Credentials.processSetUser, h.geteuid, h.getpwnam]
      by_cases hother : c.user.effective ≠ 0
      · rw [if_pos hother, if_pos hother]
      · rw [if_neg hother, if_neg hother]
        cases db.getpwnam user with
        | none => rfl
        | some uid => exact congrArg status (h.setuid uid)

theorem AnswersAs.groupStatus {user : Option Bytes} (h : AnswersAs db c user os)
    (group : Option Bytes) :
    group.elim Err.ok (processSetGroup os) =
      (group.elim (Err.ok, afterUser db user c) fun group =>
        (afterUser db user c).processSetGroup db group).1 := by
  cases group with
  | none => rfl
  | some group =>
      simp only [Option.elim_some, processSetGroup, processSetIdentity,
        Credentials.processSetGroup, h.getegid, h.getgrnam]
      by_cases hother : (afterUser db user c).group.effective ≠ 0
      · rw [if_pos hother, if_pos hother]
      · rw [if_neg hother, if_neg hother]
        cases db.getgrnam group with
        | none => rfl
        | some gid => exact congrArg status (h.setgid gid)

theorem coreIdentity_of_ok {user : Option Bytes} (group : Option Bytes)
    (h : (user.elim (Err.ok, c) fun user => c.processSetUser db user).1 = Err.ok) :
    coreIdentity db user group c =
      group.elim (Err.ok, afterUser db user c) fun group =>
        (afterUser db user c).processSetGroup db group := by
  rw [coreIdentity]
  simp only [if_neg (not_not.mpr h)]
  rfl

/-- A startup that succeeds has taken both steps with success. -/
theorem coreInit_identity {P : Type} [DecidableEq P] {sinks : List Log} {main : P}
    {startup : StartupOs P} {server : Server} {s s' : Logger P}
    (hanswers : AnswersAs db c server.user startup.process)
    (h : coreInit sinks main startup server s = some (Err.ok, s')) :
    (coreIdentity db server.user server.group c).1 = Err.ok := by
  have hno : ∀ {err : Err}, err ≠ Err.ok → some (err, s) ≠ some (Err.ok, s') :=
    fun hne heq => hne (Prod.ext_iff.mp (Option.some.inj heq)).1
  rw [coreInit] at h
  split at h
  · exact absurd h (hno Err.failed_ne_ok)
  · simp only at h
    split at h
    · rename_i hne
      exact absurd h (hno hne)
    · split at h
      · rename_i hne
        exact absurd h (hno hne)
      · split at h
        · rename_i hne
          exact absurd h (hno hne)
        · split at h
          · rename_i hne
            exact absurd h (hno hne)
          · rename_i huser hgroup
            rw [not_not, hanswers.userStatus] at huser
            rw [not_not, hanswers.groupStatus] at hgroup
            rw [coreIdentity_of_ok server.group huser, hgroup]

/-! ## Whether the drop works -/

/-- The user and the group of the configuration are taken over: both steps succeed, they leave
exactly the two ids, and no startup that succeeds keeps one of the superuser's. -/
structure DropsPrivileges (db : Accounts) (c : Credentials) (user group : Bytes) (uid gid : Nat) :
    Prop where
  succeeds : (coreIdentity db (some user) (some group) c).1 = Err.ok
  ids : (coreIdentity db (some user) (some group) c).2 = ⟨Ids.all uid, Ids.all gid⟩
  rootless : ∀ {P : Type} [DecidableEq P] {sinks : List Log} {main : P} {startup : StartupOs P}
    {server : Server} {s s' : Logger P}, server.user = some user → server.group = some group →
    AnswersAs db c server.user startup.process →
    coreInit sinks main startup server s = some (Err.ok, s') →
    ¬ (coreIdentity db server.user server.group c).2.HoldsRoot

variable {user group : Bytes} {uid gid : Nat}

/-- What a process with the superuser's effective id comes to: the user is taken over, and the
step for the group finds a process without privileges. -/
theorem coreIdentity_root (hroot : c.user.effective = 0) (huser : db.getpwnam user = some uid) :
    coreIdentity db (some user) (some group) c =
      Credentials.processSetGroup db group { c with user := Ids.all uid } := by
  have hfirst := Credentials.processSetUser_root hroot huser
  rw [coreIdentity]
  simp only [Option.elim_some, hfirst]
  rfl

theorem processSetGroup_dropped_iff (hgroup : db.getgrnam group = some gid)
    (huid : uid ≠ 0) :
    Credentials.processSetGroup db group { c with user := Ids.all uid } =
        (Err.ok, ⟨Ids.all uid, Ids.all gid⟩) ↔
      c.group.real = gid ∧ c.group.saved = gid ∧
        (c.group.effective = gid ∨ c.group.effective = 0) := by
  let dropped : Credentials := { c with user := Ids.all uid }
  have huser : dropped.user.effective ≠ 0 := huid
  have heq : ∀ ids : Ids, (Err.ok, (⟨Ids.all uid, ids⟩ : Credentials)) =
      (Err.ok, ⟨Ids.all uid, Ids.all gid⟩) ↔ ids = Ids.all gid := by
    intro ids
    simp
  by_cases hroot : c.group.effective = 0
  · by_cases hown : gid = c.group.real ∨ gid = c.group.saved
    · rw [Credentials.processSetGroup_own huser hroot hgroup hown, heq, Ids.eq_all_iff]
      simp [dropped, hroot]
    · rw [Credentials.processSetGroup_refused huser hroot hgroup hown]
      constructor
      · intro h
        exact absurd (Prod.ext_iff.mp h).1 eperm.code_ne_ok
      · intro h
        exact absurd (Or.inl h.1.symm) hown
  · have hother : dropped.group.effective ≠ 0 := hroot
    rw [Credentials.processSetGroup_other hother, heq, Ids.eq_all_iff]
    simp only [hroot, or_false]
    constructor
    · intro h
      exact ⟨h.1, h.2.2, h.2.1⟩
    · intro h
      exact ⟨h.1, h.2.2, h.2.1⟩

/-- Started with the superuser's ids only, a server with a user and a group never comes up. -/
theorem coreInit_root_fails {P : Type} [DecidableEq P] {sinks : List Log} {main : P}
    {startup : StartupOs P} {server : Server} {s s' : Logger P} (hids : c = ⟨Ids.all 0, Ids.all 0⟩)
    (huser : db.getpwnam user = some uid) (hgroup : db.getgrnam group = some gid) (huid : uid ≠ 0)
    (hgid : gid ≠ 0) (hserver : server.user = some user) (hserver' : server.group = some group)
    (hanswers : AnswersAs db c server.user startup.process) :
    coreInit sinks main startup server s ≠ some (Err.ok, s') := by
  subst hids
  intro h
  have hok := coreInit_identity hanswers h
  rw [hserver, hserver', coreIdentity_root rfl huser] at hok
  have hrefused := @Credentials.processSetGroup_refused db ⟨Ids.all uid, Ids.all 0⟩ group gid
    huid rfl hgroup (by simp [Ids.all, hgid])
  rw [hrefused] at hok
  exact eperm.code_ne_ok hok

/-- Both drops are possible exactly if the group is no step at all: the process had the
configured group as its real and its saved one from the start. -/
theorem dropsPrivileges_iff (hroot : c.user.effective = 0)
    (huser : db.getpwnam user = some uid) (hgroup : db.getgrnam group = some gid)
    (huid : uid ≠ 0) (hgid : gid ≠ 0) :
    DropsPrivileges db c user group uid gid ↔
      c.group.real = gid ∧ c.group.saved = gid ∧
        (c.group.effective = gid ∨ c.group.effective = 0) := by
  rw [← processSetGroup_dropped_iff hgroup huid, ← coreIdentity_root hroot huser]
  constructor
  · intro h
    exact Prod.ext h.succeeds h.ids
  · intro h
    constructor
    · rw [h]
    · rw [h]
    · intro P _ sinks main startup server s s' hserver hserver' _ _
      rw [hserver, hserver', h]
      simp [Credentials.HoldsRoot, Ids.all, huid, hgid]

def webAccounts : Accounts := ⟨fun _ => some 33, fun _ => some 33⟩

theorem dropsPrivileges_iff_web :
    DropsPrivileges webAccounts ⟨Ids.all 0, ⟨33, 0, 33⟩⟩ (ascii "web") (ascii "web") 33 33 :=
  (dropsPrivileges_iff rfl rfl rfl (by decide) (by decide)).mpr (by decide)

/-- A process that was started with the superuser's ids only. -/
theorem root_keeps_group :
    ¬ DropsPrivileges webAccounts ⟨Ids.all 0, Ids.all 0⟩ (ascii "web") (ascii "web") 33 33 :=
  fun h => absurd h.succeeds (by decide)

end Floppix
