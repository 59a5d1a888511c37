import AuditLog.Core.Security

/-!
# Passwords (`passwords.py`)

`authenticate_user` verifies one password hash for every attempt: that of the first
configured user of the name, or a dummy one. What the Argon2 library does is a parameter.
-/

namespace AuditLog

/-- How `PasswordHasher.verify` ends. The last outcome stands for any other exception. -/
inductive VerifyOutcome where
  | verified
  | verifyMismatch
  | invalidHash
  | valueError
  | verificationError
deriving DecidableEq

/-- `PasswordHasher.verify(hash, password)`, and `_DUMMY_HASH`. -/
structure PasswordHasher where
  verify : PyStr → PyStr → VerifyOutcome
  dummyHash : PyStr

section Passwords

variable (hasher : PasswordHasher)

/-- `verify_password`; `none` stands for an exception that it does not catch. -/
def verifyPassword (password passwordHash : PyStr) : Option Bool :=
  match hasher.verify passwordHash password with
  | .verified => some true
  | .verifyMismatch | .invalidHash | .valueError => some false
  | .verificationError => none

/-- The first configured user of the name. -/
def userNamed (settings : AuthSettings) (username : PyStr) : Option UserRecord :=
  settings.authUsers.find? fun u => u.username = username

/-- The hash that an attempt under the name is verified against. -/
def attemptedHash (settings : AuthSettings) (username : PyStr) : PyStr :=
  (userNamed settings username).elim hasher.dummyHash UserRecord.passwordHash

/-- `authenticate_user`; the outer `none` stands for an exception. -/
def authenticateUser (settings : AuthSettings) (username password : PyStr) :
    Option (Option UserRecord) :=
  match userNamed settings username with
  -- The answer of `verify_unknown_user_password` is not looked at.
  | none => (verifyPassword hasher password hasher.dummyHash).map fun _ => none
  | some user =>
    (verifyPassword hasher password user.passwordHash).map fun verified =>
      if verified then some user else none

variable {hasher} {settings : AuthSettings} {username password : PyStr} {user : UserRecord}

/-- Who is authenticated is configured under the name, and has given the password. -/
theorem authenticateUser_eq_some (h : authenticateUser hasher settings username password =
    some (some user)) : userNamed settings username = some user ∧
      hasher.verify user.passwordHash password = .verified := by
  unfold authenticateUser at h
  split at h
  · obtain ⟨_, -, h⟩ := Option.map_eq_some_iff.mp h
    cases h
  · rename_i user' huser
    obtain ⟨verified, hverified, h⟩ := Option.map_eq_some_iff.mp h
    split at h
    · rename_i htrue
      cases h
      refine ⟨huser, ?_⟩
      rw [htrue] at hverified
      unfold verifyPassword at hverified
      split at hverified
      · assumption
      all_goals cases hverified
    · cases h

theorem userNamed_eq_some (h : userNamed settings username = some user) :
    user ∈ settings.authUsers ∧ user.username = username := by
  unfold userNamed at h
  have hnamed := List.find?_some h
  exact ⟨List.mem_of_find?_eq_some h, of_decide_eq_true hnamed⟩

end Passwords

end AuditLog
