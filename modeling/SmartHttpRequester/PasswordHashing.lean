import SmartHttpRequester.Schemas

/-!
# Password hashing

`core/auth.py` in both of its variants, over what it uses of bcrypt, argon2 and
hashlib, and the credentials of `schemas/auth.py`.  Log calls are left out.
-/

namespace SmartHttpRequester

section PasswordHashing

inductive AuthExc
  | userAlreadyExists
  | unknownException
  | userDoesNotExists
  | passwordIsIncorrect
  | httpException (statusCode : Nat)
  /-- `sqlalchemy.exc.IntegrityError`, and whether a unique constraint refused the row -/
  | integrityError (uniqueViolation : Bool)
  /-- any other error of the database -/
  | dataError
  | valueError
  | hashingError
  | unicodeDecodeError
  | typeError
deriving DecidableEq

/-- How `argon2.PasswordHasher.verify` refuses. -/
inductive ArgonError
  | verifyMismatchError
  | verificationError
  | invalidHashError
deriving DecidableEq

/-- The setting `use_argon`, and the libraries. -/
class PasswordLibraries where
  useArgon : Bool
  /-- `bcrypt.hashpw`; `none` is a `ValueError` -/
  hashpw : ByteArray → Nat → Option ByteArray
  /-- `bcrypt.checkpw`; `none` is a `ValueError` -/
  checkpw : ByteArray → ByteArray → Option Bool
  /-- `ph.hash`; `none` is a `HashingError` -/
  hash : String → Nat → Option String
  /-- `ph.verify` -/
  verify : String → String → Except ArgonError Unit
  /-- `hashlib.sha256(data).hexdigest()` -/
  sha256Hexdigest : ByteArray → String

variable [PasswordLibraries]

open PasswordLibraries

/-- `hash_password`; the salt is the randomness it draws. -/
def hashPassword (password : String) (salt : Nat) : Except AuthExc ByteArray :=
  if useArgon then
    match hash password salt with
    | some hashStr => .ok hashStr.toUTF8
    | none => .error .hashingError
  else
    match hashpw password.toUTF8 salt with
    | some hashed => .ok hashed
    | none => .error .valueError

/-- `check_password`. -/
def checkPassword (password : String) (hashedPassword : ByteArray) : Except AuthExc Bool :=
  if useArgon then
    match String.fromUTF8? hashedPassword with
    | none => .error .unicodeDecodeError
    | some hashStr =>
        match verify hashStr password with
        -- whether a rehash is needed only changes what is logged
        | .ok () => .ok true
        | .error .verifyMismatchError => .ok false
        | .error .verificationError => .ok false
        | .error .invalidHashError => .ok false
  else
    match checkpw password.toUTF8 hashedPassword with
    | some correct => .ok correct
    | none => .ok false

omit [PasswordLibraries] in
/-- `UserCredentials`, the body of register and login. -/
structure UserCredentials where
  username : String
  passwordHash : String
  passwordHash_length : passwordHash.length = 64

end PasswordHashing

end SmartHttpRequester
