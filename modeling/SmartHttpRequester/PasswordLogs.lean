import SmartHttpRequester.PasswordHashing

/-!
# Log lines about passwords

`hash_password` and `check_password` of `core/auth.py` once more, now with what
they log.  The libraries raise exceptions with texts of their own; which text
comes with which password is their business.

Two lines print the password: the one for a hashing error masks the quarter of
it that it does not print, and the one for a rehash masks nothing.

`logs_alike_iff`: two passwords that look alike from outside are logged alike
exactly if they are one, or neither line is reached.

Passwords are Unicode texts: a `str` with a lone surrogate, which `.encode()`
refuses, is not among them.
-/

namespace SmartHttpRequester

section PasswordLogs

inductive LogLevel
  | info
  | error
deriving DecidableEq

/-- A call of `logger`. -/
structure LogLine where
  level : LogLevel
  message : String
deriving DecidableEq

/-- The setting `use_argon`, and the libraries with the texts of their exceptions. -/
class VerboseLibraries where
  useArgon : Bool
  /-- `bcrypt.hashpw`; the error is a `ValueError` -/
  hashpw : ByteArray → Nat → Except String ByteArray
  /-- `bcrypt.checkpw`; the error is a `ValueError` -/
  checkpw : ByteArray → ByteArray → Except String Bool
  /-- `ph.hash`; the error is a `HashingError` -/
  hash : String → Nat → Except String String
  /-- `ph.verify` -/
  verify : String → String → Except (ArgonError × String) Unit
  /-- `ph.check_needs_rehash`; the error is an `InvalidHashError` -/
  checkNeedsRehash : String → Except String Bool
  /-- `hashlib.sha256(data).hexdigest()` -/
  sha256Hexdigest : ByteArray → String

/-- The libraries without the texts. -/
instance VerboseLibraries.silent [L : VerboseLibraries] : PasswordLibraries where
  useArgon := L.useArgon
  hashpw password salt := (L.hashpw password salt).toOption
  checkpw password hashed := (L.checkpw password hashed).toOption
  hash password salt := (L.hash password salt).toOption
  verify hashStr password := (L.verify hashStr password).mapError Prod.fst
  sha256Hexdigest := L.sha256Hexdigest

variable [VerboseLibraries]

open VerboseLibraries

/-- `password[len(password) // 4 :]` and the stars behind it. -/
def maskedPassword (password : String) : String :=
  String.ofList (password.toList.drop (password.length / 4)) ++
    String.ofList (List.replicate (password.length / 4 * 3) '*')

/-- `hash_password`, with its log. -/
def hashPasswordLogged (password : String) (salt : Nat) :
    List LogLine × Except AuthExc ByteArray :=
  if useArgon then
    match hash password salt with
    | .ok hashStr => ([], .ok hashStr.toUTF8)
    | .error e =>
        ([⟨.error, "Hashing error: " ++ e ++ " for password=" ++ maskedPassword password⟩],
          .error .hashingError)
  else
    match hashpw password.toUTF8 salt with
    | .ok hashed => ([], .ok hashed)
    | .error _ => ([], .error .valueError)

/-- `check_password`, with its log. -/
def checkPasswordLogged (password : String) (hashedPassword : ByteArray) :
    List LogLine × Except AuthExc Bool :=
  if useArgon then
    match String.fromUTF8? hashedPassword with
    | none => ([], .error .unicodeDecodeError)
    | some hashStr =>
        match verify hashStr password with
        | .ok () =>
            match checkNeedsRehash hashStr with
            | .ok true => ([⟨.info, "Password rehash need for " ++ password⟩], .ok true)
            | .ok false => ([], .ok true)
            | .error e => ([⟨.error, "Invalid hash error: " ++ e⟩], .ok false)
        | .error (.verifyMismatchError, _) => ([], .ok false)
        | .error (.verificationError, e) => ([⟨.error, "Verification error: " ++ e⟩], .ok false)
        | .error (.invalidHashError, e) => ([⟨.error, "Invalid hash error: " ++ e⟩], .ok false)
  else
    match checkpw password.toUTF8 hashedPassword with
    | .ok correct => ([], .ok correct)
    | .error e => ([⟨.error, "Invalid password error: " ++ e⟩], .ok false)

theorem hashPasswordLogged_snd (password : String) (salt : Nat) :
    (hashPasswordLogged password salt).2 = hashPassword password salt := by
  have hhash : PasswordLibraries.hash password salt = (hash password salt).toOption := rfl
  have hhashpw : PasswordLibraries.hashpw password.toUTF8 salt =
    (hashpw password.toUTF8 salt).toOption := rfl
  rw [hashPasswordLogged, hashPassword, hhash, hhashpw]
  show Prod.snd (if useArgon then _ else _) = if useArgon then _ else _
  split
  · cases hash password salt <;> rfl
  · cases hashpw password.toUTF8 salt <;> rfl

/-- Logging aside, it is the `check_password` of before if a verified hash can be examined. -/
theorem checkPasswordLogged_snd (password : String) (hashedPassword : ByteArray)
    (hexamined : ∀ hashStr, verify hashStr password = .ok () →
      ∃ needed, checkNeedsRehash hashStr = .ok needed) :
    (checkPasswordLogged password hashedPassword).2 =
      checkPassword password hashedPassword := by
  have hcheckpw : PasswordLibraries.checkpw password.toUTF8 hashedPassword =
    (checkpw password.toUTF8 hashedPassword).toOption := rfl
  have hverify : ∀ hashStr, PasswordLibraries.verify hashStr password =
    (verify hashStr password).mapError Prod.fst := fun _ => rfl
  rw [checkPasswordLogged, checkPassword, hcheckpw]
  show Prod.snd (if useArgon then _ else _) = if useArgon then _ else _
  split
  · cases String.fromUTF8? hashedPassword with
    | none => rfl
    | some hashStr =>
        simp only [hverify]
        cases hanswer : verify hashStr password with
        | ok u =>
            obtain ⟨needed, hneeded⟩ := hexamined hashStr hanswer
            simp only [hneeded]
            cases needed <;> rfl
        | error e =>
            obtain ⟨kind, text⟩ := e
            cases kind <;> rfl
  · cases checkpw password.toUTF8 hashedPassword <;> rfl

/-- The text of the exception, if there was one. -/
def errorText {ε α : Type} : Except ε α → Option ε
  | .ok _ => none
  | .error e => some e

/-- `password[: len(password) // 4]`. -/
def firstQuarter (password : String) : List Char :=
  password.toList.take (password.length / 4)

/-- The library of the scheme in use cannot tell the passwords apart, the salts being as they are. -/
structure BehavesAlike (p p' : String) (salt salt' : Nat) (hashed : ByteArray) : Prop where
  hash : useArgon = true → errorText (hash p salt) = errorText (hash p' salt')
  verify : useArgon = true → ∀ hashStr, String.fromUTF8? hashed = some hashStr →
    verify hashStr p = verify hashStr p'
  hashpw : useArgon = false →
    errorText (hashpw p.toUTF8 salt) = errorText (hashpw p'.toUTF8 salt')
  checkpw : useArgon = false → checkpw p.toUTF8 hashed = checkpw p'.toUTF8 hashed

/-- The password is accepted, and its hash is out of date. -/
def RehashNeeded (password : String) (hashed : ByteArray) : Prop :=
  ∃ hashStr, String.fromUTF8? hashed = some hashStr ∧
    verify hashStr password = .ok () ∧ checkNeedsRehash hashStr = .ok true

/-- With argon2, hashing fails, or the password is accepted with a hash that is out of date. -/
def PrintsPassword (password : String) (salt : Nat) (hashed : ByteArray) : Prop :=
  useArgon = true ∧
  ((errorText (hash password salt)).isSome = true ∨ RehashNeeded password hashed)

/-- Both functions log the same. -/
def LoggedAlike (p p' : String) (salt salt' : Nat) (hashed : ByteArray) : Prop :=
  (hashPasswordLogged p salt).1 = (hashPasswordLogged p' salt').1 ∧
  (checkPasswordLogged p hashed).1 = (checkPasswordLogged p' hashed).1

section Lines

variable {p p' : String} {salt salt' : Nat} {hashed : ByteArray}

omit [VerboseLibraries] in
/-- The mask shows what it should hide. -/
theorem maskedPassword_inj (hlength : p.length = p'.length)
    (hquarter : firstQuarter p = firstQuarter p') (h : maskedPassword p = maskedPassword p') :
    p = p' := by
  rw [maskedPassword, maskedPassword, hlength] at h
  have hchars := congrArg String.toList h
  rw [String.toList_append, String.toList_append] at hchars
  have hdrop := List.append_cancel_right hchars
  rw [String.toList_ofList, String.toList_ofList] at hdrop
  rw [firstQuarter, firstQuarter, hlength] at hquarter
  rw [← String.toList_inj, ← List.take_append_drop (p'.length / 4) p.toList, hquarter, hdrop,
    List.take_append_drop]

/-- Without argon2, what is logged depends on what the library answers only. -/
theorem loggedAlike_bcrypt (hbcrypt : useArgon = false)
    (halike : BehavesAlike p p' salt salt' hashed) : LoggedAlike p p' salt salt' hashed := by
  have hnot : ¬ useArgon = true := by simp [hbcrypt]
  constructor
  · rw [hashPasswordLogged, hashPasswordLogged, if_neg hnot, if_neg hnot]
    cases hashpw p.toUTF8 salt <;> cases hashpw p'.toUTF8 salt' <;> rfl
  · rw [checkPasswordLogged, checkPasswordLogged, if_neg hnot, if_neg hnot, halike.checkpw hbcrypt]

theorem fst_hash_of_ok (hargon : useArgon = true) (h : errorText (hash p salt) = none) :
    (hashPasswordLogged p salt).1 = [] := by
  rw [hashPasswordLogged, if_pos hargon]
  cases hhash : hash p salt with
  | ok hashStr => rfl
  | error e =>
      rw [hhash] at h
      cases h

theorem fst_hash_of_error (hargon : useArgon = true) {e : String}
    (h : errorText (hash p salt) = some e) :
    (hashPasswordLogged p salt).1 =
      [⟨.error, "Hashing error: " ++ e ++ " for password=" ++ maskedPassword p⟩] := by
  rw [hashPasswordLogged, if_pos hargon]
  cases hhash : hash p salt with
  | ok hashStr =>
      rw [hhash] at h
      cases h
  | error e' =>
      rw [hhash] at h
      cases h
      rfl

/-- With argon2, the log of hashing is the same if it is empty, or the passwords are one. -/
theorem hash_alike_iff (hargon : useArgon = true) (hlength : p.length = p'.length)
    (hquarter : firstQuarter p = firstQuarter p')
    (halike : errorText (hash p salt) = errorText (hash p' salt')) :
    (hashPasswordLogged p salt).1 = (hashPasswordLogged p' salt').1 ↔
      p = p' ∨ errorText (hash p salt) = none := by
  cases herror : errorText (hash p salt) with
  | none =>
      have hlog := fst_hash_of_ok hargon herror
      have hlog' := fst_hash_of_ok hargon (halike.symm.trans herror)
      simp [hlog, hlog']
  | some e =>
      rw [fst_hash_of_error hargon herror, fst_hash_of_error hargon (halike.symm.trans herror)]
      constructor
      · intro h
        have hmask := (String.append_right_inj _).1 (congrArg LogLine.message (List.cons.inj h).1)
        exact Or.inl (maskedPassword_inj hlength hquarter hmask)
      · rintro (rfl | hnone)
        · rfl
        · cases hnone

theorem fst_check_of_rehash (hargon : useArgon = true) (h : RehashNeeded p hashed) :
    (checkPasswordLogged p hashed).1 = [⟨.info, "Password rehash need for " ++ p⟩] := by
  obtain ⟨hashStr, hdecoded, hverify, hneeds⟩ := h
  rw [checkPasswordLogged, if_pos hargon]
  simp only [hdecoded, hverify, hneeds]

/-- With argon2, the log of a check is the same if the password is not in it, or it is one. -/
theorem check_alike_iff (hargon : useArgon = true)
    (halike : ∀ hashStr, String.fromUTF8? hashed = some hashStr →
      verify hashStr p = verify hashStr p') :
    (checkPasswordLogged p hashed).1 = (checkPasswordLogged p' hashed).1 ↔
      p = p' ∨ ¬ RehashNeeded p hashed := by
  constructor
  · intro h
    by_cases hrehash : RehashNeeded p hashed
    · obtain ⟨hashStr, hdecoded, hverify, hneeds⟩ := hrehash
      rw [fst_check_of_rehash hargon ⟨hashStr, hdecoded, hverify, hneeds⟩,
        fst_check_of_rehash hargon ⟨hashStr, hdecoded, (halike hashStr hdecoded).symm.trans hverify,
          hneeds⟩] at h
      exact Or.inl ((String.append_right_inj _).1 (congrArg LogLine.message (List.cons.inj h).1))
    · exact Or.inr hrehash
  · rintro (rfl | hnot)
    · rfl
    · rw [checkPasswordLogged, checkPasswordLogged, if_pos hargon, if_pos hargon]
      cases hdecoded : String.fromUTF8? hashed with
      | none => rfl
      | some hashStr =>
          simp only [← halike hashStr hdecoded]
          cases hverify : verify hashStr p with
          | error e =>
              obtain ⟨kind, text⟩ := e
              cases kind <;> rfl
          | ok u =>
              cases hneeds : checkNeedsRehash hashStr with
              | error e => rfl
              | ok needed =>
                  cases needed with
                  | false => rfl
                  | true => exact absurd ⟨hashStr, hdecoded, hverify, hneeds⟩ hnot

/--
Two passwords of one length and one first quarter that the library in use does
not tell apart are logged alike if and only if they are one password, or neither
of the lines that print it is reached.  The passwords are texts without lone
surrogates.
-/
theorem logs_alike_iff (hlength : p.length = p'.length)
    (hquarter : firstQuarter p = firstQuarter p')
    (halike : BehavesAlike p p' salt salt' hashed) :
    LoggedAlike p p' salt salt' hashed ↔ p = p' ∨ ¬ PrintsPassword p salt hashed := by
  by_cases hargon : useArgon = true
  · rw [LoggedAlike, hash_alike_iff hargon hlength hquarter (halike.hash hargon),
      check_alike_iff hargon (halike.verify hargon), PrintsPassword, ← or_and_left,
      and_iff_right hargon, not_or, Option.isSome_iff_ne_none, not_not]
  · refine iff_of_true (loggedAlike_bcrypt (by simpa using hargon) halike) (Or.inr fun h => ?_)
    exact hargon h.1

end Lines

end PasswordLogs

section Sample

/-- argon2 as it answers for a password that is not the stored one; hashing is open. -/
@[reducible] def mismatchingArgon (hashing : Except String String) : VerboseLibraries where
  useArgon := true
  hashpw _ _ := .error "Invalid salt"
  checkpw _ _ := .error "Invalid salt"
  hash _ _ := hashing
  verify _ _ := .error (.verifyMismatchError, "The password does not match the supplied hash")
  checkNeedsRehash _ := .ok false
  sha256Hexdigest _ := ""

theorem mismatchingArgon_alike (hashing : Except String String) (p p' : String)
    (salt salt' : Nat) (hashed : ByteArray) :
    letI := mismatchingArgon hashing
    BehavesAlike p p' salt salt' hashed := by
  let := mismatchingArgon hashing
  refine ⟨fun _ => rfl, fun _ _ _ => rfl, fun h => ?_, fun h => ?_⟩
  · cases h
  · cases h

/-- When memory runs out while hashing, three quarters of the password are logged. -/
theorem hashing_error_logs_password :
    letI := mismatchingArgon (.error "Memory allocation error")
    BehavesAlike "abcdefgh" "abstuvwx" 0 1 ByteArray.empty ∧
    "abcdefgh".length = "abstuvwx".length ∧
    firstQuarter "abcdefgh" = firstQuarter "abstuvwx" ∧
    (hashPasswordLogged "abcdefgh" 0).1 =
      [⟨.error, "Hashing error: Memory allocation error for password=cdefgh******"⟩] ∧
    (hashPasswordLogged "abstuvwx" 1).1 =
      [⟨.error, "Hashing error: Memory allocation error for password=stuvwx******"⟩] ∧
    ¬ LoggedAlike "abcdefgh" "abstuvwx" 0 1 ByteArray.empty := by
  refine ⟨mismatchingArgon_alike _ _ _ _ _ _, by decide, by decide, by decide, by decide,
    fun h => ?_⟩
  exact absurd h.1 (by decide)

/-- While hashing works and no password is accepted, nothing is printed. -/
theorem logs_alike_mismatch :
    letI := mismatchingArgon (.ok "$argon2id$v=19$m=65536,t=3,p=4$c2FsdHNhbHRzYWx0c2FsdA$aGFzaA")
    LoggedAlike "abcdefgh" "abstuvwx" 0 1 ByteArray.empty := by
  let := mismatchingArgon (.ok "$argon2id$v=19$m=65536,t=3,p=4$c2FsdHNhbHRzYWx0c2FsdA$aGFzaA")
  refine (logs_alike_iff (by decide) (by decide) (mismatchingArgon_alike _ _ _ _ _ _)).2
    (Or.inr ?_)
  rintro ⟨-, hfails | ⟨hashStr, -, hverify, -⟩⟩
  · cases hfails
  · cases hverify

end Sample

end SmartHttpRequester
