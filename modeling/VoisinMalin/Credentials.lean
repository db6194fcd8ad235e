import VoisinMalin.Library.Text
import VoisinMalin.Model

/-! Sign-up and login. The sign-up form validates the mail and the password without blanks at their
ends and then creates the account from the texts as they were typed; the login drops blanks and line
breaks at the ends of both. So an account opens with what was typed at sign-up if and only if the
login has nothing to drop, or the account without the blanks exists, too. -/

namespace VoisinMalin

open Regex

def range (first last : Char) (c : Char) : Bool := first ≤ c ∧ c ≤ last

def upper : Char → Bool := range 'A' 'Z'

def lower : Char → Bool := range 'a' 'z'

def digit : Char → Bool := range '0' '9'

/-- The dot of a regular expression, which matches no line terminator. -/
def anyChar (c : Char) : Bool := !newlines c

namespace TestValues

/-- `[A-Z0-9a-z.-_]+@[A-Za-z0-9.-]+\.[A-Za-z]{2,3}`. In the first class `.-_` is a range. -/
def emailRegEx : Regex Char := sequence
  [.chars (fun c => upper c || digit c || lower c || range '.' '_' c) 1 none,
   .chars (· == '@') 1 (some 1),
   .chars (fun c => upper c || lower c || digit c || c == '.' || c == '-') 1 none,
   .chars (· == '.') 1 (some 1),
   .chars (fun c => upper c || lower c) 2 (some 3)]

/-- `(?=.*[A-Z])(?=.*[0-9])(?=.*[a-z]).{8,}` -/
def passwordRegEx : Regex Char := sequence
  [.lookahead (.seq (.chars anyChar 0 none) (.chars upper 1 (some 1))),
   .lookahead (.seq (.chars anyChar 0 none) (.chars digit 1 (some 1))),
   .lookahead (.seq (.chars anyChar 0 none) (.chars lower 1 (some 1))),
   .chars anyChar 8 none]

/-- A search: the text only has to contain a match. -/
def validEmailAdress : Option String → Bool
  | some emailAdressString => emailRegEx.found emailAdressString.toList
  | none => false

def isValidPassword : Option String → Bool
  | some password => passwordRegEx.wholly password.toList
  | none => false

end TestValues

/-- What AuthService is asked to sign up or in with. -/
structure Credentials where
  email : String
  password : String
deriving DecidableEq

/-- What a press on the sign-up button does: the alerts, in the order in which they are presented,
and the user name and credentials that `signUp` passes on. -/
structure SignUpPress where
  alerts : List String
  signUp : Option (String × Credentials)
deriving DecidableEq

def signUp (mail password userName : String) : String × Credentials := (userName, ⟨mail, password⟩)

def signupPressButton (mail password userName : String) : SignUpPress :=
  let isValidEmail := TestValues.validEmailAdress (some (trimmingCharacters whitespaces mail))
  let isValidPassword := TestValues.isValidPassword (some (trimmingCharacters whitespaces password))
  { alerts :=
      (if isValidEmail = false ∧ isValidPassword = false then
        ["Mail et mot de passe incorecte"] else []) ++
      (if isValidEmail = false then ["Mail incorecte"] else []) ++
      (if isValidPassword = false then ["Mot de passe incorecte"] else [])
    signUp :=
      if isValidEmail = true ∧ isValidPassword = true then some (signUp mail password userName)
      else none }

/-- The credentials that a press on the login button passes on. -/
def loginViewPressButton (mail password : String) : Credentials :=
  ⟨trimmingCharacters whitespacesAndNewlines mail,
    trimmingCharacters whitespacesAndNewlines password⟩

/-- The accounts that the backend has recorded. -/
abbrev Accounts := List Credentials

def Accounts.create (accounts : Accounts) (c : Credentials) : Accounts := c :: accounts

def Accounts.signIn (accounts : Accounts) (c : Credentials) : Bool := c ∈ accounts

/-- The press signs up or alerts, and never both. -/
theorem signUp_iff_no_alert (mail password userName : String) :
    (signupPressButton mail password userName).signUp.isSome ↔
      (signupPressButton mail password userName).alerts = [] := by
  simp only [signupPressButton]
  cases TestValues.validEmailAdress (some (trimmingCharacters whitespaces mail)) <;>
    cases TestValues.isValidPassword (some (trimmingCharacters whitespaces password)) <;> simp

theorem signUp_typed {mail password userName name : String} {c : Credentials}
    (h : (signupPressButton mail password userName).signUp = some (name, c)) :
    c = ⟨mail, password⟩ := by
  simp only [signupPressButton] at h
  split at h
  · cases h
    rfl
  · contradiction

/-- After a sign-up the same texts log in exactly when the login drops nothing of them, or the
account with what it leaves of them existed before. -/
theorem login_iff {mail password userName name : String} {c : Credentials} (accounts : Accounts)
    (h : (signupPressButton mail password userName).signUp = some (name, c)) :
    (accounts.create c).signIn (loginViewPressButton mail password) = true ↔
      (trimmingCharacters whitespacesAndNewlines mail = mail ∧
        trimmingCharacters whitespacesAndNewlines password = password) ∨
      loginViewPressButton mail password ∈ accounts := by
  rw [signUp_typed h]
  simp only [Accounts.create, Accounts.signIn, decide_eq_true_eq, List.mem_cons]
  refine or_congr_left ?_
  simp only [loginViewPressButton, Credentials.mk.injEq]

theorem login_plain : (Accounts.create [] ⟨"alice@mail.fr", "Abcdefg1"⟩).signIn
    (loginViewPressButton "alice@mail.fr" "Abcdefg1") = true := by
  have h : (signupPressButton "alice@mail.fr" "Abcdefg1" "Alice").signUp =
      some ("Alice", ⟨"alice@mail.fr", "Abcdefg1"⟩) := by decide
  exact (login_iff [] h).mpr (Or.inl (by decide))

/-- A password with a blank at its end signs up and does not log in. -/
theorem login_blank_fails :
    (signupPressButton "alice@mail.fr" "Abcdefg1 " "Alice").signUp =
      some ("Alice", ⟨"alice@mail.fr", "Abcdefg1 "⟩) ∧
    (Accounts.create [] ⟨"alice@mail.fr", "Abcdefg1 "⟩).signIn
      (loginViewPressButton "alice@mail.fr" "Abcdefg1 ") = false := by
  decide

end VoisinMalin
