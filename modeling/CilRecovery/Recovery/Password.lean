import CilRecovery.Error
import CilRecovery.Table

/-!
Passwords of guarded ranges. An entry reads `TOKEN[#ORDINAL]:PASSWORD`; without an ordinal it
serves every range of the method that has no entry of its own.
-/
namespace CilRecovery

structure PasswordEntry where
  /-- The method that the password belongs to. -/
  token : Token
  /-- Which guarded range of the method, absent for all. -/
  ordinal : Option Nat
  password : String
  deriving DecidableEq, Repr

namespace PasswordEntry

/-- The text before and after the first occurrence of a character. -/
def splitAtFirst? (mark : Char) (text : List Char) : Option (List Char × List Char) :=
  match text.dropWhile (· != mark) with
  | [] => none
  | _ :: after => some (text.takeWhile (· != mark), after)

/-- Reads a method token, for which eight bare hexadecimal digits will do. -/
def parseToken (text : List Char) : Except Error Token :=
  let trimmed := Text.trim text
  match trimmed.length == 8, Text.digitsValue? 16 0 trimmed with
  | true, some n => .ok ⟨UInt32.ofNat n⟩
  | _, _ => Token.parse (String.ofList trimmed)

def parseOrdinal (text : List Char) : Except Error Nat :=
  match Text.parseNat? 10 0x100000000 (Text.trim text) with
  | some n => .ok n
  | none => .error (.malformed ("Invalid range ordinal '" ++ String.ofList text ++ "'"))

/-- Reads what stands before the password. -/
def parseKey (key : List Char) : Except Error (Token × Option Nat) :=
  match splitAtFirst? '#' key with
  | none => do
    let token ← parseToken key
    return (token, none)
  | some (token, ordinal) => do
    let ordinal ← parseOrdinal ordinal
    let token ← parseToken token
    return (token, some ordinal)

def parse (text : String) : Except Error PasswordEntry :=
  match splitAtFirst? ':' text.toList with
  | none => .error (.malformed ("Password argument '" ++ text ++ "' lacks ':'"))
  | some (key, []) => .error (.malformed ("Empty password for '" ++ String.ofList key ++ "'"))
  | some (key, password) => do
    let (token, ordinal) ← parseKey key
    return ⟨token, ordinal, String.ofList password⟩

/-- The entry without its password. -/
def describe (entry : PasswordEntry) : String :=
  let ordinal :=
    match entry.ordinal with
    | some n => "Some(" ++ toString n ++ ")"
    | none => "None"
  "PasswordEntry \x7b token: " ++ entry.token.describe ++ ", ordinal: " ++ ordinal ++
    ", password: \"<redacted>\" \x7d"

end PasswordEntry

/-- Passwords by method and ordinal. -/
structure PasswordStore where
  entries : Table (Token × Option Nat) String := {}
  deriving DecidableEq

namespace PasswordStore

instance : Inhabited PasswordStore := ⟨{}⟩

/-- Adds an entry; it replaces an earlier one for the same ranges. -/
def insert (store : PasswordStore) (entry : PasswordEntry) : PasswordStore :=
  ⟨store.entries.insert (entry.token, entry.ordinal) entry.password⟩

def ofList (entries : List PasswordEntry) : PasswordStore := entries.foldl insert {}

/-- The password of a guarded range: its own, or else the one for the whole method. -/
def get? (store : PasswordStore) (token : Token) (ordinal : Nat) : Option String :=
  (store.entries.get? (token, some ordinal)).or (store.entries.get? (token, none))

def hasMethod (store : PasswordStore) (token : Token) : Bool :=
  store.entries.entries.any fun entry => entry.1.1 == token

def size (store : PasswordStore) : Nat := store.entries.size

/-- How many entries there are, and nothing of what they say. -/
def describe (store : PasswordStore) : String :=
  "PasswordStore \x7b entries: " ++ toString store.size ++ " \x7d"

end PasswordStore

end CilRecovery
