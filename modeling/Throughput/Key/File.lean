import Throughput.Json.Reader
import Throughput.Key.Basic
import Throughput.Text.Blank

/-!
# Files of keys

A file lists entries, either as an array or as the member `wallets` of an object. An entry is an object
with one member `private_key` or `privateKey`, or an array of one string. Other members do not count.
-/

namespace Throughput

/-- Why a file gives no keys. -/
inductive KeyFileError where
  | unreadable (reason : String)
  | notJson (fault : Json.Fault)
  | shape
  | badKey (entry : Nat)
  | empty
deriving DecidableEq, Repr

namespace KeyFileError

/-- What is said of a value that is no list of entries. -/
def shapeText : String := "data did not match any variant of untagged enum WalletsFile"

/-- The wording of an error. -/
def message : KeyFileError → String
  | .unreadable reason => "failed to read wallet file: " ++ reason
  | .notJson .malformed => "failed to parse wallet file: malformed text"
  | .notJson .incomplete => "failed to parse wallet file: the text ends too early"
  | .shape => "failed to parse wallet file: " ++ shapeText
  | .badKey entry => "invalid private key in wallet entry " ++ toString entry
  | .empty => "wallet file is empty"

end KeyFileError

namespace KeyFile

/-- The key text of an entry. -/
def entryText? : Json → Option String
  | .object members =>
    match Json.membersNamed members "private_key" ++ Json.membersNamed members "privateKey" with
    | [.string text] => some text
    | _ => none
  | .array [.string text] => some text
  | _ => none

/-- The key texts of a file. -/
def entryTexts? : Json → Option (List String)
  | .array items => items.mapM entryText?
  | .object members =>
    match Json.membersNamed members "wallets" with
    | [.array items] => items.mapM entryText?
    | _ => none
  | _ => none

/-- Reads keys in order and stops at the first that is none. -/
def readKeys (entry : Nat) : List String → Except KeyFileError (List SigningKey)
  | [] => .ok []
  | text :: rest =>
    match SigningKey.read? (trimBlanks text.toList) with
    | none => .error (.badKey entry)
    | some key => (readKeys (entry + 1) rest).map (key :: ·)

/-- Reads the text of a file. The shape of its first value is looked at before what follows it. -/
def read (text : String) : Except KeyFileError (List SigningKey) :=
  match Json.readFirst text with
  | .error fault => .error (.notJson fault)
  | .ok (value, isAll) =>
    match entryTexts? value with
    | none => .error .shape
    | some texts =>
      if !isAll then .error (.notJson .malformed)
      else if texts.isEmpty then .error .empty
      else readKeys 0 texts

/-- Reads the bytes of a file, if there is one. -/
def load (content : Option ByteArray) : Except KeyFileError (List SigningKey) :=
  match content with
  | none => .error (.unreadable "No such file or directory (os error 2)")
  | some bytes =>
    match String.fromUTF8? bytes with
    | none => .error (.unreadable "stream did not contain valid UTF-8")
    | some text => read text

end KeyFile

end Throughput
