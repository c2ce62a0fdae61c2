import ObjectGraph.Text.Unprintable

/-!
# Quoted texts

Two ways to write a text between double quotes. Listings for people escape quotes, backslashes, the
usual controls by a letter, and every character without a picture by its code point. The exchange
format escapes quotes, backslashes and controls only.
-/

namespace ObjectGraph.Text

def hexDigits (number : Nat) : List Char :=
  Nat.toDigits 16 number

def codePointEscape (char : Char) : List Char :=
  ['\\', 'u', '\x7b'] ++ hexDigits char.toNat ++ ['\x7d']

def listedChar (char : Char) : List Char :=
  match char with
  | '\x00' => ['\\', '0']
  | '\t' => ['\\', 't']
  | '\r' => ['\\', 'r']
  | '\n' => ['\\', 'n']
  | '\\' => ['\\', '\\']
  | '"' => ['\\', '"']
  | _ => if isUnprintable char then codePointEscape char else [char]

/-- A text within a listing. -/
def listed (text : String) : String :=
  String.ofList ('"' :: text.toList.flatMap listedChar ++ ['"'])

def exchangedChar (char : Char) : List Char :=
  match char with
  | '"' => ['\\', '"']
  | '\\' => ['\\', '\\']
  | '\x08' => ['\\', 'b']
  | '\x0c' => ['\\', 'f']
  | '\n' => ['\\', 'n']
  | '\r' => ['\\', 'r']
  | '\t' => ['\\', 't']
  | _ =>
      if char.toNat < 0x20 then
        ['\\', 'u', '0', '0'] ++ (if char.toNat < 0x10 then ['0'] else []) ++ hexDigits char.toNat
      else
        [char]

/-- A text within the exchange format. -/
def exchanged (text : String) : String :=
  String.ofList ('"' :: text.toList.flatMap exchangedChar ++ ['"'])

end ObjectGraph.Text
