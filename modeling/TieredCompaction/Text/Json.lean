/-!
JSON text, written without spaces and with the fields of an object in the order given.
-/
namespace TieredCompaction.Text

/-- The values that are written. Numbers are natural: no other kind occurs. -/
inductive Json where
  | number (n : Nat)
  | string (s : String)
  | list (items : List Json)
  | object (fields : List (String × Json))

namespace Json

/-- The two hexadecimal digits of a control character. -/
def controlDigits (c : Char) : List Char :=
  [Nat.digitChar (c.toNat / 16), Nat.digitChar (c.toNat % 16)]

/-- Escaped are the quote, the backslash and the control characters below the space. -/
def escapedChar (c : Char) : List Char :=
  if c = '"' then ['\\', '"']
  else if c = '\\' then ['\\', '\\']
  else if c = '\x08' then ['\\', 'b']
  else if c = '\x0c' then ['\\', 'f']
  else if c = '\n' then ['\\', 'n']
  else if c = '\r' then ['\\', 'r']
  else if c = '\t' then ['\\', 't']
  else if c.toNat < 32 then ['\\', 'u', '0', '0'] ++ controlDigits c
  else [c]

def escaped (s : String) : List Char :=
  '"' :: s.toList.flatMap escapedChar ++ ['"']

mutual

def chars : Json → List Char
  | number n => Nat.toDigits 10 n
  | string s => escaped s
  | list items => '[' :: itemChars items ++ [']']
  | object fields => '\x7b' :: fieldChars fields ++ ['\x7d']

def itemChars : List Json → List Char
  | [] => []
  | [item] => chars item
  | item :: rest => chars item ++ ',' :: itemChars rest

def fieldChars : List (String × Json) → List Char
  | [] => []
  | [(key, value)] => escaped key ++ ':' :: chars value
  | (key, value) :: rest => escaped key ++ ':' :: chars value ++ ',' :: fieldChars rest

end

def text (value : Json) : String :=
  String.ofList value.chars

end Json

end TieredCompaction.Text
