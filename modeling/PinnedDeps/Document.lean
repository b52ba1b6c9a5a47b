/-!
Reports as data, and their indented text, which is JSON with two blanks for each level. The fields of a
record stand in the order they are given; nothing but quotes, backslashes and control characters is escaped.
How such a text is laid out is fixed here as a definition.
-/
namespace PinnedDeps

inductive Document where
  | text (s : String)
  | flag (b : Bool)
  | number (n : Nat)
  | list (items : List Document)
  | record (fields : List (String × Document))

namespace Document

def hexDigit (n : Nat) : Char := if n < 10 then Char.ofNat (48 + n) else Char.ofNat (87 + n)

def escape (c : Char) : List Char :=
  if c = '"' then ['\\', '"']
  else if c = '\\' then ['\\', '\\']
  else if c = '\n' then ['\\', 'n']
  else if c = '\r' then ['\\', 'r']
  else if c = '\t' then ['\\', 't']
  else if c.toNat = 8 then ['\\', 'b']
  else if c.toNat = 12 then ['\\', 'f']
  else if c.toNat < 32 then ['\\', 'u', '0', '0', hexDigit (c.toNat / 16), hexDigit (c.toNat % 16)]
  else [c]

def quote (s : String) : List Char := '"' :: s.toList.flatMap escape ++ ['"']

/-- Each level is indented by two more blanks. -/
def newLine (depth : Nat) : List Char := '\n' :: List.replicate (2 * depth) ' '

mutual

def chars (depth : Nat) : Document → List Char
  | text s => quote s
  | flag b => (toString b).toList
  | number n => (toString n).toList
  | list [] => ['[', ']']
  | list (d :: rest) =>
    '[' :: newLine (depth + 1) ++ chars (depth + 1) d ++ moreItems (depth + 1) rest ++
      newLine depth ++ [']']
  | record [] => ['\x7b', '\x7d']
  | record (f :: rest) =>
    '\x7b' :: newLine (depth + 1) ++ field (depth + 1) f ++ moreFields (depth + 1) rest ++
      newLine depth ++ ['\x7d']

def moreItems (depth : Nat) : List Document → List Char
  | [] => []
  | d :: rest => ',' :: newLine depth ++ chars depth d ++ moreItems depth rest

def field (depth : Nat) : String × Document → List Char
  | (name, d) => quote name ++ [':', ' '] ++ chars depth d

def moreFields (depth : Nat) : List (String × Document) → List Char
  | [] => []
  | f :: rest => ',' :: newLine depth ++ field depth f ++ moreFields depth rest

end

def render (d : Document) : String := String.ofList (chars 0 d)

end Document
end PinnedDeps
