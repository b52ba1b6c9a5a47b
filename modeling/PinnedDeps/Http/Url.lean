import PinnedDeps.Bytes
import PinnedDeps.BuildError

/-!
Addresses of the web: how a text becomes one, how it is written, and what a reference means that is
found at one.
-/
namespace PinnedDeps.Http

open Bytes (ofText)

structure Url where
  scheme : String
  host : String
  port : Option Nat
  path : String
  query : Option String
  fragment : Option String
  deriving DecidableEq, Repr

namespace Url

/-- What is asked for at the host. -/
def target (u : Url) : String :=
  u.path ++ (u.query.map ("?" ++ ·)).getD ""

def authority (u : Url) : String := u.host ++ (u.port.map fun p => s!":{p}").getD ""

def text (u : Url) : String :=
  u.scheme ++ "://" ++ u.authority ++ u.target ++ (u.fragment.map ("#" ++ ·)).getD ""

def upperHexDigit (n : UInt8) : Char :=
  if n < 10 then Char.ofNat (48 + n.toNat) else Char.ofNat (55 + n.toNat)

/-- Writes control characters, what is not ASCII, and the given characters as escapes. -/
def escape (special : List Char) (cs : List Char) : List Char :=
  cs.flatMap fun c =>
    if c.toNat < 0x20 ∨ 0x7e < c.toNat ∨ c ∈ special then
      (ofText c.toString).flatMap fun b => ['%', upperHexDigit (b / 16), upperHexDigit (b % 16)]
    else [c]

def fragmentSpecial : List Char := [' ', '"', '<', '>', '`']
def querySpecial : List Char := [' ', '"', '#', '<', '>', '\'']
def pathSpecial : List Char := [' ', '"', '#', '<', '>', '?', '^', '`', '\x7b', '\x7d']

def lower (cs : List Char) : List Char := cs.map Char.toLower

def isSchemeChar (c : Char) : Bool := c.isAlphanum || c == '+' || c == '-' || c == '.'

/-- The scheme in front of a colon, and what follows. -/
def scheme? (cs : List Char) : Option (List Char × List Char) :=
  let name := cs.takeWhile isSchemeChar
  match cs.drop name.length with
  | ':' :: rest =>
    if (name.head?.map Char.isAlpha).getD false then some (lower name, rest) else none
  | _ => none

def isSeparator (c : Char) : Bool := c == '/' || c == '\\'

def endsAuthority (c : Char) : Bool := isSeparator c || c == '?' || c == '#'

/-- What follows the last `@`. -/
def afterUser (cs : List Char) : List Char := (cs.reverse.takeWhile (· ≠ '@')).reverse

def isDot (s : List Char) : Bool := lower s == ['.'] || lower s == "%2e".toList

def isDotDot (s : List Char) : Bool :=
  ["..", ".%2e", "%2e.", "%2e%2e"].any fun t => lower s == t.toList

/-- Takes the dots out of the parts of a path; a path that ends in them ends in an empty part. -/
def resolveDots : List (List Char) → List (List Char) → List (List Char)
  | done, [] => done.reverse
  | done, s :: rest =>
    if isDotDot s then
      resolveDots (if rest.isEmpty then [] :: done.tail else done.tail) rest
    else if isDot s then resolveDots (if rest.isEmpty then [] :: done else done) rest
    else resolveDots (s :: done) rest

def pathText (cs : List Char) : String :=
  let parts := (cs.map fun c => if c = '\\' then '/' else c).splitOn '/'
  let parts := if parts.head? = some [] then parts.tail else parts
  String.ofList ('/' :: ['/'].intercalate ((resolveDots [] parts).map (escape pathSpecial)))

def digitValue (c : Char) : Nat :=
  if c.isDigit then c.toNat - 48 else if 'a' ≤ c ∧ c ≤ 'f' then c.toNat - 87 else 16

def natural (base : Nat) (cs : List Char) : Option Nat :=
  if cs.all fun c => digitValue c < base then some (cs.foldl (fun n c => n * base + digitValue c) 0)
  else none

/-- One part of a numeric host: decimal, or octal behind `0`, or hexadecimal behind `0x`. -/
def hostNumber (cs : List Char) : Option Nat :=
  match cs with
  | [] => none
  | '0' :: 'x' :: rest => natural 16 rest
  | '0' :: d :: rest => natural 8 (d :: rest)
  | _ => natural 10 cs

/-- The last part of a numeric host fills all the bytes that are left. -/
def addressOf (numbers : List Nat) : Option Nat :=
  let leading := numbers.dropLast
  let last := numbers.getLastD 0
  if 4 < numbers.length ∨ leading.any (255 < ·) ∨ 1 <<< (8 * (5 - numbers.length)) ≤ last then none
  else some (leading.zipIdx.foldl (fun n p => n + p.1 <<< (8 * (3 - p.2))) last)

def addressText (n : Nat) : String :=
  ".".intercalate ([3, 2, 1, 0].map fun i => toString (n >>> (8 * i) % 256))

def forbiddenInHost : List Char := " #%/:<>?@[\\]^|".toList

/-- An address in brackets is kept as it is written. -/
def bracketed? (name : List Char) : Option String :=
  let inner := name.tail.dropLast
  if name.getLast? = some ']' ∧ ':' ∈ inner ∧
      inner.all (fun c => digitValue c < 16 ∨ c = ':' ∨ c = '.') then
    some (String.ofList name)
  else none

/-- A host is a name in lower case; one that ends in a number is an address of four bytes. -/
def host? (cs : List Char) : Option String :=
  let name := lower cs
  if name.head? = some '[' then bracketed? name
  else if name = [] ∨ name.any (fun c => c.toNat ≤ 0x20 ∨ 0x7e < c.toNat ∨ c ∈ forbiddenInHost) then
    none
  else
    let parts := name.splitOn '.'
    let parts := if 1 < parts.length ∧ parts.getLast? = some [] then parts.dropLast else parts
    let last := parts.getLastD []
    if (last ≠ [] ∧ last.all Char.isDigit) ∨ (hostNumber last).isSome then
      ((parts.mapM hostNumber).bind addressOf).map addressText
    else some (String.ofList name)

def defaultPort (scheme : String) : Option Nat :=
  [("http", 80), ("https", 443), ("ws", 80), ("wss", 443), ("ftp", 21)].lookup scheme

def maxPort : Nat := 65535

/-- A port that is missing or the usual one is not written. -/
def port? (scheme : String) (cs : List Char) : Option (Option Nat) :=
  match cs with
  | [] | [':'] => some none
  | ':' :: digits =>
    if digits.all Char.isDigit then
      (natural 10 digits).bind fun n =>
        if maxPort < n then none else some (if defaultPort scheme = some n then none else some n)
    else none
  | _ => none

/-- Cuts a text at the first of the given characters, which the second part keeps. -/
def cutAt (c : Char) (cs : List Char) : List Char × List Char :=
  (cs.takeWhile (· ≠ c), cs.dropWhile (· ≠ c))

/-- Splits what follows the authority into path, query and fragment. -/
def tailOf (cs : List Char) : List Char × Option (List Char) × Option (List Char) :=
  let (front, fragment) := cutAt '#' cs
  let (path, query) := cutAt '?' front
  let opened (cs : List Char) : Option (List Char) := if cs.isEmpty then none else some cs.tail
  (path, opened query, opened fragment)

/-- The host in front of a port; colons in brackets belong to it. -/
def hostPart (cs : List Char) : List Char :=
  if cs.head? = some '[' then cs.takeWhile (· ≠ ']') ++ (cs.dropWhile (· ≠ ']')).take 1
  else cs.takeWhile (· ≠ ':')

def ofAuthority (scheme : String) (cs : List Char) : Option Url := do
  let rest := cs.dropWhile isSeparator
  let authority := rest.takeWhile fun c => !endsAuthority c
  let hostPort := afterUser authority
  let name := hostPart hostPort
  let host ← host? name
  let port ← port? scheme (hostPort.drop name.length)
  let (path, query, fragment) := tailOf (rest.drop authority.length)
  return {
    scheme, host, port
    path := pathText path
    query := query.map fun q => String.ofList (escape querySpecial q)
    fragment := fragment.map fun f => String.ofList (escape fragmentSpecial f) }

def hasAuthority (scheme : List Char) : Bool :=
  ["http", "https", "ws", "wss", "ftp"].any fun s => s.toList == scheme

def isWeb (scheme : String) : Bool := scheme == "http" || scheme == "https"

/-- Blanks around an address, and line breaks within, do not count. -/
def trim (cs : List Char) : List Char :=
  let isBlank (c : Char) : Bool := c.toNat ≤ 0x20
  ((cs.dropWhile isBlank).reverse.dropWhile isBlank).reverse.filter fun c =>
    c ≠ '\t' ∧ c ≠ '\n' ∧ c ≠ '\r'

/-- Reads an address that can be fetched from. -/
def parse (s : String) : Except FetchCause Url :=
  match scheme? (trim s.toList) with
  | none => .error .badUrl
  | some (scheme, rest) =>
    if hasAuthority scheme then
      match ofAuthority (String.ofList scheme) rest with
      | none => .error .badUrl
      | some u => if isWeb u.scheme then .ok u else .error (.badScheme u.text)
    else .error (.badScheme (String.ofList (scheme ++ ':' :: escape [] rest)))

def isReferenceChar (c : Char) : Bool :=
  c.isAlphanum || "-._~:/?#[]@!$&'()*+,;=%".toList.contains c

/-- Joins a relative path onto the directory of another. -/
def mergePath (base rel : List Char) : List Char :=
  (base.reverse.dropWhile (· ≠ '/')).reverse ++ rel

def removeDots (path : List Char) : String :=
  String.ofList ('/' :: ['/'].intercalate (resolveDots [] (path.splitOn '/').tail))

/-- The address that a reference found at `base` means, if it is one. -/
def resolve (base : Url) (reference : String) : Option Url :=
  let cs := reference.toList
  if !cs.all isReferenceChar then none
  else
    match scheme? cs with
    | some (scheme, '/' :: '/' :: rest) => ofAuthority (String.ofList scheme) rest
    | some _ => none
    | none =>
      match cs with
      | '/' :: '/' :: rest => ofAuthority base.scheme rest
      | _ =>
        let (path, query, _) := tailOf cs
        let queryText := query.map String.ofList
        match path with
        | [] => some { base with query := queryText.or base.query, fragment := none }
        | '/' :: _ =>
          some { base with path := removeDots path, query := queryText, fragment := none }
        | _ =>
          some { base with
            path := removeDots (mergePath base.path.toList path)
            query := queryText
            fragment := none }

end Url
end PinnedDeps.Http
