import PinnedDeps.Shell.Script

/-!
Reading scripts. Every reader answers with the rest of its input, or with nothing if the input is
not a script. The depth of the calls is bounded by the length of the input.
-/
namespace PinnedDeps.Shell

/-- Where a word stands decides which bytes end it and which bytes quote. -/
inductive Place where
  | bare
  | quoted
  | braced
  | bracedInQuotes
  deriving DecidableEq

def Place.isQuoted (p : Place) : Bool := p == .quoted || p == .bracedInQuotes

abbrev Reader (α : Type) := Bytes → Option (α × Bytes)

def chars (s : String) : List UInt8 := Bytes.ofText s

def isBlank (b : UInt8) : Bool := b == 0x20 || b == 0x09

def isMeta (b : UInt8) : Bool := isBlank b || (chars "\n;&|<>()").contains b

def isNameStart (b : UInt8) : Bool :=
  (0x41 ≤ b && b ≤ 0x5a) || (0x61 ≤ b && b ≤ 0x7a) || b == 0x5f

def isDigit (b : UInt8) : Bool := 0x30 ≤ b && b ≤ 0x39

def isNameByte (b : UInt8) : Bool := isNameStart b || isDigit b

def isSpecial (b : UInt8) : Bool := isDigit b || (chars "@*#?-$!").contains b

def endsWord (p : Place) (b : UInt8) : Bool :=
  match p with
  | .bare => isMeta b
  | .quoted => b == 0x22
  | .braced | .bracedInQuotes => b == 0x7d

/-- Blanks, joined lines and a comment. -/
def skipBlanks : Nat → Bytes → Bytes
  | 0, b => b
  | fuel + 1, b =>
    match b with
    | 0x5c :: 0x0a :: rest => skipBlanks fuel rest
    | 0x23 :: rest => rest.dropWhile (· ≠ Bytes.newline)
    | c :: rest => if isBlank c then skipBlanks fuel rest else b
    | [] => []

def skipLines : Nat → Bytes → Bytes
  | 0, b => b
  | fuel + 1, b =>
    match skipBlanks (b.length + 1) b with
    | 0x0a :: rest => skipLines fuel rest
    | b => b

def blanks (b : Bytes) : Bytes := skipBlanks (b.length + 1) b
def lines (b : Bytes) : Bytes := skipLines (b.length + 1) b

/-- The word of plain bytes that comes next, for telling reserved words. -/
def plainWord (b : Bytes) : Bytes := b.takeWhile fun c => !isMeta c

/-- Takes a reserved word if it comes next. -/
def keyword (s : String) (b : Bytes) : Option Bytes :=
  let b := lines b
  if plainWord b = chars s then some (b.drop (chars s).length) else none

def closers : List Bytes := ["then", "else", "elif", "fi", "do", "done", "esac", "\x7d"].map chars

/-- The operator of an expansion in braces. -/
def change? : Bytes → Change × Bytes
  | 0x3a :: 0x2d :: rest => (.useDefault true, rest)
  | 0x2d :: rest => (.useDefault false, rest)
  | 0x3a :: 0x3d :: rest => (.assignDefault true, rest)
  | 0x3d :: rest => (.assignDefault false, rest)
  | 0x3a :: 0x2b :: rest => (.useOther true, rest)
  | 0x2b :: rest => (.useOther false, rest)
  | 0x3a :: 0x3f :: rest => (.require true, rest)
  | 0x3f :: rest => (.require false, rest)
  | 0x23 :: 0x23 :: rest => (.dropStart true, rest)
  | 0x23 :: rest => (.dropStart false, rest)
  | 0x25 :: 0x25 :: rest => (.dropEnd true, rest)
  | 0x25 :: rest => (.dropEnd false, rest)
  | rest => (.keep, rest)

def parameterName (b : Bytes) : Option (Bytes × Bytes) :=
  match b with
  | c :: rest =>
    if isNameStart c then some (b.takeWhile isNameByte, b.dropWhile isNameByte)
    else if isDigit c then some (b.takeWhile isDigit, b.dropWhile isDigit)
    else if isSpecial c then some ([c], rest)
    else none
  | [] => none

/-- The operator of a redirection, with the descriptor it is for. -/
def redirectOp (b : Bytes) : Option ((Nat × RedirectKind) × Bytes) :=
  let number := b.takeWhile isDigit
  let fd (default : Nat) : Nat :=
    if number = [] then default else number.foldl (fun n d => n * 10 + (d.toNat - 0x30)) 0
  match b.drop number.length with
  | 0x3e :: 0x3e :: rest => some ((fd 1, .append), rest)
  | 0x3e :: 0x26 :: rest => some ((fd 1, .duplicate), rest)
  | 0x3e :: 0x7c :: rest => some ((fd 1, .write), rest)
  | 0x3e :: rest => some ((fd 1, .write), rest)
  | 0x3c :: 0x26 :: rest => some ((fd 0, .duplicate), rest)
  | 0x3c :: 0x3c :: _ => none
  | 0x3c :: rest => some ((fd 0, .read), rest)
  | _ => none

/-- The text between backquotes, where a backslash quotes only itself, a dollar and a backquote. -/
def backquoted : Nat → Bytes → Option (Bytes × Bytes)
  | 0, _ => none
  | fuel + 1, b =>
    match b with
    | 0x60 :: rest => some ([], rest)
    | 0x5c :: c :: rest =>
      let kept := if (chars "\\$`").contains c then [c] else [0x5c, c]
      (backquoted fuel rest).map fun x => (kept ++ x.1, x.2)
    | c :: rest => (backquoted fuel rest).map fun x => (c :: x.1, x.2)
    | [] => none

mutual

/-- The parts of a word up to the byte that ends it. -/
def parts (place : Place) : Nat → Reader (List Part)
  | 0, _ => none
  | fuel + 1, b => do
    match b with
    | [] => if place = .bare then some ([], []) else none
    | c :: rest =>
      if endsWord place c then some ([], b)
      else
        let (found, rest) ← part place fuel c rest
        let (more, rest) ← parts place fuel rest
        return (found ++ more, rest)

/-- The parts that a byte begins. -/
def part (place : Place) : Nat → UInt8 → Reader (List Part)
  | 0, _, _ => none
  | fuel + 1, c, rest => do
    let quoted := place.isQuoted
    if c = 0x5c then
      match rest with
      | [] => some ([.literal [c] true], [])
      | 0x0a :: rest => some ([], rest)
      | d :: rest =>
        if quoted && !(chars "$`\"\\").contains d && !(place == .bracedInQuotes && d == 0x7d) then
          some ([.literal [c, d] true], rest)
        else some ([.literal [d] true], rest)
    else if c = 0x27 && !quoted then
      match rest.dropWhile (· ≠ 0x27) with
      | _ :: after => some ([.literal (rest.takeWhile (· ≠ 0x27)) true], after)
      | [] => none
    else if c = 0x22 then
      let (inner, rest) ← parts .quoted fuel rest
      return (if inner.isEmpty then [.literal [] true] else inner, rest.drop 1)
    else if c = 0x24 then dollar place fuel rest
    else if c = 0x60 then
      let (text, rest) ← backquoted (rest.length + 1) rest
      let (script, _) ← script fuel text
      return ([.output script quoted], rest)
    else some ([.literal [c] quoted], rest)

/-- What a dollar begins. -/
def dollar (place : Place) : Nat → Reader (List Part)
  | 0, _ => none
  | fuel + 1, b => do
    let quoted := place.isQuoted
    match b with
    | 0x28 :: rest =>
      let (script, rest) ← script fuel rest
      match lines rest with
      | 0x29 :: rest => return ([.output script quoted], rest)
      | _ => none
    | 0x7b :: rest =>
      match rest with
      | 0x23 :: 0x7d :: rest => return ([.parameter [0x23] .keep [] quoted], rest)
      | 0x23 :: rest =>
        let (name, rest) ← parameterName rest
        match rest with
        | 0x7d :: rest => return ([.parameter name .length [] quoted], rest)
        | _ => none
      | _ =>
        let (name, rest) ← parameterName rest
        let (change, rest) := change? rest
        let inner : Place := if quoted && !change.takesPattern then .bracedInQuotes else .braced
        let (word, rest) ← parts inner fuel rest
        if change = .keep ∧ ¬ word.isEmpty then none
        else return ([.parameter name change word quoted], rest.drop 1)
    | _ =>
      match b with
      | c :: rest =>
        if isNameStart c then
          return ([.parameter (b.takeWhile isNameByte) .keep [] quoted], b.dropWhile isNameByte)
        else if isSpecial c then return ([.parameter [c] .keep [] quoted], rest)
        else return ([.literal [0x24] quoted], b)
      | [] => return ([.literal [0x24] quoted], [])

/-- One command with its words, assignments and redirections. -/
def simple : Nat → List (Bytes × Word) → List Word → List Redirect → Reader Script
  | 0, _, _, _, _ => none
  | fuel + 1, assignments, words, redirects, b => do
    let b := blanks b
    match redirectOp b with
    | some ((fd, kind), rest) =>
      let (target, rest) ← parts .bare fuel (blanks rest)
      simple fuel assignments words (redirects ++ [.mk fd kind target]) rest
    | none =>
      let name := b.takeWhile isNameByte
      let after := b.drop name.length
      if b.isEmpty ∨ b.head?.any isMeta then
        return (.simple assignments words redirects, b)
      else if words.isEmpty ∧ name.head?.any isNameStart ∧ after.head? = some 0x3d then
        let (value, rest) ← parts .bare fuel after.tail
        simple fuel (assignments ++ [(name, value)]) words redirects rest
      else
        let (word, rest) ← parts .bare fuel b
        simple fuel assignments (words ++ [word]) redirects rest

/-- Words up to the end of a line. -/
def wordList : Nat → Reader (List Word)
  | 0, _ => none
  | fuel + 1, b => do
    let b := blanks b
    if b.isEmpty ∨ b.head?.any isMeta then return ([], b)
    else
      let (word, rest) ← parts .bare fuel b
      let (more, rest) ← wordList fuel rest
      return (word :: more, rest)

def redirectList : Nat → Reader (List Redirect)
  | 0, _ => none
  | fuel + 1, b => do
    match redirectOp (blanks b) with
    | some ((fd, kind), rest) =>
      let (target, rest) ← parts .bare fuel (blanks rest)
      let (more, rest) ← redirectList fuel rest
      return (.mk fd kind target :: more, rest)
    | none => return ([], b)

/-- The patterns of one arm of a `case`, up to the closing parenthesis. -/
def armPatterns : Nat → Reader (List Word)
  | 0, _ => none
  | fuel + 1, b => do
    let (word, rest) ← parts .bare fuel (blanks b)
    match blanks rest with
    | 0x7c :: rest =>
      let (more, rest) ← armPatterns fuel rest
      return (word :: more, rest)
    | 0x29 :: rest => return ([word], rest)
    | _ => none

def arms : Nat → Reader (List (List Word × Script))
  | 0, _ => none
  | fuel + 1, b => do
    match keyword "esac" b with
    | some rest => return ([], rest)
    | none =>
      let b := lines b
      let b := if b.head? = some 0x28 then b.tail else b
      let (patterns, rest) ← armPatterns fuel b
      let (body, rest) ← script fuel rest
      match lines rest with
      | 0x3b :: 0x3b :: rest =>
        let (more, rest) ← arms fuel rest
        return ((patterns, body) :: more, rest)
      | rest =>
        let rest ← keyword "esac" rest
        return ([(patterns, body)], rest)

/-- What follows the condition of an `if`. -/
def ifRest : Nat → Script → Reader Script
  | 0, _, _ => none
  | fuel + 1, condition, b => do
    let rest ← keyword "then" b
    let (yes, rest) ← script fuel rest
    match keyword "fi" rest, keyword "else" rest, keyword "elif" rest with
    | some rest, _, _ => return (.branch condition yes .nothing, rest)
    | none, some rest, _ =>
      let (no, rest) ← script fuel rest
      let rest ← keyword "fi" rest
      return (.branch condition yes no, rest)
    | none, none, some rest =>
      let (next, rest) ← script fuel rest
      let (no, rest) ← ifRest fuel next rest
      return (.branch condition yes no, rest)
    | none, none, none => none

def loopRest : Nat → Reader Script
  | 0, _ => none
  | fuel + 1, b => do
    let rest ← keyword "do" b
    let (body, rest) ← script fuel rest
    let rest ← keyword "done" rest
    return (body, rest)

/-- A command that is told by a reserved word, or a simple one. -/
def command : Nat → Reader Script
  | 0, _ => none
  | fuel + 1, b => do
    let b := blanks b
    match keyword "for" b, keyword "case" b, keyword "if" b, keyword "while" b, keyword "until" b,
        keyword "\x7b" b, b with
    | some rest, _, _, _, _, _, _ =>
      let rest := blanks rest
      let name := rest.takeWhile isNameByte
      let rest := rest.drop name.length
      match keyword "in" rest with
      | some rest =>
        let (words, rest) ← wordList fuel rest
        let rest := match rest with
          | 0x3b :: rest => rest
          | rest => rest
        let (body, rest) ← loopRest fuel rest
        return (.forEach name (some words) body, rest)
      | none =>
        let rest := match blanks rest with
          | 0x3b :: rest => rest
          | rest => rest
        let (body, rest) ← loopRest fuel rest
        return (.forEach name none body, rest)
    | _, some rest, _, _, _, _, _ =>
      let (subject, rest) ← parts .bare fuel (blanks rest)
      let rest ← keyword "in" rest
      let (found, rest) ← arms fuel rest
      return (.select subject found, rest)
    | _, _, some rest, _, _, _, _ =>
      let (condition, rest) ← script fuel rest
      ifRest fuel condition rest
    | _, _, _, some rest, _, _, _ =>
      let (condition, rest) ← script fuel rest
      let (body, rest) ← loopRest fuel rest
      return (.loop true condition body, rest)
    | _, _, _, _, some rest, _, _ =>
      let (condition, rest) ← script fuel rest
      let (body, rest) ← loopRest fuel rest
      return (.loop false condition body, rest)
    | _, _, _, _, _, some rest, _ =>
      let (body, rest) ← script fuel rest
      let rest ← keyword "\x7d" rest
      let (redirects, rest) ← redirectList fuel rest
      return (.group false body redirects, rest)
    | _, _, _, _, _, _, 0x28 :: rest =>
      let (body, rest) ← script fuel rest
      match lines rest with
      | 0x29 :: rest =>
        let (redirects, rest) ← redirectList fuel rest
        return (.group true body redirects, rest)
      | _ => none
    | _, _, _, _, _, _, _ =>
      let (found, rest) ← simple fuel [] [] [] b
      match found with
      | .simple [] [] [] => none
      | found => return (found, rest)

def pipeline : Nat → Reader Script
  | 0, _ => none
  | fuel + 1, b => do
    match keyword "!" b with
    | some rest =>
      let (a, rest) ← pipeline fuel rest
      return (.negate a, rest)
    | none =>
      let (a, rest) ← command fuel b
      match blanks rest with
      | 0x7c :: 0x7c :: _ => return (a, blanks rest)
      | 0x7c :: rest =>
        let (next, rest) ← pipeline fuel (lines rest)
        return (.pipe a next, rest)
      | rest => return (a, rest)

/-- Pipelines joined by `&&` and `||`, which bind to the left. -/
def chain : Nat → Script → Reader Script
  | 0, _, _ => none
  | fuel + 1, a, b => do
    match blanks b with
    | 0x26 :: 0x26 :: rest =>
      let (next, rest) ← pipeline fuel (lines rest)
      chain fuel (.both a next) rest
    | 0x7c :: 0x7c :: rest =>
      let (next, rest) ← pipeline fuel (lines rest)
      chain fuel (.either a next) rest
    | rest => return (a, rest)

/-- Commands up to the end, a closing word, or a mark that closes what is around them. -/
def script : Nat → Reader Script
  | 0, _ => none
  | fuel + 1, b => do
    let b := lines b
    if b.isEmpty ∨ b.head? = some 0x29 ∨ b.head? = some 0x3b ∨ closers.contains (plainWord b) then
      return (.nothing, b)
    else
      let (first, rest) ← pipeline fuel b
      let (first, rest) ← chain fuel first rest
      match blanks rest with
      | 0x3b :: 0x3b :: _ => return (first, blanks rest)
      | 0x3b :: rest =>
        let (more, rest) ← script fuel rest
        return (.seq first more, rest)
      | 0x0a :: rest =>
        let (more, rest) ← script fuel rest
        return (.seq first more, rest)
      | rest => return (first, rest)

end

/-- Reads a whole text as a script. -/
def parse (text : Bytes) : Option Script :=
  match script (8 * text.length + 64) text with
  | some (found, []) => some found
  | _ => none

end PinnedDeps.Shell
