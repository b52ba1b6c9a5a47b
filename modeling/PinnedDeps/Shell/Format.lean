import PinnedDeps.Shell.State

/-!
The texts that `echo` and `printf` write.
-/
namespace PinnedDeps.Shell

def escapeByte? (c : UInt8) : Option UInt8 :=
  ([(0x61, 7), (0x62, 8), (0x66, 12), (0x6e, 10), (0x72, 13), (0x74, 9), (0x76, 11), (0x5c, 0x5c)] :
    List (UInt8 × UInt8)).lookup c

def isOctal (b : UInt8) : Bool := 0x30 ≤ b && b ≤ 0x37

def octalByte (b : Bytes) : UInt8 := UInt8.ofNat (b.foldl (fun n d => n * 8 + (d.toNat - 0x30)) 0)

/-- Replaces escapes. `zeroFirst` wants a zero before octal digits; `\c` ends the text. -/
def unescape (zeroFirst : Bool) : Nat → Bytes → Bytes × Bool
  | 0, _ => ([], false)
  | fuel + 1, b =>
    match b with
    | [] => ([], false)
    | 0x5c :: c :: rest =>
      if c = 0x63 then ([], true)
      else match escapeByte? c with
        | some e =>
          let (more, stop) := unescape zeroFirst fuel rest
          (e :: more, stop)
        | none =>
          let digits := ((if zeroFirst then rest else c :: rest).take 3).takeWhile isOctal
          if (zeroFirst && c == 0x30) || (!zeroFirst && isOctal c) then
            let after := (if zeroFirst then rest else c :: rest).drop digits.length
            let (more, stop) := unescape zeroFirst fuel after
            (octalByte digits :: more, stop)
          else
            let (more, stop) := unescape zeroFirst fuel rest
            (0x5c :: c :: more, stop)
    | c :: rest =>
      let (more, stop) := unescape zeroFirst fuel rest
      (c :: more, stop)

def echoText (args : List Bytes) : Bytes :=
  let (quiet, args) :=
    if args.head? = some (Bytes.ofText "-n") then (true, args.tail) else (false, args)
  let line := [0x20].intercalate args
  let (text, stop) := unescape true (line.length + 1) line
  if quiet || stop then text else text ++ [Bytes.newline]

/-- A conversion: filled on the left, filled with zeros, its width and its precision. -/
structure Conversion where
  left : Bool
  zeros : Bool
  width : Nat
  precision : Option Nat

def pad (c : Conversion) (b : Bytes) : Bytes :=
  let fill := c.width - b.length
  if c.left then b ++ List.replicate fill 0x20
  else if c.zeros then List.replicate fill 0x30 ++ b
  else List.replicate fill 0x20 ++ b

def isDecimal (b : UInt8) : Bool := 0x30 ≤ b && b ≤ 0x39

def conversion (b : Bytes) : Conversion × Bytes :=
  let flags := b.takeWhile fun c => c == 0x2d || c == 0x30
  let b := b.drop flags.length
  let width := b.takeWhile isDecimal
  let b := b.drop width.length
  let (precision, b) := match b with
    | 0x2e :: rest =>
      (some ((natural? (rest.takeWhile isDecimal)).getD 0), rest.dropWhile isDecimal)
    | _ => (none, b)
  (⟨flags.contains 0x2d, flags.contains 0x30, (natural? width).getD 0, precision⟩, b)

def signed (b : Bytes) : Bytes :=
  match b with
  | 0x2d :: rest => 0x2d :: decimal ((natural? rest).getD 0)
  | _ => decimal ((natural? b).getD 0)

/-- One pass over a format: the text, the arguments that are left, and whether any was asked for. -/
def formatOnce : Nat → Bytes → List Bytes → Bytes × List Bytes × Bool
  | 0, _, args => ([], args, false)
  | fuel + 1, f, args =>
    match f with
    | [] => ([], args, false)
    | 0x25 :: 0x25 :: rest =>
      let (more, args, used) := formatOnce fuel rest args
      (0x25 :: more, args, used)
    | 0x25 :: rest =>
      let (c, rest) := conversion rest
      let arg := args.headD []
      let text := match rest with
        | 0x73 :: _ => (c.precision.map arg.take).getD arg
        | 0x62 :: _ => (unescape true (arg.length + 1) arg).1
        | 0x63 :: _ => arg.take 1
        | _ => signed arg
      let (more, args, _) := formatOnce fuel rest.tail args.tail
      (pad c text ++ more, args, true)
    | 0x5c :: c :: rest =>
      let digits := ((c :: rest).take 3).takeWhile isOctal
      let (here, rest) := match escapeByte? c with
        | some e => ([e], rest)
        | none =>
          if digits = [] then ([0x5c, c], rest)
          else ([octalByte digits], (c :: rest).drop digits.length)
      let (more, args, used) := formatOnce fuel rest args
      (here ++ more, args, used)
    | c :: rest =>
      let (more, args, used) := formatOnce fuel rest args
      (c :: more, args, used)

/-- The format is used again as long as arguments are left. -/
def formatAll (f : Bytes) : Nat → List Bytes → Bytes
  | 0, _ => []
  | fuel + 1, args =>
    let (text, args, used) := formatOnce (f.length + 1) f args
    if used && !args.isEmpty then text ++ formatAll f fuel args else text

def printfText (f : Bytes) (args : List Bytes) : Bytes := formatAll f (args.length + 1) args

end PinnedDeps.Shell
