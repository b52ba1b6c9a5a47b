import PinnedDeps.Bytes

/-!
Shell scripts as trees: words with their quoting and expansions, and the commands made of them.
-/
namespace PinnedDeps.Shell

/-- What an expansion does with the value of a parameter. `colon` lets an empty value count as an
unset one. -/
inductive Change where
  | keep
  | length
  | useDefault (colon : Bool)
  | assignDefault (colon : Bool)
  | useOther (colon : Bool)
  | require (colon : Bool)
  | dropStart (longest : Bool)
  | dropEnd (longest : Bool)
  deriving DecidableEq, Repr

/-- A pattern keeps its meaning inside quotes. -/
def Change.takesPattern : Change → Bool
  | dropStart _ | dropEnd _ => true
  | _ => false

inductive RedirectKind where
  | read
  | write
  | append
  | duplicate
  deriving DecidableEq, Repr

mutual

inductive Part where
  | literal (b : Bytes) (quoted : Bool)
  | parameter (name : Bytes) (change : Change) (word : List Part) (quoted : Bool)
  | output (script : Script) (quoted : Bool)

inductive Redirect where
  | mk (fd : Nat) (kind : RedirectKind) (target : List Part)

inductive Script where
  | nothing
  | simple (assignments : List (Bytes × List Part)) (words : List (List Part))
      (redirects : List Redirect)
  | seq (a b : Script)
  | both (a b : Script)
  | either (a b : Script)
  | negate (a : Script)
  | pipe (a b : Script)
  | forEach (name : Bytes) (words : Option (List (List Part))) (body : Script)
  | select (subject : List Part) (arms : List (List (List Part) × Script))
  | branch (condition yes no : Script)
  | loop (goOn : Bool) (condition body : Script)
  | group (apart : Bool) (body : Script) (redirects : List Redirect)

end

abbrev Word := List Part

end PinnedDeps.Shell
