import PinnedDeps.CommandLine.Run
import PinnedDeps.Proofs.Action.Run
import PinnedDeps.Proofs.Path

/-!
What is said is one line after another, and is read as the same lines if none of them holds a line
feed.
-/
namespace PinnedDeps.CommandLine

open Bytes (ofText)
open PinnedDeps.Action

variable {α ε : Type} {o : Outside} {w : World}

/-- The world after some text has been said. -/
def tell (w : World) (text : String) : World := { w with output := w.output ++ ofText text }

@[simp] theorem tell_volume (w : World) (text : String) : (tell w text).volume = w.volume := rfl

@[simp] theorem tell_cwd (w : World) (text : String) : (tell w text).cwd = w.cwd := rfl

@[simp] theorem tell_trace (w : World) (text : String) : (tell w text).trace = w.trace := rfl

theorem tell_tell (w : World) (a b : String) : tell (tell w a) b = tell w (a ++ b) := by
  unfold tell
  simp [Bytes.ofText_append]

theorem tell_nothing (w : World) : tell w "" = w := by
  unfold tell
  rw [show ofText "" = [] by decide, List.append_nil]

theorem run_say (line : String) : (say line : Action ε Unit).run o w = (.ok (), tell w (line ++ "\n")) :=
  rfl

theorem run_orThrow (x : Except Failure α) : (orThrow x).run o w = (x, w) := by
  cases x <;> rfl

theorem run_workingDir : workingDir.run o w = (.ok w.cwd.path, w) := rfl

/-- A text of lines, each ended by a line feed. -/
def ofLines (ls : List String) : String := String.join (ls.map (· ++ "\n"))

theorem ofLines_cons (l : String) (ls : List String) : ofLines (l :: ls) = l ++ "\n" ++ ofLines ls :=
  String.join_cons

theorem ofLines_append (ls ms : List String) : ofLines (ls ++ ms) = ofLines ls ++ ofLines ms := by
  unfold ofLines
  rw [List.map_append, String.join_append]

theorem run_sayAll (f : α → String) (as : List α) :
    (as.forM fun a => (say (f a) : Action ε Unit)).run o w = (.ok (), tell w (ofLines (as.map f))) := by
  induction as generalizing w with
  | nil =>
    rw [List.map_nil, ofLines, List.map_nil, String.join_nil, tell_nothing]
    rfl
  | cons a as ih =>
    rw [forM_cons, run_bind_of_ok (run_say _), ih, tell_tell, List.map_cons, ofLines_cons]

/-- The lines of a text, without the line feeds that end them. -/
def lineChars : List Char → List (List Char)
  | [] => []
  | c :: rest =>
    if c = '\n' then [] :: lineChars rest
    else match lineChars rest with
      | [] => [[c]]
      | l :: ls => (c :: l) :: ls

def toLines (text : String) : List String := (lineChars text.toList).map String.ofList

theorem lineChars_append {l : List Char} (h : '\n' ∉ l) (rest : List Char) :
    lineChars (l ++ '\n' :: rest) = l :: lineChars rest := by
  induction l with
  | nil => rw [List.nil_append, lineChars, if_pos rfl]
  | cons c l ih =>
    rw [List.mem_cons, not_or] at h
    rw [List.cons_append, lineChars, if_neg (Ne.symm h.1), ih h.2]

theorem toLines_ofLines {ls : List String} (h : ∀ l ∈ ls, '\n' ∉ l.toList) : toLines (ofLines ls) = ls := by
  unfold toLines
  induction ls with
  | nil => rfl
  | cons l ls ih =>
    have chars : (ofLines (l :: ls)).toList = l.toList ++ '\n' :: (ofLines ls).toList := by
      simp [ofLines_cons]
    rw [chars, lineChars_append (h l List.mem_cons_self), List.map_cons, String.ofList_toList,
      ih fun m hm => h m (List.mem_cons_of_mem _ hm)]

end PinnedDeps.CommandLine
