import PinnedDeps.Document

/-!
Reading reports back. The reader takes blanks wherever they may stand and every escape of a character;
numbers are those without a sign or a fraction. Whatever a report is written as is read as that report.
-/
namespace PinnedDeps.Document

def isBlank (c : Char) : Bool := c = ' ' || c = '\n' || c = '\r' || c = '\t'

def skip (cs : List Char) : List Char := cs.dropWhile isBlank

def hexValue? (c : Char) : Option Nat :=
  if '0' ≤ c ∧ c ≤ '9' then some (c.toNat - 48)
  else if 'a' ≤ c ∧ c ≤ 'f' then some (c.toNat - 87)
  else if 'A' ≤ c ∧ c ≤ 'F' then some (c.toNat - 55)
  else none

/-- The character with a number of four digits. -/
def numbered? (a b c d : Char) : Option Char := do
  let n := (((← hexValue? a) * 16 + (← hexValue? b)) * 16 + (← hexValue? c)) * 16 + (← hexValue? d)
  if n.isValidChar then some (Char.ofNat n) else none

/-- What a single character behind a backslash stands for. -/
def short? (c : Char) : Option Char :=
  if c = '"' ∨ c = '\\' ∨ c = '/' then some c
  else if c = 'n' then some '\n'
  else if c = 'r' then some '\r'
  else if c = 't' then some '\t'
  else if c = 'b' then some (Char.ofNat 8)
  else if c = 'f' then some (Char.ofNat 12)
  else none

/-- What has been read, and what is left to be read. -/
abbrev Reading (α : Type) := Option (α × List Char)

def Reading.map {α β : Type} (r : Reading α) (f : α → β) : Reading β :=
  Option.map (fun p => (f p.1, p.2)) r

/-- Reads the characters of a text up to the quote that ends it. -/
def readText : List Char → Reading (List Char)
  | [] => none
  | c :: rest =>
    if c = '"' then some ([], rest)
    else if c = '\\' then
      match rest with
      | 'u' :: d :: e :: f :: g :: rest =>
        (numbered? d e f g).bind fun x => (readText rest).map (x :: ·)
      | d :: rest => (short? d).bind fun x => (readText rest).map (x :: ·)
      | [] => none
    else if c.toNat < 32 then none
    else (readText rest).map (c :: ·)

section Many

variable {α : Type} (read : List Char → Reading α) (close : Char)

/-- Reads one or more, with a comma between two of them. -/
def readSome : Nat → List Char → Reading (List α)
  | 0, _ => none
  | n + 1, cs =>
    (read cs).bind fun p => match skip p.2 with
      | [] => none
      | c :: rest =>
        if c = ',' then (readSome n rest).map (p.1 :: ·)
        else if c = close then some ([p.1], rest)
        else none

def readMany (n : Nat) (cs : List Char) : Reading (List α) :=
  match skip cs with
  | [] => none
  | c :: rest => if c = close then some ([], rest) else readSome read close n cs

end Many

def readField (read : List Char → Reading Document) (cs : List Char) : Reading (String × Document) :=
  match skip cs with
  | '"' :: rest => (readText rest).bind fun name =>
    match skip name.2 with
    | ':' :: rest => (read rest).map fun d => (String.ofList name.1, d)
    | _ => none
  | _ => none

def readNumber (cs : List Char) : Reading Document :=
  some (.number (Nat.ofDigitChars 10 (cs.takeWhile Char.isDigit) 0), cs.dropWhile Char.isDigit)

def readFlag (cs : List Char) : Reading Document :=
  if cs.take 4 = ['t', 'r', 'u', 'e'] then some (.flag true, cs.drop 4)
  else if cs.take 5 = ['f', 'a', 'l', 's', 'e'] then some (.flag false, cs.drop 5)
  else none

/-- Reads a document that is no deeper, and holds no longer lists, than a number says. -/
def readValue : Nat → List Char → Reading Document
  | 0, _ => none
  | n + 1, cs => match skip cs with
    | [] => none
    | c :: rest =>
      if c = '"' then (readText rest).map fun s => .text (String.ofList s)
      else if c = '[' then (readMany (readValue n) ']' n rest).map .list
      else if c = '\x7b' then (readMany (readField (readValue n)) '\x7d' n rest).map .record
      else if c.isDigit then readNumber (c :: rest)
      else readFlag (c :: rest)

/-- Reads a text that holds one document and nothing else. -/
def read (s : String) : Option Document :=
  (readValue s.length s.toList).bind fun p => if skip p.2 = [] then some p.1 else none

/-- What a record holds under a name. -/
def field? (d : Document) (name : String) : Option Document :=
  match d with
  | .record fs => (fs.find? fun f => f.1 = name).map Prod.snd
  | _ => none

section Text

theorem numbered?_control : ∀ n < 32, numbered? '0' '0' (hexDigit (n / 16)) (hexDigit (n % 16)) =
    some (Char.ofNat n) := by decide

theorem readText_plain {c : Char} (rest : List Char) (quote : c ≠ '"') (escape : c ≠ '\\')
    (control : ¬ c.toNat < 32) : readText (c :: rest) = (readText rest).map (c :: ·) := by
  rw [readText.eq_def]
  simp [quote, escape, control]

/-- An escaped character is read as the character. -/
theorem readText_escape (c : Char) (rest : List Char) :
    readText (escape c ++ rest) = (readText rest).map (c :: ·) := by
  unfold escape
  split
  · subst_vars; simp [readText, short?]
  split
  · subst_vars; simp [readText, short?]
  split
  · subst_vars; simp [readText, short?]
  split
  · subst_vars; simp [readText, short?]
  split
  · subst_vars; simp [readText, short?]
  split
  · rename_i code
    have same : Char.ofNat 8 = c := code ▸ Char.ofNat_toNat c
    rw [← same]
    simp [readText, short?]
  split
  · rename_i code
    have same : Char.ofNat 12 = c := code ▸ Char.ofNat_toNat c
    rw [← same]
    simp [readText, short?]
  split
  · rename_i control
    have same := numbered?_control c.toNat control
    rw [Char.ofNat_toNat] at same
    simp [readText, same]
  · exact readText_plain rest ‹_› ‹_› ‹_›

theorem readText_quoted (cs rest : List Char) :
    readText (cs.flatMap escape ++ '"' :: rest) = some (cs, rest) := by
  induction cs with
  | nil => rw [List.flatMap_nil, List.nil_append, readText.eq_def]; rfl
  | cons c cs ih =>
    rw [List.flatMap_cons, List.append_assoc, readText_escape, ih]
    rfl

end Text

section Layout

variable {c : Char} {rest : List Char}

theorem skip_of_not_blank (h : isBlank c = false) : skip (c :: rest) = c :: rest := by
  simp [skip, h]

@[simp] theorem skip_newLine (depth : Nat) (cs : List Char) : skip (newLine depth ++ cs) = skip cs := by
  have blanks : ∀ n, skip (List.replicate n ' ' ++ cs) = skip cs := by
    intro n
    induction n with
    | zero => rfl
    | succ n ih => exact ih
  exact blanks (2 * depth)

theorem readValue_newLine (n depth : Nat) (cs : List Char) :
    readValue n (newLine depth ++ cs) = readValue n cs := by
  cases n with
  | zero => rfl
  | succ n => rw [readValue, readValue, skip_newLine]

theorem readValue_blank (n : Nat) (cs : List Char) : readValue n (' ' :: cs) = readValue n cs := by
  cases n <;> rfl

/-- What follows a number does not carry it on. -/
def Ends (rest : List Char) : Prop := ∀ c ∈ rest.head?, c.isDigit = false

theorem ends_cons (h : c.isDigit = false) : Ends (c :: rest) := by
  rintro d hd
  cases hd
  exact h

theorem toList_number (n : Nat) : (toString n).toList = Nat.toDigits 10 n := by
  show (Nat.repr n).toList = _
  simp [Nat.repr]

theorem isDigit_of_mem_number {n : Nat} (h : c ∈ Nat.toDigits 10 n) : c.isDigit = true :=
  Nat.isDigit_of_mem_toDigits (by decide : 0 < 10) (by decide : 10 ≤ 10) h

/-- The digits in front of what does not carry them on are those of the number. -/
theorem digits_written (n : Nat) (h : Ends rest) :
    let cs := (toString n).toList ++ rest
    Nat.ofDigitChars 10 (cs.takeWhile Char.isDigit) 0 = n ∧ cs.dropWhile Char.isDigit = rest := by
  have all : ∀ c ∈ Nat.toDigits 10 n, c.isDigit = true := fun _ => isDigit_of_mem_number
  have stop : rest.takeWhile Char.isDigit = [] ∧ rest.dropWhile Char.isDigit = rest := by
    cases rest with
    | nil => exact ⟨rfl, rfl⟩
    | cons c rest => simp [h c rfl]
  simp only
  rw [toList_number, List.takeWhile_append_of_pos all, List.dropWhile_append_of_pos all, stop.1, stop.2,
    List.append_nil, Nat.ofDigitChars_ten_toDigits]
  exact ⟨rfl, rfl⟩

theorem readNumber_written (n : Nat) (h : Ends rest) :
    readNumber ((toString n).toList ++ rest) = some (.number n, rest) := by
  obtain ⟨value, left⟩ := digits_written n h
  unfold readNumber
  rw [value, left]

end Layout

section Many

variable {α : Type} {read : List Char → Reading α} {write : α → List Char} {j k : Nat}
  (rest : List Char) (close : Char) (blank : isBlank close = false) (comma : close ≠ ',')
include blank comma

/-- What is written one after another is read as a list, if each of it is read back. -/
theorem readSome_written {n : Nat} {a : α} {as : List α}
    (each : ∀ x ∈ a :: as, ∀ rest, Ends rest → read (newLine k ++ write x ++ rest) = some (x, rest))
    (room : as.length < n) :
    readSome read close n (newLine k ++ write a ++ (as.flatMap fun x => ',' :: newLine k ++ write x) ++
      newLine j ++ close :: rest) = some (a :: as, rest) := by
  induction as generalizing a n with
  | nil =>
    cases n with
    | zero => exact absurd room (Nat.not_lt_zero _)
    | succ n =>
      rw [readSome]
      have first := each a (by simp) (newLine j ++ close :: rest) (ends_cons (by decide))
      simp only [List.flatMap_nil, List.append_nil, List.append_assoc] at first ⊢
      rw [first]
      simp [skip_of_not_blank blank, comma]
  | cons b as ih =>
    cases n with
    | zero => exact absurd room (Nat.not_lt_zero _)
    | succ n =>
      have others := ih (fun x hx => each x (List.mem_cons_of_mem _ hx)) (Nat.lt_of_succ_lt_succ room)
      have first := each a (by simp) (',' :: (newLine k ++ write b ++
        (as.flatMap fun x => ',' :: newLine k ++ write x) ++ newLine j ++ close :: rest))
        (ends_cons (by decide))
      rw [readSome]
      simp only [List.flatMap_cons, List.append_assoc, List.cons_append] at first others ⊢
      rw [first]
      simp [skip_of_not_blank (c := ',') rfl, others, Reading.map]

theorem readMany_written {n : Nat} {a : α} {as : List α}
    (each : ∀ x ∈ a :: as, ∀ rest, Ends rest → read (newLine k ++ write x ++ rest) = some (x, rest))
    (room : as.length < n) (opening : ∀ x, ∃ c rest, write x = c :: rest ∧ isBlank c = false ∧ c ≠ close) :
    readMany read close n (newLine k ++ write a ++ (as.flatMap fun x => ',' :: newLine k ++ write x) ++
      newLine j ++ close :: rest) = some (a :: as, rest) := by
  obtain ⟨c, tail, starts, solid, other⟩ := opening a
  have written := readSome_written (j := j) rest close blank comma each room
  unfold readMany
  simp only [List.append_assoc, skip_newLine] at written ⊢
  rw [starts] at written ⊢
  rw [List.cons_append, skip_of_not_blank solid]
  simp only [if_neg other]
  exact written

end Many

section Round

variable {k n : Nat} {d : Document} {rest : List Char}

theorem moreItems_eq (k : Nat) (ds : List Document) :
    moreItems k ds = ds.flatMap fun d => ',' :: newLine k ++ chars k d := by
  induction ds with
  | nil => rw [moreItems, List.flatMap_nil]
  | cons d ds ih => rw [moreItems, ih, List.flatMap_cons]

theorem moreFields_eq (k : Nat) (fs : List (String × Document)) :
    moreFields k fs = fs.flatMap fun f => ',' :: newLine k ++ field k f := by
  induction fs with
  | nil => rw [moreFields, List.flatMap_nil]
  | cons f fs ih => rw [moreFields, ih, List.flatMap_cons]

/-- What is written with commas has room for the number of its parts and for each of them. -/
theorem parts_fit {α : Type} (write : α → List Char) (a : α) (as : List α) {close : Char}
    (room : (newLine (k + 1) ++ write a ++ (as.flatMap fun x => ',' :: newLine (k + 1) ++ write x) ++
      newLine k ++ [close]).length ≤ n) : as.length < n ∧ ∀ x ∈ a :: as, (write x).length ≤ n := by
  have parts : as.length ≤ (as.flatMap fun x => ',' :: newLine (k + 1) ++ write x).length ∧
      ∀ x ∈ as, (write x).length ≤ (as.flatMap fun x => ',' :: newLine (k + 1) ++ write x).length := by
    clear room
    induction as with
    | nil => simp
    | cons a as ih =>
      simp only [List.flatMap_cons, List.length_append, List.length_cons, List.mem_cons,
        forall_eq_or_imp] at ih ⊢
      refine ⟨by omega, by omega, fun x hx => ?_⟩
      have := ih.2 x hx
      omega
  simp only [List.length_append, List.length_singleton] at room
  refine ⟨by omega, fun x hx => ?_⟩
  rcases List.mem_cons.1 hx with rfl | hx
  · omega
  · have := parts.2 x hx
    omega

/-- A property of documents that passes from the parts of a list or a record to the whole. -/
theorem induct {P : Document → Prop} (text : ∀ s, P (.text s)) (flag : ∀ b, P (.flag b))
    (number : ∀ n, P (.number n)) (list : ∀ ds : List Document, (∀ d ∈ ds, P d) → P (.list ds))
    (record : ∀ fs : List (String × Document), (∀ f ∈ fs, P f.2) → P (.record fs)) : ∀ d, P d
  | .text s => text s
  | .flag b => flag b
  | .number n => number n
  | .list ds => list ds fun d _ => induct text flag number list record d
  | .record fs => record fs fun f _ => induct text flag number list record f.2
termination_by d => sizeOf d
decreasing_by
  · have := List.sizeOf_lt_of_mem ‹_ ∈ ds›
    simp only [Document.list.sizeOf_spec]
    omega
  · rename_i mem
    obtain ⟨name, d⟩ := f
    have := List.sizeOf_lt_of_mem mem
    simp only [Document.record.sizeOf_spec, Prod.mk.sizeOf_spec] at this ⊢
    omega

/-- What a digit is not. -/
theorem not_special_of_digit {c : Char} (h : c.isDigit = true) :
    isBlank c = false ∧ c ≠ ']' ∧ c ≠ '"' ∧ c ≠ '[' ∧ c ≠ '\x7b' := by
  refine ⟨?_, ?_, ?_, ?_, ?_⟩
  · simp only [isBlank, Bool.or_eq_false_iff, decide_eq_false_iff_not]
    refine ⟨⟨⟨?_, ?_⟩, ?_⟩, ?_⟩ <;> (rintro rfl; cases h)
  all_goals (rintro rfl; cases h)

theorem chars_opening (k : Nat) (d : Document) :
    ∃ c rest, chars k d = c :: rest ∧ isBlank c = false ∧ c ≠ ']' := by
  cases d with
  | text s => exact ⟨'"', _, by rw [chars]; rfl, by decide, by decide⟩
  | flag b => cases b <;> exact ⟨_, _, by rw [chars]; rfl, by decide, by decide⟩
  | number n =>
    rw [chars, toList_number]
    cases digits : Nat.toDigits 10 n with
    | nil => exact absurd digits Nat.toDigits_ne_nil
    | cons c rest =>
      have digit : c.isDigit = true := isDigit_of_mem_number (digits ▸ List.mem_cons_self)
      exact ⟨c, rest, rfl, (not_special_of_digit digit).1, (not_special_of_digit digit).2.1⟩
  | list ds =>
    cases ds with
    | nil => exact ⟨'[', [']'], by rw [chars], by decide, by decide⟩
    | cons => exact ⟨'[', _, by rw [chars]; rfl, by decide, by decide⟩
  | record fs =>
    cases fs with
    | nil => exact ⟨'\x7b', ['\x7d'], by rw [chars], by decide, by decide⟩
    | cons => exact ⟨'\x7b', _, by rw [chars]; rfl, by decide, by decide⟩

theorem field_opening (k : Nat) (f : String × Document) :
    ∃ c rest, field k f = c :: rest ∧ isBlank c = false ∧ c ≠ '\x7d' := by
  obtain ⟨name, d⟩ := f
  exact ⟨'"', _, by rw [field, quote]; rfl, by decide, by decide⟩

theorem succ_of_room (room : (chars k d).length ≤ n) : ∃ m, n = m + 1 := by
  obtain ⟨c, rest, starts, -⟩ := chars_opening k d
  rw [starts, List.length_cons] at room
  exact ⟨n - 1, by omega⟩

theorem readField_written {read : List Char → Reading Document} (skips : ∀ cs, read (' ' :: cs) = read cs)
    {f : String × Document} (value : read (chars k f.2 ++ rest) = some (f.2, rest)) :
    readField read (newLine k ++ field k f ++ rest) = some (f, rest) := by
  obtain ⟨name, d⟩ := f
  unfold readField
  rw [field, List.append_assoc, skip_newLine, quote]
  simp only [List.append_assoc, List.cons_append, List.nil_append]
  rw [skip_of_not_blank rfl]
  simp only
  rw [readText_quoted, Option.bind_some, skip_of_not_blank rfl]
  simp only
  rw [skips, value]
  simp [Reading.map]

/-- What a document is written as is read as the document, wherever it ends. -/
def ReadBack (d : Document) : Prop :=
  ∀ k n rest, (chars k d).length ≤ n → Ends rest → readValue n (chars k d ++ rest) = some (d, rest)

theorem readBack_text (s : String) : ReadBack (.text s) := by
  intro k n rest room _
  obtain ⟨n, rfl⟩ := succ_of_room room
  rw [chars, quote, readValue]
  simp only [List.cons_append, List.append_assoc, List.nil_append]
  rw [skip_of_not_blank rfl]
  simp [readText_quoted, Reading.map]

theorem readBack_flag (b : Bool) : ReadBack (.flag b) := by
  intro k n rest room _
  obtain ⟨n, rfl⟩ := succ_of_room room
  cases b
  · rw [chars, readValue, show (toString false).toList = ['f', 'a', 'l', 's', 'e'] from rfl]
    simp [skip_of_not_blank, isBlank, readFlag, Char.isDigit]
  · rw [chars, readValue, show (toString true).toList = ['t', 'r', 'u', 'e'] from rfl]
    simp [skip_of_not_blank, isBlank, readFlag, Char.isDigit]

theorem readBack_number (m : Nat) : ReadBack (.number m) := by
  intro k n rest room ends
  obtain ⟨n, rfl⟩ := succ_of_room room
  have written := readNumber_written m ends
  rw [chars]
  rw [toList_number] at written ⊢
  cases digits : Nat.toDigits 10 m with
  | nil => exact absurd digits Nat.toDigits_ne_nil
  | cons c tail =>
    have digit : c.isDigit = true := isDigit_of_mem_number (digits ▸ List.mem_cons_self)
    obtain ⟨solid, -, quote, bracket, brace⟩ := not_special_of_digit digit
    rw [digits] at written
    rw [readValue, List.cons_append, skip_of_not_blank solid]
    simp only [if_neg quote, if_neg bracket, if_neg brace, if_pos digit]
    exact written

theorem readBack_list {ds : List Document} (ih : ∀ d ∈ ds, ReadBack d) : ReadBack (.list ds) := by
  intro k n rest room _
  obtain ⟨n, rfl⟩ := succ_of_room room
  cases ds with
  | nil =>
    rw [chars, readValue]
    simp [skip_of_not_blank, isBlank, readMany, Reading.map]
  | cons d ds =>
    rw [chars, moreItems_eq] at room ⊢
    obtain ⟨few, short⟩ := parts_fit (n := n) (chars (k + 1)) d ds (Nat.le_of_succ_le_succ room)
    have each : ∀ x ∈ d :: ds, ∀ rest, Ends rest →
        readValue n (newLine (k + 1) ++ chars (k + 1) x ++ rest) = some (x, rest) := by
      intro x hx rest ends
      rw [List.append_assoc, readValue_newLine]
      exact ih x hx (k + 1) n rest (short x hx) ends
    have many := readMany_written (j := k) rest ']' (by decide) (by decide) each
      few (chars_opening (k + 1))
    rw [readValue]
    simp only [List.cons_append, List.append_assoc, List.nil_append] at many ⊢
    rw [skip_of_not_blank rfl]
    simp [many, Reading.map]

theorem readBack_record {fs : List (String × Document)} (ih : ∀ f ∈ fs, ReadBack f.2) :
    ReadBack (.record fs) := by
  intro k n rest room _
  obtain ⟨n, rfl⟩ := succ_of_room room
  cases fs with
  | nil =>
    rw [chars, readValue]
    simp [skip_of_not_blank, isBlank, readMany, Reading.map]
  | cons f fs =>
    rw [chars, moreFields_eq] at room ⊢
    obtain ⟨few, short⟩ := parts_fit (n := n) (field (k + 1)) f fs (Nat.le_of_succ_le_succ room)
    have each : ∀ x ∈ f :: fs, ∀ rest, Ends rest →
        readField (readValue n) (newLine (k + 1) ++ field (k + 1) x ++ rest) = some (x, rest) := by
      intro x hx rest ends
      have shorter : (chars (k + 1) x.2).length ≤ n := by
        have := short x hx
        obtain ⟨name, d⟩ := x
        rw [field] at this
        simp only [List.length_append] at this
        exact Nat.le_trans (Nat.le_add_left _ _) this
      exact readField_written (fun cs => readValue_blank n cs) (ih x hx (k + 1) n rest shorter ends)
    have many := readMany_written (j := k) rest '\x7d' (by decide) (by decide) each
      few (field_opening (k + 1))
    rw [readValue]
    simp only [List.cons_append, List.append_assoc, List.nil_append] at many ⊢
    rw [skip_of_not_blank rfl]
    simp [many, Reading.map]

theorem readBack (d : Document) : ReadBack d := by
  induction d using induct with
  | text s => exact readBack_text s
  | flag b => exact readBack_flag b
  | number n => exact readBack_number n
  | list ds ih => exact readBack_list ih
  | record fs ih => exact readBack_record ih

/-- A report that is written on lines of its own is read as itself. -/
theorem read_render (d : Document) : read (d.render ++ "\n") = some d := by
  unfold read
  have chars : (d.render ++ "\n").toList = d.chars 0 ++ ['\n'] := by simp [render]
  rw [chars, readBack d 0 _ ['\n'] (by simp [render]) (ends_cons (by decide))]
  rfl

end Round

end PinnedDeps.Document
