import PinnedDeps.Proofs.Volume.Lookup

/-!
The way that a walk takes. `Passage` has one rule for each thing that can happen to a walk, and
`Leads` is the part of it that goes through directories and links alone.
-/
namespace PinnedDeps.Volume

open Bytes (slash dot)

/-- A part that is looked up as a name. -/
structure IsStep (s : Bytes) : Prop where
  notDot : s ≠ [dot]
  notUp : s ≠ [dot, dot]
  short : s.length ≤ nameLimit

/-- What becomes of a walk with so many links left to follow. -/
inductive Passage (v : Volume) (follow : Bool) :
    Nat → Location → List Bytes → Except SystemError Landing → Prop
  | done {N d} : Passage v follow N d [] (.ok (.place d))
  | stay {N d rest r} : Passage v follow N d rest r → Passage v follow N d ([dot] :: rest) r
  | up {N d rest r} : Passage v follow N d.tail rest r →
      Passage v follow N d ([dot, dot] :: rest) r
  | long {N d s rest} : s ≠ [dot] → s ≠ [dot, dot] → nameLimit < s.length →
      Passage v follow N d (s :: rest) (.error .nameTooLong)
  | enter {N d s rest r} : IsStep s → v.lookup (s :: d) = some .dir → rest ≠ [] →
      Passage v follow N (s :: d) rest r → Passage v follow N d (s :: rest) r
  | follow {N d s t rest r} : IsStep s → v.lookup (s :: d) = some (.link t) →
      ¬ (rest = [] ∧ follow = false) →
      Passage v follow N (startOf d t) (strides t ++ rest) r →
      Passage v follow (N + 1) d (s :: rest) r
  | exhausted {d s t rest} : IsStep s → v.lookup (s :: d) = some (.link t) →
      ¬ (rest = [] ∧ follow = false) → Passage v follow 0 d (s :: rest) (.error .tooManyLinks)
  | stop {N d s} : IsStep s → (follow = true → ∀ t, v.lookup (s :: d) ≠ some (.link t)) →
      Passage v follow N d [s] (.ok (.name d s))
  | blocked {N d s f rest} : IsStep s → v.lookup (s :: d) = some (.file f) → rest ≠ [] →
      Passage v follow N d (s :: rest) (.error .notDirectory)
  | missing {N d s rest} : IsStep s → v.lookup (s :: d) = none → rest ≠ [] →
      Passage v follow N d (s :: rest) (.error .noEntry)

/-- The parts lead from one directory to another, over so many links. -/
inductive Leads (v : Volume) : Nat → Location → List Bytes → Location → Prop
  | done {d} : Leads v 0 d [] d
  | stay {n d rest e} : Leads v n d rest e → Leads v n d ([dot] :: rest) e
  | up {n d rest e} : Leads v n d.tail rest e → Leads v n d ([dot, dot] :: rest) e
  | enter {n d s rest e} : IsStep s → v.lookup (s :: d) = some .dir →
      Leads v n (s :: d) rest e → Leads v n d (s :: rest) e
  | follow {n d s t rest e} : IsStep s → v.lookup (s :: d) = some (.link t) →
      Leads v n (startOf d t) (strides t ++ rest) e → Leads v (n + 1) d (s :: rest) e

variable {v : Volume} {follow : Bool} {N n m : Nat} {d e e' : Location} {s : Bytes}
  {parts rest : List Bytes}

theorem passage_plain {onLink : Location → Bytes → List Bytes → Except SystemError Landing}
    (h : ∀ d s t rest, IsStep s → v.lookup (s :: d) = some (.link t) →
      ¬ (rest = [] ∧ follow = false) → Passage v follow N d (s :: rest) (onLink d t rest))
    (d : Location) (parts : List Bytes) :
    Passage v follow N d parts (walkPlain v follow onLink d parts) := by
  induction parts generalizing d with
  | nil => exact .done
  | cons s rest ih =>
    rw [walkPlain]
    split
    · rename_i hs; subst hs; exact .stay (ih d)
    split
    · rename_i hs; subst hs; exact .up (ih d.tail)
    split
    · exact .long ‹_› ‹_› ‹_›
    have step : IsStep s := ⟨‹_›, ‹_›, by omega⟩
    split
    · rename_i hl
      split
      · rename_i hr; subst hr; exact .stop step (by simp [hl])
      · exact .enter step hl ‹_› (ih _)
    · rename_i hl
      split
      · rename_i hr; subst hr; exact .stop step (by simp [hl])
      · exact .blocked step hl ‹_›
    · rename_i hl
      split
      · rename_i hr; rw [hr.1]; exact .stop step (by simp [hr.2])
      · exact h d s _ rest step hl ‹_›
    · rename_i hl
      split
      · rename_i hr; subst hr; exact .stop step (by simp [hl])
      · exact .missing step hl ‹_›

theorem passage_walk (v : Volume) (follow : Bool) (N : Nat) (d : Location) (parts : List Bytes) :
    Passage v follow N d parts (walk v follow N d parts) := by
  induction N generalizing d parts with
  | zero => exact passage_plain (fun _ _ _ _ hs hl hr => .exhausted hs hl hr) d parts
  | succ n ih => exact passage_plain (fun _ _ _ _ hs hl hr => .follow hs hl hr (ih _ _)) d parts

/-- The links that are left decide what a link on the way leads to. -/
theorem walk_eq (v : Volume) (follow : Bool) (N : Nat) :
    walk v follow N = walkPlain v follow fun d t rest => match N with
      | 0 => .error .tooManyLinks
      | n + 1 => walk v follow n (startOf d t) (strides t ++ rest) := by
  cases N <;> rfl

theorem Passage.eq_walk {r : Except SystemError Landing} (h : Passage v follow N d parts r) :
    walk v follow N d parts = r := by
  induction h with
  | done => rw [walk_eq, walkPlain]
  | stay _ ih => rw [walk_eq, walkPlain, ← walk_eq]; simpa using ih
  | up _ ih => rw [walk_eq, walkPlain, ← walk_eq]; simpa using ih
  | long hd hu hl => rw [walk_eq, walkPlain]; simp [hd, hu, hl]
  | enter hs hl hr _ ih =>
    rw [walk_eq, walkPlain, ← walk_eq]
    simp [hs.notDot, hs.notUp, Nat.not_lt.2 hs.short, hl, hr, ih]
  | follow hs hl hr _ ih =>
    rw [walk_eq, walkPlain]
    simp only [hs.notDot, hs.notUp, Nat.not_lt.2 hs.short, hl, if_neg hr, if_false, ih]
  | exhausted hs hl hr =>
    rw [walk_eq, walkPlain]
    simp only [hs.notDot, hs.notUp, Nat.not_lt.2 hs.short, hl, if_neg hr, if_false]
  | stop hs hl =>
    rename_i N d s
    rw [walk_eq, walkPlain]
    simp only [hs.notDot, hs.notUp, Nat.not_lt.2 hs.short, if_false]
    cases hx : v.lookup (s :: d) with
    | none => simp
    | some x =>
      cases x with
      | dir => simp
      | file f => simp
      | link t =>
        have : follow = false := by
          cases follow with
          | false => rfl
          | true => exact absurd hx (hl rfl t)
        simp [this]
  | blocked hs hl hr =>
    rw [walk_eq, walkPlain]
    simp [hs.notDot, hs.notUp, Nat.not_lt.2 hs.short, hl, hr]
  | missing hs hl hr =>
    rw [walk_eq, walkPlain]
    simp [hs.notDot, hs.notUp, Nat.not_lt.2 hs.short, hl, hr]

theorem passage_iff {r : Except SystemError Landing} :
    Passage v follow N d parts r ↔ walk v follow N d parts = r :=
  ⟨Passage.eq_walk, fun h => h ▸ passage_walk v follow N d parts⟩

theorem Passage.unique {r r' : Except SystemError Landing} (h : Passage v follow N d parts r)
    (g : Passage v follow N d parts r') : r = r' :=
  h.eq_walk.symm.trans g.eq_walk

theorem Leads.unique (h : Leads v n d parts e) (g : Leads v m d parts e') : n = m ∧ e = e' := by
  induction h generalizing m with
  | done => cases g; exact ⟨rfl, rfl⟩
  | stay _ ih =>
    cases g with
    | stay g => exact ih g
    | enter hs => exact absurd rfl hs.notDot
    | follow hs => exact absurd rfl hs.notDot
  | up _ ih =>
    cases g with
    | up g => exact ih g
    | enter hs => exact absurd rfl hs.notUp
    | follow hs => exact absurd rfl hs.notUp
  | enter hs hl _ ih =>
    cases g with
    | stay => exact absurd rfl hs.notDot
    | up => exact absurd rfl hs.notUp
    | enter _ _ g => exact ih g
    | follow _ hl' => rw [hl] at hl'; cases hl'
  | follow hs hl _ ih =>
    cases g with
    | stay => exact absurd rfl hs.notDot
    | up => exact absurd rfl hs.notUp
    | enter _ hl' => rw [hl] at hl'; cases hl'
    | follow _ hl' g =>
      rw [hl] at hl'
      cases hl'
      obtain ⟨rfl, rfl⟩ := ih g
      exact ⟨rfl, rfl⟩

theorem Leads.append {qs : List Bytes} (h : Leads v n d parts e) (g : Leads v m e qs e') :
    Leads v (n + m) d (parts ++ qs) e' := by
  induction h with
  | done => simpa using g
  | stay _ ih => exact .stay (ih g)
  | up _ ih => exact .up (ih g)
  | enter hs hl _ ih => exact .enter hs hl (ih g)
  | @follow n d s t rest e hs hl _ ih =>
    have := Leads.follow hs hl (List.append_assoc .. ▸ ih g)
    rwa [Nat.add_right_comm] at this

/-- What a walk does after a way through directories and links. -/
theorem Leads.passage {r : Except SystemError Landing} (h : Leads v n d parts e) (hn : n ≤ N)
    (hr : rest ≠ []) (g : Passage v follow (N - n) e rest r) :
    Passage v follow N d (parts ++ rest) r := by
  induction h generalizing N with
  | done => exact g
  | stay _ ih => exact .stay (ih hn g)
  | up _ ih => exact .up (ih hn g)
  | enter hs hl _ ih => exact .enter hs hl (by simp [hr]) (ih hn g)
  | @follow n d s t rest' e hs hl _ ih =>
    obtain ⟨M, rfl⟩ : ∃ M, N = M + 1 := ⟨N - 1, by omega⟩
    rw [Nat.add_sub_add_right] at g
    have := ih (Nat.le_of_succ_le_succ hn) g
    rw [List.append_assoc] at this
    exact .follow hs hl (by simp [hr]) this

theorem Leads.walk_append (h : Leads v n d parts e) (hn : n ≤ N) (hr : rest ≠ []) :
    walk v follow N d (parts ++ rest) = walk v follow (N - n) e rest :=
  (h.passage hn hr (passage_walk ..)).eq_walk

/-- No walk gets past the parts, whatever comes after them. -/
def Fails (v : Volume) (N : Nat) (d : Location) (parts : List Bytes) : Prop :=
  ∃ x, ∀ follow rest, rest ≠ [] → Passage v follow N d (parts ++ rest) (.error x)

theorem leads_or_fails_plain (h : ∀ d s t rest, IsStep s → v.lookup (s :: d) = some (.link t) →
      (∃ n e, n ≤ N ∧ Leads v n d (s :: rest) e) ∨ Fails v N d (s :: rest))
    (d : Location) (parts : List Bytes) :
    (∃ n e, n ≤ N ∧ Leads v n d parts e) ∨ Fails v N d parts := by
  induction parts generalizing d with
  | nil => exact .inl ⟨0, d, Nat.zero_le N, .done⟩
  | cons s rest ih =>
    by_cases hd : s = [dot]
    · subst hd
      rcases ih d with ⟨n, e, hn, g⟩ | ⟨x, g⟩
      · exact .inl ⟨n, e, hn, .stay g⟩
      · exact .inr ⟨x, fun f r hr => .stay (g f r hr)⟩
    by_cases hu : s = [dot, dot]
    · subst hu
      rcases ih d.tail with ⟨n, e, hn, g⟩ | ⟨x, g⟩
      · exact .inl ⟨n, e, hn, .up g⟩
      · exact .inr ⟨x, fun f r hr => .up (g f r hr)⟩
    by_cases hs : s.length ≤ nameLimit
    · have step : IsStep s := ⟨hd, hu, hs⟩
      cases hl : v.lookup (s :: d) with
      | none => exact .inr ⟨_, fun f r hr => .missing step hl (by simp [hr])⟩
      | some x =>
        cases x with
        | dir =>
          rcases ih (s :: d) with ⟨n, e, hn, g⟩ | ⟨x, g⟩
          · exact .inl ⟨n, e, hn, .enter step hl g⟩
          · exact .inr ⟨x, fun f r hr => .enter step hl (by simp [hr]) (g f r hr)⟩
        | file f => exact .inr ⟨_, fun f r hr => .blocked step hl (by simp [hr])⟩
        | link t => exact h d s t rest step hl
    · exact .inr ⟨_, fun f r hr => .long hd hu (by omega)⟩

/-- Either the parts lead somewhere, or no walk gets past them. -/
theorem leads_or_fails (v : Volume) (N : Nat) (d : Location) (parts : List Bytes) :
    (∃ n e, n ≤ N ∧ Leads v n d parts e) ∨ Fails v N d parts := by
  induction N generalizing d parts with
  | zero =>
    refine leads_or_fails_plain ?_ d parts
    intro d s t rest hs hl
    exact .inr ⟨_, fun f r hr => .exhausted hs hl (by simp [hr])⟩
  | succ N ih =>
    refine leads_or_fails_plain ?_ d parts
    intro d s t rest hs hl
    rcases ih (startOf d t) (strides t ++ rest) with ⟨n, e, hn, g⟩ | ⟨x, g⟩
    · exact .inl ⟨n + 1, e, Nat.succ_le_succ hn, .follow hs hl g⟩
    · refine .inr ⟨x, fun f r hr => .follow hs hl (by simp [hr]) ?_⟩
      simpa using g f r hr

/-- A walk that ends well has come past all of its parts but the last. -/
theorem Passage.leads {L : Landing} (h : Passage v follow N d (parts ++ rest) (.ok L))
    (hr : rest ≠ []) :
    ∃ n e, n ≤ N ∧ Leads v n d parts e ∧ Passage v follow (N - n) e rest (.ok L) := by
  rcases leads_or_fails v N d parts with ⟨n, e, hn, g⟩ | ⟨x, g⟩
  · refine ⟨n, e, hn, g, ?_⟩
    rw [passage_iff, ← g.walk_append hn hr]
    exact h.eq_walk
  · cases (g follow rest hr).unique h

theorem Leads.split {qs : List Bytes} (h : Leads v n d (parts ++ qs) e') :
    ∃ k m e, n = k + m ∧ Leads v k d parts e ∧ Leads v m e qs e' := by
  rcases leads_or_fails v n d parts with ⟨k, e, hk, g⟩ | ⟨x, g⟩
  · rcases leads_or_fails v (n - k) e qs with ⟨m, e'', hm, g'⟩ | ⟨x, g'⟩
    · obtain ⟨hn, rfl⟩ := h.unique (g.append g')
      exact ⟨k, m, e, hn, g, g'⟩
    · have := g.passage hk (by simp) (g' true [[dot]] (by simp))
      rw [← List.append_assoc] at this
      cases this.unique (h.passage (Nat.le_refl n) (by simp) (.stay .done))
  · have := g true (qs ++ [[dot]]) (by simp)
    rw [← List.append_assoc] at this
    cases this.unique (h.passage (Nat.le_refl n) (by simp) (.stay .done))

theorem Leads.stays (k : Nat) (h : Leads v n d rest e) :
    Leads v n d (List.replicate k [dot] ++ rest) e := by
  induction k with
  | zero => exact h
  | succ k ih => exact .stay ih

/-- Dots on the way do not matter. -/
theorem Leads.redot {parts' : List Bytes} (h : Leads v n d parts e)
    (hf : parts.filter (· ≠ [dot]) = parts'.filter (· ≠ [dot])) : Leads v n d parts' e := by
  have dots : ∀ l : List Bytes, (∀ x ∈ l, ¬ decide (x ≠ [dot]) = true) →
      l = List.replicate l.length [dot] := by
    intro l hl
    refine List.eq_replicate_iff.2 ⟨rfl, fun x hx => ?_⟩
    simpa using hl x hx
  have next : ∀ {s : Bytes} {rest parts' : List Bytes}, s ≠ [dot] →
      (s :: rest).filter (· ≠ [dot]) = parts'.filter (· ≠ [dot]) →
      ∃ k rest', parts' = List.replicate k [dot] ++ s :: rest' ∧
        rest.filter (· ≠ [dot]) = rest'.filter (· ≠ [dot]) := by
    intro s rest parts' hs hf
    rw [List.filter_cons_of_pos (by simpa using hs)] at hf
    obtain ⟨l, rest', rfl, hl, _, hr⟩ := List.filter_eq_cons_iff.1 hf.symm
    exact ⟨l.length, rest', by rw [← dots l hl], hr.symm⟩
  induction h generalizing parts' with
  | done =>
    have : parts' = List.replicate parts'.length [dot] := by
      refine dots parts' fun x hx => ?_
      exact List.filter_eq_nil_iff.1 hf.symm x hx
    rw [this, ← List.append_nil (List.replicate _ _)]
    exact Leads.stays _ .done
  | stay _ ih => exact ih (by simpa using hf)
  | up _ ih =>
    obtain ⟨k, rest', rfl, hr⟩ := next (by decide) hf
    exact (Leads.up (ih hr)).stays k
  | enter hs hl _ ih =>
    obtain ⟨k, rest', rfl, hr⟩ := next hs.notDot hf
    exact (Leads.enter hs hl (ih hr)).stays k
  | follow hs hl _ ih =>
    obtain ⟨k, rest', rfl, hr⟩ := next hs.notDot hf
    exact (Leads.follow hs hl (ih (by simp only [List.filter_append, hr]))).stays k

/-- A way ends where a walk ends that follows every link. -/
theorem Leads.ends (h : Leads v n d parts e) (hn : n ≤ N) :
    ∃ L, Passage v true N d parts (.ok L) ∧ L.location = e := by
  induction h generalizing N with
  | done => exact ⟨_, .done, rfl⟩
  | stay _ ih =>
    obtain ⟨L, g, rfl⟩ := ih hn
    exact ⟨L, .stay g, rfl⟩
  | up _ ih =>
    obtain ⟨L, g, rfl⟩ := ih hn
    exact ⟨L, .up g, rfl⟩
  | @enter n d s rest e hs hl hg ih =>
    by_cases hr : rest = []
    · subst hr
      cases hg
      exact ⟨_, .stop hs (by simp [hl]), rfl⟩
    · obtain ⟨L, g, rfl⟩ := ih hn
      exact ⟨L, .enter hs hl hr g, rfl⟩
  | follow hs hl _ ih =>
    obtain ⟨M, rfl⟩ : ∃ M, N = M + 1 := ⟨N - 1, by omega⟩
    obtain ⟨L, g, rfl⟩ := ih (Nat.le_of_succ_le_succ hn)
    exact ⟨L, .follow hs hl (by simp) g, rfl⟩

/-- A walk that does not follow the last link ends on the way at something that is there. -/
theorem Leads.named (h : Leads v n d parts e) (hn : n ≤ N) :
    ∃ L, Passage v false N d parts (.ok L) ∧
      ∀ a s, L = .name a s → (v.lookup (s :: a)).isSome := by
  induction h generalizing N with
  | done => exact ⟨_, .done, by simp⟩
  | stay _ ih =>
    obtain ⟨L, g, hL⟩ := ih hn
    exact ⟨L, .stay g, hL⟩
  | up _ ih =>
    obtain ⟨L, g, hL⟩ := ih hn
    exact ⟨L, .up g, hL⟩
  | @enter n d s rest e hs hl hg ih =>
    by_cases hr : rest = []
    · subst hr
      refine ⟨_, .stop hs (by simp), fun a x hL => ?_⟩
      cases hL
      simp [hl]
    · obtain ⟨L, g, hL⟩ := ih hn
      exact ⟨L, .enter hs hl hr g, hL⟩
  | @follow n d s t rest e hs hl hg ih =>
    by_cases hr : rest = []
    · subst hr
      refine ⟨_, .stop hs (by simp), fun a x hL => ?_⟩
      cases hL
      simp [hl]
    · obtain ⟨M, rfl⟩ : ∃ M, N = M + 1 := ⟨N - 1, by omega⟩
      obtain ⟨L, g, hL⟩ := ih (Nat.le_of_succ_le_succ hn)
      exact ⟨L, .follow hs hl (by simp [hr]) g, hL⟩

/-- A walk that ends at a directory has gone a way to it. -/
theorem Passage.leads_of_dir {L : Landing} (h : Passage v follow N d parts (.ok L))
    (hL : v.lookup L.location = some .dir) : ∃ n, n ≤ N ∧ Leads v n d parts L.location := by
  generalize hr : (Except.ok L : Except SystemError Landing) = r at h
  induction h with
  | done => cases hr; exact ⟨0, Nat.zero_le _, .done⟩
  | stay _ ih =>
    obtain ⟨n, hn, g⟩ := ih hr
    exact ⟨n, hn, .stay g⟩
  | up _ ih =>
    obtain ⟨n, hn, g⟩ := ih hr
    exact ⟨n, hn, .up g⟩
  | long => cases hr
  | enter hs hl _ _ ih =>
    obtain ⟨n, hn, g⟩ := ih hr
    exact ⟨n, hn, .enter hs hl g⟩
  | follow hs hl _ _ ih =>
    obtain ⟨n, hn, g⟩ := ih hr
    exact ⟨n + 1, Nat.succ_le_succ hn, .follow hs hl g⟩
  | exhausted => cases hr
  | stop hs _ => cases hr; exact ⟨0, Nat.zero_le _, .enter hs hL .done⟩
  | blocked => cases hr
  | missing => cases hr

/-- A walk that follows every link does not end at one. -/
theorem Passage.last_not_link {x : Bytes} (h : Passage v follow N d parts (.ok (.name e s)))
    (hf : follow = true) : v.lookup (s :: e) ≠ some (.link x) := by
  generalize hr : (Except.ok (Landing.name e s) : Except SystemError Landing) = r at h
  induction h with
  | done => cases hr
  | stay _ ih => exact ih hr
  | up _ ih => exact ih hr
  | long => cases hr
  | enter _ _ _ _ ih => exact ih hr
  | follow _ _ _ _ ih => exact ih hr
  | exhausted => cases hr
  | stop _ hl => cases hr; exact hl hf x
  | blocked => cases hr
  | missing => cases hr

/-- Where a walk does not end at a link, it ends at the same place with every link followed. -/
theorem Passage.followed {L : Landing} (h : Passage v false N d parts (.ok L))
    (hL : ∀ t, v.lookup L.location ≠ some (.link t)) : Passage v true N d parts (.ok L) := by
  generalize hr : (Except.ok L : Except SystemError Landing) = r at h
  induction h with
  | done => cases hr; exact .done
  | stay _ ih => exact .stay (ih hr)
  | up _ ih => exact .up (ih hr)
  | long => cases hr
  | enter hs hl hne _ ih => exact .enter hs hl hne (ih hr)
  | follow hs hl hne _ ih => exact .follow hs hl (by simp) (ih hr)
  | exhausted => cases hr
  | stop hs _ => cases hr; exact .stop hs fun _ => hL
  | blocked => cases hr
  | missing => cases hr

/-- A walk that comes to a name with links followed comes to one without. -/
theorem Passage.unfollowed {a : Location} (h : Passage v true N d parts (.ok (.name a s))) :
    ∃ b z, Passage v false N d parts (.ok (.name b z)) := by
  generalize hr : (Except.ok (Landing.name a s) : Except SystemError Landing) = r at h
  induction h with
  | done => cases hr
  | stay _ ih =>
    obtain ⟨b, z, g⟩ := ih hr
    exact ⟨b, z, .stay g⟩
  | up _ ih =>
    obtain ⟨b, z, g⟩ := ih hr
    exact ⟨b, z, .up g⟩
  | long => cases hr
  | enter hs hl hne _ ih =>
    obtain ⟨b, z, g⟩ := ih hr
    exact ⟨b, z, .enter hs hl hne g⟩
  | @follow N d s t rest r hs hl _ _ ih =>
    by_cases last : rest = []
    · subst last
      exact ⟨d, s, .stop hs (by simp)⟩
    · obtain ⟨b, z, g⟩ := ih hr
      exact ⟨b, z, .follow hs hl (by simp [last]) g⟩
  | exhausted => cases hr
  | stop hs _ => exact ⟨_, _, .stop hs (by simp)⟩
  | blocked => cases hr
  | missing => cases hr

/-- Every directory and every link of the first volume stands in the second. -/
def Keeps (v w : Volume) : Prop :=
  ∀ l x, v.lookup l = some x → (∀ f, x ≠ .file f) → w.lookup l = some x

theorem Keeps.refl (v : Volume) : Keeps v v := fun _ _ h _ => h

theorem Keeps.trans {u w : Volume} (h : Keeps u v) (g : Keeps v w) : Keeps u w :=
  fun l x hx hf => g l x (h l x hx hf) hf

/-- A new file, or another file in the place of a file, opens no new way. -/
theorem keeps_of_put_file {l : Location} {f : File} : Keeps (v.put l (.file f)) v := by
  intro j x hx hf
  cases j with
  | nil => exact hx
  | cons n d =>
    rw [lookup_put v l _ (by simp)] at hx
    split at hx
    · cases hx
      exact absurd rfl (hf f)
    · exact hx

theorem keeps_of_adjust (l : Location) (change : File → File) : Keeps (v.adjust l change) v := by
  intro j x hx hf
  rcases lookup_adjust_alike v l j change with h | ⟨f, _, h, _⟩
  · rw [← h, hx]
  · rw [hx] at h
    cases h
    exact absurd rfl (hf f)

theorem keeps_put {l : Location} (x : Entry) (hn : v.lookup l = none) : Keeps v (v.put l x) :=
  fun _ _ hy _ => lookup_put_new x hn hy

/-- At a location all is as before, or a directory is new where one may be. -/
def LaidAt (P : Location → Prop) (v w : Volume) (l : Location) : Prop :=
  w.lookup l = v.lookup l ∨ v.lookup l = none ∧ w.lookup l = some .dir ∧ P l

/-- Everything stands as before, but for new directories at some of the places. -/
def Laid (P : Location → Prop) (v w : Volume) : Prop := ∀ l, LaidAt P v w l

section Laid

variable {P Q : Location → Prop} {u w : Volume} {l : Location}

theorem Laid.refl (P : Location → Prop) (v : Volume) : Laid P v v := fun _ => .inl rfl

theorem Laid.trans (u v w : Volume) (h : Laid P u v) (g : Laid P v w) : Laid P u w := by
  intro l
  rcases h l with h | ⟨hn, hd, hp⟩
  · rcases g l with g | ⟨gn, gd, gp⟩
    · exact .inl (g.trans h)
    · exact .inr ⟨h ▸ gn, gd, gp⟩
  · rcases g l with g | ⟨gn, _, _⟩
    · exact .inr ⟨hn, g.trans hd, hp⟩
    · rw [hd] at gn
      cases gn

theorem Laid.mono (h : Laid P v w) (g : ∀ l, P l → Q l) : Laid Q v w :=
  fun l => (h l).imp_right fun ⟨free, dir, hp⟩ => ⟨free, dir, g l hp⟩

theorem LaidAt.congr {x : Volume} (h : LaidAt P v w l) (same : x.lookup l = w.lookup l) :
    LaidAt P v x l := by
  unfold LaidAt
  rw [same]
  exact h

theorem LaidAt.lookup {x : Entry} (h : LaidAt P v w l) (hx : v.lookup l = some x) :
    w.lookup l = some x := by
  rcases h with same | ⟨none, _⟩
  · rw [same, hx]
  · rw [hx] at none
    cases none

/-- What stands at a location and is no directory stood there before. -/
theorem LaidAt.before {x : Entry} (h : LaidAt P v w l) (hx : w.lookup l = some x) (notDir : x ≠ .dir) :
    v.lookup l = some x := by
  rcases h with same | ⟨_, dir, _⟩
  · rw [← same, hx]
  · rw [hx] at dir
    exact absurd (Option.some.inj dir) notDir

theorem Laid.lookup {x : Entry} (h : Laid P v w) (hx : v.lookup l = some x) :
    w.lookup l = some x := (h l).lookup hx

theorem Laid.keeps (h : Laid P v w) : Keeps v w := fun _ _ hx _ => h.lookup hx

theorem laid_put (hl : P l) (h : v.lookup l = none) : Laid P v (v.put l .dir) := by
  intro j
  by_cases hj : j = l
  · subst hj
    have hne : j ≠ [] := by
      rintro rfl
      cases h
    exact .inr ⟨h, by rw [lookup_put _ _ _ hne, if_pos rfl], hl⟩
  · exact .inl (lookup_put_ne v _ hj)

end Laid

theorem keeps_adjust (v : Volume) (l : Location) (change : File → File) :
    Keeps v (v.adjust l change) := by
  intro j x hx hf
  rcases lookup_adjust_alike v l j change with h | ⟨_, f, _, h⟩
  · exact h.trans hx
  · rw [hx] at h
    exact absurd (Option.some.inj h) (hf f)

theorem Leads.keep {w : Volume} (h : Leads v n d parts e) (k : Keeps v w) :
    Leads w n d parts e := by
  induction h with
  | done => exact .done
  | stay _ ih => exact .stay ih
  | up _ ih => exact .up ih
  | enter hs hl _ ih => exact .enter hs (k _ _ hl (by simp)) ih
  | follow hs hl _ ih => exact .follow hs (k _ _ hl (by simp)) ih

/-- What is added does not change where a walk ends, unless it is a link to be followed. -/
theorem Passage.keep {u : Volume} {L : Landing} (h : Passage v follow N d parts (.ok L))
    (k : Keeps v u) (free : follow = true → ∀ t, u.lookup L.location ≠ some (.link t)) :
    Passage u follow N d parts (.ok L) := by
  generalize hr : (Except.ok L : Except SystemError Landing) = r at h
  induction h with
  | done => cases hr; exact .done
  | stay _ ih => exact .stay (ih hr)
  | up _ ih => exact .up (ih hr)
  | long => cases hr
  | enter hs hl hne _ ih => exact .enter hs (k _ _ hl (by simp)) hne (ih hr)
  | follow hs hl hne _ ih => exact .follow hs (k _ _ hl (by simp)) hne (ih hr)
  | exhausted => cases hr
  | stop hs _ => cases hr; exact .stop hs free
  | blocked => cases hr
  | missing => cases hr

/-- What stands in the first volume stands in the second, or is a file in the place of a file or of
nothing. -/
def Poorer (v w : Volume) : Prop :=
  ∀ l x, v.lookup l = some x → w.lookup l = some x ∨
    ∃ f, x = .file f ∧ ∀ y, w.lookup l = some y → ∃ g, y = .file g

theorem Poorer.keeps {w : Volume} (h : Poorer v w) : Keeps v w := by
  intro l x hx hf
  rcases h l x hx with g | ⟨f, rfl, _⟩
  · exact g
  · exact absurd rfl (hf f)

/-- A poorer volume shows nothing at a new place. -/
theorem Passage.of_poorer {w : Volume} {L : Landing} (h : Passage v follow N d parts (.ok L))
    (p : Poorer v w) (hL : (v.lookup L.location).isSome) : Passage w follow N d parts (.ok L) := by
  generalize hr : (Except.ok L : Except SystemError Landing) = r at h
  induction h with
  | done => cases hr; exact .done
  | stay _ ih => exact .stay (ih hr)
  | up _ ih => exact .up (ih hr)
  | long => cases hr
  | enter hs hl hne _ ih => exact .enter hs (p.keeps _ _ hl (by simp)) hne (ih hr)
  | follow hs hl hne _ ih => exact .follow hs (p.keeps _ _ hl (by simp)) hne (ih hr)
  | exhausted => cases hr
  | @stop N d s hs hl =>
    cases hr
    refine .stop hs fun hf t ht => ?_
    obtain ⟨x, hx⟩ := Option.isSome_iff_exists.1 hL
    rcases p _ _ hx with g | ⟨f, rfl, g⟩
    · exact hl hf t (hx.trans (g.symm.trans ht))
    · obtain ⟨f', hf'⟩ := g _ ht
      cases hf'
  | blocked => cases hr
  | missing => cases hr

/-- The second volume has lost entries, and nothing else has happened to it. -/
def Thins (v w : Volume) : Prop := ∀ l x, w.lookup l = some x → v.lookup l = some x

theorem Thins.refl (v : Volume) : Thins v v := fun _ _ h => h

theorem Thins.trans (u v w : Volume) (h : Thins u v) (g : Thins v w) : Thins u w :=
  fun l x hx => h l x (g l x hx)

theorem Thins.none {w : Volume} {l : Location} (h : Thins v w) (hl : v.lookup l = none) :
    w.lookup l = none := by
  cases hx : w.lookup l with
  | none => rfl
  | some x => rw [← h l x hx, hl]

/-- If nothing stands at the location in the first volume, nothing does in the second. -/
def Spares (l : Location) (v w : Volume) : Prop := v.lookup l = none → w.lookup l = none

theorem Spares.refl (l : Location) (v : Volume) : Spares l v v := fun h => h

theorem Spares.trans {l : Location} (u v w : Volume) (h : Spares l u v) (g : Spares l v w) :
    Spares l u w := fun x => g (h x)

theorem Thins.spares {w : Volume} (h : Thins v w) (l : Location) : Spares l v w := h.none

theorem Within.spares {w : Volume} {l top : Location} (h : Within top v w) (hl : ¬ Inside l top) :
    Spares l v w := fun g => (h l hl).trans g

theorem Gone.thins {w : Volume} {l : Location} (h : Gone v l) (g : Thins v w) : Gone w l :=
  fun j hj => g.none (h j hj)

theorem thins_erase (v : Volume) (l : Location) : Thins v (v.erase l) := by
  intro j x hx
  cases j with
  | nil => exact hx
  | cons n d =>
    rw [lookup_erase v l (by simp)] at hx
    split at hx
    · cases hx
    · exact hx

theorem Thins.poorer {w : Volume} (h : Thins v w) : Poorer w v := fun l x hx => .inl (h l x hx)

end PinnedDeps.Volume
