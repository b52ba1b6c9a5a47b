import PinnedDeps.Main
import PinnedDeps.Proofs.CommandLine.Output
import PinnedDeps.Proofs.CommandLine.Programs
import PinnedDeps.Proofs.Document
import PinnedDeps.Proofs.Library.Gating

/-!
A check and a build with the same arguments. The check tells whether the build has anything to do: it
ends with success exactly if the build finds every library already built and does nothing at all, as far
as the environment names programs that can be read.
-/
namespace PinnedDeps.CommandLine

open Bytes (ofText)
open PinnedDeps.Action

variable {s : Surroundings} {style : Style} {c : Config} {lib : Library} {libs : List Library}
  {json : Bool} {o : Outside} {w w₁ w' : World}

section Idle

/-- A build that succeeds either has nothing to do or leaves a trace. -/
theorem build_idle_or_traced {status : BuildStatus} (run : (lib.build c).run o w = (.ok status, w')) :
    (lib.isBuilt c w.toView = true ∧ w' = w) ∨ ∃ es, es ≠ [] ∧ w'.trace = es ++ w.trace := by
  rw [Library.run_build] at run
  split at run
  · cases run
    exact .inl ⟨‹_›, rfl⟩
  · obtain ⟨_, w₁, roots, run⟩ := run_bind_ok.1 run
    obtain ⟨_, w₂, acquired, run⟩ := run_bind_ok.1 run
    obtain ⟨_, w₃, compiled, run⟩ := run_bind_ok.1 run
    obtain ⟨_, w₄, installed, run⟩ := run_bind_ok.1 run
    cases run
    obtain ⟨es₁, h₁, -⟩ := records_mapError BuildError.io (Library.records_makeRoots c) o w
    rw [show (mapError BuildError.io (Library.makeRoots c)).run o w = _ from roots] at h₁
    obtain ⟨es₂, h₂, -⟩ := Source.acquire_asks lib.source c.deps o w₁
    rw [← world_discard, acquired] at h₂
    obtain ⟨es₃, h₃, -, all⟩ := Library.issues_plan lib c o w₂
    rw [compiled] at h₃ all
    obtain ⟨es₄, h₄, -⟩ := Library.records_install lib c o w₃
    rw [installed] at h₄
    refine .inr ⟨_, ?_, (((h₁.trans h₂).trans h₃).trans h₄).trace⟩
    -- A compile that succeeds has started the programs of its plan.
    have started : es₃ ≠ [] := by
      rintro rfl
      have none := (all rfl).symm
      unfold Library.plan at none
      split at none <;> simp [Library.Round.commands, commands] at none
    simp [started]

/-- What a build says of a library that it finds already built. -/
def idleLines (style : Style) (lib : Library) : List String :=
  [style.info s!"Building {lib.display}...", style.success s!"{lib.display} is already built."]

def idleItem (s : Surroundings) (lib : Library) : BuildItem := ⟨lib, .alreadyBuilt, s.elapsed lib⟩

/-- What is said while libraries are gone through, which is nothing where a report follows. -/
def idleText (style : Style) (json : Bool) (libs : List Library) : String :=
  if json then "" else ofLines (libs.flatMap (idleLines style))

/-- The report at the end. -/
def idleReport (s : Surroundings) (target : Os) (json : Bool) (libs : List Library) : String :=
  if json then (buildDocument target (libs.map (idleItem s))).render ++ "\n" else ""

theorem idleText_cons (style : Style) (json : Bool) (lib : Library) (libs : List Library) :
    idleText style json (lib :: libs) = idleText style json [lib] ++ idleText style json libs := by
  cases json with
  | true => rfl
  | false => simp [idleText, ofLines_append]

theorem run_onFailure_of_ok {α : Type} {a : Action BuildError α} {x : α} (f : BuildError → Attempt α)
    (h : a.run o w = (.ok x, w')) : (onFailure a f).run o w = (.ok x, w') := by
  show onFailure a f o w = _
  unfold onFailure
  rw [h]

theorem run_onFailure_ok {α : Type} {a : Action BuildError α} {x : α} {f : BuildError → Attempt α}
    (h : (onFailure a f).run o w = (.ok x, w')) :
    a.run o w = (.ok x, w') ∨ ∃ e w₁, (f e).run o w₁ = (.ok x, w') := by
  change onFailure a f o w = _ at h
  unfold onFailure at h
  rcases run : a.run o w with ⟨e | y, w₁⟩
  · rw [run] at h
    exact .inr ⟨e, w₁, h⟩
  · rw [run] at h
    cases h
    exact .inl rfl

theorem run_buildOne_idle (built : lib.isBuilt c w.toView = true) :
    (buildOne s style c json lib).run o w =
      (.ok (idleItem s lib), tell w (idleText style json [lib])) := by
  have idle : ∀ w', w'.toView = w.toView → (lib.build c).run o w' = (.ok .alreadyBuilt, w') := by
    intro w' same
    rw [Library.run_build, same, if_pos built]
  cases json with
  | true =>
    rw [show idleText style true [lib] = "" from rfl, tell_nothing]
    show (onFailure (lib.build c) _ >>= _).run o w = _
    rw [run_bind_of_ok (run_onFailure_of_ok _ (idle w rfl))]
    rfl
  | false =>
    rw [show idleText style false [lib] = ofLines (idleLines style lib) by simp [idleText], idleLines,
      ofLines_cons, ofLines_cons, ← tell_tell]
    show (say _ >>= fun _ => onFailure (lib.build c) _ >>= _).run o w = _
    rw [run_bind_of_ok (run_say _), run_bind_of_ok (run_onFailure_of_ok _ (idle (tell w _) rfl))]
    show (say _ >>= fun _ => pure _).run o _ = _
    rw [run_bind_of_ok (run_say _), show ofLines [] = "" from rfl, String.append_empty]
    rfl

theorem trace_tellBuilt (style : Style) (target : Os) (i : BuildItem) (o : Outside) (w : World) :
    ((tellBuilt style target i).run o w).2.trace = w.trace := by
  unfold tellBuilt
  cases i.status <;> rfl

theorem traced_of_onFailure {status : BuildStatus} {f : BuildError → Attempt BuildStatus}
    (unbuilt : ¬ lib.isBuilt c w.toView = true) (fails : ∀ e w, ∃ x w', (f e).run o w = (.error x, w'))
    (run : (onFailure (lib.build c) f).run o w = (.ok status, w')) :
    ∃ es, es ≠ [] ∧ w'.trace = es ++ w.trace := by
  rcases run_onFailure_ok run with run | ⟨e, w₁, run⟩
  · exact (build_idle_or_traced run).resolve_left fun idle => unbuilt idle.1
  · obtain ⟨x, w₂, failed⟩ := fails e w₁
    rw [failed] at run
    cases run

/-- What is said in front of a build and behind it leaves no trace. -/
theorem buildOne_idle_or_traced {item : BuildItem}
    (run : (buildOne s style c json lib).run o w = (.ok item, w')) :
    (lib.isBuilt c w.toView = true ∧ w'.toView = w.toView ∧ w'.trace = w.trace) ∨
      ∃ es, es ≠ [] ∧ w'.trace = es ++ w.trace := by
  by_cases built : lib.isBuilt c w.toView = true
  · rw [run_buildOne_idle built] at run
    cases run
    exact .inl ⟨built, rfl, rfl⟩
  right
  cases json with
  | true =>
    obtain ⟨status, w₁, tried, told⟩ := run_bind_ok.1
      (show (onFailure (lib.build c) _ >>= fun status => pure _).run o w = _ from run)
    cases told
    exact traced_of_onFailure built (fun _ _ => ⟨_, _, rfl⟩) tried
  | false =>
    obtain ⟨status, w₁, tried, told⟩ := run_bind_ok.1 (show (onFailure (lib.build c) _ >>= fun status =>
      tellBuilt style c.targetOs _ >>= fun _ => pure _).run o (tell w _) = _ from run)
    obtain ⟨_, w₂, ended, told⟩ := run_bind_ok.1 told
    cases told
    have same := trace_tellBuilt style c.targetOs ⟨lib, status, s.elapsed lib⟩ o w₁
    rw [ended] at same
    rw [same]
    exact traced_of_onFailure (w := tell w _) built (fun _ _ => ⟨_, _, rfl⟩) tried

theorem run_buildAll_idle (built : ∀ lib ∈ libs, lib.isBuilt c w.toView = true) :
    (libs.mapM (buildOne s style c json)).run o w =
      (.ok (libs.map (idleItem s)), tell w (idleText style json libs)) := by
  induction libs generalizing w with
  | nil =>
    rw [show idleText style json [] = "" by cases json <;> rfl, tell_nothing]
    rfl
  | cons lib libs ih =>
    have others := ih (w := tell w (idleText style json [lib])) fun l hl =>
      built l (List.mem_cons_of_mem _ hl)
    rw [List.mapM_cons, run_bind_of_ok (run_buildOne_idle (built lib List.mem_cons_self)),
      run_bind_of_ok others, idleText_cons style json lib libs, ← tell_tell]
    rfl

theorem idle_of_untraced {items : List BuildItem}
    (run : (libs.mapM (buildOne s style c json)).run o w = (.ok items, w')) :
    ∃ es, w'.trace = es ++ w.trace ∧ (es = [] → ∀ lib ∈ libs, lib.isBuilt c w.toView = true) := by
  induction libs generalizing w items with
  | nil =>
    cases run
    exact ⟨[], rfl, by simp⟩
  | cons lib libs ih =>
    rw [List.mapM_cons] at run
    obtain ⟨item, w₁, first, run⟩ := run_bind_ok.1 run
    obtain ⟨items, w₂, others, run⟩ := run_bind_ok.1 run
    cases run
    obtain ⟨es, trace, idle⟩ := ih others
    rcases buildOne_idle_or_traced first with ⟨built, view, same⟩ | ⟨fs, some, traced⟩
    · refine ⟨es, by rw [trace, same], fun none => ?_⟩
      rw [view] at idle
      exact List.forall_mem_cons.2 ⟨built, idle none⟩
    · exact ⟨es ++ fs, by rw [trace, traced, List.append_assoc], fun none => by simp_all⟩

end Idle

section Agreement

variable {args args' rest : List Bytes} {name : String} {place : Place} {layout : Layout} {code : Nat}

/-- Nothing has happened but that something was said. -/
def OnlySaid (w w' : World) : Prop :=
  ∃ out err, w' = { w with output := w.output ++ out, complaints := w.complaints ++ err }

theorem OnlySaid.refl (w : World) : OnlySaid w w := ⟨[], [], by simp⟩

theorem OnlySaid.trans (h : OnlySaid w w₁) (h' : OnlySaid w₁ w') : OnlySaid w w' := by
  obtain ⟨out, err, rfl⟩ := h
  obtain ⟨out', err', rfl⟩ := h'
  exact ⟨out ++ out', err ++ err', by simp⟩

theorem onlySaid_tell (w : World) (text : String) : OnlySaid w (tell w text) :=
  ⟨ofText text, [], by simp [tell]⟩

theorem onlySaid_complain (w : World) (line : String) : OnlySaid w (complainLine line w) :=
  ⟨[], ofText (line ++ "\n"), by simp [complainLine]⟩

theorem run_tellAll (style : Style) (items : List CheckItem) :
    ∃ w', (items.forM (tellChecked style)).run o w = (.ok (), w') ∧ OnlySaid w w' := by
  induction items generalizing w with
  | nil => exact ⟨w, rfl, .refl w⟩
  | cons i items ih =>
    obtain ⟨w₁, told, said⟩ : ∃ w₁, (tellChecked style i).run o w = (.ok (), w₁) ∧ OnlySaid w w₁ := by
      unfold tellChecked
      split
      · exact ⟨_, rfl, onlySaid_tell w _⟩
      · exact ⟨_, rfl, onlySaid_complain w _⟩
    obtain ⟨w₂, others, said'⟩ := ih (w := w₁)
    exact ⟨w₂, by rw [forM_cons, run_bind_of_ok told, others], said.trans said'⟩

theorem run_runCheck (style : Style) (c : Config) (json : Bool) (libs : List Library) (o : Outside)
    (w : World) :
    let items := checkItems c w.toView libs
    ∃ w', (runCheck style c json libs).run o w = (.ok (if allBuilt items then 0 else 1), w') ∧
      OnlySaid w w' ∧
      (json = true → w' = tell w ((checkDocument c.targetOs items).render ++ "\n")) := by
  intro items
  cases json with
  | true => exact ⟨_, rfl, onlySaid_tell w _, fun _ => rfl⟩
  | false =>
    obtain ⟨w', told, said⟩ := run_tellAll (o := o) (w := w) style items
    refine ⟨w', ?_, said, fun h => by cases h⟩
    show (items.forM (tellChecked style) >>= fun _ => pure _).run o w = _
    rw [run_bind_of_ok told]
    rfl

/-- The items of a report have the names of some libraries. -/
def Lists (libs : List Library) (items : List Document) : Prop :=
  items.map (·.field? "name") = libs.map fun lib => some (.text lib.name)

/-- A report of what was looked for says that all is built exactly if it says so of every library, and
exactly if the run ends with success. -/
def ReportsChecked (libs : List Library) (code : Nat) (text : String) : Prop :=
  ∃ d items all, Document.read text = some d ∧ d.field? "all_built" = some (.flag all) ∧
    d.field? "dependencies" = some (.list items) ∧ Lists libs items ∧
    (all = true ↔ ∀ i ∈ items, i.field? "built" = some (.flag true)) ∧ (all = true ↔ code = 0)

/-- Every library is said to have been built already. -/
def ReportsIdle (style : Style) (json : Bool) (libs : List Library) (text : String) : Prop :=
  if json then ∃ d items, Document.read text = some d ∧ d.field? "dependencies" = some (.list items) ∧
    Lists libs items ∧ ∀ i ∈ items, i.field? "status" = some (.text "already_built")
  else toLines text = libs.flatMap (idleLines style)

theorem reportsChecked (target : Os) (c : Config) (view : View) (libs : List Library) :
    let items := checkItems c view libs
    ReportsChecked libs (if allBuilt items then 0 else 1) ((checkDocument target items).render ++ "\n") := by
  intro items
  refine ⟨_, items.map CheckItem.document, allBuilt items, Document.read_render _, rfl, rfl, ?_, ?_, ?_⟩
  · unfold Lists
    simp only [items, checkItems, List.map_map]
    rfl
  · rw [allBuilt, List.all_eq_true, List.forall_mem_map]
    refine forall₂_congr fun i _ => ?_
    show i.isBuilt = true ↔ some (.flag i.isBuilt) = some (Document.flag true)
    simp
  · cases allBuilt items <;> simp

theorem idleLines_plain (style : Style) (lib : Library) : ∀ l ∈ idleLines style lib, '\n' ∉ l.toList := by
  obtain ⟨coloured⟩ := style
  cases lib <;> cases coloured <;> decide

theorem reportsIdle (s : Surroundings) (style : Style) (target : Os) (json : Bool) (libs : List Library) :
    ReportsIdle style json libs (idleText style json libs ++ idleReport s target json libs) := by
  cases json with
  | true =>
    show ReportsIdle style true libs ("" ++ ((buildDocument target (libs.map (idleItem s))).render ++ "\n"))
    rw [String.empty_append]
    refine ⟨_, (libs.map (idleItem s)).map BuildItem.document, Document.read_render _, rfl, ?_, ?_⟩
    · unfold Lists
      simp only [List.map_map]
      rfl
    · rw [List.map_map, List.forall_mem_map]
      exact fun _ _ => rfl
  | false =>
    show toLines (ofLines (libs.flatMap (idleLines style)) ++ "") = libs.flatMap (idleLines style)
    rw [String.append_empty]
    refine toLines_ofLines fun l hl => ?_
    obtain ⟨lib, -, hl⟩ := List.mem_flatMap.1 hl
    exact idleLines_plain style lib l hl

/-- The programs of a configuration aside, it is made of what a check is told too. -/
theorem configure_ok (usable : place.deps.bytes ≠ []) (s : Surroundings) (cwd : Path) (layout : Layout) :
    ∃ c : Config, ∀ programs, ∃ used,
      configure s cwd place layout programs = .ok { c with programs := used } := by
  obtain ⟨deps, resolved⟩ := Path.exists_absolute usable cwd
  let made : Config :=
    { deps, layout, target := place.target, host := s.host, env := s.environ,
      maintenance := (s.environ.get? (ofText Config.maintenanceVar)).map Path.mk,
      programs := ⟨"cmake", s.host.os.makeProgram, s.jobs⟩ }
  refine ⟨made, fun programs => ?_⟩
  obtain ⟨jobs, cmake, make⟩ := programs
  unfold configure Config.ofEnviron
  rw [resolved]
  cases jobs <;> cases cmake <;> cases make <;> exact ⟨_, rfl⟩

theorem run_of_check (asked : Request.read s.environ args = .ok (.check name place layout json))
    (known : select name = .ok libs)
    (configured : configure s w.cwd.path place layout ⟨none, none, none⟩ = .ok c)
    (ran : (runCheck (.ofEnviron s.environ) c json libs).run o w = (.ok code, w')) :
    run s args o w = (code, w') := by
  have performed : ((Request.check name place layout json).perform s).run o w = (.ok code, w') := by
    show (orThrow (select name) >>= fun libs => workingDir >>= fun cwd =>
      orThrow (configure s cwd place layout ⟨none, none, none⟩) >>= fun c => runCheck _ c json libs).run o w = _
    simp only [run_bind, run_orThrow, run_workingDir, known, configured, ran]
  unfold run
  rw [asked]
  simp only [performed]

theorem run_of_build {programs : Programs}
    (asked : Request.read s.environ args = .ok (.build name place layout programs json))
    (known : select name = .ok libs) (configured : configure s w.cwd.path place layout programs = .ok c) :
    run s args o w = (0, w') ↔
      (runBuild s (.ofEnviron s.environ) c json libs).run o w = (.ok 0, w') := by
  have performed : ((Request.build name place layout programs json).perform s).run o w =
      (runBuild s (.ofEnviron s.environ) c json libs).run o w := by
    show (orThrow (select name) >>= fun libs => workingDir >>= fun cwd =>
      orThrow (configure s cwd place layout programs) >>= fun c => runBuild s _ c json libs).run o w = _
    simp only [run_bind, run_orThrow, run_workingDir, known, configured]
  unfold run
  rw [asked]
  simp only [performed]
  rcases (runBuild s (.ofEnviron s.environ) c json libs).run o w with ⟨e | code, w₁⟩ <;> simp

theorem run_runBuild_idle (built : ∀ lib ∈ libs, lib.isBuilt c w.toView = true) :
    (runBuild s style c json libs).run o w =
      (.ok 0, tell w (idleText style json libs ++ idleReport s c.targetOs json libs)) := by
  unfold runBuild
  rw [run_bind_of_ok (run_buildAll_idle built), ← tell_tell]
  cases json with
  | true => rfl
  | false =>
    rw [show idleReport s c.targetOs false libs = "" from rfl, tell_nothing]
    rfl

/-- A build that leaves no trace has found everything built. -/
theorem idle_of_runBuild (ran : (runBuild s style c json libs).run o w = (.ok code, w'))
    (untraced : w'.trace = w.trace) : ∀ lib ∈ libs, lib.isBuilt c w.toView = true := by
  unfold runBuild at ran
  obtain ⟨items, w₁, all, told⟩ := run_bind_ok.1 ran
  obtain ⟨es, trace, idle⟩ := idle_of_untraced all
  have same : w'.trace = w₁.trace := by
    cases json <;> (cases told; rfl)
  exact idle (List.append_left_eq_self.1 (trace.symm.trans (same.symm.trans untraced)))

theorem allBuilt_checkItems (view : View) (libs : List Library) :
    allBuilt (checkItems c view libs) = true ↔ ∀ lib ∈ libs, lib.isBuilt c view = true := by
  unfold allBuilt checkItems
  rw [List.all_map, List.all_eq_true]
  rfl

/-- A check only says something. Its report gives for each library whether it is built, and for all of them
exactly if the run ends with success. And it ends with success, where the environment names programs that
are text, exactly if a build with the same arguments says of every library that it was built before, and
does nothing else. -/
theorem check_agrees (o : Outside) (w : World) (checked : readVerb .nothing args = .ok (.check, rest))
    (building : readVerb .nothing args' = .ok (.build, rest))
    (asked : Request.read s.environ args = .ok (.check name place layout json))
    (known : select name = .ok libs) :
    OnlySaid w (run s args o w).2 ∧
    (json = true → ∃ text, (run s args o w).2 = tell w text ∧
      ReportsChecked libs (run s args o w).1 text) ∧
    ((run s args o w).1 = 0 ∧ ProgramsSpelled s.environ ↔
      ∃ text, run s args' o w = (0, tell w text) ∧
        ReportsIdle (.ofEnviron s.environ) json libs text) := by
  obtain ⟨c, configured⟩ := configure_ok (deps_ne_nil asked rfl) s w.cwd.path layout
  obtain ⟨used, plain⟩ := configured ⟨none, none, none⟩
  obtain ⟨w', ran, said, report⟩ :=
    run_runCheck (.ofEnviron s.environ) { c with programs := used } json libs o w
  obtain ⟨spelled, misspelled⟩ := read_build checked building asked
  rw [run_of_check asked known plain ran]
  refine ⟨said, fun h => ⟨_, report h, reportsChecked _ _ _ _⟩, ?_, ?_⟩
  · rintro ⟨success, texts⟩
    obtain ⟨programs, asked'⟩ := spelled texts
    obtain ⟨used', configured'⟩ := configured programs
    have all : allBuilt (checkItems { c with programs := used } w.toView libs) = true := by
      simpa using success
    have built : ∀ lib ∈ libs, lib.isBuilt { c with programs := used' } w.toView = true :=
      (allBuilt_checkItems _ _).1 all
    exact ⟨_, (run_of_build asked' known configured').2 (run_runBuild_idle built), reportsIdle s _ _ _ _⟩
  · rintro ⟨text, ended, -⟩
    by_cases texts : ProgramsSpelled s.environ
    · obtain ⟨programs, asked'⟩ := spelled texts
      obtain ⟨used', configured'⟩ := configured programs
      have built := idle_of_runBuild ((run_of_build asked' known configured').1 ended) rfl
      exact ⟨if_pos ((allBuilt_checkItems _ _).2 built), texts⟩
    · unfold run at ended
      rw [misspelled texts] at ended
      cases ended

end Agreement

section Installed

/-- Nothing is coloured, and the variables are as given. -/
def among (vars : List (Bytes × Bytes)) : Surroundings := ⟨.ofPairs vars, Main.host, 4, fun _ => ⟨0, 0⟩⟩

/-- The files of zlib are installed, those of the other library are not. -/
def installed : World :=
  Library.worldOf <| [("/Install", .dir), ("/Install/Lib", .dir)] ++
    ["libz.so.1.2.11", "libz.so.1", "libz.so"].map fun n => ("/Install/Lib/" ++ n, Library.text)

def words (ws : List String) : List Bytes := ws.map ofText

/-- What is installed is found, and nothing is built; what is missing keeps a build from being idle. -/
theorem check_agrees_installed :
    (∃ text, run (among []) (words ["-v", "build", "zlib"]) Library.quiet installed =
        (0, tell installed text) ∧
      toLines text = ["• Building zlib 1.2.11...", "✓ zlib 1.2.11 is already built."]) ∧
    ¬ ∃ text, run (among []) (words ["build", "all", "--json"]) Library.quiet installed =
        (0, tell installed text) ∧ ReportsIdle ⟨false⟩ true Library.all text := by
  constructor
  · have checked : readVerb .nothing (words ["-v", "check", "zlib"]) = .ok (.check, words ["zlib"]) := by
      decide +kernel
    have building : readVerb .nothing (words ["-v", "build", "zlib"]) = .ok (.build, words ["zlib"]) := by
      decide +kernel
    have asked : Request.read (among []).environ (words ["-v", "check", "zlib"]) =
        .ok (.check "zlib" ⟨"Deps", none⟩ ⟨"Install", "Lib", "Bin"⟩ false) := by decide +kernel
    obtain ⟨-, -, agree⟩ := check_agrees Library.quiet installed checked building asked
      (show select "zlib" = .ok [.zlib] by decide +kernel)
    have spelled : ProgramsSpelled (among []).environ := ⟨by rintro _ ⟨⟩, by rintro _ ⟨⟩⟩
    exact agree.1 ⟨by decide +kernel, spelled⟩
  · have checked : readVerb .nothing (words ["check", "all", "--json"]) =
        .ok (.check, words ["all", "--json"]) := by decide +kernel
    have building : readVerb .nothing (words ["build", "all", "--json"]) =
        .ok (.build, words ["all", "--json"]) := by decide +kernel
    have asked : Request.read (among []).environ (words ["check", "all", "--json"]) =
        .ok (.check "all" ⟨"Deps", none⟩ ⟨"Install", "Lib", "Bin"⟩ true) := by decide +kernel
    obtain ⟨-, -, agree⟩ := check_agrees Library.quiet installed checked building asked
      (show select "all" = .ok Library.all by decide +kernel)
    intro idle
    exact absurd (agree.2 idle).1 (by decide +kernel)

/-- A name of a program that is no text stops a build before it has looked, but no check. -/
theorem check_disagrees :
    let s := among [(ofText "BUILDDEPS_CMAKE", [0xff])]
    (run s (words ["build", "zlib"]) Library.quiet installed).1 = 2 ∧
    ¬ ((run s (words ["check", "zlib"]) Library.quiet installed).1 = 0 ↔
      ∃ text, run s (words ["build", "zlib"]) Library.quiet installed = (0, tell installed text) ∧
        ReportsIdle (.ofEnviron s.environ) false [.zlib] text) := by
  intro s
  have refused : (run s (words ["build", "zlib"]) Library.quiet installed).1 = 2 := by decide +kernel
  refine ⟨refused, fun agree => ?_⟩
  obtain ⟨text, idle, -⟩ := agree.1 (by decide +kernel)
  rw [idle] at refused
  cases refused

end Installed

end PinnedDeps.CommandLine
