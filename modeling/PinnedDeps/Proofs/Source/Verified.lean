import PinnedDeps.Proofs.Action.Parents
import PinnedDeps.Proofs.Source.Requesting

/-!
What reaches the disk. A body is written only when it is complete, came with a success and has the
expected digest; where a download is refused, nothing has been written, and where an acquisition ends
with such a refusal, nothing of the source is left.
-/
namespace PinnedDeps

open PinnedDeps.Action Volume

/-- Whether no body was received, or another than the expected one. -/
def BuildError.IsRefusal : BuildError → Prop
  | .fetch .. => True
  | .hashMismatch .. => True
  | _ => False

namespace Source

variable {o : Outside} {w w' : World} {s : Source} {deps archive dest : Path} {url : String}
  {sha256 : Option String} {e : BuildError}

/-- The server gives a complete body with a success, and it has the digest that is expected of it. -/
structure Delivers (o : Outside) (url : String) (sha256 : Option String) (b : Bytes) : Prop where
  answered : ∃ r, (o.exchange url).answer = .ok r ∧ 200 ≤ r.status ∧ r.status < 300 ∧ r.body = some b
  verified : ∀ sha, sha256 = some sha → o.digest b = sha

/-- The world once the server has been asked. -/
def asked (o : Outside) (url : String) (w : World) : World :=
  { w with trace := .requested (o.exchange url).requests :: w.trace }

theorem recorded_asked (o : Outside) (url : String) (w : World) :
    Recorded [.requested (o.exchange url).requests] w (asked o url w) := ⟨rfl, rfl, rfl⟩

theorem fetched_ok {answer : Except FetchCause Response} {b : Bytes} (h : fetched url answer = .ok b) :
    ∃ r, answer = .ok r ∧ 200 ≤ r.status ∧ r.status < 300 ∧ r.body = some b := by
  unfold fetched at h
  split at h
  · cases h
  · rename_i r
    split at h
    · rename_i success
      split at h
      · rename_i body complete
        cases h
        exact ⟨r, rfl, success.1, success.2, complete⟩
      · cases h
    · cases h

theorem fetched_error {answer : Except FetchCause Response} (h : fetched url answer = .error e) :
    e.IsRefusal := by
  unfold fetched at h
  split at h
  · cases h
    trivial
  · split at h
    · split at h
      · cases h
      · cases h
        trivial
    · cases h
      trivial

/-- A download is refused once the server has been asked, or writes what has been delivered. Which of
the two it is does not depend on the volume. -/
theorem run_download_cases (o : Outside) (url : String) (dest : Path) (sha256 : Option String) :
    (∃ e, e.IsRefusal ∧ ∀ w, (download url dest sha256).run o w = (.error e, asked o url w)) ∨
      ∃ b, Delivers o url sha256 b ∧ ∀ w,
        (download url dest sha256).run o w = (io (writeFile dest b)).run o (asked o url w) := by
  unfold download
  cases answer : fetched url (o.exchange url).answer with
  | error e =>
    refine .inl ⟨e, fetched_error answer, fun w => run_bind_of_error ?_⟩
    rw [run_fetch, answer]
    rfl
  | ok b =>
    have fetching : ∀ w, (fetch url).run o w = (.ok b, asked o url w) := by
      intro w
      rw [run_fetch, answer]
      rfl
    cases sha256 with
    | none =>
      refine .inr ⟨b, ⟨fetched_ok answer, fun _ h => by cases h⟩, fun w => ?_⟩
      rw [run_bind_of_ok (fetching w)]
      exact run_bind_of_ok (run_verify url b none)
    | some expected =>
      by_cases same : o.digest b = expected
      · refine .inr ⟨b, ⟨fetched_ok answer, fun sha h => same.trans (Option.some.inj h)⟩, fun w => ?_⟩
        rw [run_bind_of_ok (fetching w)]
        refine run_bind_of_ok (x := ()) ?_
        rw [run_verify]
        simp only [if_pos same]
      · refine .inl ⟨.hashMismatch url expected (o.digest b), trivial, fun w => ?_⟩
        rw [run_bind_of_ok (fetching w)]
        refine run_bind_of_error ?_
        rw [run_verify]
        simp only [if_neg same]

theorem download_refused (run : (download url dest sha256).run o w = (.error e, w'))
    (refusal : e.IsRefusal) : w' = asked o url w := by
  rcases run_download_cases o url dest sha256 with ⟨_, _, ends⟩ | ⟨b, _, ends⟩
  · exact (Prod.mk.inj (run.symm.trans (ends w))).2
  · rw [ends] at run
    obtain ⟨x, rfl, -⟩ := run_mapError_error.1 run
    exact refusal.elim

/-- Whatever the reason, a download that fails changes nothing. -/
theorem download_failed (run : (download url dest sha256).run o w = (.error e, w')) :
    w'.volume = w.volume := by
  rcases run_download_cases o url dest sha256 with ⟨_, _, ends⟩ | ⟨b, _, ends⟩
  · rw [ends] at run
    cases run
    rfl
  · rw [ends] at run
    obtain ⟨x, -, run⟩ := run_mapError_error.1 run
    rw [run_writeFile] at run
    cases opened : (asked o url w).volume.openFile (asked o url w).cwd dest plainMode false with
    | ok y =>
      rw [opened] at run
      cases run
    | error y =>
      rw [opened] at run
      cases run
      rfl

theorem download_delivers (run : (download url dest sha256).run o w = (.ok (), w')) :
    ∃ b, Delivers o url sha256 b ∧ w'.volume.readFile w'.cwd dest = .ok b := by
  rcases run_download_cases o url dest sha256 with ⟨_, _, ends⟩ | ⟨b, delivers, ends⟩
  · rw [ends] at run
    cases run
  · rw [ends] at run
    exact ⟨b, delivers, writeFile_reads (run_mapError_ok.1 run)⟩

/-- Whatever a download changes, it changes after a body has been delivered. -/
theorem download_changes (o : Outside) (w : World) (url : String) (dest : Path)
    (sha256 : Option String) :
    ∃ es, Recorded es w ((download url dest sha256).run o w).2 ∧
      ∀ e ∈ es, e.IsChange → ∃ b, Delivers o url sha256 b := by
  rcases run_download_cases o url dest sha256 with ⟨_, _, ends⟩ | ⟨b, delivers, ends⟩
  · rw [ends]
    refine ⟨_, recorded_asked o url w, fun e he change => ?_⟩
    obtain rfl := List.mem_singleton.1 he
    exact change.elim
  · rw [ends]
    obtain ⟨es, recorded, -⟩ := records_mapError BuildError.io (records_writeFile dest b) o (asked o url w)
    exact ⟨_, (recorded_asked o url w).trans recorded, fun _ _ _ => ⟨b, delivers⟩⟩

theorem io_not_refusal {α : Type} {a : Action IoError α} (run : (io a).run o w = (.error e, w')) :
    ¬ e.IsRefusal := by
  obtain ⟨x, rfl, -⟩ := run_mapError_error.1 run
  exact id

theorem extract_not_refusal (run : (extract archive dest).run o w = (.error e, w')) :
    ¬ e.IsRefusal := by
  unfold extract at run
  rcases run_bind_error.1 run with run | ⟨y, w₁, -, run⟩
  · obtain ⟨x, rfl, -⟩ := run_mapError_error.1 run
    exact id
  · obtain ⟨l, x⟩ := y
    cases x with
    | file f =>
      rcases run_bind_error.1 run with run | ⟨_, w₂, -, run⟩
      · cases run
      · obtain ⟨x, rfl, -⟩ := run_mapError_error.1 run
        exact id
    | _ =>
      obtain ⟨x, rfl, -⟩ := run_mapError_error.1 run
      exact id

/-- An acquisition that is refused has come as far as its download. -/
theorem acquire_refused (run : (s.acquire deps).run o w = (.error e, w')) (refusal : e.IsRefusal) :
    ∃ w₁ w₂, (ensureDir deps).run o w = (.ok (), w₁) ∧
      (s.clearRemnants deps).run o w₁ = (.ok (), w₂) ∧
      (download s.url (s.archivePath deps) s.sha256).run o w₂ = (.error e, w') := by
  by_cases seen : s.isExtracted deps w.volume w.cwd = true
  · rw [run_acquire_cached seen] at run
    cases run
  rw [run_acquire (by simpa using seen)] at run
  rcases run_bind_error.1 run with run | ⟨_, w₃, -, run⟩
  · rcases run_bind_error.1 run with run | ⟨_, w₁, made, run⟩
    · exact (io_not_refusal run refusal).elim
    rcases run_bind_error.1 run with run | ⟨_, w₂, cleared, run⟩
    · exact (io_not_refusal run refusal).elim
    · exact ⟨w₁, w₂, run_mapError_ok.1 made, cleared, run⟩
  · rcases run_bind_error.1 run with run | ⟨_, w₄, -, run⟩
    · rcases run_bind_error.1 run with run | ⟨_, w₅, -, run⟩
      · exact (extract_not_refusal run refusal).elim
      · exact (io_not_refusal run refusal).elim
    · cases run

/-- No byte is written that has not been verified. A download that is refused changes nothing; one
that succeeds leaves exactly the body that was delivered, whatever was there before; and whatever it
changes, it changes after a body has been delivered. An acquisition that ends with such a refusal
leaves none of the names of the source, and since the directory was made it has only removed. -/
theorem only_delivered_written (o : Outside) (w : World) :
    (∀ url dest sha256,
      (∀ e, ((download url dest sha256).run o w).1 = .error e → e.IsRefusal →
        ((download url dest sha256).run o w).2.volume = w.volume ∧
          Recorded [.requested (o.exchange url).requests] w ((download url dest sha256).run o w).2) ∧
      (((download url dest sha256).run o w).1 = .ok () → ∃ b, Delivers o url sha256 b ∧
        ((download url dest sha256).run o w).2.volume.readFile w.cwd dest = .ok b) ∧
      ∃ es, Recorded es w ((download url dest sha256).run o w).2 ∧
        ∀ e ∈ es, e.IsChange → ∃ b, Delivers o url sha256 b) ∧
    ∀ (s : Source) deps e, ((s.acquire deps).run o w).1 = .error e → e.IsRefusal →
      (∀ p ∈ s.places deps, Vacant ((s.acquire deps).run o w).2.volume w.cwd p) ∧
      ∃ w₁, (ensureDir deps).run o w = (.ok (), w₁) ∧
        Moved Thins w₁ ((s.acquire deps).run o w).2 := by
  constructor
  · intro url dest sha256
    obtain ⟨es, recorded, changes⟩ := download_changes o w url dest sha256
    refine ⟨fun e failed refusal => ?_, fun ended => ?_, es, recorded, changes⟩
    · have still : ((download url dest sha256).run o w).2 = asked o url w :=
        download_refused (Prod.ext failed rfl) refusal
      rw [still]
      exact ⟨rfl, recorded_asked o url w⟩
    · obtain ⟨b, delivers, reads⟩ := download_delivers (w := w) (Prod.ext ended rfl)
      rw [recorded.cwd] at reads
      exact ⟨b, delivers, reads⟩
  · intro s deps e failed refusal
    rcases run : (s.acquire deps).run o w with ⟨r, w'⟩
    rw [run] at failed
    obtain rfl : r = .error e := failed
    obtain ⟨w₁, w₂, made, cleared, loading⟩ := acquire_refused run refusal
    obtain rfl := download_refused loading refusal
    have vacant := clearRemnants_vacates cleared
    have making := (moves_ensureDir deps o w rfl).cwd
    have clearing := moves_clearRemnants s deps o w₁ rfl
    rw [made] at making
    rw [cleared] at clearing
    have cwd : w₂.cwd = w.cwd := clearing.cwd.trans making
    refine ⟨fun p hp => cwd ▸ vacant p hp, w₁, made, clearing.trans Thins.trans ?_⟩
    exact ⟨rfl, .refl _, [_], rfl, by simp⟩

section Sample

/-- Every server gives one byte, with a digest that nothing is pinned to. -/
def tampered : Outside where
  exchange _ := ⟨[], .ok ⟨200, "OK", some [7]⟩⟩
  digest _ := "other"
  archive _ := ⟨[], true⟩
  spawn _ _ v := .ok ⟨v, [], .success⟩

def pinned : Source := ⟨"demo", "0.1.0", "http://host/demo.tar.gz", some "digest"⟩

/-- A tree of the source that an earlier run has left, and a file of the user. -/
def leftWorld : World :=
  ⟨⟨⟨[([Bytes.ofText "d"], .dir), ([Bytes.ofText "demo-0.1.0", Bytes.ofText "d"], .dir),
    ([Bytes.ofText "f"], .file ⟨[1, 2], plainMode, none⟩)]⟩, [], Path.ofText "/"⟩, [], [], []⟩

theorem only_delivered_written_tampered :
    ((download pinned.url "/f" none).run tampered leftWorld).1 = .ok () ∧
      ((download pinned.url "/f" none).run tampered leftWorld).2.volume.readFile [] "/f" = .ok [7] ∧
      ∃ url expected actual,
        ((pinned.acquire "/d").run tampered leftWorld).1 = .error (.hashMismatch url expected actual) ∧
        ∀ p ∈ pinned.places "/d",
          Vacant ((pinned.acquire "/d").run tampered leftWorld).2.volume [] p := by
  obtain ⟨downloads, acquires⟩ := only_delivered_written tampered leftWorld
  obtain ⟨-, written, -⟩ := downloads pinned.url "/f" none
  have ends : ((download pinned.url "/f" none).run tampered leftWorld).1 = .ok () := rfl
  obtain ⟨b, delivered, reads⟩ := written ends
  obtain ⟨r, answer, -, -, body⟩ := delivered.answered
  cases answer
  cases body
  refine ⟨ends, reads, ?_⟩
  have refused : (match ((pinned.acquire "/d").run tampered leftWorld).1 with
      | .error (.hashMismatch ..) => true
      | _ => false) = true := by
    decide +kernel
  split at refused
  · rename_i url expected actual failed
    exact ⟨url, expected, actual, failed, (acquires pinned "/d" _ failed trivial).1⟩
  · cases refused

end Sample

end Source
end PinnedDeps
