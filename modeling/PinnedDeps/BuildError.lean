import PinnedDeps.Path
import PinnedDeps.SystemError

/-!
Why fetching, building or installing a library fails. Each failure is a cause; `message` words it.
-/
namespace PinnedDeps

/-- Why no body was received. URLs are in their normal form. -/
inductive FetchCause where
  | badUrl
  | badScheme (url : String)
  | noResponse (url : String)
  | tooManyRedirects (first : String)
  | status (code : Nat) (reason : String)
  | bodyCutShort
  deriving DecidableEq, Repr

def FetchCause.message : FetchCause → String
  | badUrl => "builder error"
  | badScheme url => s!"builder error for url ({url})"
  | noResponse url => s!"error sending request for url ({url})"
  | tooManyRedirects first => s!"error following redirect for url ({first})"
  | status code reason => s!"HTTP {code} {reason}"
  | bodyCutShort => "error decoding response body"

inductive ExtractCause where
  | unreadable (cause : IoError)
  /-- The archive can be read, but not unpacked. -/
  | notUnpacked
  deriving DecidableEq, Repr

inductive BuildError where
  | fetch (url : String) (cause : FetchCause)
  | hashMismatch (url expected actual : String)
  | extract (archive : Path) (cause : ExtractCause)
  /-- A command that was killed by a signal has no exit code. -/
  | commandFailed (step program : String) (code : Option Int)
  | spawn (program : String) (cause : IoError)
  | unsupportedHost (platform : String)
  | unknownDependency (name : String)
  | copy (src dst : Path) (cause : IoError)
  | io (cause : IoError)
  deriving DecidableEq, Repr

namespace BuildError

def fetchMessage (url reason : String) : String := s!"fetch failed for {url}: {reason}"

def codeText : Option Int → String
  | some c => s!"Some({c})"
  | none => "None"

def message : BuildError → String
  | fetch url cause => fetchMessage url cause.message
  | hashMismatch url expected actual =>
    s!"hash mismatch for {url}: expected {expected}, got {actual}"
  | extract archive (.unreadable cause) => s!"failed to extract {archive.shown}: {cause.message}"
  | extract archive .notUnpacked => s!"failed to extract {archive.shown}"
  | commandFailed step program code => s!"{step} failed: {program} exited with code {codeText code}"
  | spawn program cause => s!"failed to run {program}: {cause.message}"
  | unsupportedHost platform => s!"unsupported host platform: {platform}"
  | unknownDependency name => s!"unknown dependency: {name}"
  | copy src dst cause => s!"failed to copy {src.shown} to {dst.shown}: {cause.message}"
  | io cause => s!"io error: {cause.message}"

/-- The refusal behind a failure, where it has one. -/
def cause? : BuildError → Option IoError
  | extract _ (.unreadable cause) => some cause
  | spawn _ cause => some cause
  | copy _ _ cause => some cause
  | io cause => some cause
  | _ => none

end BuildError
end PinnedDeps
