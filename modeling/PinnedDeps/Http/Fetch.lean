import PinnedDeps.Outside
import PinnedDeps.Http.Url

/-!
Fetching from servers: the status codes of answers with their phrases, and what comes of asking for an
address. Redirects are followed, at most ten; every request that reaches a server is listed. After the
first request the whole exchange is named by the address that was first asked for.
-/
namespace PinnedDeps.Http

def phrases : List (Nat × String) := [
  (100, "Continue"), (101, "Switching Protocols"), (102, "Processing"), (103, "Early Hints"),
  (200, "OK"), (201, "Created"), (202, "Accepted"), (203, "Non Authoritative Information"),
  (204, "No Content"), (205, "Reset Content"), (206, "Partial Content"), (207, "Multi-Status"),
  (208, "Already Reported"), (226, "IM Used"),
  (300, "Multiple Choices"), (301, "Moved Permanently"), (302, "Found"), (303, "See Other"),
  (304, "Not Modified"), (305, "Use Proxy"), (307, "Temporary Redirect"),
  (308, "Permanent Redirect"),
  (400, "Bad Request"), (401, "Unauthorized"), (402, "Payment Required"), (403, "Forbidden"),
  (404, "Not Found"), (405, "Method Not Allowed"), (406, "Not Acceptable"),
  (407, "Proxy Authentication Required"), (408, "Request Timeout"), (409, "Conflict"),
  (410, "Gone"),
  (411, "Length Required"), (412, "Precondition Failed"), (413, "Payload Too Large"),
  (414, "URI Too Long"), (415, "Unsupported Media Type"), (416, "Range Not Satisfiable"),
  (417, "Expectation Failed"), (418, "I'm a teapot"), (421, "Misdirected Request"),
  (422, "Unprocessable Entity"), (423, "Locked"), (424, "Failed Dependency"), (425, "Too Early"),
  (426, "Upgrade Required"), (428, "Precondition Required"), (429, "Too Many Requests"),
  (431, "Request Header Fields Too Large"), (451, "Unavailable For Legal Reasons"),
  (500, "Internal Server Error"), (501, "Not Implemented"), (502, "Bad Gateway"),
  (503, "Service Unavailable"), (504, "Gateway Timeout"), (505, "HTTP Version Not Supported"),
  (506, "Variant Also Negotiates"), (507, "Insufficient Storage"), (508, "Loop Detected"),
  (510, "Not Extended"), (511, "Network Authentication Required")]

/-- The phrase that belongs to a code, whatever a server writes next to it. -/
def phrase (code : Nat) : String := (phrases.lookup code).getD "<unknown status code>"

/-- Codes whose answers send the client elsewhere, if they say where. -/
def isRedirect (code : Nat) : Bool := [301, 302, 303, 307, 308].contains code

/-- Answers with these codes have no body, whatever they announce. -/
def isBodiless (code : Nat) : Bool := code < 200 || code == 204 || code == 304

/-- What a server sends: `announced` is the length of the body that it promises. -/
structure Reply where
  status : Nat
  headers : List (String × Bytes)
  announced : Nat
  body : Bytes
  deriving DecidableEq, Repr

namespace Reply

def header? (r : Reply) (name : String) : Option Bytes :=
  (r.headers.find? fun h => h.1.toLower = name).map (·.2)

def response (r : Reply) : Response where
  status := r.status
  reason := phrase r.status
  body :=
    if isBodiless r.status then some []
    else if r.body.length < r.announced then none
    else some (r.body.take r.announced)

/-- Where an answer sends the client. -/
def next? (r : Reply) (url : Url) : Option Url :=
  if isRedirect r.status then
    ((r.header? "location").bind Bytes.toText?).bind url.resolve
  else none

end Reply

/-- What answers at an address, if anything does. -/
abbrev Servers := Url → Option Reply

def maxRedirects : Nat := 10

def follow (servers : Servers) (first : Url) : Nat → Url → Exchange
  | left, url =>
    match servers url with
    | none => ⟨[], .error (.noResponse first.text)⟩
    | some reply =>
      let request := s!"GET {url.target}"
      match left, reply.next? url with
      | _, none => ⟨[request], .ok reply.response⟩
      | 0, some _ => ⟨[request], .error (.tooManyRedirects first.text)⟩
      | n + 1, some next =>
        if Url.isWeb next.scheme then
          let rest := follow servers first n next
          ⟨request :: rest.requests, rest.answer⟩
        else ⟨[request], .error (.badScheme next.text)⟩

/-- Everything that asking for a text as an address leads to. -/
def exchange (servers : Servers) (address : String) : Exchange :=
  match Url.parse address with
  | .error cause => ⟨[], .error cause⟩
  | .ok url => follow servers url maxRedirects url

end PinnedDeps.Http
