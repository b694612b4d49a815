import WebUiBoot.Boot.Bootnext

/-!
# The HTTP end point: model

`src/web.rs`: responses, and what is answered to a chunk of bytes that is taken for a request.

* `Response` — a response and its serialisation;
* `Httparse` — the parser of requests, by the number of headers that it has room for;
* `handleHttpRequest` — the answer, with the selection of a system when there is one.
-/

namespace WebUiBoot.Web

open WebUiBoot.Text WebUiBoot.Boot

inductive BootSelection
  | windows
  | linux
  deriving DecidableEq

/-! ### Responses -/

structure Response where
  statusCode : UInt16
  statusText : Str
  headers : List (Str × Str)
  body : Bytes

def Response.new (statusCode : UInt16) (statusText : Str) : Response :=
  ⟨statusCode, statusText, [], []⟩

def Response.header (r : Response) (name value : Str) : Response :=
  { r with headers := r.headers ++ [(name, value)] }

def Response.withBody (r : Response) (body : Bytes) (contentType : Str) : Response :=
  (({ r with body := body } : Response).header "Content-Type".toList contentType).header
    "Content-Length".toList (toString body.length).toList

def Response.serialize (r : Response) : Str :=
  "HTTP/1.1 ".toList ++ (toString r.statusCode.toNat).toList ++ [' '] ++ r.statusText ++ "\r\n".toList
    ++ r.headers.flatMap (fun h => h.1 ++ ": ".toList ++ h.2 ++ "\r\n".toList)
    ++ "\r\n".toList ++ (if r.body = [] then [] else (decodeUtf8 r.body).getD [])

/-! ### Requests -/

/-- What `Request::parse` leaves behind: `ok` when it has returned `Ok`, for a complete head or for
the beginning of one. -/
structure Parsed where
  ok : Bool
  method : Option Str
  path : Option Str

/-- The parser, by the number of headers that it is given room for. -/
abbrev Httparse := ℕ → Bytes → Parsed

def respondOk (body : Bytes) (contentType : String) : Str :=
  (((Response.new 200 "OK".toList).header "Connection".toList "close".toList).withBody body
    contentType.toList).serialize

def respondNotFound : Str :=
  ((Response.new 404 "NOT FOUND".toList).header "Connection".toList "close".toList).serialize

/-- `htmlUi` is the page that is embedded in the program. -/
def handleHttpRequest (httparse : Httparse) (htmlUi : Str) (request : Bytes) :
    Option (Str × Option BootSelection) :=
  let req := httparse 16 request
  if !req.ok then none
  else
    match req.path, req.method with
    | some path, some method =>
        if method = "GET".toList ∧ (path = "/".toList ∨ path = "/index.html".toList) then
          some (respondOk (encodeUtf8 htmlUi) "text/html", none)
        else if method = "POST".toList ∧ path = "/boot/windows".toList then
          some (respondOk (encodeUtf8 "OK".toList) "text/plain", some .windows)
        else if method = "POST".toList ∧ path = "/boot/linux".toList then
          some (respondOk (encodeUtf8 "OK".toList) "text/plain", some .linux)
        else some (respondNotFound, none)
    | _, _ => none

/-- What is parsed as a path stands between two spaces: it is filled in when it is complete, after
the method. -/
def PathDelimited (httparse : Httparse) : Prop :=
  ∀ n request path, (httparse n request).path = some path →
    ∃ front back, request = front ++ 32 :: (encodeUtf8 path ++ 32 :: back)

/-- A request with a path is two bytes long at least. -/
theorem two_le_of_answered {httparse : Httparse} (h : PathDelimited httparse) {htmlUi : Str}
    {request : Bytes} (hanswered : handleHttpRequest httparse htmlUi request ≠ none) :
    2 ≤ request.length := by
  unfold handleHttpRequest at hanswered
  cases hpath : (httparse 16 request).path with
  | none => simp [hpath] at hanswered
  | some path =>
      obtain ⟨front, back, hrequest⟩ := h 16 request path hpath
      rw [hrequest]
      simp only [List.length_append, List.length_cons]
      omega

end WebUiBoot.Web
