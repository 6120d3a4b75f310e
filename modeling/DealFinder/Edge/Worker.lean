/-
# The edge worker

The worker in front of the backend: where a request goes, what is sent to the backend,
and what of an answer may be cached under which key. Header names are in lower case. A
request comes with its URL parsed.
-/

import DealFinder.Math.Dict
import DealFinder.Math.PercentCoding
import Mathlib.Data.List.Infix

namespace DealFinder.Edge

open DealFinder.Math

/-! ## The platform -/

/-- The case conversion of the language. On ASCII text it is that of ASCII. -/
structure CaseMap where
  toLowerCase : String → String
  ascii : ∀ s, (∀ c ∈ s.toList, c.toNat < 128) →
    toLowerCase s = String.ofList (s.toList.map Char.toLower)

/-- Headers, by name. -/
abbrev Headers := Dict String String

/-- A parsed URL. An origin has no query. -/
structure Url where
  origin : String
  pathname : String
  search : String
  searchParams : List (String × String)
  plain : '?' ∉ origin.toList

/-- A request. -/
structure Request where
  method : String
  url : Url
  headers : Headers
  body : Option String

/-- A response. -/
structure Response where
  status : ℕ
  headers : Headers
  body : String
  deriving DecidableEq

/-- White space around the value of a header. -/
def isHttpWhite (c : Char) : Bool := [9, 10, 13, 32].contains c.toNat

/-- The value that `Headers.set` keeps of a text. -/
def headerValue (text : String) : String :=
  String.ofList ((text.toList.dropWhile isHttpWhite).reverse.dropWhile isHttpWhite).reverse

/-- A text that `Headers.set` takes: its characters are bytes, and the value that is kept of it has
none that ends a text or a line. -/
structure HeaderText where
  text : String
  bytes : ∀ c ∈ text.toList, c.toNat < 256
  unbroken : ∀ c ∈ (headerValue text).toList, c ∉ ['\x00', '\n', '\r']

/-- The bindings of the worker: which limiters it has, and its settings. With a secret that
`Headers.set` does not take, `proxy` throws before it fetches, so nothing is forwarded. -/
structure Env where
  askLimiter : Bool
  streamLimiter : Bool
  backendOrigin : String
  launched : Option String
  edgeSharedSecret : HeaderText

/-- What `X-DealFinder-Edge` brings of the secret. -/
def Env.edgeHeader (env : Env) : String := headerValue env.edgeSharedSecret.text

/-- `searchParams.get`. -/
def Url.param (url : Url) (name : String) : Option String :=
  (url.searchParams.find? fun param => param.1 = name).map Prod.snd

/-- The characters of `\s`, which `trim` removes too. -/
def isWhite (c : Char) : Bool :=
  (8192 ≤ c.toNat && c.toNat ≤ 8202) ||
    [9, 10, 11, 12, 13, 32, 160, 5760, 8232, 8233, 8239, 8287, 12288, 65279].contains c.toNat

/-- `trim`. -/
def trim (s : String) : String :=
  String.ofList ((s.toList.dropWhile isWhite).reverse.dropWhile isWhite).reverse

/-- `replace(/\s+/g, ' ')`, inside a run of white space or not. -/
def collapseChars : Bool → List Char → List Char
  | _, [] => []
  | inside, c :: rest =>
      if isWhite c then
        if inside then collapseChars true rest else ' ' :: collapseChars true rest
      else c :: collapseChars false rest

/-- `replace(/\s+/g, ' ')`. -/
def collapse (s : String) : String := String.ofList (collapseChars false s.toList)

/-- How a form spells one byte. -/
def formByte (b : UInt8) : List Char :=
  if b = 32 then ['+']
  else if (48 ≤ b && b ≤ 57) || (65 ≤ b && b ≤ 90) || (97 ≤ b && b ≤ 122) ||
      [42, 45, 46, 95].contains b then [Char.ofNat b.toNat]
  else ['%', hexDigit (b.toNat / 16), hexDigit (b.toNat % 16)]

/-- A value of `URLSearchParams.toString`. -/
def formEncode (s : String) : String :=
  String.ofList (s.toByteArray.data.toList.flatMap formByte)

/-- `includes`. -/
def includes (s part : String) : Bool := decide (part.toList <:+: s.toList)

/-- `startsWith`. -/
def startsWith (s part : String) : Bool := decide (part.toList <+: s.toList)

/-! ## Routes -/

inductive Route
  | api
  | lab
  | assets
  deriving DecidableEq

/-- `routeOf`. -/
def routeOf (pathname : String) : Route :=
  if pathname = "/api" || startsWith pathname "/api/" then .api
  else if pathname = "/lab" || startsWith pathname "/lab/" then .lab
  else .assets

/-- `UNSAFE_PATH.test`. -/
def isUnsafePath (pathname : String) : Bool :=
  includes pathname "%" || includes pathname "//" || includes pathname "\\"

/-- `ASK_PATHS`. -/
def askPaths : List String := ["/api/ask", "/api/ask_agentic", "/api/review"]

/-- `STREAM_PATH`. -/
def streamPath : String := "/api/search/stream"

/-! ## Responses of the worker's own -/

/-- `json({ detail }, status, headers)`. -/
def json (detail : String) (status : ℕ) (headers : Headers) : Response where
  status := status
  headers := (Dict.empty.set "content-type" "application/json").update headers
  body := "\x7b\"detail\":\"" ++ detail ++ "\"\x7d"

/-- `withSiteHeaders`. -/
def withSiteHeaders (env : Env) (res : Response) : Response :=
  let headers := (res.headers.set "x-content-type-options" "nosniff").set "referrer-policy"
    "strict-origin-when-cross-origin"
  { res with
    headers :=
      if env.launched ≠ some "true" then headers.set "x-robots-tag" "noindex" else headers }

/-- A limiter's refusal. -/
def slowDown (retryAfter : String) : Response :=
  json "slow down" 429 (Dict.empty.set "retry-after" retryAfter)

/-- The limiter that a path of the API has to pass, by the `Retry-After` of its refusal. -/
def limiterOf (env : Env) (pathname : String) : Option String :=
  if pathname ∈ askPaths then if env.askLimiter then some "60" else none
  else if pathname = streamPath then if env.streamLimiter then some "10" else none
  else none

/-! ## The proxy -/

/-- What is sent to the backend. -/
structure Sent where
  origin : String
  method : String
  path : String
  search : String
  headers : Headers
  body : Option String

/-- What `proxy` sends. The origin of its target is always the backend's. -/
def sentOf (env : Env) (request : Request) (backendPath search : String) : Sent where
  origin := env.backendOrigin
  method := request.method
  path := backendPath
  search := search
  headers :=
    let headers := (request.headers.eraseAll ["host"]).set "x-dealfinder-edge" env.edgeHeader
    match request.headers.get? "cf-connecting-ip" with
    | some ip => if ip ≠ "" then headers.set "cf-connecting-ip" ip else headers
    | none => headers
  body := if request.method ≠ "GET" ∧ request.method ≠ "HEAD" then request.body else none

/-- What `proxy` returns of the backend's answer, where none is an exception. -/
def proxied (outcome : Option Response) : Response :=
  match outcome with
  | none => json "backend unavailable" 503 .empty
  | some res => if 500 ≤ res.status then json "backend unavailable" 503 .empty else res

/-! ## The cache -/

/-- `SEARCH_TTL_S`. -/
def searchTtlS : ℕ := 300

section Cache

variable (caseMap : CaseMap)

/-- `searchQuery`. -/
def searchQuery (url : Url) : String :=
  let q := collapse (caseMap.toLowerCase (trim ((url.param "q").getD "")))
  let k := (url.param "k").getD "12"
  "?" ++ "k=" ++ formEncode k ++ "&q=" ++ formEncode q

/-- `searchCacheKey`. -/
def searchCacheKey (url : Url) : Option String :=
  if url.pathname ≠ "/api/search" then none
  else some (url.origin ++ "/api/search" ++ searchQuery caseMap url)

/-- The key of a request that may be answered from the cache: an anonymous search. -/
def cacheKey (request : Request) : Option String :=
  match searchCacheKey caseMap request.url with
  | none => none
  | some key =>
      if request.method ≠ "GET" || decide ("authorization" ∈ request.headers) then none
      else some key

/-- `shareable`. -/
def shareable (res : Response) : Bool :=
  let cc := caseMap.toLowerCase ((res.headers.get? "cache-control").getD "")
  res.status = 200 && !includes cc "no-store" && !includes cc "private"

end Cache

/-- A response with the `X-DealFinder-Cache` header. -/
def marked (mark : String) (res : Response) : Response :=
  { res with headers := res.headers.set "x-dealfinder-cache" mark }

/-- What is put in the cache. -/
def storedOf (res : Response) : Response :=
  { res with
    headers := res.headers.set "cache-control" ("public, s-maxage=" ++ toString searchTtlS) }

/-! ## The backend's search -/

/-- The `Cache-Control` of `serve.search`. -/
def searchCacheControl (authorization degraded : Bool) : String :=
  if authorization then "private, no-store"
  else if degraded then "no-store"
  else "public, max-age=300"

end DealFinder.Edge
