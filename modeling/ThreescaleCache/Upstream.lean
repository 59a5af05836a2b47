import ThreescaleCache.Host

namespace ThreescaleCache

def defaultTimeoutMs : UInt64 := 1000

/-- `Builder::build`: any specified path is considered a directory in which
to further mount paths. -/
def Upstream.build (url : Url) (name : Str) (timeout : Option UInt64) : Upstream where
  name := name
  url := if ['/'].isSuffixOf url.path then url else { url with path := url.path ++ ['/'] }
  timeout := .fromMillis (timeout.getD defaultTimeoutMs)

/-- The `:path` that `Upstream::call` sends for a path argument. -/
def Upstream.callPath (upstream : Upstream) (path : Str) : Str :=
  let full := upstream.url.path ++ path.dropWhile (· = '/')
  match upstream.url.query with
  | none => full
  | some query => (if '?' ∈ full then full else full ++ ['?']) ++ query

def Upstream.call (upstream : Upstream) (path method : Str) (headers : List (Str × Str))
    (body : Option Str) : HostProg (Except Status Nat) :=
  dispatchHttpCall
    { cluster := upstream.name
      headers :=
        [(":authority".toList, upstream.url.authority), (":scheme".toList, upstream.url.scheme),
          (":method".toList, method), (":path".toList, upstream.callPath path)] ++ headers
      body := body
      timeout := upstream.timeout }

/-- The credential of an application, as the API call is built with it. -/
inductive Credential where
  | userKey (key : Str)
  | appId (id : Str)
  | appIdAndKey (id key : Str)
deriving DecidableEq

/-- What the builder of the `threescalers` crate is given for an authorize
call: the extensions are always the hierarchy and the list of app keys. -/
structure AuthorizeCall where
  serviceToken : Str
  serviceId : Str
  application : Credential
  usage : List (Str × Str)
deriving DecidableEq

structure HttpRequest where
  method : Str
  uri : Str
  headers : List (Str × Str)
  body : Option Str
deriving DecidableEq

/-- The functions of other crates that the filter uses on its inputs. -/
structure ThirdParty where
  buildApiCall : AuthorizeCall → Option HttpRequest
  parseUrl : Str → Option Url
  hasAuthority : Url → Bool
  parseUsages : Str → Option Metrics

def parseDigits (digits : Str) : Option UInt64 :=
  let number := digits.foldl (fun n c => 10 * n + (c.toNat - '0'.toNat)) 0
  if digits.isEmpty || !digits.all Char.isDigit || 2 ^ 64 ≤ number then none
  else some (UInt64.ofNat number)

/-- `str::parse::<u64>`: an optional plus sign and decimal digits. -/
def parseU64 : Str → Option UInt64
  | '+' :: rest => parseDigits rest
  | s => parseDigits s

end ThreescaleCache
