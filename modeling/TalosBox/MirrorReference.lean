import TalosBox.MirrorPaths
import TalosBox.Cutting

/-! Two readings of an image reference: the daemon validates it before a warm, the mirror takes it
apart for the requests. -/
namespace TalosBox.Mirror

open Cutting

/-- `unicode.IsSpace`. -/
def isSpace (c : Char) : Bool :=
  c.toNat ∈ [9,10,11,12,13,32,0x85,0xa0,0x1680,0x2028,0x2029,0x202f,0x205f,0x3000] ||
    (0x2000 ≤ c.toNat && c.toNat ≤ 0x200a)

/-- `strings.TrimSpace`. -/
def trimSpace (s : Text) : Text := (s.dropWhile isSpace).rdropWhile isSpace

/-- `unicode.IsControl`. -/
def isControl (c : Char) : Bool := c.toNat < 32 || (127 ≤ c.toNat && c.toNat < 160)

def isLowerAlphaNumeric (c : Char) : Bool := ('a' ≤ c && c ≤ 'z') || isDigit c
def isAlphaNumeric (c : Char) : Bool := isLetter c || isDigit c
def isTagStart (c : Char) : Bool := isAlphaNumeric c || c = '_'

/-- An address that `net.ParseIP` read: as `String` writes it, and whether it is IPv4. -/
structure Address where
  text : Text
  v4 : Bool
  deriving DecidableEq

/-- What hosts rely on of `unicode.ToLower` and `net.ParseIP`. -/
structure HostLibrary where
  lowerRune : Char → Char
  parseIP : Text → Option Address
  lower_ascii : ∀ c, c.toNat < 128 → lowerRune c = c.toLower
  lower_space : ∀ c, isSpace c → lowerRune c = c
  parseIP_chars : ∀ s ip, parseIP s = some ip → s ≠ [] ∧ ∀ c ∈ s, isHex c ∨ c = '.' ∨ c = ':'
  parseIP_text : ∀ s ip, parseIP s = some ip → parseIP ip.text = some ip

variable (lib : HostLibrary)

inductive WarmRefError
  | required
  | malformed (ref : Text)
  | digest (ref : Text)
  | host (ref : Text)
  | unpinned (ref : Text)
  | latest (ref : Text)
  deriving DecidableEq

/-- One digit of the loop in `isValidWarmPort`, which stops where the port grows too large. -/
def warmPortStep (port : Option ℕ) (c : Char) : Option ℕ :=
  port.bind fun port =>
    let digit := c.toNat-48
    if (65535-digit)/10 < port then none else some (port*10+digit)

def isValidWarmPort (value : Text) : Bool :=
  value ≠ [] && value.all isDigit && (value.foldl warmPortStep (some 0)).any (0 < ·)

def isValidWarmHostLabel (value : Text) : Bool :=
  value ≠ [] && value.length ≤ 63 && value.head? ≠ some '-' && value.getLast? ≠ some '-' &&
    value.all fun c => isAlphaNumeric c || c = '-'

/-- The end of `isValidWarmRegistry`, on a host without port. -/
def isValidWarmHost (host : Text) : Bool :=
  host = "localhost".toList || (host.length ≤ 253 && (host.splitOn '.').all isValidWarmHostLabel)

def isValidWarmRegistry (value : Text) : Bool :=
  match value with
  | '[' :: rest =>
    match cut ']' rest with
    | none => false
    | some (address,port) =>
      if ':' ∉ address ∨ lib.parseIP address = none then false
      else
        match port with
        | [] => true
        | c::port => c = ':' && isValidWarmPort port
  | value =>
    match cutLast ':' value with
    | some (host,port) => host ≠ [] && isValidWarmPort port && isValidWarmHost host
    | none => isValidWarmHost value

-- The loop of `isValidWarmRepositoryComponent` behind the first character: alphanumerics, with
-- separators between them that are hyphens, one dot, or one or two underscores.
mutual

def componentRest : Text → Bool
  | [] => true
  | '-' :: s => componentHyphens s
  | '_' :: '_' :: s => componentPart s
  | c::s => if isLowerAlphaNumeric c then componentRest s else (c = '.' || c = '_') && componentPart s

def componentHyphens : Text → Bool
  | [] => false
  | '-' :: s => componentHyphens s
  | c::s => isLowerAlphaNumeric c && componentRest s

def componentPart : Text → Bool
  | [] => false
  | c::s => isLowerAlphaNumeric c && componentRest s

end

def isValidWarmRepositoryComponent (value : Text) : Bool := componentPart value

def isValidWarmRepository (value : Text) : Bool :=
  value ≠ [] && value.length ≤ 255 && (value.splitOn '/').all isValidWarmRepositoryComponent

def isValidWarmTag (value : Text) : Bool :=
  value ≠ [] && value.length ≤ 128 && value.head?.any isTagStart &&
    value.tail.all fun c => isTagStart c || c = '.' || c = '-'

def isSupportedWarmDigest (value : Text) : Bool :=
  match cut ':' value with
  | none => false
  | some (algorithm,encoded) =>
    encoded ≠ [] && encoded.all isHex &&
      (supportedAlgorithm algorithm).any fun a => encoded.length = a.width

/-- The part of a reference before an `@`, and what stands behind it. -/
def cutDigest (ref : Text) : Text × Option Text :=
  match cut '@' ref with
  | some (name,digest) => (name,some digest)
  | none => (ref,none)

/-- The part of a reference's remainder before the last colon, and what stands behind it. -/
def cutTag (remainder : Text) : Text × Option Text :=
  match cutLast ':' remainder with
  | some (repository,tag) => (repository,some tag)
  | none => (remainder,none)

def validateWarmRef (ref : Text) : Except WarmRefError Unit :=
  let ref := trimSpace ref
  if ref = [] then .error .required
  else if ref.any (fun c => c = '?' || c = '#' || c ≤ ' ') then .error (.malformed ref)
  else if 1 < ref.count '@' then .error (.malformed ref)
  else
    let (name,digest) := cutDigest ref
    if digest.any (fun digest => digest = [] || isSupportedWarmDigest digest = false) then .error (.digest ref)
    else
      match cut '/' name with
      | none => .error (.host ref)
      | some (host,remainder) =>
        if remainder = [] ∨ ('.' ∉ host ∧ ':' ∉ host ∧ host ≠ "localhost".toList) then .error (.host ref)
        else if isValidWarmRegistry lib host = false ∨ name.getLast? = some '/' ∨ remainder.head? = some ':' then
          .error (.malformed ref)
        else
          let (repository,tag) := cutTag remainder
          if isValidWarmRepository repository = false ∨ tag.any (isValidWarmTag · = false) then .error (.malformed ref)
          else if digest = none ∧ tag = none then .error (.unpinned ref)
          else if tag = some "latest".toList then .error (.latest ref)
          else .ok ()

def maxCacheWarmJobs : ℤ := 16

inductive WarmCacheError
  | noRefs
  | jobs (n : ℤ)
  | ref (e : WarmRefError)
  deriving DecidableEq

def refError (ref : Text) : Option WarmRefError :=
  match validateWarmRef lib ref with
  | .error e => some e
  | .ok _ => none

/-- `warmMirrorCache` up to the warm: the references it hands to the mirror. -/
def warmMirrorCache (refs : List Text) (jobs : ℤ) : Except WarmCacheError (List Text) :=
  if refs = [] then .error .noRefs
  else if jobs < 0 ∨ maxCacheWarmJobs < jobs then .error (.jobs jobs)
  else
    match refs.filterMap (refError lib) with
    | e::_ => .error (.ref e)
    | [] => .ok refs

/-- `warmReference` as it is parsed. -/
structure ParsedReference where
  upstream : Text
  repository : Text
  listedRef : Text
  pinnedDigest : Text
  deriving DecidableEq

inductive ParseError
  | pinnedDigest (digest : Text)
  | reference (reference : Text)
  | unsupportedDigest (digest : Text)
  deriving DecidableEq

/-- The name without its tag, and the tag: what is behind a last colon that no slash follows. -/
def splitTag (name : Text) : Text × Text :=
  match cutLast ':' name with
  | some (before,tag) => if '/' ∈ tag ∨ tag = [] then (name,[]) else (before,tag)
  | none => (name,[])

def parseWarmReference (reference : Text) : Except ParseError ParsedReference :=
  let (name,digest) := cutDigest reference
  if digest = some [] then .error (.pinnedDigest [])
  else
    let (nameWithoutTag,tag) := splitTag name
    match cut '/' nameWithoutTag with
    | none => .error (.reference reference)
    | some (host,remainder) =>
      if host = [] ∨ remainder = [] then .error (.reference reference)
      else
        match digest with
        | none => .ok ⟨host,remainder,tag,[]⟩
        | some digest =>
          match canonicalSupportedDigest digest with
          | none => .error (.unsupportedDigest digest)
          | some canonical => .ok ⟨host,remainder,if tag ≠ [] then tag else canonical,canonical⟩

/-- `net.SplitHostPort` on a string that does not begin with a bracket. -/
def splitHostPort (hostport : Text) : Option (Text × Text) :=
  match cutLast ':' hostport with
  | none => none
  | some (host,port) => if ':' ∈ host ∨ '[' ∈ hostport ∨ ']' ∈ hostport then none else some (host,port)

/-- The value of a string of digits. -/
def portNumber (value : Text) : ℕ := value.foldl (fun n c => n*10+(c.toNat-48)) 0

def validatePort (port : Text) : Bool := port ≠ [] && port.all isDigit && 1 ≤ portNumber port && portNumber port ≤ 65535

def splitAuthorityHostPort (raw : Text) : Option (Text × Text) :=
  match raw with
  | '[' :: rest =>
    match cut ']' rest with
    | none => none
    | some (host,[]) => some (host,[])
    | some (host,c::port) => if c = ':' ∧ validatePort port then some (host,port) else none
  | raw =>
    match lib.parseIP raw with
    | some ip => some (ip.text,[])
    | none =>
      match splitHostPort raw with
      | some (host,port) => if validatePort port then some (host,port) else none
      | none => if raw.getLast? = some ':' then none else some (raw,[])

def validDNSLabel (label : Text) : Bool :=
  label ≠ [] && label.length ≤ 63 && label.head? ≠ some '-' && label.getLast? ≠ some '-' &&
    label.all fun c => isLowerAlphaNumeric c || c = '-'

def trimFinalDot (s : Text) : Text := if s.getLast? = some '.' then s.dropLast else s

def canonicalizeAuthorityHost (host : Text) : Option Text :=
  if host = [] ∨ host.any (fun c => c = ' ' || c = '\t' || c = '\r' || c = '\n') then none
  else
    match lib.parseIP host with
    | some ip => some ip.text
    | none =>
      let canonical := trimFinalDot (host.map lib.lowerRune)
      if canonical = [] ∨ "..".toList <:+: canonical ∨ ':' ∈ canonical then none
      else if 253 < canonical.length then none
      else if (canonical.splitOn '.').all validDNSLabel then some canonical
      else none

def joinHostPort (host port : Text) : Text :=
  if ':' ∈ host then '[' :: host ++ "]:".toList++port else host ++ ':' :: port

def canonicalURLHost (host port : Text) : Text :=
  if port ≠ [] then joinHostPort host port
  else if ':' ∈ host then '[' :: host++[']']
  else host

def safeCacheKey (host port : Text) : Text :=
  let suffix := if port = [] then [] else "__port_".toList++port
  match lib.parseIP host with
  | some ip =>
    if ip.v4 then "__ipv4_".toList++host++suffix
    else "__ipv6_".toList++host.map (fun c => if c = ':' then '-' else c)++suffix
  | none => host++suffix

structure UpstreamAuthority where
  cacheKey : Text
  canonicalHost : Text
  canonicalAuthority : Text
  base : Text
  port : Text
  deriving DecidableEq

inductive AuthorityError
  | missing
  | malformed (raw : Text)
  deriving DecidableEq

def parseUpstreamAuthority (raw : Text) : Except AuthorityError UpstreamAuthority :=
  if raw = [] then .error .missing
  else if "://".toList <:+: raw ∨ raw.any (fun c => c = '/' || c = '?' || c = '#' || c = '@') then .error (.malformed raw)
  else
    match splitAuthorityHostPort lib raw with
    | none => .error (.malformed raw)
    | some (host,port) =>
      match canonicalizeAuthorityHost lib host with
      | none => .error (.malformed raw)
      | some canonicalHost =>
        let baseHost := if canonicalHost = "docker.io".toList then "registry-1.docker.io".toList else canonicalHost
        .ok {
          cacheKey := safeCacheKey lib canonicalHost port
          canonicalHost
          canonicalAuthority := if port = [] then canonicalHost else joinHostPort canonicalHost port
          base := "https://".toList++canonicalURLHost baseHost port
          port }

namespace ParsedReference

/-- What the root manifest is asked for by. -/
def requestReference (p : ParsedReference) : Text := if p.pinnedDigest ≠ [] then p.pinnedDigest else p.listedRef

def requestPath (p : ParsedReference) : Text := manifestRequestPath p.repository p.requestReference

end ParsedReference

def validEscapes : Text → Bool
  | [] => true
  | '%' :: a::b::s => isHex a && isHex b && validEscapes s
  | '%' :: _ => false
  | _::s => validEscapes s

/-- `url.ParseRequestURI` on a target that begins with a slash: the path, up to a question mark. -/
def parseRequestURI (target : Text) : Option Text :=
  if target.any (fun c => c.toNat < 32 || c.toNat = 127) then none
  else
    let path := target.takeWhile (· ≠ '?')
    if validEscapes path then some path else none

/-- `http.ParseHTTPVersion`. -/
def isHTTPVersion (proto : Text) : Bool :=
  match proto with
  | ['H','T','T','P','/',major,'.',minor] => isDigit major && isDigit minor
  | _ => false

/-- `httptest.NewRequest`, which panics where this is `none`: the target is read back from a request
line. -/
def newRequest (target : Text) : Option Text :=
  let line := ("GET ".toList++target ++ " HTTP/1.0\r\n\r\n".toList).takeWhile (· ≠ '\n')
  let line := if line.getLast? = some '\r' then line.dropLast else line
  match cut ' ' line with
  | none => none
  | some (_,rest) =>
    match cut ' ' rest with
    | none => none
    | some (uri,proto) => if isHTTPVersion proto then parseRequestURI uri else none

/-- The parsers take it, its parts keep the daemon's grammar, and the manifest can be requested. -/
def Warmable (ref : Text) : Prop :=
  ∃ p authority, parseWarmReference ref = .ok p ∧ parseUpstreamAuthority lib p.upstream = .ok authority ∧
    isValidWarmRepository p.repository ∧
    (p.pinnedDigest = [] ∨ isSupportedWarmDigest p.pinnedDigest) ∧
    (isValidWarmTag p.listedRef ∨ p.listedRef = p.pinnedDigest ∧ p.pinnedDigest ≠ []) ∧
    (∀ c ∈ p.requestPath, isSpace c = false ∧ isControl c = false) ∧
    newRequest p.requestPath = some p.requestPath

end TalosBox.Mirror
