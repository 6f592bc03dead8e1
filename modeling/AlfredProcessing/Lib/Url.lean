import AlfredProcessing.Lib.Ip

namespace AlfredProcessing.Lib.Url

open Json Ip

/-- What `urlsplit` finds out about where a URL leads. -/
structure Split where
  scheme : List Char
  netloc : List Char

/-- The text in front of the first `sep`, and the text behind it where there is one. -/
def partition (sep : Char) (s : List Char) : List Char × Option (List Char) :=
  match s.span (· ≠ sep) with
  | (before, []) => (before, none)
  | (before, _ :: behind) => (before, some behind)

def isControlOrSpace (c : Char) : Bool := c.toNat ≤ 32

def schemeChar (c : Char) : Bool := c.isAlphanum || c = '+' || c = '-' || c = '.'

/-- The scheme in lower case, and what is left of the URL. -/
def splitScheme (url : List Char) : List Char × List Char :=
  match partition ':' url with
  | (before, some behind) =>
    if (before.head?.map Char.isAlpha).getD false && before.all schemeChar then
      (before.map Char.toLower, behind)
    else ([], url)
  | (_, none) => ([], url)

def ipvFuture (host : List Char) : Bool :=
  match host with
  | 'v' :: rest =>
    let digits := rest.takeWhile fun c => (hexVal c).isSome
    !digits.isEmpty && (rest.drop digits.length).head? = some '.' &&
      (rest.drop (digits.length + 1)) ≠ []
  | _ => false

/-- A host in brackets is an IPv6 address, or one of a version to come. -/
def bracketedHostOk (host : List Char) : Bool :=
  if host.head? = some 'v' then ipvFuture host
  else
    match ipAddress host with
    | some (.v6 ..) => true
    | _ => false

def bracketsOk (netloc : List Char) : Bool :=
  match netloc.contains '[', netloc.contains ']' with
  | false, false => true
  | true, true =>
    bracketedHostOk (partition ']' ((partition '[' netloc).2.getD [])).1
  | _, _ => false

/-- No character turns into one that ends the host when it is normalised. -/
def netlocOk (nfkc : List Char → List Char) (netloc : List Char) : Bool :=
  let n := netloc.filter fun c => !(['@', ':', '#', '?'].contains c)
  netloc.all (·.toNat < 128) || nfkc n = n ||
    !(nfkc n).any fun c => ['/', '?', '#', '@', ':'].contains c

/-- `urlsplit`, which raises a `ValueError` where this is none. -/
def urlsplit (nfkc : List Char → List Char) (url : List Char) : Option Split :=
  let url := (url.dropWhile isControlOrSpace).filter fun c => !(['\t', '\r', '\n'].contains c)
  let (scheme, rest) := splitScheme url
  let netloc :=
    match rest with
    | '/' :: '/' :: rest => rest.takeWhile fun c => !(['/', '?', '#'].contains c)
    | _ => []
  if bracketsOk netloc && netlocOk nfkc netloc then some ⟨scheme, netloc⟩ else none

/-- What is behind the last `@`. -/
def hostinfo (netloc : List Char) : List Char := (netloc.reverse.takeWhile (· ≠ '@')).reverse

/-- `SplitResult.hostname`. The zone of an address keeps its case. -/
def hostname (lower : List Char → List Char) (s : Split) : List Char :=
  let host :=
    match partition '[' (hostinfo s.netloc) with
    | (_, some bracketed) => (partition ']' bracketed).1
    | (host, none) => (partition ':' host).1
  match partition '%' host with
  | (addr, none) => lower addr
  | (addr, some zone) => lower addr ++ '%' :: zone

end AlfredProcessing.Lib.Url
