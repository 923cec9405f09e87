/-!
# Addresses of resources

The address of a resource over a network names a scheme, an authority, a path and a query. A
fragment is allowed and dropped, since it is never sent. Which characters may stand where is decided
part by part: the authority takes a narrow set, and the path and the query also take characters that
should have been escaped.

An address may also be a bare authority, a bare path, or a star. Those have no scheme.

## Main definitions

* `Uri`: An address in its parts.
* `Uri.parse?`: Reads an address.
* `Uri.target`: The path and the query, as a request for the resource names it.
-/

namespace ForwardAuth

/-- The scheme of an address. -/
inductive Uri.Scheme where
  | http
  | https
  | other (name : List Char)
  deriving DecidableEq, Repr

/-- The address of a resource. -/
structure Uri where
  scheme : Option Uri.Scheme
  authority : List Char
  path : List Char
  query : Option (List Char)
  deriving DecidableEq, Repr

namespace Uri

/-- An address has at most this many bytes. -/
def maxLength : Nat := 65534

/-- The name of a scheme has at most this many characters. -/
def maxSchemeLength : Nat := 64

/-- The character may stand in the name of a scheme. -/
def isSchemeChar (c : Char) : Bool :=
  c.isAlphanum || c == '+' || c == '-' || c == '.' || c == '~'

/-- The authority ends before such a character. -/
def endsAuthority (c : Char) : Bool :=
  c == '/' || c == '?' || c == '#'

/-- The character may stand in an authority. A percent sign may only in some places. -/
def isAuthorityChar (c : Char) : Bool :=
  c.isAlphanum || "!$&'()*+,-.:;=@[]_~%".toList.contains c

/-- The character may stand in a path. -/
def isPathChar (c : Char) : Bool :=
  let n := c.toNat
  n == 0x21 || (0x24 ≤ n && n ≤ 0x3B) || n == 0x3D || (0x40 ≤ n && n ≤ 0x5F) ||
    (0x61 ≤ n && n ≤ 0x7E) || 0x80 ≤ n || n == 0x22

/-- The character may stand in a query. -/
def isQueryChar (c : Char) : Bool :=
  let n := c.toNat
  n == 0x21 || (0x24 ≤ n && n ≤ 0x3B) || n == 0x3D || (0x3F ≤ n && n ≤ 0x7E) || 0x80 ≤ n

/-- What has been seen of an authority since its last mark that makes a difference. -/
structure Seen where
  /-- The colons since the last `@` or bracket. -/
  colons : Nat
  opened : Bool
  closed : Bool
  /-- A percent sign since the last `@` or closing bracket. -/
  percent : Bool
  /-- The last character was `@`. -/
  atEnd : Bool
  deriving DecidableEq, Repr

/-- An authority has at most this many colons in a row of groups. -/
def maxColons : Nat := 8

/-- What has been seen after one more character, if that may stand there. -/
def Seen.step (s : Seen) (c : Char) : Option Seen :=
  if c = ':' then
    if s.colons ≥ maxColons then none else some { s with colons := s.colons + 1, atEnd := false }
  else if c = '[' then
    if s.percent || s.opened then none else some { s with opened := true, atEnd := false }
  else if c = ']' then
    if !s.opened || s.closed then none
    else some { s with closed := true, colons := 0, percent := false, atEnd := false }
  else if c = '@' then some { s with colons := 0, percent := false, atEnd := true }
  else if c = '%' then some { s with percent := true, atEnd := false }
  else if isAuthorityChar c then some { s with atEnd := false }
  else none

/-- An authority may end here: its brackets are closed, what follows the last `@` has at most one
    colon and no percent sign, and something follows it. -/
def Seen.isComplete (s : Seen) : Bool :=
  s.opened == s.closed && s.colons ≤ 1 && !s.atEnd && !s.percent

/-- The text is an authority, which may be empty. -/
def isAuthority (cs : List Char) : Bool :=
  (cs.foldlM Seen.step ⟨0, false, false, false, false⟩).any Seen.isComplete

/-- Splits off the authority that a text begins with. -/
def splitAuthority? (cs : List Char) : Option (List Char × List Char) :=
  let authority := cs.takeWhile fun c => !endsAuthority c
  if isAuthority authority then some (authority, cs.dropWhile fun c => !endsAuthority c) else none

/-- The text begins with the word, in any case of its letters. -/
def beginsWith (word cs : List Char) : Bool :=
  word.isPrefixOf ((cs.take word.length).map Char.toLower)

/-- Splits off the scheme that a text begins with. `none` refuses the text. -/
def splitScheme? (cs : List Char) : Option (Option Scheme × List Char) :=
  if beginsWith "http://".toList cs then some (some .http, cs.drop 7)
  else if beginsWith "https://".toList cs then some (some .https, cs.drop 8)
  else
    let name := cs.takeWhile isSchemeChar
    let rest := cs.drop name.length
    if cs.length > 3 ∧ "://".toList.isPrefixOf rest then
      if name.length > maxSchemeLength then none else some (some (.other name), rest.drop 3)
    else some (none, cs)

/-- Reads a path and a query. What follows the first `#` is a fragment. -/
def splitQuery? (cs : List Char) : Option (List Char × Option (List Char)) :=
  let sent := cs.takeWhile (· ≠ '#')
  let path := sent.takeWhile (· ≠ '?')
  if path.all isPathChar then
    match sent.drop path.length with
    | [] => some (path, none)
    | _ :: query => if query.all isQueryChar then some (path, some query) else none
  else none

/-- Reads an address with a scheme, or an authority alone. -/
def parseFull? (cs : List Char) : Option Uri := do
  let (scheme, rest) ← splitScheme? cs
  let (authority, rest) ← splitAuthority? rest
  match scheme with
  | none =>
    guard rest.isEmpty
    return ⟨none, authority, [], none⟩
  | some scheme =>
    guard (!authority.isEmpty)
    let (path, query) ← splitQuery? rest
    return ⟨some scheme, authority, path, query⟩

/-- Reads an address. -/
def parse? (s : String) : Option Uri :=
  if s.utf8ByteSize > maxLength then none
  else
    match s.toList with
    | [] => none
    | ['*'] => some ⟨none, [], ['*'], none⟩
    | '/' :: cs => (splitQuery? ('/' :: cs)).map fun (path, query) => ⟨none, [], path, query⟩
    | cs => parseFull? cs

/-- The path and the query, as a request for the resource names it. An empty path is the root. -/
def target (u : Uri) : String :=
  String.ofList ((if u.path.isEmpty then ['/'] else u.path) ++
    u.query.elim [] fun query => '?' :: query)

end Uri

end ForwardAuth
