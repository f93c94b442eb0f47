import RtpBroker.Text.Digits

/-!
# Request targets

What a client asks for: a path with an optional query, the same after a scheme
and an authority, an authority alone, or an asterisk. Routing sees the path
only. Its segments may hold bytes as a percent sign and two digits.
-/

namespace RtpBroker.Http

/-- A request method is a token. -/
def isTokenChar (c : Char) : Bool :=
  ('a' ≤ c && c ≤ 'z') || ('A' ≤ c && c ≤ 'Z') || Text.isDigit c || "!#$%&'*+-.^_`|~".toList.contains c

def isMethod (s : String) : Bool := !s.isEmpty && s.toList.all isTokenChar

namespace Target

def longest : Nat := 65534

def isPathChar (c : Char) : Bool :=
  let n := c.toNat
  n == 0x21 || n == 0x22 || (0x24 ≤ n && n ≤ 0x3B) || n == 0x3D || (0x40 ≤ n && n ≤ 0x5F) ||
    (0x61 ≤ n && n ≤ 0x7E) || 0x7F ≤ n

def isQueryChar (c : Char) : Bool :=
  let n := c.toNat
  n == 0x21 || (0x24 ≤ n && n ≤ 0x3B) || n == 0x3D || 0x3F ≤ n

/-- The path before a query or a fragment, if all of them have characters of theirs. -/
def pathOf? (cs : List Char) : Option String :=
  let path := cs.takeWhile fun c => c != '?' && c != '#'
  let rest := cs.dropWhile fun c => c != '?' && c != '#'
  let query := match rest with
    | '?' :: q => q.takeWhile (· != '#')
    | _ => []
  if path.all isPathChar && query.all isQueryChar then some (String.ofList path) else none

/-! ## Authorities -/

def isAuthorityChar (c : Char) : Bool :=
  ('a' ≤ c && c ≤ 'z') || ('A' ≤ c && c ≤ 'Z') || Text.isDigit c ||
    "!$&'()*+,-.:;=@[]_~%".toList.contains c

/-- What has been seen of an authority since its user information. -/
structure AuthorityScan where
  colons : Nat := 0
  opened : Bool := false
  closed : Bool := false
  percent : Bool := false
  afterAt : Bool := false

def scanAuthority : AuthorityScan → List Char → Option AuthorityScan
  | s, [] => some s
  | s, c :: cs =>
    if !isAuthorityChar c then none
    else if c = ':' then
      if 8 ≤ s.colons then none
      else scanAuthority { s with colons := s.colons + 1, afterAt := false } cs
    else if c = '[' then
      if s.percent || s.opened then none
      else scanAuthority { s with opened := true, afterAt := false } cs
    else if c = ']' then
      if !s.opened || s.closed then none
      else scanAuthority { s with closed := true, colons := 0, percent := false, afterAt := false } cs
    else if c = '@' then
      scanAuthority { s with colons := 0, percent := false, afterAt := true } cs
    else scanAuthority { s with percent := s.percent || c == '%', afterAt := false } cs

def isAuthority (cs : List Char) : Bool :=
  match scanAuthority {} cs with
  | some s => s.opened == s.closed && s.colons ≤ 1 && !s.afterAt && !s.percent
  | none => false

def isSchemeChar (c : Char) : Bool :=
  ('a' ≤ c && c ≤ 'z') || ('A' ≤ c && c ≤ 'Z') || Text.isDigit c || c == '+' || c == '-' || c == '.'

/-- The text after a scheme, none if there is no scheme; a scheme has at most 64 characters. -/
def afterScheme? (cs : List Char) : Option (Option (List Char)) :=
  let scheme := cs.takeWhile isSchemeChar
  match cs.drop scheme.length with
  | ':' :: '/' :: '/' :: rest =>
    if 3 < cs.length then if 64 < scheme.length then none else some (some rest) else some none
  | _ => some none

def isAuthorityEnd (c : Char) : Bool := c == '/' || c == '?' || c == '#'

def path? (s : String) : Option String :=
  let cs := s.toList
  if s.isEmpty ∨ longest < s.utf8ByteSize then none
  else if s = "*" then some "*"
  else if cs.head? = some '/' then pathOf? cs
  else
    match afterScheme? cs with
    | none => none
    | some none => if isAuthority cs then some "" else none
    | some (some rest) =>
      let authority := rest.takeWhile fun c => !isAuthorityEnd c
      if authority.isEmpty || !isAuthority authority then none
      else (pathOf? (rest.drop authority.length)).map fun p => if p = "" then "/" else p

end Target

/-! ## Percent signs -/

def utf8 (c : Char) : List UInt8 := (String.singleton c).toUTF8.data.toList

def percentDecode : List Char → List UInt8
  | '%' :: a :: b :: rest =>
    match Text.hexValue? a, Text.hexValue? b with
    | some x, some y => UInt8.ofNat (x * 16 + y) :: percentDecode rest
    | _, _ => utf8 '%' ++ percentDecode (a :: b :: rest)
  | c :: rest => utf8 c ++ percentDecode rest
  | [] => []

/-- A segment as text, if its bytes are text. -/
def segmentText? (s : String) : Option String :=
  String.fromUTF8? (ByteArray.mk (percentDecode s.toList).toArray)

end RtpBroker.Http
