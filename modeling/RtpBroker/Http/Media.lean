import RtpBroker.Http.Target

/-!
# Media types

The grammar of a content type, as far as it decides whether a body is JSON: a
type, a subtype that may end in a suffix, and parameters.
-/

namespace RtpBroker.Http.Media

def isQuotedChar (c : Char) : Bool := c == '\t' || (0x20 ≤ c.toNat && c.toNat ≠ 0x7F)

/-- What stands after the quote that ends a parameter. -/
def afterQuoted? (cs : List Char) : Option (List Char) :=
  match (cs.dropWhile isQuotedInner) with
  | '"' :: rest =>
    match rest.dropWhile (· == ' ') with
    | [] => some []
    | ';' :: rest => some rest
    | _ => none
  | _ => none
where
  isQuotedInner (c : Char) : Bool := isQuotedChar c && c != '"'

/-- What stands after the value of a parameter and its semicolon. -/
def afterValue? (cs : List Char) : Option (List Char) :=
  match cs with
  | '"' :: rest => afterQuoted? rest
  | cs =>
    let value := cs.takeWhile isTokenChar
    match cs.drop value.length with
    | [] => some []
    | ';' :: rest => if value.isEmpty then none else some rest
    | _ => none

/-- Parameters are names and values, with blanks before a name. -/
def areParameters : Nat → List Char → Bool
  | 0, _ => false
  | fuel + 1, cs =>
    match cs with
    | [] => true
    | ' ' :: rest => areParameters fuel rest
    | cs =>
      let name := cs.takeWhile isTokenChar
      match cs.drop name.length with
      | '=' :: rest =>
        if name.isEmpty then false
        else match afterValue? rest with
          | some rest => areParameters fuel rest
          | none => false
      | _ => false

/-- The type and the subtype in lower case, if the text is a media type. -/
def types? (s : String) : Option (String × String) :=
  let cs := s.toList
  let top := cs.takeWhile isTokenChar
  match cs.drop top.length with
  | '/' :: rest =>
    let sub := rest.takeWhile isTokenChar
    let parameters := match rest.drop sub.length with
      | [] => true
      | ';' :: ps => !sub.isEmpty && areParameters (ps.length + 1) ps
      | _ => false
    if top.isEmpty || !parameters then none
    else some (String.ofList (top.map Char.toLower), String.ofList (sub.map Char.toLower))
  | _ => none

/-- A subtype before its last plus sign, and the suffix after it. -/
def splitSuffix (sub : String) : String × Option String :=
  let cs := sub.toList
  let suffix := cs.reverse.takeWhile (· != '+')
  if suffix.length + 1 < cs.length then
    (String.ofList (cs.take (cs.length - suffix.length - 1)), some (String.ofList suffix.reverse))
  else (sub, none)

def isJson (contentType : String) : Bool :=
  contentType.toList.all (fun c => c == '\t' || (0x20 ≤ c.toNat && c.toNat < 0x7F)) &&
    match types? contentType with
    | some ("application", sub) =>
      let (base, suffix) := splitSuffix sub
      base == "json" || suffix == some "json"
    | _ => false

/-- Whether a text can be the value of a header: no control but the tab. -/
def isHeaderValue (s : String) : Bool := s.toList.all isQuotedChar

end RtpBroker.Http.Media
