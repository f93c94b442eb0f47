import RtpBroker.Text.Digits

/-!
# Universally unique identifiers

128 bits, written as 32 hexadecimal digits in groups of 8, 4, 4, 4 and 12. Four
spellings are read: with hyphens, without, in braces, and as a URN.
-/

namespace RtpBroker

structure Uuid where
  bits : BitVec 128
  deriving DecidableEq, Repr

namespace Uuid

instance : Inhabited Uuid := ⟨⟨0⟩⟩

/-- The 32 digits, most significant first. -/
def digits (u : Uuid) : List Char :=
  (List.range 32).map fun i => Text.hexDigit (u.bits.toNat / Nat.pow 16 (31 - i) % 16)

def chars (u : Uuid) : List Char :=
  let ds := u.digits
  ds.take 8 ++ '-' :: (ds.drop 8).take 4 ++ '-' :: (ds.drop 12).take 4 ++
    '-' :: (ds.drop 16).take 4 ++ '-' :: ds.drop 20

def text (u : Uuid) : String := String.ofList u.chars

def ofDigits? (cs : List Char) : Option Uuid := do
  let vs ← cs.mapM Text.hexValue?
  if vs.length = 32 then some ⟨BitVec.ofNat 128 (vs.foldl (fun acc v => acc * 16 + v) 0)⟩
  else none

/-- Takes the hyphens out of the grouped form. -/
def ofGrouped? (cs : List Char) : Option Uuid :=
  if cs.length = 36 ∧ [8, 13, 18, 23].all (fun i => cs[i]? = some '-') then
    ofDigits? (cs.take 8 ++ (cs.drop 9).take 4 ++ (cs.drop 14).take 4 ++ (cs.drop 19).take 4 ++
      cs.drop 24)
  else none

def ofChars? (cs : List Char) : Option Uuid :=
  match cs.length with
  | 32 => ofDigits? cs
  | 36 => ofGrouped? cs
  | 38 => if cs.head? = some '\x7b' ∧ cs.getLast? = some '\x7d' then
      ofGrouped? ((cs.drop 1).take 36) else none
  | 45 => if (cs.take 9).map Char.toLower = "urn:uuid:".toList then ofGrouped? (cs.drop 9)
      else none
  | _ => none

def ofString? (s : String) : Option Uuid := ofChars? s.toList

/-- A random identifier's form: version 4, with the given bits in the free places. -/
def random (seed : BitVec 128) : Uuid :=
  ⟨(seed &&& ~~~(0xF#128 <<< 76) &&& ~~~(0x3#128 <<< 62)) ||| (0x4#128 <<< 76) ||| (0x2#128 <<< 62)⟩

end Uuid

end RtpBroker
