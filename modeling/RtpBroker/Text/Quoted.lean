import RtpBroker.Text.Digits
import RtpBroker.Text.Hidden

/-!
# Quoted texts

A text between double quotes on one line: quotes, backslashes and the common
controls are written with a backslash, every other hidden character by its code
point in braces.
-/

namespace RtpBroker.Text

def quoteChar (c : Char) : List Char :=
  match c with
  | '\x00' => ['\\', '0']
  | '\t' => ['\\', 't']
  | '\r' => ['\\', 'r']
  | '\n' => ['\\', 'n']
  | '"' => ['\\', '"']
  | '\\' => ['\\', '\\']
  | c =>
    if isHidden c then '\\' :: 'u' :: '\x7b' :: (Nat.toDigits 16 c.toNat ++ ['\x7d'])
    else [c]

def quoteChars (cs : List Char) : List Char := '"' :: (cs.flatMap quoteChar ++ ['"'])

def quote (s : String) : String := String.ofList (quoteChars s.toList)

end RtpBroker.Text
