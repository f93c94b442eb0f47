/-!
# Splitting

The parts of a text between the places where it has some character; a text that
does not have it is its only part.
-/

namespace RtpBroker.Text

def splitChars (c : Char) : List Char → List (List Char)
  | [] => [[]]
  | d :: cs =>
    if d = c then [] :: splitChars c cs
    else match splitChars c cs with
      | part :: parts => (d :: part) :: parts
      | [] => [[d]]

def split (c : Char) (s : String) : List String := (splitChars c s.toList).map String.ofList

end RtpBroker.Text
