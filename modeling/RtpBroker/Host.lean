import RtpBroker.Text.Quoted
import RtpBroker.Text.Split
import RtpBroker.Uuid

/-!
# The machine

What the broker meets on the machine it runs on: where temporary files go, which
paths exist, and whether the streaming program can be started. An operation that
fails does so with the text of the operating system.
-/

namespace RtpBroker

/-- What a path leads to. -/
inductive PathKind
  | directory
  | file
  | missing
  | throughFile
  | tooLong
  deriving DecidableEq, Repr

structure Host where
  /-- The standard directory for temporary files. -/
  tempDir : String := "/tmp"
  /-- Where a path starts that does not start at the root; empty if paths stay as they are. -/
  workDir : String := ""
  directories : List String := []
  files : List String := []
  /-- Whether a program starts if nothing is wrong with its path. -/
  starts : Bool := true
  /-- Six characters that make the name of a temporary file its own. -/
  tag : Uuid → String := fun _ => "aaaaaa"
  /-- Why the file of a playback cannot be made although its path is good. -/
  fileMishap? : Uuid → Option String := fun _ => none
  /-- Why the program of a playback cannot be started although its path is good. -/
  launchMishap? : Uuid → Option String := fun _ => none
  /-- Whether something outside of its process group keeps the error output of a playback's
  program open when the group is killed. -/
  outlives : Uuid → Bool := fun _ => false

namespace Host

def missingText : String := "No such file or directory (os error 2)"

def deniedText : String := "Permission denied (os error 13)"

def throughFileText : String := "Not a directory (os error 20)"

def tooLongText : String := "File name too long (os error 36)"

/-- The longest name of a file or directory, in bytes. -/
def longestName : Nat := 255

/-- Goes down a path from a place that is known to exist. -/
def walk (h : Host) : PathKind → String → List String → PathKind
  | kind, _, [] => kind
  | kind, here, name :: names =>
    if kind != .directory then .throughFile
    else if name = "" ∨ name = "." then walk h kind here names
    else if longestName < name.utf8ByteSize then .tooLong
    else
      let path := if here = "/" then "/" ++ name else if here = "" then name else here ++ "/" ++ name
      if path ∈ h.directories then walk h .directory path names
      else if path ∈ h.files then walk h .file path names
      else .missing

def kindOf (h : Host) (path : String) : PathKind :=
  if path = "" then .missing
  else if path.startsWith "/" then h.walk .directory "/" ((Text.split '/' path).drop 1)
  else h.walk .directory "" (Text.split '/' path)

def joinPath (dir name : String) : String :=
  if dir.endsWith "/" then dir ++ name else dir ++ "/" ++ name

/-- A path as it is seen from the root. -/
@[irreducible] def absolute (h : Host) (path : String) : String :=
  if path.startsWith "/" ∨ h.workDir = "" then path else joinPath h.workDir path

def hasNul (s : String) : Bool := s.toList.contains (Char.ofNat 0)

/-- What the operating system says when a new file cannot be made. -/
def createText? (h : Host) (path : String) : Option String :=
  if hasNul path then some "file name contained an unexpected NUL byte"
  else
    match h.kindOf (String.intercalate "/" (Text.split '/' path).dropLast) with
    | .missing => some missingText
    | .file => some throughFileText
    | .throughFile => some throughFileText
    | .tooLong => some tooLongText
    | .directory =>
      if longestName < (((Text.split '/' path).getLast?).getD "").utf8ByteSize then some tooLongText
      else none

/-- Why a temporary file cannot be made in a directory, if it cannot. -/
def fileError? (h : Host) (dir name : String) : Option String :=
  let path := joinPath dir name
  (h.createText? path).map fun text => text ++ " at path " ++ Text.quote path

/-- Why a program cannot be started with some arguments, if it cannot. A name without a slash is
searched for, and not found. -/
def launchError? (h : Host) (program : String) (args : List String) : Option String :=
  if hasNul program ∨ args.any hasNul then some "nul byte found in provided data"
  else if h.starts then none
  else if !program.toList.contains '/' then
    some (if longestName < program.utf8ByteSize then tooLongText else missingText)
  else
    match h.kindOf program with
    | .missing => some missingText
    | .throughFile => some throughFileText
    | .tooLong => some tooLongText
    | _ => some deniedText

end Host

end RtpBroker
