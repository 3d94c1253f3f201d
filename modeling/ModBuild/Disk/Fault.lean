/-!
# Faults

Why the file system refuses something, with the text that the system has for it.
-/

namespace ModBuild

inductive Fault
  | notFound
  | alreadyExists
  | notADirectory
  | isADirectory
  | nameTooLong
  | nulInName
  /-- The bytes of a file are no text. -/
  | notText
  /-- Only regular files are copied. -/
  | notAFile
  /-- A folder that a walk cannot list, with the message of the fault behind it. -/
  | unlisted (path cause : String)
  | other (text : String)
  deriving DecidableEq, Repr

namespace Fault

/-- The reason alone. -/
def reason : Fault → String
  | notFound => "No such file or directory"
  | alreadyExists => "File exists"
  | notADirectory => "Not a directory"
  | isADirectory => "Is a directory"
  | nameTooLong => "File name too long"
  | nulInName => "file name contained an unexpected NUL byte"
  | notText => "stream did not contain valid UTF-8"
  | notAFile => "the source path is neither a regular file nor a symlink to a regular file"
  | unlisted path cause => "IO error for operation on " ++ path ++ ": " ++ cause
  | other text => text

/-- The number that the system has for a reason of its own. -/
def number? : Fault → Option String
  | notFound => some "2"
  | alreadyExists => some "17"
  | notADirectory => some "20"
  | isADirectory => some "21"
  | nameTooLong => some "36"
  | _ => none

def message (f : Fault) : String :=
  match f.number? with
  | some number => f.reason ++ " (os error " ++ number ++ ")"
  | none => f.reason

/-- The message and its cause. -/
def chain (f : Fault) : List String :=
  match f with
  | unlisted _ cause => [f.message, cause]
  | _ => [f.message]

end Fault

end ModBuild
