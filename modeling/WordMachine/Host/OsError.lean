/-!
# Failures of the surrounding system

What can go wrong with a file or an output stream, and the text that reports it.
-/

namespace WordMachine

/-- A failure that files and output streams report. -/
inductive OsError where
  | notFound
  | notDirectory
  | isDirectory
  | nameTooLong
  | zeroInName
  | shortRead
  | shortWrite
  | noSpace
  | invalidText
  | refused (reason : String)
  deriving DecidableEq, Repr

/-- The report of a failure. -/
def OsError.message : OsError → String
  | notFound => "No such file or directory (os error 2)"
  | notDirectory => "Not a directory (os error 20)"
  | isDirectory => "Is a directory (os error 21)"
  | nameTooLong => "File name too long (os error 36)"
  | zeroInName => "file name contained an unexpected NUL byte"
  | shortRead => "failed to fill whole buffer"
  | shortWrite => "failed to write whole buffer"
  | noSpace => "No space left on device (os error 28)"
  | invalidText => "stream did not contain valid UTF-8"
  | refused reason => reason

end WordMachine
