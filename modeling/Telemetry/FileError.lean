/-!
# Faults of files

Why a file cannot be read or written.
-/

namespace Telemetry

/-- A fault of a file or directory. -/
inductive FileError where
  /-- There is no such file or directory. -/
  | missing
  /-- Something that is no directory stands where one is needed. -/
  | notADirectory
  /-- A directory stands where a file is needed. -/
  | isADirectory
  /-- Something with this name is there already. -/
  | alreadyThere
  /-- A name or a path is too long. -/
  | nameTooLong
  /-- A path has a zero character, which ends paths. -/
  | zeroInPath
  /-- The file ends before what is to be read. -/
  | tooShort
  /-- The file is no UTF-8 text. -/
  | notText
  /-- Another fault, in the words of the system. -/
  | other (description : String)
deriving DecidableEq

/-- How a fault of a file is reported. -/
def FileError.message : FileError → String
  | missing => "No such file or directory (os error 2)"
  | notADirectory => "Not a directory (os error 20)"
  | isADirectory => "Is a directory (os error 21)"
  | alreadyThere => "File exists (os error 17)"
  | nameTooLong => "File name too long (os error 36)"
  | zeroInPath => "file name contained an unexpected NUL byte"
  | tooShort => "failed to fill whole buffer"
  | notText => "stream did not contain valid UTF-8"
  | other description => description

end Telemetry
