import Telemetry.FileError

/-!
# What commands run on

Commands read and write files and print text. What does this for them is their host.
-/

namespace Telemetry

/-- What a command needs of its surroundings. -/
structure Host (m : Type → Type) where
  /-- The content of the file with a path. -/
  readFile : String → m (Except FileError (List UInt8))
  /-- Makes a directory and all that are missing above it. -/
  createDirectories : String → m (Except FileError Unit)
  /-- Writes a file, in place of one that may be there. -/
  writeFile : String → List UInt8 → m (Except FileError Unit)
  /-- Prints a text. -/
  print : String → m Unit
  /-- Prints a text that is not part of the result. -/
  report : String → m Unit

end Telemetry
