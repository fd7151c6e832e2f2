import Telemetry.Frame.Version

/-!
# Faults of a schema

What can be wrong with messages, dialects and sets of dialects, and how each fault is reported.
-/

namespace Telemetry

/-- What is wrong with an extensions marker. -/
inductive ExtensionsFault where
  /-- It stands at a position before any base field or behind the last field. -/
  | misplaced (position : Nat)
  | repeated
deriving DecidableEq

/-- A fault of a schema. -/
inductive SchemaError where
  /-- A field has a type that does not exist. -/
  | unknownType (message field tag : String)
  /-- Two messages share an id. -/
  | duplicateId (id : Nat) (first second : String)
  /-- Two messages share a name. -/
  | duplicateName (name : String) (first second : Nat)
  /-- Two fields of a message share a name. -/
  | duplicateField (message field : String)
  /-- The extensions marker of a message is out of place. -/
  | badExtensions (message : String) (fault : ExtensionsFault)
  /-- A message id is greater than any frame can carry. -/
  | idOutOfRange (message : String) (id max : Nat)
  /-- A payload is longer than any frame can carry. -/
  | payloadTooLarge (message : String) (length max : Nat)
  /-- The planned payload of a frame version differs in length from the declared one. -/
  | lengthMismatch (message : String) (version : FrameVersion) (declared computed : Nat)
  /-- A message has no fingerprint in its dialect's table. -/
  | missingFingerprint (id : Nat)
  /-- A dialect includes one that is not in the set. -/
  | unknownInclude (dialect target : String)
  /-- Two dialects of a set share a name. -/
  | duplicateDialect (name : String)
  /-- A dialect is asked for that is not in the set. -/
  | unknownDialect (name : String)
deriving DecidableEq

/-- How a fault of an extensions marker is reported. -/
def ExtensionsFault.message : ExtensionsFault → String
  | misplaced position => s!"extensions marker at position {position} must follow a base field"
  | repeated => "extensions marker repeated"

/-- How a missing fingerprint is reported. -/
def missingFingerprintMessage (id : Nat) : String := s!"no fingerprint for message id {id}"

/-- How a fault of a schema is reported. -/
def SchemaError.message : SchemaError → String
  | unknownType message field tag => s!"message {message}: field {field}: unknown type `{tag}`"
  | duplicateId id first second => s!"duplicate message id {id}: {first} and {second}"
  | duplicateName name first second =>
    s!"duplicate message name {name} (ids {first} and {second})"
  | duplicateField message field => s!"message {message}: duplicate field {field}"
  | badExtensions message fault => s!"message {message}: {fault.message}"
  | idOutOfRange message id max => s!"message {message}: id {id} out of range (max {max})"
  | payloadTooLarge message length max =>
    s!"message {message}: payload of {length} bytes exceeds {max}"
  | lengthMismatch message version declared computed =>
    let mode := match version with
      | .legacy => "legacy"
      | .extended => "extended"
    s!"message {message}: {mode} wire length is {computed} bytes but {declared} were declared"
  | missingFingerprint id => missingFingerprintMessage id
  | unknownInclude dialect target => s!"dialect {dialect}: unknown include `{target}`"
  | duplicateDialect name => s!"duplicate dialect {name}"
  | unknownDialect name => s!"unknown dialect {name}"

end Telemetry
