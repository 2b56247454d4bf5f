/-! What can go wrong, by cause, and the text that reports it. -/

namespace SiteBroker

/-- Why a task, a packet or a request is not acceptable. -/
inductive ValidationError where
  | missing (names : List String)
  | disallowed (names : List String)
  | missingAndDisallowed (missing disallowed : List String)
  | malformedTransactionId (text : String)
  | unknownTaskState (text : String)
  | blankTaskName
  | unexplained (task state product : String)
  | blankMessage (product : String)
  | incompletePacket (names : List String)
  | other (message : String)
  deriving DecidableEq

namespace ValidationError

/-- The name of the kind of error. -/
def kind : ValidationError → String
  | .missing _ => "MissingFields"
  | .disallowed _ => "DisallowedFields"
  | .missingAndDisallowed .. => "Fields"
  | _ => "Invalid"

def commaList (names : List String) : String := ", ".intercalate names

def message : ValidationError → String
  | .missing names => "Missing required fields: " ++ commaList names
  | .disallowed names => "Fields not allowed: " ++ commaList names
  | .missingAndDisallowed absent refused =>
    "Missing required fields: " ++ commaList absent ++
      "; fields not allowed: " ++ commaList refused
  | .malformedTransactionId text => "Malformed transaction id: " ++ text
  | .unknownTaskState text => "Unknown task state: " ++ text
  | .blankTaskName => "task_name must not be empty"
  | .unexplained task state product =>
    "Task '" ++ task ++ "' is " ++ state ++ " but has no " ++ product ++ " product"
  | .blankMessage product => product ++ " message must not be empty"
  | .incompletePacket names =>
    "Required attributes are missing from incoming packet: " ++ ",".intercalate names
  | .other message => message

/-- The narrowest error for fields that are missing and fields that are not allowed. -/
def ofFields? : (absent refused : List String) → Option ValidationError
  | [], [] => none
  | absent, [] => some (.missing absent)
  | [], refused => some (.disallowed refused)
  | absent, refused => some (.missingAndDisallowed absent refused)

end ValidationError

/-- Why a call of the remote or the local service failed. -/
inductive ServiceError where
  | connection (detail : String)
  | temporary (detail : String)
  | timeout (detail : String)
  | requestFailed (detail : String)
  | internal (detail : String)
  | validation (error : ValidationError)
  deriving DecidableEq

namespace ServiceError

/-- The name of the kind of error. -/
def kind : ServiceError → String
  | .connection _ => "Connection"
  | .temporary _ => "Temporary"
  | .timeout _ => "Timeout"
  | .requestFailed _ => "RequestFailed"
  | .internal _ => "Internal"
  | .validation _ => "Validation"

def message : ServiceError → String
  | .connection detail => "Connection error: " ++ detail
  | .temporary detail => "Temporary service error: " ++ detail
  | .timeout detail => "Retry time limit exceeded: " ++ detail
  | .requestFailed detail => "Request failed: " ++ detail
  | .internal detail => "Internal service error: " ++ detail
  | .validation error => error.message

/-- Errors that may go away by themselves. -/
def isTransient : ServiceError → Bool
  | .connection _ | .temporary _ => true
  | _ => false

def isTimeout : ServiceError → Bool
  | .timeout _ => true
  | _ => false

/-- What a response with an HTTP status outside of 200 to 299 means. -/
def ofStatus (status : Nat) (text : String) : ServiceError :=
  if [408, 429, 500, 502, 503, 504].contains status then
    .temporary ("HTTP " ++ toString status ++ ": " ++ text)
  else if [400, 409, 422].contains status then .requestFailed text
  else .internal ("HTTP " ++ toString status ++ ": " ++ text)

end ServiceError

/-- Why a file could not be read or written. -/
inductive FileError where
  | notFound
  | invalidData
  | invalidFilename
  | invalidInput
  | isADirectory
  | notADirectory
  | other (detail : String)
  deriving DecidableEq

namespace FileError

/-- The name of the kind of error. -/
def kind : FileError → String
  | .notFound => "NotFound"
  | .invalidData => "InvalidData"
  | .invalidFilename => "InvalidFilename"
  | .invalidInput => "InvalidInput"
  | .isADirectory => "IsADirectory"
  | .notADirectory => "NotADirectory"
  | .other _ => "Other"

def message : FileError → String
  | .notFound => "No such file or directory (os error 2)"
  | .invalidData => "stream did not contain valid data"
  | .invalidFilename => "File name too long (os error 36)"
  | .invalidInput => "file name contained an unexpected NUL byte"
  | .isADirectory => "Is a directory (os error 21)"
  | .notADirectory => "Not a directory (os error 20)"
  | .other detail => detail

end FileError

/-- Why a pass over the packets stopped. -/
inductive BrokerError where
  | service (error : ServiceError)
  | validation (error : ValidationError)
  | handler (detail : String)
  | snapshot (error : FileError)
  deriving DecidableEq

namespace BrokerError

/-- The name of the kind of error. -/
def kind : BrokerError → String
  | .service _ => "Service"
  | .validation _ => "Validation"
  | .handler _ => "Handler"
  | .snapshot _ => "Snapshot"

def message : BrokerError → String
  | .service error => error.message
  | .validation error => error.message
  | .handler detail => "Packet handler error: " ++ detail
  | .snapshot error => "Snapshot error: " ++ error.message

/-- Whether the work may go on after the error. -/
def isRestartable : BrokerError → Bool
  | .service error => error.isTransient
  | _ => false

end BrokerError

end SiteBroker
