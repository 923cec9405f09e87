import ForwardAuth.Configuration.Error
import ForwardAuth.Json.Value
import ForwardAuth.Refusal

/-!
# Server errors

What keeps a server from serving, and what it tells a client that gets no identity. A refusal is
passed on with its own kind, status and sentence; everything else is an internal error.

The program as a whole ends with a failure, which is a server error, a configuration error, or an
error of the files that it reads and watches.

## Main definitions

* `Server.Error`: The errors of a server.
* `Server.Error.json`: The error as a client is told.
* `Failure`: Why the program ends.
-/

namespace ForwardAuth

namespace Server

/-- What goes wrong in a server. -/
inductive Error where
  /-- The address cannot be bound. -/
  | initialization (reason : String)
  /-- No connection can be accepted. -/
  | execution (reason : String)
  /-- A response cannot be made. -/
  | internal (reason : String)
  /-- The request is given no identity. -/
  | identity (cause : Refusal)
  deriving DecidableEq, Repr

namespace Error

/-- The short name of the error. -/
def kind : Error → String
  | identity cause => cause.kind
  | _ => "internal"

/-- The status code of the response that tells about the error. -/
def status : Error → Http.Status
  | identity cause => cause.status
  | _ => ⟨500⟩

/-- The error in a sentence. -/
def message : Error → String
  | initialization reason | execution reason => reason
  | internal reason => "Internal Server Error: " ++ reason
  | identity cause => cause.message

/-- The error as a client is told, with the number of its request if it has one. -/
def json (e : Error) (requestId : Option String) : Json :=
  .object <|
    [("error", .string e.kind), ("message", .string e.message)] ++
      requestId.toList.map fun id => ("request_id", .string id)

end Error

end Server

/-- Why the program ends. -/
inductive Failure where
  | io (reason : String)
  /-- The configuration file cannot be watched. -/
  | watcher (reason : String)
  | configuration (cause : Configuration.Error)
  | server (cause : Server.Error)
  deriving DecidableEq, Repr

/-- The failure in a sentence. -/
def Failure.message : Failure → String
  | .io reason => "IO error: " ++ reason
  | .watcher reason => "Watcher error: " ++ reason
  | .configuration cause => "Configuration error:" ++ cause.message
  | .server cause => "Server error: " ++ cause.message

end ForwardAuth
