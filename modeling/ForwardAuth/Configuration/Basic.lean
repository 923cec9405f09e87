import ForwardAuth.IpAddress
import ForwardAuth.Review.Settings

/-!
# Configurations

What the program is told to do: where to listen, how long to wait, how to secure the listener, which
claim names the user, and where the authority is.

## Main definitions

* `Configuration`: A configuration, with a structure for each of its sections.
* `Configuration.anchor`: The configuration with its relative paths taken from a directory.
-/

namespace ForwardAuth

namespace Configuration

/-- The files that secure the listener. -/
structure Tls where
  certificateBundle : String
  privateKey : String
  /-- The certificates whose bearers may show certificates of their own. -/
  clientCaBundle : Option String
  deriving DecidableEq, Repr

/-- Where the server listens, and how long it waits. -/
structure Listener where
  bindAddress : IpAddress
  port : UInt16
  /-- How long a connection may last, in seconds. -/
  queryTimeout : Nat
  /-- How long a connection may go on after that, in seconds. -/
  gracePeriod : Nat
  /-- How long it may take to resolve a request, reviews included, in milliseconds. -/
  resolveTimeout : Nat
  tls : Option Tls
  deriving DecidableEq, Repr

/-- Where traces of the program's work are sent, and how many. -/
structure Tracing where
  endpoint : String
  samplingRate : Float
  deriving Repr

/-- What can be seen of the program's work. -/
structure Observability where
  tracing : Option Tracing
  deriving Repr

/-- The files of the listener with the relative paths taken from a directory. -/
def Tls.anchor (base : String) (t : Tls) : Tls :=
  ⟨Path.anchor base t.certificateBundle, Path.anchor base t.privateKey,
    t.clientCaBundle.map (Path.anchor base)⟩

end Configuration

/-- What the program is told to do. -/
structure Configuration where
  server : Configuration.Listener
  workerThreads : Nat
  /-- The claim that names the user. -/
  usernameClaim : String
  authority : Review.Settings
  observability : Option Configuration.Observability
  deriving Repr

namespace Configuration

/-- The port if nothing is said about it. -/
def defaultPort : UInt16 := 8000

/-- The duration of connections if nothing is said about it, in seconds. -/
def defaultQueryTimeout : Nat := 3600

/-- The grace period if nothing is said about it, in seconds. -/
def defaultGracePeriod : Nat := 60

/-- The time to resolve a request if nothing is said about it, in milliseconds. -/
def defaultResolveTimeout : Nat := 10000

/-- The number of worker threads if nothing is said about it. -/
def defaultWorkerThreads : Nat := 4

/-- The claim that names the user if nothing is said about it. -/
def defaultUsernameClaim : String := "preferred_username"

/-- The configuration with its relative paths taken from a directory. -/
def anchor (base : String) (c : Configuration) : Configuration :=
  { c with
    server := { c.server with tls := c.server.tls.map (Tls.anchor base) }
    authority := c.authority.anchor base }

end Configuration

end ForwardAuth
