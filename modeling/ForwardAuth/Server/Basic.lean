import ForwardAuth.Configuration.Reading
import ForwardAuth.Lifetime
import ForwardAuth.Resolution.Extraction
import ForwardAuth.Review.Client

/-!
# The server and its configurations

A server is built from a configuration and the files that it names. While it runs, it may be given a
new configuration, or only new files for its listener. What it needs from them is put together
first, and only when all of it is there the server changes over; a configuration that fails leaves
the server as it was.

Some things a server keeps for life: where it listens, whether it secures connections, and the
lifetime that ends with its shutdown.

## Main definitions

* `Context`, `Context.ofConfiguration`: What requests are resolved with.
* `Server`, `Server.ofConfiguration`: The server.
* `Server.reload`: A new configuration.
* `Server.reloadTls`: New files for the listener.
-/

namespace ForwardAuth

namespace Server

/-- What requests are resolved with. -/
structure Context where
  /-- How credentials are read. -/
  extractor : Resolution.Extractor
  client : Review.Client
  /-- How long it may take to resolve a request, in milliseconds. -/
  resolveTimeout : Nat
  /-- The lifetime of the server, which that of each request is part of. -/
  shutdown : Lifetime

/-- How long connections may last, in seconds. -/
structure Timeouts where
  query : Nat
  grace : Nat
  deriving DecidableEq, Repr

variable [Wording]

namespace Context

/-- What requests are resolved with under a configuration. Structured tokens have been checked
    before they come here. -/
def ofConfiguration (files : Files) (c : Configuration) (shutdown : Lifetime) :
    Except Configuration.Error Context :=
  match Review.Client.ofFiles files c.authority with
  | .ok client => pure ⟨⟨c.usernameClaim, .trusting⟩, client, c.server.resolveTimeout, shutdown⟩
  | .error cause => throw (.authority (.configuration cause))

end Context

/-- The durations of connections under a configuration. -/
def Timeouts.of (l : Configuration.Listener) : Timeouts :=
  ⟨l.queryTimeout, l.gracePeriod⟩

/-- How the listener secures connections with the given files. -/
def secure (files : Files) (tls : Configuration.Tls) :
    Except Configuration.Error Tls.Acceptor :=
  (Tls.Acceptor.ofFiles files tls).mapError fun fault => .tls (Wording.tls fault)

end Server

/-- A server. -/
structure Server where
  address : IpAddress
  port : UInt16
  /-- How connections are secured, if they are. -/
  acceptor : Option Tls.Acceptor
  context : Server.Context
  timeouts : Server.Timeouts
  /-- The lifetime of the server. -/
  shutdown : Lifetime

namespace Server

variable [Wording]

/-- A server for a configuration, which lives for a lifetime. -/
def ofConfiguration (files : Files) (c : Configuration) (shutdown : Lifetime) :
    Except Configuration.Error Server := do
  let context ← Context.ofConfiguration files c shutdown
  let acceptor ← c.server.tls.mapM (secure files)
  return {
    address := c.server.bindAddress
    port := c.server.port
    acceptor
    context
    timeouts := .of c.server
    shutdown }

/-- Gives the server a new configuration. A listener that secures connections goes on with its old
    one if the new one no longer says how; whether connections are secured never changes. -/
def reload (files : Files) (c : Configuration) (s : Server) :
    Except Configuration.Error Unit × Server :=
  match Context.ofConfiguration files c s.shutdown with
  | .error e => (.error e, s)
  | .ok context =>
    match s.acceptor, c.server.tls with
    | none, _ => (.ok (), { s with timeouts := .of c.server, context })
    | some _, none => (.ok (), s)
    | some _, some tls =>
      match secure files tls with
      | .error e => (.error e, s)
      | .ok acceptor =>
        (.ok (), { s with acceptor := some acceptor, timeouts := .of c.server, context })

/-- Gives the listener new files. One that does not secure connections has no use for them. -/
def reloadTls (files : Files) (tls : Configuration.Tls) (s : Server) :
    Except Configuration.Error Unit × Server :=
  match s.acceptor with
  | none => (.ok (), s)
  | some _ =>
    match secure files tls with
    | .error e => (.error e, s)
    | .ok acceptor => (.ok (), { s with acceptor := some acceptor })

end Server

end ForwardAuth
