import ForwardAuth.Configuration.Basic
import ForwardAuth.Configuration.Error
import ForwardAuth.Files
import ForwardAuth.Toml.Document
import ForwardAuth.Toml.Entries

/-!
# Reading configurations

A configuration is a TOML document with one section for each part of the program. Settings that are
left out get their defaults, and settings that nobody knows are passed over. What cannot be seen
from the form alone is checked after that, in a fixed order, so that the first thing that is wrong
is the one that is reported.

A configuration file is read in its directory: the relative paths in it are meant from there.

## Main definitions

* `Review.Settings.ofEntries?`: The settings of the authority's client.
* `Configuration.ofTable?`: The configuration that a table describes.
* `Configuration.parse`: The configuration that a text describes, if it can be used.
* `Configuration.load`: The configuration in a file.
-/

namespace ForwardAuth

open Toml (Entries Value Table)

/-- The greatest number that a setting of 64 bits can have. -/
def Configuration.maxSetting : Nat := Nat.pow 2 64 - 1

namespace Review.Settings

/-- The settings of the authority's client. -/
def ofEntries? (e : Entries) : Option Settings := do
  let url ← e.required 0 "url" Value.string?
  let timeout ← e.withDefault 1 "timeout_ms" (Value.natural? Configuration.maxSetting)
    defaultTimeout
  let bearerTokenFile ← e.optional 2 "bearer_token_file" Value.string?
  let serverCaBundle ← e.optional 3 "server_ca_bundle" Value.string?
  let clientCertificate ← e.optional 4 "client_certificate" Value.string?
  let clientPrivateKey ← e.optional 5 "client_private_key" Value.string?
  return ⟨url, timeout, bearerTokenFile, serverCaBundle, clientCertificate, clientPrivateKey⟩

/-- The settings that a text describes on its own. -/
def parse? (text : String) : Option Settings := do
  ofEntries? (.named (← Table.parse? text))

end Review.Settings

namespace Configuration

/-- The value as an address. -/
def address? (v : Value) : Option IpAddress := do
  IpAddress.parse? (← v.string?)

/-- The value as a port. -/
def port? (v : Value) : Option UInt16 :=
  (v.natural? (Nat.pow 2 16 - 1)).map UInt16.ofNat

/-- The files that secure the listener. -/
def Tls.ofEntries? (e : Entries) : Option Tls := do
  let certificateBundle ← e.required 0 "server_certificate_bundle" Value.string?
  let privateKey ← e.required 1 "server_private_key" Value.string?
  let clientCaBundle ← e.optional 2 "client_ca_bundle" Value.string?
  return ⟨certificateBundle, privateKey, clientCaBundle⟩

/-- Where the server listens, and how long it waits. -/
def Listener.ofEntries? (e : Entries) : Option Listener := do
  let bindAddress ← e.required 0 "bind_address" address?
  let port ← e.withDefault 1 "port" port? defaultPort
  let queryTimeout ← e.withDefault 2 "query_timeout" (Value.natural? maxSetting) defaultQueryTimeout
  let gracePeriod ← e.withDefault 3 "query_timeout_grace_period" (Value.natural? maxSetting)
    defaultGracePeriod
  let resolveTimeout ← e.withDefault 4 "resolve_timeout_ms" (Value.natural? maxSetting)
    defaultResolveTimeout
  let tls ← e.optional 5 "tls" fun v => v.entries? >>= Tls.ofEntries?
  return ⟨bindAddress, port, queryTimeout, gracePeriod, resolveTimeout, tls⟩

/-- Where traces are sent. -/
def Tracing.ofEntries? (e : Entries) : Option Tracing := do
  let endpoint ← e.required 0 "endpoint" Value.string?
  let samplingRate ← e.required 1 "sampling_rate" Value.double?
  return ⟨endpoint, samplingRate⟩

/-- What can be seen of the program's work. -/
def Observability.ofEntries? (e : Entries) : Option Observability := do
  let tracing ← e.withDefault 0 "tracing"
    (fun v => (v.entries? >>= Tracing.ofEntries?).map some) none
  return ⟨tracing⟩

/-- The number of worker threads in the section for the whole program. -/
def workerThreads? (e : Entries) : Option Nat :=
  e.withDefault 0 "worker_threads" (Value.natural? maxSetting) defaultWorkerThreads

/-- The claim that names the user in the section about identities. -/
def usernameClaim? (e : Entries) : Option String :=
  e.withDefault 0 "username_claim_field" Value.string? defaultUsernameClaim

/-- The configuration that a table describes. -/
def ofTable? (t : Table) : Option Configuration := do
  let e := Entries.named t
  let server ← e.required 0 "server" fun v => v.entries? >>= Listener.ofEntries?
  let workerThreads ← e.withDefault 1 "global" (fun v => v.entries? >>= workerThreads?)
    defaultWorkerThreads
  let usernameClaim ← e.withDefault 2 "identity" (fun v => v.entries? >>= usernameClaim?)
    defaultUsernameClaim
  let authority ← e.required 3 "authority" fun v => v.entries? >>= Review.Settings.ofEntries?
  let observability ← e.withDefault 4 "observability"
    (fun v => (v.entries? >>= Observability.ofEntries?).map some) none
  return ⟨server, workerThreads, usernameClaim, authority, observability⟩

variable [Wording]

/-- Refuses settings that have the right form and still cannot be used. -/
def check (c : Configuration) : Except Error Unit := do
  if c.usernameClaim.isEmpty then throw (.identity "username_claim_field must not be empty")
  if c.server.resolveTimeout = 0 then throw (.zero "server.resolve_timeout_ms")
  if c.workerThreads = 0 then throw (.zero "global.worker_threads")
  match c.authority.check with
  | .ok () => pure ()
  | .error cause => throw (.authority (.configuration cause))

/-- The configuration that a text describes, if it can be used. -/
def parse (text : String) : Except Error Configuration :=
  match Table.parse? text >>= ofTable? with
  | none => throw (.malformed (Wording.configuration text))
  | some c => do
    c.check
    return c

/-- The configuration in a file. Its relative paths are taken from the directory of the file. -/
def load (files : Files) (path : String) : Except Error Configuration :=
  match files.text path with
  | .error reason => throw (.unreadable reason)
  | .ok text => do
    let c ← parse text
    return c.anchor (Path.directory path)

end Configuration

end ForwardAuth
