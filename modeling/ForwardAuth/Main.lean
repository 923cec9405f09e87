import ForwardAuth.CommandLine
import ForwardAuth.Server.Basic
import ForwardAuth.Server.Error

/-!
# The program

The outermost layer reads the arguments and the files and prints what comes of them. It checks that
the server can be built from its configuration; whoever has connections to serve builds it in the
same way and passes the requests on.

## Main definitions

* `filesNamed`: The files that a configuration names, read once.
* `build`: The server that a configuration describes.
* `main`: The program.
-/

namespace ForwardAuth

/-- What help says. -/
def helpText : String :=
  "Usage: forward-auth [-c <config>] <command> [<args>]\n\n" ++
  "Forward-auth service resolving the identity of HTTP callers, " ++
  "with authorized impersonation\n\n" ++
  "Options:\n  -c, --config      the path to the configuration file, defaults to config.toml\n" ++
  "  --help, help      display usage information\n\n" ++
  "Commands:\n  serve             Run the forward-auth identity server\n"

/-- The paths that a configuration names. -/
def Configuration.paths (c : Configuration) : List String :=
  let tls := c.server.tls.toList.flatMap fun t =>
    t.certificateBundle :: t.privateKey :: t.clientCaBundle.toList
  tls ++ c.authority.bearerTokenFile.toList ++ c.authority.serverCaBundle.toList ++
    c.authority.clientCertificate.toList ++ c.authority.clientPrivateKey.toList

/-- Why a file cannot be read. -/
def readError : IO.Error → SystemError
  | .noFileOrDirectory _ number description => ⟨description, number.toNat⟩
  | .permissionDenied _ number description => ⟨description, number.toNat⟩
  | _ => ⟨"Input/output error", 5⟩

/-- Reads a file. -/
def readBytes (path : String) : IO (Except SystemError (List UInt8)) :=
  try
    return .ok (← IO.FS.readBinFile path).toList
  catch e => return .error (readError e)

/-- The files at the given paths. -/
def filesNamed (paths : List String) : IO Files := do
  let contents ← paths.mapM fun path => return (path, ← readBytes path)
  return fun path => (contents.lookup path).getD (.error .noSuchFile)

/-- Builds the server that the configuration at a path describes. -/
def build [Wording] (path : String) : IO (Except Failure Server) := do
  match Configuration.load (← filesNamed [path]) path with
  | .error cause => return .error (Failure.configuration cause)
  | .ok c =>
    let files ← filesNamed c.paths
    return (Server.ofConfiguration files c Lifetimes.empty.start.1).mapError Failure.configuration

end ForwardAuth

open ForwardAuth in
/-- Reads the arguments, builds the server, and tells what stands against it. -/
def main (args : List String) : IO UInt32 := do
  match CommandLine.parse args with
  | .error .help =>
    IO.print helpText
    return 0
  | .error (.usage reason) =>
    IO.eprintln reason
    return 1
  | .ok invocation =>
    match ← @build .own invocation.config with
    | .error failure =>
      IO.eprintln ("Error: " ++ failure.message)
      return 1
    | .ok server =>
      IO.eprintln ("Ready to serve at " ++ server.address.text ++ " port " ++ toString server.port)
      return 0
