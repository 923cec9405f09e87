/-!
# Command line

The program is started as `forward-auth [-c FILE] serve`. The options come before the subcommand;
`serve` has no options of its own. Either of the words `--help` and `help` asks for help, at the
place of an option or a subcommand and on both levels, and nothing but such words, `--`, or a
subcommand that is then explained itself may follow it. Subcommands have a name of one character
besides their long one; where none was chosen, as for `serve`, it is the null character.

## Main definitions

* `Invocation`: What the program is started to do.
* `EarlyExit`: Why it is not started: help was asked for, or the arguments make no sense.
* `CommandLine.parse`: Reads the arguments.
-/

namespace ForwardAuth

/-- What the program is started to do: to serve, configured by a file. -/
structure Invocation where
  config : String
  deriving DecidableEq, Repr

/-- Why the program ends before it starts. -/
inductive EarlyExit where
  | help
  | usage (reason : String)
  deriving DecidableEq, Repr

namespace CommandLine

/-- The configuration file that is read if the arguments name none. -/
def defaultConfig : String := "config.toml"

/-- The words that ask for help. -/
def isHelp (arg : String) : Bool :=
  arg == "--help" || arg == "help"

/-- The argument is an option, or would be one. -/
def isOption (arg : String) : Bool :=
  arg.toList.head? == some '-'

/-- The argument names the subcommand `serve`, by its long name or the one of one character. -/
def isServe (arg : String) : Bool :=
  arg == "serve" || arg == "\x00"

/-- The arguments of `serve`: none, apart from a request for help and the end mark of options.
    `help` says that help was asked for already, `ended` that the end mark was read. -/
def parseServe (help ended : Bool) : List String → Except EarlyExit Unit
  | [] => if help then throw .help else pure ()
  | arg :: rest =>
    if isHelp arg && !ended then parseServe true ended rest
    else if arg == "--" && !ended then parseServe help true rest
    else throw (.usage ("Unrecognized argument: " ++ arg))

/-- The arguments before and at the subcommand. `config` is the configuration file named so far;
    it may be named once. -/
def parseFrom (help ended : Bool) (config : Option String) :
    List String → Except EarlyExit Invocation
  | [] =>
    if help then throw .help
    else throw (.usage "One of the following subcommands must be present: help, serve")
  | arg :: rest =>
    if isHelp arg && !ended then parseFrom true ended config rest
    else if isOption arg && !ended then
      if arg == "--" then parseFrom help true config rest
      else if help then throw (.usage "Trailing arguments are not allowed after `help`.")
      else if arg == "--config" || arg == "-c" then
        match rest, config with
        | [], _ => throw (.usage ("No value provided for option '" ++ arg ++ "'."))
        | _ :: _, some _ => throw (.usage ("Duplicate values provided for option '" ++ arg ++ "'."))
        | value :: rest, none => parseFrom help ended (some value) rest
      else throw (.usage ("Unrecognized argument: " ++ arg))
    else if isServe arg then do
      parseServe help false rest
      return ⟨config.getD defaultConfig⟩
    else throw (.usage ("Unrecognized argument: " ++ arg))

/-- Reads the arguments, without the name of the program. -/
def parse (args : List String) : Except EarlyExit Invocation :=
  parseFrom false false none args

end CommandLine

end ForwardAuth
