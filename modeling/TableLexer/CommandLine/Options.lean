import TableLexer.Path
/-!
The options of the command line.
-/

namespace TableLexer.CommandLine

/-- What was asked for on the command line. -/
structure Options where
  preferences : Option Path := none
  tables : Option Path := none
  program : Option Path := none
  help : Bool := false
deriving DecidableEq, Repr

/-- Why a command line makes no sense. -/
inductive UsageError where
  | missingFile (option : String)
  | missingDirectory (option : String)
  | unknownOption (option : String)
  | secondProgram (argument : String)
deriving DecidableEq, Repr

def UsageError.message : UsageError → String
  | missingFile option => option ++ " requires a file"
  | missingDirectory option => option ++ " requires a directory"
  | unknownOption option => "Unknown option '" ++ option ++ "'"
  | secondProgram argument => "Unexpected argument '" ++ argument ++ "'"

namespace Options

/-- Takes in the arguments after those of `options`.  A later option replaces an earlier one, but
there is only one program. -/
def takeIn (options : Options) : List String → Except UsageError Options
  | [] => .ok options
  | "--help" :: rest => takeIn { options with help := true } rest
  | "-h" :: rest => takeIn { options with help := true } rest
  | ["--config"] => .error (.missingFile "--config")
  | "--config" :: file :: rest => takeIn { options with preferences := some ⟨file⟩ } rest
  | ["--tables"] => .error (.missingDirectory "--tables")
  | "--tables" :: directory :: rest => takeIn { options with tables := some ⟨directory⟩ } rest
  | argument :: rest =>
    if argument.startsWith "--" then .error (.unknownOption argument)
    else if options.program.isSome then .error (.secondProgram argument)
    else takeIn { options with program := some ⟨argument⟩ } rest

def ofArguments (arguments : List String) : Except UsageError Options := takeIn {} arguments

end Options

end TableLexer.CommandLine
