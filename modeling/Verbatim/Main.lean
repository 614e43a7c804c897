import Verbatim.Command

/-!
# The program
-/
namespace Verbatim

/-- The contents of a file, or why it cannot be read. -/
def contents (path : String) : IO (Except String Text) := do
  try
    return .ok (← IO.FS.readFile path).toList
  catch
    | .noFileOrDirectory .. => return .error Command.noSuchFile
    | e => return .error (toString e)

end Verbatim

/-- Runs the command that the arguments ask for. -/
def main (arguments : List String) : IO UInt32 := do
  match Verbatim.Command.ofArguments? arguments with
  | none =>
    IO.eprintln "Usage: sprig parse PATH [--tree] | sprig grammar PATH [--codegen]"
    return 2
  | some command =>
    let outcome := command.run (← command.path?.elim (return .ok []) Verbatim.contents)
    IO.print outcome.output
    IO.eprint outcome.errors
    return outcome.code.toUInt32
