import Verbatim.Grammar.Reader
import Verbatim.Grammar.Source
import Verbatim.Parse.Show
import Verbatim.Report

/-!
# The command line

A command reads one file, and what it prints and whether it succeeds follow from the contents of that
file alone.
-/
namespace Verbatim

inductive Command where
  | parse (path : String) (tree : Bool)
  | grammar (path : String) (source : Bool)
  | version
  deriving DecidableEq, Repr

structure Outcome where
  code : Nat
  output : String
  errors : String
  deriving DecidableEq, Repr

namespace Command

/-- Reads one path and at most one flag, in any order. Behind two dashes everything is a path. -/
private def pathAndFlag (flag : String) (path? : Option String) (set : Bool) :
    List String → Option (String × Bool)
  | [] => path?.map (·, set)
  | "--" :: rest =>
    match path?, rest with
    | none, [path] => some (path, set)
    | some path, [] => some (path, set)
    | _, _ => none
  | arg :: rest =>
    if arg == flag then if set then none else pathAndFlag flag path? true rest
    else if arg.startsWith "-" && arg != "-" then none
    else if path?.isSome then none
    else pathAndFlag flag (some arg) set rest

/-- Whether an argument asks for the version; a short flag does so whatever is written behind it. -/
private def asksVersion (arg : String) : Bool := arg == "--version" || arg.startsWith "-V"

/-- The command that some arguments ask for, if it is one. -/
def ofArguments? : List String → Option Command
  | [] => none
  | name :: rest =>
    if asksVersion name then some version
    else match name with
      | "parse" => (pathAndFlag "--tree" none false rest).map fun (p, f) => parse p f
      | "grammar" => (pathAndFlag "--codegen" none false rest).map fun (p, f) => grammar p f
      | _ => none

/-- The file that a command reads. -/
def path? : Command → Option String
  | parse path _ => some path
  | grammar path _ => some path
  | version => none

/-- A text of which every line is indented. -/
private def indented (s : String) : String :=
  "    " ++ String.ofList (s.toList.flatMap fun c => if c == '\n' then "\n    ".toList else [c])

/-- The outcome of a command that could not do its work, and why. -/
def failure (context cause : String) : Outcome :=
  ⟨1, "", "Error: " ++ context ++ "\n\nCaused by:\n" ++ indented cause ++ "\n"⟩

def unreadable (path cause : String) : Outcome := failure ("failed to read `" ++ path ++ "`") cause

/-- The usual reason why a file cannot be read. -/
def noSuchFile : String := "No such file or directory (os error 2)"

private def runParse (path : String) (tree : Bool) (text : Text) : Outcome :=
  match Parse.ofText text with
  | .error _ => ⟨101, "", ""⟩
  | .ok p =>
    let reports := p.diagnostics.map fun d =>
      ((Report.ofDiagnostic d).render? path text).getD d.render ++ "\n"
    ⟨if p.ok then 0 else 1, if tree then p.tree.dump else "", String.join reports⟩

private def missingLine : Grammar.Missing → String
  | .rule name => "error: rule `" ++ String.ofList name ++ "` has no syntax kind\n"
  | .terminal spelling => "error: token '" ++ String.ofList spelling ++ "' has no syntax kind\n"

private def runGrammar (path : String) (source : Bool) (text : Text) : Outcome :=
  match Grammar.ofText text with
  | .error e => failure ("failed to load the grammar `" ++ path ++ "`") e.message
  | .ok g =>
    let missing := g.missingKinds
    ⟨if missing.isEmpty then 0 else 1, if source then g.shape.source else "",
      String.join (missing.map missingLine)⟩

/-- Runs a command on the contents of its file, or on the reason why they cannot be had. -/
def run (c : Command) (contents : Except String Text) : Outcome :=
  match c, contents with
  | version, _ => ⟨0, "sprig 0.1.0\n", ""⟩
  | parse path _, .error cause | grammar path _, .error cause => unreadable path cause
  | parse path tree, .ok text => runParse path tree text
  | grammar path source, .ok text => runGrammar path source text

end Command

end Verbatim
