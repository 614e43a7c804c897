import Verbatim.Green.Listing
import Verbatim.Parse.Basic

/-!
# Showing a parse
-/
namespace Verbatim

def Category.label : Category → String
  | unexpectedToken => "UnexpectedToken"
  | unterminatedConstruct => "UnterminatedConstruct"

namespace Diagnostic

/-- All parts of a diagnostic with their names. -/
def detail (d : Diagnostic) : String :=
  "SyntaxError \x7b kind: " ++ d.category.label ++ ", message: " ++
    Text.quoted d.message.toList ++ ", range: " ++ d.span.render ++ " \x7d"

end Diagnostic

namespace Parse

/-- The tree line by line, and a line for each diagnostic. -/
def dump (p : Parse) : String :=
  p.tree.dump ++
    String.join (p.diagnostics.map fun d => "error " ++ d.span.render ++ ": " ++ d.message ++ "\n")

def summary (p : Parse) : String :=
  "Parse \x7b green: " ++ p.tree.summary ++ ", errors: [" ++
    String.intercalate ", " (p.diagnostics.map Diagnostic.detail) ++ "] \x7d"

end Parse

end Verbatim
