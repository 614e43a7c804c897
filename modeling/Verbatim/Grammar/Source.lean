import Verbatim.Grammar.Shape

/-!
# Typed nodes as source text

The definitions of a shape, written out as two blocks: the nodes with their accessors, and the families
with their variants.
-/
namespace Verbatim.Grammar

def Access.keyword : Access → String
  | token => "token"
  | child => "child"
  | children => "children"

namespace Shape

def header : String :=
  "//! Generated by `sprig grammar --codegen`, do not edit by hand.\n\n" ++
    "use crate::ast::\x7bAstChildren, AstNode, support\x7d;\n" ++
    "use crate::\x7bSyntaxKind, SyntaxNode, SyntaxToken\x7d;\n"

/-- A line that opens a brace, the indented lines within, and the line that closes it. -/
private def braced (title : String) (lines : List String) : List String :=
  (title ++ " \x7b") :: (lines.map ("    " ++ ·) ++ ["\x7d"])

private def fieldLine (f : Field) : String :=
  String.ofList f.name ++ ": " ++ f.access.keyword ++ " " ++ String.ofList f.target ++ ","

private def nodeLines (n : NodeShape) : List String :=
  let title := String.ofList n.name ++ " => " ++ String.ofList n.kind
  if n.fields.isEmpty then [title ++ " \x7b\x7d"] else braced title (n.fields.map fieldLine)

private def familyLines (f : Family) : List String :=
  braced (String.ofList f.name) (f.variants.map fun v => String.ofList v ++ ",")

private def block (title : String) (lines : List String) : String :=
  "\n" ++ String.join ((braced title lines).map (· ++ "\n"))

def source (s : Shape) : String :=
  header ++ block "ast_node!" (s.nodes.flatMap nodeLines) ++
    if s.families.isEmpty then "" else block "ast_enum!" (s.families.flatMap familyLines)

end Shape

end Verbatim.Grammar
