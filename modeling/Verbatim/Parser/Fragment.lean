import Verbatim.Kind

/-!
# Fragments

Lists in braces that can be parsed apart from the file around them.
-/
namespace Verbatim

/-- Lists in braces that can be parsed by themselves. -/
inductive Fragment where
  | stmtList | recordFieldList | itemList | assocItemList | variantList | matchArmList
  | useTreeList
  deriving DecidableEq, Repr

namespace Fragment

def all : List Fragment :=
  [stmtList, recordFieldList, itemList, assocItemList, variantList, matchArmList, useTreeList]

def kind : Fragment → Kind
  | stmtList => .stmtList
  | recordFieldList => .recordFieldList
  | itemList => .itemList
  | assocItemList => .assocItemList
  | variantList => .variantList
  | matchArmList => .matchArmList
  | useTreeList => .useTreeList

def ofKind? (k : Kind) : Option Fragment := all.find? (·.kind == k)

def name : Fragment → String
  | stmtList => "StmtList"
  | recordFieldList => "RecordFieldList"
  | itemList => "ItemList"
  | assocItemList => "AssocItemList"
  | variantList => "VariantList"
  | matchArmList => "MatchArmList"
  | useTreeList => "UseTreeList"

end Fragment

end Verbatim
