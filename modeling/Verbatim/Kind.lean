/-!
# Kinds of tokens and nodes

One closed list of tags for everything that can stand in a tree: punctuation in its single and its
composite forms, keywords, token classes, trivia, and one tag per construct of the language. The
spellings and the rule names are tables, and every classification is read off them.
-/
namespace Verbatim

/-- Tag of a token or a node. The order of the constructors is the order in which kinds are listed. -/
inductive Kind where
  | tombstone | eof
  | semicolon | comma | leftParen | rightParen | leftBrace | rightBrace | leftBracket
  | rightBracket | leftAngle | rightAngle | atSign | pound | tilde | question | dollar | amp
  | pipe | plus | star | slash | caret | percent | underscore | dot | colon | eq | bang | minus
  | dot2 | dot3 | dot2Eq | colon2 | eq2 | fatArrow | notEq | thinArrow | ltEq | gtEq | plusEq
  | minusEq | pipeEq | ampEq | caretEq | slashEq | starEq | percentEq | amp2 | pipe2 | shl | shr
  | shlEq | shrEq
  | asKw | asyncKw | breakKw | constKw | continueKw | crateKw | dynKw | elseKw | enumKw | fnKw
  | forKw | ifKw | implKw | inKw | letKw | loopKw | matchKw | modKw | moveKw | mutKw | pubKw
  | refKw | returnKw | selfKw | selfTypeKw | staticKw | structKw | superKw | traitKw | typeKw
  | unsafeKw | useKw | whereKw | whileKw
  | trueKw | falseKw
  | ident | lifetimeIdent | intNumber | floatNumber | string | byteString | char | byte
  | whitespace | comment | error
  | sourceFile | name | nameRef | lifetime | path | pathSegment | genericArgList | typeArg
  | lifetimeArg | visibility | module | itemList | use | useTree | useTreeList | rename | fn
  | paramList | selfParam | param | retType | typeAlias | struct | recordFieldList | recordField
  | tupleFieldList | tupleField | enum | variantList | variant | const | static | trait
  | assocItemList | impl | genericParamList | typeParam | constParam | lifetimeParam
  | whereClause | wherePred | typeBoundList | typeBound | letStmt | letElse | exprStmt | stmtList
  | literal | pathExpr | blockExpr | refExpr | tryExpr | prefixExpr | binExpr | castExpr
  | parenExpr | arrayExpr | indexExpr | tupleExpr | recordExpr | recordExprFieldList
  | recordExprField | callExpr | argList | methodCallExpr | fieldExpr | closureExpr | ifExpr
  | letExpr | loopExpr | forExpr | whileExpr | breakExpr | continueExpr | rangeExpr | matchExpr
  | matchArmList | matchArm | matchGuard | returnExpr | parenType | neverType | pathType
  | tupleType | ptrType | refType | arrayType | sliceType | inferType | implTraitType
  | dynTraitType | literalPat | identPat | wildcardPat | refPat | pathPat | orPat
  | tupleStructPat | tuplePat | restPat
  deriving DecidableEq, Repr, Inhabited, Hashable

namespace Kind

/-- Punctuation with its spelling, single characters first and composite forms after them. -/
def punctuation : List (Kind × String) := [
  (.semicolon, ";"), (.comma, ","), (.leftParen, "("), (.rightParen, ")"), (.leftBrace, "\x7b"),
  (.rightBrace, "\x7d"), (.leftBracket, "["), (.rightBracket, "]"), (.leftAngle, "<"),
  (.rightAngle, ">"), (.atSign, "@"), (.pound, "#"), (.tilde, "~"), (.question, "?"),
  (.dollar, "$"), (.amp, "&"), (.pipe, "|"), (.plus, "+"), (.star, "*"), (.slash, "/"),
  (.caret, "^"), (.percent, "%"), (.underscore, "_"), (.dot, "."), (.colon, ":"), (.eq, "="),
  (.bang, "!"), (.minus, "-"), (.dot2, ".."), (.dot3, "..."), (.dot2Eq, "..="), (.colon2, "::"),
  (.eq2, "=="), (.fatArrow, "=>"), (.notEq, "!="), (.thinArrow, "->"), (.ltEq, "<="),
  (.gtEq, ">="), (.plusEq, "+="), (.minusEq, "-="), (.pipeEq, "|="), (.ampEq, "&="),
  (.caretEq, "^="), (.slashEq, "/="), (.starEq, "*="), (.percentEq, "%="), (.amp2, "&&"),
  (.pipe2, "||"), (.shl, "<<"), (.shr, ">>"), (.shlEq, "<<="), (.shrEq, ">>=")]

/-- Reserved words that are not literals. -/
def keywords : List (Kind × String) := [
  (.asKw, "as"), (.asyncKw, "async"), (.breakKw, "break"), (.constKw, "const"),
  (.continueKw, "continue"), (.crateKw, "crate"), (.dynKw, "dyn"), (.elseKw, "else"),
  (.enumKw, "enum"), (.fnKw, "fn"), (.forKw, "for"), (.ifKw, "if"), (.implKw, "impl"),
  (.inKw, "in"), (.letKw, "let"), (.loopKw, "loop"), (.matchKw, "match"), (.modKw, "mod"),
  (.moveKw, "move"), (.mutKw, "mut"), (.pubKw, "pub"), (.refKw, "ref"), (.returnKw, "return"),
  (.selfKw, "self"), (.selfTypeKw, "Self"), (.staticKw, "static"), (.structKw, "struct"),
  (.superKw, "super"), (.traitKw, "trait"), (.typeKw, "type"), (.unsafeKw, "unsafe"),
  (.useKw, "use"), (.whereKw, "where"), (.whileKw, "while")]

/-- Reserved words that are literals. -/
def booleans : List (Kind × String) := [
  (.trueKw, "true"), (.falseKw, "false")]

/-- Token classes with the name that stands for them in the grammar notation. -/
def classes : List (Kind × String) := [
  (.ident, "ident"), (.lifetimeIdent, "lifetime_ident"), (.intNumber, "int_number"),
  (.floatNumber, "float_number"), (.string, "string"), (.byteString, "byte_string"),
  (.char, "char"), (.byte, "byte")]

/-- Constructs with the name of their rule in the grammar notation. -/
def nodes : List (Kind × String) := [
  (.sourceFile, "SourceFile"), (.name, "Name"), (.nameRef, "NameRef"), (.lifetime, "Lifetime"),
  (.path, "Path"), (.pathSegment, "PathSegment"), (.genericArgList, "GenericArgList"),
  (.typeArg, "TypeArg"), (.lifetimeArg, "LifetimeArg"), (.visibility, "Visibility"),
  (.module, "Module"), (.itemList, "ItemList"), (.use, "Use"), (.useTree, "UseTree"),
  (.useTreeList, "UseTreeList"), (.rename, "Rename"), (.fn, "Fn"), (.paramList, "ParamList"),
  (.selfParam, "SelfParam"), (.param, "Param"), (.retType, "RetType"), (.typeAlias, "TypeAlias"),
  (.struct, "Struct"), (.recordFieldList, "RecordFieldList"), (.recordField, "RecordField"),
  (.tupleFieldList, "TupleFieldList"), (.tupleField, "TupleField"), (.enum, "Enum"),
  (.variantList, "VariantList"), (.variant, "Variant"), (.const, "Const"), (.static, "Static"),
  (.trait, "Trait"), (.assocItemList, "AssocItemList"), (.impl, "Impl"),
  (.genericParamList, "GenericParamList"), (.typeParam, "TypeParam"),
  (.constParam, "ConstParam"), (.lifetimeParam, "LifetimeParam"), (.whereClause, "WhereClause"),
  (.wherePred, "WherePred"), (.typeBoundList, "TypeBoundList"), (.typeBound, "TypeBound"),
  (.letStmt, "LetStmt"), (.letElse, "LetElse"), (.exprStmt, "ExprStmt"), (.stmtList, "StmtList"),
  (.literal, "Literal"), (.pathExpr, "PathExpr"), (.blockExpr, "BlockExpr"),
  (.refExpr, "RefExpr"), (.tryExpr, "TryExpr"), (.prefixExpr, "PrefixExpr"),
  (.binExpr, "BinExpr"), (.castExpr, "CastExpr"), (.parenExpr, "ParenExpr"),
  (.arrayExpr, "ArrayExpr"), (.indexExpr, "IndexExpr"), (.tupleExpr, "TupleExpr"),
  (.recordExpr, "RecordExpr"), (.recordExprFieldList, "RecordExprFieldList"),
  (.recordExprField, "RecordExprField"), (.callExpr, "CallExpr"), (.argList, "ArgList"),
  (.methodCallExpr, "MethodCallExpr"), (.fieldExpr, "FieldExpr"), (.closureExpr, "ClosureExpr"),
  (.ifExpr, "IfExpr"), (.letExpr, "LetExpr"), (.loopExpr, "LoopExpr"), (.forExpr, "ForExpr"),
  (.whileExpr, "WhileExpr"), (.breakExpr, "BreakExpr"), (.continueExpr, "ContinueExpr"),
  (.rangeExpr, "RangeExpr"), (.matchExpr, "MatchExpr"), (.matchArmList, "MatchArmList"),
  (.matchArm, "MatchArm"), (.matchGuard, "MatchGuard"), (.returnExpr, "ReturnExpr"),
  (.parenType, "ParenType"), (.neverType, "NeverType"), (.pathType, "PathType"),
  (.tupleType, "TupleType"), (.ptrType, "PtrType"), (.refType, "RefType"),
  (.arrayType, "ArrayType"), (.sliceType, "SliceType"), (.inferType, "InferType"),
  (.implTraitType, "ImplTraitType"), (.dynTraitType, "DynTraitType"),
  (.literalPat, "LiteralPat"), (.identPat, "IdentPat"), (.wildcardPat, "WildcardPat"),
  (.refPat, "RefPat"), (.pathPat, "PathPat"), (.orPat, "OrPat"),
  (.tupleStructPat, "TupleStructPat"), (.tuplePat, "TuplePat"), (.restPat, "RestPat")]

/-- Every kind, in order. -/
def all : List Kind :=
  [tombstone, eof] ++ punctuation.map (·.1) ++ keywords.map (·.1) ++ booleans.map (·.1) ++
    classes.map (·.1) ++ [whitespace, comment, error] ++ nodes.map (·.1)

/-- Place of a kind in the list of all kinds. -/
def index (k : Kind) : Nat := k.ctorIdx

def ofIndex? (i : Nat) : Option Kind := all[i]?

/-- Name of a kind in capitals, as tree listings print it. -/
def label : Kind → String
  | tombstone => "TOMBSTONE"
  | eof => "EOF"
  | semicolon => "SEMICOLON"
  | comma => "COMMA"
  | leftParen => "LEFT_PAREN"
  | rightParen => "RIGHT_PAREN"
  | leftBrace => "LEFT_BRACE"
  | rightBrace => "RIGHT_BRACE"
  | leftBracket => "LEFT_BRACKET"
  | rightBracket => "RIGHT_BRACKET"
  | leftAngle => "LEFT_ANGLE"
  | rightAngle => "RIGHT_ANGLE"
  | atSign => "AT"
  | pound => "POUND"
  | tilde => "TILDE"
  | question => "QUESTION"
  | dollar => "DOLLAR"
  | amp => "AMP"
  | pipe => "PIPE"
  | plus => "PLUS"
  | star => "STAR"
  | slash => "SLASH"
  | caret => "CARET"
  | percent => "PERCENT"
  | underscore => "UNDERSCORE"
  | dot => "DOT"
  | colon => "COLON"
  | eq => "EQ"
  | bang => "BANG"
  | minus => "MINUS"
  | dot2 => "DOT2"
  | dot3 => "DOT3"
  | dot2Eq => "DOT2EQ"
  | colon2 => "COLON2"
  | eq2 => "EQ2"
  | fatArrow => "FAT_ARROW"
  | notEq => "NEQ"
  | thinArrow => "THIN_ARROW"
  | ltEq => "LTEQ"
  | gtEq => "GTEQ"
  | plusEq => "PLUSEQ"
  | minusEq => "MINUSEQ"
  | pipeEq => "PIPEEQ"
  | ampEq => "AMPEQ"
  | caretEq => "CARETEQ"
  | slashEq => "SLASHEQ"
  | starEq => "STAREQ"
  | percentEq => "PERCENTEQ"
  | amp2 => "AMP2"
  | pipe2 => "PIPE2"
  | shl => "SHL"
  | shr => "SHR"
  | shlEq => "SHLEQ"
  | shrEq => "SHREQ"
  | asKw => "AS_KW"
  | asyncKw => "ASYNC_KW"
  | breakKw => "BREAK_KW"
  | constKw => "CONST_KW"
  | continueKw => "CONTINUE_KW"
  | crateKw => "CRATE_KW"
  | dynKw => "DYN_KW"
  | elseKw => "ELSE_KW"
  | enumKw => "ENUM_KW"
  | fnKw => "FN_KW"
  | forKw => "FOR_KW"
  | ifKw => "IF_KW"
  | implKw => "IMPL_KW"
  | inKw => "IN_KW"
  | letKw => "LET_KW"
  | loopKw => "LOOP_KW"
  | matchKw => "MATCH_KW"
  | modKw => "MOD_KW"
  | moveKw => "MOVE_KW"
  | mutKw => "MUT_KW"
  | pubKw => "PUB_KW"
  | refKw => "REF_KW"
  | returnKw => "RETURN_KW"
  | selfKw => "SELF_KW"
  | selfTypeKw => "SELF_TYPE_KW"
  | staticKw => "STATIC_KW"
  | structKw => "STRUCT_KW"
  | superKw => "SUPER_KW"
  | traitKw => "TRAIT_KW"
  | typeKw => "TYPE_KW"
  | unsafeKw => "UNSAFE_KW"
  | useKw => "USE_KW"
  | whereKw => "WHERE_KW"
  | whileKw => "WHILE_KW"
  | trueKw => "TRUE_KW"
  | falseKw => "FALSE_KW"
  | ident => "IDENT"
  | lifetimeIdent => "LIFETIME_IDENT"
  | intNumber => "INT_NUMBER"
  | floatNumber => "FLOAT_NUMBER"
  | string => "STRING"
  | byteString => "BYTE_STRING"
  | char => "CHAR"
  | byte => "BYTE"
  | whitespace => "WHITESPACE"
  | comment => "COMMENT"
  | error => "ERROR"
  | sourceFile => "SOURCE_FILE"
  | name => "NAME"
  | nameRef => "NAME_REF"
  | lifetime => "LIFETIME"
  | path => "PATH"
  | pathSegment => "PATH_SEGMENT"
  | genericArgList => "GENERIC_ARG_LIST"
  | typeArg => "TYPE_ARG"
  | lifetimeArg => "LIFETIME_ARG"
  | visibility => "VISIBILITY"
  | module => "MODULE"
  | itemList => "ITEM_LIST"
  | use => "USE"
  | useTree => "USE_TREE"
  | useTreeList => "USE_TREE_LIST"
  | rename => "RENAME"
  | fn => "FN"
  | paramList => "PARAM_LIST"
  | selfParam => "SELF_PARAM"
  | param => "PARAM"
  | retType => "RET_TYPE"
  | typeAlias => "TYPE_ALIAS"
  | struct => "STRUCT"
  | recordFieldList => "RECORD_FIELD_LIST"
  | recordField => "RECORD_FIELD"
  | tupleFieldList => "TUPLE_FIELD_LIST"
  | tupleField => "TUPLE_FIELD"
  | enum => "ENUM"
  | variantList => "VARIANT_LIST"
  | variant => "VARIANT"
  | const => "CONST"
  | static => "STATIC"
  | trait => "TRAIT"
  | assocItemList => "ASSOC_ITEM_LIST"
  | impl => "IMPL"
  | genericParamList => "GENERIC_PARAM_LIST"
  | typeParam => "TYPE_PARAM"
  | constParam => "CONST_PARAM"
  | lifetimeParam => "LIFETIME_PARAM"
  | whereClause => "WHERE_CLAUSE"
  | wherePred => "WHERE_PRED"
  | typeBoundList => "TYPE_BOUND_LIST"
  | typeBound => "TYPE_BOUND"
  | letStmt => "LET_STMT"
  | letElse => "LET_ELSE"
  | exprStmt => "EXPR_STMT"
  | stmtList => "STMT_LIST"
  | literal => "LITERAL"
  | pathExpr => "PATH_EXPR"
  | blockExpr => "BLOCK_EXPR"
  | refExpr => "REF_EXPR"
  | tryExpr => "TRY_EXPR"
  | prefixExpr => "PREFIX_EXPR"
  | binExpr => "BIN_EXPR"
  | castExpr => "CAST_EXPR"
  | parenExpr => "PAREN_EXPR"
  | arrayExpr => "ARRAY_EXPR"
  | indexExpr => "INDEX_EXPR"
  | tupleExpr => "TUPLE_EXPR"
  | recordExpr => "RECORD_EXPR"
  | recordExprFieldList => "RECORD_EXPR_FIELD_LIST"
  | recordExprField => "RECORD_EXPR_FIELD"
  | callExpr => "CALL_EXPR"
  | argList => "ARG_LIST"
  | methodCallExpr => "METHOD_CALL_EXPR"
  | fieldExpr => "FIELD_EXPR"
  | closureExpr => "CLOSURE_EXPR"
  | ifExpr => "IF_EXPR"
  | letExpr => "LET_EXPR"
  | loopExpr => "LOOP_EXPR"
  | forExpr => "FOR_EXPR"
  | whileExpr => "WHILE_EXPR"
  | breakExpr => "BREAK_EXPR"
  | continueExpr => "CONTINUE_EXPR"
  | rangeExpr => "RANGE_EXPR"
  | matchExpr => "MATCH_EXPR"
  | matchArmList => "MATCH_ARM_LIST"
  | matchArm => "MATCH_ARM"
  | matchGuard => "MATCH_GUARD"
  | returnExpr => "RETURN_EXPR"
  | parenType => "PAREN_TYPE"
  | neverType => "NEVER_TYPE"
  | pathType => "PATH_TYPE"
  | tupleType => "TUPLE_TYPE"
  | ptrType => "PTR_TYPE"
  | refType => "REF_TYPE"
  | arrayType => "ARRAY_TYPE"
  | sliceType => "SLICE_TYPE"
  | inferType => "INFER_TYPE"
  | implTraitType => "IMPL_TRAIT_TYPE"
  | dynTraitType => "DYN_TRAIT_TYPE"
  | literalPat => "LITERAL_PAT"
  | identPat => "IDENT_PAT"
  | wildcardPat => "WILDCARD_PAT"
  | refPat => "REF_PAT"
  | pathPat => "PATH_PAT"
  | orPat => "OR_PAT"
  | tupleStructPat => "TUPLE_STRUCT_PAT"
  | tuplePat => "TUPLE_PAT"
  | restPat => "REST_PAT"

def ofLabel? (s : String) : Option Kind := all.find? (·.label == s)

def isTrivia : Kind → Bool
  | whitespace | comment => true
  | _ => false

def isPunctuation (k : Kind) : Bool := punctuation.any (·.1 == k)

/-- Reserved words, the two boolean literals among them. -/
def isKeyword (k : Kind) : Bool := keywords.any (·.1 == k) || booleans.any (·.1 == k)

/-- Tokens that are literals by themselves. -/
def isLiteral : Kind → Bool
  | trueKw | falseKw | intNumber | floatNumber | string | byteString | char | byte => true
  | _ => false

/-- Kinds that only ever label nodes. -/
def isNode (k : Kind) : Bool := nodes.any (·.1 == k)

/-- The fixed text of punctuation and reserved words. -/
def spelling? (k : Kind) : Option String :=
  ((punctuation ++ keywords ++ booleans).find? (·.1 == k)).map (·.2)

/-- How a kind is called in a message: by its spelling if it has one. -/
def display (k : Kind) : String := k.spelling?.getD k.label

private def lookupName (table : List (Kind × String)) (s : String) : Option Kind :=
  (table.find? (·.2 == s)).map (·.1)

def ofKeyword? (s : String) : Option Kind := lookupName (keywords ++ booleans) s

/-- The kind that a terminal of the grammar notation stands for, be it a spelling or a class. -/
def ofSpelling? (s : String) : Option Kind :=
  lookupName (punctuation ++ keywords ++ booleans ++ classes) s

def ofRuleName? (s : String) : Option Kind := lookupName nodes s

/-- The single-character tokens that a kind of punctuation is written with; any other kind is one
token by itself. -/
def pieces : Kind → List Kind
  | minusEq => [minus, eq]
  | thinArrow => [minus, rightAngle]
  | colon2 => [colon, colon]
  | notEq => [bang, eq]
  | dot2 => [dot, dot]
  | starEq => [star, eq]
  | slashEq => [slash, eq]
  | amp2 => [amp, amp]
  | ampEq => [amp, eq]
  | percentEq => [percent, eq]
  | caretEq => [caret, eq]
  | plusEq => [plus, eq]
  | shl => [leftAngle, leftAngle]
  | ltEq => [leftAngle, eq]
  | eq2 => [eq, eq]
  | fatArrow => [eq, rightAngle]
  | gtEq => [rightAngle, eq]
  | shr => [rightAngle, rightAngle]
  | pipeEq => [pipe, eq]
  | pipe2 => [pipe, pipe]
  | dot3 => [dot, dot, dot]
  | dot2Eq => [dot, dot, eq]
  | shlEq => [leftAngle, leftAngle, eq]
  | shrEq => [rightAngle, rightAngle, eq]
  | k => [k]

/-- How many single-character tokens are taken for a kind of token. -/
def width : Kind → Nat
  | dot3 | dot2Eq | shlEq | shrEq => 3
  | minusEq | thinArrow | colon2 | notEq | dot2 | starEq | slashEq | amp2 | ampEq | percentEq | caretEq
  | plusEq | shl | ltEq | eq2 | fatArrow | gtEq | shr | pipeEq | pipe2 => 2
  | _ => 1

end Kind

end Verbatim
