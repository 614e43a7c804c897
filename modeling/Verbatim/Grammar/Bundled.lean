import Verbatim.Grammar.Reader

/-!
# The grammar of the trees

The shape of every construct that the parser builds, in the grammar notation. Operators and children
that only their place tells apart are labeled choices or share a rule, and so have no accessor that
follows from the grammar.
-/
namespace Verbatim.Grammar

def bundledText : String := "// Concrete syntax of the Rust subset this library covers.
//
// This grammar specifies the structure of the syntax tree. It does not
// specify parsing rules (ambiguities, precedence, etc are out of scope) and
// it says nothing about tokens: a token literal denotes either a fixed
// spelling or a token class.
//
//   //          -- comment
//   Name =      -- non-terminal definition
//   'ident'     -- token (terminal)
//   A B         -- sequence
//   A | B       -- alternation
//   A*          -- zero or more repetition
//   A?          -- zero or one repetition
//   (A)         -- same as A
//   label:A     -- suggested name for field of AST node

//*************************//
//     Names and Paths     //
//*************************//

Name =
  'ident' | 'self'

NameRef =
  'ident' | 'int_number' | 'self' | 'super' | 'crate' | 'Self'

Lifetime =
  'lifetime_ident'

Path =
  (qualifier:Path '::')? segment:PathSegment

PathSegment =
  '::'? NameRef GenericArgList?

GenericArgList =
  '::'? '<' (GenericArg (',' GenericArg)* ','?)? '>'

GenericArg =
  TypeArg
| LifetimeArg

TypeArg =
  Type

LifetimeArg =
  Lifetime

//*************************//
//          Items          //
//*************************//

SourceFile =
  Item*

Item =
  Const
| Enum
| Fn
| Impl
| Module
| Static
| Struct
| Trait
| TypeAlias
| Use

Visibility =
  'pub' ('(' Path ')')?

Module =
  Visibility?
  'mod' Name
  (ItemList | ';')

ItemList =
  '\x7b' Item* '\x7d'

Use =
  Visibility?
  'use' UseTree ';'

UseTree =
  (Path? '::')? ('*' | UseTreeList)
| Path Rename?

UseTreeList =
  '\x7b' (UseTree (',' UseTree)* ','?)? '\x7d'

Rename =
  'as' (Name | '_')

Fn =
  Visibility?
  'const'? 'async'? 'unsafe'?
  'fn' Name GenericParamList? ParamList RetType? WhereClause?
  (body:BlockExpr | ';')

ParamList =
  '('(
    SelfParam
  | (SelfParam ',')? (Param (',' Param)* ','?)?
  )')'
| '|' (Param (',' Param)* ','?)? '|'
| '||'

SelfParam =
  ('&' Lifetime?)? 'mut'? Name (':' Type)?

Param =
  Pat (':' Type)?

RetType =
  '->' Type

TypeAlias =
  Visibility?
  'type' Name GenericParamList? (':' TypeBoundList?)? WhereClause?
  ('=' Type)? ';'

Struct =
  Visibility?
  'struct' Name GenericParamList? (
    WhereClause? (RecordFieldList | ';')
  | TupleFieldList WhereClause? ';'
  )

RecordFieldList =
  '\x7b' fields:(RecordField (',' RecordField)* ','?)? '\x7d'

RecordField =
  Visibility? Name ':' Type

TupleFieldList =
  '(' fields:(TupleField (',' TupleField)* ','?)? ')'

TupleField =
  Visibility? Type

FieldList =
  RecordFieldList
| TupleFieldList

Enum =
  Visibility?
  'enum' Name GenericParamList? WhereClause?
  VariantList

VariantList =
  '\x7b' (Variant (',' Variant)* ','?)? '\x7d'

Variant =
  Visibility? Name FieldList? ('=' Expr)?

Const =
  Visibility?
  'const' (Name | '_') ':' Type
  ('=' body:Expr)? ';'

Static =
  Visibility?
  'static' 'mut'? Name ':' Type
  ('=' body:Expr)? ';'

Trait =
  Visibility?
  'unsafe'?
  'trait' Name GenericParamList?
  (':' TypeBoundList?)? WhereClause? AssocItemList

AssocItemList =
  '\x7b' AssocItem* '\x7d'

AssocItem =
  Const
| Fn
| TypeAlias

Impl =
  Visibility?
  'unsafe'? 'impl' GenericParamList? ('!'? trait:Type 'for')? self_ty:Type WhereClause?
  AssocItemList

//*************************//
//        Generics         //
//*************************//

GenericParamList =
  '<' (GenericParam (',' GenericParam)* ','?)? '>'

GenericParam =
  ConstParam
| LifetimeParam
| TypeParam

TypeParam =
  Name (':' TypeBoundList?)?
  ('=' default_type:Type)?

ConstParam =
  'const' Name ':' Type

LifetimeParam =
  Lifetime (':' TypeBoundList?)?

WhereClause =
  'where' predicates:(WherePred (',' WherePred)* ','?)

WherePred =
  (Lifetime | Type) ':' TypeBoundList?

TypeBoundList =
  bounds:(TypeBound ('+' TypeBound)* '+'?)

TypeBound =
  Lifetime
| '?'? Type

//****************************//
// Statements and Expressions //
//****************************//

Stmt =
  ExprStmt
| Item
| LetStmt

LetStmt =
  'let' Pat (':' Type)?
  ('=' initializer:Expr)?
  LetElse?
  ';'

LetElse =
  'else' BlockExpr

ExprStmt =
  Expr ';'?

Expr =
  ArrayExpr
| BinExpr
| BlockExpr
| BreakExpr
| CallExpr
| CastExpr
| ClosureExpr
| ContinueExpr
| FieldExpr
| ForExpr
| IfExpr
| IndexExpr
| LetExpr
| Literal
| LoopExpr
| MatchExpr
| MethodCallExpr
| ParenExpr
| PathExpr
| PrefixExpr
| RangeExpr
| RecordExpr
| RefExpr
| ReturnExpr
| TryExpr
| TupleExpr
| WhileExpr

Literal =
  value:(
    'int_number' | 'float_number'
  | 'string' | 'byte_string'
  | 'char' | 'byte'
  | 'true' | 'false'
  )

PathExpr =
  Path

StmtList =
  '\x7b'
    statements:Stmt*
    tail_expr:Expr?
  '\x7d'

BlockExpr =
  ('unsafe' | 'async' 'move'? | 'const')? StmtList

RefExpr =
  '&' 'mut'? Expr

TryExpr =
  Expr '?'

PrefixExpr =
  op:('-' | '!' | '*') Expr

BinExpr =
  lhs:Expr
  op:(
    '||' | '&&'
  | '==' | '!=' | '<=' | '>=' | '<' | '>'
  | '+' | '*' | '-' | '/' | '%' | '<<' | '>>' | '^' | '|' | '&'
  | '=' | '+=' | '/=' | '*=' | '%=' | '>>=' | '<<=' | '-=' | '|=' | '&=' | '^='
  )
  rhs:Expr

CastExpr =
  Expr 'as' Type

ParenExpr =
  '(' Expr ')'

ArrayExpr =
  '[' (
    (Expr (',' Expr)* ','?)?
  | Expr ';' Expr
  ) ']'

IndexExpr =
  base:Expr '[' index:Expr ']'

TupleExpr =
  '(' fields:(Expr (',' Expr)* ','?)? ')'

RecordExpr =
  Path RecordExprFieldList

RecordExprFieldList =
  '\x7b'
    fields:(RecordExprField (',' RecordExprField)* ','?)?
    ('..' spread:Expr?)?
  '\x7d'

RecordExprField =
  (NameRef ':')? Expr

CallExpr =
  Expr ArgList

ArgList =
  '(' args:(Expr (',' Expr)* ','?)? ')'

MethodCallExpr =
  receiver:Expr '.' NameRef GenericArgList? ArgList

FieldExpr =
  Expr '.' NameRef

ClosureExpr =
  'move'? ParamList RetType?
  body:Expr

IfExpr =
  'if' condition:Expr then_branch:BlockExpr
  ('else' else_branch:(IfExpr | BlockExpr))?

LetExpr =
  'let' Pat '=' Expr

LoopExpr =
  'loop' loop_body:BlockExpr

ForExpr =
  'for' Pat 'in' iterable:Expr
  loop_body:BlockExpr

WhileExpr =
  'while' condition:Expr
  loop_body:BlockExpr

BreakExpr =
  'break' Lifetime? Expr?

ContinueExpr =
  'continue' Lifetime?

RangeExpr =
  start:Expr? op:('..' | '..=') end:Expr?

MatchExpr =
  'match' Expr MatchArmList

MatchArmList =
  '\x7b'
    arms:MatchArm*
  '\x7d'

MatchArm =
  Pat guard:MatchGuard? '=>' Expr ','?

MatchGuard =
  'if' condition:Expr

ReturnExpr =
  'return' Expr?

//*************************//
//          Types          //
//*************************//

Type =
  ArrayType
| DynTraitType
| ImplTraitType
| InferType
| NeverType
| ParenType
| PathType
| PtrType
| RefType
| SliceType
| TupleType

ParenType =
  '(' Type ')'

NeverType =
  '!'

PathType =
  Path

TupleType =
  '(' fields:(Type (',' Type)* ','?)? ')'

PtrType =
  '*' ('const' | 'mut') Type

RefType =
  '&' Lifetime? 'mut'? Type

ArrayType =
  '[' Type ';' Expr ']'

SliceType =
  '[' Type ']'

InferType =
  '_'

ImplTraitType =
  'impl' TypeBoundList

DynTraitType =
  'dyn' TypeBoundList

//*************************//
//        Patterns         //
//*************************//

Pat =
  IdentPat
| LiteralPat
| OrPat
| PathPat
| RefPat
| RestPat
| TuplePat
| TupleStructPat
| WildcardPat

LiteralPat =
  '-'? Literal

IdentPat =
  'ref'? 'mut'? Name ('@' Pat)?

WildcardPat =
  '_'

RefPat =
  '&' 'mut'? Pat

PathPat =
  Path

OrPat =
  (Pat ('|' Pat)* '|'?)

TupleStructPat =
  Path '(' fields:(Pat (',' Pat)* ','?)? ')'

TuplePat =
  '(' fields:(Pat (',' Pat)* ','?)? ')'

RestPat =
  '..'
"

def bundled : Grammar := (ofText bundledText.toList).toOption.getD empty

end Verbatim.Grammar
