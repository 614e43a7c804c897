import Verbatim.Kind
import Verbatim.Text.Basic

/-!
# Names that follow from a grammar

Rules are written with capitals, kinds in capitals with underscores and accessors in small letters with
underscores. Only ASCII letters have a case here.
-/
namespace Verbatim.Grammar

/-- Sets an underscore before each capital and makes all letters small. -/
def splitCapitals : Text → Text
  | [] => []
  | c :: rest => if c.isUpper then '_' :: c.toLower :: splitCapitals rest else c :: splitCapitals rest

/-- The words of a name in small letters, joined by underscores. A first capital starts no new word. -/
def lowerSnake : Text → Text
  | [] => []
  | c :: rest => c.toLower :: splitCapitals rest

def upper (t : Text) : Text := t.map Char.toUpper

def upperSnake (name : Text) : Text := upper (lowerSnake name)

/-- What accessors for punctuation are called. -/
def stems : List (Kind × String) := [
  (.semicolon, "semicolon"), (.comma, "comma"), (.leftParen, "l_paren"), (.rightParen, "r_paren"),
  (.leftBrace, "l_curly"), (.rightBrace, "r_curly"), (.leftBracket, "l_brack"),
  (.rightBracket, "r_brack"), (.leftAngle, "l_angle"), (.rightAngle, "r_angle"), (.atSign, "at"),
  (.pound, "pound"), (.tilde, "tilde"), (.question, "question_mark"), (.dollar, "dollar"),
  (.amp, "amp"), (.pipe, "pipe"), (.plus, "plus"), (.star, "star"), (.slash, "slash"),
  (.caret, "caret"), (.percent, "percent"), (.underscore, "underscore"), (.dot, "dot"),
  (.colon, "colon"), (.eq, "eq"), (.bang, "excl"), (.minus, "minus"), (.dot2, "dotdot"),
  (.dot3, "dot3"), (.dot2Eq, "dot2eq"), (.colon2, "coloncolon"), (.eq2, "eq2"),
  (.fatArrow, "fat_arrow"), (.notEq, "neq"), (.thinArrow, "thin_arrow"), (.ltEq, "lteq"),
  (.gtEq, "gteq"), (.plusEq, "pluseq"), (.minusEq, "minuseq"), (.pipeEq, "pipeeq"),
  (.ampEq, "ampeq"), (.caretEq, "careteq"), (.slashEq, "slasheq"), (.starEq, "stareq"),
  (.percentEq, "percenteq"), (.amp2, "amp2"), (.pipe2, "pipe2"), (.shl, "shl"), (.shr, "shr"),
  (.shlEq, "shleq"), (.shrEq, "shreq")]

/-- Words that may be reserved words of a language. -/
def isReservable (spelling : Text) : Bool :=
  !spelling.isEmpty && spelling.all fun c => c.isLower || c == '_'

/-- The kind of a terminal and the stem of its accessor. Any word in small letters counts as a reserved
word, whether there is a kind for it or not. -/
def terminalName? (spelling : Text) : Option (Text × Text) :=
  let written := String.ofList spelling
  match stems.find? fun (kind, _) => kind.spelling? == some written with
  | some (kind, stem) => some (kind.label.toList, stem.toList)
  | none =>
    if Kind.classes.any (·.2 == written) then some (upper spelling, spelling)
    else if written == "Self" then some (Kind.selfTypeKw.label.toList, "self_type".toList)
    else if isReservable spelling then some (upper spelling ++ "_KW".toList, spelling)
    else none

/-- What the accessor for a child is called. -/
def accessorName (rule : Text) : Text :=
  if rule == "Type".toList then "ty".toList else lowerSnake rule

def plural (name : Text) : Text := name ++ ['s']

end Verbatim.Grammar
