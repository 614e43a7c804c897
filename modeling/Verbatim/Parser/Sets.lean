import Verbatim.Kind.Set

/-!
# First and recovery sets

A first set holds the tokens that a construct can start with. A recovery set holds the tokens that are
left alone when something is missing, because the construct around can go on with them.
-/
namespace Verbatim.Parser

def literalFirst : KindSet := .ofList
  [.trueKw, .falseKw, .intNumber, .floatNumber, .string, .byteString, .char, .byte]

def nameRefFirst : KindSet := .ofList
  [.ident, .intNumber, .selfKw, .superKw, .crateKw, .selfTypeKw]

def segmentFirst : KindSet := .ofList [.ident, .selfKw, .superKw, .crateKw, .selfTypeKw]

/-- A path may start with `::`, of which the first half is seen. -/
def pathFirst : KindSet := segmentFirst.insert .colon

def itemFirst : KindSet := .ofList
  [.pubKw, .constKw, .asyncKw, .unsafeKw, .fnKw, .structKw, .enumKw, .traitKw, .implKw, .modKw,
    .useKw, .typeKw, .staticKw]

def itemRecovery : KindSet := itemFirst.insert .semicolon

def fieldFirst : KindSet := .ofList [.pubKw, .ident]

def useTreeFirst : KindSet := .ofList
  [.star, .leftBrace, .colon, .ident, .selfKw, .superKw, .crateKw, .selfTypeKw]

def typeFirst : KindSet := .ofList
  [.ident, .selfKw, .superKw, .crateKw, .selfTypeKw, .colon, .leftParen, .leftBracket, .bang,
    .star, .amp, .underscore, .implKw, .dynKw]

def typeRecovery : KindSet :=
  (KindSet.ofList [.rightParen, .rightBracket, .comma, .semicolon, .eq, .rightAngle]).union
    itemFirst

def genericParamFirst : KindSet := .ofList [.ident, .lifetimeIdent, .constKw]

def genericArgFirst : KindSet := typeFirst.insert .lifetimeIdent

def genericRecovery : KindSet := .ofList [.semicolon, .eq, .leftParen]

def patternFirst : KindSet := literalFirst.union <| .ofList
  [.ident, .selfKw, .superKw, .crateKw, .selfTypeKw, .colon, .minus, .underscore, .amp,
    .leftParen, .dot, .refKw, .mutKw]

def patternRecovery : KindSet := .ofList
  [.eq, .colon, .comma, .rightParen, .pipe, .ifKw, .inKw, .semicolon]

def paramRecovery : KindSet :=
  (KindSet.ofList [.semicolon, .minus, .whereKw]).union itemFirst

def compoundFirst : KindSet := .ofList
  [.leftParen, .leftBracket, .leftBrace, .pipe, .moveKw, .asyncKw, .unsafeKw, .constKw, .ifKw,
    .letKw, .loopKw, .whileKw, .forKw, .matchKw, .returnKw, .breakKw, .continueKw]

def expressionFirst : KindSet :=
  ((literalFirst.union pathFirst).union compoundFirst).union <| .ofList
    [.minus, .bang, .star, .amp, .dot]

def expressionRecovery : KindSet :=
  (KindSet.ofList [.semicolon, .comma, .rightParen, .rightBracket, .fatArrow]).union itemFirst

end Verbatim.Parser
