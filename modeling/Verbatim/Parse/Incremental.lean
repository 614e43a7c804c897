import Verbatim.Edit
import Verbatim.Parse.Basic
import Verbatim.Position.Search

/-!
# Parsing an edited text

An edit inside of one token often leaves that token as it was but for its text, and an edit inside of a
braced list often concerns that list alone. In both cases the rest of the old tree is kept. Where neither
holds for sure, the whole text is parsed again.
-/
namespace Verbatim

/-- What was done about an edit, with the span of the old element that was replaced. -/
inductive Strategy where
  | token (span : Span)
  | block (span : Span)
  | full
  deriving DecidableEq, Repr

/-- A new tree, the diagnostics inside of the replaced part, and the old span of that part. -/
structure Patch where
  tree : Green
  diagnostics : List Diagnostic
  span : Span

/-- Why there is no parse of the edited text. -/
inductive EditError where
  | misfit (cause : Edit.Misfit)
  | fault (cause : Fault)
  deriving DecidableEq, Repr

namespace Parse

/-- Line comments but for those that document what is around them, which end the attachment of the
comments above them. -/
def isPlainLineComment (t : Text) : Bool :=
  Text.startsWith t ['/', '/'] && !Text.startsWith t ['/', '/', '!']

/-- Whether a token may change its text without any effect on its surroundings. Line breaks decide where
comments end and what they are attached to, so they may neither come nor go. -/
def isRelexable (p : Position) (e : Edit) : Bool :=
  match p.kind with
  | .ident | .lifetimeIdent | .intNumber | .floatNumber | .string | .byteString | .char | .byte =>
    true
  | .whitespace => !p.text.hasLineBreak && !e.insert.hasLineBreak
  | .comment => isPlainLineComment p.text && !e.insert.hasLineBreak
  | _ => false

/-- The kind of the one token without fault that a text is made of. -/
def singleToken? (t : Text) : Option Kind :=
  match Token.list t with
  | [only, stop] => if stop.kind == .eof && only.fault.isNone then some only.kind else none
  | _ => none

/-- Whether a token is still the first one when `next` follows it directly. -/
def staysApart (kind : Kind) (t next : Text) : Bool :=
  match Token.list (t ++ next) with
  | first :: _ => first.kind == kind && first.text.size == t.size
  | [] => false

/-- The edited text of the element at a position. -/
def editedText? (p : Position) (e : Edit) : Option Text := (e.relativeTo p.offset).applyTo? p.text

/-- Exchanges the text of the one token that the edit lies in. A token with a diagnostic is not
exchanged, since that would go stale. -/
def patchToken? (root : Position) (old : List Diagnostic) (e : Edit) : Option Patch := do
  let p := root.covering e.delete
  guard (p.isToken && isRelexable p e)
  guard (!old.any (·.span.start == p.offset))
  let t ← editedText? p e
  guard (singleToken? t == some p.kind)
  guard (p.kind != .comment || isPlainLineComment t)
  guard ((p.nextToken?.map fun next => staysApart p.kind t next.text).getD true)
  return ⟨p.replaceWith (.token p.kind t), [], p.span⟩

/-- Parses the edited text of one list in place of the old one. The fragment starts without any nesting
around it, so close to the limit it is left to a full parse. -/
def patchList? (p : Position) (e : Edit) : Except Fault (Option Patch) := do
  let some f := Fragment.ofKind? p.kind | return none
  if !p.span.covers e.delete then return none
  if p.lastChildOrToken?.map Position.kind != some .rightBrace then return none
  let some t := editedText? p e | return none
  let some list ← f.parse? t | return none
  if nestingLimit ≤ p.ancestors.length + list.tree.depth then return none
  let moved := list.diagnostics.map fun d => { d with span := d.span.shift p.offset }
  return some ⟨p.replaceWith list.tree, moved, p.span⟩

/-- The first patch that one of the positions allows. -/
def firstPatch? (e : Edit) : List Position → Except Fault (Option Patch)
  | [] => .ok none
  | p :: ps => do
    match ← patchList? p e with
    | some patch => return some patch
    | none => firstPatch? e ps

/-- Parses again the innermost list around the edit that can be parsed by itself. -/
def patchBlock? (root : Position) (e : Edit) : Except Fault (Option Patch) :=
  let p := root.covering e.delete
  firstPatch? e (p.ancestors.filter (·.isNode))

/-- The old diagnostics before and behind the replaced part, the latter moved by the edit, with the new
ones in between. One that is anchored at the first token of the part belongs to what is around it. -/
def mergeDiagnostics (old new : List Diagnostic) (span : Span) (e : Edit) : List Diagnostic :=
  old.filter (·.span.start ≤ span.start) ++ new ++
    (old.filter (span.stop ≤ ·.span.start)).map fun d => { d with span := e.shiftSpan d.span }

def patched (old : Parse) (e : Edit) (patch : Patch) : Parse :=
  ⟨patch.tree, mergeDiagnostics old.diagnostics patch.diagnostics patch.span e⟩

/-- The parse of the edited text, and how it came about. -/
def edit (old : Parse) (e : Edit) : Except EditError (Parse × Strategy) := do
  let root := Position.root old.tree
  if !root.span.covers e.delete then
    throw (.misfit (.outOfBounds e.delete root.size))
  let some t := e.applyTo? old.text | throw (.misfit .insideCharacter)
  if let some patch := patchToken? root old.diagnostics e then
    return (old.patched e patch, .token patch.span)
  if let some patch ← (patchBlock? root e).mapError .fault then
    return (old.patched e patch, .block patch.span)
  return (← (ofText t).mapError .fault, .full)

end Parse

end Verbatim
