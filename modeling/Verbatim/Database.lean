import Verbatim.Parse.Basic
import Verbatim.Text.Place

/-!
# Files and their parses

A database holds files under their numbers. A file is parsed when it is first asked about, and again only
after its text has been set, be it to the same text. Other files keep what is known of them.
-/
namespace Verbatim

structure SourceFile where
  path : Text
  text : Text
  /-- The parse of the text, once it has been asked for. -/
  parse? : Option Parse
  deriving Repr

structure Database where
  files : List SourceFile
  deriving Repr

namespace Database

/-- Why a question has no answer. -/
inductive Refusal where
  | unknownFile (file : Nat)
  | noSuchPlace (offset : Nat)
  | fault (f : Fault)
  deriving Repr

def empty : Database := ⟨[]⟩

/-- Adds a file; its number is the number of files before it. -/
def add (db : Database) (path text : Text) : Nat × Database :=
  (db.files.length, ⟨db.files ++ [⟨path, text, none⟩]⟩)

def file (db : Database) (file : Nat) : Except Refusal SourceFile :=
  match db.files[file]? with
  | some f => .ok f
  | none => .error (.unknownFile file)

/-- Whether a question about a file is answered without parsing it. -/
def isParsed (db : Database) (file : Nat) : Bool :=
  db.files[file]?.any (·.parse?.isSome)

def setText (db : Database) (file : Nat) (text : Text) : Database :=
  ⟨db.files.modify file fun f => ⟨f.path, text, none⟩⟩

/-- The parse of a file, which is known from then on. -/
def parse (db : Database) (file : Nat) : Except Refusal (Parse × Database) := do
  let f ← db.file file
  match f.parse? with
  | some p => return (p, db)
  | none =>
    let p ← (Parse.ofText f.text).mapError .fault
    return (p, ⟨db.files.set file { f with parse? := some p }⟩)

def place (db : Database) (file offset : Nat) : Except Refusal Text.Place := do
  let f ← db.file file
  match f.text.place? offset with
  | some p => .ok p
  | none => .error (.noSuchPlace offset)

/-- The diagnostics of a file with the places where they start. -/
def check (db : Database) (file : Nat) :
    Except Refusal (List (Diagnostic × Text.Place) × Database) := do
  let (p, db) ← db.parse file
  let found ← p.diagnostics.mapM fun d => return (d, ← db.place file d.span.start)
  return (found, db)

end Database

end Verbatim
