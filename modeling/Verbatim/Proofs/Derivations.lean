import Mathlib.Tactic.Common
import Verbatim.Grammar.Notation

/-!
# What a grammar text may say

A reader accepts just what the rules of the notation derive, if no name is defined twice and every name that
stands for a rule is defined. Where a body ends is not marked: no body has an equals sign, so a name before
one is always the next definition.
-/
namespace Verbatim.Grammar

/-! ## How derived rows start and what is in them -/

/-- Lexemes that an element starts with. -/
def Lexeme.opens : Lexeme → Bool
  | name _ | terminal _ | leftParen => true
  | _ => false

theorem Derives.opens {f : Form} {ls : List Lexeme} {t : Tree} (h : Derives f ls t) :
    ∃ l ms, ls = l :: ms ∧ l.opens = true := by
  induction h with
  | ref name => exact ⟨_, _, rfl, rfl⟩
  | terminal text => exact ⟨_, _, rfl, rfl⟩
  | label name => exact ⟨_, _, rfl, rfl⟩
  | group => exact ⟨_, _, rfl, rfl⟩
  | bare _ ih => exact ih
  | marked _ _ ih =>
    obtain ⟨l, ms, rfl, hl⟩ := ih
    exact ⟨l, _, rfl, hl⟩
  | seqOne _ ih => exact ih
  | seqMore _ _ ih =>
    obtain ⟨l, ms, rfl, hl⟩ := ih
    exact ⟨l, _, rfl, hl⟩
  | altOne _ ih => exact ih
  | altMore _ _ ih =>
    obtain ⟨l, ms, rfl, hl⟩ := ih
    exact ⟨l, _, rfl, hl⟩

theorem Derives.no_equals {f : Form} {ls : List Lexeme} {t : Tree} (h : Derives f ls t) :
    .equals ∉ ls := by
  induction h with
  | marked suffix _ ih => cases suffix <;> simpa [Suffix.lexeme] using ih
  | _ => simp_all

/-- Whether a lexeme with some property stands first. -/
def startsWith (p : Lexeme → Bool) : List Placed → Bool
  | [] => false
  | t :: _ => p t.lexeme

def isSuffix (l : Lexeme) : Bool := l == .star || l == .question

/-- What cannot stand behind an element: it would make a label or a definition of it. -/
def isLink (l : Lexeme) : Bool := l == .colon || l == .equals

theorem startsWith_append {f : Form} {front rest : List Placed} {t : Tree}
    (h : Derives f (lexemes front) t) (p : Lexeme → Bool) (hp : ∀ l, l.opens = true → p l = false) :
    startsWith p (front ++ rest) = false := by
  obtain ⟨l, ms, eq, hl⟩ := h.opens
  cases front with
  | nil => simp [lexemes] at eq
  | cons first front =>
    obtain ⟨rfl, -⟩ := List.cons.inj eq
    exact hp _ hl

theorem endsSequence_eq (ts : List Placed) : endsSequence ts =
    (startsWith (fun l => l == .pipe || l == .rightParen) ts || endsDefinition ts) := by
  unfold endsSequence
  split
  · rfl
  · rfl
  · next no_pipe no_paren =>
    cases ts with
    | nil => rfl
    | cons t ts =>
      obtain ⟨l, offset⟩ := t
      cases l <;> simp_all [startsWith]

/-- Where a sequence ends, nothing stands that belongs to an element. -/
theorem not_startsWith_of_ends {ts : List Placed} (h : endsSequence ts = true) (p : Lexeme → Bool)
    (hp : p .pipe = false ∧ p .rightParen = false ∧ ∀ n, p (.name n) = false) :
    startsWith p ts = false := by
  obtain ⟨pipe, paren, name⟩ := hp
  unfold endsSequence at h
  split at h
  · exact pipe
  · exact paren
  · unfold endsDefinition startsDefinition at h
    split at h
    · exact name _
    · cases ts with
      | nil => rfl
      | cons t ts => simp at h

theorem second_of_startsDefinition {t : Placed} {ts : List Placed}
    (h : startsDefinition (t :: ts) = true) : startsWith (· == .equals) ts = true := by
  unfold startsDefinition at h
  split at h
  · next eq => cases eq; rfl
  · cases h

/-- What is derived does not end where it starts. -/
theorem not_ends {f : Form} {front rest : List Placed} {t : Tree}
    (h : Derives f (lexemes front) t) (link : startsWith isLink rest = false) :
    endsSequence (front ++ rest) = false := by
  have opens : startsWith (fun l => l == .pipe || l == .rightParen) (front ++ rest) = false :=
    startsWith_append h _ (by intro l hl; cases l <;> first | rfl | cases hl)
  rw [endsSequence_eq, opens, Bool.false_or, Bool.eq_false_iff]
  intro ends
  obtain ⟨l, ms, eq, -⟩ := h.opens
  rcases front with _ | ⟨first, _ | ⟨second, front⟩⟩
  · simp [lexemes] at eq
  · -- An equals sign behind the only lexeme would be a link.
    have : startsWith (· == .equals) rest = true :=
      second_of_startsDefinition (t := first) (by simpa [endsDefinition] using ends)
    cases rest with
    | nil => cases this
    | cons r rest => simp_all [startsWith, isLink]
  · -- An equals sign behind the first one would be derived.
    have : startsWith (· == .equals) (second :: (front ++ rest)) = true :=
      second_of_startsDefinition (t := first) (by simpa [endsDefinition] using ends)
    have no_equals := h.no_equals
    simp_all [startsWith, lexemes]

/-! ## What is read is derived -/

theorem behind?_some {ts : List Placed} {mark : Lexeme} {left rest : Fewer ts}
    (h : left.behind? mark = some rest) : ∃ offset, left.val = ⟨mark, offset⟩ :: rest.val := by
  obtain ⟨_ | ⟨t, us⟩, hl⟩ := left
  · cases h
  · obtain ⟨rfl, eq⟩ := Option.ite_none_right_eq_some.mp h
    cases eq
    exact ⟨t.offset, rfl⟩

theorem behind?_none {ts : List Placed} {mark : Lexeme} {left : Fewer ts}
    (h : left.behind? mark = none) : startsWith (· == mark) left.val = false := by
  obtain ⟨_ | ⟨t, us⟩, hl⟩ := left
  · rfl
  · simpa [Fewer.behind?, startsWith] using h

/-- A front of a row is derived as a tree all of whose names are defined. -/
structure Took (s : Scope) (f : Form) (ts rest : List Placed) (t : Tree) : Prop where
  derives : ∃ front, ts = front ++ rest ∧ Derives f (lexemes front) t
  tight : t.tight = true
  defined : ∀ n ∈ t.references, n ∈ s.rules

theorem lexemes_append (ts us : List Placed) : lexemes (ts ++ us) = lexemes ts ++ lexemes us :=
  List.map_append

/-- One more suffix. -/
theorem Took.marked {s : Scope} {all rest : List Placed} {t : Tree} {suffix : Suffix} {offset : Nat}
    (h : Took s .suffixed all (⟨suffix.lexeme, offset⟩ :: rest) t) (bare : t.isLabel = false) :
    Took s .suffixed all rest (.marked suffix t) := by
  obtain ⟨⟨front, rfl, derives⟩, tight, defined⟩ := h
  refine ⟨⟨front ++ [⟨suffix.lexeme, offset⟩], by simp, ?_⟩, by simp [Tree.tight, bare, tight], defined⟩
  rw [lexemes_append]
  exact derives.marked suffix

/-- All suffixes behind an element. -/
theorem took_suffixed {s : Scope} {all ts : List Placed} {t : Tree} (h : Took s .suffixed all ts t)
    (label : t.isLabel = true → startsWith isSuffix ts = false) :
    ∃ u, Took s .suffixed all (suffixed (t.rule s) ts).2.val u ∧
      (suffixed (t.rule s) ts).1 = u.rule s ∧
      startsWith isSuffix (suffixed (t.rule s) ts).2.val = false := by
  induction ts generalizing t with
  | nil => exact ⟨t, h, rfl, rfl⟩
  | cons first ts ih =>
    obtain ⟨l, offset⟩ := first
    have more (suffix : Suffix) (hl : l = suffix.lexeme) :
        Took s .suffixed all ts (.marked suffix t) := by
      subst hl
      refine h.marked (Bool.eq_false_iff.mpr fun is => ?_)
      have := label is
      cases suffix <;> cases this
    cases l with
    | star => exact ih (more .star rfl) (by simp [Tree.isLabel])
    | question => exact ih (more .question rfl) (by simp [Tree.isLabel])
    | _ => exact ⟨t, h, rfl, rfl⟩

/-- What the readers take of a row is derived, and nothing that belongs to it is left behind. -/
structure SoundAt (s : Scope) (owner : Text) (ts : List Placed) : Prop where
  element : ∀ {r left}, atom s owner ts = .ok (r, left) → ∃ t, Took s .element ts left.val t ∧
    r = t.rule s ∧ (t.isLabel = true → startsWith isSuffix left.val = false)
  suffixed : ∀ {r left}, suffixedAtom s owner ts = .ok (r, left) →
    ∃ t, Took s .suffixed ts left.val t ∧ r = t.rule s ∧ startsWith isSuffix left.val = false
  sequence : ∀ {rs left}, sequenceOf s owner ts = .ok (rs, left) →
    ∃ us, Took s .sequence ts left.val (.seq us) ∧ rs = Tree.rules s us ∧ endsSequence left.val = true
  choice : ∀ {rs left}, alternatives s owner ts = .ok (rs, left) →
    ∃ us, Took s .choice ts left.val (.alt us) ∧ rs = Tree.rules s us ∧ endsSequence left.val = true ∧
      startsWith (· == .pipe) left.val = false

section Sound

variable {s : Scope} {owner : Text} {ts : List Placed}

theorem sound_element (ih : ∀ us : List Placed, us.length < ts.length → SoundAt s owner us)
    {r : Rule} {left : Fewer ts} (h : atom s owner ts = .ok (r, left)) :
    ∃ t, Took s .element ts left.val t ∧ r = t.rule s ∧
      (t.isLabel = true → startsWith isSuffix left.val = false) := by
  unfold atom at h
  split at h
  · next n offset behind rest =>
    split at h
    · cases h
    · next r' left' hr =>
      cases h
      obtain ⟨t, ⟨⟨front, parts, derives⟩, tight, defined⟩, rfl, stop⟩ :=
        (ih rest (by simp only [List.length_cons]; omega)).suffixed hr
      exact ⟨.label n t, ⟨⟨⟨.name n, offset⟩ :: ⟨.colon, behind⟩ :: front,
        congrArg (⟨.name n, offset⟩ :: ⟨.colon, behind⟩ :: ·) parts, .label n derives⟩, tight, defined⟩,
        rfl, fun _ => stop⟩
  · next n offset rest _ =>
    split at h
    · next i hi =>
      cases h
      obtain ⟨mem, index⟩ := List.findIdx?_eq_some_iff_findIdx_eq.mp hi
      have index : s.rules.idxOf n = i := index
      refine ⟨.ref n, ⟨⟨[⟨.name n, offset⟩], rfl, .ref n⟩, rfl, fun m hm => ?_⟩, by rw [Tree.rule, index],
        by simp [Tree.isLabel]⟩
      rw [Tree.references, List.mem_singleton] at hm
      rw [hm]
      exact List.idxOf_lt_length_iff.mp (index ▸ mem)
    · cases h
  · next text offset rest =>
    cases h
    exact ⟨.terminal text, ⟨⟨[⟨.terminal text, offset⟩], rfl, .terminal text⟩, rfl,
      by simp [Tree.references]⟩, rfl, by simp [Tree.isLabel]⟩
  · next offset rest =>
    split at h
    · cases h
    · next rules left' hr =>
      split at h
      · next left'' hb =>
        cases h
        obtain ⟨us, ⟨⟨front, parts, derives⟩, tight, defined⟩, rfl, -, -⟩ :=
          (ih rest (by simp)).choice hr
        obtain ⟨close, eq⟩ := behind?_some hb
        refine ⟨.alt us, ⟨⟨⟨.leftParen, offset⟩ :: (front ++ [⟨.rightParen, close⟩]), ?_, ?_⟩, tight,
          defined⟩, rfl, by simp [Tree.isLabel]⟩
        · refine congrArg (⟨.leftParen, offset⟩ :: ·) (parts.trans ?_)
          rw [eq]
          exact (List.append_assoc front [_] _).symm
        · have : lexemes (⟨.leftParen, offset⟩ :: (front ++ [⟨.rightParen, close⟩])) =
              .leftParen :: (lexemes front ++ [.rightParen]) := by simp [lexemes]
          rw [this]
          exact .group derives
      · cases h
  · cases h

theorem sound_suffixed
    (element : ∀ {r left}, atom s owner ts = .ok (r, left) → ∃ t, Took s .element ts left.val t ∧
      r = t.rule s ∧ (t.isLabel = true → startsWith isSuffix left.val = false))
    {r : Rule} {left : Fewer ts} (h : suffixedAtom s owner ts = .ok (r, left)) :
    ∃ t, Took s .suffixed ts left.val t ∧ r = t.rule s ∧ startsWith isSuffix left.val = false := by
  unfold suffixedAtom at h
  split at h
  · cases h
  · next r' rest hr he =>
    cases h
    obtain ⟨t, ⟨⟨front, parts, derives⟩, tight, defined⟩, rfl, label⟩ := element he
    exact took_suffixed ⟨⟨front, parts, .bare derives⟩, tight, defined⟩ label

theorem sound_sequence (ih : ∀ us : List Placed, us.length < ts.length → SoundAt s owner us)
    (suffixed : ∀ {r left}, suffixedAtom s owner ts = .ok (r, left) →
      ∃ t, Took s .suffixed ts left.val t ∧ r = t.rule s ∧ startsWith isSuffix left.val = false)
    {rs : List Rule} {left : Fewer ts} (h : sequenceOf s owner ts = .ok (rs, left)) :
    ∃ us, Took s .sequence ts left.val (.seq us) ∧ rs = Tree.rules s us ∧
      endsSequence left.val = true := by
  unfold sequenceOf at h
  split at h
  · cases h
  · split at h
    · cases h
    · next r rest hr he =>
      obtain ⟨t, ⟨⟨front, parts, derives⟩, tight, defined⟩, rfl, -⟩ := suffixed he
      split at h
      · next ends =>
        cases h
        exact ⟨[t], ⟨⟨front, parts, .seqOne derives⟩, by simp [Tree.tight, Tree.tightAll, tight],
          by simpa [Tree.references, Tree.referencesOf] using defined⟩, rfl, ends⟩
      · split at h
        · cases h
        · next more left' hm =>
          cases h
          obtain ⟨us, ⟨⟨back, parts', derives'⟩, tight', defined'⟩, rfl, ends⟩ :=
            (ih rest hr).sequence hm
          refine ⟨t :: us, ⟨⟨front ++ back, ?_, ?_⟩, ?_, fun n hn => ?_⟩, rfl, ends⟩
          · exact parts.trans ((congrArg (front ++ ·) parts').trans (List.append_assoc ..).symm)
          · rw [lexemes_append]
            exact .seqMore derives derives'
          · simpa [Tree.tight, Tree.tightAll, tight] using tight'
          · rw [Tree.references, Tree.referencesOf, List.mem_append] at hn
            exact hn.elim (defined n) (defined' n)

theorem sound_choice (ih : ∀ us : List Placed, us.length < ts.length → SoundAt s owner us)
    (sequence : ∀ {rs left}, sequenceOf s owner ts = .ok (rs, left) →
      ∃ us, Took s .sequence ts left.val (.seq us) ∧ rs = Tree.rules s us ∧
        endsSequence left.val = true)
    {rs : List Rule} {left : Fewer ts} (h : alternatives s owner ts = .ok (rs, left)) :
    ∃ us, Took s .choice ts left.val (.alt us) ∧ rs = Tree.rules s us ∧ endsSequence left.val = true ∧
      startsWith (· == .pipe) left.val = false := by
  unfold alternatives at h
  split at h
  · cases h
  · next first left' hf =>
    obtain ⟨us, ⟨⟨front, parts, derives⟩, tight, defined⟩, rfl, ends⟩ := sequence hf
    split at h
    · next hb =>
      cases h
      exact ⟨[.seq us], ⟨⟨front, parts, .altOne derives⟩, by simpa [Tree.tight, Tree.tightAll] using tight,
        by simpa [Tree.references, Tree.referencesOf] using defined⟩, rfl, ends, behind?_none hb⟩
    · next rest hr hb =>
      split at h
      · cases h
      · next more left'' hm =>
        cases h
        obtain ⟨bar, eq⟩ := behind?_some hb
        obtain ⟨vs, ⟨⟨back, parts', derives'⟩, tight', defined'⟩, rfl, ends', no_bar⟩ :=
          (ih rest hr).choice hm
        refine ⟨.seq us :: vs, ⟨⟨front ++ ⟨.pipe, bar⟩ :: back, ?_, ?_⟩, ?_, fun n hn => ?_⟩, rfl, ends',
          no_bar⟩
        · refine parts.trans ?_
          rw [eq, List.append_assoc]
          exact congrArg (front ++ ⟨.pipe, bar⟩ :: ·) parts'
        · rw [lexemes_append]
          exact .altMore derives derives'
        · exact (Bool.and_eq_true _ _).mpr ⟨tight, tight'⟩
        · rw [Tree.references, Tree.referencesOf, List.mem_append] at hn
          exact hn.elim (defined n) (defined' n)

end Sound

theorem sound_at (s : Scope) (owner : Text) (ts : List Placed) : SoundAt s owner ts := by
  have ih : ∀ us : List Placed, us.length < ts.length → SoundAt s owner us :=
    fun us _ => sound_at s owner us
  have element := @sound_element s owner ts ih
  have suffixed := @sound_suffixed s owner ts element
  have sequence := @sound_sequence s owner ts ih suffixed
  exact ⟨element, suffixed, sequence, @sound_choice s owner ts ih sequence⟩
termination_by ts.length

/-! ## What is derived is read -/

/-- What a reader takes, and what it leaves. -/
def told {α : Type} {ts : List Placed} (r : Except Error (α × Fewer ts)) :
    Except Error (α × List Placed) :=
  r.map fun (a, left) => (a, left.val)

theorem told_eq_ok {α : Type} {ts : List Placed} {r : Except Error (α × Fewer ts)} {a : α}
    {rest : List Placed} (h : told r = .ok (a, rest)) : ∃ left, r = .ok (a, left) ∧ left.val = rest := by
  cases r with
  | error e => cases h
  | ok r =>
    cases h
    exact ⟨r.2, rfl, rfl⟩

/-- What is to be shown of a row that is derived: its reader takes just this row, whatever follows that can
follow. -/
def Accepts (s : Scope) (owner : Text) (f : Form) (front : List Placed) (t : Tree) : Prop :=
  match f with
  | .element => ∀ rest, startsWith isLink rest = false →
      (t.isLabel = true → startsWith isSuffix rest = false) →
      told (atom s owner (front ++ rest)) = .ok (t.rule s, rest)
  | .suffixed => ∀ rest, startsWith isLink rest = false →
      (t.isLabel = true → startsWith isSuffix rest = false) →
      told (suffixedAtom s owner (front ++ rest)) =
        .ok ((suffixed (t.rule s) rest).1, (suffixed (t.rule s) rest).2.val)
  | .sequence => ∃ us, t = .seq us ∧ ∀ rest, endsSequence rest = true →
      told (sequenceOf s owner (front ++ rest)) = .ok (Tree.rules s us, rest)
  | .choice => ∃ us, t = .alt us ∧ ∀ rest, endsSequence rest = true →
      startsWith (· == .pipe) rest = false →
      told (alternatives s owner (front ++ rest)) = .ok (Tree.rules s us, rest)

theorem suffixed_of_stop {r : Rule} {rest : List Placed} (h : startsWith isSuffix rest = false) :
    ((suffixed r rest).1, (suffixed r rest).2.val) = (r, rest) := by
  cases rest with
  | nil => rfl
  | cons first rest =>
    obtain ⟨l, offset⟩ := first
    cases l <;> first | rfl | cases h

theorem lexemes_eq_append {front : List Placed} {ls ms : List Lexeme}
    (h : lexemes front = ls ++ ms) : ∃ a b, front = a ++ b ∧ lexemes a = ls ∧ lexemes b = ms :=
  List.map_eq_append_iff.mp h

theorem lexemes_eq_cons {front : List Placed} {l : Lexeme} {ls : List Lexeme}
    (h : lexemes front = l :: ls) : ∃ offset b, front = ⟨l, offset⟩ :: b ∧ lexemes b = ls := by
  obtain ⟨a, b, rfl, rfl, hb⟩ := List.map_eq_cons_iff.mp h
  exact ⟨a.offset, b, rfl, hb⟩

section Accepts

variable {s : Scope} {owner : Text}

theorem accepts_ref {name : Text} (offset : Nat) (defined : name ∈ s.rules) :
    Accepts s owner .element [⟨.name name, offset⟩] (.ref name) := by
  intro rest link _
  have index : s.rules.idxOf? name = some (s.rules.idxOf name) :=
    List.findIdx?_eq_some_iff_findIdx_eq.mpr ⟨List.idxOf_lt_length_iff.mpr defined, rfl⟩
  rw [List.singleton_append]
  cases rest with
  | nil => simp [atom, index, told, Except.map, Tree.rule]
  | cons first rest =>
    obtain ⟨l, behind⟩ := first
    cases l <;> simp_all [atom, told, Except.map, Tree.rule, startsWith, isLink]

theorem accepts_terminal (text : Text) (offset : Nat) :
    Accepts s owner .element [⟨.terminal text, offset⟩] (.terminal text) := by
  intro rest _ _
  rw [List.singleton_append, atom]
  rfl

theorem accepts_label (name : Text) {front : List Placed} {t : Tree} (offset behind : Nat)
    (h : Accepts s owner .suffixed front t) :
    Accepts s owner .element (⟨.name name, offset⟩ :: ⟨.colon, behind⟩ :: front) (.label name t) := by
  intro rest link stop
  have inner := h rest link fun _ => stop rfl
  rw [suffixed_of_stop (stop rfl)] at inner
  obtain ⟨left, eq, left_eq⟩ := told_eq_ok inner
  rw [List.cons_append, List.cons_append, atom, eq]
  exact congrArg (fun rest => Except.ok (Rule.label name (t.rule s), rest)) left_eq

theorem accepts_group {front : List Placed} {t : Tree} (offset close : Nat)
    (h : Accepts s owner .choice front t) :
    Accepts s owner .element (⟨.leftParen, offset⟩ :: (front ++ [⟨.rightParen, close⟩])) t := by
  obtain ⟨us, rfl, inner⟩ := h
  intro rest _ _
  obtain ⟨left, eq, left_eq⟩ := told_eq_ok (inner (⟨.rightParen, close⟩ :: rest) rfl rfl)
  have closed : ∃ left', left.behind? .rightParen = some left' ∧ left'.val = rest := by
    obtain ⟨val, lt⟩ := left
    subst left_eq
    exact ⟨⟨rest, _⟩, rfl, rfl⟩
  obtain ⟨left', behind, left_eq'⟩ := closed
  rw [List.cons_append, List.append_assoc, List.singleton_append, atom, eq]
  simp only [behind]
  exact congrArg (fun rest => Except.ok (Rule.choice (Tree.rules s us), rest)) left_eq'

theorem accepts_bare {front : List Placed} {t : Tree} (h : Accepts s owner .element front t) :
    Accepts s owner .suffixed front t := by
  intro rest link stop
  obtain ⟨left, eq, left_eq⟩ := told_eq_ok (h rest link stop)
  rw [suffixedAtom, eq]
  exact congrArg (fun rest => Except.ok
    ((suffixed (t.rule s) rest).1, (suffixed (t.rule s) rest).2.val)) left_eq

theorem accepts_marked {front : List Placed} {t : Tree} (suffix : Suffix) (offset : Nat)
    (h : Accepts s owner .suffixed front t) (bare : t.isLabel = false) :
    Accepts s owner .suffixed (front ++ [⟨suffix.lexeme, offset⟩]) (.marked suffix t) := by
  intro rest _ _
  rw [List.append_assoc, List.singleton_append, h (⟨suffix.lexeme, offset⟩ :: rest)
    (by cases suffix <;> rfl) (by simp [bare])]
  cases suffix <;> rfl

theorem accepts_seqOne {front : List Placed} {t : Tree} (derives : Derives .suffixed (lexemes front) t)
    (h : Accepts s owner .suffixed front t) : Accepts s owner .sequence front (.seq [t]) := by
  refine ⟨[t], rfl, fun rest ends => ?_⟩
  have link := not_startsWith_of_ends ends isLink ⟨rfl, rfl, fun _ => rfl⟩
  have stop := not_startsWith_of_ends ends isSuffix ⟨rfl, rfl, fun _ => rfl⟩
  have first := h rest link fun _ => stop
  rw [suffixed_of_stop stop] at first
  obtain ⟨⟨left, lt⟩, eq, left_eq⟩ := told_eq_ok first
  obtain rfl : left = rest := left_eq
  rw [sequenceOf, not_ends derives link]
  simp only [eq, ends]
  rfl

theorem accepts_seqMore {front back : List Placed} {t : Tree} {us : List Tree}
    (derives : Derives .suffixed (lexemes front) t) (more : Derives .sequence (lexemes back) (.seq us))
    (h : Accepts s owner .suffixed front t) (hb : Accepts s owner .sequence back (.seq us)) :
    Accepts s owner .sequence (front ++ back) (.seq (t :: us)) := by
  obtain ⟨_, ⟨⟩, hb⟩ := hb
  refine ⟨t :: us, rfl, fun rest ends => ?_⟩
  have no_link := not_startsWith_of_ends ends isLink ⟨rfl, rfl, fun _ => rfl⟩
  have link : startsWith isLink (back ++ rest) = false :=
    startsWith_append more isLink (by intro l hl; cases l <;> first | rfl | cases hl)
  have stop : startsWith isSuffix (back ++ rest) = false :=
    startsWith_append more isSuffix (by intro l hl; cases l <;> first | rfl | cases hl)
  have first := h (back ++ rest) link fun _ => stop
  rw [suffixed_of_stop stop] at first
  obtain ⟨⟨left, lt⟩, eq, left_eq⟩ := told_eq_ok first
  obtain rfl : left = back ++ rest := left_eq
  obtain ⟨left', eq', left_eq'⟩ := told_eq_ok (hb rest ends)
  rw [List.append_assoc, sequenceOf, not_ends derives link]
  simp only [eq, not_ends more no_link, eq']
  exact congrArg (fun rest => Except.ok (t.rule s :: Tree.rules s us, rest)) left_eq'

theorem accepts_altOne {front : List Placed} {t : Tree} (h : Accepts s owner .sequence front t) :
    Accepts s owner .choice front (.alt [t]) := by
  obtain ⟨us, rfl, h⟩ := h
  refine ⟨[.seq us], rfl, fun rest ends bar => ?_⟩
  obtain ⟨left, eq, left_eq⟩ := told_eq_ok (h rest ends)
  have alone : left.behind? .pipe = none := by
    obtain ⟨val, lt⟩ := left
    obtain rfl : val = rest := left_eq
    cases val with
    | nil => rfl
    | cons first rest => simpa [Fewer.behind?, startsWith] using bar
  rw [alternatives, eq]
  simp only [alone]
  exact congrArg (fun rest => Except.ok ([Rule.sequence (Tree.rules s us)], rest)) left_eq

theorem accepts_altMore {front back : List Placed} {t : Tree} {us : List Tree} (bar : Nat)
    (h : Accepts s owner .sequence front t) (hb : Accepts s owner .choice back (.alt us)) :
    Accepts s owner .choice (front ++ ⟨.pipe, bar⟩ :: back) (.alt (t :: us)) := by
  obtain ⟨ts, rfl, h⟩ := h
  obtain ⟨_, ⟨⟩, hb⟩ := hb
  refine ⟨.seq ts :: us, rfl, fun rest ends no_bar => ?_⟩
  obtain ⟨left, eq, left_eq⟩ := told_eq_ok (h (⟨.pipe, bar⟩ :: (back ++ rest)) rfl)
  have again : ∃ lt, left.behind? .pipe = some ⟨back ++ rest, lt⟩ := by
    obtain ⟨val, lt⟩ := left
    subst left_eq
    exact ⟨_, rfl⟩
  obtain ⟨lt, again⟩ := again
  obtain ⟨left', eq', left_eq'⟩ := told_eq_ok (hb rest ends no_bar)
  rw [List.append_assoc, List.cons_append, alternatives, eq]
  simp only [again, eq']
  exact congrArg (fun rest => Except.ok
    (Rule.sequence (Tree.rules s ts) :: Tree.rules s us, rest)) left_eq'

/-- A derived row is read as its tree, if the tree is tight and its names are defined. -/
theorem Derives.accepts {f : Form} {ls : List Lexeme} {t : Tree} (h : Derives f ls t)
    (front : List Placed) (eq : lexemes front = ls) (tight : t.tight = true)
    (defined : ∀ n ∈ t.references, n ∈ s.rules) : Accepts s owner f front t := by
  induction h generalizing front with
  | ref name =>
    obtain ⟨offset, rest, rfl, nil⟩ := lexemes_eq_cons eq
    obtain rfl := List.map_eq_nil_iff.mp nil
    exact accepts_ref offset (defined name (by simp [Tree.references]))
  | terminal text =>
    obtain ⟨offset, rest, rfl, nil⟩ := lexemes_eq_cons eq
    obtain rfl := List.map_eq_nil_iff.mp nil
    exact accepts_terminal text offset
  | label name _ ih =>
    obtain ⟨offset, tail, rfl, eq_tail⟩ := lexemes_eq_cons eq
    obtain ⟨behind, body, rfl, eq_body⟩ := lexemes_eq_cons eq_tail
    exact accepts_label name offset behind (ih body eq_body tight defined)
  | group _ ih =>
    obtain ⟨offset, tail, rfl, eq_tail⟩ := lexemes_eq_cons eq
    obtain ⟨body, last, rfl, eq_body, eq_last⟩ := lexemes_eq_append eq_tail
    obtain ⟨close, rest, rfl, nil⟩ := lexemes_eq_cons eq_last
    obtain rfl := List.map_eq_nil_iff.mp nil
    exact accepts_group offset close (ih body eq_body tight defined)
  | bare _ ih => exact accepts_bare (ih front eq tight defined)
  | marked suffix _ ih =>
    obtain ⟨body, last, rfl, eq_body, eq_last⟩ := lexemes_eq_append eq
    obtain ⟨offset, rest, rfl, nil⟩ := lexemes_eq_cons eq_last
    obtain rfl := List.map_eq_nil_iff.mp nil
    obtain ⟨bare, tight⟩ := (Bool.and_eq_true _ _).mp tight
    exact accepts_marked suffix offset (ih body eq_body tight defined) (by simpa using bare)
  | seqOne h ih =>
    refine accepts_seqOne (eq ▸ h) (ih front eq ((Bool.and_eq_true _ _).mp tight).1 fun n hn => ?_)
    exact defined n (List.mem_append_left _ hn)
  | seqMore h more ih ihm =>
    obtain ⟨body, back, rfl, eq_body, eq_back⟩ := lexemes_eq_append eq
    obtain ⟨tight, tightMore⟩ := (Bool.and_eq_true _ _).mp tight
    exact accepts_seqMore (eq_body ▸ h) (eq_back ▸ more)
      (ih body eq_body tight fun n hn => defined n (List.mem_append_left _ hn))
      (ihm back eq_back tightMore fun n hn => defined n (List.mem_append_right _ hn))
  | altOne h ih =>
    refine accepts_altOne (ih front eq ((Bool.and_eq_true _ _).mp tight).1 fun n hn => ?_)
    exact defined n (List.mem_append_left _ hn)
  | altMore h more ih ihm =>
    obtain ⟨body, tail, rfl, eq_body, eq_tail⟩ := lexemes_eq_append eq
    obtain ⟨bar, back, rfl, eq_back⟩ := lexemes_eq_cons eq_tail
    obtain ⟨tight, tightMore⟩ := (Bool.and_eq_true _ _).mp tight
    exact accepts_altMore bar
      (ih body eq_body tight fun n hn => defined n (List.mem_append_left _ hn))
      (ihm back eq_back tightMore fun n hn => defined n (List.mem_append_right _ hn))

end Accepts

/-! ## Definitions one after the other -/

theorem Derives.choice_eq {ls : List Lexeme} {t : Tree} (h : Derives .choice ls t) :
    ∃ us, t = .alt us := by
  cases h <;> exact ⟨_, rfl⟩

theorem Derives.sequence_eq {ls : List Lexeme} {t : Tree} (h : Derives .sequence ls t) :
    ∃ us, t = .seq us := by
  cases h <;> exact ⟨_, rfl⟩

theorem Reads.endsDefinition {ts : List Placed} {es : List Entry} (h : Reads ts es) :
    endsDefinition ts = true := by
  cases h <;> rfl

/-- Behind a definition stands nothing that belongs to a body. -/
theorem Reads.not_startsWith {ts : List Placed} {es : List Entry} (h : Reads ts es) (p : Lexeme → Bool)
    (hp : ∀ n, p (.name n) = false) : startsWith p ts = false := by
  cases h with
  | nil => rfl
  | cons => exact hp _

/-- A tree that a reader makes: suffixes are part of what is labeled, and names are defined. -/
def Entry.Fits (s : Scope) (e : Entry) : Prop :=
  e.tree.tight = true ∧ ∀ n ∈ e.tree.references, n ∈ s.rules

theorem sound_definition {s : Scope} {ts : List Placed} {d : Definition} {left : Fewer ts}
    (h : definition s ts = .ok (d, left)) :
    ∃ (e : Entry) (behind : Nat) (body : List Placed),
      ts = ⟨.name e.name, e.offset⟩ :: ⟨.equals, behind⟩ :: (body ++ left.val) ∧
      Derives .choice (lexemes body) e.tree ∧ e.Fits s ∧ d = e.definition s := by
  unfold definition at h
  split at h
  · next n offset behind rest =>
    split at h
    · cases h
    · split at h
      · cases h
      · next rules left' hr =>
        split at h
        · cases h
          obtain ⟨us, ⟨⟨body, parts, derives⟩, tight, defined⟩, rfl, -, -⟩ := (sound_at s n rest).choice hr
          exact ⟨⟨n, offset, .alt us⟩, behind, body,
            congrArg (⟨.name n, offset⟩ :: ⟨.equals, behind⟩ :: ·) parts, derives, ⟨tight, defined⟩, rfl⟩
        · cases h
  · cases h
  · cases h

theorem reads_definition {s : Scope} {name : Text} {offset : Nat} (behind : Nat) {t : Tree}
    {body rest : List Placed} {es : List Entry} (derives : Derives .choice (lexemes body) t)
    (more : Reads rest es) (fits : (Entry.mk name offset t).Fits s) :
    ∃ lt, definition s (⟨.name name, offset⟩ :: ⟨.equals, behind⟩ :: (body ++ rest)) =
      .ok ((Entry.mk name offset t).definition s, ⟨rest, lt⟩) := by
  have accepts : Accepts s name .choice body t := derives.accepts body rfl fits.1 fits.2
  obtain ⟨us, rfl, accepts⟩ := accepts
  have ends : endsSequence rest = true := by rw [endsSequence_eq, more.endsDefinition, Bool.or_true]
  have begins : endsDefinition (body ++ rest) = false := by
    have := not_ends derives (more.not_startsWith isLink fun _ => rfl)
    rw [endsSequence_eq, Bool.or_eq_false_iff] at this
    exact this.2
  obtain ⟨⟨left, lt⟩, eq, left_eq⟩ :=
    told_eq_ok (accepts rest ends (more.not_startsWith (· == .pipe) fun _ => rfl))
  obtain rfl : left = rest := left_eq
  refine ⟨by simp only [List.length_cons, List.length_append]; omega, ?_⟩
  rw [definition, begins]
  simp only [eq, more.endsDefinition]
  rfl

theorem definitionsOf_sound (s : Scope) (ts : List Placed) {ds : List Definition}
    (h : definitionsOf s ts = .ok ds) :
    ∃ es, Reads ts es ∧ (∀ e ∈ es, e.Fits s) ∧ ds = es.map (·.definition s) := by
  unfold definitionsOf at h
  split at h
  · next none =>
    obtain rfl := List.isEmpty_iff.mp none
    cases h
    exact ⟨[], .nil, by simp, rfl⟩
  · split at h
    · cases h
    · next d rest lt hd =>
      obtain ⟨e, behind, body, parts, derives, fits, rfl⟩ := sound_definition hd
      cases hm : definitionsOf s rest with
      | error => rw [hm] at h; cases h
      | ok more =>
        rw [hm] at h
        cases h
        obtain ⟨es, reads, all, rfl⟩ := definitionsOf_sound s rest hm
        exact ⟨e :: es, parts ▸ .cons derives reads, by simpa using ⟨fits, all⟩, rfl⟩
termination_by ts.length

theorem Reads.definitionsOf_eq {s : Scope} {ts : List Placed} {es : List Entry} (h : Reads ts es)
    (fits : ∀ e ∈ es, e.Fits s) : definitionsOf s ts = .ok (es.map (·.definition s)) := by
  induction h with
  | nil => rw [definitionsOf]; rfl
  | @cons _ _ behind _ _ _ _ derives more ih =>
    obtain ⟨lt, eq⟩ := reads_definition behind derives more (fits _ (List.mem_cons_self ..))
    rw [definitionsOf, if_neg (by simp)]
    simp only [eq, ih fun e he => fits e (List.mem_cons_of_mem _ he)]
    rfl

/-- A body defines no name. -/
theorem definitions_append {body rest : List Placed} (body_no : .equals ∉ lexemes body)
    (rest_no : startsWith (· == .equals) rest = false) :
    definitions (body ++ rest) = definitions rest := by
  induction body with
  | nil => rfl
  | cons first body ih =>
    have behind := List.not_mem_of_not_mem_cons body_no
    have next : startsWith (· == .equals) (body ++ rest) = false := by
      cases body with
      | nil => exact rest_no
      | cons second body =>
        exact beq_eq_false_iff_ne.mpr (List.ne_of_not_mem_cons behind).symm
    obtain ⟨l, offset⟩ := first
    rw [List.cons_append, ← ih behind]
    cases l with
    | name n =>
      refine definitions.eq_2 n offset _ fun behind tail eq => ?_
      rw [eq] at next
      cases next
    | _ => simp [definitions]

/-- The names that the readers collect are those of the definitions. -/
theorem Reads.definitions_eq {ts : List Placed} {es : List Entry} (h : Reads ts es) :
    definitions ts = es.map fun e => (e.name, e.offset) := by
  induction h with
  | nil => rfl
  | cons derives more ih =>
    have body := definitions_append derives.no_equals (more.not_startsWith (· == .equals) fun _ => rfl)
    simp [definitions, body, ih]

theorem checkDistinct_eq_ok_iff (seen ds : List (Text × Nat)) :
    checkDistinct seen ds = .ok () ↔
      (ds.map (·.1)).Nodup ∧ ∀ n ∈ ds.map (·.1), n ∉ seen.map (·.1) := by
  induction ds generalizing seen with
  | nil => simp [checkDistinct]
  | cons d ds ih =>
    obtain ⟨name, offset⟩ := d
    rw [checkDistinct]
    cases found : seen.lookup name with
    | some first =>
      obtain ⟨before, behind, rfl, -⟩ := List.lookup_eq_some_iff.mp found
      simp
    | none =>
      have new : name ∉ seen.map (·.1) := by
        intro mem
        obtain ⟨p, hp, rfl⟩ := List.mem_map.mp mem
        simpa using List.lookup_eq_none_iff.mp found p hp
      have grown (n : Text) : n ∉ (seen ++ [(name, offset)]).map (·.1) ↔ n ∉ seen.map (·.1) ∧ n ≠ name := by
        rw [List.map_append, List.mem_append, not_or, List.map_singleton, List.mem_singleton]
      simp only [ih, grown, List.map_cons, List.nodup_cons, List.mem_cons]
      constructor
      · rintro ⟨nodup, apart⟩
        exact ⟨⟨fun mem => (apart name mem).2 rfl, nodup⟩,
          fun n hn => hn.elim (fun eq => eq ▸ new) fun mem => (apart n mem).1⟩
      · rintro ⟨⟨unlike, nodup⟩, apart⟩
        exact ⟨nodup, fun n mem => ⟨apart n (.inr mem), fun eq => unlike (eq ▸ mem)⟩⟩

/-! ## Suffixes behind labels -/

/-- A suffix behind a labeled element can be derived as part of what is labeled. -/
theorem Derives.tight_marked {f : Form} {ls : List Lexeme} {t : Tree} (h : Derives f ls t)
    (form : f = .suffixed ∨ f = .element) (tight : t.tight = true) (suffix : Suffix) :
    ∃ u, Derives .suffixed (ls ++ [suffix.lexeme]) u ∧ u.tight = true ∧ u.references = t.references := by
  induction h with
  | ref name => exact ⟨_, .marked suffix (.bare (.ref name)), rfl, rfl⟩
  | terminal text => exact ⟨_, .marked suffix (.bare (.terminal text)), rfl, rfl⟩
  | label name _ ih =>
    obtain ⟨u, derives, tight, same⟩ := ih (.inl rfl) tight
    exact ⟨_, .bare (.label name derives), tight, same⟩
  | group h =>
    obtain ⟨us, rfl⟩ := h.choice_eq
    exact ⟨_, .marked suffix (.bare (.group h)), tight, rfl⟩
  | bare _ ih => exact ih (.inr rfl) tight
  | marked inner h => exact ⟨_, .marked suffix (.marked inner h), tight, rfl⟩
  | _ => cases form <;> contradiction

/-- Whatever is derived has a tight tree. -/
theorem Derives.exists_tight {f : Form} {ls : List Lexeme} {t : Tree} (h : Derives f ls t) :
    ∃ u, Derives f ls u ∧ u.tight = true ∧ u.references = t.references := by
  induction h with
  | ref name => exact ⟨_, .ref name, rfl, rfl⟩
  | terminal text => exact ⟨_, .terminal text, rfl, rfl⟩
  | label name _ ih =>
    obtain ⟨u, derives, tight, same⟩ := ih
    exact ⟨_, .label name derives, tight, same⟩
  | group _ ih =>
    obtain ⟨u, derives, tight, same⟩ := ih
    exact ⟨_, .group derives, tight, same⟩
  | bare _ ih =>
    obtain ⟨u, derives, tight, same⟩ := ih
    exact ⟨_, .bare derives, tight, same⟩
  | marked suffix _ ih =>
    obtain ⟨u, derives, tight, same⟩ := ih
    obtain ⟨v, derives, tight, same'⟩ := derives.tight_marked (.inl rfl) tight suffix
    exact ⟨v, derives, tight, same'.trans same⟩
  | seqOne _ ih =>
    obtain ⟨u, derives, tight, same⟩ := ih
    exact ⟨_, .seqOne derives, by simpa [Tree.tight, Tree.tightAll], by
      simpa [Tree.references, Tree.referencesOf]⟩
  | seqMore _ _ ih ihm =>
    obtain ⟨u, derives, tight, same⟩ := ih
    obtain ⟨v, more, tightMore, sameMore⟩ := ihm
    obtain ⟨us, rfl⟩ := more.sequence_eq
    exact ⟨_, .seqMore derives more, (Bool.and_eq_true _ _).mpr ⟨tight, tightMore⟩,
      congrArg₂ (· ++ ·) same sameMore⟩
  | altOne _ ih =>
    obtain ⟨u, derives, tight, same⟩ := ih
    exact ⟨_, .altOne derives, by simpa [Tree.tight, Tree.tightAll], by
      simpa [Tree.references, Tree.referencesOf]⟩
  | altMore _ _ ih ihm =>
    obtain ⟨u, derives, tight, same⟩ := ih
    obtain ⟨v, more, tightMore, sameMore⟩ := ihm
    obtain ⟨us, rfl⟩ := more.choice_eq
    exact ⟨_, .altMore derives more, (Bool.and_eq_true _ _).mpr ⟨tight, tightMore⟩,
      congrArg₂ (· ++ ·) same sameMore⟩

/-- The same definitions with tight trees. -/
theorem Reads.exists_tight {ts : List Placed} {es : List Entry} (h : Reads ts es) :
    ∃ us, Reads ts us ∧ (∀ e ∈ us, e.tree.tight = true) ∧
      us.map (·.name) = es.map (·.name) ∧
      us.map (·.tree.references) = es.map (·.tree.references) := by
  induction h with
  | nil => exact ⟨[], .nil, by simp, rfl, rfl⟩
  | cons derives _ ih =>
    obtain ⟨us, reads, tight, names, refs⟩ := ih
    obtain ⟨u, derives, tightFirst, same⟩ := derives.exists_tight
    exact ⟨_, .cons derives reads, by simpa using ⟨tightFirst, tight⟩, congrArg (_ :: ·) names,
      congrArg₂ (· :: ·) same refs⟩

theorem Consistent.congr {es us : List Entry} (h : Consistent es)
    (names : us.map (·.name) = es.map (·.name))
    (refs : us.map (·.tree.references) = es.map (·.tree.references)) : Consistent us := by
  refine ⟨names ▸ h.distinct, fun e he n hn => ?_⟩
  have mem : e.tree.references ∈ us.map (·.tree.references) := List.mem_map.mpr ⟨e, he, rfl⟩
  obtain ⟨e', he', same⟩ := List.mem_map.mp (refs ▸ mem)
  rw [names]
  exact h.defined e' he' n (same ▸ hn)

/-! ## Grammars -/

theorem ofLexemes_eq_ok {ts : List Placed} {stop : Nat} {g : Grammar} :
    ofLexemes ts stop = .ok g ↔ checkDistinct [] (definitions ts) = .ok () ∧
      ∃ ds, definitionsOf ⟨(definitions ts).map (·.1), terminalsOf ts, stop⟩ ts = .ok ds ∧
        g = ⟨ds, terminalsOf ts⟩ := by
  simp only [ofLexemes, bind, Except.bind, pure, Except.pure]
  cases checkDistinct [] (definitions ts) with
  | error => simp
  | ok =>
    cases definitionsOf ⟨(definitions ts).map (·.1), terminalsOf ts, stop⟩ ts with
    | error => simp
    | ok ds => simp [eq_comm]

theorem ofLexemes_eq_ok_iff (ts : List Placed) (stop : Nat) (g : Grammar) :
    ofLexemes ts stop = .ok g ↔
      ∃ es, Reads ts es ∧ Consistent es ∧ (∀ e ∈ es, e.tree.tight = true) ∧ g = ofEntries ts es stop := by
  rw [ofLexemes_eq_ok]
  constructor
  · rintro ⟨ok, ds, read, rfl⟩
    obtain ⟨es, reads, fits, rfl⟩ := definitionsOf_sound _ ts read
    have names : (definitions ts).map (·.1) = es.map (·.name) := by
      simp [reads.definitions_eq, Function.comp_def]
    rw [names] at fits ⊢
    have distinct := ((checkDistinct_eq_ok_iff _ _).mp ok).1
    exact ⟨es, reads, ⟨names ▸ distinct, fun e he => (fits e he).2⟩, fun e he => (fits e he).1, rfl⟩
  · rintro ⟨es, reads, ⟨distinct, defined⟩, tight, rfl⟩
    have names : (definitions ts).map (·.1) = es.map (·.name) := by
      simp [reads.definitions_eq, Function.comp_def]
    rw [names]
    exact ⟨(checkDistinct_eq_ok_iff _ _).mpr ⟨names ▸ distinct, by simp⟩, _,
      reads.definitionsOf_eq fun e he => ⟨tight e he, defined e he⟩, rfl⟩

/-- A row of lexemes is a grammar if and only if the notation derives definitions from it that are consistent,
and the grammar is what these definitions make. A suffix behind a labeled element can be derived in two ways;
it is then part of what is labeled. -/
theorem ofLexemes_iff_reads (ts : List Placed) (stop : Nat) :
    ((∃ g, ofLexemes ts stop = .ok g) ↔ ∃ es, Reads ts es ∧ Consistent es) ∧
    ∀ g, ofLexemes ts stop = .ok g ↔
      ∃ es, Reads ts es ∧ Consistent es ∧ (∀ e ∈ es, e.tree.tight = true) ∧
        g = ofEntries ts es stop := by
  refine ⟨⟨fun ⟨g, h⟩ => ?_, fun ⟨es, reads, consistent⟩ => ?_⟩, ofLexemes_eq_ok_iff ts stop⟩
  · obtain ⟨es, reads, consistent, -⟩ := (ofLexemes_eq_ok_iff ts stop g).mp h
    exact ⟨es, reads, consistent⟩
  · obtain ⟨us, reads, tight, names, refs⟩ := reads.exists_tight
    exact ⟨_, (ofLexemes_eq_ok_iff ts stop _).mpr
      ⟨us, reads, consistent.congr names refs, tight, rfl⟩⟩

end Verbatim.Grammar
