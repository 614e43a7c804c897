import Mathlib
import Verbatim.Grammar.References
import Verbatim.Proofs.Derivations
import Verbatim.Proofs.Spelling

/-!
# Numbers in a grammar stand for what is written

The rules are numbered by the names in front of equals signs, before any body is read, and the table of rules
is made of the definitions that are read. Both agree in every text that is accepted, so each number in a body
is one of a rule or of a terminal and stands for the name or the terminal written at its place, and no lookup
in a grammar that was read fails.
-/
namespace Verbatim.Grammar

/-! ## Terminals in the order of their first use -/

/-- The terminals among some lexemes, each once and in the order in which they are first used. -/
structure FirstUses (ls : List Lexeme) (texts : List Text) : Prop where
  mem_iff : ∀ s, s ∈ texts ↔ .terminal s ∈ ls
  distinct : texts.Nodup
  ordered : texts.Pairwise fun a b => ls.idxOf (.terminal a) < ls.idxOf (.terminal b)

theorem FirstUses.idxOf_append {ls : List Lexeme} {texts : List Text} (h : FirstUses ls texts) {s : Text}
    (member : s ∈ texts) (ms : List Lexeme) : (ls ++ ms).idxOf (.terminal s) = ls.idxOf (.terminal s) :=
  List.idxOf_append_of_mem ((h.mem_iff s).mp member)

/-- One more lexeme that is not a new terminal. -/
theorem FirstUses.keep {ls : List Lexeme} {texts : List Text} (h : FirstUses ls texts) {l : Lexeme}
    (old : ∀ s, l = .terminal s → s ∈ texts) : FirstUses (ls ++ [l]) texts := by
  refine ⟨fun s => ?_, h.distinct, ?_⟩
  · rw [List.mem_append, List.mem_singleton, ← h.mem_iff s]
    exact ⟨.inl, fun member => member.elim id fun eq => old s eq.symm⟩
  · refine h.ordered.imp_of_mem fun memA memB less => ?_
    rwa [h.idxOf_append memA, h.idxOf_append memB]

/-- One more terminal that is new. -/
theorem FirstUses.add {ls : List Lexeme} {texts : List Text} (h : FirstUses ls texts) {s : Text}
    (new : s ∉ texts) : FirstUses (ls ++ [.terminal s]) (texts ++ [s]) := by
  refine ⟨fun t => ?_, ?_, ?_⟩
  · simp [h.mem_iff t]
  · rw [List.nodup_append]
    exact ⟨h.distinct, List.nodup_singleton s, fun a memA b memB same =>
      new (List.mem_singleton.mp memB ▸ same ▸ memA)⟩
  · rw [List.pairwise_append]
    refine ⟨?_, List.pairwise_singleton _ _, fun a memA b memB => ?_⟩
    · refine h.ordered.imp_of_mem fun memA memB less => ?_
      rwa [h.idxOf_append memA, h.idxOf_append memB]
    · obtain rfl := List.mem_singleton.mp memB
      have absent : Lexeme.terminal b ∉ ls := fun used => new ((h.mem_iff b).mpr used)
      rw [h.idxOf_append memA, List.idxOf_append_of_notMem absent]
      exact Nat.lt_add_right _ (List.idxOf_lt_length_of_mem ((h.mem_iff a).mp memA))

theorem firstUses_terminalsOf (ts : List Placed) : FirstUses (lexemes ts) (terminalsOf ts) := by
  induction ts using List.reverseRecOn with
  | nil => exact ⟨by simp [terminalsOf, lexemes], List.nodup_nil, List.Pairwise.nil⟩
  | append_singleton ts p ih =>
    obtain ⟨l, offset⟩ := p
    rw [lexemes_append]
    simp only [terminalsOf, List.foldl_append, List.foldl_cons, List.foldl_nil] at ih ⊢
    cases l with
    | terminal s =>
      dsimp only
      split
      · next seen =>
        refine ih.keep fun t eq => ?_
        cases eq
        exact List.contains_iff_mem.mp seen
      · next new => exact ih.add fun member => new (List.contains_iff_mem.mpr member)
    | _ => exact ih.keep fun t eq => by cases eq

/-! ## What a body mentions -/

namespace Rule

@[simp] theorem leaves_sequence (rs : List Rule) : (sequence rs).leaves = leavesOf rs := by
  unfold sequence
  split
  · simp [leavesOf]
  · rfl

@[simp] theorem leaves_choice (rs : List Rule) : (choice rs).leaves = leavesOf rs := by
  unfold choice
  split
  · simp [leavesOf]
  · rfl

end Rule

theorem mentions_name {n : Text} {ls : List Lexeme} (colon : ls.head? ≠ some .colon) :
    mentions (.name n :: ls) = .rule n :: mentions ls := by
  refine mentions.eq_2 n ls fun ms eq => ?_
  subst eq
  exact colon rfl

/-- A label is not part of what stands in front of it. -/
theorem Derives.not_colon {f : Form} {ls : List Lexeme} {t : Tree} (h : Derives f ls t) (ms : List Lexeme) :
    (ls ++ ms).head? ≠ some .colon := by
  obtain ⟨l, rest, rfl, opens⟩ := h.opens
  intro eq
  cases eq
  cases opens

variable {s : Scope} {g : Grammar}

/-- The numbers in the rule of a tree stand for what is mentioned in the lexemes it is derived from, whatever
stands behind them. -/
theorem Derives.mentions_append {f : Form} {ls : List Lexeme} {t : Tree} (h : Derives f ls t)
    (rules : g.names = s.rules) (terminals : g.terminals = s.terminals)
    (defined : ∀ n ∈ t.references, n ∈ s.rules) (used : ∀ x, .terminal x ∈ ls → x ∈ s.terminals)
    (ms : List Lexeme) (colon : ms.head? ≠ some .colon) :
    (mentions (ls ++ ms)).map some =
      (t.rule s).leaves.map (Leaf.mention? g) ++ (mentions ms).map some := by
  induction h generalizing ms with
  | ref name =>
    have member : name ∈ g.names := rules ▸ defined name List.mem_cons_self
    have found : g.names[s.rules.idxOf name]? = some name := rules ▸ List.getElem?_idxOf member
    rw [List.singleton_append, mentions_name colon]
    simp [Tree.rule, Rule.leaves, Leaf.mention?, found]
  | terminal text =>
    have member : text ∈ g.terminals := terminals ▸ used text List.mem_cons_self
    have found : g.terminals[s.terminals.idxOf text]? = some text := terminals ▸ List.getElem?_idxOf member
    simp [Tree.rule, Rule.leaves, Leaf.mention?, found, mentions]
  | label name _ ih =>
    refine Eq.trans ?_ (ih defined (fun x member => used x (by simp [member])) ms colon)
    simp [mentions]
  | @group ls t _ ih =>
    have inside := ih defined (fun x member => used x (by simp [member]))
      (.rightParen :: ms) (by simp)
    simpa [mentions] using inside
  | bare _ ih => exact ih defined used ms colon
  | @marked suffix ls t _ ih =>
    have inside := ih defined (fun x member => used x (List.mem_append_left _ member))
      (suffix.lexeme :: ms) (by cases suffix <;> simp [Suffix.lexeme])
    rw [List.append_assoc, List.singleton_append, inside]
    cases suffix <;> rfl
  | seqOne _ ih =>
    simp only [Tree.references, Tree.referencesOf, List.append_nil] at defined
    simpa [Tree.rule, Tree.rules, Rule.leavesOf] using ih defined used ms colon
  | @seqMore ls ls' t ts first more ih ihMore =>
    have behind : (ls' ++ ms).head? ≠ some .colon := more.not_colon ms
    have front := ih (fun n member => defined n (List.mem_append_left _ member))
      (fun x member => used x (List.mem_append_left _ member)) (ls' ++ ms) behind
    have back := ihMore (fun n member => defined n (List.mem_append_right _ member))
      (fun x member => used x (List.mem_append_right _ member)) ms colon
    simp only [Tree.rule, Tree.rules, Rule.leaves_sequence, Rule.leavesOf, List.map_append] at back ⊢
    rw [List.append_assoc, front, back, List.append_assoc]
  | altOne _ ih =>
    simp only [Tree.references, Tree.referencesOf, List.append_nil] at defined
    simpa [Tree.rule, Tree.rules, Rule.leavesOf] using ih defined used ms colon
  | @altMore ls ls' t ts first more ih ihMore =>
    have front := ih (fun n member => defined n (List.mem_append_left _ member))
      (fun x member => used x (List.mem_append_left _ member)) (.pipe :: (ls' ++ ms)) (by simp)
    have back := ihMore (fun n member => defined n (List.mem_append_right _ member))
      (fun x member => used x (by simp [member])) ms colon
    have bar : mentions (.pipe :: (ls' ++ ms)) = mentions (ls' ++ ms) := by simp [mentions]
    simp only [Tree.rule, Tree.rules, Rule.leaves_choice, Rule.leavesOf, List.map_append] at back ⊢
    rw [List.append_assoc, List.cons_append, front, bar, back, List.append_assoc]

/-! ## Definitions -/

/-- Definitions one behind the other: each has its name where it is written, and the numbers in its body
stand for what its part of the lexemes mentions. -/
inductive Defines (g : Grammar) : List Placed → List Definition → Prop
  | none : Defines g [] []
  | more {d : Definition} {behind : Nat} {body rest : List Placed} {ds : List Definition}
    (within : .equals ∉ lexemes body)
    (resolves : (mentions (lexemes body)).map some = d.body.leaves.map (Leaf.mention? g))
    (more : Defines g rest ds) :
    Defines g (⟨.name d.name, d.offset⟩ :: ⟨.equals, behind⟩ :: (body ++ rest)) (d :: ds)

theorem Reads.defines {ts : List Placed} {es : List Entry} (h : Reads ts es) (rules : g.names = s.rules)
    (terminals : g.terminals = s.terminals) (defined : ∀ e ∈ es, ∀ n ∈ e.tree.references, n ∈ s.rules)
    (used : ∀ x, .terminal x ∈ lexemes ts → x ∈ s.terminals) :
    Defines g ts (es.map (·.definition s)) := by
  induction h with
  | nil => exact .none
  | @cons name offset behind body rest t es derives _ ih =>
    have parts : lexemes (⟨.name name, offset⟩ :: ⟨.equals, behind⟩ :: (body ++ rest)) =
        .name name :: .equals :: (lexemes body ++ lexemes rest) := by simp [lexemes]
    rw [parts] at used
    have resolves := derives.mentions_append rules terminals (defined _ List.mem_cons_self)
      (fun x member => used x (by simp [member])) [] (by simp)
    have later := ih (fun e member => defined e (List.mem_cons_of_mem _ member))
      fun x member => used x (by simp [member])
    rw [List.append_nil] at resolves
    exact .more (d := Entry.definition s ⟨name, offset, t⟩) derives.no_equals
      (resolves.trans (by simp [mentions, Entry.definition])) later

/-- Whether all numbers among some leaves are in range. -/
def AllWithin (g : Grammar) (ls : List Leaf) : Prop := ∀ l ∈ ls, l.Within g

theorem allWithin_append {ls ms : List Leaf} : AllWithin g (ls ++ ms) ↔ AllWithin g ls ∧ AllWithin g ms :=
  List.forall_mem_append

theorem Defines.within {ts : List Placed} {ds : List Definition} (h : Defines g ts ds) :
    ∀ d ∈ ds, AllWithin g d.body.leaves := by
  induction h with
  | none => simp
  | @more d _ _ _ _ _ resolves _ ih =>
    refine List.forall_mem_cons.mpr ⟨fun l member => ?_, ih⟩
    have stands : l.mention? g ∈ d.body.leaves.map (Leaf.mention? g) := List.mem_map_of_mem member
    rw [← resolves] at stands
    obtain ⟨m, -, eq⟩ := List.mem_map.mp stands
    cases l with
    | rule i =>
      obtain ⟨name, found, -⟩ := Option.map_eq_some_iff.mp eq.symm
      obtain ⟨less, -⟩ := List.getElem?_eq_some_iff.mp found
      exact Nat.lt_of_lt_of_eq less (List.length_map _)
    | terminal i =>
      obtain ⟨spelling, found, -⟩ := Option.map_eq_some_iff.mp eq.symm
      exact (List.getElem?_eq_some_iff.mp found).1

/-! ## No lookup fails -/

theorem mapM_eq_some {α β : Type} {f : α → Option β} {h : α → β} {l : List α}
    (found : ∀ a ∈ l, f a = some (h a)) : l.mapM f = some (l.map h) := by
  induction l with
  | nil => rfl
  | cons a l ih =>
    obtain ⟨first, later⟩ := List.forall_mem_cons.mp found
    simp [List.mapM_cons, first, ih later]

theorem listed?_eq (g : Grammar) : g.listed? = some g.rules := by
  have found : ∀ i ∈ g.numbers, g.rules[i]? = some ((g.rules[i]?).getD ⟨[], .seq [], 0⟩) := by
    intro i member
    rw [List.getElem?_eq_getElem (List.mem_range.mp member), Option.getD_some]
  rw [listed?, mapM_eq_some found]
  congr 1
  apply List.ext_getElem (by simp [numbers])
  intro i h h'
  simp [numbers, h']

theorem names_getElem? {i : Nat} (within : (Leaf.rule i).Within g) :
    g.names[i]? = some (g.ruleName i) := by
  have less : i < g.names.length := Nat.lt_of_lt_of_eq within (List.length_map _).symm
  rw [ruleName, List.getElem?_eq_getElem less]
  rfl

theorem terminals_getElem? {i : Nat} (within : (Leaf.terminal i).Within g) :
    g.terminals[i]? = some (g.terminal i) := by
  rw [terminal, List.getElem?_eq_getElem within]
  rfl

namespace Field

theorem one?_eq {i : Nat} (within : (Leaf.rule i).Within g) (label? : Option Text) :
    one? g label? i = some (one g label? i) := by
  rw [one?, names_getElem? within]
  rfl

theorem many?_eq {i : Nat} (within : (Leaf.rule i).Within g) (label? : Option Text) :
    many? g label? i = some (many g label? i) := by
  rw [many?, names_getElem? within]
  rfl

theorem ofTerminal?_eq {i : Nat} (within : (Leaf.terminal i).Within g) :
    ofTerminal? g i = some (token? g i).toList := by
  rw [ofTerminal?, terminals_getElem? within]
  rfl

end Field

theorem Rule.mem_leavesOf_of_separated? {rs : List Rule} {i : Nat} (h : separated? rs = some i) :
    Leaf.rule i ∈ leavesOf rs := by
  unfold separated? at h
  split at h
  · obtain ⟨-, eq⟩ := Option.ite_none_right_eq_some.mp h
    cases eq
    simp [leavesOf, leaves]
  · obtain ⟨-, eq⟩ := Option.ite_none_right_eq_some.mp h
    cases eq
    simp [leavesOf, leaves]
  · cases h

/-- The fields of a rule, following the recursion that finds them. -/
theorem fieldsOf?_eq_both (g : Grammar) :
    (∀ (label? : Option Text) (r : Rule), AllWithin g r.leaves →
      fieldsOf? g label? r = some (fieldsOf g label? r)) ∧
    ∀ (label? : Option Text) (rs : List Rule), AllWithin g (Rule.leavesOf rs) →
      fieldsOfAll? g label? rs = some (fieldsOfAll g label? rs) := by
  apply fieldsOf.mutual_induct
    (fun label? r => AllWithin g r.leaves → fieldsOf? g label? r = some (fieldsOf g label? r))
    (fun label? rs => AllWithin g (Rule.leavesOf rs) → fieldsOfAll? g label? rs = some (fieldsOfAll g label? rs))
  case case1 =>
    intro label? i within
    rw [fieldsOf?, fieldsOf, Field.one?_eq (within _ List.mem_cons_self), Option.map_some]
  case case2 =>
    intro label? i within
    rw [fieldsOf?, fieldsOf, Field.ofTerminal?_eq (within _ List.mem_cons_self)]
  case case3 =>
    intro label? name rules within
    rw [fieldsOf?, fieldsOf]
  case case4 =>
    intro label? name r other ih within
    rw [fieldsOf?.eq_4 _ _ _ _ other, fieldsOf.eq_4 _ _ _ _ other]
    exact ih within
  case case5 =>
    intro label? rs i separated within
    rw [fieldsOf?, fieldsOf, separated]
    dsimp only
    rw [Field.many?_eq (within _ (Rule.mem_leavesOf_of_separated? separated)), Option.map_some]
  case case6 =>
    intro label? rs separated ih within
    rw [fieldsOf?, fieldsOf, separated]
    exact ih within
  case case7 =>
    intro label? rs ih within
    rw [fieldsOf?, fieldsOf]
    exact ih within
  case case8 =>
    intro label? r ih within
    rw [fieldsOf?, fieldsOf]
    exact ih within
  case case9 =>
    intro label? i within
    rw [fieldsOf?, fieldsOf, Field.many?_eq (within _ List.mem_cons_self), Option.map_some]
  case case10 =>
    intro label? r other ih within
    rw [fieldsOf?.eq_9 _ _ _ other, fieldsOf.eq_9 _ _ _ other]
    exact ih within
  case case11 =>
    intro label? within
    rw [fieldsOfAll?, fieldsOfAll]
  case case12 =>
    intro label? r rs ih ihMore within
    obtain ⟨first, later⟩ := allWithin_append.mp within
    rw [fieldsOfAll?, fieldsOfAll, ih first, ihMore later]
    rfl

theorem fieldsOf?_eq {r : Rule} (within : AllWithin g r.leaves) (label? : Option Text) :
    fieldsOf? g label? r = some (fieldsOf g label? r) :=
  (fieldsOf?_eq_both g).1 label? r within

theorem leavesOf_of_mapM_ref? {rs : List Rule} {is : List Nat} (h : rs.mapM Rule.ref? = some is) :
    Rule.leavesOf rs = is.map .rule := by
  induction rs generalizing is with
  | nil =>
    cases h
    rfl
  | cons r rs ih =>
    simp only [List.mapM_cons, Option.bind_eq_bind, Option.bind_eq_some_iff] at h
    obtain ⟨i, isRef, js, rest, eq⟩ := h
    cases eq
    cases r <;> cases isRef
    rw [Rule.leavesOf, ih rest]
    rfl

theorem Definition.leaves_of_choices? {d : Definition} {is : List Nat} (h : d.choices? = some is) :
    d.body.leaves = is.map .rule := by
  unfold choices? at h
  split at h
  · next rs body =>
    rw [body]
    exact leavesOf_of_mapM_ref? h
  · cases h

variable (within : ∀ d ∈ g.rules, AllWithin g d.body.leaves)
include within

theorem families?_eq : g.families? = some g.families := by
  have found : ∀ p ∈ g.rules.filterMap fun d => d.choices?.map fun is => (d.name, is),
      familyOf? g p.1 p.2 = some ⟨p.1, p.2.map g.ruleName⟩ := by
    intro p member
    obtain ⟨d, memD, eq⟩ := List.mem_filterMap.mp member
    obtain ⟨is, choices, rfl⟩ := Option.map_eq_some_iff.mp eq
    have names : is.mapM (fun i => g.names[i]?) = some (is.map g.ruleName) := by
      refine mapM_eq_some fun i memI => names_getElem? (within d memD _ ?_)
      rw [Definition.leaves_of_choices? choices]
      exact List.mem_map_of_mem memI
    simp only [familyOf?, names, Option.pure_def, Option.bind_eq_bind, Option.bind_some]
  rw [families?, listed?_eq]
  refine (mapM_eq_some found).trans (congrArg some ?_)
  rw [families, List.map_filterMap]
  simp only [Option.map_map, Function.comp_def]

theorem shape?_eq : g.shape? = some g.shape := by
  have found : ∀ d ∈ g.rules.filter (·.choices?.isNone),
      nodeShape? g g.families d = some (nodeShape g d) := by
    intro d member
    rw [nodeShape?, fieldsOf?_eq (within d (List.mem_of_mem_filter member))]
    rfl
  rw [shape?, listed?_eq, families?_eq within]
  simp only [Option.bind_eq_bind, Option.bind_some, mapM_eq_some found]
  rfl

omit within

theorem missing?_eq (g : Grammar) (hasRule hasTerminal : Text → Bool) :
    g.missing? hasRule hasTerminal = some (g.missing hasRule hasTerminal) := by
  rw [missing?, listed?_eq]
  rfl

/-! ## Grammars that are read -/

/-- What the numbers in the grammar of a text stand for. -/
structure Resolved (t : Text) (ts : List Placed) (g : Grammar) : Prop where
  /-- The text is spelled by lexemes, each of which stands at its offset. -/
  spells : Spells 0 t ts
  /-- The rules are the definitions in their order, and what their bodies refer to is written there. -/
  defines : Defines g ts g.rules
  /-- The rules are also those in front of equals signs, wherever these stand. -/
  pairs : definitions ts = g.rules.map fun d => (d.name, d.offset)
  distinct : g.names.Nodup
  /-- The terminals are those in the text, in the order of their first use. -/
  uses : FirstUses (lexemes ts) g.terminals
  within : ∀ d ∈ g.rules, AllWithin g d.body.leaves
  /-- Going through the numbers of the rules goes through the rules. -/
  listed : g.listed? = some g.rules
  missing : ∀ hasRule hasTerminal : Text → Bool,
    g.missing? hasRule hasTerminal = some (g.missing hasRule hasTerminal)
  shape : g.shape? = some g.shape
  source : g.source? = some g.shape.source

theorem ofText_eq_ok {t : Text} (h : ofText t = .ok g) :
    ∃ ts, scan t = .ok ts ∧ ofLexemes ts (Text.size t) = .ok g := by
  unfold ofText at h
  cases scanned : scan t with
  | error e =>
    rw [scanned] at h
    cases h
  | ok ts =>
    rw [scanned] at h
    exact ⟨ts, rfl, h⟩

/-- In a grammar that is read from a text every number is in range and stands for what is written at its
place, and nothing that is computed from the grammar looks up another one. -/
theorem ofText_resolved (t : Text) (g : Grammar) (h : ofText t = .ok g) : ∃ ts, Resolved t ts g := by
  obtain ⟨ts, scanned, read⟩ := ofText_eq_ok h
  obtain ⟨es, reads, ⟨distinct, defined⟩, -, rfl⟩ := (ofLexemes_eq_ok_iff ts _ g).mp read
  have rules : (ofEntries ts es (Text.size t)).names = es.map (·.name) := by
    simp [names, ofEntries, Entry.definition]
  have uses := firstUses_terminalsOf ts
  have defines := reads.defines (s := scopeOf ts es (Text.size t)) rules rfl defined fun x used =>
    (uses.mem_iff x).mpr used
  have within : ∀ d ∈ (ofEntries ts es (Text.size t)).rules, AllWithin _ d.body.leaves := defines.within
  have shape := shape?_eq within
  refine ⟨ts, scan_spells scanned, defines, ?_, rules ▸ distinct, uses, within, listed?_eq _,
    missing?_eq _, shape, ?_⟩
  · rw [reads.definitions_eq]
    simp [ofEntries, Entry.definition]
  · rw [source?, shape]
    rfl

/-- A rule that is used before it is defined, a labeled group, and a terminal that is written twice. -/
theorem ofText_resolved_list : ∃ ts g, Resolved "A = x:(B '+' | 'c')*\nB = 'c'".toList ts g ∧
    g.names = [['A'], ['B']] ∧ g.terminals = [['+'], ['c']] := by
  have read : ofText "A = x:(B '+' | 'c')*\nB = 'c'".toList = .ok ⟨[
      ⟨['A'], .label ['x'] (.rep (.alt [.seq [.ref 1, .terminal 0], .terminal 1])), 0⟩,
      ⟨['B'], .terminal 1, 21⟩], [['+'], ['c']]⟩ := by cbv
  obtain ⟨ts, resolved⟩ := ofText_resolved _ _ read
  exact ⟨ts, _, resolved, rfl, rfl⟩

end Verbatim.Grammar
