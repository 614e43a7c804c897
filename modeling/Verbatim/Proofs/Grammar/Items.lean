import Verbatim.Parser.Closed
import Verbatim.Proofs.Grammar.Expressions

/-!
# Items run safely

An item that is found keeps its node, so the rules that it calls are inside of one. Whether it is found
shows in its first tokens.
-/
namespace Verbatim.Parser.Site

variable {c : Site}

/-! ## Parts of items -/

theorem calm_visibility? : c.Calm visibility? :=
  fun s => (From.visibility? s).imp fun _ _ _ _ => trivial

theorem calm_paramListOr : c.Calm paramListOr := takes_paramList.ifAt (calm_error _)

theorem fine_typedValue (hf : c.fresh) : c.Fine typedValue :=
  (calm_expect (by decide)).fine.when (fine_type hf) |>.bind fun _ =>
    ((fine_expression hf).discard.whenEat (by decide)).fine.bind fun _ => (calm_expect (by decide)).discard.fine

/-- Where a field or a variant starts, its visibility and its name take a token. -/
theorem From.named {s : Spot} (hs : c.floor ≤ 2 * s.pos) (h : fieldFirst.contains (c.input.kind s.pos) = true)
    (recovery : KindSet) {rest : Unit → Parser Unit} (hr : ∀ a, c.Fine (rest a)) :
    c.From (do Functor.discard Parser.visibility?; let a ← Parser.nameOr recovery; rest a) s fun _ t => s.pos < t.pos := by
  have starts : c.input.kind s.pos = .pubKw ∨ c.input.kind s.pos = .ident := by
    revert h
    cases c.input.kind s.pos <;> decide
  have visible : c.From (Functor.discard Parser.visibility?) s fun _ t =>
      s.pos < t.pos ∨ c.input.kind s.pos = .ident ∧ t = s := .discard <| (From.visibility? s).imp fun _ t _ ht => by
    rcases starts with pub | ident
    · rw [if_pos pub] at ht
      exact .inl ht.2
    · rw [if_neg (by rw [ident]; decide)] at ht
      exact .inr ⟨ident, ht.2⟩
  refine visible.bind fun _ t ht hv => (From.nameOr recovery t).bind fun a u hu hn => ?_
  have lt : s.pos < u.pos := by
    rcases hv with lt | ⟨ident, rfl⟩
    · exact Nat.lt_of_lt_of_le lt hu.le
    · rw [hn ident]
      exact Nat.lt_succ_self _
  exact (hr a u (by omega)).imp fun _ v hv _ => Nat.lt_of_lt_of_le lt hv.le

/-- A field or a variant, if one starts here, as a node that takes along the comments above it. -/
theorem fine_named {kind : Kind} (hk : kind.IsProper) (recovery : KindSet) {rest : Unit → Parser Unit}
    (hr : ∀ a, c.opened.Fine (rest a)) :
    c.Fine (do
      if !(← isAtAny fieldFirst) then return false
      node kind do
        Functor.discard visibility?
        let a ← nameOr recovery
        rest a
      return true) := by
  intro s hs
  refine (Tells.isAtAny fieldFirst s).bind ?_
  cases h : fieldFirst.contains (c.input.kind s.pos) with
  | false => exact .pure trivial
  | true =>
    refine From.bind (M := fun _ _ => True) (.nodeSpanning ?_) fun _ _ _ _ => .pure trivial
    exact (From.named (c := c.opened) (s := ⟨s.pos, false⟩) hs h recovery hr).imp fun _ _ _ lt =>
      ⟨hk.spans lt, trivial⟩

theorem fine_recordField (isFirst : Bool) : c.Fine (recordField isFirst) :=
  fine_named (by decide) _ fun _ => (calm_expect (by decide)).fine.when (fine_type trivial)

theorem encloses_recordFieldList : c.Encloses .leftBrace .rightBrace recordFieldList :=
  encloses_delimited (by decide) fine_recordField

theorem fine_tupleField (isFirst : Bool) : c.Fine (tupleField isFirst) := by
  refine (calm_isAt _).fine.bind fun _ => (calm_isAtAny _).fine.bind fun _ => .ite
    (.bind (.node (by decide) ?_) fun _ => (Calm.pure true).fine) (Calm.pure false).fine
  exact calm_visibility?.discard.fine.bind fun _ => fine_type trivial

theorem takes_tupleFieldList : c.Takes .leftParen tupleFieldList :=
  .node (by decide) (takes_delimited (by decide) (by decide) fine_tupleField)

theorem fine_structBody : c.Fine structBody := by
  refine Takes.ifAtFine (takes_tupleFieldList.bind fun _ => calm_whereClause?.fine.bind fun _ =>
    (calm_expect (by decide)).discard.fine) (calm_whereClause?.fine.bind fun _ => fine_ifBrace ?_)
  exact ((calm_eat (by decide)).whenNot (calm_error _)).fine

theorem fine_variantFields : c.Fine variantFields := by
  intro s hs
  refine (Tells.current s).bind ?_
  split
  · next h => exact (From.list (Nat.le_succ_of_le hs) h).imp fun _ _ _ _ => trivial
  · next h => exact (takes_tupleFieldList.from (Input.isAt_of_kind h rfl)).imp fun _ _ _ _ => trivial
  · exact .pure trivial

theorem fine_variant (isFirst : Bool) : c.Fine (variant isFirst) :=
  fine_named (by decide) _ fun _ => fine_variantFields.bind fun _ =>
    ((fine_expression trivial).discard.whenEat (by decide)).fine

theorem encloses_variantList : c.Encloses .leftBrace .rightBrace variantList :=
  encloses_delimited (by decide) fine_variant

theorem fine_moduleBody : c.Fine moduleBody := fine_ifBrace (calm_expect (by decide)).discard.fine

/-! ## Declarations -/

theorem opens_constant (hf : c.fresh) : c.Opens .constKw constant :=
  (takes_bump (by decide)).opens fun _ => ((calm_eat (by decide)).whenNot (calm_nameOr _)).fine.forms fun _ =>
    (fine_typedValue hf).forms fun _ => (forms_pure (by decide))

theorem opens_staticItem (hf : c.fresh) : c.Opens .staticKw staticItem :=
  (takes_bump (by decide)).opens fun _ => (calm_eat (by decide)).discard.fine.forms fun _ => (calm_nameOr _).fine.forms fun _ =>
    (fine_typedValue hf).forms fun _ => (forms_pure (by decide))

theorem opens_structItem : c.Opens .structKw structItem :=
  (takes_bump (by decide)).opens fun _ => (calm_nameOr _).fine.forms fun _ => calm_genericParamList?.fine.forms
    fun _ => fine_structBody.forms fun _ => (forms_pure (by decide))

theorem opens_enumeration : c.Opens .enumKw enumeration :=
  (takes_bump (by decide)).opens fun _ => (calm_nameOr _).fine.forms fun _ => calm_genericParamList?.fine.forms
    fun _ => calm_whereClause?.fine.forms fun _ => (fine_body _).forms fun _ => (forms_pure (by decide))

theorem opens_moduleItem : c.Opens .modKw moduleItem :=
  (takes_bump (by decide)).opens fun _ => (calm_nameOr _).fine.forms fun _ => fine_moduleBody.forms
    fun _ => (forms_pure (by decide))

theorem opens_useItem (hf : c.fresh) : c.Opens .useKw useItem :=
  (takes_bump (by decide)).opens fun _ => (fine_useTree hf).discard.forms fun _ =>
    (calm_expect (by decide)).discard.fine.forms fun _ => (forms_pure (by decide))

theorem opens_typeAlias (hf : c.fresh) : c.Opens .typeKw typeAlias :=
  (takes_bump (by decide)).opens fun _ => (calm_nameOr _).fine.forms fun _ => calm_genericParamList?.fine.forms
    fun _ => (fine_typeBoundList?.whenEat (by decide)).fine.forms fun _ => calm_whereClause?.fine.forms fun _ =>
    ((fine_type hf).whenEat (by decide)).fine.forms fun _ => (calm_expect (by decide)).discard.fine.forms fun _ => (forms_pure (by decide))

/-- What may have `unsafe` in front of it. -/
theorem From.unsafeThen {k : Kind} {p : Parser Kind} {s : Spot} (hp : c.Opens k p)
    (h : c.input.kind s.pos = k ∨ c.input.kind s.pos = .unsafeKw ∧ c.input.kind (s.pos + 1) = k)
    (hk : k ≠ .unsafeKw) (simple : k.IsSimple) :
    c.From (do Functor.discard (Parser.eat .unsafeKw); p) s fun kind t => kind.IsProper ∧ s.pos < t.pos := by
  refine From.bind (M := fun _ t => c.input.kind t.pos = k)
    (.discard (From.imp (From.eatKind (k := .unsafeKw) (by decide) rfl) fun _ t _ ht => ?_)) fun _ t hst ht =>
      (hp t (Input.isAt_of_kind ht simple)).imp fun _ _ _ hu => ⟨hu.1, Nat.lt_of_le_of_lt hst.le hu.2⟩
  rcases h with h | ⟨h, next⟩
  · rw [if_neg (by rw [h]; exact hk)] at ht
    rw [ht.2, h]
  · rw [if_pos h] at ht
    rw [ht.2, next]

theorem opens_traitItem : c.Opens .traitKw (do
    bump .traitKw
    nameOr itemRecovery
    genericParamList?
    when (eat .colon) typeBoundList?
    whereClause?
    body .assocItemList
    return .trait) :=
  (takes_bump (by decide)).opens fun _ => (calm_nameOr _).fine.forms fun _ => calm_genericParamList?.fine.forms
    fun _ => (fine_typeBoundList?.whenEat (by decide)).fine.forms fun _ => calm_whereClause?.fine.forms fun _ =>
    (fine_body _).forms fun _ => (forms_pure (by decide))

theorem opens_implementation (hf : c.fresh) : c.Opens .implKw (do
    bump .implKw
    genericParamList?
    discard <| eat .bang
    call (.type true)
    when (eat .forKw) (call (.type true))
    whereClause?
    body .assocItemList
    return .impl) :=
  (takes_bump (by decide)).opens fun _ => calm_genericParamList?.fine.forms fun _ => (calm_eat (by decide)).discard.fine.forms
    fun _ => (fine_type hf).forms fun _ => ((fine_type hf).whenEat (by decide)).fine.forms fun _ =>
    calm_whereClause?.fine.forms fun _ => (fine_body _).forms fun _ => (forms_pure (by decide))

/-- Whether a declaration other than a function starts with two kinds of tokens. -/
def declares : Kind → Kind → Bool
  | .constKw, .ident | .constKw, .underscore | .unsafeKw, .traitKw | .unsafeKw, .implKw => true
  | .staticKw, _ | .structKw, _ | .enumKw, _ | .traitKw, _ | .implKw, _ | .modKw, _ | .useKw, _
  | .typeKw, _ => true
  | _, _ => false

theorem declares_none {k k' : Kind} (h : k ≠ .constKw) (h' : k ≠ .unsafeKw)
    (hk : k ∉ [Kind.staticKw, .structKw, .enumKw, .traitKw, .implKw, .modKw, .useKw, .typeKw]) :
    declares k k' = false := by
  cases k <;> first | rfl | simp_all

/-- A declaration is taken where one starts, and else nothing is touched. -/
@[reducible] def Declares (input : Input) (s : Spot) : Option Kind → Spot → Prop
  | some k, t => k.IsProper ∧ s.pos < t.pos ∧
    declares (input.kind s.pos) (input.kind (s.pos + 1)) = true
  | none, t => t = s ∧ declares (input.kind s.pos) (input.kind (s.pos + 1)) = false

theorem From.declaration? {s : Spot}
    (hf : declares (c.input.kind s.pos) (c.input.kind (s.pos + 1)) = true → c.fresh) :
    c.From declaration? s (Declares c.input s) := by
  have found {p : Parser Kind} (hd : declares (c.input.kind s.pos) (c.input.kind (s.pos + 1)) = true)
      (h : c.fresh → c.From p s fun k t => k.IsProper ∧ s.pos < t.pos) :
      c.From (some <$> p) s (Declares c.input s) :=
    .map ((h (hf hd)).imp fun _ _ _ ht => ⟨ht.1, ht.2, hd⟩)
  have opened {k : Kind} {p : Parser Kind} (hk : c.input.kind s.pos = k)
      (hd : ∀ k', declares k k' = true) (simple : k.IsSimple) (h : c.fresh → c.Opens k p) :
      c.From (some <$> p) s (Declares c.input s) :=
    found (by rw [hk]; exact hd _) fun hf => h hf s (Input.isAt_of_kind hk simple)
  have behind (h : (c.input.kind s.pos).isStop = false) :
      c.Tells (Parser.nth 1) s (c.input.kind (s.pos + 1)) := Tells.nth (n := 1) (open_one h)
  refine (Tells.current s).bind ?_
  split
  · next h =>
    have start := Input.isAt_of_kind h rfl
    refine (behind (by rw [h]; rfl)).bind ?_
    split
    · next h' => exact found (by rw [h, h']; rfl) fun hf => opens_constant hf s start
    · next h' => exact found (by rw [h, h']; rfl) fun hf => opens_constant hf s start
    · next ident underscore =>
      refine .pure ⟨rfl, ?_⟩
      rw [h]
      generalize c.input.kind (s.pos + 1) = k at *
      cases k <;> first | rfl | simp_all
  · next h =>
    refine (behind (by rw [h]; rfl)).bind ?_
    split
    · next h' => exact found (by rw [h, h']; rfl) fun _ => .unsafeThen opens_traitItem (.inr ⟨h, h'⟩) (by decide) rfl
    · next h' =>
      exact found (by rw [h, h']; rfl) fun hf => .unsafeThen (opens_implementation hf) (.inr ⟨h, h'⟩) (by decide) rfl
    · next trait impl =>
      refine .pure ⟨rfl, ?_⟩
      rw [h]
      generalize c.input.kind (s.pos + 1) = k at *
      cases k <;> first | rfl | simp_all
  · next h => exact opened h (fun _ => rfl) rfl opens_staticItem
  · next h => exact opened h (fun _ => rfl) rfl fun _ => opens_structItem
  · next h => exact opened h (fun _ => rfl) rfl fun _ => opens_enumeration
  · next h => exact found (by rw [h]; rfl) fun _ => .unsafeThen opens_traitItem (.inl h) (by decide) rfl
  · next h => exact found (by rw [h]; rfl) fun hf => .unsafeThen (opens_implementation hf) (.inl h) (by decide) rfl
  · next h => exact opened h (fun _ => rfl) rfl fun _ => opens_moduleItem
  · next h => exact opened h (fun _ => rfl) rfl opens_useItem
  · next h => exact opened h (fun _ => rfl) rfl opens_typeAlias
  · next const unsafe_ _ _ _ _ _ _ _ _ =>
    refine .pure ⟨rfl, declares_none const unsafe_ ?_⟩
    simp_all

/-! ## Functions -/

/-- How many of the next three tokens are modifiers of a function, from the first on. -/
def modifiersAt (input : Input) (i : Nat) : Fin 4 :=
  if (modifierRank (input.kind i)).isNone then 0
  else if (modifierRank (input.kind (i + 1))).isNone then 1
  else if (modifierRank (input.kind (i + 2))).isNone then 2
  else 3

/-- Whether a function starts at a place. -/
def atFunction (input : Input) (i : Nat) : Prop :=
  input.kind (i + (modifiersAt input i).val) = .fnKw

theorem isStop_of_modifier {k : Kind} (h : (modifierRank k).isNone = false) :
    k.isStop = false := by
  cases k <;> first | rfl | simp [modifierRank] at h

theorem modifier_of_lt {input : Input} {i m : Nat} (hm : m < (modifiersAt input i).val) :
    (modifierRank (input.kind (i + m))).isNone = false := by
  unfold modifiersAt at hm
  rw [← Bool.not_eq_true]
  split at hm
  · simp at hm
  split at hm
  · next h _ =>
    obtain rfl : m = 0 := by simpa using hm
    exact h
  split at hm
  · next h h' _ =>
    obtain rfl | rfl : m = 0 ∨ m = 1 := by
      simp at hm
      omega
    · exact h
    · exact h'
  · next h h' h'' =>
    obtain rfl | rfl | rfl : m = 0 ∨ m = 1 ∨ m = 2 := by
      change m < 3 at hm
      omega
    · exact h
    · exact h'
    · exact h''

theorem open_modifiersAt {input : Input} {i n : Nat} (hn : n ≤ (modifiersAt input i).val) :
    input.Open i n :=
  fun _ hm => isStop_of_modifier (modifier_of_lt (Nat.lt_of_lt_of_le hm hn))

theorem Tells.modifierCount (s : Spot) : c.Tells modifierCount s (modifiersAt c.input s.pos) := by
  have read {n : Fin 4} (hn : n.val ≤ (modifiersAt c.input s.pos).val) :
      c.Tells (Parser.nth n) s (c.input.kind (s.pos + n.val)) := Tells.nth (open_modifiersAt hn)
  by_cases h : (modifierRank (c.input.kind (s.pos + (0 : Fin 4).val))).isNone = true
  · have count : modifiersAt c.input s.pos = 0 := if_pos h
    refine (read (n := 0) (Nat.zero_le _)).andThen ?_
    rw [if_pos h, count]
    exact .pure 0 s
  by_cases h' : (modifierRank (c.input.kind (s.pos + (1 : Fin 4).val))).isNone = true
  · have count : modifiersAt c.input s.pos = 1 := (if_neg h).trans (if_pos h')
    refine (read (n := 0) (Nat.zero_le _)).andThen ?_
    rw [if_neg h]
    refine (read (n := 1) (Nat.le_of_eq (by rw [count]))).andThen ?_
    rw [if_pos h', count]
    exact .pure 1 s
  · have count : 2 ≤ (modifiersAt c.input s.pos).val := by
      rw [show modifiersAt c.input s.pos = _ from (if_neg h).trans (if_neg h')]
      split <;> decide
    refine (read (n := 0) (Nat.zero_le _)).andThen ?_
    rw [if_neg h]
    refine (read (n := 1) (Nat.le_of_succ_le count)).andThen ?_
    rw [if_neg h']
    refine (read (n := 2) count).andThen ?_
    by_cases h'' : (modifierRank (c.input.kind (s.pos + (2 : Fin 4).val))).isNone = true
    · rw [if_pos h'', show modifiersAt c.input s.pos = 2 from
        ((if_neg h).trans (if_neg h')).trans (if_pos h'')]
      exact .pure 2 s
    · rw [if_neg h'', show modifiersAt c.input s.pos = 3 from
        ((if_neg h).trans (if_neg h')).trans (if_neg h'')]
      exact .pure 3 s

theorem opens_functionRest : c.Opens .fnKw (do
    bump .fnKw
    nameOr (itemRecovery.insert .leftParen)
    genericParamList?
    paramListOr
    returnType? true
    whereClause?
    whenNot (eat .semicolon) block
    return .fn) :=
  (takes_bump (by decide)).opens fun _ => (calm_nameOr _).fine.forms fun _ => calm_genericParamList?.fine.forms
    fun _ => calm_paramListOr.fine.forms fun _ => (calm_returnType? true).fine.forms fun _ =>
    calm_whereClause?.fine.forms fun _ => ((calm_eat (by decide)).fine.whenNot fine_block).forms fun _ => (forms_pure (by decide))

/-- Behind its modifiers a function is taken. -/
theorem From.modifiers {s : Spot} {n : Nat} 
    (hm : ∀ m < n, (modifierRank (c.input.kind (s.pos + m))).isNone = false)
    (hn : (modifierRank (c.input.kind (s.pos + n))).isNone = true) :
    c.From modifiers s fun _ t => t.pos = s.pos + n := by
  refine .discard (.loop (fun _ t => t.pos ≤ s.pos + n) (Nat.le_add_right _ _) fun next t ht le => ?_)
  refine (Tells.current t).bind ?_
  obtain ⟨m, hm'⟩ := Nat.exists_eq_add_of_le ht.le
  split
  · next stop =>
    refine .pure ?_
    by_contra ne
    have := hm m (by omega)
    rw [← hm', stop] at this
    contradiction
  · next rank more =>
    have lt : t.pos < s.pos + n := by
      refine Nat.lt_of_le_of_ne le fun h => ?_
      rw [← h, more] at hn
      contradiction
    have apart : (c.input.kind t.pos).isBarrier = false := Kind.not_barrier_of_not_stop (isStop_of_modifier (by rw [more]; rfl))
    split
    · exact (From.skipOne _ apart).bind fun _ u _ hu => .pure ⟨by omega, by omega⟩
    · refine From.bind (M := fun _ u => u.pos = t.pos + 1) (.bumpAny (fun _ h => ?_) (fun h => ?_) rfl)
        fun _ u _ hu => .pure ⟨by omega, by omega⟩
      all_goals
        rw [h] at apart
        contradiction

theorem From.function {s : Spot} (h : atFunction c.input s.pos) :
    c.From function s fun k t => k.IsProper ∧ s.pos < t.pos := by
  refine (From.modifiers (fun m hm => modifier_of_lt hm) (by rw [h]; rfl)).bind fun _ t ht ht' => ?_
  exact (opens_functionRest t (Input.isAt_of_kind (by rw [ht']; exact h) rfl)).imp fun _ _ _ hu =>
    ⟨hu.1, Nat.lt_of_le_of_lt ht.le hu.2⟩

/-! ## The rule for items -/

/-- Whether an item starts at a place. -/
def itemStarts (input : Input) (i : Nat) : Prop :=
  input.kind i = .pubKw ∨ atFunction input i ∨ declares (input.kind i) (input.kind (i + 1)) = true

/-- Behind a visibility something is missing where no item starts. -/
theorem From.visibleItem (visible : Bool) {s : Spot}
    (hf : atFunction c.input s.pos ∨ declares (c.input.kind s.pos) (c.input.kind (s.pos + 1)) = true →
      c.fresh) :
    c.From (do
      if (← nth (← modifierCount)) == .fnKw then return some (← Parser.function)
      match ← Parser.declaration? with
      | some k => return some k
      | none =>
        if visible then
          expected .itemAfterVisibility
          return some Kind.error
        return none) s fun a t => match a with
      | some k => k.IsProper ∧ (visible = false → s.pos < t.pos)
      | none => t = s ∧ visible = false ∧ ¬ (atFunction c.input s.pos ∨
          declares (c.input.kind s.pos) (c.input.kind (s.pos + 1)) = true) := by
  refine (Tells.modifierCount s).bind ((Tells.nth (open_modifiersAt (Nat.le_refl _))).bind ?_)
  split
  · next h =>
    rw [beq_iff_eq] at h
    exact (From.function h).bind fun _ _ _ ht => .pure ⟨ht.1, fun _ => ht.2⟩
  next h =>
  rw [beq_iff_eq] at h
  refine (From.declaration? fun hd => hf (.inr hd)).bind fun a t _ ht => ?_
  cases a with
  | some k => exact .pure ⟨ht.1, fun _ => ht.2.1⟩
  | none =>
    obtain ⟨rfl, absent⟩ := ht
    dsimp only
    split
    · next hv => exact From.bind (.error (R := fun _ _ => True) trivial) fun _ _ _ _ => .pure ⟨by decide, by simp [hv]⟩
    · next hv => exact .pure ⟨rfl, by simpa using hv, not_or.mpr ⟨h, by simp [absent]⟩⟩

/-- The rule for items. -/
theorem From.item (s : Spot) : c.From item s fun found t =>
    Rule.item.Ensures c.input s.pos found t.pos := by
  refine From.bind (M := fun a t => if a.isSome = true then s.pos < t.pos else t.pos = s.pos)
    (.nodeIf (itemStarts c.input s.pos) ?_) fun a t _ ht => .pure ?_
  rotate_left
  · cases a with
    | some k => exact ht
    | none => exact ht
  let inside : Site := { c with fresh := c.fresh ∨ itemStarts c.input s.pos }
  refine (From.visibility? (c := inside) ⟨s.pos, false⟩).bind fun visible t ht hv => ?_
  change if c.input.kind s.pos = .pubKw then visible = true ∧ s.pos < t.pos
    else visible = false ∧ t = ⟨s.pos, false⟩ at hv
  split at hv
  · next pub =>
    obtain ⟨rfl, lt⟩ := hv
    refine (From.visibleItem (c := inside) true fun _ => .inr (.inl pub)).imp fun a u hu hr => ?_
    cases a with
    | some k =>
      have lt := Nat.lt_of_lt_of_le lt hu.le
      exact ⟨hr.1.spans lt, lt⟩
    | none => exact absurd hr.2.1 (by decide)
  · next pub =>
    obtain ⟨rfl, rfl⟩ := hv
    refine (From.visibleItem (c := inside) false (s := ⟨s.pos, false⟩)
      fun h => .inr (.inr h)).imp fun a u hu hr => ?_
    cases a with
    | some k => exact ⟨hr.1.spans (hr.2 rfl), hr.2 rfl⟩
    | none =>
      obtain ⟨rfl, -, absent⟩ := hr
      exact ⟨not_or.mpr ⟨pub, absent⟩, rfl⟩

/-! ## Lists of items -/

/-- A closing brace that nothing opened is taken only where braces do not matter. -/
theorem From.unmatchedBrace (hd : ¬ c.shallow) {s : Spot} (h : c.input.kind s.pos = .rightBrace) :
    c.From (Parser.node .error do
      Parser.error .unmatchedBrace
      Parser.bump .rightBrace) s fun _ t => s.pos < t.pos := by
  refine .node (by decide) (From.bind (M := fun _ t => t.pos = s.pos) (.error rfl) fun _ t _ ht room => ?_)
  have at_brace : c.input.isAt t.pos .rightBrace = true :=
    Input.isAt_of_kind (by rw [show t.pos = s.pos from ht]; exact h) rfl
  refine ⟨by decide, fun _ => ⟨⟨Nat.le_succ _, fun hs => absurd hs hd⟩, ?_⟩, fun no => ?_⟩
  · rw [← show t.pos = s.pos from ht]
    exact Nat.lt_succ_self _
  · change c.input.isAt t.pos .rightBrace = false at no
    rw [at_brace] at no
    contradiction

/-- One round among items takes a token, unless it stands at a closing brace that matters. -/
theorem From.itemOrError {s : Spot} (hs : c.floor ≤ 2 * s.pos) (more : c.input.kind s.pos ≠ .eof)
    (hb : c.shallow → c.input.kind s.pos ≠ .rightBrace) :
    c.From itemOrError s fun _ t => s.pos < t.pos := by
  refine (From.call (r := .item) hs False.elim trivial).bind fun found t _ ht => ?_
  cases found with
  | true => exact .pure ht
  | false =>
    have ht : t.pos = s.pos := ht
    refine (Tells.current t).bind ?_
    rw [← ht] at more hb ⊢
    split
    · next h => exact (takes_strayBlock _).from (Input.isAt_of_kind h rfl)
    · next h => exact .unmatchedBrace (fun hd => hb hd h) h
    · next left right =>
      have apart : (c.input.kind t.pos).isBarrier = false := by
        generalize c.input.kind t.pos = k at *
        cases k <;> first | rfl | simp_all
      exact (From.skipOne _ apart).imp fun _ _ _ next => next ▸ Nat.lt_succ_self _

/-- Items in braces end at a closing brace, those of a file at the end alone. -/
theorem From.contents (braced : Bool) (hb : c.shallow → braced = true) {s : Spot}
    (hs : c.floor ≤ 2 * s.pos) : c.From (contents braced) s fun _ t =>
      c.input.kind t.pos = .eof ∨ braced = true ∧ c.input.kind t.pos = .rightBrace := by
  refine .while (fun _ => True) trivial fun t ht _ => ?_
  have room : c.floor ≤ 2 * t.pos := by have := ht.le; omega
  refine (Tells.isAt .eof t).bind ((Tells.isAt .rightBrace t).bind ?_)
  rw [Input.isAt_simple (k := .eof) rfl, Input.isAt_simple (k := .rightBrace) rfl]
  split
  · next h => exact .pure (by simpa using h)
  · next h =>
    rw [Bool.or_eq_true, not_or, beq_iff_eq, Bool.and_eq_true, beq_iff_eq, not_and] at h
    exact (From.itemOrError room h.1 fun hd => h.2 (hb hd)).bind fun _ _ _ lt => .pure ⟨lt, trivial⟩

theorem encloses_bracedItems (hf : c.fresh) : c.Encloses .leftBrace .rightBrace bracedItems := by
  refine ⟨_, rfl, .discard fun s hs => .nested hf ?_ fun _ _ => trivial⟩
  exact (From.contents (c := c.nested) true (fun _ => rfl) hs).imp fun _ _ _ _ => trivial

/-! ## Imports -/

theorem fine_globOrList : c.Fine globOrList := by
  intro s hs
  refine (Tells.current s).bind ?_
  split
  · next h => exact ((takes_bump (by decide)).from (Input.isAt_of_kind h rfl)).imp fun _ _ _ _ => trivial
  · next h => exact (From.list (Nat.le_succ_of_le hs) h).imp fun _ _ _ _ => trivial
  · exact (calm_error _).from s

theorem calm_useTail : c.Calm useTail :=
  Takes.ifAt (Takes.node (by decide) ((takes_bump (by decide)).bind fun _ => ((calm_eat (by decide)).whenNot calm_name).fine))
    (fine_globOrList.whenEat (by decide))

theorem Tells.atRootGroup (s : Spot) : ∃ b, c.Tells atRootGroup s b ∧
    (b = true → c.input.isAt s.pos .colon2 = true) := by
  by_cases hc : c.input.isAt s.pos .colon2 = true
  · have tells := Tells.nth (c := c) (n := 2) (s := s) (Input.open_of_isAt (k := .colon2) rfl hc)
    generalize c.input.kind (s.pos + (2 : Fin 4).val) = k at tells
    cases k <;> exact ⟨_, (Tells.isAt _ s).both fun _ => tells.andThen (.pure _ s), fun _ => hc⟩
  · refine ⟨false, (Tells.isAt .colon2 s).andThen ?_, nofun⟩
    rw [Bool.not_eq_true] at hc
    rw [hc]
    exact .pure false s

theorem From.useTree? {s : Spot} (hs : c.floor ≤ 2 * s.pos + 1) :
    c.From useTree? s fun _ _ => True := by
  let inside : Site := { c with fresh := c.fresh ∨ False }
  have tree {p : Parser Unit} (hp : inside.From p ⟨s.pos, false⟩ fun _ _ => True) :
      inside.From (do p; return some Kind.useTree) ⟨s.pos, false⟩ fun a t => match a with
        | some k => k.Spans s.pos t.pos ∧ True
        | none => ¬ False ∧ True := hp.bind fun _ _ _ _ => .pure ⟨.of_plain (by decide), trivial⟩
  refine .nodeIf False ((Tells.current _).bind ?_)
  split
  · next h =>
    exact tree (((takes_bump (c := inside) (by decide)).from (s := ⟨s.pos, false⟩) (Input.isAt_of_kind h rfl)).imp
      fun _ _ _ _ => trivial)
  · next h => exact tree ((From.list (c := inside) (s := ⟨s.pos, false⟩) hs h).imp fun _ _ _ _ => trivial)
  obtain ⟨b, tells, group⟩ := Tells.atRootGroup (c := inside) ⟨s.pos, false⟩
  refine tells.bind ?_
  split
  · next h =>
    exact tree (((takes_bump (by decide)).bind fun _ => fine_globOrList) _ (group h) |>.imp fun _ _ _ _ => trivial)
  refine (Tells.atPath _).bind ?_
  split
  · exact tree ((calm_usePath.bind fun _ => calm_useTail) _)
  · exact .pure ⟨id, trivial⟩

theorem From.useTree {s : Spot} (hs : c.floor ≤ 2 * s.pos + 1) (topLevel : Bool) :
    c.From (useTree topLevel) s fun _ _ => True :=
  (From.useTree? hs).bind fun _ t _ _ => (((Calm.pure _).when (calm_recover _ _)) t).bind
    fun _ _ _ _ => .pure trivial

theorem encloses_useTreeList (hf : c.fresh) : c.Encloses .leftBrace .rightBrace useTreeList :=
  encloses_delimited (by decide) fun _ => fine_useTree hf

end Verbatim.Parser.Site
