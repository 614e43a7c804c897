import Verbatim.Proofs.Grammar.Closed
import Verbatim.Proofs.Locality

/-!
# Items end with their last token

An item that reports nothing ends with a semicolon or a closing brace that it asks for, and reads nothing
behind it. So where a text ends with an item, the item is read in the same way whatever follows.
-/
namespace Verbatim.Parser

open Outline

/-- An input that is the front of another, with levels of callees for both. -/
structure Seam where
  front : Input
  whole : Input
  levels : Nat
  levels' : Nat
  le : levels ≤ levels'
  kind : ∀ i < front.length, whole.kind i = front.kind i
  joint : ∀ i, i + 1 < front.length → whole.isJoint i = front.isJoint i
  room : front.length ≤ whole.length

namespace Seam

variable {c : Seam} {α β : Type} {P : α → Prop} {Q : β → Prop}

/-- A program that is run on the front. -/
abbrev run (c : Seam) (p : Parser α) (depth : Nat) (s : Frame) : α × Frame :=
  p.draft c.front (drafters c.front c.levels) depth s

/-- A run that reports nothing and yields a result in `P` ends behind a stop that it takes, and is the
same on the whole, even where it ends with the front. -/
def Final (c : Seam) (p : Parser α) (P : α → Prop) : Prop :=
  ∀ F depth s, p.Safe c.front (fun _ => True) (drafters c.front c.levels)
      (guards c.front (fun _ => True) c.levels) F depth s →
    (c.run p depth s).2.pos ≤ c.front.length → P (c.run p depth s).1 → QuietOf (c.run p depth s).2.row →
    s.pos < (c.run p depth s).2.pos ∧ (c.front.kind ((c.run p depth s).2.pos - 1)).isStop ∧
      p.draft c.whole (drafters c.whole c.levels') depth s = c.run p depth s

/-- In front of a stop every run is the same. -/
theorem draft_eq (p : Parser α) {F : Prop} {depth : Nat} {s : Frame}
    (safe : p.Safe c.front (fun _ => True) (drafters c.front c.levels)
      (guards c.front (fun _ => True) c.levels) F depth s)
    {stop : Nat} (le : stop ≤ c.front.length) (h : (c.front.kind (stop - 1)).isStop)
    (lt : (c.run p depth s).2.pos < stop) :
    p.draft c.whole (drafters c.whole c.levels') depth s = c.run p depth s := by
  have mirrors : Mirrors c.front c.whole 0 (· < stop) :=
    .of_window (fun i hi => c.kind i (by omega)) (fun i hi => c.joint i (by omega)) h le c.room
  have cut : ∀ n : Nat, True → (nestingLimit ≤ n ↔ nestingLimit ≤ n + 0) := fun _ _ => Iff.rfl
  have moved := draft_moved mirrors cut (forward_drafters c.front c.levels)
    (echoes_drafters mirrors cut c.le) p [] safe lt
  simpa using moved

namespace Final

theorem imp {P' : α → Prop} {p : Parser α} (h : c.Final p P') (hP : ∀ a, P a → P' a) : c.Final p P :=
  fun F depth s safe le ha quiet => h F depth s safe le (hP _ ha) quiet

/-- The first of two programs may be anything where the second one is final. -/
theorem behind {p : Parser α} {next : α → Parser β} {F : Prop} {depth : Nat} {s : Frame}
    (safe : (p >>= next).Safe c.front (fun _ => True) (drafters c.front c.levels)
      (guards c.front (fun _ => True) c.levels) F depth s)
    (le : (c.run (p >>= next) depth s).2.pos ≤ c.front.length)
    (h : (c.run p depth s).2.pos < (c.run (p >>= next) depth s).2.pos ∧
      (c.front.kind ((c.run (p >>= next) depth s).2.pos - 1)).isStop ∧
        (next (c.run p depth s).1).draft c.whole (drafters c.whole c.levels') depth (c.run p depth s).2 =
          c.run (p >>= next) depth s) :
    s.pos < (c.run (p >>= next) depth s).2.pos ∧
      (c.front.kind ((c.run (p >>= next) depth s).2.pos - 1)).isStop ∧
        (p >>= next).draft c.whole (drafters c.whole c.levels') depth s = c.run (p >>= next) depth s := by
  obtain ⟨lt, stop, same⟩ := h
  have forward := le_draft c.front (forward_drafters c.front c.levels) p depth s
  refine ⟨Nat.lt_of_le_of_lt forward lt, stop, ?_⟩
  change (next (p.draft c.whole _ depth s).1).draft _ _ depth (p.draft c.whole _ depth s).2 = _
  rw [draft_eq p safe.1 le stop lt]
  exact same

theorem after {p : Parser α} {next : α → Parser β} (hn : ∀ a, c.Final (next a) Q) :
    c.Final (p >>= next) Q := fun F depth _ safe le ha quiet =>
  behind safe le (hn _ F depth _ safe.2 le ha quiet)

/-- A program that only returns may follow; where the first is not at its end, the next must be final. -/
theorem bind {p : Parser α} {next : α → Parser β} (hp : c.Final p P)
    (yes : ∀ a, P a → ∃ b, next a = Pure.pure b) (no : ∀ a, ¬ P a → c.Final (next a) Q) :
    c.Final (p >>= next) Q := by
  intro F depth s safe le ha quiet
  by_cases hP : P (c.run p depth s).1
  · obtain ⟨b, hb⟩ := yes _ hP
    have ends : c.run (p >>= next) depth s = (b, (c.run p depth s).2) := by
      change (next (c.run p depth s).1).draft _ _ depth (c.run p depth s).2 = _
      rw [hb]
      rfl
    rw [ends] at le quiet ⊢
    obtain ⟨lt, stop, same⟩ := hp F depth s safe.1 le hP quiet
    refine ⟨lt, stop, ?_⟩
    change (next (p.draft c.whole _ depth s).1).draft _ _ depth (p.draft c.whole _ depth s).2 = _
    rw [same, hb]
    rfl
  · exact behind safe le (no _ hP F depth _ safe.2 le ha quiet)

theorem pure {a : α} (h : ¬ P a) : c.Final (Pure.pure a) P := fun _ _ _ _ _ ha _ => absurd ha h

/-- Only the result is changed behind it. -/
theorem returning {p : Parser α} {f : α → β} (hp : c.Final p fun a => Q (f a)) :
    c.Final (p >>= fun a => Pure.pure (f a)) Q :=
  hp.bind (fun a _ => ⟨f a, rfl⟩) fun _ h => .pure h

theorem map {p : Parser α} {f : α → β} (hp : c.Final p fun a => Q (f a)) : c.Final (f <$> p) Q :=
  hp.returning

theorem discard {p : Parser α} {Q : Unit → Prop} (hp : c.Final p fun _ => Q ()) :
    c.Final (Functor.discard p) Q := hp.returning

theorem error {cause : Cause} {Q : Unit → Prop} : c.Final (error cause) Q :=
  fun _ _ _ _ _ _ quiet => absurd quiet.2 id

/-- Behind an error anything may follow. -/
theorem errorThen {cause : Cause} {next : Unit → Parser β} :
    c.Final (Parser.error cause >>= next) Q := fun _ depth s _ _ _ quiet =>
  absurd ((grown_draft c.front (growing_drafters c.front c.levels) (next ()) depth
    (s.write (.error cause))).quiet quiet).2 id

theorem eat {k : Kind} (hk : k.isStop) : c.Final (eat k) (· = true) := by
  intro F depth s safe le ha _
  have at_k : c.front.isAt s.pos k = true := by
    by_contra h
    simp [run, draft, h] at ha
  have simple := Kind.simple_of_stop hk
  have here : c.front.kind s.pos = k := by simpa [Input.isAt_simple simple] using at_k
  have ends : c.run (Parser.eat k) depth s = (true, s.take k 1) := by
    simp [run, draft, at_k, show k.pieces = [k] from simple]
  have lt : s.pos < c.front.length := Input.lt_length_of_kind_ne (here ▸ safe)
  have there : c.whole.isAt s.pos k = true := Input.isAt_of_kind ((c.kind _ lt).trans here) simple
  rw [ends]
  refine ⟨Nat.lt_succ_self _, ?_, ?_⟩
  · change (c.front.kind (s.pos + 1 - 1)).isStop
    rwa [Nat.add_sub_cancel, here]
  · simp [draft, there, show k.pieces = [k] from simple]

theorem enclose {p : Parser α} {kind : α → Option Kind} (hp : c.Final p P) :
    c.Final (Parser.enclose p kind) P := by
  intro F depth s safe le ha quiet
  have result : (c.run (.enclose p kind) depth s).1 = (c.run p depth s.opened).1 := by
    simp only [run, draft]
    split <;> rfl
  have ended : (c.run (.enclose p kind) depth s).2.pos = (c.run p depth s.opened).2.pos := by
    simp only [run, draft]
    split <;> rfl
  have inside : QuietOf (c.run p depth s.opened).2.row := by
    simp only [run, draft] at quiet
    split at quiet
    · exact quiet.2
    · simp only [Frame.spill] at quiet
      split at quiet
      · next empty =>
        rw [run, List.isEmpty_iff.mp empty]
        trivial
      · exact ((quietOf_append _ _).mp quiet).2
  obtain ⟨lt, stop, same⟩ := hp _ depth s.opened safe.1 (ended ▸ le) (result ▸ ha) inside
  exact ⟨ended ▸ lt, ended ▸ stop, by simp only [run, draft, same]⟩

theorem ite {b : Prop} [Decidable b] {p q : Parser α} (hp : c.Final p P) (hq : c.Final q P) :
    c.Final (if b then p else q) P := by
  split
  · exact hp
  · exact hq

theorem expect {k : Kind} {Q : Bool → Prop} (hk : k.isStop) : c.Final (expect k) Q :=
  (eat hk).bind (by rintro _ rfl; exact ⟨true, rfl⟩) fun a ha => by
    cases a with
    | false => exact errorThen
    | true => exact absurd rfl ha

/-- A token that ends the construct, or something else that does. -/
theorem eatOr {k : Kind} {p : Parser Unit} {Q : Unit → Prop} (hk : k.isStop) (hp : c.Final p Q) :
    c.Final (whenNot (Parser.eat k) p) Q :=
  (eat hk).bind (by rintro _ rfl; exact ⟨(), rfl⟩) fun a ha => by
    cases a with
    | false => exact hp
    | true => exact absurd rfl ha

/-- A list in braces ends with its brace. -/
theorem list {f : Fragment} {Q : Unit → Prop} : c.Final (list f) Q := by
  intro F depth s safe le ha quiet
  obtain ⟨front, whole, levels, levels', hle, kind, joint, room⟩ := c
  cases levels with
  | zero => exact absurd safe id
  | succ levels =>
    obtain ⟨levels', rfl⟩ : ∃ n, levels' = n + 1 := ⟨levels' - 1, by omega⟩
    let below : Seam := ⟨front, whole, levels, levels', by omega, kind, joint, room⟩
    have body : below.Final f.body fun _ => True := by
      obtain ⟨body, eq, -⟩ := Site.encloses_fragment (c := ⟨front, False, 0, True⟩) f trivial
      rw [eq]
      exact .after fun _ => .after fun _ => .discard (.expect rfl)
    obtain ⟨lt, stop, same⟩ := body True depth s.opened safe.2 le trivial quiet.2
    refine ⟨lt, stop, congrArg (((), ·)) ?_⟩
    exact congrArg (fun t : Unit × Frame => s.close t.2 f.kind) same

/-- A rule that is called by name is as final as its body. -/
theorem call {r : Rule} {P : r.Result → Prop} (h : ∀ c : Seam, c.Final r.body P) :
    c.Final (call r) P := by
  intro F depth s safe le ha quiet
  obtain ⟨front, whole, levels, levels', hle, kind, joint, room⟩ := c
  cases levels with
  | zero => exact absurd safe id
  | succ levels =>
    obtain ⟨levels', rfl⟩ : ∃ n, levels' = n + 1 := ⟨levels' - 1, by omega⟩
    exact h ⟨front, whole, levels, levels', by omega, kind, joint, room⟩ F depth s safe le ha quiet

end Final

/-! ## The items -/

theorem final_recover {cause : Cause} {recovery : KindSet} {Q : Unit → Prop} :
    c.Final (recover cause recovery) Q :=
  .after fun _ => .after fun _ => .ite .error (.enclose .errorThen)

theorem final_block {Q : Unit → Prop} : c.Final block Q :=
  .after fun _ => .ite (.enclose .list) .error

theorem final_body {f : Fragment} {Q : Unit → Prop} : c.Final (body f) Q :=
  .after fun _ => .ite .list .error

theorem final_typedValue {Q : Unit → Prop} : c.Final typedValue Q :=
  .after fun _ => .after fun _ => .discard (.expect rfl)

theorem final_structBody {Q : Unit → Prop} : c.Final structBody Q :=
  .after fun _ => .ite (.after fun _ => .after fun _ => .discard (.expect rfl))
    (.after fun _ => .after fun _ => .ite .list (.eatOr rfl .error))

theorem final_moduleBody {Q : Unit → Prop} : c.Final moduleBody Q :=
  .after fun _ => .ite .list (.discard (.expect rfl))

theorem final_function {Q : Kind → Prop} : c.Final function Q :=
  .after fun _ => .after fun _ => .after fun _ => .after fun _ => .after fun _ => .after fun _ =>
    .after fun _ => .returning (.eatOr rfl final_block)

theorem final_declaration? : c.Final declaration? (·.isSome) := by
  have some_of {p : Parser Kind} (h : c.Final p fun _ => True) :
      c.Final (some <$> p) (·.isSome) := .map (h.imp fun _ _ => trivial)
  have none_of : c.Final (Pure.pure (none : Option Kind)) (·.isSome) := .pure (by simp)
  have constant : c.Final constant fun _ => True :=
    .after fun _ => .after fun _ => .returning final_typedValue
  have trait : c.Final traitItem fun _ => True :=
    .after fun _ => .after fun _ => .after fun _ => .after fun _ => .after fun _ => .after fun _ =>
      .returning final_body
  have implementation : c.Final implementation fun _ => True :=
    .after fun _ => .after fun _ => .after fun _ => .after fun _ => .after fun _ => .after fun _ =>
      .after fun _ => .returning final_body
  refine .after fun k => ?_
  split
  · refine .after fun k' => ?_
    split
    · exact some_of constant
    · exact some_of constant
    · exact none_of
  · refine .after fun k' => ?_
    split
    · exact some_of trait
    · exact some_of implementation
    · exact none_of
  · exact some_of (.after fun _ => .after fun _ => .after fun _ => .returning final_typedValue)
  · exact some_of (.after fun _ => .after fun _ => .after fun _ => .returning final_structBody)
  · exact some_of (.after fun _ => .after fun _ => .after fun _ => .after fun _ => .returning final_body)
  · exact some_of trait
  · exact some_of implementation
  · exact some_of (.after fun _ => .after fun _ => .returning final_moduleBody)
  · exact some_of (.after fun _ => .after fun _ => .returning (.discard (.expect rfl)))
  · exact some_of (.after fun _ => .after fun _ => .after fun _ => .after fun _ => .after fun _ =>
      .after fun _ => .returning (.discard (.expect rfl)))
  · exact none_of

theorem final_item : c.Final item (· = true) := by
  refine .returning (.enclose (.after fun visible => .after fun _ => .after fun _ => .ite ?_ ?_))
  · exact .returning final_function
  · refine final_declaration?.bind (fun a ha => ?_) fun a ha => ?_
    · obtain ⟨k, rfl⟩ := Option.isSome_iff_exists.mp ha
      exact ⟨some k, rfl⟩
    · obtain rfl : a = none := by simpa using ha
      exact .ite .errorThen (.pure (by simp))

/-- What is no item is reported. -/
theorem final_itemOrError {Q : Unit → Prop} : c.Final itemOrError Q := by
  refine (Final.call (r := .item) fun _ => final_item).bind (by rintro _ rfl; exact ⟨(), rfl⟩) fun a ha => ?_
  obtain rfl : a = false := by simpa using ha
  refine .after fun k => ?_
  split
  · exact .enclose .errorThen
  · exact .enclose .errorThen
  · exact final_recover

/-! ## Files -/

/-- One round of the loop over the items of a file. -/
def fileRound : Unit → Parser (ForInStep Unit) := fun _ => do
  return if ← (do
    if (← isAt .eof) || (false && (← isAt .rightBrace)) then return false
    itemOrError
    return true) then .yield () else .done ()

theorem final_fileRound : c.Final (fileRound ()) (· = .yield ()) := by
  have items : c.Final (do
      if (← isAt .eof) || (false && (← isAt .rightBrace)) then return false
      itemOrError
      return true) (· = true) :=
    .after fun _ => .after fun _ => .ite (.pure nofun) (.returning final_itemOrError)
  exact .returning (items.imp fun a ha => by cases a <;> simp_all)

/-- The loop over the items of a file stops at the end only, and nowhere else. -/
theorem fileRound_done {depth : Nat} {s t : Frame} (h : c.run (fileRound ()) depth s = (.done (), t)) :
    c.front.kind s.pos = .eof ∧ t = s := by
  simp only [run, fileRound, draft, bind, isAt, Nat.add_zero, Pure.pure,
    Input.isAt_simple (k := .eof) rfl, Bool.false_and, Bool.or_false] at h
  by_cases ends : c.front.kind s.pos = .eof
  · simp only [ends, beq_self_eq_true, if_true, draft] at h
    exact ⟨ends, (Prod.mk.inj h).2.symm⟩
  · simp [beq_eq_false_iff_ne.mpr ends, draft] at h

/-- Items that report nothing up to the end of the front are read in the whole as well, and then the
loop goes on behind them. -/
theorem iterate_front {F : Prop} {fuel : Nat} (more : Nat) {s : Frame}
    (safe : SafeIterate (fun a s => c.run (fileRound a) 0 s) (fun a s => (fileRound a).Safe c.front
      (fun _ => True) (drafters c.front c.levels) (guards c.front (fun _ => True) c.levels) F 0 s)
      fuel () s) {t : Frame} (stuck stuck' : Frame → Frame) (still : ∀ s, s.pos ≤ (stuck s).pos)
    (grown : ∀ s, Grown s.row (stuck s).row)
    (run : (iterate (fun a s => c.run (fileRound a) 0 s) stuck fuel () s).2 = t)
    (le : t.pos ≤ c.front.length) (quiet : QuietOf t.row) :
    c.front.kind t.pos = .eof ∧ ∃ fuel', more < fuel' ∧
      iterate (fun a s => (fileRound a).draft c.whole (drafters c.whole c.levels') 0 s) stuck'
          (fuel + more) () s =
        iterate (fun a s => (fileRound a).draft c.whole (drafters c.whole c.levels') 0 s) stuck' fuel'
          () t := by
  induction fuel generalizing s with
  | zero => exact absurd safe id
  | succ fuel ih =>
    have rest : ∀ b, (c.run (fileRound ()) 0 s).1 = .yield b →
      SafeIterate _ _ fuel b (c.run (fileRound ()) 0 s).2 := safe.2
    rw [iterate] at run
    rcases hr : c.run (fileRound ()) 0 s with ⟨_ | _, u⟩ <;> rw [hr] at run rest
    · obtain ⟨ends, rfl⟩ := fileRound_done hr
      obtain rfl : u = t := run
      exact ⟨ends, fuel + 1 + more, by omega, rfl⟩
    · have later : u.pos ≤ t.pos ∧ Grown u.row t.row := by
        rw [← run]
        exact iterate_induction (P := fun v : Frame => u.pos ≤ v.pos ∧ Grown u.row v.row)
          (fun a v hv => ⟨Nat.le_trans hv.1 (le_draft c.front (forward_drafters _ _) _ _ _),
            hv.2.trans (grown_draft c.front (growing_drafters _ _) _ _ _)⟩)
          (fun v hv => ⟨Nat.le_trans hv.1 (still v), hv.2.trans (grown v)⟩) _
          ⟨Nat.le_refl _, .refl⟩
      obtain ⟨-, -, same⟩ := final_fileRound F 0 s safe.1 (by rw [hr]; exact Nat.le_trans later.1 le)
        (by rw [hr]) (by rw [hr]; exact later.2.quiet quiet)
      obtain ⟨ends, fuel', lt, eq⟩ := ih (rest () rfl) run
      refine ⟨ends, fuel', lt, ?_⟩
      rw [Nat.add_right_comm, iterate, same, hr]
      exact eq

end Seam

/-- An input that shows what one input shows, and behind it what another one shows. -/
structure Spliced (front back whole : Input) : Prop where
  length : whole.length = front.length + back.length
  front_kind : ∀ i < front.length, whole.kind i = front.kind i
  front_joint : ∀ i, i + 1 < front.length → whole.isJoint i = front.isJoint i
  back_kind : ∀ i, whole.kind (i + front.length) = back.kind i
  back_joint : ∀ i, whole.isJoint (i + front.length) = back.isJoint i

theorem Spliced.mirrors {front back whole : Input} (h : Spliced front back whole) :
    Mirrors back whole front.length fun _ => True := by
  have glued (ks : List Kind) (i : Nat) : whole.glued (i + front.length) ks = back.glued i ks := by
    induction ks generalizing i with
    | nil => rfl
    | cons k ks ih =>
      cases ks with
      | nil => simp only [Input.glued, h.back_kind]
      | cons k' ks => simp only [Input.glued, h.back_kind, h.back_joint, Nat.add_right_comm, ih]
  refine ⟨fun i n _ _ => ?_, fun i n k _ _ => ?_, fun i _ => ?_, fun _ _ _ h => h⟩
  · rw [Nat.add_right_comm, h.back_kind]
  · rw [Nat.add_right_comm]
    exact glued _ _
  · have := h.length
    omega

/-- Behind items that report nothing, a file is read as if it stood alone. -/
theorem outline_spliced {front back whole : Input} (h : Spliced front back whole)
    (filled : ∀ i < front.length, front.kind i ≠ .eof) {row row' : List Outline} {i j : Nat}
    (hf : outline sourceFile front = ⟨i, [.node .sourceFile row]⟩) (quiet : QuietOf row)
    (hb : outline sourceFile back = ⟨j, [.node .sourceFile row']⟩) :
    outline sourceFile whole = ⟨j + front.length, [.node .sourceFile (row' ++ row)]⟩ := by
  have length := h.length
  let seam : Seam := ⟨front, whole, 2 * front.length + 2, 2 * whole.length + 2, by omega, h.front_kind,
    h.front_joint, by omega⟩
  let items (input : Input) (a : Unit) (s : Frame) :=
    (Seam.fileRound a).draft input (drafters input (2 * input.length + 2)) 0 s
  let stuck : Frame → Frame := (·.write (.fault .noProgress))
  have unfolded (input : Input) : outline sourceFile input =
      (⟨0, []⟩ : Frame).close (iterate (items input) stuck (input.length + 1) () ⟨0, []⟩).2
        .sourceFile := rfl
  have ran : (iterate (items front) stuck (front.length + 1) () ⟨0, []⟩).2 = ⟨i, row⟩ := by
    have := (unfolded front).symm.trans hf
    simp only [Frame.close, Frame.mk.injEq, List.cons.injEq, Outline.node.injEq, true_and, and_true] at this
    exact Frame.mk.injEq .. ▸ this
  have ran' : (iterate (items back) stuck (back.length + 1) () ⟨0, []⟩).2 = ⟨j, row'⟩ := by
    have := (unfolded back).symm.trans hb
    simp only [Frame.close, Frame.mk.injEq, List.cons.injEq, Outline.node.injEq, true_and, and_true] at this
    exact Frame.mk.injEq .. ▸ this
  have le : i ≤ front.length := by
    have := (runs_sourceFile front).1.le
    rwa [hf] at this
  obtain ⟨ends, fuel, more, continued⟩ := seam.iterate_front back.length
    (runs_sourceFile front).1.safe.1 stuck stuck (fun s => Nat.le_refl s.pos)
    (fun s => Grown.refl.write _) ran le quiet
  obtain rfl : i = front.length := by
    by_contra ne
    exact filled i (by omega) ends
  have cut : ∀ n : Nat, True → (nestingLimit ≤ n ↔ nestingLimit ≤ n + 0) := fun _ _ => Iff.rfl
  have forward := forward_drafters back (2 * back.length + 2)
  have echoes := echoes_drafters h.mirrors cut
    (show 2 * back.length + 2 ≤ 2 * whole.length + 2 by omega)
  have moved : iterate (items whole) stuck fuel () ((⟨0, []⟩ : Frame).moved front.length row) =
      ((iterate (items back) stuck (back.length + 1) () ⟨0, []⟩).1,
        (iterate (items back) stuck (back.length + 1) () ⟨0, []⟩).2.moved front.length row) :=
    iterate_moved h.mirrors.back (fun a s => le_draft back forward _ 0 s)
      (fun s => show s.pos ≤ (stuck s).pos from Nat.le_refl s.pos)
      (fun a s safe here => draft_moved h.mirrors cut forward echoes (Seam.fileRound a) row safe here)
      (show back.length + 1 ≤ fuel by omega) (runs_sourceFile back).1.safe.1 trivial
  have start : (⟨front.length, row⟩ : Frame) = (⟨0, []⟩ : Frame).moved front.length row := by
    simp [Frame.moved]
  have first : iterate (items whole) stuck (front.length + 1 + back.length) () ⟨0, []⟩ =
      iterate (items whole) stuck fuel () ⟨front.length, row⟩ := continued
  have second : (iterate (items whole) stuck fuel () ((⟨0, []⟩ : Frame).moved front.length row)).2 =
      (iterate (items back) stuck (back.length + 1) () ⟨0, []⟩).2.moved front.length row :=
    congrArg Prod.snd moved
  rw [unfolded, show whole.length + 1 = front.length + 1 + back.length by omega, first, start, second, ran']
  rfl

end Verbatim.Parser
