import Verbatim.Proofs.Composition
import Verbatim.Proofs.Fragments
import Verbatim.Proofs.Replanting

/-!
# The new list in its place

A list that was parsed from a text of its own is read as the same in a larger text, provided that nothing
in it comes too deep there. The inputs of the old text and of the new one show the same outside of the two
lists.
-/
namespace Verbatim

open Green Token Outline

/-! ## The tokens of the texts -/

namespace Token

theorem listFrom_leftBrace (n : Nat) (t : Text) :
    listFrom n ('{' :: t) = ⟨.leftBrace, ['{'], n, none⟩ :: listFrom (n + 1) t := by
  rw [listFrom_cons]
  rfl

theorem listFrom_rightBrace (n : Nat) (t : Text) :
    listFrom n ('}' :: t) = ⟨.rightBrace, ['}'], n, none⟩ :: listFrom (n + 1) t := by
  rw [listFrom_cons]
  rfl

/-- Behind some tokens of a text stand those of its rest. -/
theorem listFrom_drop {n : Nat} {t front back : Text} {ts us : List Token} (h : listFrom n t = ts ++ us)
    (text : t = front ++ back) (spells : ts.flatMap (·.text) = front) (more : ∀ x ∈ ts, x.kind ≠ .eof) :
    us = listFrom (n + front.size) back := by
  induction ts generalizing n t front with
  | nil =>
    obtain rfl : [] = front := spells
    rw [text] at h
    exact h.symm
  | cons first ts ih =>
    cases t with
    | nil =>
      rw [listFrom_nil, List.cons_append] at h
      obtain ⟨rfl, -⟩ := List.cons.inj h
      exact absurd rfl (more _ List.mem_cons_self)
    | cons c t =>
      rw [listFrom_cons, List.cons_append] at h
      obtain ⟨rfl, rest⟩ := List.cons.inj h
      have scanned : (scan c t).2.text ++ (scan c t).2.rest = t := spells_scan c t
      generalize scan c t = s at rest spells scanned more
      rw [List.flatMap_cons] at spells
      subst spells scanned
      rw [List.append_assoc, List.cons_append] at text
      rw [ih rest (List.append_cancel_left (List.cons.inj text).2) rfl fun x hx =>
        more x (List.mem_cons_of_mem _ hx), Text.size_append, Nat.add_assoc]

/-- The tokens of a text that ends with a brace of its own, in front of another text. -/
theorem listFrom_closed {t : Text} {ts : List Token} {ket stop : Token} (h : list t = ts ++ [ket, stop])
    (more : ∀ x ∈ ts, x.kind ≠ .eof) (closes : ket.kind = .rightBrace) (n : Nat) (u : Text) :
    listFrom n (t ++ u) = (ts ++ [ket]).map (moved n) ++ listFrom (n + t.size) u := by
  obtain ⟨row, split, inRow, spells⟩ := listFrom_inRow 0 t
  have row_eq := split.symm.trans (h.trans (List.append_assoc ts [ket] [stop]).symm)
  obtain ⟨rfl, -⟩ := List.append_inj' row_eq rfl
  have written : ket.text = ['}'] :=
    (Input.spelled_of_inRow inRow ket (by simp)).spelling "\x7d" (by rw [closes]; rfl)
  rw [List.flatMap_append, List.flatMap_singleton, written] at spells
  subst spells
  have alone : [ket, stop] = listFrom (0 + Text.size (ts.flatMap (·.text))) ['}'] :=
    listFrom_drop (t := ts.flatMap (·.text) ++ ['}']) h rfl rfl more
  have joined : list (ts.flatMap (·.text) ++ '}' :: u) =
      ts ++ listFrom (0 + Text.size (ts.flatMap (·.text))) ('}' :: u) := listFrom_brace (.inr rfl) h rfl u
  rw [listFrom_rightBrace] at alone joined
  rw [← (List.cons.inj alone).1] at joined
  rw [listFrom_eq_map, List.append_assoc, List.singleton_append, joined, List.append_cons, List.map_append,
    ← listFrom_moved, Text.size_append]
  congr 2
  change _ = n + (_ + 1)
  omega

end Token

/-! ## What is seen in front and behind -/

namespace Input

variable {input : Input}

/-- Where a text starts is not seen. -/
theorem ofTokens_map_moved (n : Nat) (ts : List Token) : ofTokens (ts.map (Token.moved n)) = ofTokens ts := by
  have seen (input : Input) (follows : Bool) :
      input.see follows (ts.map (Token.moved n)) = input.see follows ts := by
    induction ts generalizing input follows with
    | nil => rfl
    | cons t ts ih =>
      rw [List.map_cons, see, see, ih, ih]
      rfl
  exact seen _ false

/-- The tokens behind some that are passed. -/
theorem Aligned.append {xs ys : List Token} {i : Nat} (h : input.Aligned (xs ++ ys) i)
    (more : ∀ t ∈ xs, t.kind ≠ .eof) : input.Aligned ys (i + Token.significant xs) := by
  induction xs generalizing i with
  | nil => exact h
  | cons t xs ih =>
    have later := fun t ht => more t (List.mem_cons_of_mem _ ht)
    by_cases trivia : t.isTrivia = true
    · rw [Token.significant, List.countP_cons_of_neg (by simpa using trivia)]
      exact ih (h.skip trivia) later
    · rw [Bool.not_eq_true] at trivia
      have rest := ih (h.step trivia (more t List.mem_cons_self)) later
      rw [Token.significant, List.countP_cons_of_pos (by simp [trivia])]
      rwa [Nat.add_assoc, Nat.add_comm 1] at rest

/-- Tokens of a text that are not all used up stand at one place of it. -/
theorem Aligned.unique {ends : Nat} (last : ∀ i, input.kind i = .eof ↔ ends ≤ i) {ts : List Token}
    {i j : Nat} (hi : input.Aligned ts i) (hj : input.Aligned ts j) (more : input.kind i ≠ .eof) : i = j := by
  have same (m : Nat) : ends ≤ i + m ↔ ends ≤ j + m := by
    rw [← last, ← last, ← hi.kind, ← hj.kind]
  have inside : ¬ ends ≤ i := fun le => more ((last i).mpr le)
  have at_end := same (ends - i)
  have before_end := same (ends - i - 1)
  omega

/-- From where the same tokens are left, the same is seen. -/
theorem Aligned.isAt_eq {input' : Input} {ts ts' : List Token} {i i' : Nat} (h : input.Aligned ts i)
    (h' : input'.Aligned ts' i') (same : ofTokens ts' = ofTokens ts) (n : Nat) :
    input'.kind (i' + n) = input.kind (i + n) ∧ ∀ k, input'.isAt (i' + n) k = input.isAt (i + n) k := by
  have kind (n : Nat) : input'.kind (i' + n) = input.kind (i + n) := by rw [← h.kind, ← h'.kind, same]
  have joint (n : Nat) : input'.isJoint (i' + n) = input.isJoint (i + n) := by rw [← h.joint, ← h'.joint, same]
  have glued (ks : List Kind) (n : Nat) : input'.glued (i' + n) ks = input.glued (i + n) ks := by
    induction ks generalizing n with
    | nil => rfl
    | cons k ks ih =>
      cases ks with
      | nil => simp only [Input.glued, kind]
      | cons k' ks => simp only [Input.glued, kind, joint, Nat.add_assoc, ih]
  exact ⟨kind n, fun k => glued k.pieces n⟩

/-- Up to a token that is seen, what is seen does not depend on what comes behind it. -/
theorem ofTokens_front {xs : List Token} {b : Token} (more : ∀ t ∈ xs, t.kind ≠ .eof) (seen : b.isTrivia = false)
    (hb : b.kind ≠ .eof) (ys zs : List Token) :
    (∀ i ≤ Token.significant xs, (ofTokens (xs ++ b :: ys)).kind i = (ofTokens (xs ++ b :: zs)).kind i) ∧
      ∀ i < Token.significant xs, (ofTokens (xs ++ b :: ys)).isJoint i = (ofTokens (xs ++ b :: zs)).isJoint i := by
  induction xs with
  | nil =>
    refine ⟨fun i hi => ?_, fun i hi => absurd hi (Nat.not_lt_zero i)⟩
    obtain rfl := Nat.le_zero.mp hi
    have head (us : List Token) : (ofTokens (b :: us)).kind 0 = b.kind := (aligned_start _).kind_head seen
    rw [List.nil_append, List.nil_append, head, head]
  | cons t xs ih =>
    obtain ⟨kinds, joints⟩ := ih fun t ht => more t (List.mem_cons_of_mem _ ht)
    by_cases trivia : t.isTrivia = true
    · rw [Token.significant, List.countP_cons_of_neg (by simpa using trivia), List.cons_append, List.cons_append,
        ofTokens_trivia trivia, ofTokens_trivia trivia]
      exact ⟨kinds, joints⟩
    · rw [Bool.not_eq_true] at trivia
      have he := more t List.mem_cons_self
      have step (us : List Token) := ofTokens_seen trivia he (xs ++ b :: us)
      have next : seenFirst (xs ++ b :: ys) = seenFirst (xs ++ b :: zs) := by
        cases xs with
        | nil => simp [seenFirst, hb]
        | cons x xs =>
          have hx := more x (List.mem_cons_of_mem _ List.mem_cons_self)
          simp [seenFirst, hx]
      rw [Token.significant, List.countP_cons_of_pos (by simp [trivia]), List.cons_append, List.cons_append]
      refine ⟨fun i hi => ?_, fun i hi => ?_⟩
      · rw [kind_eq_getElem?, kind_eq_getElem?, (step ys).1, (step zs).1]
        cases i with
        | zero => rfl
        | succ i =>
          rw [List.getElem?_cons_succ, List.getElem?_cons_succ, ← kind_eq_getElem?, ← kind_eq_getElem?]
          exact kinds i (Nat.le_of_succ_le_succ hi)
      · cases i with
        | zero => rw [(step ys).2.1, (step zs).2.1, next]
        | succ i =>
          rw [(step ys).2.2, (step zs).2.2]
          exact joints i (Nat.lt_of_succ_lt_succ hi)

end Input

namespace Graft

open Verbatim.Parser Outline

variable {g : Graft}

/-- Texts that are the same in front of a list and behind it show the same there. -/
theorem sees_of_aligned {before behind behind' rest rest' : List Token} {b : Token} (hb : b.kind = .leftBrace)
    (more : ∀ t ∈ before, t.kind ≠ .eof) (first : g.first = Token.significant before)
    (old : (Input.ofTokens (before ++ b :: behind)).Aligned rest g.last)
    (new : (Input.ofTokens (before ++ b :: behind')).Aligned rest' g.newLast)
    (same : Input.ofTokens rest' = Input.ofTokens rest) :
    g.Sees (.ofTokens (before ++ b :: behind)) (.ofTokens (before ++ b :: behind')) := by
  have seen : b.isTrivia = false := Token.seen_of_kind hb rfl
  have not_end : b.kind ≠ .eof := by
    rw [hb]
    decide
  obtain ⟨kinds, joints⟩ := Input.ofTokens_front more seen not_end behind' behind
  have stop : ((Input.ofTokens (before ++ b :: behind)).kind (g.first + 1 - 1)).isStop := by
    have aligned := ((Input.aligned_start (before ++ b :: behind)).append more).kind_head seen
    rw [Nat.zero_add] at aligned
    rw [Nat.add_sub_cancel, first, aligned, hb]
    rfl
  have all (i i' n : Nat) (meets : g.Meets i i') (ahead : (Input.ofTokens (before ++ b :: behind)).Open i n) :
      (Input.ofTokens (before ++ b :: behind')).kind (i' + n) =
          (Input.ofTokens (before ++ b :: behind)).kind (i + n) ∧
        ∀ k, (Input.ofTokens (before ++ b :: behind')).isAt (i' + n) k =
          (Input.ofTokens (before ++ b :: behind)).isAt (i + n) k := by
    rcases meets with ⟨le, rfl⟩ | ⟨le, there⟩
    · have here (i : Nat) (hi : i < g.first + 1) : (Input.ofTokens (before ++ b :: behind')).kind (i + 0) =
          (Input.ofTokens (before ++ b :: behind)).kind i := kinds i (by omega)
      exact same_of_window here (fun i hi => joints i (by omega)) stop (Nat.lt_succ_of_le le) ahead
    · obtain ⟨m, rfl⟩ := Nat.exists_eq_add_of_le le
      obtain rfl : i' = g.newLast + m := by omega
      simpa only [Nat.add_assoc] using old.isAt_eq new same (m + n)
  exact ⟨fun i i' n meets ahead => (all i i' n meets ahead).1,
    fun i i' n k meets ahead => (all i i' n meets ahead).2 k⟩

/-- An input shows what it shows. -/
theorem mirrors_self (input : Input) : Mirrors input input 0 fun _ => True :=
  ⟨fun _ _ _ _ => rfl, fun _ _ _ _ _ => rfl, fun _ _ => Nat.le_refl _, fun _ _ _ h => h⟩

/-- A list that takes the whole of an input is read in another input that shows the same at its place, so
deep that it stays off the limit. -/
theorem reads_of_outline {input input' : Input} {total : Nat} (first : input.kind 0 = .leftBrace)
    (outlined : outline (list g.fragment) input = ⟨widthOf g.scion, [.node g.fragment.kind g.scion]⟩)
    (closed : g.scion.head? = some (brace .rightBrace)) (all : widthOf g.scion = input.length)
    (kind : ∀ i < input.length, input'.kind (i + g.first) = input.kind i)
    (joint : ∀ i, i + 1 < input.length → input'.isJoint (i + g.first) = input.isJoint i)
    (stop : input.kind (input.length - 1) = .rightBrace) (room : input.length + g.first ≤ input'.length)
    (low : total + heightOf [.node g.fragment.kind g.scion] < nestingLimit) : g.Reads input' total := by
  intro levels depth s safe pos few
  -- The number of levels does not matter where it is enough.
  have never_cut : ∀ n : Nat, True → (nestingLimit ≤ n ↔ nestingLimit ≤ n + 0) := fun _ _ => Iff.rfl
  obtain ⟨more, enough, within⟩ : ∃ more, 2 * input.length + 1 ≤ more ∧ levels ≤ more + 1 :=
    ⟨max levels (2 * input.length + 1), by omega, by omega⟩
  have echo := (echoes_drafters (mirrors_self input') never_cut within).list g.fragment depth s [] safe trivial
  rw [Frame.moved_zero_nil, Frame.moved_zero_nil, Nat.add_zero] at echo
  rw [← echo]
  -- In the list there are no nesting steps so deep that they would come to the limit here.
  have cut : ∀ n, n < nestingLimit - depth → (nestingLimit ≤ n ↔ nestingLimit ≤ n + depth) := by omega
  have mirrors : Mirrors input input' g.first (· < input.length) :=
    .of_window kind joint (by rw [stop]; rfl) (Nat.le_refl _) room
  obtain ⟨body, parts, -⟩ := Spares.within_fragment g.fragment
  have between := safe_within parts first (Nat.sub_le nestingLimit depth) (by
    rw [outlined]
    change heightOf [.node g.fragment.kind g.scion] < _
    omega)
  have ran := outlined.symm.trans (outline_within parts first)
  have moved := draft_moved mirrors cut (forward_drafters input (2 * input.length + 1))
    (echoes_drafters mirrors cut enough) body (s := ⟨1, [brace .leftBrace]⟩) [] between
  generalize (body.draft input (drafters input (2 * input.length + 1)) 0 ⟨1, [brace .leftBrace]⟩) = t
    at ran moved
  -- The last thing that the list takes is its closing brace.
  obtain ⟨at_ket, whole⟩ : input.isAt t.2.pos .rightBrace = true ∧
      t.2.take .rightBrace 1 = ⟨input.length, g.scion⟩ := by
    simp only [Frame.close, Frame.mk.injEq, List.cons.injEq, Outline.node.injEq, true_and, and_true] at ran
    split at ran
    · next at_ket => exact ⟨at_ket, by rw [← all, ran.1, ran.2]⟩
    · rw [ran.2] at closed
      cases closed
  simp only [Frame.take, Frame.mk.injEq] at whole
  have at_ket' : input'.isAt (t.2.pos + g.first) .rightBrace = true :=
    Input.isAt_of_kind ((kind _ (by omega)).trans (Input.head_of_isAt at_ket)) rfl
  have at_bra : input'.isAt s.pos .leftBrace = true :=
    Input.isAt_of_kind (by rw [pos, ← Nat.zero_add g.first, kind 0 (by omega), first]) rfl
  have start : (⟨s.pos + 1, [brace .leftBrace]⟩ : Frame) =
      (⟨1, [brace .leftBrace]⟩ : Frame).moved g.first [] := by
    rw [Frame.moved, pos, Nat.add_comm]
    rfl
  have here := moved (by omega)
  rw [Nat.zero_add] at here
  change s.close (g.fragment.body.draft input' (drafters input' more) depth s.opened).2 g.fragment.kind = _
  rw [parts, draft_within rfl body _ depth at_bra, start, here]
  simp only [Frame.moved_pos, at_ket', if_true]
  rw [newLast, all, ← whole.1]
  simp only [Frame.close, Frame.take, Frame.moved, List.append_nil, Frame.mk.injEq, List.cons.injEq,
    Outline.node.injEq, true_and, and_true]
  have single : Kind.rightBrace.pieces.length = 1 := rfl
  exact ⟨by omega, whole.2⟩

end Graft

/-! ## The new list by itself -/

namespace Fragment

theorem getLast?_of_closesLast {depth : Nat} {ks : List Kind} (h : closesLast depth ks = true) :
    ks.getLast? = some .rightBrace := by
  have cons {k : Kind} {ks : List Kind} (h : ks.getLast? = some .rightBrace) :
      (k :: ks).getLast? = some .rightBrace := by
    rw [List.getLast?_cons, h]
    rfl
  fun_induction closesLast depth ks with
  | case1 => contradiction
  | case2 depth ks ih => exact cons (ih h)
  | case3 => contradiction
  | case4 ks =>
    rw [List.isEmpty_iff.mp h]
    rfl
  | case5 depth ks ih => exact cons (ih h)
  | case6 depth k ks opens zero one more ih => exact cons (ih h)

/-- A braced text ends with a closing brace. -/
theorem list_of_isBraced_last {t : Text}
    (h : isBraced (((Token.list t).map (·.kind)).filter (· != .eof)) = true) :
    ∃ ts ket stop, Token.list t = ts ++ [ket, stop] ∧ ket.kind = .rightBrace ∧ stop.kind = .eof ∧
      ∀ x ∈ ts, x.kind ≠ .eof := by
  obtain ⟨ts, row, inRow, -⟩ := Token.listFrom_inRow 0 t
  change Token.list t = _ at row
  have no_end : ∀ x ∈ ts, x.kind ≠ .eof := fun x hx => (Input.spelled_of_inRow inRow x hx).no_end
  have kinds : ((Token.list t).map (·.kind)).filter (· != .eof) = ts.map (·.kind) := by
    rw [row, List.map_append, List.filter_append, List.filter_eq_self.mpr fun k hk => by
      obtain ⟨x, hx, rfl⟩ := List.mem_map.mp hk
      simpa using no_end x hx]
    exact List.append_nil _
  have last : (ts.map (·.kind)).getLast? = some .rightBrace := by
    rw [← kinds]
    unfold isBraced at h
    split at h
    · next rest heq =>
      rw [heq, List.getLast?_cons, getLast?_of_closesLast h]
      rfl
    · contradiction
  rw [List.getLast?_map] at last
  obtain ⟨ket, at_end, closes⟩ := Option.map_eq_some_iff.mp last
  obtain ⟨front, rfl⟩ := List.getLast?_eq_some_iff.mp at_end
  exact ⟨front, ket, _, by rw [row, List.append_assoc]; rfl, closes, rfl,
    fun x hx => no_end x (List.mem_append_left _ hx)⟩

end Fragment

namespace Outline

/-- A list takes its closing brace behind some trivia, whatever comes behind that. -/
theorem grow_brace (stop : Nat) {left : List Token} (trivia : ∀ t ∈ left, t.isTrivia = true) {ket : Token}
    (seen : ket.isTrivia = false) (behind : List Token) : grow stop (brace .rightBrace) (left ++ ket :: behind) =
      ⟨left.map Token.leaf ++ [.token .rightBrace ket.text], Sprout.faults left ++ ket.diagnostic?.toList,
        behind⟩ := by
  have ahead : (left ++ ket :: behind).takeWhile (·.isTrivia) = left := by
    rw [List.takeWhile_append_of_pos trivia, List.takeWhile_cons_of_neg (by simp [seen]), List.append_nil]
  have rest : (left ++ ket :: behind).dropWhile (·.isTrivia) = ket :: behind := by
    rw [List.dropWhile_append_of_pos trivia, List.dropWhile_cons_of_neg (by simp [seen])]
  simp only [grow, brace, Sprout.trivia, Sprout.ofTokens, ahead, rest, Sprout.andThen, Sprout.taken]
  simp [Sprout.faults]

/-- What grows from a list that ends with a brace does not depend on what comes behind that brace. -/
theorem growOf_closed (stop stop' : Nat) {older : List Outline} {ts left : List Token} {ket : Token}
    (trivia : ∀ t ∈ left, t.isTrivia = true) (seen : ket.isTrivia = false) {behind : List Token}
    (rest : (growOf stop older (ts ++ ket :: behind)).rest = left ++ ket :: behind) (behind' : List Token) :
    growOf stop' (brace .rightBrace :: older) (ts ++ ket :: behind') =
      ⟨(growOf stop (brace .rightBrace :: older) (ts ++ ket :: behind)).greens,
        (growOf stop (brace .rightBrace :: older) (ts ++ ket :: behind)).reports, behind'⟩ := by
  obtain ⟨before, split, same⟩ := steady_growOf seen stop stop' older _ _ _ rest
  obtain rfl := List.append_cancel_right split
  rw [growOf, growOf, Sprout.andThen, Sprout.andThen, same, rest, grow_brace stop' trivia seen,
    grow_brace stop trivia seen]

end Outline

namespace Fragment.Outlined

variable {f : Fragment} {t : Text} {p : Parse} {middle : List Outline}

/-- What is left for the closing brace of a list that is a text of its own. -/
theorem tokens (h : f.Outlined t p middle) : ∃ ts ket stop left, Token.list t = ts ++ [ket, stop] ∧
    ket.kind = .rightBrace ∧ stop.kind = .eof ∧ (∀ x ∈ ts, x.kind ≠ .eof) ∧
      (∀ x ∈ left, x.isTrivia = true) ∧
      (growOf (Replay.textEnd (Token.list t)) (middle ++ [brace .leftBrace]) (Token.list t)).rest =
        left ++ [ket, stop] := by
  obtain ⟨ts, ket, stop, split, closes, ends, more⟩ := list_of_isBraced_last h.braced
  obtain ⟨used, shows, aligned⟩ := shows_growOf (Replay.textEnd (Token.list t)) _ (lexed_list t)
    (Input.aligned_start _) h.fits.1
  generalize (growOf (Replay.textEnd (Token.list t)) (middle ++ [brace .leftBrace]) (Token.list t)) = grown
    at shows aligned
  obtain ⟨taken, rest, parts, kinds, behind, -⟩ :=
    aligned.dropTrivia.glued (takeWhile_dropWhile grown.rest) (by decide) h.fits.2.1
  obtain ⟨last, rfl, kind⟩ := List.map_eq_singleton_iff.mp kinds
  refine ⟨ts, ket, stop, grown.rest.takeWhile (·.isTrivia), split, closes, ends, more,
    fun x hx => List.mem_takeWhile_imp hx, ?_⟩
  have apart := List.takeWhile_append_dropWhile (p := (·.isTrivia)) (l := grown.rest)
  rw [parts] at apart
  have all := split.symm.trans shows.split
  rw [← apart, ← List.append_assoc] at all
  have here : last :: rest = [ket, stop] := by
    rcases List.append_eq_append_iff.mp all with ⟨ahead, -, later⟩ | ⟨between, rfl, later⟩
    · rcases ahead with _ | ⟨first, _ | ⟨second, ahead⟩⟩
      · exact later.symm
      · obtain ⟨-, rfl, -⟩ : ket = first ∧ stop = last ∧ rest = [] := by simpa using later
        rw [kind] at ends
        cases ends
      · simp at later
    · cases between with
      | nil => exact later
      | cons first between =>
        -- Nothing that is seen is left behind the list.
        obtain ⟨rfl, rfl⟩ := List.cons.inj later
        have seen : ket.isTrivia = false := Token.seen_of_kind closes rfl
        have no_end : ∀ x ∈ between, x.kind ≠ .eof := fun x hx => more x (by simp [hx])
        have at_ket := (behind.append no_end).kind_head seen
        rw [closes, Input.kind_eq_eof_of_le] at at_ket
        · cases at_ket
        · have all := h.all
          simp only [widthOf, brace, width] at all ⊢
          simp only [Kind.pieces, List.length_singleton]
          omega
  rw [← here]
  exact apart.symm

/-- In a larger text the same grows from the list, whatever comes behind it. -/
theorem planted (h : f.Outlined t p middle) : ∃ ts ket stop, Token.list t = ts ++ [ket, stop] ∧
    ket.kind = .rightBrace ∧ stop.kind = .eof ∧ (∀ x ∈ ts, x.kind ≠ .eof) ∧ ∀ n stop' behind,
      growOf stop' (inBraces middle) ((ts ++ [ket]).map (Token.moved n) ++ behind) =
        ⟨(whole (inBraces middle) (Token.list t)).greens,
          (whole (inBraces middle) (Token.list t)).reports.map (Diagnostic.moved n), behind⟩ := by
  obtain ⟨ts, ket, stop, left, split, closes, ends, more, trivia, rest⟩ := h.tokens
  refine ⟨ts, ket, stop, split, closes, ends, more, fun n stop' behind => ?_⟩
  have seen : ket.isTrivia = false := Token.seen_of_kind closes rfl
  have no_trivia : Sprout.trivia [stop] = ⟨[], [], [stop]⟩ := by
    simp [Sprout.trivia, Sprout.ofTokens, Token.isTrivia, ends, Kind.isTrivia]
  have alone : (growOf (Replay.textEnd (Token.list t)) (inBraces middle) (Token.list t)).rest = [stop] := by
    rw [growOf, Sprout.andThen, rest, grow_brace _ trivia seen]
  have tokens : (Token.list t).map (Token.moved n) =
      ts.map (Token.moved n) ++ ket.moved n :: [stop.moved n] := by
    rw [split, List.map_append]
    rfl
  have same (row : List Outline) := growOf_moved n (Replay.textEnd (Token.list t)) row (Token.list t)
  simp only [tokens] at same
  have trivia' : ∀ x ∈ left.map (Token.moved n), x.isTrivia = true := fun x hx => by
    obtain ⟨y, hy, rfl⟩ := List.mem_map.mp hx
    exact trivia y hy
  have rest' : (growOf (Replay.textEnd (Token.list t) + n) (middle ++ [brace .leftBrace])
      (ts.map (Token.moved n) ++ ket.moved n :: [stop.moved n])).rest =
        left.map (Token.moved n) ++ ket.moved n :: [stop.moved n] := by
    rw [same, Sprout.moved, rest, List.map_append]
    rfl
  have seen' : (ket.moved n).isTrivia = false := seen
  have closed := growOf_closed (Replay.textEnd (Token.list t) + n) stop' trivia' seen' rest' behind
  rw [List.map_append, List.append_assoc, whole, Sprout.andThen, alone, no_trivia]
  change growOf stop' _ (ts.map (Token.moved n) ++ ket.moved n :: behind) = _
  rw [closed, same]
  simp [Sprout.moved]

end Fragment.Outlined

/-! ## Both texts -/

namespace Token

theorem significant_append (ts us : List Token) : significant (ts ++ us) = significant ts + significant us :=
  List.countP_append

theorem significant_moved (n : Nat) (ts : List Token) : significant (ts.map (moved n)) = significant ts :=
  List.countP_map ..

end Token

namespace Outline.Bed

/-- Two texts that differ in one list, by their tokens: `before` stand in front of it, and behind it those
of the text `back`; the new list is the text `v`. -/
structure Swap (b : Bed) (g : Graft) (t u v back : Text) (before ts : List Token) (ket stop : Token) :
    Prop where
  sound : b.Sound (.ofTokens (list t))
  old : list t = before ++ b.tokens
  more : ∀ x ∈ before, x.kind ≠ .eof
  rest : ∃ stop n, (b.grown stop).rest = listFrom n back
  listed : list v = ts ++ [ket, stop]
  closes : ket.kind = .rightBrace
  ends : stop.kind = .eof
  no_end : ∀ x ∈ ts, x.kind ≠ .eof
  new : list u = before ++ ((ts ++ [ket]).map (moved b.brace.offset) ++
    listFrom (b.brace.offset + v.size) back)
  head : ∃ behind, (ts ++ [ket]).map (moved b.brace.offset) ++ listFrom (b.brace.offset + v.size) back =
    b.brace :: behind
  first : g.first = b.first
  last : g.last = b.first + widthOf b.row
  width : widthOf g.scion = (Input.ofTokens (list v)).length

namespace Swap

variable {b : Bed} {g : Graft} {t u v back : Text} {before ts : List Token} {ket stop : Token}
  (h : b.Swap g t u v back before ts ket stop)

include h

theorem seen : ket.isTrivia = false := Token.seen_of_kind h.closes rfl

/-- The new list takes all that is seen of its text. -/
theorem width_eq : widthOf g.scion = Token.significant ts + 1 := by
  have length := Input.length_ofTokens_list v
  have stops : stop.isTrivia = false := Token.seen_of_kind h.ends rfl
  rw [h.listed, List.countP_append, ← h.listed, ← h.width] at length
  simp only [List.countP_cons, h.seen, stops, List.countP_nil, Bool.not_false, if_true] at length
  simp only [Token.significant]
  omega

/-- The place of the list is the number of tokens in front of it that are seen. -/
theorem first_eq : g.first = Token.significant before := by
  have here := Input.aligned_start (list t)
  rw [h.old] at here
  have there := here.append h.more
  rw [← h.old, Nat.zero_add] at there
  have ends (i : Nat) : (Input.ofTokens (list t)).kind i = .eof ↔ (Input.ofTokens (list t)).length ≤ i :=
    ⟨(Input.kind_ofTokens_list t i).2, Input.kind_eq_eof_of_le⟩
  rw [h.first]
  refine Input.Aligned.unique ends h.sound.aligned there ?_
  rw [h.sound.aligned.kind_head h.sound.seen, h.sound.opens]
  decide

theorem no_end_new : ∀ x ∈ (ts ++ [ket]).map (moved b.brace.offset), x.kind ≠ .eof := by
  intro x hx
  obtain ⟨y, hy, rfl⟩ := List.mem_map.mp hx
  rcases List.mem_append.mp hy with hy | hy
  · exact h.no_end y hy
  · rw [List.mem_singleton.mp hy]
    change ket.kind ≠ .eof
    rw [h.closes]
    decide

/-- At the place of the list stands the new one in the new text. -/
theorem aligned_new : (Input.ofTokens (list u)).Aligned ((ts ++ [ket]).map (moved b.brace.offset) ++
    listFrom (b.brace.offset + v.size) back) g.first := by
  have here := Input.aligned_start (list u)
  rw [h.new] at here
  have there := here.append h.more
  rwa [← h.new, Nat.zero_add, ← h.first_eq] at there

theorem significant_new : Token.significant ((ts ++ [ket]).map (moved b.brace.offset)) = widthOf g.scion := by
  rw [significant_moved, significant_append, h.width_eq]
  simp [Token.significant, h.seen]

/-- The two texts show the same outside of the list. -/
theorem sees : g.Sees (.ofTokens (list t)) (.ofTokens (list u)) := by
  obtain ⟨behind, head⟩ := h.head
  obtain ⟨stop₀, n, rest⟩ := h.rest
  obtain ⟨used, -, old⟩ := shows_growOf stop₀ b.row h.sound.lexed h.sound.aligned h.sound.fits
  have new := h.aligned_new.append h.no_end_new
  rw [h.significant_new] at new
  change (Input.ofTokens (list t)).Aligned (b.grown stop₀).rest _ at old
  rw [rest, ← h.last] at old
  have split := h.new
  rw [head] at split
  rw [h.old] at old
  rw [split] at new
  rw [h.old, split]
  refine Graft.sees_of_aligned h.sound.opens h.more h.first_eq old new ?_
  rw [listFrom_eq_map, listFrom_eq_map, Input.ofTokens_map_moved, Input.ofTokens_map_moved]

/-- The new text shows the new list in its place, and more behind it. -/
theorem window : (∀ i < (Input.ofTokens (list v)).length,
      (Input.ofTokens (list u)).kind (i + g.first) = (Input.ofTokens (list v)).kind i) ∧
    (∀ i, i + 1 < (Input.ofTokens (list v)).length →
      (Input.ofTokens (list u)).isJoint (i + g.first) = (Input.ofTokens (list v)).isJoint i) ∧
    (Input.ofTokens (list v)).kind ((Input.ofTokens (list v)).length - 1) = .rightBrace ∧
    (Input.ofTokens (list v)).length + g.first ≤ (Input.ofTokens (list u)).length := by
  have more : ∀ x ∈ ts.map (moved b.brace.offset), x.kind ≠ .eof := fun x hx =>
    h.no_end_new x (by rw [List.map_append]; exact List.mem_append_left _ hx)
  have closes : (ket.moved b.brace.offset).kind ≠ .eof := by
    change ket.kind ≠ .eof
    rw [h.closes]
    decide
  obtain ⟨kinds, joints⟩ := Input.ofTokens_front (b := ket.moved b.brace.offset) more h.seen closes
    (listFrom (b.brace.offset + v.size) back) [stop.moved b.brace.offset]
  have alone : ts.map (moved b.brace.offset) ++ ket.moved b.brace.offset :: [stop.moved b.brace.offset] =
      (list v).map (moved b.brace.offset) := by
    rw [h.listed, List.map_append]
    rfl
  rw [alone, Input.ofTokens_map_moved, significant_moved] at kinds joints
  have length : (Input.ofTokens (list v)).length = Token.significant ts + 1 := by rw [← h.width, h.width_eq]
  have aligned := h.aligned_new
  rw [List.map_append, List.append_assoc] at aligned
  refine ⟨fun i hi => ?_, fun i hi => ?_, ?_, ?_⟩
  · rw [Nat.add_comm, ← aligned.kind]
    exact kinds i (by omega)
  · rw [Nat.add_comm, ← aligned.joint]
    exact joints i (by omega)
  · have here := Input.aligned_start (list v)
    rw [h.listed] at here
    have last := (here.append h.no_end).kind_head h.seen
    rw [← h.listed, Nat.zero_add, h.closes] at last
    rw [length, Nat.add_sub_cancel, last]
  · have whole : _ + 1 = Token.significant (list u) := Input.length_ofTokens_list u
    have behind : _ + 1 = Token.significant (list back) := Input.length_ofTokens_list back
    have count : Token.significant (list u) =
        Token.significant before + (widthOf g.scion + Token.significant (list back)) := by
      rw [h.new, significant_append, significant_append, h.significant_new, listFrom_eq_map, significant_moved]
    have first := h.first_eq
    have width := h.width
    omega

/-- In the new text the new list is read where it stands. -/
theorem reads {p : Parse} {middle : List Outline} (made : g.fragment.Outlined v p middle)
    (scion : g.scion = inBraces middle) {total : Nat}
    (low : total + p.tree.depth < nestingLimit) : g.Reads (.ofTokens (list u)) total := by
  obtain ⟨kind, joint, stop, room⟩ := h.window
  have outlined := made.outlined
  rw [← scion] at outlined
  refine Graft.reads_of_outline (Fragment.kind_zero_of_isBraced made.braced) outlined (by rw [scion]; rfl)
    h.width kind joint stop room ?_
  have grown := heightOf_le_depthOf (Replay.textEnd (list v)) g.scion (list v)
  rw [made.made, ← scion] at low
  simp only [Green.branch, Green.depth, whole, Sprout.andThen, depthOf_append] at low
  simp only [heightOf, height]
  omega

end Swap

end Outline.Bed

end Verbatim
