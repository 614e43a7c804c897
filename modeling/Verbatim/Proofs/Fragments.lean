import Verbatim.Proofs.Anchors
import Verbatim.Proofs.Braces
import Verbatim.Proofs.Shallow
import Verbatim.Proofs.Total

/-!
# Lists parsed by themselves

A list in paired braces that takes the whole text ends with its closing brace, provided that nothing in
it is skipped for being too deep. Everything that is reported in it is then reported between its braces,
so that the same list can stand in a larger text.
-/
namespace Verbatim

namespace Input

/-- How many more braces some tokens open than they close. -/
def surplus : List Kind → Int
  | [] => 0
  | k :: ks => weight k + surplus ks

theorem surplus_append (ks ls : List Kind) : surplus (ks ++ ls) = surplus ks + surplus ls := by
  induction ks with
  | nil => simp [surplus]
  | cons k ks ih => rw [List.cons_append, surplus, surplus, ih, Int.add_assoc]

theorem balance_eq_surplus (input : Input) {i : Nat} (h : i ≤ input.length) :
    input.balance i = surplus (input.kinds.toList.take i) := by
  induction i with
  | zero => rfl
  | succ i ih =>
    have lt : i < input.kinds.toList.length := h
    have here : input.kind i = input.kinds.toList[i] := by
      rw [kind_eq_getElem?, List.getElem?_eq_getElem lt, Option.getD_some]
    rw [balance_succ, ih (Nat.le_of_succ_le h), List.take_succ_eq_append_getElem lt, surplus_append, here]
    simp [surplus]

theorem surplus_significant (ts : List Token) :
    surplus ((significant ts).map (·.1)) = surplus (ts.map (·.kind)) := by
  induction ts with
  | nil => rfl
  | cons t ts ih =>
    rw [significant, List.map_cons, surplus, ← ih]
    split
    · next trivia =>
      have none : weight t.kind = 0 := by
        rw [Token.isTrivia] at trivia
        generalize t.kind = k at trivia
        revert trivia
        cases k <;> decide
      rw [none, Int.zero_add]
    · rw [List.map_cons, surplus]

end Input

namespace Fragment

/-- A rest that closes all braces around it closes as many as are open. -/
theorem surplus_of_closesLast {depth : Nat} {ks : List Kind} (h : closesLast depth ks = true) :
    Input.surplus ks = -(depth : Int) := by
  fun_induction closesLast depth ks with
  | case1 => contradiction
  | case2 depth ks ih =>
    have rest := ih h
    simp only [Input.surplus, Input.weight] at rest ⊢
    omega
  | case3 => contradiction
  | case4 ks =>
    rw [List.isEmpty_iff.mp h]
    rfl
  | case5 depth ks ih =>
    have rest := ih h
    simp only [Input.surplus, Input.weight] at rest ⊢
    omega
  | case6 depth k ks opens zero one more ih =>
    have rest := ih h
    have none : Input.weight k = 0 := by
      cases k with
      | leftBrace => exact absurd rfl (opens ·)
      | rightBrace =>
        rcases depth with _ | _ | depth
        · exact absurd rfl (zero rfl)
        · exact absurd rfl (one rfl)
        · exact absurd rfl (more depth rfl)
      | _ => rfl
    rw [Input.surplus, none, rest, Int.zero_add]

/-- In a braced text the braces are paired. -/
theorem balance_of_isBraced {t : Text}
    (h : isBraced (((Token.list t).map (·.kind)).filter (· != .eof)) = true) :
    (Input.ofTokens (Token.list t)).balance (Input.ofTokens (Token.list t)).length = 0 := by
  obtain ⟨ts, row, inRow, -, front⟩ := Input.takeWhile_listFrom 0 t
  have no_end : ∀ k ∈ ts.map (·.kind), (k != .eof) = true := by
    intro k hk
    obtain ⟨t', ht, rfl⟩ := List.mem_map.mp hk
    simpa using (Input.spelled_of_inRow inRow t' ht).no_end
  have kinds : ((Token.list t).map (·.kind)).filter (· != .eof) = ts.map (·.kind) := by
    rw [show Token.list t = _ from row, List.map_append, List.filter_append,
      List.filter_eq_self.mpr no_end]
    exact List.append_nil _
  have seen : (Input.ofTokens (Token.list t)).kinds.toList = (Input.significant ts).map (·.1) := by
    rw [Input.kinds_ofTokens, ← front]
    rfl
  have whole : (Input.significant ts).map (·.1) =
      ((Input.significant ts).map (·.1)).take (Input.ofTokens (Token.list t)).length := by
    rw [← seen, Input.length, ← Array.length_toList, List.take_length]
  rw [Input.balance_eq_surplus _ (Nat.le_refl _), seen, ← whole, Input.surplus_significant]
  rw [kinds] at h
  unfold isBraced at h
  split at h
  · next rest heq =>
    rw [heq, Input.surplus, surplus_of_closesLast h]
    rfl
  · contradiction

end Fragment

namespace Parser

open Outline

/-- What a list that takes its brace makes of an input. -/
theorem outline_within {f : Fragment} {body : Parser Unit}
    (parts : f.body = (do bump .leftBrace; body; discard (expect .rightBrace))) {input : Input}
    (first : input.kind 0 = .leftBrace) : outline (list f) input =
      let t := (body.draft input (drafters input (2 * input.length + 1)) 0 ⟨1, [brace .leftBrace]⟩).2
      Frame.close ⟨0, []⟩ (if input.isAt t.pos .rightBrace then t.take .rightBrace 1
        else t.write (.error (.missing .rightBrace))) f.kind := by
  change Frame.close ⟨0, []⟩ (f.body.draft _ _ _ (Frame.opened ⟨0, []⟩)).2 _ = _
  rw [parts, draft_within rfl body _ 0 (s := ⟨0, []⟩) (Input.isAt_of_kind first rfl)]
  rfl

/-- Behind the brace a list runs safely, off a limit that is above all that it has made. -/
theorem safe_within {f : Fragment} {body : Parser Unit}
    (parts : f.body = (do bump .leftBrace; body; discard (expect .rightBrace))) {input : Input}
    (first : input.kind 0 = .leftBrace) {limit : Nat} (le : limit ≤ nestingLimit)
    (low : heightOf (outline (list f) input).row < limit) :
    body.Safe input (· < limit) (drafters input (2 * input.length + 1))
      (guards input (· < limit) (2 * input.length + 1)) True 0 ⟨1, [brace .leftBrace]⟩ := by
  have safe : (guards input (· < limit) (2 * input.length + 2)).list f 0 ⟨0, []⟩ :=
    (lowering_drafters le input (2 * input.length + 2)).list f False 0 ⟨0, []⟩ 0 (runs_list f first).safe
      ⟨Nat.le_refl _, False.elim⟩ (by rw [Nat.zero_add]; exact low)
  have body_safe := safe.2
  rw [parts] at body_safe
  have between := body_safe.2.1
  rwa [draft_bump (k := .leftBrace) rfl _ 0 (s := ⟨0, []⟩) (Input.isAt_of_kind first rfl)] at between

/-- What stands between the braces of a list closes none of them, if nothing is skipped in it. So where
the list takes all of an input whose braces are paired, the last thing that it takes is its brace. -/
theorem outline_list {f : Fragment} {input : Input} (first : input.kind 0 = .leftBrace)
    (flat : heightOf (outline (list f) input).row < nestingLimit)
    (all : input.length ≤ (outline (list f) input).pos) (paired : input.balance input.length = 0) :
    ∃ middle, (outline (list f) input).row = [.node f.kind (inBraces middle)] := by
  let inside : Site := ⟨input, True, 2, True⟩
  obtain ⟨body, parts, fine⟩ := inside.encloses_fragment f trivial
  have between := safe_within parts first (Nat.le_refl _) flat
  obtain ⟨-, t, ⟨steady, -⟩, stands⟩ :=
    sound body (keeps_drafters inside (2 * input.length + 1) (by simp only [inside]; omega))
      (fine ⟨1, false⟩ (by simp [inside]) (by simp [inside]))
      (show Stands input ⟨1, false⟩ ⟨1, [brace .leftBrace]⟩ from
        ⟨rfl, fun h => absurd h Bool.false_ne_true, Input.lt_length_of_kind_ne (by simp [first])⟩)
      fun _ => between
  have grown := grown_draft input (growing_drafters input (2 * input.length + 1)) body 0
    ⟨1, [brace .leftBrace]⟩
  generalize hu : (body.draft input (drafters input (2 * input.length + 1)) 0
    ⟨1, [brace .leftBrace]⟩).2 = u at stands grown
  obtain ⟨middle, row⟩ := grown.suffix rfl
  have outlined := outline_within parts first
  simp only [hu] at outlined
  split at outlined
  · rw [outlined, Frame.close, Frame.take, ← row]
    exact ⟨middle, rfl⟩
  · -- The closing brace is missing, so all is taken while the first brace is still open.
    have pos : (outline (list f) input).pos = u.pos := by rw [outlined]; rfl
    have still : input.balance 1 ≤ input.balance t.pos := steady.keeps trivial t.pos steady.le (Nat.le_refl _)
    have at_end : t.pos = input.length := by
      have here : u.pos = t.pos := stands.pos
      have le : u.pos ≤ input.length := stands.le
      omega
    rw [at_end, paired, Input.balance_succ, first] at still
    exact absurd still (show ¬ (0 + 1 : Int) ≤ 0 by decide)

end Parser

namespace Outline

/-! ## Heights -/

theorem depthOf_append (gs hs : List Green) :
    Green.depthOf (gs ++ hs) = max (Green.depthOf gs) (Green.depthOf hs) := by
  induction gs with
  | nil => simp [Green.depthOf]
  | cons g gs ih => simp [Green.depthOf, ih, Nat.max_assoc]

mutual
/-- A tree is at least as deep as the outline that it grows from. -/
theorem height_le_depthOf (stop : Nat) : ∀ (o : Outline) (ts : List Token),
    o.height ≤ Green.depthOf (o.grow stop ts).greens
  | .token _ _, _ | .error _, _ | .fault _, _ | .void, _ => Nat.zero_le _
  | .node k row, ts => by
    have inner := heightOf_le_depthOf stop row (Sprout.trivia (Sprout.outer k ts).rest).rest
    simp only [grow, height, Sprout.andThen, Sprout.under, depthOf_append, Green.depthOf,
      Green.branch, Green.depth]
    omega
  | .around k inner row, ts => by
    have first := height_le_depthOf stop inner (Sprout.trivia (Sprout.outer k ts).rest).rest
    have later := heightOf_le_depthOf stop row
      (inner.grow stop (Sprout.trivia (Sprout.outer k ts).rest).rest).rest
    simp only [grow, height, Sprout.andThen, Sprout.under, depthOf_append, Green.depthOf,
      Green.branch, Green.depth]
    omega

theorem heightOf_le_depthOf (stop : Nat) : ∀ (row : List Outline) (ts : List Token),
    heightOf row ≤ Green.depthOf (growOf stop row ts).greens
  | [], _ => Nat.zero_le _
  | o :: older, ts => by
    have before := heightOf_le_depthOf stop older ts
    have last := height_le_depthOf stop o (growOf stop older ts).rest
    simp only [growOf, heightOf, Sprout.andThen, depthOf_append]
    omega
end

end Outline

open Green Token Outline

namespace Fragment

/-- A parse of a text as one list, as it can stand in a tree: what is reported lies behind the brace
that the list starts with. -/
structure Embeds (f : Fragment) (t : Text) (p : Parse) : Prop where
  kind : p.tree.kind = f.kind
  isNode : p.tree.isNode = true
  formed : p.tree.Formed
  text : p.text = t
  inside : ∀ d ∈ p.diagnostics, AtLeaf 0 p.tree.leaves d.span ∧ 0 < d.span.start
  distinct : Diagnostic.Distinct p.diagnostics

/-- What grows from a list that ends with its brace has a leaf behind its first for each report. -/
theorem settled_growOf {stop base : Nat} {first : Token} {ts : List Token} (follow : Follow base (first :: ts))
    (opens : first.kind = .leftBrace) (faultless : first.fault = none) {middle : List Outline}
    (more : ∃ x ∈ (growOf stop middle ts).rest, x.isTrivia = false) :
    ∃ inner : Sprout, inner.Anchored stop (base + first.text.size) ts ∧ inner.Settled (base + first.text.size) ∧
      growOf stop (inBraces middle) (first :: ts) =
        ⟨.token .leftBrace first.text :: inner.greens, inner.reports, inner.rest⟩ := by
  have seen : first.isTrivia = false := Token.seen_of_kind opens rfl
  have anchored := anchored_growOf stop middle follow.2
  refine ⟨(growOf stop middle ts).andThen (grow stop (brace .rightBrace)),
    anchored.andThen (anchored_grow stop (brace .rightBrace) anchored.rest),
    anchored.settled_token .rightBrace more, ?_⟩
  have opening : grow stop (brace .leftBrace) (first :: ts) = ⟨[.token .leftBrace first.text], [], ts⟩ := by
    simp [grow, brace, Sprout.andThen, Sprout.trivia, Sprout.ofTokens, seen, Sprout.taken, Token.diagnostic?,
      faultless]
  simp [growOf, growOf_append, opening, Sprout.andThen]

theorem settled_whole {t : Text} {first : Token} {ts : List Token} (tokens : Token.list t = first :: ts)
    (brace_first : first.kind = .leftBrace) {middle : List Outline}
    (enough : widthOf (inBraces middle) ≤ (Input.ofTokens (Token.list t)).length) :
    ∃ inner : Sprout, inner.Settled first.text.size ∧
      whole (inBraces middle) (Token.list t) =
        ⟨.token .leftBrace first.text :: inner.greens, inner.reports, inner.rest⟩ := by
  have follow := Token.follow_list t
  have length := Input.length_ofTokens_list t
  have faultless : first.fault = none :=
    Token.fault_list t first (by simp [tokens]) (by rw [brace_first]; decide)
  rw [tokens] at follow length
  have seen : first.isTrivia = false := Token.seen_of_kind brace_first rfl
  have more : ∃ x ∈ (growOf (Replay.textEnd (Token.list t)) middle ts).rest,
      x.isTrivia = false := by
    have left := significant_growOf (Replay.textEnd (Token.list t)) middle ts
    rw [tokens] at enough
    simp only [widthOf, widthOf_append, width, brace] at enough
    rw [List.countP_cons_of_pos (by simp [seen])] at length
    have some_left : 0 < Token.significant (growOf (Replay.textEnd (Token.list t)) middle ts).rest := by
      simp only [Token.significant] at left ⊢
      omega
    obtain ⟨x, hx, seen⟩ := List.countP_pos_iff.mp some_left
    exact ⟨x, hx, by simpa using seen⟩
  obtain ⟨inner, anchored, settled, grown⟩ := settled_growOf follow brace_first faultless more
  rw [Nat.zero_add] at anchored settled
  refine ⟨inner.andThen .trivia, settled.andThen (Sprout.Anchored.settled_trivia anchored.rest), ?_⟩
  rw [← tokens] at grown
  rw [whole, grown]
  rfl

/-- A parse of a text as one list, told by what stands between its braces. -/
structure Outlined (f : Fragment) (t : Text) (p : Parse) (middle : List Outline) : Prop where
  braced : isBraced (((Token.list t).map (·.kind)).filter (· != .eof)) = true
  outlined : Parser.outline (Parser.list f) (.ofTokens (Token.list t)) =
    ⟨widthOf (inBraces middle), [.node f.kind (inBraces middle)]⟩
  fits : FitsOf (.ofTokens (Token.list t)) (inBraces middle) 0
  all : widthOf (inBraces middle) = (Input.ofTokens (Token.list t)).length
  made : p = ⟨.branch f.kind (whole (inBraces middle) (Token.list t)).greens,
    ((whole (inBraces middle) (Token.list t)).reports.foldl Diagnostic.keep #[]).toList⟩

/-- What is parsed as one list ends with its brace, provided that nothing in it is too deep. -/
theorem outlined_parse? {f : Fragment} {t : Text} {p : Parse} (h : f.parse? t = .ok (some p))
    (flat : p.tree.depth < nestingLimit) : ∃ middle, f.Outlined t p middle := by
  unfold parse? at h
  dsimp only at h
  split at h
  · cases h
  · next braced =>
    replace braced : isBraced (((Token.list t).map (·.kind)).filter (· != .eof)) = true := by
      simpa using braced
    have first_kind := kind_zero_of_isBraced braced
    have runs := Parser.runs_list f first_kind
    obtain ⟨row, outlined, -, fits, parsed⟩ :=
      Parser.byProgram_of_runs (Parser.makesNode_list f) runs
    rw [parsed] at h
    dsimp only [Bind.bind, Except.bind, Pure.pure, Except.pure] at h
    split at h
    · next took =>
      rw [Bool.and_eq_true, beq_iff_eq] at took
      obtain rfl := Option.some.inj (Except.ok.inj h)
      have ge := (Input.kind_ofTokens_list t _).2 took.1
      have le := runs.le
      have width_eq : widthOf row = (Input.ofTokens (Token.list t)).length := by
        rw [outlined] at le
        exact Nat.le_antisymm le ge
      have low : heightOf (Parser.outline (Parser.list f) (.ofTokens (Token.list t))).row <
          nestingLimit := by
        have grown := heightOf_le_depthOf (Replay.textEnd (Token.list t)) row (Token.list t)
        rw [outlined]
        simp only [Green.branch, Green.depth, whole, Sprout.andThen, depthOf_append] at flat
        simp only [heightOf, height]
        omega
      obtain ⟨middle, parts⟩ := Parser.outline_list first_kind low (by rw [outlined]; exact ge)
        (balance_of_isBraced braced)
      rw [outlined] at parts
      obtain ⟨-, rfl⟩ := Outline.node.inj (List.cons.inj parts).1
      exact ⟨middle, braced, outlined, fits, width_eq, rfl⟩
    · cases h

/-- What is parsed as one list can stand in a tree, provided that nothing in it is too deep. -/
theorem embeds_parse? {f : Fragment} {t : Text} {p : Parse} (h : f.parse? t = .ok (some p))
    (flat : p.tree.depth < nestingLimit) : f.Embeds t p := by
  obtain ⟨middle, braced, outlined, fits, all, rfl⟩ := outlined_parse? h flat
  obtain ⟨first, ts, tokens, brace_first, written⟩ := list_of_isBraced braced
  have seen : first.isTrivia = false := Token.seen_of_kind brace_first rfl
  obtain ⟨formed, text⟩ := (Parser.runs_list f (kind_zero_of_isBraced braced)).formed outlined fits all
    fun _ => by rw [tokens, List.takeWhile_cons_of_neg (by simp [seen])]
  obtain ⟨inner, settled, whole_eq⟩ := settled_whole tokens brace_first (Nat.le_of_eq all)
  obtain ⟨distinct, kept⟩ := Diagnostic.foldl_keep
    (whole (inBraces middle) (Token.list t)).reports #[] List.nodup_nil
  refine ⟨rfl, rfl, formed, text, fun d hd => ?_, distinct⟩
  have reported := (kept d hd).resolve_left List.not_mem_nil
  rw [whole_eq] at reported ⊢
  have at_leaf := settled d reported
  refine ⟨?_, ?_⟩
  · rw [leaves_branch]
    exact .append_left (by simpa [leaves] using at_leaf)
  · have room : 0 < first.text.size := by rw [written]; decide
    exact Nat.lt_of_lt_of_le room at_leaf.bounds.1

end Fragment

end Verbatim
