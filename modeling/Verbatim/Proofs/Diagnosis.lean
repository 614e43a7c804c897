import Verbatim.Proofs.Anchors
import Verbatim.Proofs.Holes

/-!
# What is reported of a text

Whatever the program, each diagnostic covers a token of the text or is empty at its end, no two start at the
same offset, and every malformed token has one. Where nothing is reported, nothing was skipped: no token is
malformed, and the tree has neither a node of skipped tokens nor a token without a kind.
-/
namespace Verbatim

open Token

/-! ## What is reported while a tree grows -/

/-- What is reported while some tokens are used up, in a text that ends at `stop`: each report is at one of
them, or at the next one, or at the end; and of the malformed ones each is reported or still left. -/
structure Sprout.Reported (s : Sprout) (stop : Nat) (ts : List Token) : Prop where
  rest : s.rest ⊆ ts
  anchored : ∀ d ∈ s.reports, d.span = ⟨stop, 0⟩ ∨ ∃ x ∈ ts, d.span = x.span
  malformed : (Sprout.faults ts).Sublist (s.reports ++ Sprout.faults s.rest)

namespace Sprout.Reported

variable {stop : Nat} {ts : List Token}

/-- Only the reports matter and the tokens that are left. -/
theorem congr {a b : Sprout} (h : a.Reported stop ts) (reports : b.reports = a.reports) (rest : b.rest = a.rest) :
    b.Reported stop ts :=
  ⟨rest ▸ h.rest, reports ▸ h.anchored, reports ▸ rest ▸ h.malformed⟩

theorem nil (ts : List Token) : Reported ⟨[], [], ts⟩ stop ts := ⟨List.Subset.refl _, nofun, .refl _⟩

theorem andThen {a : Sprout} {f : List Token → Sprout} (ha : a.Reported stop ts)
    (hf : (f a.rest).Reported stop a.rest) : (a.andThen f).Reported stop ts := by
  refine ⟨List.Subset.trans hf.rest ha.rest, fun d hd => ?_, ?_⟩
  · rcases List.mem_append.mp hd with hd | hd
    · exact ha.anchored d hd
    · exact (hf.anchored d hd).imp_right fun ⟨x, hx, at_x⟩ => ⟨x, ha.rest hx, at_x⟩
  · simp only [Sprout.andThen, List.append_assoc]
    exact ha.malformed.trans (hf.malformed.append_left _)

/-- Tokens that are reported just where they are malformed. -/
theorem of_accounts {a : Sprout} (h : Outline.Accounts a ts) (rest : a.rest ⊆ ts) : a.Reported stop ts := by
  refine ⟨rest, fun d hd => .inr ?_, h ▸ .refl _⟩
  have among : d ∈ Sprout.faults ts := h ▸ List.mem_append_left _ hd
  obtain ⟨x, hx, fault⟩ := List.mem_filterMap.mp among
  exact ⟨x, hx, span_of_diagnostic? fault⟩

theorem trivia (ts : List Token) : (Sprout.trivia ts).Reported stop ts :=
  of_accounts (.trivia ts) (List.dropWhile_suffix _).subset

/-- A node reports what its trivia and its inside report. -/
theorem entered {a inside : Sprout} {k : Kind} (h : a.Entered k ts inside)
    (hi : inside.Reported stop (ts.dropWhile (·.isTrivia))) : a.Reported stop ts :=
  ((trivia ts).andThen (f := fun _ => inside) hi).congr h.reports h.rest

/-- A report between tokens is anchored at the next one that is no trivia. -/
theorem error (cause : Cause) (ts : List Token) : Reported ⟨[], [⟨cause, anchor stop ts⟩], ts⟩ stop ts := by
  refine ⟨List.Subset.refl _, fun d hd => ?_, List.sublist_cons_self ..⟩
  rw [List.mem_singleton.mp hd, anchor]
  cases next : ts.find? (!·.isTrivia) with
  | none => exact .inl rfl
  | some x => exact .inr ⟨x, List.mem_of_find?_eq_some next, rfl⟩

end Sprout.Reported

namespace Outline

variable {input : Input}

mutual
theorem reported_grow (stop : Nat) : ∀ (o : Outline) {ts : List Token} {i : Nat}, Lexed ts → Sane ts →
    input.Aligned ts i → Fits input o i → (o.grow stop ts).Reported stop ts
  | .token k n, ts, i, hl, hs, ha, hf => by
    -- One token of the tree is quiet, so it reports the malformed tokens that it takes.
    obtain ⟨used, shows, -⟩ := shows_grow stop (.token k n) hl ha hf
    refine .of_accounts (accounts_grow stop _ hl hs ha hf trivial) fun x hx => ?_
    rw [shows.split]
    exact List.mem_append_right _ hx
  | .error cause, ts, _, _, _, _, _ => .error cause ts
  | .fault _, ts, _, _, _, _, _ => .nil ts
  | .void, ts, _, _, _, _, _ => .nil ts
  | .node k row, ts, i, hl, hs, ha, hf => by
    have ahead := Sprout.Shows.trivia ts
    rw [grow]
    exact .entered (Sprout.entered k _ ts)
      (reported_growOf stop row (hl.rest ahead) (hs.rest ahead) ha.dropTrivia hf)
  | .around k inner row, ts, i, hl, hs, ha, hf => by
    have ahead := Sprout.Shows.trivia ts
    have first := reported_grow stop inner (hl.rest ahead) (hs.rest ahead) ha.dropTrivia hf.1
    obtain ⟨used, shows, aligned⟩ := shows_grow stop inner (hl.rest ahead) ha.dropTrivia hf.1
    rw [grow]
    exact .entered (Sprout.entered k _ ts) (first.andThen (reported_growOf stop row
      ((hl.rest ahead).rest shows) ((hs.rest ahead).rest shows) aligned hf.2))

/-- Whatever an outline reports besides, it reports the malformed tokens that it takes. -/
theorem reported_growOf (stop : Nat) : ∀ (row : List Outline) {ts : List Token} {i : Nat}, Lexed ts → Sane ts →
    input.Aligned ts i → FitsOf input row i → (growOf stop row ts).Reported stop ts
  | [], ts, _, _, _, _, _ => .nil ts
  | o :: older, ts, i, hl, hs, ha, hf => by
    obtain ⟨used, shows, aligned⟩ := shows_growOf stop older hl ha hf.1
    rw [growOf]
    exact (reported_growOf stop older hl hs ha hf.1).andThen
      (reported_grow stop o (hl.rest shows) (hs.rest shows) aligned hf.2)
end

/-- Over a whole text every malformed token is reported. -/
theorem reported_whole {t : Text} {row : List Outline} (h : Spans t row) :
    (∀ d ∈ (whole row (Token.list t)).reports, d.span = ⟨t.size, 0⟩ ∨ ∃ x ∈ Token.list t, d.span = x.span) ∧
      (Sprout.faults (Token.list t)).Sublist (whole row (Token.list t)).reports := by
  obtain ⟨ts, split, -, -, shows⟩ := shows_whole h.fits h.all
  have reported : (whole row (Token.list t)).Reported t.size (Token.list t) := by
    rw [← Replay.textEnd_list t]
    exact (reported_growOf _ row (lexed_list t) (Token.fault_list t) (Input.aligned_start _) h.fits).andThen
      (.trivia _)
  have rest : (whole row (Token.list t)).rest = [⟨.eof, [], t.size, none⟩] :=
    List.append_cancel_left (shows.split.symm.trans split)
  have malformed := reported.malformed
  rw [rest] at malformed
  exact ⟨reported.anchored, malformed.trans (List.append_nil _ ▸ .refl _)⟩

end Outline

/-! ## What is kept -/

/-- Each diagnostic is kept, or another one that starts at the same offset. -/
theorem Diagnostic.exists_foldl_keep (ds : List Diagnostic) (known : Array Diagnostic) :
    ∀ d ∈ ds, ∃ e ∈ ds.foldl keep known, e.span.start = d.span.start := by
  induction ds generalizing known with
  | nil => nofun
  | cons first ds ih =>
    intro d hd
    rcases List.mem_cons.mp hd with rfl | hd
    · have here : ∃ e ∈ keep known d, e.span.start = d.span.start := by
        rw [keep]
        split
        · next twin =>
          obtain ⟨e, he, same⟩ := Array.any_eq_true'.mp twin
          exact ⟨e, he, beq_iff_eq.mp same⟩
        · exact ⟨d, Array.mem_push_self, rfl⟩
      obtain ⟨e, he, same⟩ := here
      exact ⟨e, known_subset_foldl_keep ds he, same⟩
    · exact ih _ d hd

/-! ## The tree of a text that is parsed without diagnostics -/

/-- The leaves below a position are leaves of the tree. -/
theorem Position.Valid.leaves_subset {q : Position} (valid : q.Valid) :
    q.element.leaves ⊆ q.top.element.leaves := by
  induction q with
  | root tree => exact List.Subset.refl _
  | child p i e known ih =>
    refine List.Subset.trans ?_ (ih valid.1)
    rw [Green.leaves_of_child valid.2.1, element]
    exact fun leaf h => List.mem_append_left _ (List.mem_append_right _ h)

/-- A token is its own leaf. -/
theorem Position.leaf_of_token {q : Position} (token : q.isNode = false) :
    (q.kind, q.text) ∈ q.element.leaves := by
  rw [isNode] at token
  rw [kind, text]
  cases h : q.element with
  | token k t => exact List.mem_singleton_self _
  | node k n cs =>
    rw [h] at token
    cases token

namespace Parse

open Outline Verbatim.Parser

/-- A diagnostic covers a token of the text, or it is empty at the end. -/
def IsAnchored (t : Text) (d : Diagnostic) : Prop :=
  (∃ x ∈ Token.list t, x.kind ≠ .eof ∧ d.span = x.span) ∨ d.span = ⟨t.size, 0⟩

/-- What the diagnostics of a parse tell of its text. -/
structure Diagnosed (t : Text) (p : Parse) : Prop where
  anchored : ∀ d ∈ p.diagnostics, IsAnchored t d
  distinct : Diagnostic.Distinct p.diagnostics
  malformed : ∀ x ∈ Token.list t, x.fault ≠ none → ∃ d ∈ p.diagnostics, d.span.start = x.offset
  clean : p.diagnostics = [] → (∀ x ∈ Token.list t, x.fault = none) ∧
    ∀ q : Position, q.Valid → q.top = .root p.tree → q.kind ≠ .error

/-- The end of a text is empty. -/
theorem isAnchored_of_span {t : Text} {d : Diagnostic} {x : Token} (hx : x ∈ Token.list t)
    (at_x : d.span = x.span) : IsAnchored t d := by
  by_cases last : x.kind = .eof
  · obtain ⟨ts, split, inRow, -⟩ := Token.listFrom_inRow 0 t
    rw [Nat.zero_add] at split
    rw [show Token.list t = _ from split, List.mem_append] at hx
    rcases hx with hx | hx
    · exact absurd last (Input.spelled_of_inRow inRow x hx).no_end
    · rw [List.mem_singleton.mp hx] at at_x
      exact .inr at_x
  · exact .inl ⟨x, hx, last, at_x⟩

/-- A leaf without a kind is a malformed token. -/
theorem fault_of_leaf {t : Text} {row : List Outline} (h : Spans t row) {leaf : Kind × Text}
    (hl : leaf ∈ Green.leavesOf (whole row (Token.list t)).greens) (error : leaf.1 = .error) :
    ∃ x ∈ Token.list t, x.fault ≠ none := by
  obtain ⟨ts, split, -, -, shows⟩ := shows_whole h.fits h.all
  have single : leaf ∈ Green.piecesOf leaf := by
    rw [Green.piecesOf, error]
    exact List.mem_singleton_self _
  have among : leaf ∈ ts.map Token.shown := shows.leaves ▸ List.mem_flatMap_of_mem hl single
  obtain ⟨x, hx, rfl⟩ := List.mem_map.mp among
  have inside : x ∈ Token.list t := split ▸ List.mem_append_left _ hx
  exact ⟨x, inside, fun sound => (Token.judged_list t x inside).known sound error⟩

/-- Diagnostics are anchored and complete: each covers a token of the text or is empty at its end, no two start
at the same offset, and every malformed token has one; and where there are none, no token is malformed and
nothing in the tree is of the kind `error`, be it a node or a token. -/
theorem ofText_diagnosed (t : Text) : ∃ p, ofText t = .ok p ∧ p.Diagnosed t := by
  obtain ⟨row, outlined, made, fits, all, run⟩ := ofText_eq t
  have parsed := ofText_of_byProgram run
  obtain ⟨anchored, malformed⟩ := reported_whole ⟨fits, all⟩
  obtain ⟨distinct, known⟩ :=
    Diagnostic.foldl_keep (whole row (Token.list t)).reports #[] List.nodup_nil
  refine ⟨_, parsed, ⟨fun d hd => ?_, distinct, fun x hx faulty => ?_, fun clean => ?_⟩⟩
  · rcases anchored d ((known d hd).resolve_left List.not_mem_nil) with at_end | ⟨x, hx, at_x⟩
    · exact .inr at_end
    · exact isAnchored_of_span hx at_x
  · obtain ⟨f, fault⟩ := Option.ne_none_iff_exists'.mp faulty
    have reported : ⟨.lexical f, x.span⟩ ∈ (whole row (Token.list t)).reports :=
      malformed.subset (List.mem_filterMap.mpr ⟨x, hx, by rw [Token.diagnostic?, fault]; rfl⟩)
    obtain ⟨e, kept, start⟩ := Diagnostic.exists_foldl_keep _ #[] _ reported
    exact ⟨e, Array.mem_toList_iff.mpr kept, start⟩
  · obtain ⟨-, sound⟩ := sound_of_clean ⟨fits, all⟩ made.2 (Diagnostic.eq_nil_of_foldl_keep clean)
    have whole := whole_of_clean parsed clean
    refine ⟨sound, fun q valid top error => ?_⟩
    cases node : q.isNode with
    | true =>
      have places := (q.whole_of_valid valid node (by rw [top]; exact whole)).places
      rwa [error] at places
    | false =>
      have leaf : (q.kind, q.text) ∈ q.element.leaves := q.leaf_of_token node
      have inside := valid.leaves_subset leaf
      rw [top] at inside
      obtain ⟨x, hx, faulty⟩ := fault_of_leaf ⟨fits, all⟩ (Green.leaves_branch .. ▸ inside) error
      exact faulty (sound x hx)

end Parse

end Verbatim
