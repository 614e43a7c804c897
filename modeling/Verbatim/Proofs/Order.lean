import Mathlib.Data.List.Pairwise
import Verbatim.Proofs.Anchors
import Verbatim.Proofs.Composition

/-!
# The order of diagnostics

What is reported while a tree grows starts no earlier than the next token in front of it and no later than the
next one behind it, so diagnostics come in the order of the text. The one exception is a block comment without
an end: what is missing in front of it is reported at the end of the text before the comment is placed.
-/
namespace Verbatim

open Token

/-- Whether a diagnostic is that of a block comment without an end. -/
def Diagnostic.isOpenComment (d : Diagnostic) : Bool := d.cause == .lexical (.unterminated .blockComment)

/-! ## Tokens in order -/

/-- What starts no later than some tokens starts no later than the next of them. -/
theorem le_anchor {n stop : Nat} {ts : List Token} (h : ∀ x ∈ ts, n ≤ x.offset) (ends : n ≤ stop) :
    n ≤ (anchor stop ts).start := by
  rw [anchor]
  split
  · next x found => exact h x (List.mem_of_find?_eq_some found)
  · exact ends

namespace Token

/-- Tokens in the order of a text that ends at `stop`. Of the trivia only a block comment can be malformed. -/
structure InOrder (stop : Nat) (ts : List Token) : Prop where
  sorted : ts.Pairwise (·.offset ≤ ·.offset)
  ends : ∀ x ∈ ts, x.offset ≤ stop
  trivia : ∀ x ∈ ts, x.isTrivia = true → ∀ d ∈ x.diagnostic?, d.isOpenComment = true

namespace InOrder

variable {stop : Nat} {ts us : List Token}

theorem suffix (h : InOrder stop ts) (part : us <:+ ts) : InOrder stop us :=
  ⟨h.sorted.sublist part.sublist, fun x hx => h.ends x (part.subset hx), fun x hx => h.trivia x (part.subset hx)⟩

/-- The next token is no earlier where fewer tokens are left. -/
theorem anchor_le (h : InOrder stop ts) (part : us <:+ ts) : (anchor stop ts).start ≤ (anchor stop us).start := by
  obtain ⟨front, rfl⟩ := part
  cases first : front.find? (!·.isTrivia) with
  | none => rw [anchor, List.find?_append, first, Option.none_or, ← anchor]
  | some x =>
    have inside := List.mem_of_find?_eq_some first
    rw [anchor, List.find?_append, first, Option.some_or]
    exact le_anchor ((List.pairwise_append.mp h.sorted).2.2 x inside) (h.ends x (List.mem_append_left _ inside))

end InOrder

theorem Follow.sorted {start : Nat} {ts : List Token} (h : Follow start ts) :
    ts.Pairwise (·.offset ≤ ·.offset) ∧
      ∀ x ∈ ts, start ≤ x.offset ∧ x.offset ≤ start + Text.size (ts.flatMap (·.text)) := by
  induction ts generalizing start with
  | nil => exact ⟨.nil, nofun⟩
  | cons t ts ih =>
    obtain ⟨sorted, within⟩ := ih h.2
    rw [List.flatMap_cons, Text.size_append]
    refine ⟨.cons (fun x hx => ?_) sorted, fun x hx => ?_⟩
    · have := within x hx
      have := h.1
      omega
    · rcases List.mem_cons.mp hx with rfl | hx
      · have := h.1
        omega
      · have := within x hx
        omega

theorem inOrder_list (t : Text) : InOrder t.size (list t) := by
  obtain ⟨sorted, within⟩ := (follow_list t).sorted
  obtain ⟨ts, split, -, spells⟩ := listFrom_inRow 0 t
  have text : (list t).flatMap (·.text) = t := by
    rw [show list t = _ from split, List.flatMap_append, spells]
    exact List.append_nil t
  refine ⟨sorted, fun x hx => ?_, fun x hx trivia d hd => ?_⟩
  · have := (within x hx).2
    rwa [text, Nat.zero_add] at this
  · obtain ⟨f, fault, rfl⟩ := Option.map_eq_some_iff.mp hd
    rw [fault_of_trivia t x hx trivia f fault]
    rfl

end Token

/-! ## What grows is reported in order -/

/-- What is reported while some tokens are used up starts between the next token in front and the next one
behind, in the order of the text; open comments apart. -/
structure Sprout.Ordered (s : Sprout) (stop : Nat) (ts : List Token) : Prop where
  rest : s.rest <:+ ts
  between : ∀ d ∈ s.reports, d.isOpenComment = false →
    (anchor stop ts).start ≤ d.span.start ∧ d.span.start ≤ (anchor stop s.rest).start
  sorted : s.reports.Pairwise fun d e =>
    d.isOpenComment = false → e.isOpenComment = false → d.span.start ≤ e.span.start

namespace Sprout.Ordered

variable {stop : Nat} {ts : List Token}

/-- Only the reports matter and the tokens that are left. -/
theorem congr {a b : Sprout} (h : a.Ordered stop ts) (reports : b.reports = a.reports) (rest : b.rest = a.rest) :
    b.Ordered stop ts :=
  ⟨rest ▸ h.rest, by rw [reports, rest]; exact h.between, reports ▸ h.sorted⟩

theorem nil (stop : Nat) (ts : List Token) : Ordered ⟨[], [], ts⟩ stop ts := ⟨List.suffix_rfl, nofun, .nil⟩

theorem andThen {a : Sprout} {f : List Token → Sprout} (h : InOrder stop ts) (ha : a.Ordered stop ts)
    (hf : (f a.rest).Ordered stop a.rest) : (a.andThen f).Ordered stop ts := by
  refine ⟨hf.rest.trans ha.rest, fun d hd closed => ?_, ?_⟩
  · rcases List.mem_append.mp hd with hd | hd
    · obtain ⟨front, back⟩ := ha.between d hd closed
      exact ⟨front, Nat.le_trans back ((h.suffix ha.rest).anchor_le hf.rest)⟩
    · obtain ⟨front, back⟩ := hf.between d hd closed
      exact ⟨Nat.le_trans (h.anchor_le ha.rest) front, back⟩
  · refine List.pairwise_append.mpr ⟨ha.sorted, hf.sorted, fun d hd e he first second => ?_⟩
    exact Nat.le_trans (ha.between d hd first).2 (hf.between e he second).1

/-- All that is reported of trivia are open comments. -/
theorem trivia (h : InOrder stop ts) : (Sprout.trivia ts).Ordered stop ts := by
  have comments : ∀ d ∈ (Sprout.trivia ts).reports, d.isOpenComment = true := by
    intro d hd
    obtain ⟨x, hx, fault⟩ := List.mem_filterMap.mp hd
    exact h.trivia x ((List.takeWhile_prefix _).subset hx) (List.mem_takeWhile_imp hx) d fault
  refine ⟨List.dropWhile_suffix _, fun d hd closed => ?_, List.pairwise_of_forall_mem_list fun d hd e _ closed => ?_⟩
  · cases (comments d hd).symm.trans closed
  · cases (comments d hd).symm.trans closed

/-- A token of the tree is reported where it stands. -/
theorem taken (k : Kind) (n : Nat) (h : InOrder stop ts) (seen : ∀ t ∈ ts.head?, t.isTrivia = false) :
    (Sprout.taken k n ts).Ordered stop ts := by
  have rest : (Sprout.taken k n ts).rest <:+ ts := List.drop_suffix n ts
  have here : ∀ d ∈ (Sprout.taken k n ts).reports, d.span.start = (anchor stop ts).start := by
    intro d hd
    rw [Sprout.taken] at hd
    dsimp only at hd
    split at hd
    · next t only =>
      obtain ⟨later, rfl⟩ : ∃ later, ts = t :: later := by
        have parts := List.take_append_drop n ts
        rw [only] at parts
        exact ⟨_, parts.symm⟩
      rw [span_of_diagnostic? (Option.mem_toList.mp hd), anchor, List.find?_cons_of_pos (by simp [seen t rfl])]
    · cases hd
  refine ⟨rest, fun d hd _ => ?_, List.pairwise_of_forall_mem_list fun d hd e he _ _ => ?_⟩
  · rw [here d hd]
    exact ⟨Nat.le_refl _, h.anchor_le rest⟩
  · rw [here d hd, here e he]

theorem error (cause : Cause) (ts : List Token) : Ordered ⟨[], [⟨cause, anchor stop ts⟩], ts⟩ stop ts := by
  refine ⟨List.suffix_rfl, fun d hd _ => ?_, List.pairwise_singleton _ _⟩
  rw [List.mem_singleton.mp hd]
  exact ⟨Nat.le_refl _, Nat.le_refl _⟩

/-- A node reports what its trivia and its inside report. -/
theorem entered {a inside : Sprout} {k : Kind} (ordered : InOrder stop ts) (h : a.Entered k ts inside)
    (hi : inside.Ordered stop (ts.dropWhile (·.isTrivia))) : a.Ordered stop ts :=
  ((trivia ordered).andThen (f := fun _ => inside) ordered hi).congr h.reports h.rest

end Sprout.Ordered

namespace Outline

mutual
theorem ordered_grow (stop : Nat) : ∀ (o : Outline) {ts : List Token}, InOrder stop ts →
    (o.grow stop ts).Ordered stop ts
  | .token k n, ts, h => by
    have ahead := Sprout.Ordered.trivia h
    exact ahead.andThen h (.taken k n (h.suffix ahead.rest) (head?_dropWhile_trivia ts))
  | .error cause, ts, _ => .error cause ts
  | .fault _, ts, _ => .nil stop ts
  | .void, ts, _ => .nil stop ts
  | .node k row, ts, h => by
    have ahead := h.suffix (List.dropWhile_suffix (·.isTrivia))
    rw [grow]
    exact .entered h (Sprout.entered k _ ts) (ordered_growOf stop row ahead)
  | .around k inner row, ts, h => by
    have ahead := h.suffix (List.dropWhile_suffix (·.isTrivia))
    have first := ordered_grow stop inner ahead
    rw [grow]
    exact .entered h (Sprout.entered k _ ts)
      (first.andThen ahead (ordered_growOf stop row (ahead.suffix first.rest)))

/-- What is reported while a tree grows is in the order of the text. -/
theorem ordered_growOf (stop : Nat) : ∀ (row : List Outline) {ts : List Token}, InOrder stop ts →
    (growOf stop row ts).Ordered stop ts
  | [], ts, _ => .nil stop ts
  | o :: older, ts, h => by
    have before := ordered_growOf stop older h
    rw [growOf]
    exact before.andThen h (ordered_grow stop o (h.suffix before.rest))
end

/-- What is reported over a whole text is in its order. -/
theorem ordered_whole (row : List Outline) (t : Text) :
    (whole row (Token.list t)).Ordered (Replay.textEnd (Token.list t)) (Token.list t) := by
  have order : InOrder (Replay.textEnd (Token.list t)) (Token.list t) := by
    rw [Replay.textEnd_list]
    exact inOrder_list t
  have grown := ordered_growOf _ row order
  exact grown.andThen order (.trivia (order.suffix grown.rest))

end Outline

namespace Diagnostic

/-- Those that are kept are in the order in which they were reported. -/
theorem foldl_keep_sublist (ds : List Diagnostic) (known : Array Diagnostic) :
    (ds.foldl keep known).toList.Sublist (known.toList ++ ds) := by
  induction ds generalizing known with
  | nil => rw [List.append_nil]; exact .refl _
  | cons d ds ih =>
    refine (ih (keep known d)).trans ?_
    rw [keep]
    split
    · exact (List.sublist_cons_self d ds).append_left _
    · rw [Array.toList_push, List.append_assoc]
      exact .refl _

end Diagnostic

namespace Parse

open Outline Verbatim.Parser

/-- The diagnostics of a text start in the order in which they are listed, but for that of a block comment
without an end. -/
theorem ofText_ordered (t : Text) : ∃ p, ofText t = .ok p ∧
    (p.diagnostics.filter (!·.isOpenComment)).Pairwise fun d e => d.span.start < e.span.start := by
  obtain ⟨row, -, -, -, -, run⟩ := ofText_eq t
  have kept := Diagnostic.foldl_keep_sublist (whole row (Token.list t)).reports #[]
  obtain ⟨distinct, -⟩ := Diagnostic.foldl_keep (whole row (Token.list t)).reports #[] List.nodup_nil
  refine ⟨_, ofText_of_byProgram run, List.pairwise_filter.mpr ?_⟩
  have ascending := (ordered_whole row t).sorted.sublist kept
  refine (ascending.and (List.pairwise_map.mp distinct)).imp fun ⟨le, ne⟩ first second => ?_
  exact Nat.lt_of_le_of_ne (le (by simpa using first) (by simpa using second)) ne

/-- An unterminated comment is listed behind what is missing at the end of the text. -/
example : (ofText "mod m /*".toList).toOption.map (·.diagnostics.map fun d => (d.isOpenComment, d.span.start)) =
    some [(false, 8), (true, 6)] := by
  decide +kernel

end Parse

end Verbatim
