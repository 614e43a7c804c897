import Mathlib.Data.List.DropRight
import Verbatim.Proofs.Fits

/-!
# The tree that an outline grows

The tree over the tokens of a text is told here from the outline alone, without a builder: what grows
from each part of it, what is reported on the way, and which tokens are left. The replay of the log
builds the same.
-/
namespace Verbatim

namespace Token

def leaf (t : Token) : Green := .token t.kind t.text

/-- Behind the trivia there are no more. -/
theorem takeWhile_dropWhile (ts : List Token) :
    (ts.dropWhile (·.isTrivia)).takeWhile (·.isTrivia) = [] := by
  have parts := List.takeWhile_append_dropWhile (p := fun t : Token => t.isTrivia)
    (l := ts.dropWhile (·.isTrivia))
  rw [List.dropWhile_idempotent] at parts
  simpa using parts

theorem dropWhile_of_takeWhile {ts : List Token} (h : ts.takeWhile (·.isTrivia) = []) :
    ts.dropWhile (·.isTrivia) = ts := by
  have parts := List.takeWhile_append_dropWhile (p := fun t : Token => t.isTrivia) (l := ts)
  rwa [h, List.nil_append] at parts

end Token

/-- What grows from an outline: elements, what is reported on the way, and the tokens that are left. -/
structure Sprout where
  greens : List Green
  reports : List Diagnostic
  rest : List Token

namespace Sprout

/-- Tokens placed as they are. -/
def ofTokens (placed rest : List Token) : Sprout :=
  ⟨placed.map Token.leaf, placed.filterMap Token.diagnostic?, rest⟩

/-- Goes on with the tokens that are left. -/
def andThen (a : Sprout) (next : List Token → Sprout) : Sprout :=
  ⟨a.greens ++ (next a.rest).greens, a.reports ++ (next a.rest).reports, (next a.rest).rest⟩

/-- A node over all that has grown. -/
def under (a : Sprout) (kind : Kind) : Sprout := ⟨[.branch kind a.greens], a.reports, a.rest⟩

/-- The trivia in front. -/
def trivia (ts : List Token) : Sprout :=
  ofTokens (ts.takeWhile (·.isTrivia)) (ts.dropWhile (·.isTrivia))

/-- The trivia in front of a node that stay outside of it. -/
def outer (kind : Kind) (ts : List Token) : Sprout :=
  let ahead := ts.takeWhile (·.isTrivia)
  let count := ahead.length - Token.attachedCount kind ahead
  ofTokens (ahead.take count) (ahead.drop count ++ ts.dropWhile (·.isTrivia))

/-- One token of the tree, made of the next `pieces` tokens of the text. -/
def taken (kind : Kind) (pieces : Nat) (ts : List Token) : Sprout :=
  ⟨[.token kind ((ts.take pieces).flatMap (·.text))],
    match ts.take pieces with
    | [t] => t.diagnostic?.toList
    | _ => [],
    ts.drop pieces⟩

theorem trivia_of_none {ts : List Token} (h : ts.takeWhile (·.isTrivia) = []) : trivia ts = ⟨[], [], ts⟩ := by
  simp [trivia, ofTokens, h, Token.dropWhile_of_takeWhile h]

theorem outer_of_none {k : Kind} {ts : List Token} (h : ts.takeWhile (·.isTrivia) = []) :
    outer k ts = ⟨[], [], ts⟩ := by
  simp [outer, ofTokens, h, Token.dropWhile_of_takeWhile h]

end Sprout

/-- Where an error in front of some tokens is anchored, in a text that ends at `stop`. -/
def anchor (stop : Nat) (ts : List Token) : Span :=
  match ts.find? (!·.isTrivia) with
  | some t => t.span
  | none => ⟨stop, 0⟩

namespace Outline

mutual
/-- What grows from an outline over tokens of a text that ends at `stop`. -/
def grow (stop : Nat) : Outline → List Token → Sprout
  | token k pieces, ts => (Sprout.trivia ts).andThen (Sprout.taken k pieces)
  | error cause, ts => ⟨[], [⟨cause, anchor stop ts⟩], ts⟩
  | fault _, ts | void, ts => ⟨[], [], ts⟩
  | node k row, ts =>
    (Sprout.outer k ts).andThen fun ts => ((Sprout.trivia ts).andThen fun ts => growOf stop row ts).under k
  | around k inner row, ts =>
    (Sprout.outer k ts).andThen fun ts => ((Sprout.trivia ts).andThen fun ts =>
      (grow stop inner ts).andThen fun ts => growOf stop row ts).under k

def growOf (stop : Nat) : List Outline → List Token → Sprout
  | [], ts => ⟨[], [], ts⟩
  | o :: older, ts => (growOf stop older ts).andThen fun ts => grow stop o ts
end

end Outline

namespace Diagnostic

/-- Adds a diagnostic unless one is known that starts at the same offset. -/
def keep (known : Array Diagnostic) (d : Diagnostic) : Array Diagnostic :=
  if known.any (·.span.start == d.span.start) then known else known.push d

end Diagnostic

namespace Replay

/-- The replay behind what has grown. -/
def extended (r : Replay) (s : Sprout) : Replay :=
  { r with
    rest := s.rest
    builder := { r.builder with row := r.builder.row ++ s.greens.toArray }
    diagnostics := s.reports.foldl Diagnostic.keep r.diagnostics }

@[simp] theorem extended_rest (r : Replay) (s : Sprout) : (r.extended s).rest = s.rest := rfl

@[simp] theorem extended_stop (r : Replay) (s : Sprout) : (r.extended s).stop = r.stop := rfl

@[simp] theorem extended_phase (r : Replay) (s : Sprout) : (r.extended s).phase = r.phase := rfl

theorem extended_andThen (r : Replay) (a : Sprout) (next : List Token → Sprout) :
    r.extended (a.andThen next) = (r.extended a).extended (next a.rest) := by
  simp [extended, Sprout.andThen]

theorem report_eq (r : Replay) (d : Diagnostic) :
    r.report d = { r with diagnostics := Diagnostic.keep r.diagnostics d } := by
  unfold report Diagnostic.keep
  split <;> rfl

theorem push_extended (r : Replay) (t : Token) (rest : List Token) :
    (({ r with rest }).reportFault t).push t.kind t.text = r.extended (.ofTokens [t] rest) := by
  cases hd : t.diagnostic? with
  | none => simp [reportFault, hd, push, Builder.push, extended, Sprout.ofTokens, Token.leaf]
  | some d =>
    simp [reportFault, hd, push, Builder.push, extended, Sprout.ofTokens, Token.leaf, report_eq]

theorem place_ofTokens (r : Replay) (placed rest : List Token) (h : r.rest = placed ++ rest) :
    r.place placed.length = r.extended (.ofTokens placed rest) := by
  induction placed generalizing r with
  | nil =>
    obtain ⟨ts, stop, phase, builder, diagnostics⟩ := r
    simp_all [place, extended, Sprout.ofTokens]
  | cons t placed ih =>
    rw [List.length_cons, place, h, List.cons_append]
    simp only [push_extended]
    rw [ih _ rfl]
    cases hd : t.diagnostic? <;> simp [extended, Sprout.ofTokens, hd]

theorem placeTrivia_eq (r : Replay) : r.placeTrivia = r.extended (.trivia r.rest) :=
  place_ofTokens r _ _ List.takeWhile_append_dropWhile.symm

/-! ## Behind a node that is still to be closed -/

/-- The replay `r` has opened its root, and becomes `s` once the node behind which it stands is closed. -/
def Settles (r s : Replay) : Prop := r.settle = .ok s

theorem settles_inside {r : Replay} (h : r.phase = .inside) : r.Settles r := by simp [Settles, settle, h]

/-- Closing a node neither takes tokens nor reports anything. -/
theorem Settles.frame {r s : Replay} (h : r.Settles s) : s.phase = .inside ∧ r.rest = s.rest ∧
    r.stop = s.stop ∧ r.diagnostics = s.diagnostics ∧
      ∀ ds, Settles { r with diagnostics := ds } { s with diagnostics := ds } := by
  unfold Settles settle close at h ⊢
  cases hp : r.phase with
  | before => simp [hp] at h
  | inside =>
    obtain rfl : r = s := by simpa [hp] using h
    simp [hp]
  | behind =>
    cases hb : r.builder.finishNode with
    | error misuse => simp [hp, hb, Bind.bind, Except.bind] at h
    | ok builder =>
      obtain rfl : { r with builder, phase := .inside } = s := by
        simpa [hp, hb, Bind.bind, Except.bind, Pure.pure, Except.pure] using h
      simp [hb, Bind.bind, Except.bind, Pure.pure, Except.pure]

theorem attachedCount_le (k : Kind) (trivia : List Token) :
    Token.attachedCount k trivia ≤ trivia.length := by
  unfold Token.attachedCount
  split
  · have near := (List.takeWhile_prefix (fun t : Token => !t.separates) (l := trivia.reverse)).length_le
    have attached := (List.dropWhile_suffix (fun t : Token => t.kind != .comment)
      (l := (trivia.reverse.takeWhile fun t => !t.separates).reverse)).length_le
    simp only [List.length_reverse] at near attached ⊢
    omega
  · exact Nat.zero_le _

/-- The trivia that belong inside of a node are those that are left ahead of it. -/
theorem trivia_outer (k : Kind) (ts : List Token) :
    Sprout.trivia (Sprout.outer k ts).rest =
      .ofTokens ((ts.takeWhile (·.isTrivia)).drop
          ((ts.takeWhile (·.isTrivia)).length - Token.attachedCount k (ts.takeWhile (·.isTrivia))))
        (ts.dropWhile (·.isTrivia)) := by
  generalize hn : (ts.takeWhile (·.isTrivia)).length -
    Token.attachedCount k (ts.takeWhile (·.isTrivia)) = n
  have all : ∀ t ∈ (ts.takeWhile (·.isTrivia)).drop n, t.isTrivia = true := fun t ht =>
    List.mem_takeWhile_imp (List.mem_of_mem_drop ht)
  have stays := List.dropWhile_idempotent (p := fun t : Token => t.isTrivia) (l := ts)
  have stops := Token.takeWhile_dropWhile ts
  simp only [Sprout.trivia, Sprout.outer, Sprout.ofTokens, hn]
  rw [List.takeWhile_append_of_pos all, List.dropWhile_append_of_pos all, stops, stays, List.append_nil]

theorem enter_settled {r s : Replay} (h : r.Settles s) (k : Kind) :
    r.enter k = .ok (((s.extended (.outer k s.rest)).openNode k).extended
      (.trivia (Sprout.outer k s.rest).rest)) := by
  have settled : r.settle = _ := h
  have behind : r.enter k = (do
      let r ← r.settle
      let trivia := r.triviaAhead
      let attached := Token.attachedCount k trivia
      return (((r.place (trivia.length - attached)).openNode k).place attached)) := by
    unfold enter
    cases hp : r.phase <;> simp_all [settle]
  rw [behind, settled]
  have le := attachedCount_le k s.triviaAhead
  have outside := place_ofTokens s (s.triviaAhead.take (s.triviaAhead.length -
      Token.attachedCount k s.triviaAhead)) (Sprout.outer k s.rest).rest (by
    simp [Sprout.outer, Sprout.ofTokens, triviaAhead, ← List.append_assoc])
  rw [List.length_take, Nat.min_eq_left (Nat.sub_le _ _)] at outside
  have inside := place_ofTokens ((s.extended (.outer k s.rest)).openNode k)
    (s.triviaAhead.drop (s.triviaAhead.length - Token.attachedCount k s.triviaAhead))
    (s.rest.dropWhile (·.isTrivia)) rfl
  rw [List.length_drop, Nat.sub_sub_self le] at inside
  rw [trivia_outer]
  exact congrArg Except.ok (by rw [outside]; exact inside)

/-- Leaving a node adds it to what was there before it was opened, once it is closed. -/
theorem leave_node {r s : Replay} {k : Kind} {a : Sprout} (hs : s.phase = .inside)
    (h : r.Settles ((s.openNode k).extended a)) :
    ∃ r', r.leave = .ok r' ∧ r'.Settles (s.extended (a.under k)) := by
  have settled : r.settle = _ := h
  refine ⟨{ (s.openNode k).extended a with phase := .behind }, by simp [leave, settled], ?_⟩
  simp [Settles, settle, close, Builder.finishNode, Builder.close, extended, openNode, Builder.start,
    Sprout.under, Builder.push, hs]

theorem taken_extended (r : Replay) (k : Kind) (n : Nat) :
    (match r.rest.take n with
      | [t] => (({ r with rest := r.rest.drop n }).reportFault t).push k t.text
      | ts => ({ r with rest := r.rest.drop n }).push k (ts.flatMap Token.text)) =
      r.extended (.taken k n r.rest) := by
  cases ht : r.rest.take n with
  | nil => simp [push, Builder.push, extended, Sprout.taken, ht]
  | cons t ts =>
    cases ts with
    | nil =>
      cases hd : t.diagnostic? with
      | none => simp [reportFault, hd, push, Builder.push, extended, Sprout.taken, ht]
      | some d => simp [reportFault, hd, push, Builder.push, extended, Sprout.taken, ht, report_eq]
    | cons t' ts => simp [push, Builder.push, extended, Sprout.taken, ht]

/-- A token is taken if there are enough left. -/
theorem take_settled {r s : Replay} (h : r.Settles s) (k : Kind) {n : Nat}
    (enough : n ≤ (s.rest.dropWhile (·.isTrivia)).length) :
    ∃ r', r.take k n = .ok r' ∧
      r'.Settles (s.extended ((Sprout.trivia s.rest).andThen (.taken k n))) := by
  have settled : r.settle = _ := h
  refine ⟨_, ?_, settles_inside h.frame.1⟩
  have length : ¬ ((s.extended (.trivia s.rest)).rest.take n).length < n := by
    rw [List.length_take, show (s.extended (.trivia s.rest)).rest = s.rest.dropWhile (·.isTrivia) from rfl,
      Nat.min_eq_left enough]
    exact Nat.lt_irrefl n
  have behind := taken_extended (s.extended (.trivia s.rest)) k n
  simp only [take, settled, Bind.bind, Except.bind, placeTrivia_eq, length, if_false]
  rw [extended_andThen, show (Sprout.trivia s.rest).rest = (s.extended (.trivia s.rest)).rest from rfl,
    ← behind]
  cases (s.extended (.trivia s.rest)).rest.take n with
  | nil => rfl
  | cons t ts => cases ts <;> rfl

theorem error_settled {r s : Replay} (h : r.Settles s) (cause : Cause) :
    (r.error cause).Settles (s.extended ⟨[], [⟨cause, anchor s.stop s.rest⟩], s.rest⟩) := by
  obtain ⟨-, rest, stop, diagnostics, settles⟩ := h.frame
  have reported : r.error cause =
      { r with diagnostics := Diagnostic.keep r.diagnostics ⟨cause, anchor s.stop s.rest⟩ } := by
    unfold error anchor
    rw [rest, stop]
    cases s.rest.find? (!·.isTrivia) <;> simp [report_eq, rest, stop]
  rw [reported, diagnostics]
  simpa [extended] using settles _

/-! ## The whole tree -/

end Replay

/-- Tokens that are neither blanks nor comments. -/
def Token.significant (ts : List Token) : Nat := ts.countP (!·.isTrivia)

namespace Sprout

open Token

theorem significant_trivia (ts : List Token) : significant (trivia ts).rest = significant ts := by
  have parts := List.takeWhile_append_dropWhile (p := fun t : Token => t.isTrivia) (l := ts)
  have none : significant (ts.takeWhile (·.isTrivia)) = 0 :=
    List.countP_eq_zero.mpr fun t ht => by simp [List.mem_takeWhile_imp ht]
  conv_rhs => rw [← parts, significant, List.countP_append, ← significant, none, Nat.zero_add]
  rfl

theorem significant_outer (k : Kind) (ts : List Token) :
    significant (outer k ts).rest = significant ts := by
  have inside := congrArg Sprout.rest (Replay.trivia_outer k ts)
  rw [← significant_trivia (outer k ts).rest, inside]
  exact significant_trivia ts

theorem significant_taken (k : Kind) (n : Nat) (ts : List Token) :
    significant ts ≤ significant (taken k n ts).rest + n := by
  have parts := List.take_append_drop n ts
  have most : significant (ts.take n) ≤ n := Nat.le_trans List.countP_le_length (List.length_take_le n ts)
  conv_lhs => rw [← parts, significant, List.countP_append]
  simp only [taken, significant] at most ⊢
  omega

end Sprout

namespace Outline

open Token

mutual
/-- No more tokens are used up than an outline takes. -/
theorem significant_grow (stop : Nat) : ∀ (o : Outline) (ts : List Token),
    significant ts ≤ significant (o.grow stop ts).rest + o.width
  | .token k n, ts => by
    have taken := Sprout.significant_taken k n (Sprout.trivia ts).rest
    rw [Sprout.significant_trivia] at taken
    exact taken
  | .error _, _ | .fault _, _ | .void, _ => Nat.le_refl _
  | .node k row, ts => by
    have inner := significant_growOf stop row (Sprout.trivia (Sprout.outer k ts).rest).rest
    rw [Sprout.significant_trivia, Sprout.significant_outer] at inner
    exact inner
  | .around k inner row, ts => by
    have first := significant_grow stop inner (Sprout.trivia (Sprout.outer k ts).rest).rest
    have second := significant_growOf stop row
      (inner.grow stop (Sprout.trivia (Sprout.outer k ts).rest).rest).rest
    rw [Sprout.significant_trivia, Sprout.significant_outer] at first
    simp only [grow, Sprout.andThen, Sprout.under, width] at first second ⊢
    omega

theorem significant_growOf (stop : Nat) : ∀ (row : List Outline) (ts : List Token),
    significant ts ≤ significant (growOf stop row ts).rest + widthOf row
  | [], _ => Nat.le_refl _
  | o :: older, ts => by
    have first := significant_growOf stop older ts
    have second := significant_grow stop o (growOf stop older ts).rest
    simp only [growOf, Sprout.andThen, widthOf] at first second ⊢
    omega
end

end Outline

namespace Replay

open Outline Token

/-- The steps between entering a node and leaving it add to what grows inside of it. -/
theorem run_node {r s : Replay} (h : r.Settles s) (k : Kind) {cs : List Command}
    {next : List Token → Sprout}
    (body : ∀ q : Replay, q.stop = s.stop → q.rest = (Sprout.trivia (Sprout.outer k s.rest).rest).rest →
      q.Settles q → ∃ r', q.run cs = .ok r' ∧ r'.Settles (q.extended (next q.rest))) :
    ∃ r', r.run (.enter k :: (cs ++ [.leave])) = .ok r' ∧
      r'.Settles (s.extended ((Sprout.outer k s.rest).andThen fun ts =>
        ((Sprout.trivia ts).andThen next).under k)) := by
  have entered := enter_settled h k
  obtain ⟨r₁, ran, settles⟩ := body (((s.extended (.outer k s.rest)).openNode k).extended
    (.trivia (Sprout.outer k s.rest).rest)) rfl rfl (settles_inside rfl)
  rw [extended_rest, ← extended_andThen] at settles
  obtain ⟨r₂, left, closed⟩ := leave_node (show (s.extended (.outer k s.rest)).phase = _ from h.frame.1)
    settles
  refine ⟨r₂, ?_, ?_⟩
  · rw [run_cons, obey, entered]
    change (run _ (cs ++ [.leave])) = _
    rw [run_append, ran]
    change run r₁ [.leave] = _
    simp [run, obey, left]
  · rw [extended_andThen]
    exact closed

mutual
/-- The replay of an outline adds what grows from it. -/
theorem run_commands : ∀ (o : Outline) {r s : Replay}, o.Clean → r.Settles s →
    o.width ≤ significant s.rest →
      ∃ r', r.run o.commands = .ok r' ∧ r'.Settles (s.extended (o.grow s.stop s.rest))
  | .token k n, r, s, _, h, enough => by
    have room : n ≤ (s.rest.dropWhile (·.isTrivia)).length := by
      have := Sprout.significant_trivia s.rest
      exact Nat.le_trans (this.symm ▸ enough) List.countP_le_length
    obtain ⟨r', taken, settles⟩ := take_settled h k room
    exact ⟨r', by simp [commands, run, obey, taken], by rwa [grow]⟩
  | .error cause, r, s, _, h, _ => by
    rw [commands, grow]
    exact ⟨r.error cause, rfl, error_settled h cause⟩
  | .fault _, _, _, hc, _, _ => absurd hc id
  | .void, r, s, _, h, _ => ⟨r, rfl, by simpa [extended, grow] using h⟩
  | .node k row, r, s, hc, h, enough => by
    rw [commands, grow]
    refine run_node h k fun q stop rest hq => ?_
    have room : widthOf row ≤ significant q.rest := by
      rwa [rest, Sprout.significant_trivia, Sprout.significant_outer]
    rw [← stop]
    exact run_commandsOf row hc.2 hq room
  | .around k inner row, r, s, hc, h, enough => by
    rw [commands, grow, ← List.append_assoc]
    refine run_node h k fun q stop rest hq => ?_
    have room : inner.width + widthOf row ≤ significant q.rest := by
      rwa [rest, Sprout.significant_trivia, Sprout.significant_outer]
    obtain ⟨r₁, ran, settles⟩ := run_commands inner hc.2.2.1 hq (by omega)
    have left := significant_grow q.stop inner q.rest
    obtain ⟨r₂, ran', settles'⟩ := run_commandsOf row hc.2.2.2 settles (by
      rw [extended_rest]
      omega)
    refine ⟨r₂, by rw [run_append, ran]; exact ran', ?_⟩
    rwa [extended_andThen, ← stop]

theorem run_commandsOf : ∀ (row : List Outline) {r s : Replay}, CleanOf row → r.Settles s →
    widthOf row ≤ significant s.rest →
      ∃ r', r.run (commandsOf row) = .ok r' ∧ r'.Settles (s.extended (growOf s.stop row s.rest))
  | [], r, s, _, h, _ => ⟨r, rfl, by simpa [extended, growOf] using h⟩
  | o :: older, r, s, hc, h, enough => by
    simp only [widthOf] at enough
    obtain ⟨r₁, ran, settles⟩ := run_commandsOf older hc.2 h (by omega)
    have left := significant_growOf s.stop older s.rest
    obtain ⟨r₂, ran', settles'⟩ := run_commands o hc.1 settles (by
      rw [extended_rest]
      omega)
    refine ⟨r₂, by rw [commandsOf, run_append, ran]; exact ran', ?_⟩
    rwa [growOf, extended_andThen]
end

/-- Between entering the root and leaving it, the steps add to what grows inside of it. -/
theorem run_root {tokens : List Token} {k : Kind} {cs : List Command} {a : Sprout} {r : Replay}
    (ran : ((init tokens).openNode k).run cs = .ok r)
    (settled : r.Settles (((init tokens).openNode k).extended a)) :
    (init tokens).run (.enter k :: (cs ++ [.leave])) >>= finish =
      .ok (.branch k (a.andThen Sprout.trivia).greens,
        ((a.andThen Sprout.trivia).reports.foldl Diagnostic.keep #[]).toList) := by
  have entered : (init tokens).obey (.enter k) = .ok ((init tokens).openNode k) := rfl
  have inside : (init tokens).run (.enter k :: (cs ++ [.leave])) = r.run [.leave] := by
    rw [run_cons, entered]
    change run _ (cs ++ [.leave]) = _
    rw [run_append, ran]
    rfl
  have left : r.run [.leave] = .ok { ((init tokens).openNode k).extended a with phase := .behind } := by
    have settle : r.settle = .ok (((init tokens).openNode k).extended a) := settled
    simp [run, obey, leave, settle]
  have all (a b : List Green) : (a ++ b).take (a.length + b.length) = a ++ b := by
    rw [← List.length_append, List.take_length]
  rw [inside, left]
  simp [finish, placeTrivia_eq, extended, openNode, close, Builder.finishNode, Builder.close,
    Builder.start, Builder.push, init, Builder.empty, Builder.finish, Green.branch, Green.isToken,
    Sprout.andThen, Bind.bind, Except.bind, Pure.pure, Except.pure, all]

end Replay

namespace Outline

/-- What grows inside of the root: the trivia at the end of the text belong there. -/
def whole (row : List Outline) (tokens : List Token) : Sprout :=
  (growOf (Replay.textEnd tokens) row tokens).andThen Sprout.trivia

/-- Replaying the log of a single node makes the tree that grows from it. -/
theorem toTree_node {k : Kind} {row : List Outline} (hc : (node k row).Clean) {tokens : List Token}
    (enough : widthOf row ≤ Token.significant tokens) :
    Log.toTree (eventsOf [node k row]).toArray tokens =
      .ok (.branch k (whole row tokens).greens,
        ((whole row tokens).reports.foldl Diagnostic.keep #[]).toList) := by
  have clean : CleanOf [node k row] := ⟨hc, trivial⟩
  rw [Log.toTree_eventsOf _ clean]
  obtain ⟨r, ran, settled⟩ := Replay.run_commandsOf row hc.2
    (r := (Replay.init tokens).openNode k) (Replay.settles_inside rfl) enough
  exact Replay.run_root ran settled

end Outline

end Verbatim
