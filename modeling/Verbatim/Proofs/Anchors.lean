import Mathlib.Data.List.Nodup
import Verbatim.Proofs.Editing
import Verbatim.Proofs.Formed

/-!
# Where diagnostics are anchored

Each diagnostic starts where a leaf of the tree starts and ends within that leaf, or it is the empty
span at the end of the text. While a tree grows, what was reported last may still be waiting for the
leaf that is to come: it is then anchored at the first token that is left and no trivia.
-/
namespace Verbatim

/-- A span starts with one of some leaves that stand from `base` on, and ends within it. -/
def AtLeaf (base : Nat) (ls : List (Kind × Text)) (s : Span) : Prop :=
  ∃ front leaf back, ls = front ++ leaf :: back ∧ s.start = base + Green.sizeOfLeaves front ∧
    s.len ≤ leaf.2.size

namespace AtLeaf

open Green

variable {base : Nat} {ls ms : List (Kind × Text)} {s : Span}

theorem append_right (h : AtLeaf base ls s) (ms : List (Kind × Text)) : AtLeaf base (ls ++ ms) s := by
  obtain ⟨front, leaf, back, rfl, start, len⟩ := h
  exact ⟨front, leaf, back ++ ms, by simp, start, len⟩

theorem append_left (h : AtLeaf (base + sizeOfLeaves ls) ms s) : AtLeaf base (ls ++ ms) s := by
  obtain ⟨front, leaf, back, rfl, start, len⟩ := h
  exact ⟨ls ++ front, leaf, back, by simp, by rw [start, sizeOfLeaves_append, Nat.add_assoc], len⟩

/-- A span at one of two rows of leaves is at the first or at the second. -/
theorem of_append (h : AtLeaf base (ls ++ ms) s) :
    AtLeaf base ls s ∨ AtLeaf (base + sizeOfLeaves ls) ms s := by
  obtain ⟨front, leaf, back, parts, start, len⟩ := h
  rcases List.append_eq_append_iff.mp parts with ⟨m, rfl, rfl⟩ | ⟨m, rfl, hm⟩
  · refine .inr ⟨m, leaf, back, rfl, ?_, len⟩
    rw [start, sizeOfLeaves_append, Nat.add_assoc]
  · cases m with
    | nil =>
      refine .inr ⟨[], leaf, back, by simpa using hm.symm, ?_, len⟩
      simpa using start
    | cons first m =>
      obtain ⟨rfl, rfl⟩ := List.cons.inj hm
      exact .inl ⟨front, leaf, m, rfl, start, len⟩

/-- All spans at some leaves lie between their ends. -/
theorem bounds (h : AtLeaf base ls s) :
    base ≤ s.start ∧ s.stop ≤ base + sizeOfLeaves ls := by
  obtain ⟨front, leaf, back, rfl, start, len⟩ := h
  rw [Span.stop]
  simp only [sizeOfLeaves_append, sizeOfLeaves_cons]
  omega

/-- A span at leaves that take up room starts before their end. -/
theorem lt_end (h : AtLeaf base ls s) (filled : ∀ leaf ∈ ls, leaf.2 ≠ []) :
    s.start < base + sizeOfLeaves ls := by
  obtain ⟨front, leaf, back, rfl, start, -⟩ := h
  have room : leaf.2.size ≠ 0 := fun hz =>
    filled leaf (by simp) (Text.eq_nil_of_size hz)
  simp only [sizeOfLeaves_append, sizeOfLeaves_cons]
  omega

/-- A span that starts with the first leaf is not longer than that leaf. -/
theorem len_le_of_start {leaf : Kind × Text} (h : AtLeaf base (leaf :: ls) s) (start : s.start = base)
    (room : leaf.2 ≠ []) : s.len ≤ leaf.2.size := by
  obtain ⟨front, leaf', back, parts, start', len⟩ := h
  cases front with
  | nil =>
    rw [(List.cons.inj parts).1]
    exact len
  | cons first front =>
    have : leaf.2.size ≠ 0 := fun hz => room (Text.eq_nil_of_size hz)
    rw [← (List.cons.inj parts).1, sizeOfLeaves_cons] at start'
    omega

theorem head {leaf : Kind × Text} (ls : List (Kind × Text)) (start : s.start = base)
    (len : s.len ≤ leaf.2.size) : AtLeaf base (leaf :: ls) s :=
  ⟨[], leaf, ls, rfl, by simpa using start, len⟩

theorem shift (h : AtLeaf base ls s) (n : Nat) : AtLeaf (n + base) ls (s.shift n) := by
  obtain ⟨front, leaf, back, rfl, start, len⟩ := h
  exact ⟨front, leaf, back, rfl, by simp only [Span.shift]; omega, len⟩

end AtLeaf

namespace Token

/-- Tokens that follow each other in the text from `start` on. -/
def Follow (start : Nat) : List Token → Prop
  | [] => True
  | t :: ts => t.offset = start ∧ Follow (start + t.text.size) ts

theorem Follow.append {start : Nat} {ts us : List Token} (h : Follow start (ts ++ us)) :
    Follow start ts ∧ Follow (start + Text.size (ts.flatMap (·.text))) us := by
  induction ts generalizing start with
  | nil => exact ⟨trivial, by simpa using h⟩
  | cons t ts ih =>
    obtain ⟨here, there⟩ := ih h.2
    refine ⟨⟨h.1, here⟩, ?_⟩
    rw [List.flatMap_cons, Text.size_append, ← Nat.add_assoc]
    exact there

theorem follow_list (t : Text) : Follow 0 (list t) := by
  obtain ⟨ts, row, inRow, spells⟩ := listFrom_inRow 0 t
  have : ∀ {start : Nat} {ts : List Token} (last : Token), InRow start ts →
      last.offset = start + Text.size (ts.flatMap (·.text)) → Follow start (ts ++ [last]) := by
    intro start ts last
    induction ts generalizing start with
    | nil => exact fun _ h => ⟨by simpa using h, trivial⟩
    | cons t ts ih =>
      intro inRow at_end
      refine ⟨inRow.1, ih inRow.2.2.2 ?_⟩
      rw [at_end, List.flatMap_cons, Text.size_append, Nat.add_assoc]
  rw [list, row]
  exact this _ inRow (by rw [spells])

theorem head?_dropWhile_trivia (ts : List Token) :
    ∀ t ∈ (ts.dropWhile (·.isTrivia)).head?, t.isTrivia = false := by
  intro t ht
  have := List.head?_dropWhile_not (·.isTrivia) ts
  rw [Option.mem_def.mp ht] at this
  simpa using this

theorem span_of_diagnostic? {t : Token} {d : Diagnostic} (h : t.diagnostic? = some d) :
    d.span = t.span := by
  obtain ⟨fault, -, rfl⟩ := Option.map_eq_some_iff.mp h
  rfl

end Token

open Green Token

namespace Sprout

/-- Where the reports of what has grown from the tokens `ts` are anchored: each is at a leaf or waits
for the next token. What was waiting before has found its leaf or still waits. -/
structure Anchored (s : Sprout) (stop base : Nat) (ts : List Token) : Prop where
  rest : Follow (base + sizeOfLeaves (leavesOf s.greens)) s.rest
  waiting : AtLeaf base (leavesOf s.greens) (anchor stop ts) ∨ anchor stop ts = anchor stop s.rest
  reports : ∀ d ∈ s.reports,
    AtLeaf base (leavesOf s.greens) d.span ∨ d.span = anchor stop s.rest

/-- What has grown has a leaf for each of its reports. -/
def Settled (s : Sprout) (base : Nat) : Prop :=
  ∀ d ∈ s.reports, AtLeaf base (leavesOf s.greens) d.span

theorem Settled.andThen {base : Nat} {a : Sprout} {next : List Token → Sprout} (ha : a.Settled base)
    (hn : (next a.rest).Settled (base + sizeOfLeaves (leavesOf a.greens))) :
    (a.andThen next).Settled base := by
  intro d hd
  rw [show leavesOf (a.andThen next).greens = leavesOf a.greens ++ leavesOf (next a.rest).greens from
    leavesOf_append _ _]
  rcases List.mem_append.mp hd with hd | hd
  · exact (ha d hd).append_right _
  · exact (hn d hd).append_left

namespace Anchored

variable {stop base : Nat} {ts : List Token}

theorem nil (h : Follow base ts) : Anchored ⟨[], [], ts⟩ stop base ts :=
  ⟨by simpa [leavesOf] using h, .inr rfl, fun _ hd => absurd hd List.not_mem_nil⟩

theorem andThen {a : Sprout} {next : List Token → Sprout} (ha : a.Anchored stop base ts)
    (hn : (next a.rest).Anchored stop (base + sizeOfLeaves (leavesOf a.greens)) a.rest) :
    (a.andThen next).Anchored stop base ts := by
  have leaves : leavesOf (a.andThen next).greens =
      leavesOf a.greens ++ leavesOf (next a.rest).greens := leavesOf_append _ _
  have onward {s : Span}
      (h : AtLeaf base (leavesOf a.greens) s ∨ s = anchor stop a.rest) :
      AtLeaf base (leavesOf (a.andThen next).greens) s ∨ s = anchor stop (next a.rest).rest := by
    rw [leaves]
    rcases h with h | rfl
    · exact .inl (h.append_right _)
    · exact hn.waiting.imp_left fun h => h.append_left
  refine ⟨?_, onward ha.waiting, fun d hd => ?_⟩
  · rw [leaves, sizeOfLeaves_append, ← Nat.add_assoc]
    exact hn.rest
  · rcases List.mem_append.mp hd with hd | hd
    · exact onward (ha.reports d hd)
    · rw [leaves]
      exact (hn.reports d hd).imp_left fun h => h.append_left

theorem under {a : Sprout} (h : a.Anchored stop base ts) (k : Kind) :
    (a.under k).Anchored stop base ts := by
  have leaves : leavesOf (a.under k).greens = leavesOf a.greens := by
    simp [Sprout.under, leavesOf]
  exact ⟨leaves ▸ h.rest, leaves ▸ h.waiting, leaves ▸ h.reports⟩

theorem sizeOfLeaves_leaf (placed : List Token) :
    sizeOfLeaves (leavesOf (placed.map leaf)) = Text.size (placed.flatMap (·.text)) := by
  rw [leavesOf_map_leaf, sizeOfLeaves, List.flatMap_map]
  rfl

/-- Each of some tokens is at the leaf that it makes. -/
theorem atLeaf_placed {placed : List Token} (h : Follow base placed) :
    ∀ t ∈ placed, AtLeaf base (leavesOf (placed.map leaf)) t.span := by
  induction placed generalizing base with
  | nil => exact fun t ht => absurd ht List.not_mem_nil
  | cons first placed ih =>
    intro t ht
    rw [List.map_cons, leavesOf]
    rcases List.mem_cons.mp ht with rfl | ht
    · exact .head _ h.1 (Nat.le_refl _)
    · refine .append_left ?_
      rw [show sizeOfLeaves (leaves (leaf first)) = first.text.size by simp [leaf, leaves]]
      exact ih h.2 t ht

theorem settled_ofTokens {placed : List Token} (h : Follow base placed) (rest : List Token) :
    (Sprout.ofTokens placed rest).Settled base := by
  intro d hd
  obtain ⟨t, ht, fault⟩ := List.mem_filterMap.mp hd
  rw [span_of_diagnostic? fault]
  exact atLeaf_placed h t ht

theorem ofTokens (stop : Nat) {placed rest : List Token} (h : Follow base (placed ++ rest))
    (trivia : ∀ t ∈ placed, t.isTrivia = true) :
    (Sprout.ofTokens placed rest).Anchored stop base (placed ++ rest) := by
  obtain ⟨here, there⟩ := h.append
  refine ⟨?_, .inr ?_, fun d hd => .inl (settled_ofTokens here rest d hd)⟩
  · rw [Sprout.ofTokens, sizeOfLeaves_leaf]
    exact there
  · rw [anchor, List.find?_append, List.find?_eq_none.mpr fun t ht => by simp [trivia t ht]]
    rfl

theorem trivia (stop : Nat) (h : Follow base ts) : (Sprout.trivia ts).Anchored stop base ts := by
  have parts := List.takeWhile_append_dropWhile (p := (·.isTrivia)) (l := ts)
  have := ofTokens stop (by rwa [parts]) fun t ht => List.mem_takeWhile_imp ht
  rwa [parts] at this

theorem outer (stop : Nat) (k : Kind) (h : Follow base ts) :
    (Sprout.outer k ts).Anchored stop base ts := by
  have parts : (ts.takeWhile (·.isTrivia)).take
        ((ts.takeWhile (·.isTrivia)).length - attachedCount k (ts.takeWhile (·.isTrivia))) ++
      (Sprout.outer k ts).rest = ts := by
    simp [Sprout.outer, Sprout.ofTokens, ← List.append_assoc]
  have := ofTokens stop (by rwa [parts])
    fun t ht => List.mem_takeWhile_imp (List.mem_of_mem_take ht)
  rwa [parts] at this

/-- A token of the tree behind its trivia. Nothing waits behind it. -/
theorem settled_taken (k : Kind) {n : Nat} (hn : 0 < n) {t : Token} {ts : List Token}
    (h : Follow base (t :: ts)) (seen : t.isTrivia = false) :
    AtLeaf base (leavesOf (Sprout.taken k n (t :: ts)).greens) (anchor stop (t :: ts)) ∧
      (Sprout.taken k n (t :: ts)).Settled base := by
  obtain ⟨n, rfl⟩ : ∃ m, n = m + 1 := ⟨n - 1, by omega⟩
  have leaves : leavesOf (Sprout.taken k (n + 1) (t :: ts)).greens =
      [(k, t.text ++ (ts.take n).flatMap (·.text))] := by
    simp [Sprout.taken, leavesOf, Green.leaves]
  have here : AtLeaf base (leavesOf (Sprout.taken k (n + 1) (t :: ts)).greens) t.span := by
    rw [leaves]
    exact .head _ h.1 (by simp [Token.span])
  refine ⟨by rwa [show anchor stop (t :: ts) = t.span by simp [anchor, seen]], fun d hd => ?_⟩
  have single : t.diagnostic? = some d := by
    simp only [Sprout.taken, List.take_succ_cons] at hd
    split at hd
    · next first only =>
      obtain ⟨rfl, -⟩ := List.cons.inj only
      exact Option.mem_toList.mp hd
    · exact absurd hd List.not_mem_nil
  rwa [span_of_diagnostic? single]

theorem taken (k : Kind) (n : Nat) (h : Follow base ts) (seen : ∀ t ∈ ts.head?, t.isTrivia = false) :
    (Sprout.taken k n ts).Anchored stop base ts := by
  have rest : Follow (base + sizeOfLeaves (leavesOf (Sprout.taken k n ts).greens))
      (Sprout.taken k n ts).rest := by
    have follow : Follow base (ts.take n ++ ts.drop n) := by rwa [List.take_append_drop]
    simpa [Sprout.taken, leavesOf, Green.leaves] using follow.append.2
  cases ts with
  | nil => exact ⟨rest, .inr (by simp [Sprout.taken]), fun d hd => by simp [Sprout.taken] at hd⟩
  | cons t ts =>
    cases n with
    | zero => exact ⟨rest, .inr rfl, fun d hd => by simp [Sprout.taken] at hd⟩
    | succ n =>
      obtain ⟨waiting, reports⟩ := settled_taken k (Nat.succ_pos n) h (seen t rfl)
      exact ⟨rest, .inl waiting, fun d hd => .inl (reports d hd)⟩

theorem settled_trivia (h : Follow base ts) : (Sprout.trivia ts).Settled base := by
  have parts := List.takeWhile_append_dropWhile (p := (·.isTrivia)) (l := ts)
  exact settled_ofTokens (by rw [← parts] at h; exact h.append.1) _

/-- A token settles all that waits in front of it. -/
theorem settled_token {a : Sprout} (h : a.Anchored stop base ts) (k : Kind)
    (more : ∃ t ∈ a.rest, t.isTrivia = false) :
    (a.andThen (Outline.grow stop (.token k 1))).Settled base := by
  have ahead := trivia stop h.rest
  obtain ⟨t, later, behind⟩ : ∃ t later, (Sprout.trivia a.rest).rest = t :: later := by
    obtain ⟨t, ht, seen⟩ := more
    change ∃ t later, a.rest.dropWhile (·.isTrivia) = t :: later
    cases hd : a.rest.dropWhile (·.isTrivia) with
    | nil =>
      have := List.dropWhile_eq_nil_iff.mp hd t ht
      simp [seen] at this
    | cons t later => exact ⟨t, later, rfl⟩
  have seen : t.isTrivia = false :=
    head?_dropWhile_trivia a.rest t (by rw [show a.rest.dropWhile _ = _ from behind]; rfl)
  have follow := ahead.rest
  rw [behind] at follow
  obtain ⟨here, reports⟩ := settled_taken k Nat.one_pos follow seen
  have leaves : leavesOf (a.andThen (Outline.grow stop (.token k 1))).greens = leavesOf a.greens ++
      (leavesOf (Sprout.trivia a.rest).greens ++
        leavesOf (Sprout.taken k 1 (t :: later)).greens) := by
    simp [Sprout.andThen, Outline.grow, leavesOf_append, behind]
  have waiting : AtLeaf base (leavesOf (a.andThen (Outline.grow stop (.token k 1))).greens)
      (anchor stop a.rest) := by
    rw [leaves]
    refine .append_left ?_
    rcases ahead.waiting with first | same
    · exact first.append_right _
    · refine .append_left ?_
      rwa [same, behind]
  intro d hd
  rcases List.mem_append.mp hd with hd | hd
  · rcases h.reports d hd with first | same
    · rw [leaves]
      exact first.append_right _
    · rwa [same]
  · rw [leaves]
    refine .append_left ?_
    rcases List.mem_append.mp hd with hd | hd
    · exact (settled_trivia h.rest d hd).append_right _
    · rw [behind] at hd
      exact (reports d hd).append_left

end Anchored

end Sprout

namespace Outline

mutual
/-- What is reported while a tree grows is anchored at its leaves, or waits for the next token. -/
theorem anchored_grow (stop : Nat) : ∀ (o : Outline) {base : Nat} {ts : List Token}, Follow base ts →
    (o.grow stop ts).Anchored stop base ts
  | .token k n, base, ts, h => by
    have ahead := Sprout.Anchored.trivia stop h
    exact ahead.andThen (.taken k n ahead.rest (head?_dropWhile_trivia ts))
  | .error cause, base, ts, h =>
    ⟨by simpa [grow, leavesOf] using h, .inr rfl, fun d hd => by
      rw [grow, List.mem_singleton] at hd
      exact .inr (by rw [hd]; rfl)⟩
  | .fault _, base, ts, h => .nil h
  | .void, base, ts, h => .nil h
  | .node k row, base, ts, h => by
    have outside := Sprout.Anchored.outer stop k h
    have ahead := Sprout.Anchored.trivia stop outside.rest
    rw [grow]
    exact outside.andThen ((ahead.andThen (anchored_growOf stop row ahead.rest)).under k)
  | .around k inner row, base, ts, h => by
    have outside := Sprout.Anchored.outer stop k h
    have ahead := Sprout.Anchored.trivia stop outside.rest
    have first := anchored_grow stop inner ahead.rest
    rw [grow]
    exact outside.andThen
      ((ahead.andThen (first.andThen (anchored_growOf stop row first.rest))).under k)

theorem anchored_growOf (stop : Nat) : ∀ (row : List Outline) {base : Nat} {ts : List Token},
    Follow base ts → (growOf stop row ts).Anchored stop base ts
  | [], base, ts, h => .nil h
  | o :: older, base, ts, h => by
    have before := anchored_growOf stop older h
    rw [growOf]
    exact before.andThen (anchored_grow stop o before.rest)
end

end Outline

/-! ## One diagnostic for each offset -/

namespace Diagnostic

/-- Diagnostics that all start at different offsets. -/
def Distinct (ds : List Diagnostic) : Prop := (ds.map (·.span.start)).Nodup

/-- Keeping one of several diagnostics with the same start leaves them distinct and adds none. -/
theorem foldl_keep (ds : List Diagnostic) (known : Array Diagnostic) (h : Distinct known.toList) :
    Distinct (ds.foldl keep known).toList ∧
      ∀ d ∈ (ds.foldl keep known).toList, d ∈ known.toList ∨ d ∈ ds := by
  induction ds generalizing known with
  | nil => exact ⟨h, fun d hd => .inl hd⟩
  | cons d ds ih =>
    rw [List.foldl_cons]
    have step : Distinct (keep known d).toList ∧ ∀ e ∈ (keep known d).toList, e ∈ known.toList ∨ e = d := by
      unfold keep
      split
      · exact ⟨h, fun e he => .inl he⟩
      · next fresh =>
        have apart : d.span.start ∉ known.toList.map (·.span.start) := by
          intro hm
          obtain ⟨e, he, same⟩ := List.mem_map.mp hm
          refine fresh (Array.any_eq_true'.mpr ⟨e, Array.mem_toList_iff.mp he, ?_⟩)
          simp [same]
        refine ⟨?_, fun e he => ?_⟩
        · rw [Distinct, Array.toList_push, List.map_append, List.nodup_append]
          refine ⟨h, List.nodup_singleton _, ?_⟩
          rintro a ha b hb rfl
          exact apart (by simpa [List.mem_singleton.mp hb] using ha)
        · rw [Array.toList_push, List.mem_append, List.mem_singleton] at he
          exact he
    obtain ⟨distinct, mem⟩ := ih _ step.1
    refine ⟨distinct, fun e he => ?_⟩
    rcases mem e he with he | he
    · exact (step.2 e he).imp_right fun same => List.mem_cons.mpr (.inl same)
    · exact .inr (List.mem_cons_of_mem _ he)

end Diagnostic

end Verbatim
