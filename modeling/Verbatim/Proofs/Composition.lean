import Verbatim.Proofs.Braces
import Verbatim.Proofs.Endings
import Verbatim.Proofs.Regrowth

/-!
# Files compose

A file without diagnostics, a line break, and any other file make a file of the items of both. The two are
read one behind the other and grow one behind the other: what the first one leaves are the tokens of the
second, but for trivia that it has taken over. Where one of those is malformed the second file has no words,
and both report just what is malformed.
-/
namespace Verbatim

open Green Token Outline

/-! ## The tokens of both texts -/

namespace Token

/-- Tokens for which something can be reported: those that are no trivia or are malformed. -/
def isLoud (t : Token) : Bool := !t.isTrivia || t.fault.isSome

theorem keeps_visible : Keeps (!·.isTrivia) := fun t h => by simp [h]

theorem keeps_loud : Keeps isLoud := fun t h => by simp [isLoud, h]

theorem sound_loud (ts : List Token) : Sound isLoud ts := fun t _ h => by
  simpa [isLoud] using (Bool.or_eq_false_iff.mp h).2

theorem listFrom_eq_map (n : Nat) (t : Text) : listFrom n t = (list t).map (moved n) := by
  rw [list, ← listFrom_moved, Nat.zero_add]

theorem filter_map_moved {keep : Token → Bool} (n : Nat) (h : ∀ t : Token, keep (t.moved n) = keep t)
    (ts : List Token) : (ts.map (moved n)).filter keep = (ts.filter keep).map (moved n) := by
  rw [List.filter_map, show keep ∘ moved n = keep from funext h]

/-- The tokens that are kept of two texts with a line break in between, when no blanks are kept. -/
theorem filter_lineBreak (keep : Token → Bool) (s u : Text) (sound : ∀ x ∈ list s, x.fault = none)
    (blank : ∀ offset t, ∀ x ∈ listFrom offset t, x.kind = .whitespace → keep x = false) :
    (list (s ++ '\n' :: u)).filter keep = ((list s).filter keep).filter (·.kind != .eof) ++
      (listFrom (s.size + 1) u).filter keep := by
  have solid_keep (offset : Nat) (t : Text) :
      (listFrom offset t).filter keep = (solid (listFrom offset t)).filter keep := by
    rw [solid, List.filter_filter]
    refine List.filter_congr fun x hx => ?_
    cases hk : keep x
    · rfl
    · have : x.kind ≠ .whitespace := fun h => by simp [blank offset t x hx h] at hk
      simpa using this
  have seam := solid_lineBreak 0 s u fun x hx => sound x (List.mem_of_mem_filter hx)
  rw [Nat.zero_add] at seam
  rw [list, list, solid_keep, seam, solid_keep 0 s, solid_keep _ u, List.filter_append,
    List.filter_comm]

theorem visible_lineBreak (s u : Text) (sound : ∀ x ∈ list s, x.fault = none) :
    visible (list (s ++ '\n' :: u)) = words (list s) ++ (visible (list u)).map (moved (s.size + 1)) := by
  have seam := filter_lineBreak (!·.isTrivia) s u sound fun _ _ x _ h => by
    simp [isTrivia, h, Kind.isTrivia]
  rw [listFrom_eq_map, filter_map_moved _ fun t => rfl, List.filter_comm] at seam
  exact seam

theorem loud_lineBreak (s u : Text) (sound : ∀ x ∈ list s, x.fault = none) :
    (list (s ++ '\n' :: u)).filter isLoud =
      words (list s) ++ ((list u).filter isLoud).map (moved (s.size + 1)) := by
  have seam := filter_lineBreak isLoud s u sound fun offset t x hx h => by
    simp [isLoud, isTrivia, h, Kind.isTrivia, fault_whitespace offset t x hx h]
  rw [listFrom_eq_map, filter_map_moved _ fun t => rfl, List.filter_comm] at seam
  rw [seam]
  refine congrArg (· ++ _) (List.filter_congr fun x hx => ?_)
  simp [isLoud, sound x (List.mem_of_mem_filter hx)]

theorem words_lineBreak (s u : Text) (sound : ∀ x ∈ list s, x.fault = none) :
    words (list (s ++ '\n' :: u)) = words (list s) ++ (words (list u)).map (moved (s.size + 1)) := by
  have all (t : Text) : words (list t) = (visible (list t)).filter (·.kind != .eof) := List.filter_comm ..
  rw [all (s ++ '\n' :: u), visible_lineBreak s u sound, List.filter_append,
    filter_map_moved _ fun t => rfl, ← all u, all s, List.filter_filter]
  simp

/-- In front of the first word of a text nothing can be reported. -/
theorem loud_stops (t : Text) : ((list t).filter isLoud).takeWhile (·.isTrivia) = [] ∨
    words (list t) = [] := by
  refine (sound_before_word 0 t).imp (fun sound => ?_) fun all => ?_
  · change ∀ x ∈ (list t).takeWhile (·.isTrivia), _ at sound
    rw [(keeps_loud.takeWhile_filter (list t)).1]
    refine List.filter_eq_nil_iff.mpr fun x hx => ?_
    have trivia : x.isTrivia = true := List.mem_takeWhile_imp hx
    simp [isLoud, trivia, sound x hx]
  · refine List.filter_eq_nil_iff.mpr fun x hx => ?_
    obtain ⟨mem, kind⟩ := List.mem_filter.mp hx
    rcases all x mem with h | h
    · simp [h]
    · simp [h] at kind

/-- What is malformed in two texts with a line break in between. -/
theorem faults_lineBreak (s u : Text) (sound : ∀ x ∈ list s, x.fault = none) :
    Sprout.faults (list (s ++ '\n' :: u)) =
      (Sprout.faults (list u)).map (Diagnostic.moved (s.size + 1)) := by
  have front : Sprout.faults (words (list s)) = [] := List.filterMap_eq_nil_iff.mpr fun x hx => by
    rw [diagnostic?, sound x (List.mem_of_mem_filter (List.mem_of_mem_filter hx))]
    rfl
  rw [← Keeps.faults_filter (sound_loud _), loud_lineBreak s u sound, Sprout.faults_append, front,
    Sprout.faults_moved, Keeps.faults_filter (sound_loud _), List.nil_append]

theorem seen_words (t : Text) : ∀ x ∈ words (list t), x.isTrivia = false := fun x hx => by
  simpa using (List.mem_filter.mp hx).2

theorem visible_stops (t : Text) : (visible (list t)).takeWhile (·.isTrivia) = [] := by
  rw [visible, (keeps_visible.takeWhile_filter _).1]
  refine List.filter_eq_nil_iff.mpr fun x hx => ?_
  have trivia : x.isTrivia = true := List.mem_takeWhile_imp hx
  simp [trivia]

theorem stops_moved (n : Nat) {ts : List Token} (h : ts.takeWhile (·.isTrivia) = []) :
    (ts.map (moved n)).takeWhile (·.isTrivia) = [] := by
  rw [(Sprout.takeWhile_moved n ts).1, h]
  rfl

theorem touching_moved (n : Nat) (ts : List Token) : touching (ts.map (moved n)) = touching ts := by
  induction ts with
  | nil => rfl
  | cons t ts ih =>
    rw [List.map_cons, touching, touching, ih]
    cases ts with
    | nil => rfl
    | cons u us =>
      simp only [List.map_cons, List.head?_cons, Option.map_some, Option.getD_some, List.cons.injEq,
        and_true]
      rw [Bool.eq_iff_iff]
      simp only [moved, span, Span.stop, beq_iff_eq]
      omega

theorem touching_append (ts us : List Token) :
    (∀ i, i + 1 < ts.length → (touching (ts ++ us))[i]? = (touching ts)[i]?) ∧
      ∀ i, (touching (ts ++ us))[i + ts.length]? = (touching us)[i]? := by
  induction ts with
  | nil => simp
  | cons t ts ih =>
    refine ⟨fun i hi => ?_, fun i => ?_⟩
    · rw [List.cons_append, touching, touching]
      cases i with
      | zero =>
        cases ts with
        | nil => simp at hi
        | cons u ts => rfl
      | succ i =>
        rw [List.getElem?_cons_succ, List.getElem?_cons_succ]
        exact ih.1 i (by simpa using hi)
    · rw [List.cons_append, touching, List.length_cons, ← Nat.add_assoc, List.getElem?_cons_succ]
      exact ih.2 i

end Token

open Token

namespace Input

theorem length_list (t : Text) : (ofTokens (Token.list t)).length = (words (Token.list t)).length := by
  rw [length, ← Array.length_toList, kinds_ofTokens_list, List.length_map]

/-- What the parser sees of two texts with a line break in between. -/
theorem spliced_lineBreak (s u : Text) (sound : ∀ x ∈ Token.list s, x.fault = none) :
    Parser.Spliced (ofTokens (Token.list s)) (ofTokens (Token.list u))
      (ofTokens (Token.list (s ++ '\n' :: u))) := by
  obtain ⟨front, back⟩ := touching_append (words (Token.list s))
    ((words (Token.list u)).map (moved (s.size + 1)))
  have kinds : ((words (Token.list u)).map (moved (s.size + 1))).map (·.kind) =
      (words (Token.list u)).map (·.kind) := by
    rw [List.map_map]
    rfl
  refine ⟨?_, fun i hi => ?_, fun i hi => ?_, fun i => ?_, fun i => ?_⟩
  · simp [length_list, words_lineBreak s u sound]
  · rw [length_list] at hi
    simp only [kind_eq_getElem?, kinds_ofTokens_list, words_lineBreak s u sound, List.map_append]
    rw [List.getElem?_append_left (by simpa using hi)]
  · rw [length_list] at hi
    simp only [isJoint_ofTokens_list, words_lineBreak s u sound]
    rw [front i hi]
  · rw [length_list]
    simp only [kind_eq_getElem?, kinds_ofTokens_list, words_lineBreak s u sound, List.map_append, kinds]
    rw [List.getElem?_append_right (by simp)]
    simp
  · rw [length_list]
    simp only [isJoint_ofTokens_list, words_lineBreak s u sound]
    rw [back i, touching_moved]

end Input

/-- The last token of a text ends where the text does. -/
theorem Replay.textEnd_list (t : Text) : textEnd (Token.list t) = t.size := by
  obtain ⟨ts, row, inRow, spells⟩ := listFrom_inRow 0 t
  rw [show Token.list t = _ from row, textEnd, List.filter_append, List.filter_eq_self.mpr fun x hx => by
    simpa using (Input.spelled_of_inRow inRow x hx).no_end, ← spells]
  have last (start : Nat) {ts : List Token} (h : InRow start ts) (x : Token) (hx : ts.getLast? = some x) :
      x.span.stop = start + Text.size (ts.flatMap (·.text)) := by
    induction ts generalizing start with
    | nil => simp at hx
    | cons first ts ih =>
      rw [List.flatMap_cons, Text.size_append, ← Nat.add_assoc]
      cases ts with
      | nil =>
        obtain rfl : first = x := by simpa using hx
        simp [Token.span, Span.stop, h.1]
      | cons next ts => exact ih _ h.2.2.2 (by simpa using hx)
  cases h : ts.getLast? with
  | none => simp [List.getLast?_eq_none_iff.mp h]
  | some x => simpa [h] using last 0 inRow x h

theorem Replay.textEnd_lineBreak (s u : Text) : textEnd (Token.list (s ++ '\n' :: u)) =
    textEnd (Token.list u) + (s.size + 1) := by
  have newline : Char.utf8Size '\n' = 1 := rfl
  rw [textEnd_list, textEnd_list, Text.size_append, Text.size_cons, newline]
  omega

/-! ## Growing over both texts -/

namespace Outline

variable {input : Input} {keep : Token → Bool}

/-- What a quiet outline leaves of the tokens that are kept, where it takes all in front. -/
theorem growOf_ahead (keeps : Keeps keep) (stop stop' : Nat) {row : List Outline} {ts front back : List Token}
    (lexed : Lexed ts) (aligned : input.Aligned ts 0) (fits : FitsOf input row 0) (quiet : QuietOf row)
    (split : ts.filter keep = front ++ back) (bordered : Bordered front back)
    (width : widthOf row = front.length) :
    bareOf (growOf stop' row ts).greens = bareOf (growOf stop row front).greens ∧
      (growOf stop' row ts).rest.filter keep = back := by
  have sifted := sifted_growOf keeps stop' row lexed aligned fits
  obtain ⟨grown, -⟩ := growOf_front stop stop' row bordered quiet (Nat.le_of_eq width)
  have bare := sifted.bare
  have rest := sifted.rest
  rw [split, grown] at bare rest
  refine ⟨bare, rest.symm.trans ?_⟩
  rw [width, List.drop_length]
  rfl

/-- What grows over tokens of which the same are kept, but for where the texts start. -/
theorem growOf_again (keeps : Keeps keep) {input' : Input} {n : Nat} (stop : Nat) {row : List Outline}
    {ts us : List Token} {i j : Nat} (lexed : Lexed ts) (aligned : input.Aligned ts i)
    (fits : FitsOf input row i) (lexed' : Lexed us) (aligned' : input'.Aligned us j)
    (fits' : FitsOf input' row j) (same : us.filter keep = (ts.filter keep).map (moved n)) :
    bareOf ((growOf (stop + n) row us).andThen Sprout.trivia).greens =
        bareOf ((growOf stop row ts).andThen Sprout.trivia).greens ∧
      (Sound keep ts → Sound keep us → ((growOf (stop + n) row us).andThen Sprout.trivia).reports =
        ((growOf stop row ts).andThen Sprout.trivia).reports.map (Diagnostic.moved n)) := by
  have sift {input : Input} {ts : List Token} {i : Nat} (stop : Nat) (lexed : Lexed ts)
      (aligned : input.Aligned ts i) (fits : FitsOf input row i) :
      Sifted keep ts ((growOf stop row ts).andThen Sprout.trivia)
        ((growOf stop row (ts.filter keep)).andThen Sprout.trivia) := by
    obtain ⟨used, shows, -⟩ := shows_growOf stop row lexed aligned fits
    exact (sifted_growOf keeps stop row lexed aligned fits).andThen shows.sub (keeps.trivia _)
  have left := sift stop lexed aligned fits
  have right := sift (stop + n) lexed' aligned' fits'
  have moved : (growOf (stop + n) row (us.filter keep)).andThen Sprout.trivia =
      ((growOf stop row (ts.filter keep)).andThen Sprout.trivia).moved n := by
    rw [same, growOf_moved]
    exact Sprout.andThen_moved n _ _ (Sprout.trivia_moved n _)
  rw [moved] at right
  refine ⟨right.bare.trans left.bare.symm, fun sound sound' => ?_⟩
  rw [right.reports sound', left.reports sound]
  rfl

/-- The tokens of an outline are all that the parser sees of a text. -/
structure Spans (t : Text) (row : List Outline) : Prop where
  fits : FitsOf (.ofTokens (Token.list t)) row 0
  all : widthOf row = (Input.ofTokens (Token.list t)).length

theorem Spans.words {t : Text} {row : List Outline} (h : Spans t row) :
    widthOf row = (words (Token.list t)).length := h.all.trans (Input.length_list t)

/-- A quiet outline of a whole text reports what is malformed in it. -/
theorem reports_whole {t : Text} {row : List Outline} (h : Spans t row) (quiet : QuietOf row) :
    (whole row (Token.list t)).reports = Sprout.faults (Token.list t) := by
  obtain ⟨ts, split, -, -, shows⟩ := shows_whole h.fits h.all
  have accounts := (accounts_growOf (Replay.textEnd (Token.list t)) row (lexed_list t)
    (Token.fault_list t) (Input.aligned_start _) h.fits quiet).andThen (.trivia _)
  have rest : (whole row (Token.list t)).rest = [⟨.eof, [], t.size, none⟩] :=
    List.append_cancel_left (shows.split.symm.trans split)
  change (whole row (Token.list t)).reports ++ Sprout.faults (whole row (Token.list t)).rest = _ at accounts
  rw [rest] at accounts
  exact (List.append_nil _).symm.trans accounts

/-- An outline that reports nothing over a whole text is quiet, and no token of the text is malformed. -/
theorem sound_of_clean {t : Text} {row : List Outline} (h : Spans t row) (clean : CleanOf row)
    (silent : (whole row (Token.list t)).reports = []) :
    QuietOf row ∧ ∀ x ∈ Token.list t, x.fault = none := by
  have quiet := quiet_of_growOf _ row clean (List.append_eq_nil_iff.mp silent).1
  refine ⟨quiet, fun x hx => ?_⟩
  rw [reports_whole h quiet] at silent
  simpa [Token.diagnostic?] using List.filterMap_eq_nil_iff.mp silent x hx

theorem whole_append (new old : List Outline) (ts : List Token) : whole (new ++ old) ts =
    (growOf (Replay.textEnd ts) old ts).andThen fun rest =>
      (growOf (Replay.textEnd ts) new rest).andThen Sprout.trivia := by
  rw [whole, growOf_append]
  simp only [Sprout.andThen, List.append_assoc]

/-- But for trivia, what grows of a quiet outline over a text grows over its words. -/
theorem bareOf_whole {t : Text} {row : List Outline} (h : Spans t row) (quiet : QuietOf row) :
    bareOf (whole row (Token.list t)).greens = bareOf (growOf 0 row (words (Token.list t))).greens := by
  obtain ⟨alone, -⟩ := growOf_ahead keeps_visible 0 (Replay.textEnd (Token.list t)) (lexed_list t)
    (Input.aligned_start _) h.fits quiet (Parse.visible_list t).1 ⟨seen_words t, rfl⟩ h.words
  have trailing : bareOf (Sprout.trivia (growOf (Replay.textEnd (Token.list t)) row
      (Token.list t)).rest).greens = [] := bareOf_of_trivia fun t ht => List.mem_takeWhile_imp ht
  simp only [whole, Sprout.andThen, bareOf_append, trailing, List.append_nil, alone]

/-- Over a text without malformed tokens, a line break, and another text grows what grows over either. -/
theorem whole_lineBreak {s u : Text} {row row' : List Outline} (front : Spans s row) (quiet : QuietOf row)
    (sound : ∀ x ∈ Token.list s, x.fault = none) (back : Spans u row')
    (both : Spans (s ++ '\n' :: u) (row' ++ row)) (empty : words (Token.list u) = [] → row' = []) :
    bareOf (whole (row' ++ row) (Token.list (s ++ '\n' :: u))).greens =
        bareOf (whole row (Token.list s)).greens ++ bareOf (whole row' (Token.list u)).greens ∧
      (whole (row' ++ row) (Token.list (s ++ '\n' :: u))).reports =
        (whole row' (Token.list u)).reports.map (Diagnostic.moved (s.size + 1)) := by
  have lexed := lexed_list (s ++ '\n' :: u)
  have aligned := Input.aligned_start (Token.list (s ++ '\n' :: u))
  obtain ⟨first, second⟩ := fitsOf_append.mp both.fits
  rw [Nat.zero_add] at second
  let stop := Replay.textEnd (Token.list u) + (s.size + 1)
  obtain ⟨used, shows, left⟩ := shows_growOf stop row lexed aligned first
  rw [Nat.zero_add] at left
  have accounts := accounts_growOf stop row lexed (Token.fault_list _) aligned first quiet
  -- What the first text leaves is the second one, but for trivia.
  obtain ⟨bare, rest⟩ := growOf_ahead keeps_visible 0 stop lexed aligned first quiet
    (visible_lineBreak s u sound) ⟨seen_words s, stops_moved _ (visible_stops u)⟩ front.words
  have again := (growOf_again keeps_visible (Replay.textEnd (Token.list u)) (lexed_list u)
    (Input.aligned_start _) back.fits (lexed.rest shows) left second rest).1
  refine ⟨?_, ?_⟩
  · rw [whole_append, Replay.textEnd_lineBreak, Sprout.andThen, bareOf_append, bare, bareOf_whole front quiet]
    exact congrArg _ again
  rcases loud_stops u with calm | none
  · obtain ⟨-, loud⟩ := growOf_ahead keeps_loud 0 stop lexed aligned first quiet
      (loud_lineBreak s u sound) ⟨seen_words s, stops_moved _ calm⟩ front.words
    have again := (growOf_again keeps_loud (Replay.textEnd (Token.list u)) (lexed_list u)
      (Input.aligned_start _) back.fits (lexed.rest shows) left second loud).2 (sound_loud _) (sound_loud _)
    rw [Accounts, ← Keeps.faults_filter (sound_loud (growOf _ _ _).rest), loud, Sprout.faults_moved,
      Keeps.faults_filter (sound_loud _), faults_lineBreak s u sound] at accounts
    rw [whole_append, Replay.textEnd_lineBreak, Sprout.andThen, List.append_left_eq_self.mp accounts]
    exact again
  · obtain rfl := empty none
    rw [reports_whole both quiet, reports_whole back trivial, faults_lineBreak s u sound]

end Outline

/-! ## The diagnostics that are kept -/

namespace Diagnostic

theorem known_subset_foldl_keep (ds : List Diagnostic) {known : Array Diagnostic} {d : Diagnostic}
    (h : d ∈ known) : d ∈ ds.foldl keep known := by
  induction ds generalizing known with
  | nil => exact h
  | cons e ds ih =>
    refine ih ?_
    rw [keep]
    split
    · exact h
    · exact Array.mem_push_of_mem _ h

/-- Of some diagnostics at least one is kept. -/
theorem eq_nil_of_foldl_keep {ds : List Diagnostic} (h : (ds.foldl keep #[]).toList = []) : ds = [] := by
  cases ds with
  | nil => rfl
  | cons d ds =>
    have kept : d ∈ ds.foldl keep (keep #[] d) := known_subset_foldl_keep ds (by simp [keep])
    simp only [List.foldl_cons, Array.toList_eq_nil_iff] at h
    simp [h] at kept

theorem foldl_keep_moved (n : Nat) (ds : List Diagnostic) (known : Array Diagnostic) :
    (ds.map (moved n)).foldl keep (known.map (moved n)) = (ds.foldl keep known).map (moved n) := by
  induction ds generalizing known with
  | nil => rfl
  | cons d ds ih =>
    rw [List.map_cons, List.foldl_cons, List.foldl_cons, ← ih]
    congr 1
    have same : (known.map (moved n)).any (·.span.start == (d.moved n).span.start) =
        known.any (·.span.start == d.span.start) := by
      rw [Array.any_map]
      refine congrArg (known.any ·) (funext fun e => ?_)
      rw [Bool.eq_iff_iff]
      simp [moved, Span.shift]
    rw [keep, keep, same]
    split
    · rfl
    · rw [Array.map_push]

end Diagnostic

namespace Parse

open Verbatim.Parser

/-- Files compose: behind a text without diagnostics and a line break, any text is parsed as if it stood
alone. But for trivia, the root has the children of both, and the diagnostics are those of the second text,
moved to where it starts. -/
theorem ofText_lineBreak (s u : Text) {p : Parse} (parsed : ofText s = .ok p) (clean : p.diagnostics = []) :
    ∃ q r, ofText u = .ok q ∧ ofText (s ++ '\n' :: u) = .ok r ∧
      r.tree.bare = .branch .sourceFile (p.tree.bare.children ++ q.tree.bare.children) ∧
      r.diagnostics = q.diagnostics.map (Diagnostic.moved (s.size + 1)) := by
  obtain ⟨row, outlined, made, fits, all, run⟩ := ofText_eq s
  obtain ⟨row', outlined', -, fits', all', run'⟩ := ofText_eq u
  obtain ⟨both, outlined_both, -, fits_both, all_both, run_both⟩ := ofText_eq (s ++ '\n' :: u)
  obtain rfl := Except.ok.inj ((ofText_of_byProgram run).symm.trans parsed)
  obtain ⟨quiet, sound⟩ :=
    sound_of_clean ⟨fits, all⟩ made.2 (Diagnostic.eq_nil_of_foldl_keep clean)
  have joined := outline_spliced (Input.spliced_lineBreak s u sound)
    (fun i hi end_at => absurd ((Input.kind_ofTokens_list s i).2 end_at) (by omega)) outlined quiet outlined'
  obtain rfl : both = row' ++ row := by
    simpa using congrArg Frame.row (outlined_both.symm.trans joined)
  have empty (none : words (Token.list u) = []) : row' = [] := by
    have nothing : outline sourceFile (Input.seeing [] []) = ⟨0, [.node .sourceFile []]⟩ := rfl
    rw [Input.ofTokens_list, none] at outlined'
    simpa using congrArg Frame.row (outlined'.symm.trans nothing)
  obtain ⟨bare, reports⟩ :=
    whole_lineBreak ⟨fits, all⟩ quiet sound ⟨fits', all'⟩ ⟨fits_both, all_both⟩ empty
  refine ⟨_, _, ofText_of_byProgram run', ofText_of_byProgram run_both, congrArg (branch _) bare, ?_⟩
  have kept := Diagnostic.foldl_keep_moved (s.size + 1) (whole row' (Token.list u)).reports #[]
  rw [← reports, Array.map_empty] at kept
  exact (congrArg Array.toList kept).trans Array.toList_map

/-- A function, and behind it a broken import. -/
theorem ofText_lineBreak_broken : ∃ p q r, ofText "fn f() -> u8;".toList = .ok p ∧ p.diagnostics = [] ∧
    ofText "use".toList = .ok q ∧ ofText "fn f() -> u8;\nuse".toList = .ok r ∧
      r.tree.bare = .branch .sourceFile (p.tree.bare.children ++ q.tree.bare.children) ∧
      r.diagnostics = q.diagnostics.map (Diagnostic.moved 14) := by
  have first : (ofText "fn f() -> u8;".toList).toOption.map (·.diagnostics) = some [] := by
    decide +kernel
  cases parsed : ofText "fn f() -> u8;".toList with
  | error fault =>
    rw [parsed] at first
    contradiction
  | ok p =>
    rw [parsed] at first
    have clean : p.diagnostics = [] := Option.some.inj first
    obtain ⟨q, r, second, both, bare, reports⟩ := ofText_lineBreak _ "use".toList parsed clean
    exact ⟨p, q, r, rfl, clean, second, both, bare, reports⟩

end Parse

end Verbatim
