import Verbatim.Proofs.Lookahead
import Verbatim.Token.Reader

/-!
# Where comments and raw strings end

A block comment ends behind the mark that brings its nesting back to zero, a raw string behind the first quote
that is followed by its fence. A text without such a place is taken to its end, and only then is one of these
tokens malformed.
-/
namespace Verbatim

namespace Text

/-- The first place where `part` stands in `t` is behind `before` and in front of `behind`. -/
structure First (part t before behind : Text) : Prop where
  split : t = before ++ (part ++ behind)
  least : ∀ n < before.length, ¬ part <+: t.drop n

/-- A part stands first at the front of a text, or else where it does in the rest. -/
theorem first_cons_iff {part t before behind : Text} {c : Char} : First part (c :: t) before behind ↔
    before = [] ∧ c :: t = part ++ behind ∨
      ¬ part <+: c :: t ∧ ∃ front, before = c :: front ∧ First part t front behind := by
  constructor
  · rintro ⟨split, least⟩
    cases before with
    | nil => exact .inl ⟨rfl, split⟩
    | cons d front =>
      obtain ⟨rfl, tail⟩ := List.cons.inj split
      exact .inr ⟨least 0 (Nat.succ_pos _), front, rfl, tail, fun n lt => least (n + 1) (Nat.succ_lt_succ lt)⟩
  · rintro (⟨rfl, split⟩ | ⟨apart, front, rfl, split, least⟩)
    · exact ⟨split, nofun⟩
    · refine ⟨congrArg (c :: ·) split, fun n lt => ?_⟩
      cases n with
      | zero => exact apart
      | succ n => exact least n (Nat.lt_of_succ_lt_succ lt)

end Text

/-! ## Block comments -/

namespace Token

/-- What a block comment is read as: its marks, and the characters between them. -/
inductive CommentMark where
  | opening | closing | plain (c : Char)
  deriving DecidableEq, Repr

namespace CommentMark

def text : CommentMark → Text
  | opening => ['/', '*']
  | closing => ['*', '/']
  | plain c => [c]

/-- What the marks in a row are written as. -/
def toText (ms : List CommentMark) : Text := ms.flatMap text

/-- A text read from left to right. Two marks never share a character. -/
def ofText : Text → List CommentMark
  | [] => []
  | '/' :: '*' :: t => opening :: ofText t
  | '*' :: '/' :: t => closing :: ofText t
  | c :: t => plain c :: ofText t

/-- By how much the openings outnumber the closings. -/
def nesting (ms : List CommentMark) : Int := ms.count opening - ms.count closing

theorem nesting_append (ms ns : List CommentMark) : nesting (ms ++ ns) = nesting ms + nesting ns := by
  simp only [nesting, List.count_append]
  omega

theorem nesting_closing : nesting [closing] = -1 := rfl

theorem depth_closing (depth : Nat) : ((depth + 1 : Nat) : Int) + nesting [closing] = depth := by
  rw [nesting_closing]
  omega

theorem toText_cons (m : CommentMark) (ms : List CommentMark) : toText (m :: ms) = m.text ++ toText ms :=
  List.flatMap_cons

/-- Nothing is lost in reading. -/
theorem toText_ofText (t : Text) : toText (ofText t) = t := by
  fun_induction ofText t with
  | case1 => rfl
  | case2 t ih => rw [toText_cons, ih]; rfl
  | case3 t ih => rw [toText_cons, ih]; rfl
  | case4 c t _ _ ih => rw [toText_cons, ih]; rfl

/-- Where `depth` comments are open in front of `ms`, the closing mark between `inside` and `outside` is the
first behind which none is. -/
structure Closes (depth : Int) (ms inside outside : List CommentMark) : Prop where
  split : ms = inside ++ closing :: outside
  closed : depth + nesting (inside ++ [closing]) = 0
  still : ∀ n ≤ inside.length, depth + nesting (inside.take n) ≠ 0

/-- The next mark is the one that closes all, or the search goes on behind it. -/
theorem closes_cons_iff {depth : Int} {m : CommentMark} {ms inside outside : List CommentMark} :
    Closes depth (m :: ms) inside outside ↔ depth ≠ 0 ∧
      (inside = [] ∧ m = closing ∧ outside = ms ∧ depth = 1 ∨
        ∃ front, inside = m :: front ∧ Closes (depth + nesting [m]) ms front outside) := by
  constructor
  · rintro ⟨split, closed, still⟩
    refine ⟨by simpa [nesting] using still 0 (Nat.zero_le _), ?_⟩
    cases inside with
    | nil =>
      obtain ⟨rfl, rfl⟩ := List.cons.inj split
      rw [List.nil_append, nesting_closing] at closed
      exact .inl ⟨rfl, rfl, rfl, by omega⟩
    | cons d front =>
      obtain ⟨rfl, tail⟩ := List.cons.inj split
      refine .inr ⟨front, rfl, tail, ?_, fun n le => ?_⟩
      · rwa [Int.add_assoc, ← nesting_append]
      · rw [Int.add_assoc, ← nesting_append]
        exact still (n + 1) (Nat.succ_le_succ le)
  · rintro ⟨opened, ⟨rfl, rfl, rfl, rfl⟩ | ⟨front, rfl, split, closed, still⟩⟩
    · exact ⟨rfl, rfl, fun n le => by rwa [Nat.le_zero.mp le]⟩
    · rw [Int.add_assoc, ← nesting_append] at closed
      refine ⟨congrArg (m :: ·) split, closed, fun n le => ?_⟩
      cases n with
      | zero => simpa [nesting] using opened
      | succ n =>
        have behind := still n (Nat.le_of_succ_le_succ le)
        rwa [Int.add_assoc, ← nesting_append] at behind

theorem endless_tail {depth : Int} {m : CommentMark} {ms : List CommentMark} (opened : depth ≠ 0)
    (endless : ∀ inside outside, ¬ Closes depth (m :: ms) inside outside) (inside outside : List CommentMark) :
    ¬ Closes (depth + nesting [m]) ms inside outside :=
  fun closes => endless (m :: inside) outside (closes_cons_iff.mpr ⟨opened, .inr ⟨inside, rfl, closes⟩⟩)

end CommentMark

end Token

namespace Piece

open Token.CommentMark

theorem blockComment_of_closes {depth : Nat} {t : Text} {inside outside : List Token.CommentMark}
    (h : Closes depth (ofText t) inside outside) :
    blockComment depth t = ⟨toText (inside ++ [.closing]), toText outside, none⟩ := by
  fun_induction blockComment depth t generalizing inside with
  | case1 t => exact absurd rfl (h.still 0 (Nat.zero_le _))
  | case2 depth => exact absurd h.split (by simp [ofText])
  | case3 depth t ih =>
    rw [ofText, closes_cons_iff] at h
    obtain ⟨-, ⟨-, ⟨⟩, -⟩ | ⟨front, rfl, closes⟩⟩ := h
    rw [ih closes]
    rfl
  | case4 depth t ih =>
    rw [ofText, closes_cons_iff] at h
    obtain ⟨-, ⟨rfl, -, rfl, last⟩ | ⟨front, rfl, closes⟩⟩ := h
    · obtain rfl : depth = 0 := by omega
      rw [toText_ofText, blockComment]
      rfl
    · rw [depth_closing] at closes
      rw [ih closes]
      rfl
  | case5 depth c t no_opening no_closing ih =>
    rw [ofText, closes_cons_iff] at h
    · obtain ⟨-, ⟨-, ⟨⟩, -⟩ | ⟨front, rfl, closes⟩⟩ := h
      rw [ih closes]
      rfl
    · exact no_opening
    · exact no_closing

theorem blockComment_of_endless {depth : Nat} {t : Text} (opened : depth ≠ 0)
    (endless : ∀ inside outside, ¬ Closes depth (ofText t) inside outside) :
    blockComment depth t = ⟨t, [], some (.unterminated .blockComment)⟩ := by
  fun_induction blockComment depth t with
  | case1 t => exact absurd rfl opened
  | case2 depth => rfl
  | case3 depth t ih =>
    rw [ofText] at endless
    rw [ih (Nat.succ_ne_zero _) (endless_tail (by omega) endless)]
    rfl
  | case4 depth t ih =>
    rw [ofText] at endless
    -- If only one comment were open, it would end here.
    have still : depth ≠ 0 := by
      rintro rfl
      exact endless [] (ofText t) (closes_cons_iff.mpr ⟨by decide, .inl ⟨rfl, rfl, rfl, rfl⟩⟩)
    have behind := endless_tail (by omega) endless
    rw [depth_closing] at behind
    rw [ih still behind]
    rfl
  | case5 depth c t no_opening no_closing ih =>
    rw [ofText] at endless
    · rw [ih (Nat.succ_ne_zero _) (endless_tail (by omega) endless)]
      rfl
    · exact no_opening
    · exact no_closing

/-! ## Raw strings -/

theorem closes_rawBody_iff {fence t : Text} {c : Char} :
    (c == '"' && Text.startsWith t fence) = true ↔ '"' :: fence <+: c :: t := by
  rw [Bool.and_eq_true, beq_iff_eq, Text.startsWith, List.isPrefixOf_iff_prefix, List.cons_prefix_cons]
  exact and_congr_left fun _ => eq_comm

theorem rawBody_of_first {fence t content rest : Text} (h : Text.First ('"' :: fence) t content rest) :
    rawBody fence t = ⟨content ++ '"' :: fence, rest, none⟩ := by
  fun_induction rawBody fence t generalizing content with
  | case1 => exact absurd h.split (by simp)
  | case2 c t closes =>
    rcases Text.first_cons_iff.mp h with ⟨rfl, split⟩ | ⟨apart, -⟩
    · obtain ⟨rfl, rfl⟩ := List.cons.inj split
      change (⟨'"' :: fence, (fence ++ rest).drop fence.length, none⟩ : Piece) = _
      rw [List.drop_left]
      rfl
    · exact absurd (closes_rawBody_iff.mp closes) apart
  | case3 c t goes_on ih =>
    rcases Text.first_cons_iff.mp h with ⟨rfl, split⟩ | ⟨-, front, rfl, first⟩
    · exact absurd (closes_rawBody_iff.mpr ⟨rest, split.symm⟩) goes_on
    · rw [ih first]
      rfl

theorem rawBody_of_endless {fence t : Text}
    (endless : ∀ content rest, ¬ Text.First ('"' :: fence) t content rest) :
    rawBody fence t = ⟨t, [], some (.unterminated .rawString)⟩ := by
  fun_induction rawBody fence t with
  | case1 => rfl
  | case2 c t closes =>
    obtain ⟨rest, split⟩ := closes_rawBody_iff.mp closes
    exact absurd (Text.first_cons_iff.mpr (.inl ⟨rfl, split.symm⟩)) (endless [] rest)
  | case3 c t goes_on ih =>
    rw [ih fun content rest first => endless (c :: content) rest
      (Text.first_cons_iff.mpr (.inr ⟨fun front => goes_on (closes_rawBody_iff.mpr front), content, rfl, first⟩))]
    rfl

/-- A raw string that starts with `n` hashes and a quote. -/
theorem rawString_fenced (n : Nat) (body : Text) : rawString (List.replicate n '#' ++ '"' :: body) =
    (rawBody (List.replicate n '#') body).prepend (List.replicate n '#' ++ ['"']) := by
  have hashes : ∀ c ∈ List.replicate n '#', (c == '#') = true := by simp
  have fence : (List.replicate n '#' ++ '"' :: body).takeWhile (· == '#') = List.replicate n '#' := by
    rw [List.takeWhile_append_of_pos hashes]
    simp
  have behind : (List.replicate n '#' ++ '"' :: body).dropWhile (· == '#') = '"' :: body := by
    rw [List.dropWhile_append_of_pos hashes]
    rfl
  rw [rawString_quoted behind, fence]

/-- A raw string is unterminated only behind a quote. -/
theorem fenced_of_unterminated {t : Text} {what : Delimited}
    (h : (rawString t).fault = some (.unterminated what)) :
    ∃ n body, t = List.replicate n '#' ++ '"' :: body := by
  by_cases quoted : ∃ body, t.dropWhile (· == '#') = '"' :: body
  · obtain ⟨body, behind⟩ := quoted
    have hashes : t.takeWhile (· == '#') = List.replicate (t.takeWhile (· == '#')).length '#' :=
      List.eq_replicate_iff.mpr ⟨rfl, fun c mem => by simpa using List.mem_takeWhile_imp mem⟩
    refine ⟨(t.takeWhile (· == '#')).length, body, ?_⟩
    rw [← hashes, ← behind, List.takeWhile_append_dropWhile]
  · rw [rawString_bare quoted] at h
    cases h

end Piece

/-! ## Tokens -/

namespace Token

open Piece CommentMark

/-- The openings of block comments and raw strings. A raw string, of bytes or of characters, opens with any number
of hashes and a quote. -/
inductive Opening where
  | blockComment
  | rawString (bytes : Bool) (hashes : Nat)
  deriving DecidableEq, Repr

namespace Opening

def text : Opening → Text
  | blockComment => ['/', '*']
  | rawString bytes hashes => (if bytes then ['b', 'r'] else ['r']) ++ (List.replicate hashes '#' ++ ['"'])

def kind : Opening → Kind
  | blockComment => .comment
  | rawString bytes _ => if bytes then .byteString else .string

def what : Opening → Delimited
  | blockComment => .blockComment
  | rawString .. => .rawString

/-- Of what stands behind an opening, `taken` goes up to the end of its terminator. In a comment, where the opening
is the first that is open, this is the closing mark that brings the nesting back to zero; in a raw string it is the
first quote with as many hashes behind it as the opening has, together with these. -/
inductive Ends : Opening → (body taken rest : Text) → Prop where
  | closed {body : Text} {inside outside : List CommentMark} (h : Closes 1 (ofText body) inside outside) :
      Ends blockComment body (toText (inside ++ [closing])) (toText outside)
  | fenced {bytes : Bool} {hashes : Nat} {body content rest : Text}
      (h : Text.First ('"' :: List.replicate hashes '#') body content rest) :
      Ends (rawString bytes hashes) body (content ++ '"' :: List.replicate hashes '#') rest

end Opening

/-- The rule that an opening selects for what stands behind it. -/
def Opening.rule : Opening → Text → Piece
  | blockComment => Piece.blockComment 1
  | rawString _ hashes => rawBody (List.replicate hashes '#')

theorem Opening.rule_of_ends {o : Opening} {body taken rest : Text} (h : o.Ends body taken rest) :
    o.rule body = ⟨taken, rest, none⟩ := by
  cases h with
  | closed closes => exact blockComment_of_closes closes
  | fenced first => exact rawBody_of_first first

theorem Opening.rule_of_endless {o : Opening} {body : Text} (endless : ∀ taken rest, ¬ o.Ends body taken rest) :
    o.rule body = ⟨body, [], some (.unterminated o.what)⟩ := by
  cases o with
  | blockComment => exact blockComment_of_endless (by decide) fun _ _ h => endless _ _ (.closed h)
  | rawString bytes hashes => exact rawBody_of_endless fun _ _ h => endless _ _ (.fenced h)

theorem Opening.ends_iff {o : Opening} {body taken rest : Text} :
    o.Ends body taken rest ↔ o.rule body = ⟨taken, rest, none⟩ := by
  refine ⟨rule_of_ends, fun sound => ?_⟩
  by_cases ended : ∃ taken rest, o.Ends body taken rest
  · obtain ⟨front, behind, ends⟩ := ended
    rw [rule_of_ends ends] at sound
    cases sound
    exact ends
  · rw [rule_of_endless fun front behind ends => ended ⟨front, behind, ends⟩] at sound
    cases sound

theorem Opening.endless_iff {o : Opening} {body : Text} : (∀ taken rest, ¬ o.Ends body taken rest) ↔
    o.rule body = ⟨body, [], some (.unterminated o.what)⟩ := by
  refine ⟨rule_of_endless, fun unterminated taken rest ends => ?_⟩
  rw [rule_of_ends ends] at unterminated
  cases unterminated

/-- Hashes and a quote do not start a word. -/
theorem scan_fenced (n : Nat) (body : Text) : scan 'r' (List.replicate n '#' ++ '"' :: body) =
    (.string, rawString (List.replicate n '#' ++ '"' :: body)) := by
  cases n with
  | zero => exact if_neg (by decide +kernel)
  | succ n =>
    have no_word : Number.startsWithWord (List.replicate n '#' ++ '"' :: body) = false := by
      cases n with
      | zero => exact (by decide +kernel : Text.isWordStart '"' = false)
      | succ n => exact (by decide +kernel : Text.isWordStart '#' = false)
    rw [List.replicate_succ, List.cons_append, scan_hash, no_word]
    rfl

theorem scan_bytes_fenced (n : Nat) (body : Text) : scan 'b' ('r' :: (List.replicate n '#' ++ '"' :: body)) =
    (.byteString, (rawString (List.replicate n '#' ++ '"' :: body)).prepend ['r']) := by
  cases n with
  | zero => exact if_neg (by decide +kernel)
  | succ n => exact if_neg (by decide +kernel)

theorem Reader.next_of_scan {c : Char} {u : Text} {k : Kind} {p : Piece} (h : scan c u = (k, p)) (offset : Nat) :
    next ⟨offset, c :: u⟩ =
      (⟨k, c :: p.text, offset, p.fault⟩, ⟨offset + Text.size (c :: p.text), p.rest⟩) := by
  rw [next, h]

/-- Behind an opening its rule decides. -/
theorem Reader.next_opened (o : Opening) (body : Text) (offset : Nat) : next ⟨offset, o.text ++ body⟩ =
    (⟨o.kind, o.text ++ (o.rule body).text, offset, (o.rule body).fault⟩,
      ⟨offset + Text.size (o.text ++ (o.rule body).text), (o.rule body).rest⟩) := by
  cases o with
  | blockComment => exact next_of_scan (if_neg (by decide +kernel)) offset
  | rawString bytes hashes =>
    have assoc (front back : Text) : front ++ (List.replicate hashes '#' ++ ['"']) ++ back =
        front ++ (List.replicate hashes '#' ++ '"' :: back) := by simp
    rw [Opening.text, assoc, assoc]
    cases bytes with
    | false =>
      refine (next_of_scan (scan_fenced hashes body) offset).trans ?_
      rw [rawString_fenced, prepend, List.append_assoc]
      rfl
    | true =>
      refine (next_of_scan (scan_bytes_fenced hashes body) offset).trans ?_
      rw [rawString_fenced, prepend, prepend, List.append_assoc]
      rfl

theorem Reader.next_opened_iff {o : Opening} {body taken rest : Text} {fault : Option LexicalFault} {offset : Nat} :
    next ⟨offset, o.text ++ body⟩ = (⟨o.kind, o.text ++ taken, offset, fault⟩,
      ⟨offset + Text.size (o.text ++ taken), rest⟩) ↔ o.rule body = ⟨taken, rest, fault⟩ := by
  rw [next_opened]
  constructor
  · intro same
    obtain ⟨token, reader⟩ := Prod.mk.inj same
    obtain ⟨-, text, -, fault⟩ := Token.mk.inj token
    rw [← List.append_cancel_left text, ← (Reader.mk.inj reader).2, ← fault]
  · intro same
    rw [same]

theorem Opening.fault_literal_ne (o : Opening) {quote : Char} {w : Delimited} {t : Text}
    (quoted : w ∉ [Delimited.blockComment, .rawString]) :
    (literal quote w t).fault ≠ some (.unterminated o.what) := by
  intro unterminated
  rcases fault_literal quote w t with sound | fault
  · rw [sound] at unterminated
    cases unterminated
  · rw [fault] at unterminated
    obtain rfl : w = o.what := LexicalFault.unterminated.inj (Option.some.inj unterminated)
    cases o with
    | blockComment => exact quoted (.head _)
    | rawString bytes hashes => exact quoted (.tail _ (.head _))

/-- What its first character alone selects is neither a comment nor a raw string. -/
theorem Opening.fault_scanPlain_ne (o : Opening) (c : Char) (t : Text) :
    (scanPlain c t).2.fault ≠ some (.unterminated o.what) := by
  unfold scanPlain
  split
  · nofun
  split
  · rw [Number.fault_scan]
    nofun
  split
  · unfold lifetimeOrCharacter
    split
    · split
      · nofun
      · exact o.fault_literal_ne (by decide)
    · exact o.fault_literal_ne (by decide)
  split
  · exact o.fault_literal_ne (by decide)
  split <;> nofun

/-- A comment or a raw string that is unterminated has been opened. -/
theorem Opening.exists_of_fault {o : Opening} {c : Char} {t : Text}
    (h : (scan c t).2.fault = some (.unterminated o.what)) :
    ∃ (opening : Opening) (body : Text), c :: t = opening.text ++ body := by
  have raw (bytes : Bool) {u : Text} (unterminated : (Piece.rawString u).fault = some (.unterminated o.what)) :
      ∃ (opening : Opening) (body : Text), (if bytes then ['b', 'r'] else ['r']) ++ u = opening.text ++ body := by
    obtain ⟨n, body, rfl⟩ := fenced_of_unterminated unterminated
    exact ⟨.rawString bytes n, body, by simp [text]⟩
  unfold scan at h
  split at h
  · cases h
  split at h
  · cases h
  · exact ⟨.blockComment, _, rfl⟩
  · exact raw false h
  · split at h
    · cases h
    · exact raw false h
  · exact absurd h (o.fault_literal_ne (by decide))
  · exact absurd h (o.fault_literal_ne (by decide))
  · exact raw true h
  · exact raw true h
  · exact absurd h (o.fault_scanPlain_ne c t)

/-- A token with an opening is taken exactly up to the end of its terminator and is sound, or there is no
terminator and it is all of the text and unterminated. No other token is unterminated in this way. -/
theorem Reader.next_delimited (offset : Nat) :
    (∀ (o : Opening) (body : Text),
      (∀ taken rest, next ⟨offset, o.text ++ body⟩ = (⟨o.kind, o.text ++ taken, offset, none⟩,
        ⟨offset + Text.size (o.text ++ taken), rest⟩) ↔ o.Ends body taken rest) ∧
      (next ⟨offset, o.text ++ body⟩ = (⟨o.kind, o.text ++ body, offset, some (.unterminated o.what)⟩,
        ⟨offset + Text.size (o.text ++ body), []⟩) ↔ ∀ taken rest, ¬ o.Ends body taken rest) ∧
      (LexicalFault.unterminated o.what).category = .unterminatedConstruct) ∧
    ∀ t, (∃ o : Opening, (next ⟨offset, t⟩).1.fault = some (.unterminated o.what)) ↔
      ∃ (o : Opening) (body : Text), t = o.text ++ body ∧ ∀ taken rest, ¬ o.Ends body taken rest := by
  refine ⟨fun o body => ⟨fun taken rest => next_opened_iff.trans Opening.ends_iff.symm,
    next_opened_iff.trans Opening.endless_iff.symm, rfl⟩, fun t => ⟨?_, ?_⟩⟩
  · rintro ⟨o, fault⟩
    cases t with
    | nil => cases fault
    | cons c t =>
      obtain ⟨opening, body, opened⟩ := Opening.exists_of_fault fault
      refine ⟨opening, body, opened, fun taken rest ends => ?_⟩
      rw [opened, next_opened, Opening.rule_of_ends ends] at fault
      cases fault
  · rintro ⟨o, body, rfl, endless⟩
    exact ⟨o, by rw [next_opened, Opening.rule_of_endless endless]⟩

/-- The slash behind an opening is no part of a mark, and the first quote here has too few hashes. -/
example : (list "/*/*/ */*/br##\"#\"##".toList).map (fun tok => (tok.kind, tok.text, tok.fault)) =
    [(.comment, "/*/*/ */*/".toList, none), (.byteString, "br##\"#\"##".toList, none), (.eof, [], none)] := by
  decide +kernel

end Token

end Verbatim
