import Mathlib.Computability.Language
import Xv6.Shell.Parser

namespace Xv6.Grep

open Data (Byte)
open Shell (Ptr chr chars)
open scoped Computability

/-! # The program `grep`

The matcher of regular expressions and the loop over the input, from `grep.c`.  A
`char *` is the part of the string from it to the terminating NUL.
-/

/-- The function `matchstar`; `here` is `matchhere` for the pattern behind the star. -/
def matchstar (c : Byte) (here : Ptr → Bool) : Ptr → Bool
  | [] => here []
  | x :: text => here (x :: text) || ((x == c || c == chr '.') && matchstar c here text)

def matchone (c : Byte) (here : Ptr → Bool) : Ptr → Bool
  | [] => false
  | x :: text => (c == chr '.' || c == x) && here text

def matchhere : Ptr → Ptr → Bool
  | [] => fun _ => true
  | [c] => if c = chr '$' then List.isEmpty else matchone c (matchhere [])
  | c :: next :: re =>
    if next = chr '*' then matchstar c (matchhere re) else matchone c (matchhere (next :: re))

def matchany (re : Ptr) : Ptr → Bool
  | [] => matchhere re []
  | x :: text => matchhere re (x :: text) || matchany re text

def matchText : Ptr → Ptr → Bool
  | [], text => matchany [] text
  | c :: re, text => if c = chr '^' then matchhere re text else matchany (c :: re) text

def atom (c : Byte) : Language Byte := {word | ∃ x, word = [x] ∧ (c = chr '.' ∨ c = x)}

def meaning : Ptr → Language Byte
  | [] => 1
  | [c] => if c = chr '$' then 1 else atom c
  | c :: next :: re => if next = chr '*' then (atom c)∗ * meaning re else atom c * meaning (next :: re)

/-- A word of the pattern stands at the start of the text, and at its end as well for a
pattern that ends in `$`. -/
def MatchesHere (re text : Ptr) : Prop :=
  ∃ word ∈ meaning re, ∃ rest, text = word ++ rest ∧ (re.getLast? = some (chr '$') → rest = [])

/-- The pattern matches some part of the text, the start of it for a pattern with a `^`
in front. -/
def Occurs (re text : Ptr) : Prop :=
  if re.head? = some (chr '^') then MatchesHere re.tail text else ∃ after, after <:+ text ∧ MatchesHere re after

theorem mem_atom {c : Byte} {word : Ptr} : word ∈ atom c ↔ ∃ x, word = [x] ∧ (c = chr '.' ∨ c = x) := .rfl

theorem mem_kstar_atom {c : Byte} {word : Ptr} : word ∈ (atom c)∗ ↔ ∀ x ∈ word, c = chr '.' ∨ c = x := by
  rw [Language.mem_kstar]
  constructor
  · intro ⟨words, isWord, single⟩ x member
    rw [isWord, List.mem_flatten] at member
    obtain ⟨w, among, member⟩ := member
    obtain ⟨y, rfl, same⟩ := single w among
    rwa [List.mem_singleton.mp member]
  · intro all
    refine ⟨word.map ([·]), by simp [← List.flatMap_def], ?_⟩
    intro w among
    obtain ⟨x, member, rfl⟩ := List.mem_map.mp among
    exact ⟨x, rfl, all x member⟩

theorem matchstar_iff {c : Byte} {here : Ptr → Bool} {text : Ptr} :
    matchstar c here text = true ↔ ∃ word ∈ (atom c)∗, ∃ rest, text = word ++ rest ∧ here rest = true := by
  simp only [mem_kstar_atom]
  induction text with
  | nil => simp [matchstar]
  | cons x text ih =>
    simp only [matchstar, Bool.or_eq_true, Bool.and_eq_true, beq_iff_eq, ih]
    constructor
    · intro found
      obtain now | ⟨same, word, all, rest, rfl, later⟩ := found
      · exact ⟨[], by simp, _, rfl, now⟩
      · refine ⟨x :: word, ?_, rest, rfl, later⟩
        exact List.forall_mem_cons.mpr ⟨same.symm.imp_right Eq.symm, all⟩
    · intro ⟨word, all, rest, split, here⟩
      cases word with
      | nil => exact .inl (by rwa [split])
      | cons y word =>
        obtain ⟨rfl, rfl⟩ := List.cons.inj split
        obtain ⟨first, all⟩ := List.forall_mem_cons.mp all
        exact .inr ⟨first.symm.imp_left Eq.symm, word, all, rest, rfl, here⟩

theorem matchone_iff {c : Byte} {here : Ptr → Bool} {text : Ptr} :
    matchone c here text = true ↔ ∃ word ∈ atom c, ∃ rest, text = word ++ rest ∧ here rest = true := by
  cases text with
  | nil => simp [matchone, mem_atom]
  | cons x text =>
    simp only [matchone, Bool.and_eq_true, Bool.or_eq_true, beq_iff_eq]
    constructor
    · intro ⟨same, here⟩
      exact ⟨[x], ⟨x, rfl, same⟩, text, rfl, here⟩
    · intro ⟨_, ⟨y, isWord, same⟩, rest, split, here⟩
      rw [isWord] at split
      obtain ⟨rfl, rfl⟩ := List.cons.inj split
      exact ⟨same, here⟩

theorem matchesHere_mul {first : Language Byte} {re rest text : Ptr} (words : meaning re = first * meaning rest)
    (ends : re.getLast? = some (chr '$') ↔ rest.getLast? = some (chr '$')) :
    MatchesHere re text ↔ ∃ word ∈ first, ∃ after, text = word ++ after ∧ MatchesHere rest after := by
  simp only [MatchesHere, words, ends, Language.mem_mul]
  constructor
  · intro ⟨_, ⟨a, inFirst, b, inRest, rfl⟩, after, isText, atEnd⟩
    exact ⟨a, inFirst, b ++ after, isText.trans (List.append_assoc ..), b, inRest, after, rfl, atEnd⟩
  · intro ⟨a, inFirst, _, isText, b, inRest, after, isRest, atEnd⟩
    exact ⟨a ++ b, ⟨a, inFirst, b, inRest, rfl⟩, after, by rw [isText, isRest, List.append_assoc], atEnd⟩

theorem matchhere_iff (re text : Ptr) : matchhere re text = true ↔ MatchesHere re text := by
  fun_induction matchhere re generalizing text with
  | case1 => simp [MatchesHere, meaning]
  | case2 => simp [MatchesHere, meaning, List.isEmpty_iff]
  | case3 c other ih =>
    have words : meaning [c] = atom c * meaning [] := by simp [meaning, other]
    rw [matchone_iff, matchesHere_mul words (by simp [other])]
    simp only [ih]
  | case4 c re ih =>
    have words : meaning (c :: chr '*' :: re) = (atom c)∗ * meaning re := if_pos rfl
    rw [matchstar_iff, matchesHere_mul words ?_]
    · simp only [ih]
    · cases re with
      | nil => simp [chr]
      | cons d re => simp
  | case5 c next re other ih =>
    have words : meaning (c :: next :: re) = atom c * meaning (next :: re) := if_neg other
    rw [matchone_iff, matchesHere_mul words (by simp)]
    simp only [ih]

theorem matchany_iff {re text : Ptr} : matchany re text = true ↔ ∃ after, after <:+ text ∧ MatchesHere re after := by
  induction text with
  | nil => simp [matchany, matchhere_iff]
  | cons x text ih =>
    simp only [matchany, Bool.or_eq_true, matchhere_iff, ih, List.suffix_cons_iff, or_and_right, exists_or,
      exists_eq_left]

/-- `match` agrees with the meaning of the pattern. -/
theorem matchText_iff (re text : Ptr) : matchText re text = true ↔ Occurs re text := by
  fun_cases matchText re text with
  | case1 => exact matchany_iff
  | case2 re => exact matchhere_iff re text
  | case3 re _ c other =>
    rw [matchany_iff, Occurs, if_neg (by simpa using other)]

def newline : Byte := chr '\n'

def room : Nat := 1023

def strchr (c : Byte) : Ptr → Option Ptr
  | [] => none
  | x :: s => if x = 0 then none else if x = c then some (x :: s) else strchr c s

theorem strchr_length {c : Byte} {p q : Ptr} (found : strchr c p = some q) : q.tail.length < p.length := by
  fun_induction strchr c p with grind

/-- The lines that the inner loop passes from `p` on, and `p` after it.  A line ends at `q`
when `match` sees it. -/
def lines (p : Ptr) : List Ptr × Ptr :=
  match _found : strchr newline p with
  | none => ([], p)
  | some q =>
    let (later, last) := lines q.tail
    (p.take (p.length - q.length) :: later, last)
termination_by p.length
decreasing_by exact strchr_length _found

def written (pattern line : Ptr) : List Byte := if matchText pattern line then line ++ [newline] else []

/-- The bytes moved to the front of `buf`; `p` points into it. -/
def kept (buf p : Ptr) : Ptr := if p.length = buf.length then [] else p

/-- What `grep` writes, for what its calls of `read` return; `held` is in front of `buf`. -/
def grep (pattern held : Ptr) : List Ptr → List Byte
  | [] => []
  | piece :: pieces =>
    let (passed, p) := lines (held ++ piece)
    passed.flatMap (written pattern) ++ grep pattern (kept (held ++ piece) p) pieces

/-- The calls of `read` return these pieces of the input, and then 0. -/
def Reads (held input : Ptr) : List Ptr → Prop
  | [] => input = [] ∨ room - held.length = 0
  | piece :: pieces => piece ≠ [] ∧ piece.length ≤ room - held.length ∧ ∃ rest, input = piece ++ rest ∧
    Reads (kept (held ++ piece) (lines (held ++ piece)).2) rest pieces

/-- The terminated lines of the input that match, each with its newline. -/
def matchingLines (pattern input : Ptr) : List Byte :=
  ((input.splitOn newline).dropLast.filter (matchText pattern)).flatMap (· ++ [newline])

/-- Every stretch of the input without a newline fits into `buf` with one behind it. -/
def ShortLines (input : Ptr) : Prop := ∀ line, line <:+: input → newline ∉ line → line.length < room

theorem strchr_eq_none {p : Ptr} (noLine : newline ∉ p) : strchr newline p = none := by
  induction p with
  | nil => rfl
  | cons x p ih => grind [strchr]

theorem strchr_append {line rest : Ptr} (text : 0 ∉ line) (noLine : newline ∉ line) :
    strchr newline (line ++ newline :: rest) = some (newline :: rest) := by
  induction line with
  | nil => rfl
  | cons x line ih => grind [strchr]

theorem splitOn_line {line : Ptr} (noLine : newline ∉ line) : line.splitOn newline = [line] := by
  apply List.splitOnP_eq_singleton
  intro x member
  exact beq_false_of_ne fun same => noLine (same ▸ member)

theorem splitOn_append (a b : Ptr) : (a ++ newline :: b).splitOn newline = a.splitOn newline ++ b.splitOn newline :=
  List.splitOnP_append_cons a b (by simp)

/-- The inner loop passes all lines of the text up to its last newline. -/
theorem lines_cases {p : Ptr} (text : 0 ∉ p) : (newline ∉ p ∧ lines p = ([], p)) ∨
    ∃ a last, p = a ++ newline :: last ∧ newline ∉ last ∧ lines p = (a.splitOn newline, last) := by
  induction size : p.length using Nat.strongRecOn generalizing p with | ind n ih =>
  by_cases found : newline ∈ p
  · obtain ⟨line, rest, rfl, noLine⟩ := List.eq_append_cons_of_mem found
    have first : lines (line ++ newline :: rest) = (line :: (lines rest).1, (lines rest).2) := by
      rw [lines, strchr_append (by grind) noLine]
      simp
    right
    obtain ⟨noMore, stops⟩ | ⟨a, last, rfl, noMore, stops⟩ := ih rest.length (by grind) (by grind) rfl
    · exact ⟨line, rest, rfl, noMore, by rw [first, stops, splitOn_line noLine]⟩
    · refine ⟨line ++ newline :: a, last, by simp, noMore, ?_⟩
      rw [first, stops, splitOn_append, splitOn_line noLine, List.singleton_append]
  · refine .inl ⟨found, ?_⟩
    rw [lines, strchr_eq_none found]

theorem matchingLines_eq_nil {pattern s : Ptr} (noLine : newline ∉ s) : matchingLines pattern s = [] := by
  rw [matchingLines, splitOn_line noLine]
  rfl

theorem matchingLines_append (pattern a s : Ptr) : matchingLines pattern (a ++ newline :: s) =
    (a.splitOn newline).flatMap (written pattern) ++ matchingLines pattern s := by
  have each (passed : List Ptr) :
      (passed.filter (matchText pattern)).flatMap (· ++ [newline]) = passed.flatMap (written pattern) := by
    induction passed with
    | nil => rfl
    | cons line passed ih => grind [written]
  have more : s.splitOn newline ≠ [] := by simp [List.splitOn]
  rw [matchingLines, splitOn_append, List.dropLast_append_of_ne_nil more, List.filter_append, List.flatMap_append, each,
    matchingLines]

theorem round_cases (held piece rest : Ptr) (text : 0 ∉ held ++ (piece ++ rest)) :
    (newline ∉ held ++ piece ∧ kept (held ++ piece) (lines (held ++ piece)).2 = [] ∧
      ∀ pattern pieces, grep pattern held (piece :: pieces) = grep pattern [] pieces) ∨
    ∃ a last, held ++ (piece ++ rest) = a ++ newline :: (last ++ rest) ∧ newline ∉ last ∧ newline ∈ held ++ piece ∧
      kept (held ++ piece) (lines (held ++ piece)).2 = last ∧
      ∀ pattern pieces, grep pattern held (piece :: pieces) =
        (a.splitOn newline).flatMap (written pattern) ++ grep pattern last pieces := by
  obtain ⟨noLine, stops⟩ | ⟨a, last, split, noMore, stops⟩ := lines_cases (p := held ++ piece) (by grind)
  · have dropped : kept (held ++ piece) (held ++ piece) = [] := if_pos rfl
    refine .inl ⟨noLine, by rw [stops, dropped], fun pattern pieces => ?_⟩
    simp [grep, stops, dropped]
  · have moved : kept (held ++ piece) last = last := if_neg (by simp [split]; omega)
    refine .inr ⟨a, last, ?_, noMore, by simp [split], by rw [stops, moved], fun pattern pieces => ?_⟩
    · rw [← List.append_assoc, split, List.append_assoc, List.cons_append]
    · simp only [grep, stops, moved]

/-- A piece with a newline is read before every piece without one. -/
def LinesFirst (pieces : List Ptr) : Prop := pieces.Pairwise fun earlier later => newline ∈ later → newline ∈ earlier

theorem ShortLines.suffix {a b : Ptr} (short : ShortLines b) (isSuffix : a <:+ b) : ShortLines a :=
  fun line among => short line (among.trans isSuffix.isInfix)

theorem written_nil (line : Ptr) : written [] line = line ++ [newline] := by
  cases line with
  | nil => rfl
  | cons x line => simp [written, matchText, matchany, matchhere]

/-- The empty pattern matches every line. -/
theorem matchingLines_nil_append {held s : Ptr} (noLine : newline ∉ held) (later : newline ∈ s) :
    matchingLines [] (held ++ s) = held ++ matchingLines [] s := by
  obtain ⟨line, rest, rfl, noMore⟩ := List.eq_append_cons_of_mem later
  rw [← List.append_assoc, matchingLines_append, matchingLines_append, splitOn_line (by grind), splitOn_line noMore]
  simp [written_nil]

/-- All of the input is read; a part of a line that is dropped is missing for the pattern
that matches every line. -/
theorem grep_spec {held input : Ptr} {pieces : List Ptr} (text : 0 ∉ held ++ input) (noLine : newline ∉ held)
    (short : ShortLines (held ++ input)) (reads : Reads held input pieces) :
    input = pieces.flatten ∧ (grep [] held pieces).length ≤ (matchingLines [] (held ++ input)).length ∧
      ((∀ pattern, grep pattern held pieces = matchingLines pattern (held ++ input)) ↔ LinesFirst pieces) := by
  induction pieces generalizing held input with
  | nil =>
    have fits := short held (List.prefix_append held input).isInfix noLine
    have isEnd : input = [] := reads.resolve_right (by omega)
    rw [isEnd, List.append_nil]
    exact ⟨rfl, Nat.zero_le _, iff_of_true (fun _ => (matchingLines_eq_nil noLine).symm) .nil⟩
  | cons piece pieces ih =>
    obtain ⟨nonempty, _, rest, rfl, reads⟩ := reads
    obtain ⟨noPart, next, round⟩ | ⟨a, last, split, noMore, isLine, next, round⟩ := round_cases held piece rest text
    · rw [next] at reads
      obtain ⟨isRest, most, same⟩ := @ih [] rest (by grind) (by simp) (short.suffix ⟨held ++ piece, by simp⟩) reads
      refine ⟨by rw [isRest, List.flatten_cons], ?_⟩
      simp only [round, ← List.append_assoc, List.nil_append, LinesFirst, List.pairwise_cons] at most same ⊢
      by_cases later : newline ∈ rest
      · have longer := congrArg List.length (matchingLines_nil_append noPart later)
        have some : 0 < piece.length := List.length_pos_iff.mpr nonempty
        simp only [List.length_append] at longer
        refine ⟨by omega, iff_of_false (fun right => ?_) (fun linesFirst => ?_)⟩
        · have equal := congrArg List.length (right [])
          omega
        · obtain ⟨other, among, isLine⟩ := List.mem_flatten.mp (isRest ▸ later)
          exact noPart (List.mem_append_right held (linesFirst.1 other among isLine))
      · have none : ∀ other ∈ pieces, newline ∉ other := by
          intro other among isLine
          exact later (isRest ▸ List.mem_flatten_of_mem among isLine)
        simp only [matchingLines_eq_nil later,
          matchingLines_eq_nil (show newline ∉ held ++ piece ++ rest by grind)] at most same ⊢
        refine ⟨most, same.trans ⟨fun linesFirst => ⟨?_, linesFirst⟩, And.right⟩⟩
        exact fun other among isLine => absurd isLine (none other among)
    · rw [next] at reads
      rw [split] at text short ⊢
      obtain ⟨isRest, most, same⟩ := ih (by grind) noMore (short.suffix ⟨a ++ [newline], by simp⟩) reads
      have here := (List.mem_append.mp isLine).resolve_left noLine
      simp only [round, matchingLines_append, List.length_append, List.append_cancel_left_eq, same, LinesFirst,
        List.pairwise_cons, here, implies_true, true_and, and_true]
      exact ⟨by rw [isRest, List.flatten_cons], by omega⟩

/-- However `read` splits the input, `grep` writes the matching lines for every pattern
exactly if no piece without a newline comes before one that has one. -/
theorem grep_matchingLines_iff (input : Ptr) (text : 0 ∉ input) (short : ShortLines input) (pieces : List Ptr)
    (reads : Reads [] input pieces) :
    (∀ pattern, grep pattern [] pieces = matchingLines pattern input) ↔ LinesFirst pieces :=
  (@grep_spec [] input pieces text (by simp) short reads).2.2

theorem shortLines_of_length {input : Ptr} (small : input.length < room) : ShortLines input :=
  fun _ among _ => among.length_le.trans_lt small

/-- The first piece ends inside a line, behind a newline. -/
theorem grep_matchingLines_two_pieces : LinesFirst [chars "a\nb", chars "\n"] ∧
    ∀ pattern, grep pattern [] [chars "a\nb", chars "\n"] = matchingLines pattern (chars "a\nb\n") := by
  have passed : lines (chars "a\nb") = ([chars "a"], chars "b") := by
    rw [lines, show strchr newline (chars "a\nb") = some (newline :: chars "b") from rfl]
    dsimp only [List.tail]
    rw [lines, strchr_eq_none (by decide)]
    rfl
  have linesFirst : LinesFirst [chars "a\nb", chars "\n"] := by simp [LinesFirst, chars, newline]
  refine ⟨linesFirst, (grep_matchingLines_iff _ (by decide) (shortLines_of_length (by decide)) _ ?_).mpr linesFirst⟩
  refine ⟨by decide, by decide, chars "\n", rfl, by decide, ?_, [], rfl, .inl rfl⟩
  rw [List.nil_append, passed]
  decide

/-- A piece that ends inside a line is dropped. -/
theorem grep_drops_part : 0 ∉ chars "ab\n" ∧ ShortLines (chars "ab\n") ∧
    Reads [] (chars "ab\n") [chars "a", chars "b\n"] ∧
    grep [] [] [chars "a", chars "b\n"] = chars "b\n" ∧ matchingLines [] (chars "ab\n") = chars "ab\n" := by
  have nothing : lines (chars "a") = ([], chars "a") := by
    rw [lines, strchr_eq_none (by decide)]
  have line : lines (chars "b\n") = ([chars "b"], []) := by
    rw [lines, show strchr newline (chars "b\n") = some [newline] from rfl]
    dsimp only [List.tail]
    rw [lines, strchr_eq_none (by decide)]
    rfl
  refine ⟨by decide, shortLines_of_length (by decide),
    ⟨by decide, by decide, chars "b\n", rfl, by decide, ?_, [], rfl, .inl rfl⟩, ?_, by decide⟩
  · rw [List.nil_append, nothing]
    decide
  · simp only [grep, List.nil_append, nothing]
    change grep [] [] [chars "b\n"] = _
    simp only [grep, List.nil_append, line]
    decide

end Xv6.Grep
