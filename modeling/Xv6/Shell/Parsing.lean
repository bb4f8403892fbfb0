import Xv6.Shell.Loops

namespace Xv6.Shell

open Xv6.Data

/-! # The parser and the grammar

With fuel in proportion to the length of the input no function of the parser runs
out of it, and what it accepts is derived; what is derived is accepted.
-/

variable {str s after : Ptr} {fuel : Nat} {cmd : Cmd Span} {tree : Cmd Word} {tokens rest : List Token}

/-- With the fuel, the functions end on inputs of proportional length. -/
structure Enough (str : Ptr) (fuel : Nat) : Prop where
  line : ∀ s, 4 * s.length + 4 < fuel → s <:+ str → Ends Panics (Accepted str s (Derives .line)) (parseline fuel s)
  pipe : ∀ s, 4 * s.length + 3 < fuel → s <:+ str → Ends Panics (Accepted str s (Derives .pipe)) (parsepipe fuel s)
  block : ∀ s, 4 * s.length + 1 < fuel → s <:+ str → (lex s).head? = some .lparen →
    Ends Panics (Accepted str s (Derives .exec)) (parseblock fuel s)
  exec : ∀ s, 4 * s.length + 2 < fuel → s <:+ str → Ends Panics (Accepted str s (Derives .exec)) (parseexec fuel s)

namespace Enough

theorem line_succ (ih : Enough str fuel) (enough : 4 * s.length + 4 < fuel + 1) (inside : s <:+ str) :
    Ends Panics (Accepted str s (Derives .line)) (parseline (fuel + 1) s) := by
  simp only [parseline]
  apply (ih.pipe s (by omega) inside).bind
  rintro ⟨cmd, middle⟩ ⟨used, tree, took, derived, shows⟩
  have shorter := took.suffix.length_le
  apply (parsebacks_ends (by omega) (took.suffix.trans inside) shows).bind
  rintro ⟨cmd, next⟩ ⟨_, _, tookBacks, ⟨n, rfl, rfl⟩, shows⟩
  have took := took.trans tookBacks
  have notLonger := took.suffix.length_le
  by_cases ahead : (lex next).head? = some .semi
  · obtain ⟨tokens, is⟩ := List.head?_eq_some_iff.mp ahead
    obtain ⟨_, after, read, tookSemi, _, _⟩ := gettoken_skip (took.suffix.trans inside) is
    have less := tookSemi.length_lt (List.cons_ne_nil _ _)
    simp only [peek_semi, ahead, decide_true, if_true, read]
    apply (ih.line after (by omega) ((took.trans tookSemi).suffix.trans inside)).bind
    rintro ⟨rest, final⟩ ⟨others, restTree, tookLine, others, restShows⟩
    exact ⟨_, _, took.trans (tookSemi.trans tookLine), .list derived others, (shows.pair restShows).2⟩
  · simp only [peek_semi, ahead, decide_false, Bool.false_eq_true, if_false]
    refine ⟨_, _, took.trans (Took.skip next), ?_, shows⟩
    rw [List.append_nil]
    exact .last derived

theorem pipe_succ (ih : Enough str fuel) (enough : 4 * s.length + 3 < fuel + 1) (inside : s <:+ str) :
    Ends Panics (Accepted str s (Derives .pipe)) (parsepipe (fuel + 1) s) := by
  simp only [parsepipe]
  apply (ih.exec s (by omega) inside).bind
  rintro ⟨cmd, next⟩ ⟨used, tree, took, derived, shows⟩
  have notLonger := took.suffix.length_le
  by_cases ahead : (lex next).head? = some .bar
  · obtain ⟨tokens, is⟩ := List.head?_eq_some_iff.mp ahead
    obtain ⟨_, after, read, tookBar, _, _⟩ := gettoken_skip (took.suffix.trans inside) is
    have less := tookBar.length_lt (List.cons_ne_nil _ _)
    simp only [peek_bar, ahead, decide_true, if_true, read]
    apply (ih.pipe after (by omega) ((took.trans tookBar).suffix.trans inside)).bind
    rintro ⟨rest, final⟩ ⟨others, restTree, tookPipe, others, restShows⟩
    exact ⟨_, _, took.trans (tookBar.trans tookPipe), .pipe derived others, (shows.pair restShows).1⟩
  · simp only [peek_bar, ahead, decide_false, Bool.false_eq_true, if_false]
    refine ⟨_, _, took.trans (Took.skip next), ?_, shows⟩
    rw [List.append_nil]
    exact .single derived

theorem block_succ (ih : Enough str fuel) (enough : 4 * s.length + 1 < fuel + 1) (inside : s <:+ str)
    (opens : (lex s).head? = some .lparen) :
    Ends Panics (Accepted str s (Derives .exec)) (parseblock (fuel + 1) s) := by
  obtain ⟨tokens, is⟩ := List.head?_eq_some_iff.mp opens
  obtain ⟨_, start, read, tookOpen, _, _⟩ := gettoken_skip inside is
  have less := tookOpen.length_lt (List.cons_ne_nil _ _)
  simp only [parseblock, peek_lparen, opens, decide_true, if_true, read]
  apply (ih.line start (by omega) (tookOpen.suffix.trans inside)).bind
  rintro ⟨cmd, next⟩ ⟨used, tree, tookLine, derived, shows⟩
  have took := tookOpen.trans tookLine
  have notLonger := took.suffix.length_le
  by_cases ahead : (lex next).head? = some .rparen
  · obtain ⟨tokens, is⟩ := List.head?_eq_some_iff.mp ahead
    obtain ⟨_, after, read, tookClose, _, _⟩ := gettoken_skip (took.suffix.trans inside) is
    have less := tookClose.length_lt (List.cons_ne_nil _ _)
    simp only [peek_rparen, ahead, decide_true, if_true, read]
    apply (parseredirs_ends (by omega) ((took.trans tookClose).suffix.trans inside) shows).weaken
    rintro ⟨out, final⟩ ⟨others, _, tookRedirs, ⟨redirs, around, rfl⟩, result⟩
    exact ⟨_, _, took.trans (tookClose.trans tookRedirs), .block derived around, result⟩
  · simp only [peek_rparen, ahead, decide_false, Bool.false_eq_true, if_false]
    simp [Ends, Panics]

theorem exec_succ (ih : Enough str fuel) (enough : 4 * s.length + 2 < fuel + 1) (inside : s <:+ str) :
    Ends Panics (Accepted str s (Derives .exec)) (parseexec (fuel + 1) s) := by
  simp only [parseexec, peek_lparen]
  have start := Took.skip s
  have skipped := start.suffix.length_le
  by_cases ahead : (lex s).head? = some .lparen
  · simp only [ahead, decide_true, if_true]
    have opens : (lex (skip s)).head? = some .lparen := by rw [lex_skip, ahead]
    apply (ih.block (skip s) (by omega) (start.suffix.trans inside) opens).weaken
    rintro ⟨out, final⟩ ⟨used, tree, took, derived, shows⟩
    exact ⟨used, tree, start.trans took, derived, shows⟩
  · simp only [ahead, decide_false, Bool.false_eq_true, if_false]
    apply (parseredirs_ends (by omega) (start.suffix.trans inside) (Shows.empty str)).bind
    rintro ⟨ret, next⟩ ⟨first, _, tookRedirs, ⟨own, around, rfl⟩, shows⟩
    have took := start.trans tookRedirs
    have notLonger := took.suffix.length_le
    apply (parseargs_ends (by omega) (took.suffix.trans inside) shows rfl (by decide)).weaken
    rintro ⟨out, final⟩ ⟨used, _, tookArgs, ⟨words, redirs, args, few, rfl⟩, result⟩
    exact ⟨_, _, took.trans tookArgs, .exec around args few, result⟩

theorem all (str : Ptr) (fuel : Nat) : Enough str fuel := by
  induction fuel with
  | zero =>
    constructor
    all_goals
      exact nofun
  | succ fuel ih =>
    constructor
    · intro s
      exact ih.line_succ
    · intro s
      exact ih.pipe_succ
    · intro s
      exact ih.block_succ
    · intro s
      exact ih.exec_succ

end Enough

def parse : Nonterminal → Nat → Ptr → Parsed
  | .line => parseline
  | .pipe => parsepipe
  | .exec => parseexec

def follows : Nonterminal → Option Token → Bool
  | _, none => true
  | .line, some tok => tok = .rparen
  | .pipe, some tok => tok = .rparen || tok = .amp || tok = .semi
  | .exec, some tok => tok.ends

theorem follows_pipe {next : Option Token} (follow : follows .line next = true) :
    follows .pipe next = true ∧ next ≠ some .amp ∧ next ≠ some .semi := by
  cases next with
  | none => simp [follows]
  | some tok => simp_all [follows]

theorem follows_exec {next : Option Token} (follow : follows .pipe next = true) :
    follows .exec next = true ∧ next ≠ some .bar := by
  cases next with
  | none => simp [follows]
  | some tok => cases tok <;> simp_all [follows, Token.ends]

theorem follows_redirs {next : Option Token} (follow : follows .exec next = true) :
    next.any Token.redirects = false := by
  cases next with
  | none => rfl
  | some tok => cases tok <;> simp_all [follows, Token.ends, Token.redirects]

theorem follows_amps {n : Nat} (follow : follows .pipe rest.head? = true) :
    follows .pipe (List.replicate n Token.amp ++ rest).head? = true := by
  cases n with
  | zero => exact follow
  | succ n => rfl

theorem head_not_lparen {first last : List Token} {words : List Word} {own redirs : List Redirection}
    (around : Redirs first own) (args : Args last words redirs) (follow : follows .exec rest.head? = true) :
    (first ++ last ++ rest).head? ≠ some .lparen := by
  cases around with
  | nil =>
    cases args with
    | nil =>
      intro same
      rw [List.nil_append, List.nil_append] at same
      rw [same] at follow
      cases follow
    | cons => simp
  | cons one others => cases one <;> simp

theorem parse_complete {nt : Nonterminal} (derived : Derives nt tokens tree) (inside : s <:+ str)
    (is : lex s = tokens ++ rest) (follow : follows nt rest.head? = true) :
    Ends (· = .diverges) (fun result => lex result.2 = rest ∧ result.2 <:+ str ∧ Shows str result.1 tree)
      (parse nt fuel s) := by
  induction derived generalizing s rest fuel with
  | @last tokens cmd n pipe ih =>
    cases fuel with
    | zero => rfl
    | succ fuel =>
      obtain ⟨pipeFollow, noAmp, noSemi⟩ := follows_pipe follow
      rw [List.append_assoc] at is
      simp only [parse, parseline]
      apply (ih inside is (follows_amps pipeFollow)).bind
      rintro ⟨cmd, middle⟩ ⟨left, inside, shows⟩
      apply (parsebacks_complete inside left noAmp shows).bind
      rintro ⟨cmd, next⟩ ⟨left, inside, shows⟩
      simp only [peek_semi, left, noSemi, decide_false, Bool.false_eq_true, if_false]
      exact ⟨(lex_skip next).trans left, (Took.skip next).suffix.trans inside, shows⟩
  | @list tokens others cmd rest' n pipe line ihPipe ihLine =>
    cases fuel with
    | zero => rfl
    | succ fuel =>
      rw [List.append_assoc, List.append_assoc, List.cons_append] at is
      simp only [parse, parseline]
      apply (ihPipe inside is (follows_amps rfl)).bind
      rintro ⟨cmd, middle⟩ ⟨left, inside, shows⟩
      apply (parsebacks_complete inside left (by simp) shows).bind
      rintro ⟨cmd, next⟩ ⟨left, inside, shows⟩
      obtain ⟨_, after, read, took, left', _⟩ := gettoken_skip inside left
      simp only [peek_semi, left, List.head?_cons, decide_true, if_true, read]
      apply (ihLine (took.suffix.trans inside) left' follow).bind
      rintro ⟨rest, final⟩ ⟨left, inside, restShows⟩
      exact ⟨left, inside, (shows.pair restShows).2⟩
  | single exec ih =>
    cases fuel with
    | zero => rfl
    | succ fuel =>
      obtain ⟨execFollow, noBar⟩ := follows_exec follow
      simp only [parse, parsepipe]
      apply (ih inside is execFollow).bind
      rintro ⟨cmd, next⟩ ⟨left, inside, shows⟩
      simp only [peek_bar, left, noBar, decide_false, Bool.false_eq_true, if_false]
      exact ⟨(lex_skip next).trans left, (Took.skip next).suffix.trans inside, shows⟩
  | pipe exec pipe ihExec ihPipe =>
    cases fuel with
    | zero => rfl
    | succ fuel =>
      rw [List.append_assoc, List.cons_append] at is
      simp only [parse, parsepipe]
      apply (ihExec inside is rfl).bind
      rintro ⟨cmd, next⟩ ⟨left, inside, shows⟩
      obtain ⟨_, after, read, took, left', _⟩ := gettoken_skip inside left
      simp only [peek_bar, left, List.head?_cons, decide_true, if_true, read]
      apply (ihPipe (took.suffix.trans inside) left' follow).bind
      rintro ⟨rest, final⟩ ⟨left, inside, restShows⟩
      exact ⟨left, inside, (shows.pair restShows).1⟩
  | block line around ih =>
    cases fuel with
    | zero => rfl
    | succ fuel =>
      rw [List.cons_append, List.append_assoc, List.cons_append] at is
      simp only [parse, parseexec, peek_lparen, is, List.head?_cons, decide_true, if_true]
      cases fuel with
      | zero => rfl
      | succ fuel =>
        have skipped : lex (skip s) = _ := (lex_skip s).trans is
        obtain ⟨_, start, read, took, left, _⟩ :=
          gettoken_skip ((Took.skip s).suffix.trans inside) skipped
        simp only [parseblock, peek_lparen, skipped, List.head?_cons, decide_true, if_true, read]
        apply (ih (took.suffix.trans ((Took.skip s).suffix.trans inside)) left rfl).bind
        rintro ⟨cmd, next⟩ ⟨left, inside, shows⟩
        obtain ⟨_, after, read, took, left', _⟩ := gettoken_skip inside left
        simp only [peek_rparen, left, List.head?_cons, decide_true, if_true, read]
        exact parseredirs_complete around (took.suffix.trans inside) left' (follows_redirs follow) shows
  | @exec first last words own redirs around args few =>
    cases fuel with
    | zero => rfl
    | succ fuel =>
      have start : (lex s).head? ≠ some .lparen := by
        rw [is]
        exact head_not_lparen around args follow
      have ends : Token.endsArgs rest.head? = true := by
        cases rest with
        | nil => rfl
        | cons tok more => exact follow
      simp only [parse, parseexec, peek_lparen, start, decide_false, Bool.false_eq_true, if_false]
      rw [List.append_assoc, ← lex_skip s] at is
      apply (parseredirs_complete around ((Took.skip s).suffix.trans inside) is (args.head_follows ends)
        (Shows.empty str)).bind
      rintro ⟨ret, next⟩ ⟨left, inside, shows⟩
      exact parseargs_complete args inside left ends shows (by simpa using few)

end Xv6.Shell
