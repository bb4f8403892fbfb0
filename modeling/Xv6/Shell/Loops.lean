import Xv6.Data.Outcome
import Xv6.Shell.Tokens

namespace Xv6.Shell

open Xv6.Data

/-! # Redirections, words and background commands

The loops of the parser accept what the grammar derives, with its tree. -/

variable {str s after : Ptr} {fuel : Nat} {cmd : Cmd Span} {tree : Cmd Word} {tokens rest : List Token}

def Cmd.map {A B : Type} (f : A → B) : Cmd A → Cmd B
  | .exec argv => .exec (argv.map f)
  | .redir cmd file mode fd => .redir (cmd.map f) (f file) mode fd
  | .pipe left right => .pipe (left.map f) (right.map f)
  | .list left right => .list (left.map f) (right.map f)
  | .back cmd => .back (cmd.map f)

def Cmd.words {A : Type} : Cmd A → List A
  | .exec argv => argv
  | .redir cmd file _ _ => cmd.words ++ [file]
  | .pipe left right => left.words ++ right.words
  | .list left right => left.words ++ right.words
  | .back cmd => cmd.words

def Cmd.text (cmd : Cmd Span) : Cmd Word := cmd.map Span.text

structure Shows (str : Ptr) (cmd : Cmd Span) (tree : Cmd Word) : Prop where
  text : cmd.text = tree
  words : ∀ span ∈ cmd.words, span.IsWord str

theorem Cmd.text_addArg (cmd : Cmd Span) (word : Span) : (cmd.addArg word).text = cmd.text.addArg word.text := by
  unfold Cmd.text
  induction cmd with
  | exec argv => simp [Cmd.addArg, Cmd.map]
  | redir cmd file mode fd ih => simp [Cmd.addArg, Cmd.map, ih]
  | pipe left right | list left right | back cmd => rfl

theorem Cmd.mem_words_addArg {cmd : Cmd Span} {word span : Span} (member : span ∈ (cmd.addArg word).words) :
    span ∈ cmd.words ∨ span = word := by
  induction cmd with
  | exec argv => simpa [Cmd.addArg, Cmd.words] using member
  | redir cmd file mode fd ih =>
    simp only [Cmd.addArg, Cmd.words, List.mem_append, List.mem_singleton] at member ⊢
    rcases member with inner | same
    · rcases ih inner with old | new
      · exact .inl (.inl old)
      · exact .inr new
    · exact .inl (.inr same)
  | pipe left right | list left right | back cmd => exact .inl member

theorem redirected_addArg (cmd : Cmd Word) (redirs : List Redirection) (word : Word) :
    (redirected cmd redirs).addArg word = redirected (cmd.addArg word) redirs := by
  unfold redirected
  induction redirs generalizing cmd with
  | nil => rfl
  | cons redir rest ih =>
    rw [List.foldl_cons, List.foldl_cons, ih]
    cases redir with
    | input file | output file => rfl

theorem redirected_append (cmd : Cmd Word) (redirs others : List Redirection) :
    redirected (redirected cmd redirs) others = redirected cmd (redirs ++ others) := by
  rw [redirected, redirected, redirected, List.foldl_append]

theorem Shows.empty (str : Ptr) : Shows str (.exec []) (.exec []) := by
  refine ⟨rfl, ?_⟩
  exact nofun

theorem Shows.addArg {word : Span} (shows : Shows str cmd tree) (isWord : word.IsWord str) :
    Shows str (cmd.addArg word) (tree.addArg word.text) := by
  refine ⟨by rw [Cmd.text_addArg, shows.text], ?_⟩
  intro span member
  rcases Cmd.mem_words_addArg member with old | rfl
  · exact shows.words span old
  · exact isWord

theorem Shows.redir {file : Span} {mode fd : Nat} (shows : Shows str cmd tree) (isWord : file.IsWord str) :
    Shows str (.redir cmd file mode fd) (.redir tree file.text mode fd) := by
  constructor
  · rw [← shows.text]
    rfl
  · intro span member
    rcases List.mem_append.mp member with old | new
    · exact shows.words span old
    · rw [List.mem_singleton.mp new]
      exact isWord

theorem Shows.back (shows : Shows str cmd tree) : Shows str (.back cmd) (.back tree) := by
  refine ⟨?_, shows.words⟩
  rw [← shows.text]
  rfl

theorem Shows.pair {other : Cmd Span} {otherTree : Cmd Word} (first : Shows str cmd tree)
    (second : Shows str other otherTree) :
    Shows str (.pipe cmd other) (.pipe tree otherTree) ∧ Shows str (.list cmd other) (.list tree otherTree) := by
  have words (span : Span) (member : span ∈ cmd.words ++ other.words) : span.IsWord str := by
    rcases List.mem_append.mp member with left | right
    · exact first.words span left
    · exact second.words span right
  constructor <;> exact ⟨by rw [← first.text, ← second.text]; rfl, words⟩

def Token.redirects : Token → Bool
  | .less | .greater | .append => true
  | _ => false

def Token.ends : Token → Bool
  | .bar | .rparen | .amp | .semi => true
  | _ => false

theorem peek_redirects : peek s (chars "<>") = ((lex s).head?.any Token.redirects, skip s) := by
  rw [peek_eq (by decide)]
  have same : Token.startsWith (chars "<>") = Token.redirects := by
    funext tok
    cases tok <;> rfl
  rw [same]

theorem peek_ends : peek s (chars "|)&;") = ((lex s).head?.any Token.ends, skip s) := by
  rw [peek_eq (by decide)]
  have same : Token.startsWith (chars "|)&;") = Token.ends := by
    funext tok
    cases tok <;> rfl
  rw [same]

theorem peek_token {toks : List Byte} {tok : Token} (known : ∀ c ∈ toks, c ∈ symbols)
    (only : Token.startsWith toks = fun other => decide (other = tok)) :
    peek s toks = (decide ((lex s).head? = some tok), skip s) := by
  rw [peek_eq known, only]
  congr 1
  cases (lex s).head? with
  | none => rfl
  | some first => simp

theorem peek_amp : peek s (chars "&") = (decide ((lex s).head? = some .amp), skip s) :=
  peek_token (by decide) (by funext tok; cases tok <;> rfl)

theorem peek_semi : peek s (chars ";") = (decide ((lex s).head? = some .semi), skip s) :=
  peek_token (by decide) (by funext tok; cases tok <;> rfl)

theorem peek_bar : peek s (chars "|") = (decide ((lex s).head? = some .bar), skip s) :=
  peek_token (by decide) (by funext tok; cases tok <;> rfl)

theorem peek_lparen : peek s (chars "(") = (decide ((lex s).head? = some .lparen), skip s) :=
  peek_token (by decide) (by funext tok; cases tok <;> rfl)

theorem peek_rparen : peek s (chars ")") = (decide ((lex s).head? = some .rparen), skip s) :=
  peek_token (by decide) (by funext tok; cases tok <;> rfl)

theorem gettoken_skip {tok : Token} (inside : s <:+ str) (is : lex s = tok :: tokens) :
    ∃ span after, gettoken (skip s) = (tok.code, span, after) ∧ Took s [tok] after ∧ lex after = tokens ∧
      ∀ text, tok = .word text → span.text = text ∧ span.IsWord str := by
  have start := Took.skip s
  obtain ⟨span, after, taken, took, left, word⟩ :=
    gettoken_cons (start.suffix.trans inside) ((lex_skip s).trans is)
  exact ⟨span, after, taken, start.trans took, left, word⟩

theorem Redir.exists {op : Token} (redirects : op.redirects = true) (text : Word) :
    ∃ redir, Redir [op, .word text] redir := by
  cases op with
  | less => exact ⟨_, .less⟩
  | greater => exact ⟨_, .greater⟩
  | append => exact ⟨_, .append⟩
  | _ => cases redirects

theorem parseredirs_redir {first : List Token} {redir : Redirection} (one : Redir first redir) (inside : s <:+ str)
    (is : lex s = first ++ tokens) (shows : Shows str cmd tree) :
    ∃ next after, Took s first after ∧ lex after = tokens ∧ Shows str next (redir.around tree) ∧
      parseredirs (fuel + 1) cmd s = parseredirs fuel next after := by
  have taken (op : Token) (text : Word) (redirects : op.redirects = true)
      (is : lex s = op :: .word text :: tokens) :
      ∃ file after, Took s [op, .word text] after ∧ lex after = tokens ∧ file.text = text ∧ file.IsWord str ∧
        parseredirs (fuel + 1) cmd s = parseredirs fuel (redircmd op.code cmd file) after := by
    obtain ⟨_, middle, opRead, tookOp, left, _⟩ := gettoken_skip inside is
    obtain ⟨file, after, fileRead, tookFile, rest, word⟩ := gettoken_cons (tookOp.suffix.trans inside) left
    obtain ⟨same, isWord⟩ := word text rfl
    have ahead : (lex s).head?.any Token.redirects = true := by rw [is]; exact redirects
    refine ⟨file, after, tookOp.trans tookFile, rest, same, isWord, ?_⟩
    simp only [parseredirs, peek_redirects, ahead, if_true, opRead, fileRead]
    rw [if_neg]
    simp [Token.code]
  cases one with
  | @less text =>
    obtain ⟨file, after, took, rest, rfl, isWord, step⟩ := taken .less text rfl is
    exact ⟨_, after, took, rest, shows.redir isWord, step⟩
  | @greater text =>
    obtain ⟨file, after, took, rest, rfl, isWord, step⟩ := taken .greater text rfl is
    exact ⟨_, after, took, rest, shows.redir isWord, step⟩
  | @append text =>
    obtain ⟨file, after, took, rest, rfl, isWord, step⟩ := taken .append text rfl is
    exact ⟨_, after, took, rest, shows.redir isWord, step⟩

theorem parseredirs_stop (ahead : (lex s).head?.any Token.redirects = false) :
    parseredirs (fuel + 1) cmd s = .ok (cmd, skip s) := by
  simp [parseredirs, peek_redirects, ahead]

theorem code_of_not_word {tok : Token} (other : ∀ text, tok ≠ .word text) : tok.code ≠ chr 'a' := by
  cases tok with
  | word text => exact absurd rfl (other text)
  | _ => decide

theorem code_ne_zero (tok : Token) : tok.code ≠ 0 := by
  cases tok with
  | word text =>
    show chr 'a' ≠ 0
    decide
  | _ => decide

theorem parseredirs_missing {op : Token} (redirects : op.redirects = true) (is : lex s = op :: tokens)
    (other : ∀ text, tokens.head? ≠ some (.word text)) : parseredirs (fuel + 1) cmd s = .error .missingFile := by
  obtain ⟨_, middle, first, tookOp, left, _⟩ := gettoken_skip List.suffix_rfl is
  have ahead : (lex s).head?.any Token.redirects = true := by rw [is]; exact redirects
  have kind : (gettoken middle).1 ≠ chr 'a' := by
    cases tokens with
    | nil =>
      rw [gettoken_nil left]
      decide
    | cons tok more =>
      obtain ⟨_, _, second, _⟩ := gettoken_cons List.suffix_rfl left
      rw [second]
      apply code_of_not_word
      intro text same
      exact other text (by rw [same]; rfl)
  simp only [parseredirs, peek_redirects, ahead, if_true, first, kind, ne_eq, not_false_eq_true]

theorem head_redirects (ahead : (lex s).head?.any Token.redirects = true) :
    ∃ op tokens, lex s = op :: tokens ∧ op.redirects = true := by
  cases is : lex s with
  | nil =>
    rw [is] at ahead
    cases ahead
  | cons op tokens =>
    rw [is] at ahead
    exact ⟨op, tokens, rfl, ahead⟩

def Panics (failure : Failure) : Prop := failure ≠ .diverges

def Accepted (str s : Ptr) (derives : List Token → Cmd Word → Prop) (result : Cmd Span × Ptr) : Prop :=
  ∃ used tree, Took s used result.2 ∧ derives used tree ∧ Shows str result.1 tree

theorem parseredirs_ends (enough : s.length < fuel) (inside : s <:+ str) (shows : Shows str cmd tree) :
    Ends Panics (Accepted str s fun used out => ∃ redirs, Redirs used redirs ∧ out = redirected tree redirs)
      (parseredirs fuel cmd s) := by
  induction fuel generalizing s cmd tree with
  | zero => cases enough
  | succ fuel ih =>
    cases ahead : (lex s).head?.any Token.redirects with
    | false =>
      rw [parseredirs_stop ahead]
      exact ⟨[], tree, Took.skip s, ⟨[], .nil, rfl⟩, shows⟩
    | true =>
      obtain ⟨op, tokens, is, redirects⟩ := head_redirects ahead
      by_cases word : ∃ text, tokens.head? = some (.word text)
      · obtain ⟨text, next⟩ := word
        obtain ⟨more, rfl⟩ := List.head?_eq_some_iff.mp next
        obtain ⟨redir, one⟩ := Redir.exists redirects text
        obtain ⟨next, after, took, _, around, step⟩ := parseredirs_redir one inside is shows
        rw [step]
        have shorter := took.length_lt (List.cons_ne_nil _ _)
        apply (ih (by omega) (took.suffix.trans inside) around).weaken
        rintro ⟨out, final⟩ ⟨used, _, later, ⟨redirs, derived, rfl⟩, result⟩
        exact ⟨_, _, took.trans later, ⟨_, .cons one derived, rfl⟩, result⟩
      · rw [parseredirs_missing redirects is (by simpa using word)]
        simp [Ends, Panics]

variable {redirs : List Redirection} {argc : Nat}

theorem parseredirs_complete {used : List Token} (derived : Redirs used redirs)
    (inside : s <:+ str) (is : lex s = used ++ rest) (follow : rest.head?.any Token.redirects = false)
    (shows : Shows str cmd tree) :
    Ends (· = .diverges) (fun result => lex result.2 = rest ∧ result.2 <:+ str ∧
      Shows str result.1 (redirected tree redirs)) (parseredirs fuel cmd s) := by
  induction derived generalizing s cmd tree fuel with
  | nil =>
    cases fuel with
    | zero => rfl
    | succ fuel =>
      rw [List.nil_append] at is
      rw [parseredirs_stop (by rw [is]; exact follow)]
      have start := Took.skip s
      exact ⟨(lex_skip s).trans is, start.suffix.trans inside, shows⟩
  | cons one others ih =>
    cases fuel with
    | zero => rfl
    | succ fuel =>
      rw [List.append_assoc] at is
      obtain ⟨next, after, took, left, around, step⟩ := parseredirs_redir one inside is shows
      rw [step]
      exact ih (took.suffix.trans inside) left around

theorem parseargs_word {text : Word} (inside : s <:+ str) (is : lex s = .word text :: tokens) :
    ∃ word after, Took s [.word text] after ∧ lex after = tokens ∧ word.text = text ∧ word.IsWord str ∧
      parseargs (fuel + 1) cmd argc s =
        if MAXARGS ≤ argc + 1 then .error .tooManyArgs
        else parseredirs fuel (cmd.addArg word) after >>= fun (ret, s) => parseargs fuel ret (argc + 1) s := by
  obtain ⟨word, after, read, took, left, isText⟩ := gettoken_skip inside is
  obtain ⟨same, isWord⟩ := isText text rfl
  have ahead : (lex s).head?.any Token.ends = false := by
    rw [is]
    rfl
  refine ⟨word, after, took, left, same, isWord, ?_⟩
  simp only [parseargs, peek_ends, ahead, Bool.false_eq_true, if_false, read]
  rw [if_neg (code_ne_zero _), if_neg (by simp [Token.code])]

def Token.endsArgs : Option Token → Bool
  | none => true
  | some tok => tok.ends

theorem parseargs_stop (ahead : Token.endsArgs (lex s).head? = true) :
    ∃ after, Took s [] after ∧ parseargs (fuel + 1) cmd argc s = .ok (cmd, after) := by
  cases is : lex s with
  | nil =>
    have none := gettoken_nil ((lex_skip s).trans is)
    have whole : Took s [] [] := ⟨is, List.nil_suffix⟩
    refine ⟨[], whole, ?_⟩
    simp [parseargs, peek_ends, is, none]
  | cons tok more =>
    rw [is] at ahead
    have ends : tok.ends = true := ahead
    refine ⟨skip s, Took.skip s, ?_⟩
    simp [parseargs, peek_ends, is, ends]

theorem parseargs_other {tok : Token} (is : lex s = tok :: tokens) (goesOn : tok.ends = false)
    (other : ∀ text, tok ≠ .word text) : parseargs (fuel + 1) cmd argc s = .error .notWord := by
  obtain ⟨_, _, read, _⟩ := gettoken_skip List.suffix_rfl is
  have ahead : (lex s).head?.any Token.ends = false := by
    rw [is]
    exact goesOn
  simp only [parseargs, peek_ends, ahead, Bool.false_eq_true, if_false, read]
  rw [if_neg (code_ne_zero tok), if_pos (code_of_not_word other)]

theorem parseargs_ends {words : List Word} {own : List Redirection} (enough : s.length + 1 < fuel)
    (inside : s <:+ str) (shows : Shows str cmd (redirected (.exec words) own)) (counted : words.length = argc)
    (few : argc < MAXARGS) :
    Ends Panics (Accepted str s fun used out => ∃ more redirs, Args used more redirs ∧
      (words ++ more).length < MAXARGS ∧ out = redirected (.exec (words ++ more)) (own ++ redirs))
      (parseargs fuel cmd argc s) := by
  induction fuel generalizing s cmd argc words own with
  | zero => cases enough
  | succ fuel ih =>
    cases ahead : Token.endsArgs (lex s).head? with
    | true =>
      obtain ⟨after, took, step⟩ := parseargs_stop ahead
      rw [step]
      exact ⟨[], _, took, ⟨[], [], .nil, by simpa [counted] using few, by simp⟩, shows⟩
    | false =>
      cases is : lex s with
      | nil =>
        rw [is] at ahead
        cases ahead
      | cons tok tokens =>
        rw [is] at ahead
        by_cases isWord : ∃ text, tok = .word text
        · obtain ⟨text, rfl⟩ := isWord
          obtain ⟨word, after, took, _, rfl, isWord, step⟩ := parseargs_word inside is
          rw [step]
          split
          · simp [Ends, Panics]
          · rename_i fewer
            have shorter := took.length_lt (List.cons_ne_nil _ _)
            have added := shows.addArg isWord
            rw [redirected_addArg] at added
            apply (parseredirs_ends (by omega) (took.suffix.trans inside) added).bind
            rintro ⟨ret, middle⟩ ⟨first, _, tookRedirs, ⟨around, redirs, rfl⟩, result⟩
            have notLonger := tookRedirs.suffix.length_le
            have count : (words ++ [word.text]).length = argc + 1 := by simp [counted]
            rw [redirected_append] at result
            apply (ih (by omega) (tookRedirs.suffix.trans (took.suffix.trans inside)) result count
              (by omega)).weaken
            rintro ⟨out, final⟩ ⟨later, _, tookArgs, ⟨more, last, args, short, rfl⟩, final⟩
            have used := took.trans (tookRedirs.trans tookArgs)
            refine ⟨.word word.text :: (first ++ later), _, used,
              ⟨word.text :: more, _, .cons redirs args, ?_, ?_⟩, final⟩
            · simpa using short
            · simp
        · rw [parseargs_other is ahead (by simpa using isWord)]
          simp [Ends, Panics]

theorem Args.head_follows {used : List Token} {words : List Word}
    (derived : Args used words redirs) (follow : Token.endsArgs rest.head? = true) :
    (used ++ rest).head?.any Token.redirects = false := by
  cases derived with
  | nil =>
    cases rest with
    | nil => rfl
    | cons tok more => cases tok <;> first | rfl | cases follow
  | cons around others => rfl

theorem parseargs_complete {words more : List Word} {own : List Redirection} {used : List Token}
    (derived : Args used more redirs) (inside : s <:+ str) (is : lex s = used ++ rest)
    (follow : Token.endsArgs rest.head? = true) (shows : Shows str cmd (redirected (.exec words) own))
    (few : argc + more.length < MAXARGS) :
    Ends (· = .diverges) (fun result => lex result.2 = rest ∧ result.2 <:+ str ∧
      Shows str result.1 (redirected (.exec (words ++ more)) (own ++ redirs))) (parseargs fuel cmd argc s) := by
  induction derived generalizing s cmd words own fuel argc with
  | nil =>
    cases fuel with
    | zero => rfl
    | succ fuel =>
      rw [List.nil_append] at is
      obtain ⟨after, took, step⟩ := parseargs_stop (by rw [is]; exact follow)
      rw [step]
      refine ⟨?_, took.suffix.trans inside, by simpa using shows⟩
      rw [← is, took.tokens, List.nil_append]
  | @cons text first others words' own' redirs' around args ih =>
    cases fuel with
    | zero => rfl
    | succ fuel =>
      rw [List.cons_append, List.append_assoc] at is
      obtain ⟨word, after, took, left, rfl, isWord, step⟩ := parseargs_word inside is
      rw [List.length_cons] at few
      rw [step, if_neg (by omega)]
      have added := shows.addArg isWord
      rw [redirected_addArg] at added
      have next : (others ++ rest).head?.any Token.redirects = false := args.head_follows follow
      apply (parseredirs_complete around (took.suffix.trans inside) left next added).bind
      rintro ⟨ret, middle⟩ ⟨left, inside, shows⟩
      rw [redirected_append] at shows
      apply (ih inside left shows (by omega)).weaken
      rintro ⟨out, final⟩ ⟨left, inside, shows⟩
      exact ⟨left, inside, by simpa using shows⟩

theorem parsebacks_ends (enough : s.length < fuel) (inside : s <:+ str) (shows : Shows str cmd tree) :
    Ends Panics (Accepted str s fun used out => ∃ n, used = List.replicate n .amp ∧ out = backs n tree)
      (parsebacks fuel cmd s) := by
  induction fuel generalizing s cmd tree with
  | zero => cases enough
  | succ fuel ih =>
    by_cases ahead : (lex s).head? = some .amp
    · obtain ⟨tokens, is⟩ := List.head?_eq_some_iff.mp ahead
      obtain ⟨_, after, read, took, _, _⟩ := gettoken_skip inside is
      have shorter := took.length_lt (List.cons_ne_nil _ _)
      simp only [parsebacks, peek_amp, ahead, decide_true, if_true, read]
      apply (ih (by omega) (took.suffix.trans inside) shows.back).weaken
      rintro ⟨out, final⟩ ⟨_, _, later, ⟨n, rfl, rfl⟩, result⟩
      exact ⟨_, _, took.trans later, ⟨n + 1, rfl, rfl⟩, result⟩
    · simp only [parsebacks, peek_amp, ahead, decide_false, Bool.false_eq_true, if_false]
      exact ⟨[], tree, Took.skip s, ⟨0, rfl, rfl⟩, shows⟩

theorem parsebacks_complete {n : Nat} (inside : s <:+ str) (is : lex s = List.replicate n .amp ++ rest)
    (follow : rest.head? ≠ some .amp) (shows : Shows str cmd tree) :
    Ends (· = .diverges) (fun result => lex result.2 = rest ∧ result.2 <:+ str ∧
      Shows str result.1 (backs n tree)) (parsebacks fuel cmd s) := by
  induction n generalizing s cmd tree fuel with
  | zero =>
    cases fuel with
    | zero => rfl
    | succ fuel =>
      have stop : (lex s).head? ≠ some .amp := by
        rw [is]
        exact follow
      simp only [parsebacks, peek_amp, stop, decide_false, Bool.false_eq_true, if_false]
      exact ⟨(lex_skip s).trans is, (Took.skip s).suffix.trans inside, shows⟩
  | succ n ih =>
    cases fuel with
    | zero => rfl
    | succ fuel =>
      rw [List.replicate_succ, List.cons_append] at is
      obtain ⟨_, after, read, took, left, _⟩ := gettoken_skip inside is
      simp only [parsebacks, peek_amp, is, List.head?_cons, decide_true, if_true, read]
      exact ih (took.suffix.trans inside) left shows.back

end Xv6.Shell
