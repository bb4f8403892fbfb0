import Xv6.Shell.Grammar

namespace Xv6.Shell

open Xv6.Data

/-! # Scanning

`gettoken` takes the first of the tokens that the rest of the input consists of,
and `peek` looks at it.
-/

variable {str s after : Ptr} {tok : Token} {tokens used : List Token} {c : Byte}

def Span.text (span : Span) : Word := span.q.take (span.q.length - span.eq.length)

structure Span.IsWord (str : Ptr) (span : Span) : Prop where
  split : span.q = span.text ++ span.eq
  nonempty : span.text ≠ []
  all : ∀ c ∈ span.text, isWordChar c = true
  ends : span.eq.head?.any isWordChar = false
  inside : span.q <:+ str

def Token.code : Token → Byte
  | .less => chr '<'
  | .greater => chr '>'
  | .append => chr '+'
  | .bar => chr '|'
  | .amp => chr '&'
  | .semi => chr ';'
  | .lparen => chr '('
  | .rparen => chr ')'
  | .word _ => chr 'a'

/-- The pointer has moved over the tokens. -/
structure Took (s : Ptr) (used : List Token) (after : Ptr) : Prop where
  tokens : lex s = used ++ lex after
  suffix : after <:+ s

theorem Took.trans {later : List Token} {final : Ptr} (first : Took s used after) (second : Took after later final) :
    Took s (used ++ later) final := by
  refine ⟨?_, second.suffix.trans first.suffix⟩
  rw [first.tokens, second.tokens, List.append_assoc]

theorem Took.skip (s : Ptr) : Took s [] (skip s) := by
  refine ⟨?_, List.dropWhile_suffix _⟩
  rw [lex_skip, List.nil_append]

theorem Took.length_lt (took : Took s used after) (some : used ≠ []) : after.length < s.length := by
  apply lt_of_le_of_ne took.suffix.length_le
  intro same
  have equal : after = s := took.suffix.eq_of_length same
  have tokens := took.tokens
  rw [equal] at tokens
  exact some (List.self_eq_append_left.mp tokens)

theorem symbol_cases (notSpace : isSpace c = false) (notWord : isWordChar c = false) : c ∈ symbols := by
  simp only [isSpace, isWordChar, Bool.and_eq_false_iff, Bool.not_eq_false'] at notSpace notWord
  rw [notSpace] at notWord
  simpa using notWord

theorem mem_symbols_iff : c ∈ symbols ↔ c ∈ chars "|();&<" ∨ c = chr '>' := by
  have same : symbols.Perm (chars "|();&<" ++ [chr '>']) := by decide
  rw [same.mem_iff, List.mem_append, List.mem_singleton]

theorem code_ofSymbol (symbol : c ∈ symbols) : (Token.ofSymbol c).code = c := by
  have all : ∀ d ∈ symbols, (Token.ofSymbol d).code = d := by decide
  exact all c symbol

theorem ofSymbol_ne_append (c : Byte) : Token.ofSymbol c ≠ .append := by
  unfold Token.ofSymbol
  split_ifs <;> simp

theorem ofSymbol_ne_word (c : Byte) (text : Word) : Token.ofSymbol c ≠ .word text := by
  unfold Token.ofSymbol
  split_ifs <;> simp

theorem not_wordChar_of_symbol (symbol : c ∈ symbols) : isWordChar c = false := by
  have all : ∀ d ∈ symbols, isWordChar d = false := by decide
  exact all c symbol

theorem not_space_of_symbol (symbol : c ∈ symbols) : isSpace c = false := by
  have all : ∀ d ∈ symbols, isSpace d = false := by decide
  exact all c symbol

theorem lex_symbol (symbol : c ∈ symbols) (single : ¬ (c = chr '>' ∧ s.head? = some (chr '>'))) :
    lex (c :: s) = .ofSymbol c :: lex s := by
  have notWord := not_wordChar_of_symbol symbol
  have notSpace := not_space_of_symbol symbol
  cases s with
  | nil => simp [lex, notWord, notSpace]
  | cons d rest =>
    simp only [List.head?_cons, Option.some.injEq] at single
    simp [lex, notWord, notSpace, single]

theorem lex_append : lex (chr '>' :: chr '>' :: s) = .append :: lex s := by
  have symbol : chr '>' ∈ symbols := by decide
  simp [lex, not_wordChar_of_symbol symbol, not_space_of_symbol symbol]

theorem head_dropWhile (s : Ptr) : (s.dropWhile isWordChar).head?.any isWordChar = false := by
  have stops := List.head?_dropWhile_not isWordChar s
  cases first : (s.dropWhile isWordChar).head? with
  | none => rfl
  | some d =>
    rw [first] at stops
    simpa using stops

theorem scan_word {rest : Ptr} (word : isWordChar c = true) (inside : c :: rest <:+ str) :
    ∃ eq, scan (c :: rest) = (chr 'a', eq) ∧ Took (c :: rest) [.word (Span.text ⟨c :: rest, eq⟩)] eq ∧
      Span.IsWord str ⟨c :: rest, eq⟩ := by
  have notSymbol : c ∉ symbols := by
    intro symbol
    rw [not_wordChar_of_symbol symbol] at word
    cases word
  have scanned : scan (c :: rest) = (chr 'a', (c :: rest).dropWhile isWordChar) := by
    rw [mem_symbols_iff, not_or] at notSymbol
    simp [scan, notSymbol]
  have parts := List.takeWhile_append_dropWhile (p := isWordChar) (l := c :: rest)
  have text : Span.text ⟨c :: rest, (c :: rest).dropWhile isWordChar⟩ = (c :: rest).takeWhile isWordChar := by
    have lengths := congrArg List.length parts
    rw [List.length_append] at lengths
    simp only [Span.text]
    rw [← lengths, Nat.add_sub_cancel]
    nth_rewrite 2 [← parts]
    exact List.take_left
  have nonempty : (c :: rest).takeWhile isWordChar ≠ [] := by simp [word]
  have all : ∀ d ∈ (c :: rest).takeWhile isWordChar, isWordChar d = true := fun d => List.mem_takeWhile_imp
  refine ⟨_, scanned, ⟨?_, List.dropWhile_suffix _⟩, ⟨?_, ?_, ?_, head_dropWhile _, inside⟩⟩
  · rw [text]
    nth_rewrite 1 [← parts]
    exact lex_word nonempty all (head_dropWhile _)
  · rw [text]
    exact parts.symm
  · rw [text]
    exact nonempty
  · rw [text]
    exact all

theorem scan_symbol {rest : Ptr} (symbol : c ∈ symbols) :
    ∃ tok eq, scan (c :: rest) = (tok.code, eq) ∧ Took (c :: rest) [tok] eq ∧ ∀ text, tok ≠ .word text := by
  have whole (after : Ptr) (single : ¬ (c = chr '>' ∧ after.head? = some (chr '>'))) :
      Took (c :: after) [.ofSymbol c] after :=
    ⟨lex_symbol symbol single, List.suffix_cons c after⟩
  by_cases plain : c ∈ chars "|();&<"
  · have different : c ≠ chr '>' := by
      have all : ∀ d ∈ chars "|();&<", d ≠ chr '>' := by decide
      exact all c plain
    refine ⟨.ofSymbol c, rest, ?_, whole rest fun both => different both.1, ofSymbol_ne_word c⟩
    rw [code_ofSymbol symbol]
    simp [scan, plain]
  · obtain rfl : c = chr '>' := (mem_symbols_iff.mp symbol).resolve_left plain
    cases rest with
    | nil => exact ⟨.ofSymbol (chr '>'), [], by rw [code_ofSymbol symbol]; rfl, whole [] (by simp), ofSymbol_ne_word _⟩
    | cons d more =>
      by_cases second : d = chr '>'
      · subst second
        refine ⟨.append, more, ?_, ⟨lex_append, ?_⟩, by simp⟩
        · simp [scan, plain, Token.code]
        · exact (List.suffix_cons _ _).trans (List.suffix_cons _ _)
      · refine ⟨.ofSymbol (chr '>'), d :: more, ?_, whole _ (by simp [second]), ofSymbol_ne_word _⟩
        rw [code_ofSymbol symbol]
        simp [scan, plain, second]

theorem skip_cases (s : Ptr) : skip s = [] ∨ ∃ c rest, skip s = c :: rest ∧ isSpace c = false := by
  have stops := List.head?_dropWhile_not isSpace s
  cases first : skip s with
  | nil => exact .inl rfl
  | cons c rest =>
    rw [skip] at first
    rw [first] at stops
    exact .inr ⟨c, rest, rfl, by simpa using stops⟩

theorem lex_nil_iff : lex s = [] ↔ skip s = [] := by
  constructor
  · intro none
    rcases skip_cases s with empty | ⟨c, rest, is, notSpace⟩
    · exact empty
    · rw [← lex_skip, is] at none
      by_cases word : isWordChar c = true
      · obtain ⟨eq, _, took, _⟩ := scan_word word List.suffix_rfl
        cases none.symm.trans took.tokens
      · obtain ⟨found, eq, _, took, _⟩ := scan_symbol (symbol_cases notSpace (by simpa using word))
        cases none.symm.trans took.tokens
  · intro empty
    rw [← lex_skip, empty]
    rfl

theorem gettoken_nil (none : lex s = []) : gettoken s = (0, ⟨[], []⟩, []) := by
  rw [lex_nil_iff] at none
  simp only [gettoken, none]
  rfl

theorem gettoken_cons (inside : s <:+ str) (is : lex s = tok :: tokens) :
    ∃ span after, gettoken s = (tok.code, span, after) ∧ Took s [tok] after ∧ lex after = tokens ∧
      ∀ text, tok = .word text → span.text = text ∧ span.IsWord str := by
  rcases skip_cases s with empty | ⟨c, rest, skipped, notSpace⟩
  · rw [lex_nil_iff.mpr empty] at is
    cases is
  · have start := Took.skip s
    rw [skipped] at start
    have finish (found : Token) (eq : Ptr) (scanned : scan (c :: rest) = (found.code, eq))
        (took : Took (c :: rest) [found] eq) :
        found = tok ∧ gettoken s = (tok.code, ⟨c :: rest, eq⟩, skip eq) ∧ Took s [tok] (skip eq) ∧
          lex (skip eq) = tokens := by
      have whole := (start.trans took).trans (Took.skip eq)
      have same := whole.tokens
      rw [is] at same
      simp only [List.nil_append, List.append_nil, List.cons_append, List.cons.injEq] at same whole
      obtain ⟨rfl, rfl⟩ := same
      exact ⟨rfl, by simp [gettoken, skipped, scanned], whole, rfl⟩
    by_cases word : isWordChar c = true
    · obtain ⟨eq, scanned, took, isWord⟩ := scan_word word (start.suffix.trans inside)
      obtain ⟨rfl, done, whole, left⟩ := finish (.word (Span.text ⟨c :: rest, eq⟩)) eq scanned took
      refine ⟨_, _, done, whole, left, ?_⟩
      intro text same
      cases same
      exact ⟨rfl, isWord⟩
    · have symbol := symbol_cases notSpace (by simpa using word)
      obtain ⟨found, eq, scanned, took, other⟩ := scan_symbol symbol
      obtain ⟨rfl, done, whole, left⟩ := finish found eq scanned took
      exact ⟨_, _, done, whole, left, fun text same => absurd same (other text)⟩

def Token.startsWith (toks : List Byte) : Token → Bool
  | .word _ => false
  | .append => toks.contains (chr '>')
  | tok => toks.contains tok.code

theorem startsWith_ofSymbol {toks : List Byte} (symbol : c ∈ symbols) :
    (Token.ofSymbol c).startsWith toks = toks.contains c := by
  have code := code_ofSymbol symbol
  have notWord := ofSymbol_ne_word c
  have notAppend := ofSymbol_ne_append c
  cases is : Token.ofSymbol c with
  | word text => exact absurd is (notWord text)
  | append => exact absurd is notAppend
  | _ =>
    rw [is] at code
    rw [← code]
    rfl

theorem peek_eq {toks : List Byte} (known : ∀ c ∈ toks, c ∈ symbols) :
    peek s toks = ((lex s).head?.any (Token.startsWith toks), skip s) := by
  rcases skip_cases s with empty | ⟨c, rest, is, notSpace⟩
  · simp only [peek, empty, lex_nil_iff.mpr empty]
    rfl
  · simp only [peek, is]
    rw [← lex_skip s, is]
    congr 1
    by_cases word : isWordChar c = true
    · obtain ⟨eq, _, took, _⟩ := scan_word word List.suffix_rfl
      rw [took.tokens]
      have absent : c ∉ toks := by
        intro member
        rw [not_wordChar_of_symbol (known c member)] at word
        cases word
      simpa [Token.startsWith] using absent
    · have symbol := symbol_cases notSpace (by simpa using word)
      by_cases double : c = chr '>' ∧ rest.head? = some (chr '>')
      · obtain ⟨rfl, next⟩ := double
        obtain ⟨more, rfl⟩ := List.head?_eq_some_iff.mp next
        rw [lex_append]
        rfl
      · rw [lex_symbol symbol double]
        exact (startsWith_ofSymbol symbol).symm

end Xv6.Shell
