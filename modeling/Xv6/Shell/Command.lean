import Xv6.Shell.Parsing

namespace Xv6.Shell

open Xv6.Data

/-! # Commands

`nulterminate` stores a NUL after each word. -/

variable {s : Ptr} {memory : List Byte} {cmd : Cmd Span} {span : Span}

def cstring (length : Nat) (memory : List Byte) (span : Span) : Word :=
  (memory.drop (length - span.q.length)).takeWhile fun c => c ≠ 0

def terminateWords (length : Nat) (words : List Span) (memory : List Byte) : List Byte :=
  words.foldl (fun memory word => putNul length word.eq memory) memory

theorem nulterminate_eq (length : Nat) (cmd : Cmd Span) (memory : List Byte) :
    nulterminate length cmd memory = terminateWords length cmd.words memory := by
  induction cmd generalizing memory with
  | exec argv => rfl
  | redir cmd file mode fd ih => simp [nulterminate, ih, terminateWords, Cmd.words]
  | pipe left right ihLeft ihRight | list left right ihLeft ihRight =>
    simp [nulterminate, ihLeft, ihRight, terminateWords, Cmd.words]
  | back cmd ih => exact ih memory

/-- The memory of the string, where only characters outside words are changed. -/
structure Keeps (s memory : List Byte) : Prop where
  length : memory.length = s.length + 1
  kept : ∀ (i : Nat) (c : Byte), s[i]? = some c → isWordChar c = true → memory[i]? = some c

theorem Span.IsWord.eq_suffix (word : span.IsWord s) : span.eq <:+ s := by
  have part : span.eq <:+ span.q := ⟨span.text, word.split.symm⟩
  exact part.trans word.inside

theorem getElem?_of_suffix {p : Ptr} (inside : p <:+ s) (i : Nat) : s[s.length - p.length + i]? = p[i]? := by
  obtain ⟨before, rfl⟩ := inside
  rw [List.length_append, Nat.add_sub_cancel, List.getElem?_append_right (Nat.le_add_right _ _),
    Nat.add_sub_cancel_left]

theorem Keeps.putNul (keeps : Keeps s memory) (word : span.IsWord s) : Keeps s (putNul s.length span.eq memory) := by
  refine ⟨by simpa [Shell.putNul] using keeps.length, ?_⟩
  intro i c is wordChar
  have old := keeps.kept i c is wordChar
  have elsewhere : s.length - span.eq.length ≠ i := by
    rintro rfl
    have first := getElem?_of_suffix word.eq_suffix 0
    rw [Nat.add_zero, is] at first
    have ends := word.ends
    rw [List.head?_eq_getElem?, ← first, Option.any_some, wordChar] at ends
    cases ends
  rw [Shell.putNul, List.getElem?_set_ne elsewhere, old]

theorem putNul_here (keeps : Keeps s memory) :
    (putNul s.length span.eq memory)[s.length - span.eq.length]? = some 0 := by
  have bound := keeps.length
  rw [putNul, List.getElem?_set_self (by omega)]

theorem putNul_zero {length i : Nat} {p : Ptr} (zero : memory[i]? = some 0) :
    (putNul length p memory)[i]? = some 0 := by
  obtain ⟨bound, _⟩ := List.getElem?_eq_some_iff.mp zero
  rw [putNul, List.getElem?_set]
  split
  · simp [*]
  · exact zero

theorem terminateWords_spec {words : List Span} (keeps : Keeps s memory) (all : ∀ span ∈ words, span.IsWord s) :
    Keeps s (terminateWords s.length words memory) ∧
      (∀ i : Nat, memory[i]? = some 0 → (terminateWords s.length words memory)[i]? = some 0) ∧
      ∀ span ∈ words, (terminateWords s.length words memory)[s.length - span.eq.length]? = some 0 := by
  induction words generalizing memory with
  | nil =>
    refine ⟨keeps, fun i zero => zero, ?_⟩
    exact nofun
  | cons first rest ih =>
    have own := all first List.mem_cons_self
    obtain ⟨later, zeros, ends⟩ :=
      ih (keeps.putNul own) fun span member => all span (List.mem_cons_of_mem first member)
    refine ⟨later, fun i zero => zeros i (putNul_zero zero), ?_⟩
    intro span member
    cases member with
    | head => exact zeros _ (putNul_here keeps)
    | tail _ member => exact ends span member

theorem cstring_eq (keeps : Keeps s memory) (word : span.IsWord s)
    (ended : memory[s.length - span.eq.length]? = some 0) (noNul : 0 ∉ s) :
    cstring s.length memory span = span.text := by
  have split := word.split
  have lengths : span.q.length = span.text.length + span.eq.length := by
    rw [← List.length_append, ← split]
  have bound := word.inside.length_le
  have characters : (memory.drop (s.length - span.q.length)).take span.text.length = span.text := by
    apply List.ext_getElem?
    intro i
    by_cases inside : i < span.text.length
    · rw [List.getElem?_take_of_lt inside, List.getElem?_drop]
      have here := getElem?_of_suffix word.inside i
      rw [split, List.getElem?_append_left inside, ← split] at here
      rw [List.getElem?_eq_getElem inside] at here ⊢
      exact keeps.kept _ _ here (word.all _ (List.getElem_mem inside))
    · rw [List.getElem?_eq_none (by simp; omega), List.getElem?_eq_none (by omega)]
  have rest : memory.drop (s.length - span.q.length + span.text.length) =
      0 :: memory.drop (s.length - span.eq.length + 1) := by
    have place : s.length - span.q.length + span.text.length = s.length - span.eq.length := by omega
    obtain ⟨below, zero⟩ := List.getElem?_eq_some_iff.mp ended
    rw [place, List.drop_eq_getElem_cons below, zero]
  have whole : memory.drop (s.length - span.q.length) =
      span.text ++ 0 :: memory.drop (s.length - span.eq.length + 1) := by
    have parts := List.take_append_drop span.text.length (memory.drop (s.length - span.q.length))
    rw [characters, List.drop_drop, rest] at parts
    exact parts.symm
  have nonzero : ∀ c ∈ span.text, decide (c ≠ 0) = true := by
    intro c member
    have inString : c ∈ s := word.inside.subset (by rw [split]; exact List.mem_append_left _ member)
    simp only [ne_eq, decide_not, Bool.not_eq_true', decide_eq_false_iff_not]
    rintro rfl
    exact noNul inString
  rw [cstring, whole, List.takeWhile_append_of_pos nonzero]
  simp

theorem Cmd.map_congr {A B : Type} {f g : A → B} {cmd : Cmd A} (same : ∀ word ∈ cmd.words, f word = g word) :
    cmd.map f = cmd.map g := by
  induction cmd with
  | exec argv => exact congrArg Cmd.exec (List.map_congr_left same)
  | redir cmd file mode fd ih =>
    have file := same file (by simp [Cmd.words])
    rw [Cmd.map, Cmd.map, ih fun word member => same word (List.mem_append_left _ member), file]
  | pipe left right ihLeft ihRight | list left right ihLeft ihRight =>
    rw [Cmd.map, Cmd.map, ihLeft fun word member => same word (List.mem_append_left _ member),
      ihRight fun word member => same word (List.mem_append_right _ member)]
  | back cmd ih => rw [Cmd.map, Cmd.map, ih same]

def Cmd.strings (length : Nat) (memory : List Byte) (cmd : Cmd Span) : Cmd Word := cmd.map (cstring length memory)

theorem Shows.cstrings {tree : Cmd Word} (shows : Shows s cmd tree) (noNul : 0 ∉ s) (word : Span)
    (member : word ∈ cmd.words) : cstring s.length (nulterminate s.length cmd (s ++ [0])) word = word.text := by
  have start : Keeps s (s ++ [0]) := by
    refine ⟨by simp, ?_⟩
    intro i c is _
    obtain ⟨bound, _⟩ := List.getElem?_eq_some_iff.mp is
    rw [List.getElem?_append_left bound, is]
  obtain ⟨keeps, _, ends⟩ := terminateWords_spec start shows.words
  rw [nulterminate_eq]
  exact cstring_eq keeps (shows.words word member) (ends word member) noNul

theorem Shows.strings {tree : Cmd Word} (shows : Shows s cmd tree) (noNul : 0 ∉ s) :
    cmd.strings s.length (nulterminate s.length cmd (s ++ [0])) = tree := by
  rw [← shows.text]
  exact Cmd.map_congr (shows.cstrings noNul)

theorem peek_nil (s : Ptr) : peek s [] = (false, skip s) := by
  unfold peek
  cases skip s with
  | nil | cons c rest => rfl

theorem parsecmd_shows (s : List Byte) :
    Ends Panics (fun result => result.2 = nulterminate s.length result.1 (s ++ [0]) ∧
      ∃ tree, Derives .line (lex s) tree ∧ Shows s result.1 tree) (parsecmd s) := by
  apply ((Enough.all s _).line s (by omega) List.suffix_rfl).bind
  rintro ⟨cmd, rest⟩ ⟨used, tree, took, derived, shows⟩
  simp only [peek_nil]
  split
  · simp [Ends, Panics]
  · rename_i whole
    have tokens := took.tokens
    rw [← lex_skip rest, not_not.mp whole, lex, List.append_nil] at tokens
    exact ⟨rfl, tree, tokens ▸ derived, shows⟩

theorem parsecmd_ends (noNul : 0 ∉ s) :
    Ends Panics (fun result => Derives .line (lex s) (result.1.strings s.length result.2)) (parsecmd s) := by
  apply (parsecmd_shows s).weaken
  intro result ⟨stored, tree, derived, shows⟩
  rw [stored, shows.strings noNul]
  exact derived

/-- At no call does the fuel run out, so the only results are those of the grammar. -/
theorem parsecmd_complete {tree : Cmd Word} (noNul : 0 ∉ s) (derived : Derives .line (lex s) tree) :
    Ends (fun _ => False) (fun result => result.1.strings s.length result.2 = tree) (parsecmd s) := by
  have ends := (Enough.all s (4 * s.length + 5)).line s (by omega) List.suffix_rfl
  have accepts : Ends (· = .diverges) (fun result => lex result.2 = [] ∧ result.2 <:+ s ∧ Shows s result.1 tree)
      (parse .line (4 * s.length + 5) s) := parse_complete derived List.suffix_rfl (List.append_nil _).symm rfl
  have both : Ends (fun _ => False) (fun result => lex result.2 = [] ∧ Shows s result.1 tree)
      (parseline (4 * s.length + 5) s) := by
    cases result : parseline (4 * s.length + 5) s with
    | ok value =>
      obtain ⟨left, _, shows⟩ := accepts.of_ok result
      exact ⟨left, shows⟩
    | error reason => exact ends.of_error result (accepts.of_error result)
  apply both.bind
  rintro ⟨cmd, rest⟩ ⟨left, shows⟩
  have whole : skip rest = [] := lex_nil_iff.mp left
  simp only [peek_nil, whole, ne_eq, not_true_eq_false, if_false]
  exact shows.strings noNul

/-- The parser ends on every line; it accepts the lines of the grammar, and builds the one
tree that the grammar gives them. -/
theorem parsecmd_accepts_grammar (s : List Byte) (noNul : 0 ∉ s) : parsecmd s ≠ .error .diverges ∧
      ((∃ result, parsecmd s = .ok result) ↔ ∃ tree, Derives .line (lex s) tree) ∧
      ∀ cmd memory, parsecmd s = .ok (cmd, memory) →
        ∀ tree, Derives .line (lex s) tree ↔ tree = cmd.strings s.length memory := by
  have ends := parsecmd_ends noNul
  refine ⟨?_, ⟨?_, ?_⟩, ?_⟩
  · intro diverges
    exact ends.of_error diverges rfl
  · rintro ⟨result, accepted⟩
    exact ⟨_, ends.of_ok accepted⟩
  · rintro ⟨tree, derived⟩
    have accepts := parsecmd_complete noNul derived
    cases result : parsecmd s with
    | ok value => exact ⟨value, rfl⟩
    | error reason => exact (accepts.of_error result).elim
  · intro cmd memory accepted tree
    constructor
    · intro derived
      exact ((parsecmd_complete noNul derived).of_ok accepted).symm
    · rintro rfl
      exact ends.of_ok accepted

theorem parsecmd_accepts_grammar_block :
    ∃ tree, Derives .line (lex (chars "a <b c|(d; e >>f)&")) tree := by
  have accepted : (parsecmd (chars "a <b c|(d; e >>f)&")).isOk = true := by decide +kernel
  apply (parsecmd_accepts_grammar (chars "a <b c|(d; e >>f)&") (by decide)).2.1.mp
  cases result : parsecmd (chars "a <b c|(d; e >>f)&") with
  | ok value => exact ⟨value, rfl⟩
  | error reason =>
    rw [result] at accepted
    cases accepted

/-- After `nulterminate` every word is the C string of its token, and each of its stores was through a pointer
into the line or to the NUL behind it. -/
theorem parsecmd_words_intact (s : List Byte) (noNul : 0 ∉ s) {cmd : Cmd Span} {memory : List Byte}
    (accepted : parsecmd s = .ok (cmd, memory)) : Derives .line (lex s) cmd.text ∧
      (∀ word ∈ cmd.words, word.IsWord s ∧ cstring s.length memory word = word.text) ∧
      memory = terminateWords s.length cmd.words (s ++ [0]) ∧ ∀ word ∈ cmd.words, word.eq <:+ s := by
  obtain ⟨stored, tree, derived, shows⟩ := (parsecmd_shows s).of_ok accepted
  dsimp only at stored shows
  rw [shows.text, stored, ← nulterminate_eq]
  refine ⟨derived, ?_, rfl, fun word member => (shows.words word member).eq_suffix⟩
  exact fun word member => ⟨shows.words word member, shows.cstrings noNul word member⟩

theorem parsecmd_words_intact_pipe :
    ∃ cmd memory, parsecmd (chars "ls>f|wc;(a)") = .ok (cmd, memory) ∧
      ∀ word ∈ cmd.words, cstring 11 memory word = word.text := by
  have accepted : (parsecmd (chars "ls>f|wc;(a)")).isOk = true := by decide +kernel
  cases result : parsecmd (chars "ls>f|wc;(a)") with
  | ok value =>
    refine ⟨value.1, value.2, rfl, ?_⟩
    exact fun word member => ((parsecmd_words_intact _ (by decide) result).2.1 word member).2
  | error reason =>
    rw [result] at accepted
    cases accepted

end Xv6.Shell
