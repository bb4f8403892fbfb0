import Xv6.Shell.Parser

namespace Xv6.Shell

open Xv6.Data

/-! # The grammar of the shell

    line  ::= pipe '&'* [';' line]
    pipe  ::= exec ['|' pipe]
    exec  ::= '(' line ')' redir* | redir* (word redir*)*
    redir ::= ('<' | '>' | '>>') word

over tokens, with the tree of each derivation.  A word is a run of characters, as
long as possible, that are neither whitespace nor symbols; an `exec` has fewer
than `MAXARGS` of them.
-/

abbrev Word := List Byte

inductive Token where
  | less | greater | append | bar | amp | semi | lparen | rparen
  | word (text : Word)
deriving DecidableEq, Repr

def Token.ofSymbol (c : Byte) : Token :=
  if c = chr '<' then .less
  else if c = chr '>' then .greater
  else if c = chr '|' then .bar
  else if c = chr '&' then .amp
  else if c = chr ';' then .semi
  else if c = chr '(' then .lparen
  else .rparen

/-- One more character in front: it begins a word, or belongs to the one that the
string begins with. -/
def addChar (c : Byte) (s : List Byte) (tokens : List Token) : List Token :=
  match s.head?.any isWordChar, tokens with
  | true, .word text :: rest => .word (c :: text) :: rest
  | _, tokens => .word [c] :: tokens

def lex : List Byte → List Token
  | [] => []
  | [c] =>
    if isSpace c then []
    else if isWordChar c then [.word [c]]
    else [.ofSymbol c]
  | c :: d :: rest =>
    if isSpace c then lex (d :: rest)
    else if isWordChar c then addChar c (d :: rest) (lex (d :: rest))
    else if c = chr '>' ∧ d = chr '>' then .append :: lex rest
    else .ofSymbol c :: lex (d :: rest)

inductive Redirection where
  | input (file : Word)
  | output (file : Word)
deriving DecidableEq, Repr

def Redirection.around (cmd : Cmd Word) : Redirection → Cmd Word
  | .input file => .redir cmd file O_RDONLY 0
  | .output file => .redir cmd file (O_WRONLY ||| O_CREATE) 1

/-- The last redirection is the outermost. -/
def redirected (cmd : Cmd Word) (redirs : List Redirection) : Cmd Word := redirs.foldl Redirection.around cmd

inductive Redir : List Token → Redirection → Prop where
  | less {file : Word} : Redir [.less, .word file] (.input file)
  | greater {file : Word} : Redir [.greater, .word file] (.output file)
  | append {file : Word} : Redir [.append, .word file] (.output file)

inductive Redirs : List Token → List Redirection → Prop where
  | nil : Redirs [] []
  | cons {first rest : List Token} {redir : Redirection} {redirs : List Redirection} (one : Redir first redir)
      (others : Redirs rest redirs) : Redirs (first ++ rest) (redir :: redirs)

inductive Args : List Token → List Word → List Redirection → Prop where
  | nil : Args [] [] []
  | cons {text : Word} {first rest : List Token} {words : List Word} {own redirs : List Redirection}
      (around : Redirs first own) (others : Args rest words redirs) :
      Args (.word text :: (first ++ rest)) (text :: words) (own ++ redirs)

inductive Nonterminal where
  | line | pipe | exec
deriving DecidableEq, Repr

def backs (n : Nat) (cmd : Cmd Word) : Cmd Word := Nat.iterate Cmd.back n cmd

inductive Derives : Nonterminal → List Token → Cmd Word → Prop where
  | last {tokens : List Token} {cmd : Cmd Word} {n : Nat} (pipe : Derives .pipe tokens cmd) :
      Derives .line (tokens ++ List.replicate n .amp) (backs n cmd)
  | list {tokens others : List Token} {cmd rest : Cmd Word} {n : Nat} (pipe : Derives .pipe tokens cmd)
      (line : Derives .line others rest) :
      Derives .line (tokens ++ List.replicate n .amp ++ .semi :: others) (.list (backs n cmd) rest)
  | single {tokens : List Token} {cmd : Cmd Word} (exec : Derives .exec tokens cmd) : Derives .pipe tokens cmd
  | pipe {tokens others : List Token} {cmd rest : Cmd Word} (exec : Derives .exec tokens cmd)
      (pipe : Derives .pipe others rest) : Derives .pipe (tokens ++ .bar :: others) (.pipe cmd rest)
  | block {tokens others : List Token} {cmd : Cmd Word} {redirs : List Redirection}
      (line : Derives .line tokens cmd) (around : Redirs others redirs) :
      Derives .exec (.lparen :: (tokens ++ .rparen :: others)) (redirected cmd redirs)
  | exec {first rest : List Token} {words : List Word} {own redirs : List Redirection} (around : Redirs first own)
      (args : Args rest words redirs) (few : words.length < MAXARGS) :
      Derives .exec (first ++ rest) (redirected (.exec words) (own ++ redirs))

variable {s rest : List Byte} {c : Byte}

theorem lex_space (space : isSpace c = true) : lex (c :: s) = lex s := by
  cases s with
  | nil | cons d rest => simp [lex, space]

theorem lex_skip (s : List Byte) : lex (skip s) = lex s := by
  induction s with
  | nil => rfl
  | cons c s ih =>
    by_cases space : isSpace c = true
    · rw [lex_space space, ← ih, skip, List.dropWhile_cons_of_pos space]
      rfl
    · rw [skip, List.dropWhile_cons_of_neg space]

theorem not_space_of_wordChar (word : isWordChar c = true) : isSpace c = false := by
  simp only [isWordChar, isSpace, Bool.and_eq_true, Bool.not_eq_true'] at word ⊢
  exact word.1

theorem lex_word {text : Word} (nonempty : text ≠ []) (all : ∀ c ∈ text, isWordChar c = true)
    (ends : s.head?.any isWordChar = false) : lex (text ++ s) = .word text :: lex s := by
  induction text with
  | nil => exact absurd rfl nonempty
  | cons c text ih =>
    have own : isWordChar c = true := all c List.mem_cons_self
    have notSpace := not_space_of_wordChar own
    cases text with
    | nil =>
      cases s with
      | nil => simp [lex, own, notSpace]
      | cons d rest =>
        have other : isWordChar d = false := by simpa using ends
        simp [lex, own, notSpace, addChar, other]
    | cons d more =>
      have later := ih (List.cons_ne_nil d more) (fun e member => all e (List.mem_cons_of_mem c member))
      have next : isWordChar d = true := all d (List.mem_cons_of_mem c List.mem_cons_self)
      rw [List.cons_append] at later
      simp [lex, own, notSpace, addChar, later, next]

end Xv6.Shell
