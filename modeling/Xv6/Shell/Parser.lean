import Xv6.Data.Words

namespace Xv6.Shell

open Xv6.Data

/-! # The parser of the shell

`gettoken`, `peek`, `parsecmd` and what it calls, from `sh.c`.  A pointer into the
input is the part of the string from it to the terminating NUL.  The functions take
fuel for their loops and recursive calls; running out of it is an outcome of its own.
-/

def chr (c : Char) : Byte := BitVec.ofNat 8 c.toNat

def chars (text : String) : List Byte := text.toList.map chr

abbrev Ptr := List Byte

def whitespace : List Byte := chars " \t\r\n\x0b"

def symbols : List Byte := chars "<|>&;()"

def MAXARGS : Nat := 10

def O_RDONLY : Nat := 0x000

def O_WRONLY : Nat := 0x001

def O_CREATE : Nat := 0x200

structure Span where
  q : Ptr
  eq : Ptr
deriving DecidableEq, Repr

/-- A `struct cmd`; `Word` is what is kept for a word. -/
inductive Cmd (Word : Type) where
  | exec (argv : List Word)
  | redir (cmd : Cmd Word) (file : Word) (mode : Nat) (fd : Nat)
  | pipe (left right : Cmd Word)
  | list (left right : Cmd Word)
  | back (cmd : Cmd Word)
deriving DecidableEq, Repr

/-- The calls of `panic`: "missing file for redirection", "parseblock", "syntax -
missing )", "syntax" for a token that is not a word, "too many args", and "syntax"
for what is left over; and running out of fuel. -/
inductive Failure where
  | missingFile | parseblock | missingParen | notWord | tooManyArgs | leftovers
  | diverges
deriving DecidableEq, Repr

def isSpace (c : Byte) : Bool := whitespace.contains c

def isWordChar (c : Byte) : Bool := !whitespace.contains c && !symbols.contains c

def skip (s : Ptr) : Ptr := s.dropWhile isSpace

/-- The `switch` of `gettoken`: what it returns and where it leaves `s`. -/
def scan : Ptr → Byte × Ptr
  | [] => (0, [])
  | c :: rest =>
    if (chars "|();&<").contains c then (c, rest)
    else if c = chr '>' then
      match rest with
      | [] => (c, [])
      | d :: more => if d = chr '>' then (chr '+', more) else (c, d :: more)
    else (chr 'a', (c :: rest).dropWhile isWordChar)

def gettoken (s : Ptr) : Byte × Span × Ptr :=
  let q := skip s
  let (ret, eq) := scan q
  (ret, ⟨q, eq⟩, skip eq)

def peek (s : Ptr) (toks : List Byte) : Bool × Ptr :=
  let s := skip s
  match s with
  | [] => (false, s)
  | c :: _ => (toks.contains c, s)

abbrev Parsed := Except Failure (Cmd Span × Ptr)

def redircmd (tok : Byte) (cmd : Cmd Span) (file : Span) : Cmd Span :=
  if tok = chr '<' then .redir cmd file O_RDONLY 0
  else if tok = chr '>' then .redir cmd file (O_WRONLY ||| O_CREATE) 1
  else if tok = chr '+' then .redir cmd file (O_WRONLY ||| O_CREATE) 1
  else cmd

def parseredirs : Nat → Cmd Span → Ptr → Parsed
  | 0, _, _ => .error .diverges
  | fuel + 1, cmd, s =>
    let (more, s) := peek s (chars "<>")
    if more then
      let (tok, _, s) := gettoken s
      let (kind, file, s) := gettoken s
      if kind ≠ chr 'a' then .error .missingFile
      else parseredirs fuel (redircmd tok cmd file) s
    else .ok (cmd, s)

/-- A store into `argv` of the `execcmd` that the redirections are around. -/
def Cmd.addArg {Word : Type} (word : Word) : Cmd Word → Cmd Word
  | .exec argv => .exec (argv ++ [word])
  | .redir cmd file mode fd => .redir (cmd.addArg word) file mode fd
  | cmd => cmd

def parseargs : Nat → Cmd Span → Nat → Ptr → Parsed
  | 0, _, _, _ => .error .diverges
  | fuel + 1, ret, argc, s =>
    let (stop, s) := peek s (chars "|)&;")
    if stop then .ok (ret, s)
    else
      let (tok, word, s) := gettoken s
      if tok = 0 then .ok (ret, s)
      else if tok ≠ chr 'a' then .error .notWord
      else if MAXARGS ≤ argc + 1 then .error .tooManyArgs
      else do
        let (ret, s) ← parseredirs fuel (ret.addArg word) s
        parseargs fuel ret (argc + 1) s

def parsebacks : Nat → Cmd Span → Ptr → Parsed
  | 0, _, _ => .error .diverges
  | fuel + 1, cmd, s =>
    let (more, s) := peek s (chars "&")
    if more then
      let (_, _, s) := gettoken s
      parsebacks fuel (.back cmd) s
    else .ok (cmd, s)

mutual

def parseline : Nat → Ptr → Parsed
  | 0, _ => .error .diverges
  | fuel + 1, s => do
    let (cmd, s) ← parsepipe fuel s
    let (cmd, s) ← parsebacks fuel cmd s
    let (more, s) := peek s (chars ";")
    if more then
      let (_, _, s) := gettoken s
      let (rest, s) ← parseline fuel s
      .ok (.list cmd rest, s)
    else .ok (cmd, s)

def parsepipe : Nat → Ptr → Parsed
  | 0, _ => .error .diverges
  | fuel + 1, s => do
    let (cmd, s) ← parseexec fuel s
    let (more, s) := peek s (chars "|")
    if more then
      let (_, _, s) := gettoken s
      let (rest, s) ← parsepipe fuel s
      .ok (.pipe cmd rest, s)
    else .ok (cmd, s)

def parseblock : Nat → Ptr → Parsed
  | 0, _ => .error .diverges
  | fuel + 1, s =>
    let (opens, s) := peek s (chars "(")
    if opens then do
      let (_, _, s) := gettoken s
      let (cmd, s) ← parseline fuel s
      let (closes, s) := peek s (chars ")")
      if closes then
        let (_, _, s) := gettoken s
        parseredirs fuel cmd s
      else .error .missingParen
    else .error .parseblock

def parseexec : Nat → Ptr → Parsed
  | 0, _ => .error .diverges
  | fuel + 1, s =>
    let (block, s) := peek s (chars "(")
    if block then parseblock fuel s
    else do
      let (ret, s) ← parseredirs fuel (.exec []) s
      parseargs fuel ret 0 s

end

/-- A store of NUL through a pointer into the string of the given length. -/
def putNul (length : Nat) (p : Ptr) (memory : List Byte) : List Byte := memory.set (length - p.length) 0

def nulterminate (length : Nat) : Cmd Span → List Byte → List Byte
  | .exec argv, memory => argv.foldl (fun memory word => putNul length word.eq memory) memory
  | .redir cmd file _ _, memory => putNul length file.eq (nulterminate length cmd memory)
  | .pipe left right, memory => nulterminate length right (nulterminate length left memory)
  | .list left right, memory => nulterminate length right (nulterminate length left memory)
  | .back cmd, memory => nulterminate length cmd memory

/-- The command and the memory of the string, with its terminating NUL, afterwards. -/
def parsecmd (s : List Byte) : Except Failure (Cmd Span × List Byte) := do
  let (cmd, rest) ← parseline (4 * s.length + 5) s
  let (_, rest) := peek rest []
  if rest ≠ [] then .error .leftovers
  else .ok (cmd, nulterminate s.length cmd (s ++ [0]))

end Xv6.Shell
