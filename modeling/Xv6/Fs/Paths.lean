import Xv6.Fs.Room
import Xv6.Fs.Runs
import Mathlib.Data.List.DropRight
import Mathlib.Data.List.TakeWhile
import Mathlib.Logic.Relation

namespace Xv6.Fs

open Xv6.Data Xv6.Disk

/-! # Strings and paths

`namex` on the bytes of the path and the buffer for the name is a fold over the
components of the path.  A `char *` is the list of the bytes from there on.
-/

/-- The name in a buffer of `DIRSIZ` bytes, which need not be terminated. -/
def bufferName (name : List Byte) : List Byte := (name.take DIRSIZ).takeWhile (· ≠ 0)

namespace Strings

/-- The new `path` and the new contents of `name`. -/
def skipelem (path name : List Byte) : Option (List Byte × List Byte) :=
  let s := path.dropWhile (· = slash)
  if s.headD 0 = 0 then none
  else
    let path := s.dropWhile fun b => b ≠ slash ∧ b ≠ 0
    let len := s.length - path.length
    let name :=
      if DIRSIZ ≤ len then s.take DIRSIZ ++ name.drop DIRSIZ
      else s.take len ++ 0 :: name.drop (len + 1)
    some (path.dropWhile (· = slash), name)

/-- The loop of `namex`, which shortens the path in each round.  The last contents of
`name` are returned with the inode. -/
def namexLoop (nameiparent : Bool) : Nat → Inum → List Byte → List Byte → Code (Option Inum × List Byte)
  | 0, _, _, _ => .stop .fuel
  | fuel + 1, ip, path, name =>
    match skipelem path name with
    | none =>
      if nameiparent then do
        iput ip
        pure (none, name)
      else pure (some ip, name)
    | some (path, name) => do
      ilock ip
      let f ← fields ip
      if f.type ≠ .dir then do
        iunlockput ip
        pure (none, name)
      else if nameiparent ∧ path.headD 0 = 0 then do
        iunlock ip
        pure (some ip, name)
      else
        match ← dirlookup ip name with
        | none =>
          iunlockput ip
          pure (none, name)
        | some (next, _) =>
          iunlockput ip
          namexLoop nameiparent fuel next path name

def namex (cwd : Inum) (path : List Byte) (nameiparent : Bool) (name : List Byte) : Code (Option Inum × List Byte) := do
  if path.headD 0 = slash then do
    iget ROOTINO
    namexLoop nameiparent (path.length + 1) ROOTINO path name
  else do
    idup cwd
    namexLoop nameiparent (path.length + 1) cwd path name

/-- `name` is what the array on the stack holds before. -/
def namei (cwd : Inum) (path name : List Byte) : Code (Option Inum) := do
  let (ip, _) ← namex cwd path false name
  pure ip

def nameiparent (cwd : Inum) (path name : List Byte) : Code (Option Inum × List Byte) :=
  namex cwd path true name

end Strings

def cstring (path : List Byte) : List Byte := path.takeWhile (· ≠ 0)

def components (path : List Byte) : List (List Byte) :=
  (((cstring path).splitOn slash).filter (· ≠ [])).map (List.take DIRSIZ)

theorem components_slash (path : List Byte) : components (slash :: path) = components path := by
  have first : cstring (slash :: path) = slash :: cstring path := rfl
  have split : (slash :: cstring path).splitOn slash = [] :: (cstring path).splitOn slash := by
    simp [List.splitOn, List.splitOnP_cons_eq_if_modifyHead]
  rw [components, first, split]
  rfl

theorem components_dropWhile (path : List Byte) : components (path.dropWhile (· = slash)) = components path := by
  induction path with
  | nil => rfl
  | cons b rest ih =>
    by_cases isSlash : b = slash
    · subst b
      rw [List.dropWhile_cons_of_pos (by simp), ih, components_slash]
    · rw [List.dropWhile_cons_of_neg (by simpa using isSlash)]

theorem components_of_end {path : List Byte} (ended : path.headD 0 = 0) : components path = [] := by
  have empty : cstring path = [] := by
    cases path with
    | nil => rfl
    | cons b rest =>
      rw [List.headD_cons] at ended
      simp [cstring, ended]
  rw [components, empty]
  rfl

theorem components_word {word rest : List Byte} (nonempty : word ≠ []) (plain : ∀ b ∈ word, b ≠ slash ∧ b ≠ 0)
    (ended : rest.headD 0 = 0 ∨ rest.headD 0 = slash) :
    components (word ++ rest) = word.take DIRSIZ :: components rest := by
  have whole : cstring (word ++ rest) = word ++ cstring rest := by
    rw [cstring, List.takeWhile_append_of_pos]
    · rfl
    · exact fun b inWord => by simpa using (plain b inWord).2
  have noSlash : ∀ b ∈ word, (b == slash) = false := fun b inWord => by simpa using (plain b inWord).1
  cases ended with
  | inl isEnd =>
    have nothing : cstring rest = [] := by
      cases rest with
      | nil => rfl
      | cons b rest =>
        rw [List.headD_cons] at isEnd
        simp [cstring, isEnd]
    rw [components_of_end isEnd, components, whole, nothing, List.append_nil, List.splitOn,
      List.splitOnP_eq_singleton noSlash]
    simp [nonempty]
  | inr isSlash =>
    cases rest with
    | nil => cases isSlash
    | cons b rest =>
      rw [List.headD_cons] at isSlash
      subst b
      have first : cstring (slash :: rest) = slash :: cstring rest := rfl
      rw [components_slash, components, whole, first, List.splitOn,
        List.splitOnP_append_cons_of_forall_mem noSlash _ (by simp)]
      simp [nonempty, components, List.splitOn]

theorem headD_dropWhile {p : Byte → Bool} (holds : Byte → Prop) (zero : holds 0)
    (stops : ∀ b, p b = false → holds b) (path : List Byte) : holds ((path.dropWhile p).headD 0) := by
  induction path with
  | nil => exact zero
  | cons b rest ih =>
    cases goesOn : p b with
    | true =>
      rw [List.dropWhile_cons_of_pos goesOn]
      exact ih
    | false =>
      rw [List.dropWhile_cons_of_neg (by simp [goesOn])]
      exact stops b goesOn

theorem headD_slashes (path : List Byte) : (path.dropWhile (· = slash)).headD 0 ≠ slash :=
  headD_dropWhile (· ≠ slash) (by decide) (fun _ stopped => of_decide_eq_false stopped) path

namespace Strings

variable {path name rest buffer : List Byte}

def store (word name : List Byte) : List Byte :=
  if DIRSIZ ≤ word.length then word.take DIRSIZ ++ name.drop DIRSIZ
  else word ++ 0 :: name.drop (word.length + 1)

theorem bufferName_store {word : List Byte} (plain : ∀ b ∈ word, b ≠ 0) (name : List Byte) :
    bufferName (store word name) = word.take DIRSIZ := by
  have kept (bytes : List Byte) (among : ∀ b ∈ bytes, b ∈ word) : bytes.takeWhile (· ≠ 0) = bytes := by
    rw [List.takeWhile_eq_self_iff]
    exact fun b member => by simpa using plain b (among b member)
  unfold store bufferName
  split
  · rename_i long
    rw [List.take_append_of_le_length (by simp; omega), List.take_take, Nat.min_self]
    exact kept _ fun b member => List.mem_of_mem_take member
  · rename_i short
    have room : DIRSIZ - word.length = (DIRSIZ - word.length - 1) + 1 := by omega
    rw [List.take_append, room, List.take_succ_cons, List.take_of_length_le (by omega),
      List.takeWhile_append_of_pos fun b member => by simpa using plain b member]
    simp

theorem skipelem_some (skipped : skipelem path name = some (rest, buffer)) :
    ∃ word after, path.dropWhile (· = slash) = word ++ after ∧ word ≠ [] ∧ (∀ b ∈ word, b ≠ slash ∧ b ≠ 0) ∧
      (after.headD 0 = 0 ∨ after.headD 0 = slash) ∧ rest = after.dropWhile (· = slash) ∧
      buffer = store word name := by
  have noSlash := headD_slashes path
  simp only [skipelem] at skipped
  generalize path.dropWhile (· = slash) = s at skipped noSlash ⊢
  split at skipped
  · cases skipped
  · rename_i started
    cases skipped
    have whole := List.takeWhile_append_dropWhile (p := fun b => decide (b ≠ slash ∧ b ≠ 0)) (l := s)
    have length := congrArg List.length whole
    rw [List.length_append] at length
    have taken (n : Nat) (inside : n ≤ (s.takeWhile fun b => decide (b ≠ slash ∧ b ≠ 0)).length) :
        s.take n = (s.takeWhile fun b => decide (b ≠ slash ∧ b ≠ 0)).take n := by
      nth_rewrite 1 [← whole]
      exact List.take_append_of_le_length inside
    refine ⟨_, _, whole.symm, ?_, ?_, ?_, rfl, ?_⟩
    · cases s with
      | nil => exact absurd rfl started
      | cons b rest =>
        have plain : b ≠ slash ∧ b ≠ 0 := ⟨noSlash, started⟩
        rw [List.takeWhile_cons_of_pos (by simpa using plain)]
        exact List.cons_ne_nil b _
    · intro b member
      simpa using List.mem_takeWhile_imp member
    · apply headD_dropWhile (fun b => b = 0 ∨ b = slash) (.inl rfl)
      intro b stopped
      have notPlain : ¬(b ≠ slash ∧ b ≠ 0) := of_decide_eq_false stopped
      by_cases isSlash : b = slash
      · exact .inr isSlash
      · exact .inl (by_contra fun nonzero => notPlain ⟨isSlash, nonzero⟩)
    · unfold store
      have size : s.length - (s.dropWhile fun b => decide (b ≠ slash ∧ b ≠ 0)).length =
          (s.takeWhile fun b => decide (b ≠ slash ∧ b ≠ 0)).length := by omega
      rw [size]
      split
      · rename_i long
        rw [taken _ long]
      · rw [taken _ le_rfl, List.take_length]

/-- One round of the loop takes the first component off the path. -/
theorem components_skipelem (path name : List Byte) : components path =
      match skipelem path name with
      | none => []
      | some (rest, buffer) => bufferName buffer :: components rest := by
  cases skipped : skipelem path name with
  | none =>
    rw [← components_dropWhile]
    apply components_of_end
    simp only [skipelem] at skipped
    by_contra started
    rw [if_neg started] at skipped
    cases skipped
  | some found =>
    obtain ⟨rest, buffer⟩ := found
    obtain ⟨word, after, whole, nonempty, plain, ended, rfl, rfl⟩ := skipelem_some skipped
    rw [← components_dropWhile, whole, components_word nonempty plain ended]
    simp only [components_dropWhile, bufferName_store fun b member => (plain b member).2]

theorem skipelem_shorter (skipped : skipelem path name = some (rest, buffer)) : rest.length < path.length := by
  obtain ⟨word, after, whole, nonempty, _, _, rfl, _⟩ := skipelem_some skipped
  have outer := List.length_dropWhile_le (· = slash) path
  have inner := List.length_dropWhile_le (· = slash) after
  have positive := List.length_pos_iff.mpr nonempty
  rw [whole, List.length_append] at outer
  omega

theorem components_rest (skipped : skipelem path name = some (rest, buffer)) :
    rest.headD 0 = 0 ↔ components rest = [] := by
  obtain ⟨word, after, _, _, _, _, rfl, _⟩ := skipelem_some skipped
  constructor
  · exact components_of_end
  · intro nothing
    by_contra started
    rw [components_skipelem _ name, skipelem, List.dropWhile_idempotent, if_neg started] at nothing
    cases nothing

theorem strncmp_takeWhile (p q : List Byte) (n : Nat) : strncmp ((p.take n).takeWhile (· ≠ 0)) q n = strncmp p q n := by
  induction n generalizing p q with
  | zero => rfl
  | succ n ih =>
    cases p with
    | nil => rfl
    | cons b rest =>
      rw [List.take_succ_cons]
      by_cases zero : b = 0
      · subst b
        rfl
      · rw [List.takeWhile_cons_of_pos (by simpa using zero)]
        simp only [strncmp, List.headD_cons, List.tail_cons]
        rw [ih]
        rfl

theorem namecmp_bufferName (name other : List Byte) : namecmp (bufferName name) other = namecmp name other :=
  strncmp_takeWhile name other DIRSIZ

theorem dirlookup_bufferName (dp : Inum) (name : List Byte) : dirlookup dp (bufferName name) = dirlookup dp name := by
  have loop (offsets : List Nat) : dirlookupLoop dp (bufferName name) offsets = dirlookupLoop dp name offsets := by
    induction offsets with
    | nil => rfl
    | cons off rest ih => simp only [dirlookupLoop, ih, namecmp_bufferName]
  simp only [dirlookup, loop]

def summary (nameiparent : Bool) (r : Option Inum × List Byte) : Option (Inum × List Byte) :=
  r.1.map fun ip => (ip, if nameiparent then bufferName r.2 else [])

/-- On the bytes of a path the loop does what it does on the list of its components. -/
theorem namexLoop_components (parent : Bool) (fuel : Nat) (ip : Inum) (path name : List Byte)
    (enough : path.length < fuel) :
    (namexLoop parent fuel ip path name >>= fun r => pure (summary parent r)) =
      Fs.namexLoop parent ip (components path) := by
  induction fuel generalizing ip path name with
  | zero => omega
  | succ fuel ih =>
    rw [components_skipelem path name, namexLoop]
    cases skipped : skipelem path name with
    | none =>
      cases parent with
      | true | false => rfl
    | some found =>
      obtain ⟨rest, buffer⟩ := found
      have shorter := skipelem_shorter skipped
      simp only [Fs.namexLoop, bind_assoc, ← components_rest skipped, dirlookup_bufferName]
      apply bind_congr
      intro _
      apply bind_congr
      intro f
      split
      · rfl
      · split
        · rename_i last
          simp only [last.1]
          rfl
        · rw [bind_assoc]
          apply bind_congr
          intro r
          cases r with
          | none => rfl
          | some next =>
            simp only [bind_assoc]
            apply bind_congr
            intro _
            exact ih next.1 rest buffer (by omega)

end Strings

theorem elementsFrom_components (fuel : Nat) (path : List Byte) (plain : ∀ b ∈ path, b ≠ 0)
    (enough : path.length ≤ fuel) : elementsFrom fuel path = components path := by
  induction fuel generalizing path with
  | zero =>
    rw [List.eq_nil_of_length_eq_zero (Nat.le_zero.mp enough)]
    rfl
  | succ fuel ih =>
    have noSlash := headD_slashes path
    have outer := List.length_dropWhile_le (· = slash) path
    have among : ∀ b ∈ path.dropWhile (· = slash), b ≠ 0 :=
      fun b member => plain b ((List.dropWhile_sublist _).subset member)
    rw [elementsFrom, skipelem, ← components_dropWhile]
    cases started : path.dropWhile (· = slash) with
    | nil => rfl
    | cons b r =>
      rw [started] at noSlash outer among
      have whole := List.takeWhile_append_dropWhile (p := fun b => decide (b ≠ slash)) (l := b :: r)
      have ended : ((b :: r).dropWhile (· ≠ slash)).headD 0 = 0 ∨
          ((b :: r).dropWhile (· ≠ slash)).headD 0 = slash :=
        headD_dropWhile (fun b => b = 0 ∨ b = slash) (.inl rfl) (fun b stopped => .inr (by simpa using stopped)) (b :: r)
      have nonempty : (b :: r).takeWhile (· ≠ slash) ≠ [] := by
        rw [List.takeWhile_cons_of_pos (by simpa using noSlash)]
        exact List.cons_ne_nil b _
      have size := congrArg List.length whole
      have positive := List.length_pos_iff.mpr nonempty
      have inner := List.length_dropWhile_le (· = slash) ((b :: r).dropWhile (· ≠ slash))
      rw [List.length_append] at size
      have word : ∀ c ∈ (b :: r).takeWhile (· ≠ slash), c ≠ slash ∧ c ≠ 0 := by
        intro c member
        exact ⟨by simpa using List.mem_takeWhile_imp member, among c ((List.takeWhile_sublist _).subset member)⟩
      have parts := components_word nonempty word ended
      have tail := ih (((b :: r).dropWhile (· ≠ slash)).dropWhile (· = slash))
        (fun c member => among c ((List.dropWhile_sublist _).subset ((List.dropWhile_sublist _).subset member)))
        (by omega)
      rw [whole, ← components_dropWhile (List.dropWhile _ _), ← tail] at parts
      exact parts.symm

theorem elements_eq_components (path : List Byte) : elements path = components path := by
  have same : components (path.takeWhile (· ≠ 0)) = components path := by
    simp only [components, cstring, List.takeWhile_idem]
  rw [elements, elementsFrom_components, same]
  · exact fun b member => by simpa using List.mem_takeWhile_imp member
  · exact (List.takeWhile_sublist _).length_le

def child (inode : Inum → Inode) (dp : Inum) (name : List Byte) : Option Inum :=
  if (inode dp).type = .dir then
    (lookup (inode dp).data name).map fun k => (direntAt (inode dp).data k).inum.toNat
  else none

def pathTarget (inode : Inum → Inode) (cwd : Inum) (path : List Byte) : Option Inum :=
  (components path).foldlM (child inode) (start cwd path)

def pathParent (inode : Inum → Inode) (cwd : Inum) (path : List Byte) : Option (Inum × List Byte) := do
  let last ← (components path).getLast?
  let dp ← (components path).dropLast.foldlM (child inode) (start cwd path)
  if (inode dp).type = .dir then some (dp, last) else none

theorem resolve_target (inode : Inum → Inode) (names : List (List Byte)) (ip : Inum) :
    (resolve inode false ip names).map Prod.fst = names.foldlM (child inode) ip := by
  induction names generalizing ip with
  | nil => rfl
  | cons name rest ih =>
    simp only [resolve, List.foldlM_cons, child]
    by_cases isDir : (inode ip).type = .dir
    · simp only [isDir, ne_eq, not_true_eq_false, ↓reduceIte, Bool.false_eq_true, false_and]
      cases lookup (inode ip).data name with
      | none => rfl
      | some k => exact ih _
    · simp only [isDir, ne_eq, not_false_eq_true, ↓reduceIte]
      rfl

theorem resolve_parent (inode : Inum → Inode) (names : List (List Byte)) (last : List Byte) (ip : Inum) :
    resolve inode true ip (names ++ [last]) =
      (names.foldlM (child inode) ip).bind fun dp => if (inode dp).type = .dir then some (dp, last) else none := by
  induction names generalizing ip with
  | nil =>
    simp only [List.nil_append, resolve, and_self, ↓reduceIte, ite_not]
    rfl
  | cons name rest ih =>
    simp only [List.cons_append, resolve, List.foldlM_cons, child]
    by_cases isDir : (inode ip).type = .dir
    · simp only [isDir, ne_eq, not_true_eq_false, ↓reduceIte, List.append_eq_nil_iff, List.cons_ne_self, and_false]
      cases lookup (inode ip).data name with
      | none => rfl
      | some k => exact ih _
    · simp only [isDir, ne_eq, not_false_eq_true, ↓reduceIte]
      rfl

theorem resolve_pathParent (inode : Inum → Inode) (cwd : Inum) (path : List Byte) :
    resolve inode true (start cwd path) (components path) = pathParent inode cwd path := by
  cases List.eq_nil_or_concat (components path) with
  | inl none => simp [pathParent, none, resolve]
  | inr some =>
    obtain ⟨names, last, equal⟩ := some
    rw [pathParent, equal, List.concat_eq_append, resolve_parent, List.getLast?_concat, List.dropLast_concat]
    rfl

/-- The last component is looked up in the directory before it. -/
theorem target_of_parent {inode : Inum → Inode} {cwd dp : Inum} {path last : List Byte}
    (parent : pathParent inode cwd path = some (dp, last)) : pathTarget inode cwd path = child inode dp last := by
  cases List.eq_nil_or_concat (components path) with
  | inl none => simp [pathParent, none] at parent
  | inr some =>
    obtain ⟨names, name, equal⟩ := some
    rw [List.concat_eq_append] at equal
    rw [pathParent, equal, List.getLast?_concat, List.dropLast_concat] at parent
    rw [pathTarget, equal, List.foldlM_append]
    cases walked : names.foldlM (child inode) (start cwd path) with
    | none =>
      rw [walked] at parent
      cases parent
    | some found =>
      rw [walked] at parent
      simp only [Option.bind_eq_bind, Option.bind_some] at parent
      split at parent
      · cases parent
        rw [Option.bind_eq_bind, Option.bind_some, List.foldlM_cons]
        exact bind_pure _
      · cases parent

inductive MoreSlashes : List Byte → List Byte → Prop where
  | repeated (before after : List Byte) : MoreSlashes (before ++ slash :: slash :: after) (before ++ slash :: after)
  | trailing (path : List Byte) (nonempty : path ≠ []) : MoreSlashes (path ++ [slash]) path

theorem cstring_append (path : List Byte) :
    (∀ rest, cstring (path ++ rest) = path ++ cstring rest) ∨ ∀ rest, cstring (path ++ rest) = cstring path := by
  simp only [cstring, List.takeWhile_append]
  by_cases whole : (path.takeWhile (· ≠ 0)).length = path.length
  · exact .inl fun _ => if_pos whole
  · exact .inr fun _ => if_neg whole

namespace MoreSlashes

variable {path other : List Byte}

theorem components (more : MoreSlashes path other) : components path = components other := by
  have first (rest : List Byte) : cstring (slash :: rest) = slash :: cstring rest := rfl
  have split (xs ys : List Byte) : (xs ++ slash :: ys).splitOn slash = xs.splitOn slash ++ ys.splitOn slash :=
    List.splitOnP_append_cons xs ys (by simp)
  have empty (ys : List Byte) : (slash :: ys).splitOn slash = [] :: ys.splitOn slash := split [] ys
  simp only [Fs.components]
  cases more with
  | repeated before after =>
    cases cstring_append before with
    | inl whole =>
      simp only [whole, first, split, empty, List.filter_append, List.filter_cons, ne_eq, not_true_eq_false,
        decide_false, Bool.false_eq_true, ↓reduceIte]
    | inr ended => rw [ended, ended]
  | trailing path nonempty =>
    have none := cstring_append other
    cases none with
    | inl whole =>
      have same : cstring other = other := by simpa [cstring] using whole []
      have nothing : cstring ([] : List Byte) = [] := rfl
      rw [whole, same, first, nothing, split, List.filter_append]
      simp
    | inr ended => rw [ended]

theorem start (more : MoreSlashes path other) (cwd : Inum) : start cwd path = start cwd other := by
  cases more with
  | repeated before after =>
    cases before with
    | nil | cons b rest => rfl
  | trailing path nonempty =>
    cases other with
    | nil => exact absurd rfl nonempty
    | cons b rest => rfl

end MoreSlashes

theorem slashes_alike {path other : List Byte} (alike : Relation.EqvGen MoreSlashes path other) (cwd : Inum) :
    components path = components other ∧ start cwd path = start cwd other := by
  induction alike with
  | rel path other more => exact ⟨more.components, more.start cwd⟩
  | refl path => exact ⟨rfl, rfl⟩
  | symm path other _ ih => exact ⟨ih.1.symm, ih.2.symm⟩
  | trans path middle other _ _ first second => exact ⟨first.1.trans second.1, first.2.trans second.2⟩

structure Tree (inode : Inum → Inode) : Prop where
  root : (inode ROOTINO).type ≠ .free
  readable : ∀ i, (inode i).type = .dir → Readable (inode i).data
  target : ∀ i k, (inode i).type = .dir → k < slots (inode i).data → (direntAt (inode i).data k).inum ≠ 0 →
    (inode (direntAt (inode i).data k).inum.toNat).type ≠ .free

namespace Strings

theorem namex_components (cwd : Inum) (path name : List Byte) (parent : Bool) :
    (namex cwd path parent name >>= fun r => pure (summary parent r)) = Fs.namex cwd path parent := by
  rw [namex, Fs.namex, elements_eq_components]
  split <;> simp only [bind_assoc, namexLoop_components _ _ _ _ _ (Nat.lt_succ_self _)]

variable {sb : Superblock} {v : View} {s : Store} {cwd : Inum} (known : Shows v s) (counted : Counted s)
  (tree : Tree s.inode) (noLocks : v.locks = ∅) (inUse : 0 < v.base cwd)
include known counted tree noLocks inUse

/-- `namex` returns what the fold says, unless it finds the inode cache full. -/
theorem namex_ends (path name : List Byte) (parent : Bool) : Ends (CacheFull s.used)
      (fun pair => summary parent pair.1 = resolve s.inode parent (start cwd path) (components path))
      ((namex cwd path parent name).run (Store.handle sb) s) := by
  obtain ⟨few, card, exact⟩ := id counted
  rw [known.inode] at tree ⊢
  have rules : WalkRules noFaults sb (CacheFull few.card) ShowsCounted v :=
    counted_walkRules (fun i positive => (exact i).mpr (by rw [known.refs]; exact positive)) tree.readable
      known.exempt noLocks
  have walks : Script.Leads (Store.handle sb) (CacheFull few.card) ShowsCounted v (Fs.namex cwd path parent) _ :=
    rules.namex tree.target inUse tree.root (known.base cwd inUse)
  have walked := walks s ⟨known, counted⟩
  rw [card, ← namex_components cwd path name parent, Script.run_bind, elements_eq_components] at walked
  cases ran : (namex cwd path parent name).run (Store.handle sb) s with
  | error reason =>
    rw [ran] at walked
    exact walked
  | ok pair =>
    rw [ran] at walked
    obtain ⟨_, reached, _⟩ := walked
    exact reached.1

end Strings

/-- `namei` returns where the components of the path lead, and `nameiparent` the directory
before the last one with that component in the buffer.  The one other outcome is the
panic of `iget` in a full inode cache. -/
theorem path_resolution (sb : Superblock) {v : View} {s : Store} {cwd : Inum} (known : Shows v s) (counted : Counted s)
    (tree : Tree s.inode) (noLocks : v.locks = ∅) (inUse : 0 < v.base cwd) (path name : List Byte) :
    Ends (CacheFull s.used) (fun pair => pair.1 = pathTarget s.inode cwd path)
      ((Strings.namei cwd path name).run (Store.handle sb) s) ∧
    Ends (CacheFull s.used)
      (fun pair => (pair.1.1.map fun dp => (dp, bufferName pair.1.2)) = pathParent s.inode cwd path)
      ((Strings.nameiparent cwd path name).run (Store.handle sb) s) ∧
    (∀ dp last, pathParent s.inode cwd path = some (dp, last) →
      pathTarget s.inode cwd path = child s.inode dp last) ∧
    ∀ other, Relation.EqvGen MoreSlashes path other →
      pathTarget s.inode cwd other = pathTarget s.inode cwd path ∧
      pathParent s.inode cwd other = pathParent s.inode cwd path := by
  have ends (parent : Bool) : Ends (CacheFull s.used) _
      ((Strings.namex cwd path parent name).run (Store.handle sb) s) :=
    Strings.namex_ends known counted tree noLocks inUse path name parent
  refine ⟨?_, ?_, fun dp last => target_of_parent, ?_⟩
  · rw [Strings.namei, Script.run_bind]
    apply (ends false).bind
    intro pair returned
    have target := congrArg (Option.map Prod.fst) returned
    rw [resolve_target] at target
    change pair.1.1 = _
    rw [pathTarget, ← target]
    simp [Strings.summary, Option.map_map, Function.comp_def]
  · apply (ends true).weaken
    intro pair returned
    rw [← resolve_pathParent, ← returned]
    simp [Strings.summary]
  · intro other alike
    obtain ⟨sameComponents, sameStart⟩ := slashes_alike alike cwd
    simp only [pathTarget, pathParent, sameComponents, sameStart, and_self]

theorem mkfs_tree {files : List (List Byte × List Byte)} (count : files.length + 2 ≤ imageSuperblock.ninodes) :
    Tree (mkfs files) := by
  have root : (mkfs files ROOTINO).type ≠ .free := by
    rw [mkfs_root]
    simp
  refine ⟨root, ?_, ?_⟩
  · intro i isDir
    rw [mkfs_dir isDir, mkfs_root]
    exact (formed_rootData count).readable
  · intro i k isDir below live
    rw [mkfs_dir isDir, mkfs_root] at live ⊢
    by_cases inside : k < files.length + 2
    · obtain ⟨de, found⟩ := rootDirents_of_lt inside
      simp only [direntAt_rootData found, inum_rootDirents found]
      split
      · exact root
      · rename_i isFile
        have small : k < 2 ^ 16 := by
          simp only [imageSuperblock] at count
          omega
        have notRoot : k ≠ ROOTINO := by
          simp only [ROOTINO]
          omega
        have notZero : k ≠ 0 := by omega
        have present : k - 2 < files.length := by omega
        rw [BitVec.toNat_ofNat, Nat.mod_eq_of_lt small, mkfs, if_neg notRoot, if_neg notZero,
          List.getElem?_eq_getElem present]
        simp
    · exact absurd (free_rootData (Nat.le_of_not_lt inside)) live

theorem userinit_counted (files : List (List Byte × List Byte)) : Counted (userinit files).store := by
  refine ⟨{ROOTINO}, rfl, ?_⟩
  intro i
  simp only [userinit, Finset.mem_singleton, Function.update_apply]
  split
  · rename_i isRoot
    simp [isRoot]
  · rename_i notRoot
    simp [notRoot]

theorem path_resolution_file :
    (∃ t, (Strings.namei ROOTINO [slash, slash, 102, slash] (List.replicate DIRSIZ 120)).run
      (Store.handle imageSuperblock) (userinit oneFile).store = .ok (some 2, t)) ∧
    ∃ buffer t, bufferName buffer = [102] ∧
      (Strings.nameiparent ROOTINO [slash, slash, 102, slash] (List.replicate DIRSIZ 120)).run
        (Store.handle imageSuperblock) (userinit oneFile).store = .ok ((some ROOTINO, buffer), t) := by
  have count := oneFile_fits.count
  have settled : Settled imageSuperblock (userinit oneFile) := userinit_settled count
  have inUse : 0 < ((userinit oneFile).world.view 0).base ROOTINO := by
    change 0 < (userinit oneFile).tables.refs ROOTINO
    rw [refs_userinit]
    decide
  have resolved := path_resolution imageSuperblock settled.shows (userinit_counted oneFile) (mkfs_tree count) rfl
    inUse [slash, slash, 102, slash] (List.replicate DIRSIZ 120)
  -- the runs are not evaluated: what they return is known from the theorem
  generalize (Strings.namei _ _ _).run _ _ = namei at resolved ⊢
  generalize (Strings.nameiparent _ _ _).run _ _ = nameiparent at resolved ⊢
  obtain ⟨target, parent, _⟩ := resolved
  have room : (userinit oneFile).store.used + 2 ≤ NINODE := show 1 + 2 ≤ NINODE by decide
  have goal : pathTarget (mkfs oneFile) ROOTINO [slash, slash, 102, slash] = some 2 := by decide +kernel
  have above : pathParent (mkfs oneFile) ROOTINO [slash, slash, 102, slash] = some (ROOTINO, [102]) := by decide +kernel
  constructor
  · obtain ⟨pair, ran, returned⟩ := ends_of_room target room
    have two : pair.1 = some 2 := returned.trans goal
    exact ⟨pair.2, by rw [ran, ← two]⟩
  · obtain ⟨pair, ran, returned⟩ := ends_of_room parent room
    obtain ⟨dp, found, equal⟩ := Option.map_eq_some_iff.mp (returned.trans above)
    obtain ⟨isRoot, name⟩ := Prod.mk.inj equal
    exact ⟨pair.1.2, pair.2, name, by rw [ran, ← isRoot, ← found]⟩

end Xv6.Fs
