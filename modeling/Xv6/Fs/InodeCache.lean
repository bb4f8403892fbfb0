import Xv6.Fs.Runs

namespace Xv6.Fs

open Xv6.Data Xv6.Disk
open Function (update update_self update_of_ne update_apply update_eq_self)

/-! # The inode cache

The cache as an array of `NINODE` entries that `iget` searches.  The code of the calls
names an inode by its number; `pointer` is what `iget` has last returned for a number.
-/

structure Cached where
  inum : Inum := 0
  ref : Nat := 0
  locked : Bool := false
  valid : Bool := false
  dirty : Bool := false
deriving DecidableEq, Repr

structure Icache where
  inode : Inum → Inode
  cached : Fin NINODE → Cached
  pointer : Inum → Fin NINODE
  ops : Nat := 0
  input : List (Option (List Byte)) := []

namespace Icache

def deref (c : Icache) (ip : Inum) : Cached := c.cached (c.pointer ip)

def set (c : Icache) (ip : Inum) (entry : Cached) : Icache :=
  { c with cached := Function.update c.cached (c.pointer ip) entry }

def setInode (c : Icache) (ip : Inum) (inode : Inode) : Icache :=
  { c with inode := Function.update c.inode ip inode }

def search (c : Icache) (inum : Inum) : Option (Fin NINODE) :=
  (List.finRange NINODE).find? fun k => 0 < (c.cached k).ref ∧ (c.cached k).inum = inum

def empty (c : Icache) : Option (Fin NINODE) := (List.finRange NINODE).find? fun k => (c.cached k).ref = 0

def give (c : Icache) (inum : Inum) (k : Fin NINODE) (entry : Cached) : Icache :=
  { c with cached := Function.update c.cached k entry, pointer := Function.update c.pointer inum k }

def iget (c : Icache) (inum : Inum) : Except Stop (Unit × Icache) :=
  match c.search inum with
  | some k => .ok ((), c.give inum k { c.cached k with ref := (c.cached k).ref + 1 })
  | none =>
    match c.empty with
    | none => .error (.panic .iget)
    | some k => .ok ((), c.give inum k { c.cached k with inum, ref := 1, valid := false, dirty := false })

def idup (c : Icache) (ip : Inum) : Except Stop (Unit × Icache) :=
  .ok ((), c.set ip { c.deref ip with ref := (c.deref ip).ref + 1 })

def ialloc (sb : Superblock) (c : Icache) (type : FileType) : Except Stop (Inum × Icache) :=
  match (List.range sb.ninodes).find? fun i => 1 ≤ i ∧ (c.inode i).type = .free with
  | none => .error (.panic .ialloc)
  | some i => (c.setInode i { type }).iget i >>= fun (_, d) => .ok (i, d)

def ilock (c : Icache) (ip : Inum) : Except Stop (Unit × Icache) :=
  let e := c.deref ip
  if e.ref < 1 then .error (.panic .ilock)
  else if e.locked then .error .deadlock
  else if e.valid = false ∧ (c.inode e.inum).type = .free then .error (.panic .ilockNoType)
  else .ok ((), c.set ip { e with valid := true, locked := true })

def iunlock (c : Icache) (ip : Inum) : Except Stop (Unit × Icache) :=
  let e := c.deref ip
  if e.locked = false ∨ e.ref < 1 then .error (.panic .iunlock)
  else if e.dirty then .error .misuse
  else .ok ((), c.set ip { e with locked := false })

def iput (c : Icache) (ip : Inum) : Except Stop (Unit × Icache) :=
  let e := c.deref ip
  if e.locked then .error .deadlock
  else if e.ref < 1 then .error .misuse
  else if e.valid ∧ (c.inode e.inum).nlink = 0 ∧ e.ref = 1 then
    .ok ((), (c.setInode e.inum { c.inode e.inum with type := .free, data := [] }).set ip
      { e with ref := e.ref - 1, valid := false })
  else .ok ((), c.set ip { e with ref := e.ref - 1 })

def whenLocked {α : Type} (c : Icache) (ip : Inum) (body : Except Stop α) : Except Stop α :=
  if (c.deref ip).locked ∧ (c.deref ip).valid then body else .error .misuse

def assign (c : Icache) (ip : Inum) (major minor nlink : BitVec 16) : Except Stop (Unit × Icache) :=
  c.whenLocked ip <|
    let inum := (c.deref ip).inum
    .ok ((), (c.setInode inum { c.inode inum with major, minor, nlink }).set ip { c.deref ip with dirty := true })

def iupdate (c : Icache) (ip : Inum) : Except Stop (Unit × Icache) :=
  c.whenLocked ip (.ok ((), c.set ip { c.deref ip with dirty := false }))

def readi (c : Icache) (ip : Inum) (off n : Nat) : Except Stop (Option (List Byte) × Icache) :=
  c.whenLocked ip <|
    let i := c.inode (c.deref ip).inum
    if i.type = .dev then
      if i.major = CONSOLE then .ok ((c.input.headD none).map (List.take n), { c with input := c.input.tail })
      else .ok (none, c)
    else if i.data.length < off ∨ 2 ^ 32 ≤ off + n then .ok (none, c)
    else .ok (some ((i.data.drop off).take n), c)

def writei (sb : Superblock) (c : Icache) (ip : Inum) (off : Nat) (src : List Byte) :
    Except Stop (Option Nat × Icache) :=
  c.whenLocked ip <|
    let inum := (c.deref ip).inum
    let i := c.inode inum
    if i.type = .dev then .ok (if i.major = CONSOLE then some src.length else none, c)
    else if i.data.length < off ∨ 2 ^ 32 ≤ off + src.length then .ok (none, c)
    else if MAXFILE * BSIZE < off + src.length then .ok (none, c)
    else
      let d := c.setInode inum { i with data := overwrite i.data off src }
      if sb.nblocks < usedBlocks sb d.inode then .error (.panic .balloc)
      else if i.data.length < off + src.length then
        .ok (some src.length, d.set ip { c.deref ip with dirty := false })
      else .ok (some src.length, d)

def beginOp (c : Icache) : Except Stop (Unit × Icache) := .ok ((), { c with ops := c.ops + 1 })

def endOp (c : Icache) : Except Stop (Unit × Icache) :=
  if c.ops < 1 then .error .misuse else .ok ((), { c with ops := c.ops - 1 })

def handle (sb : Superblock) : Handler Icache Query Query.Answer Stop
  | c, .iget inum => c.iget inum
  | c, .idup ip => c.idup ip
  | c, .ialloc type => c.ialloc sb type
  | c, .ilock ip => c.ilock ip
  | c, .iunlock ip => c.iunlock ip
  | c, .iput ip => c.iput ip
  | c, .fields ip => c.whenLocked ip (.ok ((c.inode (c.deref ip).inum).fields, c))
  | c, .assign ip major minor nlink => c.assign ip major minor nlink
  | c, .iupdate ip => c.iupdate ip
  | c, .readi ip off n => c.readi ip off n
  | c, .writei ip off src => c.writei sb ip off src
  | c, .beginOp => c.beginOp
  | c, .endOp => c.endOp

end Icache

def Icache.used (c : Icache) : Nat := ∑ k, if 0 < (c.cached k).ref then 1 else 0

def Entry.cached (entry : Entry) (i : Inum) : Cached :=
  ⟨i, entry.ref, entry.locked, entry.valid, entry.dirty⟩

/-- An inode that is referred to is in one entry of the cache, the one that all pointers
to it lead to. -/
structure Holds (s : Store) (c : Icache) : Prop where
  inode : c.inode = s.inode
  ops : c.ops = s.ops
  input : c.input = s.input
  entry : ∀ i, 0 < (s.entry i).ref → c.deref i = (s.entry i).cached i
  owner : ∀ k, 0 < (c.cached k).ref → c.pointer (c.cached k).inum = k ∧ 0 < (s.entry (c.cached k).inum).ref
  idle : ∀ k, (c.cached k).ref = 0 → (c.cached k).locked = false
  live : ∀ i, (s.entry i).locked = true → 0 < (s.entry i).ref
  used : c.used = s.used

def Regular (reason : Stop) : Prop := reason ∉ [.misuse, .panic .ilock, .panic .iunlock]

variable {sb : Superblock} {s t : Store} {c d : Icache} {i : Inum} {k : Fin NINODE} {e : Entry}

abbrev Agrees {α : Type} : Except Stop (α × Store) → Except Stop (α × Icache) → Prop :=
  Script.Agrees Regular Holds

theorem used_update {entry : Cached} (updated : d.cached = update c.cached k entry) :
    d.used + (if 0 < (c.cached k).ref then 1 else 0) = c.used + (if 0 < entry.ref then 1 else 0) := by
  have moved := sum_update (fun _ e => if 0 < Cached.ref e then 1 else 0) c.cached k entry
  rw [Icache.used, updated]
  exact moved

theorem agrees_misuse {α : Type} {result : Except Stop (α × Icache)} :
    Agrees (.error .misuse : Except Stop (α × Store)) result :=
  fun regular => absurd List.mem_cons_self regular

namespace Holds

variable (holds : Holds s c)
include holds

theorem pointer_ne {j : Inum} (liveI : 0 < (s.entry i).ref) (liveJ : 0 < (s.entry j).ref) (different : j ≠ i) :
    c.pointer j ≠ c.pointer i := by
  intro same
  have own : (c.deref j).inum = i := by
    rw [Icache.deref, same, ← Icache.deref, holds.entry i liveI]
    rfl
  rw [holds.entry j liveJ] at own
  exact different own

theorem ref_pos (live : 0 < (s.entry i).ref) : 0 < (c.cached (c.pointer i)).ref := by
  rw [← Icache.deref, holds.entry i live]
  exact live

theorem place (inode : d.inode = t.inode) (ops : d.ops = t.ops) (input : d.input = t.input)
    (pointer : d.pointer = update c.pointer i k)
    (cached : d.cached = update c.cached k (e.cached i)) (entry : t.entry = update s.entry i e)
    (free : ∀ j, j ≠ i → 0 < (s.entry j).ref → c.pointer j ≠ k)
    (own : ∀ m, m ≠ k → 0 < (c.cached m).ref → (c.cached m).inum ≠ i) (unlocked : e.locked = true → 0 < e.ref)
    (used : t.used + (if 0 < (c.cached k).ref then 1 else 0) = s.used + if 0 < e.ref then 1 else 0) : Holds t d := by
  refine ⟨inode, ops, input, ?_, ?_, ?_, ?_, ?_⟩
  · intro j live
    rw [Icache.deref, pointer, cached, entry]
    by_cases same : j = i
    · subst j
      rw [update_self, update_self, update_self]
    · rw [entry, update_of_ne same] at live
      rw [update_of_ne same, update_of_ne same, update_of_ne (free j same live)]
      exact holds.entry j live
  · intro m positive
    rw [cached] at positive ⊢
    rw [pointer, entry]
    by_cases same : m = k
    · subst m
      rw [update_self] at positive ⊢
      rw [Entry.cached, update_self, update_self]
      exact ⟨rfl, positive⟩
    · rw [update_of_ne same] at positive ⊢
      rw [update_of_ne (own m same positive), update_of_ne (own m same positive)]
      exact holds.owner m positive
  · intro m unused
    rw [cached] at unused ⊢
    by_cases same : m = k
    · subst m
      rw [update_self] at unused ⊢
      change e.ref = 0 at unused
      change e.locked = false
      by_contra isLocked
      have positive := unlocked (Bool.eq_true_of_not_eq_false isLocked)
      omega
    · rw [update_of_ne same] at unused ⊢
      exact holds.idle m unused
  · intro j isLocked
    rw [entry] at isLocked ⊢
    by_cases same : j = i
    · subst j
      rw [update_self] at isLocked ⊢
      exact unlocked isLocked
    · rw [update_of_ne same] at isLocked ⊢
      exact holds.live j isLocked
  · have moved := used_update cached
    have before := holds.used
    change d.used + _ = c.used + if 0 < e.ref then 1 else 0 at moved
    omega

theorem set (live : 0 < (s.entry i).ref) (inode : d.inode = t.inode) (ops : d.ops = t.ops) (input : d.input = t.input)
    (pointer : d.pointer = c.pointer) (cached : d.cached = update c.cached (c.pointer i) (e.cached i))
    (entry : t.entry = update s.entry i e) (used : t.used = if e.ref = 0 then s.used - 1 else s.used)
    (unlocked : e.locked = true → 0 < e.ref) : Holds t d := by
  apply holds.place inode ops input (pointer.trans (update_eq_self i _).symm) cached entry
  · intro j different liveJ
    exact holds.pointer_ne live liveJ different
  · intro m different positive isI
    have points := (holds.owner m positive).1
    rw [isI] at points
    exact different points.symm
  · exact unlocked
  · have some : 0 < c.used := by
      have counted := used_update (d := { c with cached := update c.cached (c.pointer i) {} }) rfl
      rw [if_pos (holds.ref_pos live), if_neg (Nat.lt_irrefl 0)] at counted
      omega
    have before := holds.used
    rw [if_pos (holds.ref_pos live), used]
    split <;> split <;> omega

theorem recycle (dead : (s.entry i).ref = 0) (unused : (c.cached k).ref = 0) (inode : d.inode = t.inode)
    (ops : d.ops = t.ops) (input : d.input = t.input) (pointer : d.pointer = update c.pointer i k)
    (cached : d.cached = update c.cached k (Entry.cached { ref := 1 } i))
    (entry : t.entry = update s.entry i { ref := 1 }) (used : t.used = s.used + 1) : Holds t d := by
  apply holds.place inode ops input pointer cached entry
  · intro j _ live isK
    have positive := holds.ref_pos live
    rw [isK] at positive
    omega
  · intro m _ positive isI
    have referred := (holds.owner m positive).2
    rw [isI] at referred
    omega
  · exact fun _ => Nat.one_pos
  · rw [if_neg (by omega), used]
    rfl

theorem setInode (inode : Inode) : Holds (s.setInode i inode) (c.setInode i inode) := by
  refine ⟨?_, holds.ops, holds.input, holds.entry, holds.owner, holds.idle, holds.live, holds.used⟩
  rw [Icache.setInode, Store.setInode, holds.inode]

theorem search_live (live : 0 < (s.entry i).ref) : c.search i = some (c.pointer i) := by
  have fits : 0 < (c.cached (c.pointer i)).ref ∧ (c.cached (c.pointer i)).inum = i := by
    refine ⟨holds.ref_pos live, ?_⟩
    rw [← Icache.deref, holds.entry i live]
    rfl
  cases found : c.search i with
  | none =>
    have unmatched := List.find?_eq_none.mp found (c.pointer i) (List.mem_finRange _)
    simp only [decide_eq_true_eq] at unmatched
    exact absurd fits unmatched
  | some k =>
    have matched := List.find?_some found
    simp only [decide_eq_true_eq] at matched
    obtain ⟨points, _⟩ := holds.owner k matched.1
    rw [← points, matched.2]

theorem search_dead (dead : (s.entry i).ref = 0) : c.search i = none := by
  apply List.find?_eq_none.mpr
  intro k _
  simp only [decide_eq_true_eq]
  intro matched
  have referred := (holds.owner k matched.1).2
  rw [matched.2] at referred
  omega

theorem empty_none (none : c.empty = none) : NINODE ≤ s.used := by
  have full (k : Fin NINODE) : 0 < (c.cached k).ref := by
    have occupied := List.find?_eq_none.mp none k (List.mem_finRange k)
    simp only [decide_eq_true_eq] at occupied
    omega
  rw [← holds.used, Icache.used]
  simp only [full, ↓reduceIte, Finset.sum_const, Finset.card_univ, Fintype.card_fin, smul_eq_mul, mul_one]
  exact Nat.le_refl _

theorem empty_some (found : c.empty = some k) : (c.cached k).ref = 0 ∧ s.used < NINODE := by
  have free : (c.cached k).ref = 0 := by simpa using List.find?_some found
  refine ⟨free, ?_⟩
  have smaller : c.used < ∑ _k : Fin NINODE, 1 := by
    apply Finset.sum_lt_sum
    · intro j _
      split
      · exact Nat.le_refl 1
      · exact Nat.zero_le 1
    · exact ⟨k, Finset.mem_univ k, by rw [if_neg (by omega)]; exact Nat.one_pos⟩
  rw [← holds.used]
  simpa using smaller

theorem iget (i : Inum) : Agrees (s.iget i) (c.iget i) := by
  by_cases live : 0 < (s.entry i).ref
  · rw [Store.iget, if_pos live, Icache.iget, holds.search_live live]
    refine ⟨_, rfl, holds.set live holds.inode holds.ops holds.input ?_ ?_ rfl ?_ (fun _ => Nat.succ_pos _)⟩
    · exact update_eq_self i c.pointer
    · have own := holds.entry i live
      rw [Icache.deref] at own
      rw [Icache.give, own]
      rfl
    · exact (if_neg (Nat.succ_ne_zero _)).symm
  · have dead : (s.entry i).ref = 0 := by omega
    rw [Store.iget, if_neg live, Icache.iget, holds.search_dead dead]
    cases found : c.empty with
    | none =>
      rw [if_pos (holds.empty_none found)]
      exact fun _ => rfl
    | some k =>
      obtain ⟨free, room⟩ := holds.empty_some found
      rw [if_neg (by omega)]
      refine ⟨_, rfl, holds.recycle dead free holds.inode holds.ops holds.input rfl ?_ rfl rfl⟩
      simp only [Icache.give, holds.idle k free]
      rfl

theorem ialloc (type : FileType) : Agrees (s.ialloc sb type) (c.ialloc sb type) := by
  have same : ((List.range sb.ninodes).find? fun i => 1 ≤ i ∧ (c.inode i).type = .free) = s.freeInode sb := by
    rw [holds.inode]
    rfl
  rw [Store.ialloc, Icache.ialloc, same]
  cases s.freeInode sb with
  | none => exact fun _ => rfl
  | some i =>
    simp only
    split
    · exact agrees_misuse
    · have taken := (holds.setInode (i := i) { type }).iget i
      cases first : (s.setInode i { type }).iget i with
      | error reason =>
        rw [first] at taken
        intro regular
        rw [taken regular]
        rfl
      | ok pair =>
        rw [first] at taken
        obtain ⟨after, got, related⟩ := taken
        rw [got]
        exact ⟨after, rfl, related⟩

theorem idup (i : Inum) : Agrees (s.idup i) (c.idup i) := by
  by_cases live : 0 < (s.entry i).ref
  · rw [Store.idup, if_neg (by omega), Icache.idup, holds.entry i live]
    exact ⟨_, rfl, holds.set live holds.inode holds.ops holds.input rfl rfl rfl (if_neg (Nat.succ_ne_zero _)).symm
      fun _ => Nat.succ_pos _⟩
  · rw [Store.idup, if_pos (by omega)]
    exact agrees_misuse

theorem ilock (i : Inum) : Agrees (s.ilock i) (c.ilock i) := by
  by_cases live : 0 < (s.entry i).ref
  · have own := holds.entry i live
    have positive : (s.entry i).ref ≠ 0 := by omega
    simp only [Store.ilock, Icache.ilock, own, Entry.cached, holds.inode]
    split
    · exact fun _ => rfl
    · split
      · exact fun _ => rfl
      · split
        · exact fun _ => rfl
        · exact ⟨_, rfl, holds.set live holds.inode holds.ops holds.input rfl rfl rfl (if_neg positive).symm
            fun _ => live⟩
  · rw [Store.ilock, if_pos (by omega)]
    exact fun regular => absurd (by simp) regular

theorem iunlock (i : Inum) : Agrees (s.iunlock i) (c.iunlock i) := by
  by_cases live : 0 < (s.entry i).ref
  · have own := holds.entry i live
    have positive : (s.entry i).ref ≠ 0 := by omega
    simp only [Store.iunlock, Icache.iunlock, own, Entry.cached]
    split
    · exact fun _ => rfl
    · split
      · exact fun _ => rfl
      · exact ⟨_, rfl, holds.set live holds.inode holds.ops holds.input rfl rfl rfl (if_neg positive).symm
          fun isLocked => absurd isLocked (by simp)⟩
  · rw [Store.iunlock, if_pos (by omega)]
    exact fun regular => absurd (by simp) regular

theorem iput (i : Inum) : Agrees (s.iput i) (c.iput i) := by
  by_cases live : 0 < (s.entry i).ref
  · have own := holds.entry i live
    simp only [Store.iput, Icache.iput, own, Entry.cached, holds.inode]
    split
    · exact fun _ => rfl
    · rename_i unlocked
      split
      · exact fun _ => rfl
      · have last : (if (s.entry i).ref = 1 then s.used - 1 else s.used) =
            if (s.entry i).ref - 1 = 0 then s.used - 1 else s.used := by
          have same : (s.entry i).ref - 1 = 0 ↔ (s.entry i).ref = 1 := by omega
          simp only [same]
        split
        · refine ⟨_, rfl, holds.set (e := { s.entry i with ref := (s.entry i).ref - 1, valid := false }) live ?_ holds.ops
            holds.input rfl rfl rfl last fun isLocked => absurd isLocked unlocked⟩
          exact congrArg (update · i _) holds.inode
        · exact ⟨_, rfl, holds.set (e := { s.entry i with ref := (s.entry i).ref - 1 }) live holds.inode holds.ops
            holds.input rfl rfl rfl last fun isLocked => absurd isLocked unlocked⟩
  · rw [Store.iput]
    by_cases isLocked : (s.entry i).locked = true
    · exact absurd (holds.live i isLocked) live
    · simp only [isLocked, Bool.false_eq_true, ↓reduceIte]
      rw [if_pos (by omega)]
      exact agrees_misuse

theorem whenLocked {α : Type} {body : Except Stop (α × Store)} {other : Except Stop (α × Icache)}
    (agree : 0 < (s.entry i).ref → c.deref i = (s.entry i).cached i → Agrees body other) :
    Agrees (s.locked i body) (c.whenLocked i other) := by
  by_cases isLocked : (s.entry i).locked = true ∧ (s.entry i).valid = true
  · have live := holds.live i isLocked.1
    have own := holds.entry i live
    have sameLock : ((s.entry i).cached i).locked = true ∧ ((s.entry i).cached i).valid = true := isLocked
    rw [Store.locked, if_pos isLocked, Icache.whenLocked, own, if_pos sameLock]
    exact agree live own
  · rw [Store.locked, if_neg isLocked]
    exact agrees_misuse

theorem setDirty (live : 0 < (s.entry i).ref) (dirty : Bool) :
    Holds (s.setEntry i { s.entry i with dirty }) (c.set i { (s.entry i).cached i with dirty }) := by
  have positive : (s.entry i).ref ≠ 0 := by omega
  exact holds.set (e := { s.entry i with dirty }) live holds.inode holds.ops holds.input rfl rfl rfl
    (if_neg positive).symm fun _ => live

theorem assign (major minor nlink : BitVec 16) :
    Agrees (s.assign i major minor nlink) (c.assign i major minor nlink) := by
  apply holds.whenLocked
  intro live own
  simp only [own, holds.inode]
  exact ⟨_, rfl, (holds.setInode _).setDirty live true⟩

theorem iupdate : Agrees (s.iupdate i) (c.iupdate i) := by
  apply holds.whenLocked
  intro live own
  rw [own]
  exact ⟨_, rfl, holds.setDirty live false⟩

theorem readi (off n : Nat) : Agrees (s.readi i off n) (c.readi i off n) := by
  apply holds.whenLocked
  intro live own
  simp only [own, Entry.cached, holds.inode, holds.input]
  split
  · split
    · refine ⟨_, rfl, ?_⟩
      exact ⟨rfl, holds.ops, rfl, holds.entry, holds.owner, holds.idle, holds.live, holds.used⟩
    · exact ⟨_, rfl, holds⟩
  · split <;> exact ⟨_, rfl, holds⟩

theorem writei (off : Nat) (src : List Byte) : Agrees (s.writei sb i off src) (c.writei sb i off src) := by
  apply holds.whenLocked
  intro live own
  have written := holds.setInode (i := i) { s.inode i with data := overwrite (s.inode i).data off src }
  have sameBlocks := congrArg (usedBlocks sb) written.inode
  simp only [own, Entry.cached, holds.inode]
  rw [sameBlocks]
  split
  · exact ⟨_, rfl, holds⟩
  · split
    · exact ⟨_, rfl, holds⟩
    · split
      · exact ⟨_, rfl, holds⟩
      · split
        · exact fun _ => rfl
        · split
          · exact ⟨_, rfl, written.setDirty live false⟩
          · exact ⟨_, rfl, written⟩

theorem beginOp : Agrees s.beginOp c.beginOp :=
  ⟨_, rfl, holds.inode, congrArg (· + 1) holds.ops, holds.input, holds.entry, holds.owner, holds.idle, holds.live,
    holds.used⟩

theorem endOp : Agrees s.endOp c.endOp := by
  rw [Store.endOp, Icache.endOp, holds.ops]
  split
  · exact fun _ => rfl
  · exact ⟨_, rfl, holds.inode, rfl, holds.input, holds.entry, holds.owner, holds.idle, holds.live, holds.used⟩

/-- The cache answers every query as the store does. -/
theorem handle (query : Query) : Agrees (Store.handle sb s query) (Icache.handle sb c query) := by
  cases query with
  | iget inum => exact holds.iget inum
  | idup ip => exact holds.idup ip
  | ialloc type => exact holds.ialloc type
  | ilock ip => exact holds.ilock ip
  | iunlock ip => exact holds.iunlock ip
  | iput ip => exact holds.iput ip
  | fields ip =>
    apply holds.whenLocked
    intro live own
    simp only [own, Entry.cached, holds.inode]
    exact ⟨c, rfl, holds⟩
  | assign ip major minor nlink => exact holds.assign major minor nlink
  | iupdate ip => exact holds.iupdate
  | readi ip off n => exact holds.readi off n
  | writei ip off src => exact holds.writei off src
  | beginOp => exact holds.beginOp
  | endOp => exact holds.endOp

end Holds

structure CacheState where
  cache : Icache
  tables : Tables

namespace CacheState

def call (sb : Superblock) (s : CacheState) (p : Slot) (c : Call) : Option (Except Stop (Int × CacheState)) :=
  (s.tables.proc p).map fun proc => do
    let ((r, tables), cache) ← (serve s.tables p proc c).run (Icache.handle sb) s.cache
    pure (r, ⟨cache, tables⟩)

def step (sb : Superblock) (s : CacheState) (a : Slot × Call) : Option CacheState :=
  match s.call sb a.1 a.2 with
  | some (.ok (_, t)) => some t
  | _ => none

def userinit (files : List (List Byte × List Byte)) (input : List (Option (List Byte)) := []) : CacheState where
  cache :=
    { inode := mkfs files
      cached := Function.update (fun _ => {}) 0 { inum := ROOTINO, ref := 1 }
      pointer := fun _ => 0
      input }
  tables := (Fs.userinit files input).tables

def pointers (s : CacheState) (k : Fin NINODE) : Nat :=
  (∑ f, if 0 < (s.tables.file f).ref ∧ (s.tables.file f).type = .inode ∧ s.cache.pointer (s.tables.file f).ip = k
    then 1 else 0) + ∑ p, if (s.tables.proc p).map (fun proc => s.cache.pointer proc.cwd) = some k then 1 else 0

/-- All references are those of files and processes, and nothing is held by a call. -/
structure Balanced (s : CacheState) : Prop where
  unique : ∀ j k, 0 < (s.cache.cached j).ref → 0 < (s.cache.cached k).ref →
    (s.cache.cached j).inum = (s.cache.cached k).inum → j = k
  refs : ∀ k, (s.cache.cached k).ref = s.pointers k
  unlocked : ∀ k, (s.cache.cached k).locked = false
  ops : s.cache.ops = 0

def SelfLink (s : CacheState) (p : Slot) (c : Call) : Prop :=
  ∃ proc old new, s.tables.proc p = some proc ∧ c = .link (some (old, new)) ∧
    SelfNamed s.cache.inode proc.cwd new

def Kept (sb : Superblock) (s : CacheState) : Prop :=
  ∃ store, Settled sb ⟨store, s.tables⟩ ∧ Holds store s.cache

variable {sb : Superblock} {s t : CacheState} {p : Slot} {c : Call} {faults : Faults}

theorem Kept.balanced (kept : s.Kept sb) : s.Balanced := by
  obtain ⟨store, settled, holds⟩ := kept
  have referred (i : Inum) : (store.entry i).ref = s.tables.refs i := by
    have counted := settled.shows.refs i
    rw [Multiset.count_zero, Nat.add_zero] at counted
    exact counted
  have points {i : Inum} {k : Fin NINODE} (live : 0 < s.tables.refs i) :
      s.cache.pointer i = k ↔ 0 < (s.cache.cached k).ref ∧ (s.cache.cached k).inum = i := by
    rw [← referred] at live
    constructor
    · rintro rfl
      refine ⟨holds.ref_pos live, ?_⟩
      rw [← Icache.deref, holds.entry i live]
      rfl
    · rintro ⟨positive, rfl⟩
      exact (holds.owner k positive).1
  refine ⟨?_, ?_, ?_, ?_⟩
  · intro j k liveJ liveK same
    rw [← (holds.owner j liveJ).1, same, (holds.owner k liveK).1]
  · intro k
    have fileLive {f : FileId} (isInode : (s.tables.file f).type = .inode) : 0 < s.tables.refs (s.tables.file f).ip := by
      rw [← settled.fits.refs]
      exact settled.fits.file_used isInode
    have cwdLive {p : Slot} {proc : Proc} (isProc : s.tables.proc p = some proc) : 0 < s.tables.refs proc.cwd := by
      rw [← settled.fits.refs]
      exact settled.fits.cwd_used isProc
    by_cases live : 0 < (s.cache.cached k).ref
    · obtain ⟨pointed, positive⟩ := holds.owner k live
      have own := holds.entry _ positive
      rw [Icache.deref, pointed] at own
      have counted : (s.cache.cached k).ref = s.tables.refs (s.cache.cached k).inum := by
        rw [← referred]
        exact congrArg Cached.ref own
      rw [counted, pointers, Tables.refs]
      refine congrArg₂ (· + ·) ?_ ?_
      · apply Finset.sum_congr rfl
        intro f _
        rw [File.refs]
        apply if_congr _ rfl rfl
        refine and_congr_right fun _ => and_congr_right fun isInode => ?_
        rw [points (fileLive isInode)]
        exact ⟨fun same => ⟨live, same.symm⟩, fun same => same.2.symm⟩
      · apply Finset.sum_congr rfl
        intro p _
        rw [cwdRefs]
        apply if_congr _ rfl rfl
        cases isProc : s.tables.proc p with
        | none => simp
        | some proc =>
          simp only [Option.map_some, Option.some.injEq]
          rw [points (cwdLive isProc)]
          exact ⟨fun same => ⟨live, same.symm⟩, fun same => same.2.symm⟩
    · have noFiles : (∑ f, if 0 < (s.tables.file f).ref ∧ (s.tables.file f).type = .inode ∧
          s.cache.pointer (s.tables.file f).ip = k then 1 else 0) = 0 := by
        apply Finset.sum_eq_zero
        intro f _
        apply if_neg
        rintro ⟨_, isInode, same⟩
        exact live ((points (fileLive isInode)).mp same).1
      have noProcs : (∑ p, if (s.tables.proc p).map (fun proc => s.cache.pointer proc.cwd) = some k then 1 else 0) =
          0 := by
        apply Finset.sum_eq_zero
        intro p _
        apply if_neg
        intro same
        obtain ⟨proc, isProc, pointed⟩ := Option.map_eq_some_iff.mp same
        exact live ((points (cwdLive isProc)).mp pointed).1
      rw [pointers, noFiles, noProcs]
      omega
  · intro k
    by_cases live : 0 < (s.cache.cached k).ref
    · obtain ⟨pointed, positive⟩ := holds.owner k live
      have own := holds.entry _ positive
      rw [Icache.deref, pointed] at own
      rw [own]
      by_contra isLocked
      exact absurd ((settled.shows.locks _).mp (Bool.eq_true_of_not_eq_false isLocked)) (Finset.notMem_empty _)
    · exact holds.idle k (by omega)
  · rw [holds.ops]
    exact settled.shows.ops

theorem regular_of_fine {reason : Stop} (fine : Fine faults reason) : Regular reason := by
  intro member
  simp only [List.mem_cons, List.not_mem_nil, or_false] at member
  obtain rfl | rfl | rfl := member
  · exact fine
  · exact fine (by decide)
  · exact fine (by decide)

theorem Kept.call (faults : Faults) (kept : s.Kept sb) (bounded : sb.ninodes ≤ 2 ^ 16) {proc : Proc}
    (isProc : s.tables.proc p = some proc) (waits : s.SelfLink p c → faults.deadlock) (dangling : faults.dangling) :
    ∃ result, s.call sb p c = some result ∧ Ends (Fine faults) (fun r => r.2.Kept sb) result := by
  obtain ⟨store, settled, holds⟩ := kept
  have waitsStore (old new : List Byte) (isLink : c = .link (some (old, new)))
      (self : SelfNamed (State.world ⟨store, s.tables⟩).inode proc.cwd new) : faults.deadlock := by
    rw [State.world, ← holds.inode] at self
    exact waits ⟨proc, old, new, isProc, isLink, self⟩
  have ends : Ends (Fine faults) _ ((serve s.tables p proc c).run (Store.handle sb) store) :=
    settled.serve faults bounded isProc (settled.walkable (fun _ => dangling) fun _ _ _ _ _ _ => dangling) waitsStore
  have agrees : Agrees ((serve s.tables p proc c).run (Store.handle sb) store)
      ((serve s.tables p proc c).run (Icache.handle sb) s.cache) :=
    Script.run_agrees (fun _ _ query related => related.handle query) _ holds
  refine ⟨_, by rw [CacheState.call, isProc]; rfl, ?_⟩
  apply (agrees.ends ends fun _ => regular_of_fine).bind
  intro pair reached
  obtain ⟨after, settledAfter, related⟩ := reached
  exact .ok ⟨after, settledAfter.1, related⟩

theorem Kept.step (kept : s.Kept sb) (bounded : sb.ninodes ≤ 2 ^ 16) {a : Slot × Call}
    (taken : s.step sb a = some t) : t.Kept sb := by
  unfold CacheState.step at taken
  cases isProc : s.tables.proc a.1 with
  | none =>
    rw [CacheState.call, isProc] at taken
    cases taken
  | some proc =>
    obtain ⟨result, called, ends⟩ := kept.call ⟨True, True⟩ (c := a.2) bounded isProc (fun _ => trivial) trivial
    rw [called] at taken
    cases result with
    | error reason => cases taken
    | ok r =>
      cases taken
      exact ends

variable {files : List (List Byte × List Byte)} {input : List (Option (List Byte))}

theorem userinit_kept (count : files.length + 2 ≤ imageSuperblock.ninodes) :
    (userinit files input).Kept imageSuperblock := by
  refine ⟨(Fs.userinit files input).store, userinit_settled count, ?_⟩
  have entry (i : Inum) : (Fs.userinit files input).store.entry i = if i = ROOTINO then { ref := 1 } else {} := by
    simp only [Fs.userinit, update_apply]
  have cached (k : Fin NINODE) :
      (userinit files input).cache.cached k = if k = 0 then { inum := ROOTINO, ref := 1 } else {} := by
    simp only [userinit, update_apply]
  refine ⟨rfl, rfl, rfl, ?_, ?_, ?_, ?_, ?_⟩
  · intro i live
    rw [entry] at live ⊢
    split at live
    · rename_i isRoot
      rw [if_pos isRoot, isRoot]
      rfl
    · cases live
  · intro k live
    rw [cached] at live ⊢
    split at live
    · rename_i isFirst
      rw [if_pos isFirst, entry]
      exact ⟨isFirst.symm, Nat.one_pos⟩
    · cases live
  · intro k _
    rw [cached]
    split <;> rfl
  · intro i isLocked
    rw [entry] at isLocked
    split at isLocked <;> cases isLocked
  · have one : (userinit files input).cache.used = 1 := by
      rw [Icache.used, Finset.sum_eq_single 0]
      · rw [cached]
        rfl
      · intro k _ other
        rw [cached, if_neg other]
        rfl
      · exact fun absent => absurd (Finset.mem_univ 0) absent
    exact one

/-- After any sequence of calls, a further call panics or returns, unless it is a link
under a name that a directory has for itself; and all references are accounted for. -/
theorem references_conserved {calls : List (Slot × Call)} (fits : ImageFits files)
    (ran : Data.exec (step imageSuperblock) (userinit files input) calls = some s) (p : Slot) (c : Call) {proc : Proc}
    (isProc : s.tables.proc p = some proc) (otherName : ¬s.SelfLink p c) :
    s.Balanced ∧ ∃ result, s.call imageSuperblock p c = some result ∧
      Ends (fun reason => ∃ message, reason = .panic message) (fun r => r.2.Balanced) result := by
  have kept : s.Kept imageSuperblock :=
    exec_invariant_all (Kept imageSuperblock) (userinit_kept fits.count)
      (fun _ _ _ before taken => before.step (by decide) taken) ran
  refine ⟨kept.balanced, ?_⟩
  obtain ⟨result, called, ends⟩ := kept.call ⟨True, False⟩ (by decide) isProc otherName trivial
  refine ⟨result, called, ?_⟩
  cases result with
  | ok r => exact Kept.balanced ends
  | error reason =>
    cases reason with
    | deadlock | misuse | fuel => exact False.elim ends
    | panic message => exact ⟨message, rfl⟩

theorem references_conserved_close : ∃ s, Data.exec (step imageSuperblock) (userinit oneFile)
      [(0, .open (some ([102], 0))), (0, .dup 0)] = some s ∧ s.Balanced ∧
    ∃ result, s.call imageSuperblock 0 (.close 0) = some result ∧
      Ends (fun reason => ∃ message, reason = .panic message) (fun r => r.2.Balanced) result := by
  have reached : ((Data.exec (step imageSuperblock) (userinit oneFile)
      [(0, .open (some ([102], 0))), (0, .dup 0)]).bind fun s => s.tables.proc 0).isSome = true := by
    decide +kernel
  obtain ⟨proc, found⟩ := Option.isSome_iff_exists.mp reached
  obtain ⟨s, ran, isProc⟩ := Option.bind_eq_some_iff.mp found
  refine ⟨s, ran, references_conserved oneFile_fits ran 0 (.close 0) isProc ?_⟩
  rintro ⟨_, _, _, _, isLink, _⟩
  cases isLink

def stopped {α : Type} : Except Stop α → Option Stop
  | .error reason => some reason
  | .ok _ => none

/-- `link("f", ".")` locks the root, finds the root under the name `.`, and waits in
`iput` for the lock that it has itself, inside its transaction. -/
theorem link_dot_waits_for_itself : ∃ proc, (userinit oneFile).tables.proc 0 = some proc ∧
      (userinit oneFile).call imageSuperblock 0 (.link (some ([102], [46]))) = some (.error .deadlock) ∧
      let stuck := (serve (userinit oneFile).tables 0 proc (.link (some ([102], [46])))).last
        (Icache.handle imageSuperblock) (userinit oneFile).cache
      stuck.ops = 1 ∧ (stuck.cached 0).inum = ROOTINO ∧ (stuck.cached 0).locked = true := by
  refine ⟨⟨ROOTINO, fun _ => none⟩, rfl, ?_, by decide +kernel, by decide +kernel, by decide +kernel⟩
  have seen : ((userinit oneFile).call imageSuperblock 0 (.link (some ([102], [46])))).bind stopped =
      some .deadlock := by
    decide +kernel
  obtain ⟨result, called, isStopped⟩ := Option.bind_eq_some_iff.mp seen
  rw [called]
  cases result with
  | ok r => cases isStopped
  | error reason =>
    cases isStopped
    rfl

end CacheState

end Xv6.Fs
