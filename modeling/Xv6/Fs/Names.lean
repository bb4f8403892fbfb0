import Xv6.Fs.World

namespace Xv6.Fs

open Xv6.Data Xv6.Disk
open Function (update update_self update_of_ne update_eq_self update_idem update_comm)

/-! # Calls on names

Each call makes one `Change` or leaves the world as it is. -/

variable {faults : Faults} {sb : Superblock} {w : World} {i dp ip cwd : Inum} {name path : List Byte} {ops : Nat}
  {tables : Tables} {proc : Proc}

theorem no_exempt : ∀ j ∈ (w.view ops).exempt, j ∈ (w.view ops).held := by
  intro j isExempt
  exact absurd isExempt (Finset.notMem_empty j)

theorem no_locks {fault : Prop} (isLocked : i ∈ (∅ : Finset Inum)) : fault :=
  absurd isLocked (Finset.notMem_empty i)

theorem sweep_view : (w.sweep i).view ops = { w.view ops with inode := (w.sweep i).inode } :=
  congrArg (View.mk _ · _ _ _ _) sweep_base

def Perhaps (sb : Superblock) (w t : World) : Prop := t = w ∨ Change sb w t

theorem created_self {type : FileType} {major minor : BitVec 16} (different : ip ≠ dp) :
    (((w.created dp name ip type major minor).sweep dp).inode ip).type = type := by
  rw [sweep_of_ne different]
  simp only []
  rw [update_of_ne different, update_self]

def Named (sb : Superblock) (w : World) (tables : Tables) (ops : Nat) (r : Int × Tables) (u : View) : Prop :=
  r.2 = tables ∧ ∃ t, Perhaps sb w t ∧ (r.1 = -1 → t = w) ∧ u = t.view ops

theorem Named.same {r : Int} : Named sb w tables ops (r, tables) (w.view ops) :=
  ⟨rfl, w, .inl rfl, fun _ => rfl, rfl⟩

theorem Change.named {t : World} (changed : Change sb w t) : Named sb w tables ops (0, tables) (t.view ops) :=
  ⟨rfl, t, .inr changed, nofun, rfl⟩

theorem leads_giveUp :
    Leads faults sb (w.view (ops + 1)) (endOp >>= fun _ => pure ((-1 : Int), tables)) (Named sb w tables ops) := by
  apply Script.Leads.seq (leads_endOp (Nat.succ_pos ops))
  exact .pure .same

section

variable (walkable : Walkable faults w.inode) (inUse : 0 < w.base cwd)
include walkable inUse

theorem leads_found {β : Type} {rest : Option Inum → Code β} {body : Inum → Code β} {post : β → View → Prop}
    (locks : ∀ ip, rest (some ip) = ilock ip >>= fun _ => body ip) (missing : Leads faults sb (w.view ops) (rest none) post)
    (found : ∀ ip, (w.inode ip).type ≠ .free → Leads faults sb (((w.view ops).hold ip).lock ip) (body ip) post) :
    Leads faults sb (w.view ops) (namei cwd path >>= rest) post := by
  apply Script.Leads.bind (leads_namei walkable no_exempt rfl inUse)
  intro r u reached
  cases reached with
  | inl failed =>
    obtain ⟨rfl, rfl⟩ := failed
    exact missing
  | inr reached =>
    obtain ⟨ip, rfl, rfl, dangles⟩ := reached
    rw [locks]
    apply Script.Leads.bind (leads_ilock View.mem_hold no_locks dangles)
    intro _ u reached
    obtain ⟨_, allocated, rfl⟩ := reached
    exact found ip allocated

theorem leads_create {type : FileType} {major minor : BitVec 16} (typed : type ≠ .free) :
    Leads faults sb (w.view ops) (create cwd path type major minor) fun r u =>
      (r = none ∧ u = w.view ops) ∨
        ∃ t ip, r = some ip ∧ Perhaps sb w t ∧ (t.inode ip).type = type ∧
          u = ((t.view ops).hold ip).lock ip := by
  apply Script.Leads.bind (leads_nameiparent walkable no_exempt rfl inUse)
  intro r u reached
  cases reached.2 with
  | inl failed =>
    obtain ⟨rfl, rfl⟩ := failed
    exact .pure (.inl ⟨rfl, rfl⟩)
  | inr found =>
    obtain ⟨dp, name, rfl, rfl, isDir⟩ := found
    have dangles : (w.inode dp).type = .free → faults.dangling := fun isFree => absurd (isDir.symm.trans isFree) (by decide)
    apply Script.Leads.bind (leads_ilock (v := (w.view ops).hold dp) View.mem_hold no_locks dangles)
    intro _ u reached
    obtain ⟨unlocked, _, rfl⟩ := reached
    have readable := walkable.readable dp isDir
    apply Script.Leads.bind 
      (leads_dirlookup (v := ((w.view ops).hold dp).lock dp) View.mem_lock isDir readable)
    intro r u reached
    cases found : lookup (w.inode dp).data name with
    | some k =>
      simp only [found] at reached
      obtain ⟨rfl, rfl⟩ := reached
      obtain ⟨below, live, _⟩ := lookup_some found
      rw [View.hold_lock_hold]
      refine Script.Leads.bind (leads_iunlockput_own ?_ unlocked) ?_
      · exact fun j isExempt => absurd isExempt (Finset.notMem_empty j)
      intro _ u reached
      subst u
      apply Script.Leads.bind (leads_ilock (v := (w.view ops).hold _) View.mem_hold no_locks
        (walkable.target dp k isDir below live))
      intro _ u reached
      obtain ⟨free, _, rfl⟩ := reached
      apply Script.Leads.bind (leads_fields View.mem_lock)
      intro f u reached
      obtain ⟨rfl, rfl⟩ := reached
      split
      · rename_i bothFiles
        obtain ⟨isFile, wasFile⟩ := bothFiles
        exact .pure (.inr ⟨w, _, rfl, .inl rfl, wasFile.trans isFile.symm, rfl⟩)
      · apply Script.Leads.bind (leads_iunlockput_own no_exempt free)
        intro _ u reached
        exact .pure (.inl ⟨rfl, reached⟩)
    | none =>
      simp only [found] at reached
      obtain ⟨rfl, rfl⟩ := reached
      apply Script.Leads.bind (leads_createEntry typed isDir readable found)
      intro n u reached
      obtain ⟨unused, positive, below, addable, rfl⟩ := reached
      have different : n ≠ dp := by
        rintro rfl
        exact absurd (isDir.symm.trans unused) (by decide)
      exact .pure (.inr ⟨_, n, rfl, .inr (.create dp name n type major minor typed unused positive below addable),
        created_self different, rfl⟩)

theorem leads_openInode {omode : BitVec 32} :
    Leads faults sb (w.view ops) (openInode cwd path omode) fun r u =>
      (r = none ∧ u = w.view ops) ∨
        ∃ t ip, r = some ip ∧ Perhaps sb w t ∧ (t.inode ip).type ≠ .free ∧
          ((t.inode ip).type = .dir → omode = 0) ∧ u = ((t.view ops).hold ip).lock ip := by
  unfold openInode
  split
  · apply (leads_create walkable inUse (by decide)).weaken
    intro r u reached
    cases reached with
    | inl failed => exact .inl failed
    | inr made =>
      obtain ⟨t, ip, rfl, changed, isFile, rfl⟩ := made
      exact .inr ⟨t, ip, rfl, changed, by simp [isFile], by simp [isFile], rfl⟩
  · apply leads_found walkable inUse fun _ => rfl
    · exact .pure (.inl ⟨rfl, rfl⟩)
    · intro ip allocated
      apply Script.Leads.bind (leads_fields View.mem_lock)
      intro f u reached
      obtain ⟨rfl, rfl⟩ := reached
      split
      · apply Script.Leads.bind (leads_iunlockput_own no_exempt (Finset.notMem_empty ip))
        intro _ u reached
        exact .pure (.inl ⟨rfl, reached⟩)
      · rename_i allowed
        refine .pure (.inr ⟨w, ip, rfl, .inl rfl, allocated, ?_, rfl⟩)
        intro isDir
        by_contra writes
        exact allowed ⟨isDir, writes⟩

end

section

variable {v : View} (member : ip ∈ v.locks)
include member

theorem leads_readAll {off n : Nat} : Leads faults sb v (readAll ip off n) fun _ u => u = v := by
  apply Script.Leads.bind (leads_readi member)
  intro r u reached
  cases r with
  | none | some bytes => exact .pure reached.1

theorem leads_loaduvm {offset sz fuel start : Nat} (enough : sz ≤ start + 4096 * fuel) :
    Leads faults sb v (loaduvm ip offset sz fuel start) fun _ u => u = v := by
  induction fuel generalizing start with
  | zero =>
    rw [loaduvm, if_neg (by omega)]
    exact .pure rfl
  | succ fuel ih =>
    unfold loaduvm
    split
    · apply Script.Leads.bind (leads_readAll member)
      intro r u reached
      subst u
      cases r with
      | none => exact .pure rfl
      | some bytes => exact ih (by omega)
    · exact .pure rfl

theorem leads_execLoad {left off : Nat} {granted : List Bool} :
    Leads faults sb v (execLoad ip left off granted) fun _ u => u = v := by
  induction left generalizing off granted with
  | zero => exact .pure rfl
  | succ left ih =>
    apply Script.Leads.bind (leads_readAll member)
    intro r u reached
    subst u
    cases r with
    | none => exact .pure rfl
    | some ph =>
      simp only []
      split
      · exact ih
      · split
        · exact .pure rfl
        · apply Script.Leads.bind (leads_loaduvm member (by omega))
          intro loaded u reached
          subst u
          cases loaded with
          | true => exact ih
          | false => exact .pure rfl

theorem leads_execFile {granted : List Bool} : Leads faults sb v (execFile ip granted) fun _ u => u = v := by
  apply Script.Leads.bind (leads_readAll member)
  intro r u reached
  subst u
  cases r with
  | none => exact .pure rfl
  | some elf =>
    simp only []
    split
    · exact .pure rfl
    · exact leads_execLoad member

end

abbrev unlinkView (w : World) (dp ip : Inum) (ops : Nat) : View :=
  ((((w.view ops).hold dp).lock dp).hold ip).lock ip

theorem sweep_set {j : Inum} {new : Inode} (different : i ≠ j) : (w.sweep j).set i new = (w.set i new).sweep j := by
  unfold World.sweep
  simp only [update_of_ne different.symm]
  split
  · exact congrArg (World.mk · w.base) (update_comm different.symm _ _ _)
  · rfl

theorem leads_relink {α : Type} {change : BitVec 16} {next : Code α} {post : α → View → Prop} {exempt : Finset Inum}
    (noExempt : exempt.erase ip = ∅) (after : Leads faults sb
      (((w.set ip { w.inode ip with nlink := (w.inode ip).nlink + change }).sweep ip).view ops) next post) :
    Leads faults sb (((w.exemptView exempt ops).hold ip).lock ip)
      (do changeNlink ip change; iunlockput ip; next) post := by
  apply Script.Leads.bind (leads_changeNlink View.mem_lock)
  intro _ u reached
  have one : u.held.count ip = 1 := by
    rw [reached]
    simp
  have member : ip ∈ u.locks := by
    rw [reached]
    exact View.mem_lock
  apply Script.Leads.bind (leads_iunlockput member one)
  intro _ t given
  have equal : t = ((w.set ip { w.inode ip with nlink := (w.inode ip).nlink + change }).sweep ip).view ops := by
    have noneLeft : (insert ip exempt).erase ip = ∅ := by rw [Finset.erase_insert_eq_erase, noExempt]
    rw [given, reached]
    simp [sweep_base, noneLeft]
  rw [equal]
  exact after

theorem leads_unlinkDirent {k : Nat} {type : FileType} (isDir : (w.inode dp).type = .dir) :
    Leads faults sb (unlinkView w dp ip ops) (unlinkDirent dp (DIRENTSIZE * k) type) fun _ u =>
      ∃ exempt : Finset Inum, exempt.erase dp = ∅ ∧
        u = { unlinkView w dp ip ops with
          inode := update w.inode dp { w.inode dp with
            nlink := if type = .dir then (w.inode dp).nlink + (-1) else (w.inode dp).nlink
            data := clearEntry (w.inode dp).data k }
          exempt } := by
  have member : dp ∈ (unlinkView w dp ip ops).locks := Finset.mem_insert_of_mem View.mem_lock
  apply Script.Leads.bind (leads_writei member (by rw [isDir]; decide))
  intro r u reached
  cases reached with
  | inl failed =>
    obtain ⟨rfl, rfl⟩ := failed
    apply Script.Leads.bind (leads_expect (by simp [Fine]))
    intro _ u passed
    exact absurd passed.1 (by simp)
  | inr written =>
    obtain ⟨_, _, _, equal, _⟩ := written
    apply Script.Leads.bind (leads_expect (by simp [Fine]))
    intro _ t passed
    obtain ⟨_, rfl⟩ := passed
    have memberT : dp ∈ t.locks := by
      rw [equal]
      exact member
    split
    · apply (leads_changeNlink memberT).weaken
      intro _ x reached
      rw [reached, equal]
      refine ⟨{dp}, by simp, ?_⟩
      simp only [update_self, update_idem]
      rfl
    · apply Script.Leads.pure
      rw [equal]
      exact ⟨∅, rfl, rfl⟩

theorem leads_unlinkBad :
    Leads faults sb (((w.view (ops + 1)).hold dp).lock dp) (unlinkBad tables dp) (Named sb w tables ops) := by
  apply Script.Leads.seq (leads_iunlockput_own no_exempt (Finset.notMem_empty dp))
  exact leads_giveUp

theorem leads_unlinkEntry {k : Nat} {type : FileType} (isDir : (w.inode dp).type = .dir) (different : ip ≠ dp)
    (same : type = (w.inode ip).type) : Leads faults sb (unlinkView w dp ip (ops + 1))
      (do unlinkDirent dp (DIRENTSIZE * k) type
          iunlockput dp
          changeNlink ip (-1)
          iunlockput ip
          endOp
          pure ((0 : Int), tables)) fun r u =>
        r = (0, tables) ∧ u = (((w.unlinked dp ip k).sweep dp).sweep ip).view ops := by
  apply Script.Leads.bind (leads_unlinkDirent isDir)
  intro _ u reached
  obtain ⟨exempt, noExempt, equalU⟩ := reached
  have one : u.held.count dp = 1 := by
    rw [equalU]
    simp [different.symm]
  have member : dp ∈ u.locks := by
    rw [equalU]
    exact Finset.mem_insert_of_mem View.mem_lock
  apply Script.Leads.bind (leads_iunlockput member one)
  intro _ t given
  let cleared := w.set dp { w.inode dp with
    nlink := if type = .dir then (w.inode dp).nlink + (-1) else (w.inode dp).nlink
    data := clearEntry (w.inode dp).data k }
  have equal : t = (((cleared.sweep dp).view (ops + 1)).hold ip).lock ip := by
    have heldT : (ip ::ₘ dp ::ₘ 0).erase dp = ip ::ₘ 0 := by
      rw [Multiset.erase_cons_tail _ different, Multiset.erase_cons_head]
    have locksT : (insert ip (insert dp ∅) : Finset Inum).erase dp = insert ip ∅ := by
      rw [Finset.erase_insert_of_ne different, Finset.erase_insert (Finset.notMem_empty dp)]
    rw [given, equalU]
    simp only [heldT, locksT, noExempt, cleared, View.lock, sweep_base]
  have sameIp : (cleared.sweep dp).inode ip = w.inode ip := by
    rw [sweep_of_ne different]
    exact update_of_ne different _ _
  have final : ((cleared.sweep dp).set ip
      { (cleared.sweep dp).inode ip with nlink := ((cleared.sweep dp).inode ip).nlink + (-1) }).sweep ip =
        ((w.unlinked dp ip k).sweep dp).sweep ip := by
    rw [sameIp, sweep_set different]
    simp only [cleared, same]
  rw [equal]
  apply leads_relink (Finset.erase_empty ip)
  rw [final]
  apply Script.Leads.bind (leads_endOp (Nat.succ_pos ops))
  intro _ x reached
  exact .pure ⟨rfl, reached⟩

section

variable (walkable : Walkable faults w.inode)
include walkable

theorem leads_unlinkInode {k : Nat} (isDir : (w.inode dp).type = .dir)
    (notDot : namecmp name dot ≠ 0) (notDotdot : namecmp name dotdot ≠ 0)
    (found : lookup (w.inode dp).data name = some k) (target : ip = (direntAt (w.inode dp).data k).inum.toNat) :
    Leads faults sb ((((w.view (ops + 1)).hold dp).lock dp).hold ip)
      (unlinkInode tables dp ip (DIRENTSIZE * k)) (Named sb w tables ops) := by
  obtain ⟨below, live, _⟩ := lookup_some found
  have dangles : (w.inode ip).type = .free → faults.dangling := by
    rw [target]
    exact walkable.target dp k isDir below live
  have different : ip ≠ dp := by
    intro same
    cases walkable.own dp name k isDir found (target.symm.trans same) with
    | inl isDot => exact notDot isDot
    | inr isDotdot => exact notDotdot isDotdot
  have waits : ip ∈ ((((w.view (ops + 1)).hold dp).lock dp).hold ip).locks → faults.deadlock := by
    intro isLocked
    exact absurd (Finset.mem_singleton.mp isLocked) different
  apply Script.Leads.bind (leads_ilock View.mem_hold waits dangles)
  intro _ u reached
  obtain ⟨unlocked, allocated, rfl⟩ := reached
  apply Script.Leads.bind (leads_fields View.mem_lock)
  intro f u reached
  obtain ⟨rfl, rfl⟩ := reached
  split
  · exact .stop (by simp [Fine])
  · rename_i positive
    have emptied : Leads faults sb (unlinkView w dp ip (ops + 1))
        (if (w.inode ip).fields.type = .dir then isdirempty ip else pure true) fun r u =>
          (r = true → (w.inode ip).type = .dir → Empty (w.inode ip).data) ∧ u = unlinkView w dp ip (ops + 1) := by
      split
      · rename_i ipDir
        apply (leads_isdirempty View.mem_lock ipDir (walkable.readable ip ipDir)).weaken
        intro r u reached
        exact ⟨fun isEmpty _ => reached.1.mp isEmpty, reached.2⟩
      · rename_i notDir
        exact .pure ⟨fun _ ipDir => absurd ipDir notDir, rfl⟩
    apply Script.Leads.bind emptied
    intro empty u reached
    obtain ⟨isEmpty, rfl⟩ := reached
    cases empty with
    | false =>
      change Leads faults sb _ (iunlockput ip >>= fun _ => unlinkBad tables dp) _
      refine Script.Leads.bind (leads_iunlockput_own ?_ unlocked) ?_
      · exact fun j isExempt => absurd isExempt (Finset.notMem_empty j)
      intro _ u reached
      exact reached ▸ leads_unlinkBad
    | true =>
      apply (leads_unlinkEntry isDir different rfl).weaken
      intro r u reached
      rw [reached.1, reached.2]
      exact (Change.unlink dp name k ip isDir notDot notDotdot found target different allocated positive
        (isEmpty rfl)).named

theorem leads_sysUnlink {path : Option (List Byte)} (inUse : 0 < w.base proc.cwd) :
    Leads faults sb (w.view ops) (sysUnlink tables proc path) (Named sb w tables ops) := by
  cases path with
  | none => exact .pure .same
  | some path =>
    apply Script.Leads.seq leads_beginOp
    apply Script.Leads.bind (leads_nameiparent (v := w.view (ops + 1)) walkable no_exempt rfl inUse)
    intro r u reached
    cases reached.2 with
    | inl failed =>
      obtain ⟨rfl, rfl⟩ := failed
      exact leads_giveUp
    | inr found =>
      obtain ⟨dp, name, rfl, rfl, isDir⟩ := found
      have dangles : (w.inode dp).type = .free → faults.dangling :=
        fun isFree => absurd (isDir.symm.trans isFree) (by decide)
      apply Script.Leads.bind (leads_ilock (v := (w.view (ops + 1)).hold dp) View.mem_hold no_locks dangles)
      intro _ u reached
      obtain ⟨_, _, rfl⟩ := reached
      split
      · exact leads_unlinkBad
      · rename_i allowed
        obtain ⟨notDot, notDotdot⟩ := not_or.mp allowed
        have readable := walkable.readable dp isDir
        apply Script.Leads.bind
          (leads_dirlookup (v := ((w.view (ops + 1)).hold dp).lock dp) View.mem_lock isDir readable)
        intro r u reached
        cases found : lookup (w.inode dp).data name with
        | none =>
          simp only [found] at reached
          obtain ⟨rfl, rfl⟩ := reached
          exact leads_unlinkBad
        | some k =>
          simp only [found] at reached
          obtain ⟨rfl, rfl⟩ := reached
          exact leads_unlinkInode walkable isDir notDot notDotdot found rfl

end

theorem Walkable.congr {inode other : Inum → Inode} (walkable : Walkable faults inode)
    (type : ∀ i, (other i).type = (inode i).type) (data : ∀ i, (other i).data = (inode i).data) :
    Walkable faults other := by
  constructor
  · rw [type]
    exact walkable.root
  · intro i
    rw [type, data]
    exact walkable.readable i
  · intro i k
    rw [type, data, type]
    exact walkable.target i k
  · intro i name k
    rw [type, data]
    exact walkable.own i name k

def SelfNamed (inode : Inum → Inode) (cwd : Inum) (path : List Byte) : Prop :=
  ∃ dp name k, resolveParent inode cwd path = some (dp, name) ∧ lookup (inode dp).data name = some k ∧
    (direntAt (inode dp).data k).inum.toNat = dp

/-- The link count of the old inode has been raised, and nothing is locked. -/
abbrev linkView (w : World) (ip : Inum) (ops : Nat) : View :=
  ((w.set ip { w.inode ip with nlink := (w.inode ip).nlink + 1 }).exemptView {ip} ops).hold ip

theorem linkView_self : ((linkView w ip ops).inode ip) = { w.inode ip with nlink := (w.inode ip).nlink + 1 } :=
  update_self _ _ _

theorem restore_nlink {raised : World} (used : (w.inode ip).nlink = 0 → 0 < w.base ip)
    (equal : raised = w.set ip { w.inode ip with nlink := (w.inode ip).nlink + 1 }) :
    (raised.set ip { raised.inode ip with nlink := (raised.inode ip).nlink + (-1) }).sweep ip = w := by
  have count : (w.inode ip).nlink + 1 + (-1) = (w.inode ip).nlink := by
    rw [BitVec.add_assoc]
    simp
  have same : raised.set ip { raised.inode ip with nlink := (raised.inode ip).nlink + (-1) } = w := by
    rw [equal]
    simp only [World.set, update_self, update_idem, count]
    exact congrArg (World.mk · w.base) (update_eq_self ip w.inode)
  rw [same]
  exact sweep_of_used used

theorem leads_linkBad (allocated : (w.inode ip).type ≠ .free) (used : (w.inode ip).nlink = 0 → 0 < w.base ip) :
    Leads faults sb (linkView w ip (ops + 1)) (linkBad tables ip) (Named sb w tables ops) := by
  apply Script.Leads.bind (leads_ilock (v := linkView w ip (ops + 1)) View.mem_hold no_locks ?_)
  · intro _ u reached
    obtain ⟨_, _, rfl⟩ := reached
    apply leads_relink (by simp)
    rw [restore_nlink used rfl]
    exact leads_giveUp
  · intro isFree
    rw [linkView_self] at isFree
    exact absurd isFree allocated

section

variable (walkable : Walkable faults w.inode) (inUse : 0 < w.base proc.cwd)
include walkable inUse

theorem leads_linkTo {new : List Byte} (waits : SelfNamed w.inode proc.cwd new → faults.deadlock)
    (allocated : (w.inode ip).type ≠ .free)
    (notDir : (w.inode ip).type ≠ .dir) (used : (w.inode ip).nlink = 0 → 0 < w.base ip) :
    Leads faults sb (linkView w ip (ops + 1)) (linkTo tables proc ip new) (Named sb w tables ops) := by
  have sameType (j : Inum) : ((linkView w ip (ops + 1)).inode j).type = (w.inode j).type := by
    by_cases same : j = ip
    · rw [same, linkView_self]
    · exact congrArg Inode.type (update_of_ne same _ _)
  have sameData (j : Inum) : ((linkView w ip (ops + 1)).inode j).data = (w.inode j).data := by
    by_cases same : j = ip
    · rw [same, linkView_self]
    · exact congrArg Inode.data (update_of_ne same _ _)
  have raised : Walkable faults (linkView w ip (ops + 1)).inode := walkable.congr sameType sameData
  have exemptHeld : ∀ j ∈ (linkView w ip (ops + 1)).exempt, j ∈ (linkView w ip (ops + 1)).held := by
    intro j isExempt
    rw [Finset.mem_singleton.mp isExempt]
    exact View.mem_hold
  apply Script.Leads.bind (leads_nameiparent raised exemptHeld rfl inUse)
  intro r u reached
  obtain ⟨resolved, reached⟩ := reached
  cases reached with
  | inl failed =>
    obtain ⟨rfl, rfl⟩ := failed
    exact leads_linkBad allocated used
  | inr found =>
    obtain ⟨dp, name, rfl, rfl, isDir⟩ := found
    rw [resolveParent, resolve_congr sameType sameData] at resolved
    have different : dp ≠ ip := by
      rintro rfl
      rw [linkView_self] at isDir
      exact notDir isDir
    have sameDp : (linkView w ip (ops + 1)).inode dp = w.inode dp := update_of_ne different _ _
    have dangles : ((linkView w ip (ops + 1)).inode dp).type = .free → faults.dangling :=
      fun isFree => absurd (isDir.symm.trans isFree) (by decide)
    apply Script.Leads.bind (leads_ilock (v := (linkView w ip (ops + 1)).hold dp) View.mem_hold no_locks dangles)
    intro _ u reached
    obtain ⟨unlocked, _, rfl⟩ := reached
    refine Script.Leads.bind (leads_dirlink (v := ((linkView w ip (ops + 1)).hold dp).lock dp) View.mem_lock isDir
      (raised.readable dp isDir) ?_ ?_) ?_
    · exact fun j isExempt => Multiset.mem_cons_of_mem (exemptHeld j isExempt)
    · intro k present isLocked
      rw [sameDp] at present
      refine waits ⟨dp, name, k, resolved, present, ?_⟩
      rw [← sameDp]
      exact Finset.mem_singleton.mp isLocked
    intro added u reached
    rw [show (((linkView w ip (ops + 1)).hold dp).lock dp).inode dp = w.inode dp from sameDp] at reached
    cases present : lookup (w.inode dp).data name with
    | some k =>
      simp only [present] at reached
      obtain ⟨rfl, rfl⟩ := reached
      apply Script.Leads.seq (leads_iunlockput_own exemptHeld unlocked)
      exact leads_linkBad allocated used
    | none =>
      simp only [present] at reached
      obtain ⟨rfl, equal, small, blocks⟩ := reached
      let entered := (w.linked dp name ip).exemptView {ip} (ops + 1)
      have same : u = ((entered.hold ip).hold dp).lock dp := equal
      have exemptEntered : ∀ j ∈ (entered.hold ip).exempt, j ∈ (entered.hold ip).held := exemptHeld
      rw [same]
      apply Script.Leads.seq (leads_iunlockput_own exemptEntered (Finset.notMem_empty dp))
      apply Script.Leads.bind (leads_iput View.mem_hold no_locks)
      intro _ t reached
      have given : t = ((w.linked dp name ip).sweep ip).view (ops + 1) := by
        rw [reached.2, View.put_of_last (Multiset.count_singleton_self ip)]
        simp only [entered, Multiset.erase_cons_head, Finset.erase_singleton, sweep_view]
      rw [given]
      apply Script.Leads.bind (leads_endOp (Nat.succ_pos ops))
      intro _ x reached
      have addable : Addable sb w dp name ip (w.linked dp name ip) := by
        refine ⟨?_, present, small, ?_⟩
        · rw [← sameDp]
          exact isDir
        · rw [same] at blocks
          exact blocks
      exact .pure (reached ▸ (Change.link dp name ip allocated notDir addable).named)

theorem leads_sysLink {args : Option (List Byte × List Byte)}
    (waits : ∀ old new, args = some (old, new) → SelfNamed w.inode proc.cwd new → faults.deadlock) :
    Leads faults sb (w.view ops) (sysLink tables proc args) (Named sb w tables ops) := by
  cases args with
  | none => exact .pure .same
  | some args =>
    apply leads_of_sound
    intro sound
    apply Script.Leads.seq leads_beginOp
    apply leads_found walkable inUse fun _ => rfl
    · exact leads_giveUp
    · intro ip allocated
      apply Script.Leads.bind (leads_fields View.mem_lock)
      intro f u reached
      obtain ⟨rfl, rfl⟩ := reached
      split
      · apply Script.Leads.seq (leads_iunlockput_own no_exempt (Finset.notMem_empty ip))
        exact leads_giveUp
      · rename_i notDir
        apply Script.Leads.bind (leads_changeNlink View.mem_lock)
        intro _ u raised
        have member : ip ∈ u.locks := by
          rw [raised]
          exact View.mem_lock
        apply Script.Leads.bind (leads_iunlock member)
        intro _ t reached
        have equal : t = linkView w ip (ops + 1) := by
          rw [reached, raised]
          simp
        rw [equal]
        exact leads_linkTo walkable inUse (waits _ _ rfl) allocated notDir
          (sound.linked ip (Finset.notMem_empty ip) allocated)

theorem leads_finishCreate {path : List Byte} {type : FileType} {major minor : BitVec 16} (typed : type ≠ .free) :
    Leads faults sb (w.view (ops + 1)) (create proc.cwd path type major minor >>= finishCreate tables)
      (Named sb w tables ops) := by
  apply Script.Leads.bind (leads_create walkable inUse typed)
  intro r u reached
  cases reached with
  | inl failed =>
    obtain ⟨rfl, rfl⟩ := failed
    exact leads_giveUp
  | inr made =>
    obtain ⟨t, ip, rfl, changed, _, rfl⟩ := made
    apply Script.Leads.seq (leads_iunlockput_own no_exempt (Finset.notMem_empty ip))
    apply Script.Leads.bind (leads_endOp (Nat.succ_pos ops))
    intro _ u reached
    exact .pure ⟨rfl, t, changed, nofun, reached⟩

theorem leads_sysMkdir {path : Option (List Byte)} :
    Leads faults sb (w.view ops) (sysMkdir tables proc path) (Named sb w tables ops) := by
  apply Script.Leads.seq leads_beginOp
  cases path with
  | none => exact leads_giveUp
  | some path => exact leads_finishCreate walkable inUse (by decide)

theorem leads_sysMknod {args : Option (List Byte × BitVec 32 × BitVec 32)} :
    Leads faults sb (w.view ops) (sysMknod tables proc args) (Named sb w tables ops) := by
  apply Script.Leads.seq leads_beginOp
  cases args with
  | none => exact leads_giveUp
  | some args => exact leads_finishCreate walkable inUse (by decide)

theorem leads_exec {args : Option (List Byte × List Bool)} :
    Leads faults sb (w.view ops) (exec tables proc args) (Named sb w tables ops) := by
  cases args with
  | none => exact .pure .same
  | some args =>
    apply Script.Leads.seq leads_beginOp
    apply leads_found walkable inUse fun _ => rfl
    · exact leads_giveUp
    · intro ip _
      apply Script.Leads.bind (leads_execFile View.mem_lock)
      intro loaded u reached
      subst u
      apply Script.Leads.seq (leads_iunlockput_own no_exempt (Finset.notMem_empty ip))
      apply Script.Leads.seq (leads_endOp (Nat.succ_pos ops))
      exact .pure .same

end

end Xv6.Fs
