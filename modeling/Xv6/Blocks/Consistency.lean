import Xv6.Blocks.Inodes

namespace Xv6.Blocks

open Xv6.Data Xv6.Disk
open Xv6.Fs (Inum NDIRECT MAXFILE Stop Query Fields FileType NINODE)

/-! # Operations on a sound disk -/

variable {sb : Superblock} {s t : Inodes} {i : Inum} {fine : Stop → Prop}

theorem Consistent.set {new : CachedInode} (consistent : Consistent sb s) (sound : Sound sb t.device)
    (dinode : ∀ j < sb.ninodes, j ≠ i → t.device.dinode sb j = s.device.dinode sb j)
    (entry : t.entry = Function.update s.entry i new)
    (own : 0 < new.ref → new.valid = true → Shadows sb t.device i new.ip new.dirty)
    (clean : 0 < new.ref → new.locked = false → new.dirty = false) : Consistent sb t := by
  refine ⟨sound, ?_, ?_⟩
  · intro j isCached
    unfold Inodes.cached at isCached
    rw [entry] at isCached ⊢
    by_cases same : j = i
    · subst same
      rw [Function.update_self] at isCached ⊢
      exact own isCached.1 isCached.2
    · rw [Function.update_of_ne same] at isCached ⊢
      have before := consistent.cached j isCached
      exact before.congr (dinode j before.inside same)
  · intro j
    rw [entry]
    by_cases same : j = i
    · subst same
      rw [Function.update_self]
      exact clean
    · rw [Function.update_of_ne same]
      exact consistent.clean j

theorem Consistent.setEntry {new : CachedInode} (consistent : Consistent sb s) (device : t.device = s.device)
    (entry : t.entry = Function.update s.entry i new)
    (own : 0 < new.ref → new.valid = true → Shadows sb s.device i new.ip new.dirty)
    (clean : 0 < new.ref → new.locked = false → new.dirty = false) : Consistent sb t := by
  apply consistent.set ?_ ?_ entry ?_ clean
  · rw [device]
    exact consistent.sound
  · intro j _ _
    rw [device]
  · rw [device]
    exact own

theorem Consistent.same (consistent : Consistent sb s) (device : t.device = s.device) (entry : t.entry = s.entry) :
    Consistent sb t := by
  refine ⟨?_, ?_, ?_⟩
  · rw [device]
    exact consistent.sound
  · unfold Inodes.cached
    rw [entry, device]
    exact consistent.cached
  · rw [entry]
    exact consistent.clean

/-- A step that changes neither the disk nor a reference. -/
structure Keeps (sb : Superblock) (s t : Inodes) : Prop where
  consistent : Consistent sb t
  device : t.device = s.device
  refs : ∀ i, (t.entry i).ref = (s.entry i).ref

theorem Consistent.keeps {new : CachedInode} (consistent : Consistent sb s)
    (own : 0 < new.ref → new.valid = true → Shadows sb s.device i new.ip new.dirty)
    (clean : 0 < new.ref → new.locked = false → new.dirty = false) (ref : new.ref = (s.entry i).ref) :
    Keeps sb s (s.setEntry i new) := by
  refine ⟨consistent.setEntry rfl rfl own clean, rfl, ?_⟩
  intro j
  simp only [Inodes.setEntry, Function.update_apply]
  split
  · next same => rw [ref, same]
  · rfl

def Orderly (reason : Stop) : Prop := reason ∉ [.panic .freeingFreeBlock, .panic .bmap]

instance : DecidablePred Orderly := fun _ => inferInstanceAs (Decidable (_ ∉ _))

section

variable (consistent : Consistent sb s)
include consistent

theorem Consistent.bread (within : i < sb.ninodes) :
    Meets fine (bread (IBLOCK sb i)) s.device fun bp e => bp = s.device.block (IBLOCK sb i) ∧ e = s.device := by
  rw [← bind_pure (Blocks.bread (IBLOCK sb i))]
  exact bread_bind (consistent.sound.owned.layout.inode_small within) (.pure ⟨rfl, rfl⟩)

theorem Consistent.ilock : Ends Orderly (fun r => Keeps sb s r.2) (s.ilock sb i) := by
  unfold Inodes.ilock
  dsimp only
  split
  · exact .error (by decide)
  · rename_i referred
    have positive : 0 < (s.entry i).ref := by omega
    split
    · exact .error (by decide)
    · split
      · rename_i isValid
        refine .ok (consistent.keeps ?_ ?_ rfl)
        · exact fun _ _ => consistent.cached i ⟨positive, isValid⟩
        · exact fun _ unlocked => nomatch unlocked
      · split
        · exact .error (by decide)
        · rename_i inside
          have within : i < sb.ninodes := Nat.lt_of_not_le inside
          apply (io_ends (consistent.bread within)).bind
          intro ⟨bp, t⟩ ⟨e, isState, isBlock, same⟩
          dsimp only at isState isBlock ⊢
          subst isState isBlock same
          split
          · exact .error (by decide)
          · rename_i live
            refine .ok (consistent.keeps ?_ ?_ rfl)
            · exact fun _ _ => shadows_self within live _
            · exact fun _ unlocked => nomatch unlocked

theorem Consistent.iunlock : Ends Orderly (fun r => Keeps sb s r.2) (s.iunlock i) := by
  unfold Inodes.iunlock
  dsimp only
  split
  · exact .error (by decide)
  · rename_i holding
    have positive : 0 < (s.entry i).ref := by omega
    split
    · exact .error (by decide)
    · rename_i isClean
      refine .ok (consistent.keeps ?_ ?_ rfl)
      · exact fun _ isValid => consistent.cached i ⟨positive, isValid⟩
      · exact fun _ _ => Bool.eq_false_iff.mpr isClean

theorem Consistent.whenLocked {α : Type} {body : Except Stop α} {post : α → Prop}
    (holds : Shadows sb s.device i (s.entry i).ip (s.entry i).dirty → (s.entry i).locked = true → Ends Orderly post body) :
    Ends Orderly post (s.whenLocked i body) := by
  unfold Inodes.whenLocked
  split
  · next holding => exact holds (consistent.cached i ⟨holding.1, holding.2.2⟩) holding.2.1
  · exact .error (by decide)

theorem Consistent.writei {off : Nat} {src : List Byte} :
    Ends Orderly (fun r => Consistent sb r.2) (s.writei sb i off src) := by
  apply consistent.whenLocked
  intro shadow holding
  have writes : Meets Orderly (Blocks.writei sb i (s.entry i).ip off src) s.device fun r e =>
      r.2 = (s.entry i).ip ∧ e = s.device ∨
        Overwritten sb (Function.update (s.device.dinode sb) i (s.entry i).ip) s.device i off src r.2 e := by
    by_cases isDev : (s.entry i).ip.type = T_DEV
    · rw [Blocks.writei, if_pos isDev]
      exact .pure (.inl ⟨rfl, rfl⟩)
    · by_cases refused : Refused (s.entry i).ip off src.length
      · apply (writei_refused isDev refused).weaken
        rintro r e ⟨same, isCopy⟩
        exact .inl ⟨by rw [isCopy], same⟩
      · apply ((shadow.writei consistent.sound isDev refused).allow ?_).weaken
        · exact fun r e written => .inr written.2
        · intro reason out
          rw [out.1]
          decide
  apply (io_ends writes).bind
  rintro ⟨⟨n, dip⟩, t⟩ ⟨e, isState, written⟩
  dsimp only at isState written ⊢
  subst isState
  cases written with
  | inl same =>
    obtain ⟨isCopy, device⟩ := same
    subst isCopy device
    refine .ok (consistent.setEntry rfl rfl ?_ ?_)
    · rw [if_pos rfl]
      exact fun _ _ => shadow
    · exact fun _ unlocked => Bool.noConfusion (holding.symm.trans unlocked)
  | inr overwritten =>
    obtain ⟨sound, stored⟩ := shadow.overwritten overwritten
    refine .ok (consistent.set sound overwritten.dinode rfl ?_ ?_)
    · exact fun _ _ => stored
    · exact fun _ unlocked => Bool.noConfusion (holding.symm.trans unlocked)

end

end Xv6.Blocks
