import Xv6.Data.Contract
import Xv6.Disk.Bytes
import Xv6.Fs.Directories

namespace Xv6.Blocks

open Xv6.Data Xv6.Disk
open Xv6.Fs (Inum NDIRECT MAXFILE Stop)

/-! # Inodes in blocks

The lower half of `fs.c`, on blocks as the buffer cache shows them.  `readi` and
`writei` take the copy of the inode that the caller has locked, and return it.
-/

abbrev FSSIZE : Nat := 1000

/-- Inodes in a block: `BSIZE / sizeof(struct dinode)`. -/
abbrev IPB : Nat := 8

structure Superblock where
  size : Nat
  nblocks : Nat
  ninodes : Nat
  nlog : Nat
  logstart : Nat
  inodestart : Nat
  bmapstart : Nat
deriving DecidableEq, Repr

/-- The blocks as seen through the cache, the blocks given to `log_write`, and what
`consoleread` will return. -/
structure Device where
  block : Nat → Block
  logged : List Nat := []
  input : List (Option (List Byte)) := []

abbrev Io := Program Device Stop

/-- Every number from `FSSIZE` on makes `iderw` panic. -/
def bread (b : Nat) : Io Block := do
  if b < FSSIZE then return (← get).block b else throw .misuse

def Device.write (d : Device) (b : Nat) (data : Block) : Device :=
  { d with block := Function.update d.block b data, logged := b :: d.logged }

def logWrite (b : Nat) (data : Block) : Io Unit := modify fun d => d.write b data

def bzero (b : Nat) : Io Unit := do
  let _ ← bread b
  logWrite b Block.zero

section

variable (sb : Superblock)

def BBLOCK (b : Nat) : Nat := b / BPB + sb.bmapstart

def IBLOCK (i : Inum) : Nat := i / IPB + sb.inodestart

-- Comparing terms must not search the map.
/-- The first block from `b` on that the map block `bp` shows free. -/
@[irreducible] def freeBit (bp : Block) (b : Nat) : Option (Fin BPB) :=
  (List.finRange BPB).find? fun bi => b + bi < sb.size ∧ bp.bit bi = false

def ballocLoop : Nat → Nat → Io BlockNo
  | 0, _ => throw (.panic .balloc)
  | fuel + 1, b =>
    if b < sb.size then do
      let bp ← bread (BBLOCK sb b)
      match freeBit sb bp b with
      | some bi =>
        logWrite (BBLOCK sb b) (bp.setBit bi)
        bzero (b + bi)
        pure (BitVec.ofNat 32 (b + bi))
      | none => ballocLoop fuel (b + BPB)
    else throw (.panic .balloc)

def balloc : Io BlockNo := ballocLoop sb (sb.size / BPB + 1) 0

def bitOf (b : Nat) : Fin BPB := ⟨b % BPB, Nat.mod_lt b (by decide)⟩

def bfree (b : BlockNo) : Io Unit := do
  let bp ← bread (BBLOCK sb b.toNat)
  if bp.bit (bitOf b.toNat) = false then throw (.panic .freeingFreeBlock)
  else logWrite (BBLOCK sb b.toNat) (bp.clearBit (bitOf b.toNat))

end

abbrev T_DIR : BitVec 16 := 1
abbrev T_FILE : BitVec 16 := 2
abbrev T_DEV : BitVec 16 := 3

/-- The place of the indirect block in `addrs`. -/
abbrev INDIRECT : Fin (NDIRECT + 1) := Fin.last NDIRECT

structure Dinode where
  type : BitVec 16 := 0
  major : BitVec 16 := 0
  minor : BitVec 16 := 0
  nlink : BitVec 16 := 0
  size : BitVec 32 := 0
  addrs : Fin (NDIRECT + 1) → BlockNo := fun _ => 0
deriving DecidableEq

def Dinode.setAddr (ip : Dinode) (k : Fin (NDIRECT + 1)) (addr : BlockNo) : Dinode :=
  { ip with addrs := Function.update ip.addrs k addr }

def Dinode.words (ip : Dinode) (j : Fin 16) : BitVec 32 :=
  if j = 0 then ip.major ++ ip.type
  else if j = 1 then ip.nlink ++ ip.minor
  else if j = 2 then ip.size
  else ip.addrs ⟨j - 3, show j.val - 3 < 13 by omega⟩

def dinodeWord (slot : Fin IPB) (j : Fin 16) : Fin NINDIRECT := finProdFinEquiv (slot, j)

def getDinode (block : Block) (slot : Fin IPB) : Dinode where
  type := (block.word (dinodeWord slot 0)).setWidth 16
  major := (block.word (dinodeWord slot 0)).extractLsb' 16 16
  minor := (block.word (dinodeWord slot 1)).setWidth 16
  nlink := (block.word (dinodeWord slot 1)).extractLsb' 16 16
  size := block.word (dinodeWord slot 2)
  addrs := fun k => block.word (dinodeWord slot ⟨k + 3, Nat.add_lt_add_right k.isLt 3⟩)

def setDinode (block : Block) (slot : Fin IPB) (ip : Dinode) : Block :=
  (List.finRange 16).foldl (fun b j => b.setWord (dinodeWord slot j) (ip.words j)) block

def slotOf (i : Inum) : Fin IPB := ⟨i % IPB, Nat.mod_lt i (by decide)⟩

section

variable (sb : Superblock)

def iupdate (inum : Inum) (ip : Dinode) : Io Unit := do
  let bp ← bread (IBLOCK sb inum)
  logWrite (IBLOCK sb inum) (setDinode bp (slotOf inum) ip)

def inodeAddr (ip : Dinode) (k : Fin (NDIRECT + 1)) : Io (BlockNo × Dinode) :=
  if ip.addrs k = 0 then do
    let addr ← balloc sb
    pure (addr, ip.setAddr k addr)
  else pure (ip.addrs k, ip)

def indirectAddr (addr : BlockNo) (k : Fin NINDIRECT) : Io BlockNo := do
  let bp ← bread addr.toNat
  if bp.word k = 0 then do
    let entry ← balloc sb
    -- `a` points into the buffer, which `balloc` may have changed.
    let bp ← bread addr.toNat
    logWrite addr.toNat (bp.setWord k entry)
    pure entry
  else pure (bp.word k)

def bmap (ip : Dinode) (bn : Nat) : Io (BlockNo × Dinode) :=
  if direct : bn < NDIRECT then inodeAddr sb ip ⟨bn, Nat.lt_succ_of_lt direct⟩
  else if indirect : bn - NDIRECT < NINDIRECT then do
    let (addr, ip) ← inodeAddr sb ip INDIRECT
    let entry ← indirectAddr sb addr ⟨bn - NDIRECT, indirect⟩
    pure (entry, ip)
  else throw (.panic .bmap)

def truncDirect : List (Fin NDIRECT) → Dinode → Io Dinode
  | [], ip => pure ip
  | k :: rest, ip =>
    if ip.addrs k.castSucc = 0 then truncDirect rest ip
    else do
      bfree sb (ip.addrs k.castSucc)
      truncDirect rest (ip.setAddr k.castSucc 0)

def truncIndirect (bp : Block) : List (Fin NINDIRECT) → Io Unit
  | [] => pure ()
  | k :: rest => do
    (if bp.word k = 0 then pure () else bfree sb (bp.word k))
    truncIndirect bp rest

def itrunc (inum : Inum) (ip : Dinode) : Io Dinode := do
  let ip ← truncDirect sb (List.finRange NDIRECT) ip
  let ip ← (if ip.addrs INDIRECT = 0 then pure ip
    else do
      let bp ← bread (ip.addrs INDIRECT).toNat
      truncIndirect sb bp (List.finRange NINDIRECT)
      bfree sb (ip.addrs INDIRECT)
      pure (ip.setAddr INDIRECT 0))
  let ip := { ip with size := 0 }
  iupdate sb inum ip
  pure ip

/-- The loop of `readi`; every round takes a byte at least. -/
def readiLoop : Nat → Dinode → Nat → Nat → Io (List Byte × Dinode)
  | 0, ip, _, _ => pure ([], ip)
  | fuel + 1, ip, off, n =>
    if n = 0 then pure ([], ip)
    else do
      let (addr, ip) ← bmap sb ip (off / BSIZE)
      let bp ← bread addr.toNat
      let m := min n (BSIZE - off % BSIZE)
      let (rest, ip) ← readiLoop fuel ip (off + m) (n - m)
      pure (bp.slice (off % BSIZE) m ++ rest, ip)

def CONSOLE : BitVec 16 := 1

def consoleread (n : Nat) : Io (Option (List Byte)) := do
  let d ← get
  set { d with input := d.input.tail }
  pure ((d.input.headD none).map (List.take n))

/-- `none` is the -1 of a failure. -/
def readi (ip : Dinode) (off n : Nat) : Io (Option (List Byte) × Dinode) :=
  if ip.type = T_DEV then
    if ip.major = CONSOLE then do
      let bytes ← consoleread n
      pure (bytes, ip)
    else pure (none, ip)
  else if ip.size.toNat < off ∨ (off + n) % 2 ^ 32 < off then pure (none, ip)
  else do
    let n := if ip.size.toNat < off + n then ip.size.toNat - off else n
    let (bytes, ip) ← readiLoop sb n ip off n
    pure (some bytes, ip)

def writeiLoop : Nat → Dinode → List Byte → Nat → Io Dinode
  | 0, ip, _, _ => pure ip
  | fuel + 1, ip, src, off =>
    if src = [] then pure ip
    else do
      let (addr, ip) ← bmap sb ip (off / BSIZE)
      let bp ← bread addr.toNat
      let m := min src.length (BSIZE - off % BSIZE)
      logWrite addr.toNat (bp.copy (off % BSIZE) (src.take m))
      writeiLoop fuel ip (src.drop m) (off + m)

def writei (inum : Inum) (ip : Dinode) (off : Nat) (src : List Byte) : Io (Option Nat × Dinode) :=
  if ip.type = T_DEV then
    -- `consolewrite` writes all bytes
    pure (if ip.major = CONSOLE then some src.length else none, ip)
  else if ip.size.toNat < off ∨ (off + src.length) % 2 ^ 32 < off then pure (none, ip)
  else if MAXFILE * BSIZE < off + src.length then pure (none, ip)
  else do
    let ip ← writeiLoop sb src.length ip src off
    if 0 < src.length ∧ ip.size.toNat < off + src.length then do
      let ip := { ip with size := BitVec.ofNat 32 (off + src.length) }
      iupdate sb inum ip
      pure (some src.length, ip)
    else pure (some src.length, ip)

end

end Xv6.Blocks
