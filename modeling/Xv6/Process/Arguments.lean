import Xv6.Memory.Vm

namespace Xv6.Process

/-! # The arguments of system calls

`fetchint`, `fetchstr`, `argint`, `argptr` and `argstr`, from `syscall.c`, over the
user memory of the calling process.  Each returns what the C function returns through
its pointer, or `none` for -1, and the addresses it reads.
-/

/-- What the functions see of the process and of the memory that is mapped for it. -/
structure Caller where
  sz : BitVec 32
  esp : BitVec 32
  byte : BitVec 32 → BitVec 8

namespace Caller

variable (p : Caller)

/-- `*(int *) addr` -/
def word (addr : BitVec 32) : BitVec 32 := p.byte (addr + 3) ++ p.byte (addr + 2) ++ p.byte (addr + 1) ++ p.byte addr

def fetchint (addr : BitVec 32) : Option (BitVec 32) × List (BitVec 32) :=
  if p.sz ≤ addr ∨ p.sz < addr + 4 then (none, [])
  else (some (p.word addr), [addr, addr + 1, addr + 2, addr + 3])

/-- The loop of `fetchstr` from `s` on: the address of the NUL. -/
def fetchstrLoop (s : BitVec 32) : Option (BitVec 32) × List (BitVec 32) :=
  if s < p.sz then
    if p.byte s = 0 then (some s, [s])
    else
      let (found, reads) := fetchstrLoop (s + 1)
      (found, s :: reads)
  else (none, [])
termination_by p.sz.toNat - s.toNat
decreasing_by bv_omega

/-- The value of `*pp` and the length that is returned. -/
def fetchstr (addr : BitVec 32) : Option (BitVec 32 × BitVec 32) × List (BitVec 32) :=
  if p.sz ≤ addr then (none, [])
  else
    let (found, reads) := p.fetchstrLoop addr
    (found.map fun s => (addr, s - addr), reads)

def argint (n : BitVec 32) : Option (BitVec 32) × List (BitVec 32) := p.fetchint (p.esp + 4 + 4 * n)

def argptr (n size : BitVec 32) : Option (BitVec 32) × List (BitVec 32) :=
  match p.argint n with
  | (none, reads) => (none, reads)
  | (some i, reads) => (if size.slt 0 ∨ p.sz ≤ i ∨ p.sz < i + size then none else some i, reads)

def argstr (n : BitVec 32) : Option (BitVec 32 × BitVec 32) × List (BitVec 32) :=
  match p.argint n with
  | (none, reads) => (none, reads)
  | (some addr, reads) =>
    let (string, more) := p.fetchstr addr
    (string, reads ++ more)

def argAddr (n : BitVec 32) : Int := (p.esp.toNat + 4 + 4 * n.toInt) % 2 ^ 32

/-- The byte at `addr + len` is the first NUL from `addr` on, and belongs to the process. -/
def IsString (addr len : BitVec 32) : Prop :=
  addr.toNat + len.toNat < p.sz.toNat ∧ p.byte (addr + len) = 0 ∧ ∀ k, addr ≤ k → k < addr + len → p.byte k ≠ 0

variable {p}

theorem argAddr_eq (n : BitVec 32) : p.argAddr n = (p.esp + 4 + 4 * n).toNat := by
  have value : n.toInt = n.toNat ∨ n.toInt = n.toNat - 2 ^ 32 := by
    rw [BitVec.toInt_eq_toNat_cond]
    split
    · exact .inl rfl
    · exact .inr rfl
  rw [argAddr, BitVec.toNat_add, BitVec.toNat_add, BitVec.toNat_mul, show (4 : BitVec 32).toNat = 4 from rfl]
  omega

theorem fetchstrLoop_spec (s addr : BitVec 32) : (p.fetchstrLoop s).1 = some addr ↔
    s ≤ addr ∧ addr < p.sz ∧ p.byte addr = 0 ∧ ∀ k, s ≤ k → k < addr → p.byte k ≠ 0 := by
  fun_induction fetchstrLoop p s with
  | case1 s inside isNul | case3 s outside => grind
  | case2 s inside notNul found reads isRest ih =>
    rw [isRest] at ih
    have next (k : BitVec 32) : s ≤ k ↔ k = s ∨ s + 1 ≤ k := by
      rw [← BitVec.toNat_inj]
      bv_omega
    grind

theorem fetchstrLoop_reads (s : BitVec 32) : ∀ addr ∈ (p.fetchstrLoop s).2, addr < p.sz := by
  fun_induction fetchstrLoop p s with grind

theorem fetchstr_reads (addr : BitVec 32) : ∀ a ∈ (p.fetchstr addr).2, a < p.sz := by
  have reads := fetchstrLoop_reads (p := p) addr
  grind [fetchstr]

theorem fetchstr_spec (addr a len : BitVec 32) : (p.fetchstr addr).1 = some (a, len) ↔ a = addr ∧ p.IsString addr len := by
  have inside : addr.toNat + len.toNat < p.sz.toNat ↔ addr ≤ addr + len ∧ addr + len < p.sz := by bv_omega
  have found : (p.fetchstr addr).1 = some (a, len) ↔ a = addr ∧ (p.fetchstrLoop addr).1 = some (addr + len) := by
    rw [fetchstr]
    split
    · next outside =>
      have none : (p.fetchstrLoop addr).1 = none := by
        rw [fetchstrLoop, if_neg (BitVec.not_lt.mpr outside)]
      simp [none]
    · simp only [Option.map_eq_some_iff, Prod.mk.injEq, BitVec.sub_eq_iff_eq_add, BitVec.add_comm len]
      grind
  rw [found, fetchstrLoop_spec, IsString, inside, and_assoc]

section

variable (small : p.sz.toNat < Memory.KERNBASE)
include small

theorem fetchint_spec (addr value : BitVec 32) : (p.fetchint addr).1 = some value ↔
    addr.toNat + 4 ≤ p.sz.toNat ∧ value = p.word addr := by
  simp only [Memory.KERNBASE] at small
  have fits : (p.sz ≤ addr ∨ p.sz < addr + 4) ↔ ¬ addr.toNat + 4 ≤ p.sz.toNat := by bv_omega
  grind [fetchint]

theorem fetchint_reads (addr : BitVec 32) : ∀ a ∈ (p.fetchint addr).2, a < p.sz := by
  simp only [Memory.KERNBASE] at small
  rw [fetchint]
  split
  · simp
  · next fits =>
    simp only [List.forall_mem_cons, List.not_mem_nil, false_implies, implies_true, and_true]
    bv_omega

end

/-- Arguments are taken from the memory of the process only, and a pointer that is
accepted stays inside it. -/
theorem arguments_confined (p : Caller) (small : p.sz.toNat < Memory.KERNBASE) (n : BitVec 32) :
    ((p.argint n).1.isSome ↔ p.argAddr n + 3 < p.sz.toNat) ∧
    (∀ size i, (p.argptr n size).1 = some i ↔ (p.argint n).1 = some i ∧
      0 ≤ size.toInt ∧ i.toNat < p.sz.toNat ∧ i.toNat + size.toInt ≤ p.sz.toNat) ∧
    (∀ addr len, (p.argstr n).1 = some (addr, len) ↔ (p.argint n).1 = some addr ∧ p.IsString addr len) ∧
    (∀ addr len, (p.argstr n).1 = some (addr, len) → 0 ≤ len.toInt) ∧
    (∀ a ∈ (p.argint n).2, a < p.sz) ∧ (∀ size, ∀ a ∈ (p.argptr n size).2, a < p.sz) ∧
    ∀ a ∈ (p.argstr n).2, a < p.sz := by
  have reads : ∀ a ∈ (p.argint n).2, a < p.sz := fetchint_reads small _
  have strings (addr len : BitVec 32) :
      (p.argstr n).1 = some (addr, len) ↔ (p.argint n).1 = some addr ∧ p.IsString addr len := by
    have string (start : BitVec 32) := fetchstr_spec (p := p) start addr len
    grind [argstr]
  refine ⟨?_, ?_, strings, ?_, reads, ?_, ?_⟩
  · have fetched := fetchint_spec small (p.esp + 4 + 4 * n)
    rw [argAddr_eq, Option.isSome_iff_exists]
    simp only [argint, fetched, exists_and_left, exists_eq, and_true]
    omega
  · intro size i
    simp only [Memory.KERNBASE] at small
    have refused : size.slt 0 ∨ p.sz ≤ i ∨ p.sz < i + size ↔
        ¬ (0 ≤ size.toInt ∧ i.toNat < p.sz.toNat ∧ i.toNat + size.toInt ≤ p.sz.toNat) := by
      have value := BitVec.toInt_eq_toNat_cond size
      rw [BitVec.slt, show BitVec.toInt (0 : BitVec 32) = 0 from rfl, decide_eq_true_iff, 
        BitVec.le_def, BitVec.lt_def, BitVec.toNat_add]
      split at value <;> omega
    grind [argptr]
  · intro addr len found
    have inside := ((strings addr len).mp found).2.1
    simp only [Memory.KERNBASE] at small
    rw [BitVec.toInt_eq_toNat_of_lt (by omega)]
    omega
  · grind [argptr]
  · have more (start : BitVec 32) := fetchstr_reads (p := p) start
    grind [argstr]

theorem arguments_confined_small :
    let p : Caller := ⟨0x1000, 0x0ff0, fun _ => 0⟩
    p.sz.toNat < Memory.KERNBASE ∧ ((p.argint 1).1.isSome ↔ p.argAddr 1 + 3 < p.sz.toNat) :=
  ⟨by decide, (arguments_confined ⟨0x1000, 0x0ff0, fun _ => 0⟩ (by decide) 1).1⟩

end Caller

end Xv6.Process
