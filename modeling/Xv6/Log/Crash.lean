import Xv6.Data.AtomicStore
import Xv6.Log.Operations

namespace Xv6.Log

open Xv6.Data Xv6.Disk
open Function (update update_self update_of_ne)

/-! # Crash atomicity

The log simulates a store with atomic transactions: `log_write` changes what is
pending, the header write of `commit` is the commit point, and a crash forgets what is
pending.
-/

variable {g : Geometry} {s t u : State} {a : Action} {b : BlockNo} {data : Block} {lh : List BlockNo}
  {i tail : Nat}

def Home (g : Geometry) (b : BlockNo) : Prop :=
  b ≠ g.start ∧ ∀ i : Nat, (i : Int) < g.size - 1 → b ≠ g.logBlock i

structure Listed (g : Geometry) (lh : List BlockNo) : Prop where
  size : lh.length ≤ LOGSIZE
  area : lh ≠ [] → (lh.length : Int) ≤ g.size - 1
  home : ∀ b ∈ lh, Home g b

theorem start_ne_logBlock (small : i < LOGSIZE) : g.start ≠ g.logBlock i := by
  have limit : LOGSIZE = 30 := rfl
  unfold Geometry.logBlock
  bv_omega

theorem logBlock_injective {j : Nat} (small : i < LOGSIZE) (small' : j < LOGSIZE)
    (same : g.logBlock i = g.logBlock j) : i = j := by
  have limit : LOGSIZE = 30 := rfl
  unfold Geometry.logBlock at same
  bv_omega

namespace Listed

theorem lt_length (found : lh[i]? = some b) : i < lh.length := (List.getElem?_eq_some_iff.mp found).1

theorem mem (found : lh[i]? = some b) : b ∈ lh := List.mem_of_getElem? found

theorem small (listed : Listed g lh) (found : lh[i]? = some b) : i < LOGSIZE :=
  (lt_length found).trans_le listed.size

theorem inside (listed : Listed g lh) (found : lh[i]? = some b) : (i : Int) < g.size - 1 := by
  have short := lt_length found
  have area := listed.area (List.ne_nil_of_mem (mem found))
  omega

end Listed

structure HeaderIs (block : Block) (lh : List BlockNo) : Prop where
  count : block.word 0 = BitVec.ofNat 32 lh.length
  blocks : ∀ i b, lh[i]? = some b → block.word (headerSlot i) = b

theorem headerSlot_ne_zero (small : i < LOGSIZE) : headerSlot i ≠ 0 := by
  intro zero
  have value : (i + 1) % 128 = 0 := congrArg Fin.val zero
  have limit : LOGSIZE = 30 := rfl
  omega

theorem headerSlot_injective {j : Nat} (small : i < LOGSIZE) (small' : j < LOGSIZE)
    (same : headerSlot i = headerSlot j) : i = j := by
  have value : (i + 1) % 128 = (j + 1) % 128 := congrArg Fin.val same
  have limit : LOGSIZE = 30 := rfl
  omega

variable {block : Block} {actions : List Action}

theorem word_setBlocks_of_ne {slot : Fin NINDIRECT}
    (other : ∀ j, i ≤ j → j < i + lh.length → slot ≠ headerSlot j) :
    (setBlocks block i lh).word slot = block.word slot := by
  induction lh generalizing block i with
  | nil => rfl
  | cons b rest ih =>
    have after : ∀ j, i + 1 ≤ j → j < i + 1 + rest.length → slot ≠ headerSlot j := by
      intro j lower upper
      exact other j (by omega) (by simp only [List.length_cons]; omega)
    have here : slot ≠ headerSlot i := other i le_rfl (by simp)
    simp only [setBlocks]
    rw [ih after, Block.word_setWord_of_ne _ _ here]

theorem word_setBlocks (block : Block) (small : i + lh.length ≤ LOGSIZE) {j : Nat}
    (found : lh[j]? = some b) : (setBlocks block i lh).word (headerSlot (i + j)) = b := by
  induction lh generalizing block i j with
  | nil => simp at found
  | cons first rest ih =>
    simp only [List.length_cons] at small
    cases j with
    | zero =>
      simp only [List.getElem?_cons_zero, Option.some.injEq] at found
      have later : ∀ k, i + 1 ≤ k → k < i + 1 + rest.length → headerSlot i ≠ headerSlot k := by
        intro k lower upper same
        have := headerSlot_injective (by omega) (by omega) same
        omega
      simp only [setBlocks, Nat.add_zero]
      rw [word_setBlocks_of_ne later, Block.word_setWord_self, found]
    | succ j =>
      have next := ih (block.setWord (headerSlot i) first) (i := i + 1) (by omega) (by simpa using found)
      simpa only [setBlocks, Nat.add_assoc, Nat.add_comm 1 j] using next

theorem headerIs_headerBlock (block : Block) (size : lh.length ≤ LOGSIZE) :
    HeaderIs (headerBlock block lh) lh := by
  constructor
  · have others : ∀ j, 0 ≤ j → j < 0 + lh.length → (0 : Fin NINDIRECT) ≠ headerSlot j := by
      intro j _ upper
      exact (headerSlot_ne_zero (by omega)).symm
    rw [headerBlock, word_setBlocks_of_ne others, Block.word_setWord_self]
  · intro i b found
    have written := word_setBlocks (block.setWord 0 (BitVec.ofNat 32 lh.length)) (i := 0) (by omega) found
    simpa only [headerBlock, Nat.zero_add] using written

theorem HeaderIs.readHead (header : HeaderIs block lh) (size : lh.length ≤ LOGSIZE) :
    readHead block = some lh := by
  have count : (block.word 0).toInt = lh.length := by
    have limit : LOGSIZE = 30 := rfl
    have value : (BitVec.ofNat 32 lh.length).toNat = lh.length := by
      rw [BitVec.toNat_ofNat, Nat.mod_eq_of_lt (by omega)]
    rw [header.count, BitVec.toInt_eq_toNat_of_lt (by omega), value]
  have small : (block.word 0).toInt ≤ LOGSIZE := by omega
  rw [Log.readHead, if_pos small, count, Int.toNat_natCast]
  congr 1
  apply List.ext_getElem
  · simp
  · intro i _ inside
    simp only [List.getElem_map, List.getElem_range]
    exact header.blocks i _ (List.getElem?_eq_getElem inside)

abbrev Store := AtomicStore BlockNo Block

variable {store : Store}

def event (s : State) : Action → AtomicStore.Event BlockNo Block
  | .logWrite _ b data => .write b data
  | .crash => .crash
  | .advance =>
    match s.control with
    | .writeHead _ => .commit
    | _ => .silent
  | _ => .silent

/-- A disk from which recovery restores `durable`: the header names the blocks of
`lh`, whose contents are in the log, and all other home blocks are in place. -/
structure Recoverable (g : Geometry) (disk : BlockNo → Block) (lh : List BlockNo)
    (durable : BlockNo → Block) : Prop where
  header : HeaderIs (disk g.start) lh
  logged : ∀ i b, lh[i]? = some b → disk (g.logBlock i) = durable b
  unlogged : ∀ b, Home g b → b ∉ lh → disk b = durable b

/-- Before the commit point.  The first `copied` blocks are in the log. -/
structure Open (g : Geometry) (s : State) (store : Store) (copied : Nat) : Prop where
  recoverable : Recoverable g s.disk [] store.durable
  pinned : ∀ b data, Pinned s b data ↔ b ∈ s.lh ∧ data = store.pending b
  unchanged : ∀ b, b ∉ s.lh → store.pending b = store.durable b
  copied : ∀ i b, i < copied → s.lh[i]? = some b → s.disk (g.logBlock i) = store.pending b

/-- After the commit point.  The first `installed` blocks are in place. -/
structure Committed (g : Geometry) (s : State) (store : Store) (installed : Nat) : Prop where
  recoverable : Recoverable g s.disk s.lh store.durable
  pinned : ∀ b data, Pinned s b data → ∃ i, installed ≤ i ∧ s.lh[i]? = some b
  settled : store.pending = store.durable
  installed : ∀ i b, i < installed → s.lh[i]? = some b → s.disk b = store.durable b

def Stage (g : Geometry) (s : State) (store : Store) : Prop :=
  match s.control with
  | .idle | .finish _ => Open g s store 0
  | .writeLog _ tail => Open g s store tail
  | .writeHead _ => Open g s store s.lh.length
  | .install _ tail => Committed g s store tail
  | .clear _ => Committed g s store s.lh.length
  | .down =>
    ∃ lh, Listed g lh ∧ Recoverable g s.disk lh store.durable ∧ store.pending = store.durable ∧
      s.cache = fun _ => none

structure Simulates (g : Geometry) (s : State) (store : Store) : Prop where
  operations : Operations s
  coherent : Coherent s
  listed : Listed g s.lh
  stage : Stage g s store

theorem Open.same {copied : Nat} (same : SameBlocks s t) (stage : Open g s store copied) :
    Open g t store copied where
  recoverable := by rw [same.disk]; exact stage.recoverable
  pinned b data := by rw [same.pinned, same.lh]; exact stage.pinned b data
  unchanged := by rw [same.lh]; exact stage.unchanged
  copied := by rw [same.lh, same.disk]; exact stage.copied

theorem Committed.same {installed : Nat} (same : SameBlocks s t) (stage : Committed g s store installed) :
    Committed g t store installed where
  recoverable := by rw [same.disk, same.lh]; exact stage.recoverable
  pinned b data := by rw [same.pinned, same.lh]; exact stage.pinned b data
  settled := stage.settled
  installed := by rw [same.lh, same.disk]; exact stage.installed

theorem Open.copy {copied : Nat} (listed : Listed g s.lh) (found : s.lh[copied]? = some b)
    (stage : Open g s store copied) (written : Written s (g.logBlock copied) (store.pending b) t) :
    Open g t store (copied + 1) := by
  have small := listed.small found
  refine { recoverable := { header := ?_, logged := ?_, unlogged := ?_ }, pinned := ?_, unchanged := ?_, copied := ?_ }
  · rw [written.disk, update_of_ne (start_ne_logBlock small)]
    exact stage.recoverable.header
  · simp
  · intro c home absent
    rw [written.disk, update_of_ne (home.2 copied (listed.inside found))]
    exact stage.recoverable.unlogged c home absent
  · intro c data
    rw [written.pinned, stage.pinned, written.lh, and_iff_right_iff_imp]
    rintro ⟨member, _⟩
    exact (listed.home c member).2 copied (listed.inside found)
  · rw [written.lh]
    exact stage.unchanged
  · intro i c before other
    rw [written.lh] at other
    rw [written.disk]
    by_cases same : i = copied
    · subst same
      obtain rfl := Option.some.inj (found.symm.trans other)
      exact update_self ..
    · have different : g.logBlock i ≠ g.logBlock copied :=
        fun equal => same (logBlock_injective (listed.small other) small equal)
      rw [update_of_ne different]
      exact stage.copied i c (by omega) other

/-- The commit point. -/
theorem Open.head (listed : Listed g s.lh) (stage : Open g s store s.lh.length)
    (written : Written s g.start (headerBlock block s.lh) t) :
    Committed g t { store with durable := store.pending } 0 := by
  refine { recoverable := { header := ?_, logged := ?_, unlogged := ?_ }, pinned := ?_, settled := rfl, installed := ?_ }
  · rw [written.disk, written.lh, update_self]
    exact headerIs_headerBlock block listed.size
  · intro i b found
    rw [written.lh] at found
    rw [written.disk, update_of_ne (start_ne_logBlock (listed.small found)).symm]
    exact stage.copied i b (Listed.lt_length found) found
  · intro b home absent
    rw [written.lh] at absent
    rw [written.disk, update_of_ne home.1]
    exact (stage.recoverable.unlogged b home (by simp)).trans (stage.unchanged b absent).symm
  · intro b data pinned
    have member := ((stage.pinned b data).mp ((written.pinned b data).mp pinned).2).1
    obtain ⟨i, found⟩ := List.mem_iff_getElem?.mp member
    exact ⟨i, Nat.zero_le i, by rw [written.lh]; exact found⟩
  · intro i b before
    omega

theorem Committed.install {installed : Nat} (listed : Listed g s.lh) (found : s.lh[installed]? = some b)
    (stage : Committed g s store installed) (written : Written s b (s.disk (g.logBlock installed)) t) :
    Committed g t store (installed + 1) := by
  have home := listed.home b (Listed.mem found)
  refine
    { recoverable := { header := ?_, logged := ?_, unlogged := ?_ }, pinned := ?_
      settled := stage.settled, installed := ?_ }
  · rw [written.disk, written.lh, update_of_ne home.1.symm]
    exact stage.recoverable.header
  · intro i c other
    rw [written.lh] at other
    rw [written.disk, update_of_ne (home.2 i (listed.inside other)).symm]
    exact stage.recoverable.logged i c other
  · intro c homeC absent
    rw [written.lh] at absent
    have different : c ≠ b := fun same => absent (same ▸ Listed.mem found)
    rw [written.disk, update_of_ne different]
    exact stage.recoverable.unlogged c homeC absent
  · intro c data pinned
    obtain ⟨different, old⟩ := (written.pinned c data).mp pinned
    obtain ⟨i, later, other⟩ := stage.pinned c data old
    refine ⟨i, ?_, by rw [written.lh]; exact other⟩
    have notHere : i ≠ installed := by
      rintro rfl
      exact different (Option.some.inj (other.symm.trans found))
    omega
  · intro i c before other
    rw [written.lh] at other
    rw [written.disk]
    by_cases same : c = b
    · subst same
      rw [update_self]
      exact stage.recoverable.logged installed c found
    · rw [update_of_ne same]
      have earlier : i ≠ installed := by
        rintro rfl
        exact same (Option.some.inj (other.symm.trans found))
      exact stage.installed i c (by omega) other

theorem Committed.clear (stage : Committed g s store s.lh.length)
    (written : Written { s with lh := [] } g.start (headerBlock block []) t) : Open g t store 0 := by
  refine { recoverable := { header := ?_, logged := ?_, unlogged := ?_ }, pinned := ?_, unchanged := ?_, copied := ?_ }
  · rw [written.disk, update_self]
    exact headerIs_headerBlock block (Nat.zero_le _)
  · simp
  · intro b home _
    rw [written.disk, update_of_ne home.1]
    by_cases member : b ∈ s.lh
    · obtain ⟨i, found⟩ := List.mem_iff_getElem?.mp member
      exact stage.installed i b (Listed.lt_length found) found
    · exact stage.recoverable.unlogged b home member
  · intro b data
    rw [written.lh]
    refine iff_of_false ?_ (by simp)
    intro pinned
    obtain ⟨i, later, found⟩ := stage.pinned b data ((written.pinned b data).mp pinned).2
    have := Listed.lt_length found
    omega
  · intro b _
    rw [stage.settled]
  · intro i b before
    omega

theorem Open.logWrite (stage : Open g s store 0) : Open g
      { s with
        lh := if b ∈ s.lh then s.lh else s.lh ++ [b]
        cache := update s.cache b (some ⟨data, true⟩) }
      { store with pending := update store.pending b data } 0 := by
  have member (c : BlockNo) : c ∈ (if b ∈ s.lh then s.lh else s.lh ++ [b]) ↔ c ∈ s.lh ∨ c = b := by
    split
    · rename_i old
      constructor
      · exact .inl
      · rintro (here | rfl)
        · exact here
        · exact old
    · simp
  refine { recoverable := stage.recoverable, pinned := ?_, unchanged := ?_, copied := ?_ }
  · intro c kept
    rw [member]
    by_cases here : c = b
    · subst here
      simp [Pinned, eq_comm]
    · simp only [Pinned, update_of_ne here, here, or_false]
      exact stage.pinned c kept
  · intro c absent
    rw [member, not_or] at absent
    exact (update_of_ne absent.2 ..).trans (stage.unchanged c absent.1)
  · intro i c before
    omega

theorem Listed.logWrite (listed : Listed g lh) (room : lh.length < LOGSIZE) (area : lh.length < g.size - 1)
    (home : Home g b) : Listed g (if b ∈ lh then lh else lh ++ [b]) := by
  split
  · exact listed
  · refine ⟨?_, fun _ => ?_, ?_⟩
    · simp only [List.length_append, List.length_singleton]
      omega
    · simp only [List.length_append, List.length_singleton]
      push_cast
      omega
    · intro c member
      rcases List.mem_append.mp member with old | new
      · exact listed.home c old
      · rw [List.mem_singleton.mp new]
        exact home

theorem listed_nil : Listed g [] := ⟨Nat.zero_le _, by simp, by simp⟩

/-- Whatever the log was doing, a crash leaves a disk from which the durable
contents can be recovered. -/
theorem Simulates.crash (good : Simulates g s store) (alive : s.control ≠ .down) :
    ∃ lh, Listed g lh ∧ Recoverable g s.disk lh store.durable := by
  have stage := good.stage
  unfold Stage at stage
  split at stage
  case h_7 dead => exact absurd dead alive
  case h_5 | h_6 => exact ⟨s.lh, good.listed, stage.recoverable⟩
  all_goals exact ⟨[], listed_nil, stage.recoverable⟩

theorem Stage.same (same : SameBlocks s t) (control : t.control = s.control) (alive : s.control ≠ .down)
    (stage : Stage g s store) : Stage g t store := by
  unfold Stage at stage ⊢
  rw [control]
  cases place : s.control with
  | idle | finish p | writeLog p tail | install p tail => simp only [place] at stage; exact stage.same same
  | writeHead p | clear p => simp only [place] at stage; rw [same.lh]; exact stage.same same
  | down => exact absurd place alive

theorem Stage.opens (place : s.control = .idle ∨ (∃ p, s.control = .finish p) ∨ ∃ p, s.control = .writeLog p 0)
    (opened : Open g s store 0) : Stage g s store := by
  rcases place with at_ | ⟨p, at_⟩ | ⟨p, at_⟩
  all_goals
    simp only [Stage, at_]
    exact opened

theorem Simulates.same (good : Simulates g s store) (taken : step g s a = some t) (same : SameBlocks s t)
    (control : t.control = s.control) (alive : s.control ≠ .down) : Simulates g t store where
  operations := good.operations.step taken
  coherent := same.coherent good.coherent
  listed := by rw [same.lh]; exact good.listed
  stage := good.stage.same same control alive

theorem event_advance_silent (elsewhere : ∀ p, s.control ≠ .writeHead p) : event s .advance = .silent := by
  change (match s.control with | .writeHead _ => _ | _ => _) = _
  split
  · next p at_ => exact absurd at_ (elsewhere p)
  · rfl

theorem Simulates.advance (good : Simulates g s store) (taken : step g s .advance = some t) :
    Simulates g t (store.apply (event s .advance)) := by
  have operations := good.operations.step taken
  have listed := good.listed
  have stage := good.stage
  cases step_effect taken with
  | advances moves =>
    cases moves with
    | @copy p tail b at_ found =>
      simp only [Stage, at_] at stage
      have pinned := (stage.pinned b (store.pending b)).mpr ⟨Listed.mem found, rfl⟩
      have target : Refetched s (bread s (g.logBlock tail)).2 := bread_refetched
      have written := (writeLogRound_written g s tail b).control (.writeLog p (tail + 1))
      rw [bread_pinned ((target.pinned b _).mpr pinned)] at written
      rw [event_advance_silent (by simp [at_])]
      exact ⟨operations, written.coherent good.coherent, written.lh.symm ▸ listed,
        stage.copy listed found written⟩
    | @copied p tail at_ done =>
      simp only [Stage, at_] at stage
      rw [event_advance_silent (by simp [at_])]
      exact ⟨operations, good.coherent, listed, stage.recoverable, stage.pinned, stage.unchanged,
        fun i b before => stage.copied i b (before.trans_le done)⟩
    | @head p at_ =>
      simp only [Stage, at_] at stage
      have fetched : Refetched s (bread s g.start).2 := bread_refetched
      have written := (writeHead_written g s).control (.install (some p) 0)
      rw [fetched.lh] at written
      have committed := stage.head listed written
      have point : event s .advance = .commit := by simp [event, at_]
      rw [point]
      exact ⟨operations, written.coherent good.coherent, written.lh.symm ▸ listed, committed⟩
    | @install p tail b at_ found =>
      simp only [Stage, at_] at stage
      have unpinned : ∀ data, ¬ Pinned s (g.logBlock tail) data := by
        intro data pinned
        obtain ⟨i, _, other⟩ := stage.pinned _ data pinned
        exact (listed.home _ (Listed.mem other)).2 tail (listed.inside found) rfl
      have written := (installRound_written g s tail b).control (.install p (tail + 1))
      rw [bread_coherent good.coherent unpinned] at written
      rw [event_advance_silent (by simp [at_])]
      exact ⟨operations, written.coherent good.coherent, written.lh.symm ▸ listed,
        stage.install listed found written⟩
    | @installed p tail at_ done =>
      simp only [Stage, at_] at stage
      rw [event_advance_silent (by simp [at_])]
      refine ⟨operations, good.coherent, listed, stage.recoverable, ?_, stage.settled,
        fun i b before => stage.installed i b (before.trans_le done)⟩
      intro b data pinned
      obtain ⟨i, later, found⟩ := stage.pinned b data pinned
      exact ⟨i, done.trans later, found⟩
    | @clear p at_ =>
      simp only [Stage, at_] at stage
      have fetched : Refetched { s with lh := [] } (bread { s with lh := [] } g.start).2 := bread_refetched
      have written := (writeHead_written g { s with lh := [] }).control (.cleared p)
      rw [fetched.lh] at written
      have opened := stage.clear written
      rw [event_advance_silent (by simp [at_])]
      refine ⟨operations, written.coherent good.coherent, written.lh.symm ▸ listed_nil, ?_⟩
      cases p with
      | some p | none => exact opened
    | @finish p at_ =>
      simp only [Stage, at_] at stage
      rw [event_advance_silent (by simp [at_])]
      exact ⟨operations, good.coherent, listed, stage.recoverable, stage.pinned, stage.unchanged,
        stage.copied⟩

def WritesHome (g : Geometry) (_ : State) : Action → Prop
  | .logWrite _ b _ => Home g b
  | _ => True

theorem Simulates.step (good : Simulates g s store) (home : WritesHome g s a) (taken : step g s a = some t) :
    Simulates g t (store.apply (event s a)) := by
  have alive {p : Nat} (inside : s.ops p = .inside) : s.control ≠ .down := by
    rw [good.operations.idle inside]
    simp
  cases step_effect taken with
  | waits up entering full | begins up entering quiet room =>
    refine good.same taken ⟨rfl, rfl, id, fun _ _ => .rfl⟩ rfl ?_
    rintro down
    simp [down, Control.up] at up
  | commits inside quiet last =>
    have stage := good.stage
    simp only [Stage, good.operations.idle inside] at stage
    refine ⟨good.operations.step taken, good.coherent, good.listed, ?_⟩
    apply Stage.opens
    · by_cases filled : 0 < s.lh.length
      · exact .inr (.inr ⟨_, if_pos filled⟩)
      · exact .inr (.inl ⟨_, if_neg filled⟩)
    · exact stage.same (s := s) ⟨rfl, rfl, id, fun _ _ => .rfl⟩
  | ends inside quiet others =>
    exact good.same taken ⟨rfl, rfl, id, fun _ _ => .rfl⟩ rfl (alive inside)
  | @logs p b data inside room area open_ =>
    have stage := good.stage
    have idle := good.operations.idle inside
    simp only [Stage, idle] at stage
    refine ⟨good.operations.step taken, ?_, good.listed.logWrite room area home, ?_⟩
    · intro c kept cached
      by_cases here : c = b
      · subst here
        simp at cached
      · exact good.coherent c kept (by simpa [here] using cached)
    · exact Stage.opens (.inl idle) stage.logWrite
  | reads notDown => exact good.same taken bread_refetched.toSameBlocks bread_refetched.control notDown
  | evicts clean =>
    refine good.same taken (evict_refetched clean).toSameBlocks rfl fun down => ?_
    have stage := good.stage
    simp only [Stage, down] at stage
    obtain ⟨_, _, _, _, empty⟩ := stage
    simp [empty] at clean
  | advances moves => exact good.advance taken
  | crashes notDown =>
    obtain ⟨lh, listed, recoverable⟩ := good.crash notDown
    exact ⟨good.operations.step taken, by simp [Coherent, Log.crash], listed_nil, lh, listed, recoverable, rfl, rfl⟩
  | boots dead head =>
    have stage := good.stage
    simp only [Stage, dead] at stage
    obtain ⟨lh, listed, recoverable, settled, empty⟩ := stage
    have fetched : Refetched s (bread s g.start).2 := bread_refetched
    have unpinned (b : BlockNo) (data : Block) : ¬ Pinned s b data := by simp [Pinned, empty]
    rw [bread_coherent good.coherent (unpinned _), recoverable.header.readHead listed.size] at head
    obtain rfl := Option.some.inj head
    refine ⟨good.operations.step taken, fetched.coherent good.coherent, listed, ?_, ?_, settled, ?_⟩
    · exact fetched.disk.symm ▸ recoverable
    · intro b data pinned
      exact absurd ((fetched.pinned b data).mp pinned) (unpinned b data)
    · intro i b before
      omega

structure Clean (g : Geometry) (s : State) : Prop where
  header : (s.disk g.start).word 0 = 0
  coherent : Coherent s
  unpinned : ∀ b data, ¬ Pinned s b data
  lh : s.lh = []
  outstanding : s.outstanding = 0
  ops : ∀ p, s.ops p = .outside
  control : s.control = .idle

theorem Clean.simulates (clean : Clean g s) : Simulates g s ⟨s.disk, s.disk⟩ where
  operations :=
    { counted := ⟨∅, by simp [clean.ops], by simp [clean.outstanding]⟩
      busy := fun working => absurd clean.control working
      flag := fun _ _ => clean.control }
  coherent := clean.coherent
  listed := clean.lh ▸ listed_nil
  stage := by
    apply Stage.opens (.inl clean.control)
    refine { recoverable := { header := ⟨clean.header, by simp⟩, logged := by simp, unlogged := ?_ },
             pinned := ?_, unchanged := fun _ _ => rfl, copied := ?_ }
    · intro b _ _
      rfl
    · intro b data
      simp [clean.unpinned b data, clean.lh]
    · intro i b before
      omega

theorem run_simulates (good : Simulates g s store)
    (home : Along (step g) (WritesHome g) s actions) (ran : exec (step g) s actions = some t) :
    Simulates g t (store.run (emitted (step g) event s actions)) :=
  exec_simulates (Simulates g) good home (fun _ _ _ _ good home taken => good.step home taken) ran

def recovery (g : Geometry) (s : State) : List Action :=
  .boot :: List.replicate (((s.disk g.start).word 0).toNat + 2) .advance

theorem install_completes {count : Nat} (at_ : s.control = .install none tail)
    (remaining : s.lh.length = tail + count) :
    ∃ t, exec (step g) s (List.replicate (count + 2) .advance) = some t ∧ t.control = .idle := by
  induction count generalizing s tail with
  | zero =>
    have done : s.lh[tail]? = none := by simp [remaining]
    refine ⟨{ writeHead g { s with control := .clear none, lh := [] } with control := .idle }, ?_, rfl⟩
    simp [exec, step, act, advance, at_, done, Control.cleared]
  | succ count ih =>
    obtain ⟨b, found⟩ : ∃ b, s.lh[tail]? = some b := ⟨_, List.getElem?_eq_getElem (by omega)⟩
    have written := installRound_written g s tail b
    have first : step g s .advance =
        some { installRound g s tail b with control := .install none (tail + 1) } := by
      simp [step, act, advance, at_, found]
    obtain ⟨t, ran, idle⟩ := ih (s := { installRound g s tail b with control := .install none (tail + 1) })
      rfl (by simp only [written.lh]; omega)
    refine ⟨t, ?_, idle⟩
    rw [List.replicate_succ, exec, first]
    exact ran

theorem recovery_completes (good : Simulates g s store) (down : s.control = .down) :
    ∃ t, exec (step g) s (recovery g s) = some t ∧ t.control = .idle := by
  have stage := good.stage
  simp only [Stage, down] at stage
  obtain ⟨lh, listed, recoverable, _, empty⟩ := stage
  have fetched : (bread s g.start).1 = s.disk g.start := by simp [bread, empty]
  have booted : step g s .boot = some { (bread s g.start).2 with lh, control := .install none 0 } := by
    simp [step, act, down, fetched, recoverable.header.readHead listed.size]
  have count : ((s.disk g.start).word 0).toNat = lh.length := by
    have limit : LOGSIZE = 30 := rfl
    have size := listed.size
    rw [recoverable.header.count, BitVec.toNat_ofNat, Nat.mod_eq_of_lt (by omega)]
  obtain ⟨t, ran, idle⟩ := install_completes (g := g)
    (s := { (bread s g.start).2 with lh, control := .install none 0 }) rfl (Nat.zero_add _).symm
  refine ⟨t, ?_, idle⟩
  rw [recovery, exec, booted, count]
  exact ran

/-- A step of system calls whose transaction is still open. -/
def Action.InTransaction : Action → Prop
  | .beginOp _ | .endOp _ | .logWrite _ _ _ | .read _ | .evict _ => True
  | _ => False

def Action.writes : Action → List (BlockNo × Block)
  | .logWrite _ b data => [(b, data)]
  | _ => []

theorem event_writes (s : State) (a : Action) : (event s a).writes = a.writes := by
  cases a with
  | advance =>
    simp only [event]
    split <;> rfl
  | _ => rfl

theorem event_inside (s : State) (inside : a.InTransaction) : (event s a).Inside := by
  cases a with
  | advance | crash | boot => exact inside.elim
  | _ => trivial

theorem along_writesHome (noWrite : ∀ a ∈ actions, a.writes = []) :
    Along (step g) (WritesHome g) s actions := by
  induction actions generalizing s with
  | nil => trivial
  | cons a rest ih =>
    obtain ⟨first, others⟩ := List.forall_mem_cons.mp noWrite
    refine ⟨?_, fun _ _ => ih others⟩
    cases a with
    | logWrite p b data => simp [Action.writes] at first
    | _ => trivial

theorem emitted_no_writes (noWrite : ∀ a ∈ actions, a.writes = []) :
    ∀ e ∈ emitted (step g) event s actions, e.writes = [] := by
  apply emitted_all
  intro a member before
  rw [event_writes]
  exact noWrite a member

theorem run_transaction (store : Store) {m : State} (transaction : ∀ a ∈ actions, a.InTransaction)
    (ran : exec (step g) s actions = some m) :
    (store.run (emitted (step g) event s actions)).durable = store.durable ∧
      (store.run (emitted (step g) event s actions)).pending =
        replay (actions.flatMap Action.writes) store.pending := by
  have inside : ∀ e ∈ emitted (step g) event s actions, e.Inside := by
    apply emitted_all
    intro a member before
    exact event_inside before (transaction a member)
  rw [← emitted_flatMap event_writes ran]
  exact AtomicStore.run_inside store inside

theorem recovery_no_writes : ∀ a ∈ recovery g s, a.writes = [] := by
  intro a member
  rcases List.mem_cons.mp member with rfl | later
  · rfl
  · rw [List.eq_of_mem_replicate later]
    rfl

/-- Wherever the machine stops in a commit and in any number of recoveries, a
complete recovery clears the header and leaves either all home blocks as they were or
all of them as they were written. -/
theorem crash_atomic {m : State} {first second : List Action} (clean : Clean g s)
    (transaction : ∀ a ∈ first, a.InTransaction) (home : Along (step g) (WritesHome g) s first)
    (ran : exec (step g) s first = some m) (afterwards : ∀ a ∈ second, a.writes = [])
    (stopped : exec (step g) m second = some t) (down : t.control = .down) :
    ∃ u, exec (step g) t (recovery g t) = some u ∧ (u.disk g.start).word 0 = 0 ∧
      ((∀ b, Home g b → u.disk b = s.disk b) ∨
        ∀ b, Home g b → u.disk b = replay (first.flatMap Action.writes) s.disk b) := by
  have started := run_simulates clean.simulates home ran
  have crashed := run_simulates started (along_writesHome afterwards) stopped
  obtain ⟨u, recovered, idle⟩ := recovery_completes crashed down
  have final := run_simulates crashed (along_writesHome recovery_no_writes) recovered
  have stage := final.stage
  simp only [Stage, idle] at stage
  have restored (b : BlockNo) (isHome : Home g b) := stage.recoverable.unlogged b isHome (by simp)
  obtain ⟨durable, pending⟩ := run_transaction ⟨s.disk, s.disk⟩ transaction ran
  refine ⟨u, recovered, stage.recoverable.header.count, ?_⟩
  rw [← AtomicStore.run_append] at restored
  rcases AtomicStore.run_old_or_new (List.forall_mem_append.mpr
    ⟨emitted_no_writes afterwards, emitted_no_writes recovery_no_writes⟩) with old | new
  · left
    intro b isHome
    rw [restored b isHome, old, durable]
  · right
    intro b isHome
    rw [restored b isHome, new, pending]

def blank : State :=
  { disk := fun _ => .zero, cache := fun _ => none, lh := [], outstanding := 0, committing := false,
    ops := fun _ => .outside, control := .idle }

def twoBlocks : List Action :=
  [.beginOp 0, .logWrite 0 50 (fun _ => 1), .logWrite 0 51 (fun _ => 2), .logWrite 0 50 (fun _ => 3)]

def stopTwice : List Action :=
  [.endOp 0, .advance, .advance, .advance, .advance, .advance, .crash, .boot, .advance, .crash]

theorem crash_atomic_two_blocks : ∃ m t u, exec (step imageLog) blank twoBlocks = some m ∧
    exec (step imageLog) m stopTwice = some t ∧ exec (step imageLog) t (recovery imageLog t) = some u ∧
    (u.disk 2).word 0 = 0 ∧
    ((∀ b, Home imageLog b → u.disk b = .zero) ∨
      ∀ b, Home imageLog b → u.disk b = replay (twoBlocks.flatMap Action.writes) blank.disk b) := by
  have clean : Clean imageLog blank :=
    ⟨by decide, by simp [Coherent, blank], by simp [Pinned, blank], rfl, rfl, fun _ => rfl, rfl⟩
  have far (b : BlockNo) (above : 32 ≤ b.toNat) : Home imageLog b := by
    refine ⟨?_, fun i small => ?_⟩ <;> simp only [imageLog, Geometry.logBlock] at *
    · bv_omega
    · bv_omega
  have home : Along (step imageLog) (WritesHome imageLog) blank twoBlocks :=
    ⟨trivial, fun _ _ => ⟨far _ (by decide), fun _ _ => ⟨far _ (by decide), fun _ _ =>
      ⟨far _ (by decide), fun _ _ => trivial⟩⟩⟩⟩
  have reached : ((exec (step imageLog) blank twoBlocks).map fun m =>
      (exec (step imageLog) m stopTwice).map State.control) = some (some .down) := by decide +kernel
  obtain ⟨m, ran, seen⟩ := Option.map_eq_some_iff.mp reached
  obtain ⟨t, stopped, down⟩ := Option.map_eq_some_iff.mp seen
  have transaction : ∀ a ∈ twoBlocks, a.InTransaction := by simp [twoBlocks, Action.InTransaction]
  have afterwards : ∀ a ∈ stopTwice, a.writes = [] := by simp [stopTwice, Action.writes]
  obtain ⟨u, recovered, cleared, atomic⟩ := crash_atomic clean transaction home ran afterwards stopped down
  exact ⟨m, t, u, ran, stopped, recovered, cleared, atomic⟩

end Xv6.Log
