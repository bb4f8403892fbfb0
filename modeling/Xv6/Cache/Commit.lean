import Xv6.Cache.Coherence
import Xv6.Log.Crash

namespace Xv6.Cache

open Xv6.Data Xv6.Disk
open Function (update update_self update_of_ne update_eq_self)
open Xv6.Log (Home Listed)

/-! # Commits and the other processes

What a commit has achieved at each point of its loops. -/

variable {n : Nat} {g : Geometry} {s t : State n} {a : Action n} {contents others : Key → Block}
  {p q : Fin n} {i j : Slot} {b : BlockNo} {data : Block} {event : Event} {which : Loop} {tail : Nat}
  {erase : Bool} {job : Job}

def Holds (s : State n) (p : Fin n) (i : Slot) (b : BlockNo) : Prop :=
  (s.buf i).owner = some p ∧ (s.buf i).blockno = b

def Copied (g : Geometry) (s : State n) (contents : Key → Block) (tail : Nat) : Prop :=
  ∀ k b, k < tail → s.lh[k]? = some b →
    contents (ROOTDEV, g.log.logBlock k) = contents (ROOTDEV, b)

def Clean (s : State n) (tail : Nat) : Prop :=
  ∀ k b, k < tail → s.lh[k]? = some b → ∀ i, (s.buf i).blockno = b → (s.buf i).dirty = false

def Progress (g : Geometry) (s : State n) (contents : Key → Block) : Loop → Nat → Prop
  | .writeLog, tail => Copied g s contents tail
  | .installTrans, tail => Copied g s contents s.lh.length ∧ Clean s tail

def Header (g : Geometry) (s : State n) (contents : Key → Block) : Bool → Prop
  | false => Copied g s contents s.lh.length
  | true => s.lh = []

def Stage (g : Geometry) (s : State n) (contents : Key → Block) (p : Fin n) : Job → Prop
  | .user => True
  | .loop which tail => Progress g s contents which tail
  | .first which tail =>
    Progress g s contents which tail ∧ ∃ i, s.call p = .locking i (ROOTDEV, g.log.logBlock tail)
  | .gotFirst which tail i => Progress g s contents which tail ∧ Holds s p i (g.log.logBlock tail)
  | .second which tail i =>
    Progress g s contents which tail ∧ Holds s p i (g.log.logBlock tail) ∧
      ∃ b j, s.lh[tail]? = some b ∧ s.call p = .locking j (ROOTDEV, b)
  | .gotSecond which tail i j =>
    Progress g s contents which tail ∧ Holds s p i (g.log.logBlock tail) ∧
      ∃ b, s.lh[tail]? = some b ∧ Holds s p j b
  | .copied which tail _ _ | .half which tail _ => Progress g s contents which (tail + 1)
  | .head erase | .wroteHead erase _ => Header g s contents erase
  | .getHead erase => Header g s contents erase ∧ ∃ i, s.call p = .locking i (ROOTDEV, g.log.start)
  | .gotHead erase i => Header g s contents erase ∧ Holds s p i g.log.start
  | .finish => s.lh = []

structure Committing (g : Geometry) (s : State n) (contents : Key → Block) : Prop where
  quiet : s.committing = true → s.outstanding ≤ 0
  working : ∀ p, s.job p ≠ .user → s.committing = true
  single : ∀ p q, s.job p ≠ .user → s.job q ≠ .user → p = q
  listed : Listed g.log s.lh
  pinned : ∀ i, (s.buf i).dirty = true → (s.buf i).blockno ∈ s.lh
  stage : ∀ p, Stage g s contents p (s.job p)

def Guarded (g : Geometry) (lh : List BlockNo) (b : BlockNo) : Prop :=
  b ∈ lh ∨ ∃ k c, lh[k]? = some c ∧ b = g.log.logBlock k

/-- A step leaves the transaction, makes no buffer dirty and keeps the guarded
blocks. -/
structure Still (g : Geometry) (s t : State n) (contents others : Key → Block) : Prop where
  lh : t.lh = s.lh
  dirty : ∀ i, (t.buf i).dirty = true →
    (s.buf i).dirty = true ∧ (t.buf i).blockno = (s.buf i).blockno
  agree : ∀ b, Guarded g s.lh b → others (ROOTDEV, b) = contents (ROOTDEV, b)

theorem Copied.agree (copied : Copied g s contents tail) (lh : t.lh = s.lh)
    (agree : ∀ b, Guarded g s.lh b → others (ROOTDEV, b) = contents (ROOTDEV, b)) :
    Copied g t others tail := by
  intro k b below found
  rw [lh] at found
  rw [agree _ (.inr ⟨k, b, found, rfl⟩), agree b (.inl (Listed.mem found))]
  exact copied k b below found

namespace Still

section

variable (still : Still g s t contents others)
include still

theorem clean (clean : Clean s tail) : Clean t tail := by
  intro k b below found i stands
  rw [still.lh] at found
  by_contra dirty
  obtain ⟨before, same⟩ := still.dirty i (by simpa using dirty)
  have notDirty := clean k b below found i (same.symm.trans stands)
  simp [before] at notDirty

theorem progress (progress : Progress g s contents which tail) : Progress g t others which tail := by
  cases which with
  | writeLog => exact Copied.agree progress still.lh still.agree
  | installTrans =>
    have copied := progress.1.agree still.lh still.agree
    rw [← still.lh] at copied
    exact ⟨copied, still.clean progress.2⟩

theorem header (header : Header g s contents erase) : Header g t others erase := by
  cases erase with
  | false =>
    have copied := Copied.agree header still.lh still.agree
    rw [← still.lh] at copied
    exact copied
  | true => exact still.lh.trans header

theorem stage (holds : ∀ i b, Holds s q i b → Holds t q i b)
    (calls : ∀ i key, s.call q = .locking i key → t.call q = .locking i key)
    (stage : Stage g s contents q job) : Stage g t others q job := by
  cases job with
  | user => trivial
  | loop which tail | copied which tail i j | half which tail k => exact still.progress stage
  | first which tail =>
    obtain ⟨progress, i, asked⟩ := stage
    exact ⟨still.progress progress, i, calls i _ asked⟩
  | gotFirst which tail i => exact ⟨still.progress stage.1, holds _ _ stage.2⟩
  | second which tail i =>
    obtain ⟨progress, held, b, j, found, asked⟩ := stage
    rw [← still.lh] at found
    exact ⟨still.progress progress, holds _ _ held, b, j, found, calls j _ asked⟩
  | gotSecond which tail i j =>
    obtain ⟨progress, held, b, found, heldToo⟩ := stage
    rw [← still.lh] at found
    exact ⟨still.progress progress, holds _ _ held, b, found, holds _ _ heldToo⟩
  | head erase | wroteHead erase i => exact still.header stage
  | getHead erase =>
    obtain ⟨header, i, asked⟩ := stage
    exact ⟨still.header header, i, calls i _ asked⟩
  | gotHead erase i => exact ⟨still.header stage.1, holds _ _ stage.2⟩
  | finish => exact still.lh.trans stage

end

end Still

theorem Holds.update {new : Buf n} (held : Holds s q i b) (buf : t.buf = Function.update s.buf j new)
    (self : i = j → (s.buf j).owner = some q → new.owner = some q ∧ new.blockno = (s.buf j).blockno) :
    Holds t q i b := by
  obtain ⟨owned, stands⟩ := held
  unfold Holds
  rw [buf]
  by_cases same : i = j
  · subst i
    rw [update_self]
    obtain ⟨owner, blockno⟩ := self rfl owned
    exact ⟨owner, blockno.trans stands⟩
  · rw [update_of_ne same]
    exact ⟨owned, stands⟩

theorem Change.holds (coherent : Coherent s contents) (changed : Change s t event)
    (kept : ∀ j, t.call q = .leaving j → s.call q = .leaving j) (held : Holds s q i b) :
    Holds t q i b := by
  cases changed with
  | same buf disk call order | check ready owned buf disk call order =>
    rw [Holds, buf]
    exact held
  | hit ready buf disk call order | write owned onDisk buf disk call order
  | pin asked buf disk call order | unref asked buf disk call order =>
    exact held.update buf fun _ owner => ⟨owner, rfl⟩
  | recycle ready absent unused clean buf disk call order =>
    apply held.update buf
    intro _ owner
    rw [(coherent.unused unused).1] at owner
    cases owner
  | lock asked unowned fetched buf disk call order =>
    apply held.update buf
    intro _ owner
    rw [unowned] at owner
    cases owner
  | @release p k ready owned buf disk call order =>
    apply held.update buf
    intro _ owner
    obtain rfl : q = p := Option.some.inj (owner.symm.trans owned)
    have leaving := kept k (by rw [call, update_self])
    rw [ready] at leaving
    cases leaving

theorem dirty_update {new : Buf n} (buf : t.buf = update s.buf j new)
    (self : new.dirty = true → (s.buf j).dirty = true ∧ new.blockno = (s.buf j).blockno)
    (dirty : (t.buf i).dirty = true) :
    (s.buf i).dirty = true ∧ (t.buf i).blockno = (s.buf i).blockno := by
  rw [buf] at dirty ⊢
  by_cases same : i = j
  · subst i
    rw [update_self] at dirty ⊢
    exact self dirty
  · rw [update_of_ne same] at dirty ⊢
    exact ⟨dirty, rfl⟩

theorem Change.dirty (changed : Change s t event) (unpinned : ∀ key data, event ≠ .pin key data)
    (dirty : (t.buf i).dirty = true) :
    (s.buf i).dirty = true ∧ (t.buf i).blockno = (s.buf i).blockno := by
  cases changed with
  | same buf disk call order | check ready owned buf disk call order =>
    rw [buf] at dirty ⊢
    exact ⟨dirty, rfl⟩
  | hit ready buf disk call order | lock asked unowned fetched buf disk call order
  | release ready owned buf disk call order | unref asked buf disk call order =>
    exact dirty_update buf (fun before => ⟨before, rfl⟩) dirty
  | recycle ready absent unused clean buf disk call order | write owned onDisk buf disk call order =>
    exact dirty_update buf (fun before => absurd before (by simp)) dirty
  | pin asked buf disk call order => exact absurd rfl (unpinned _ _)

namespace Committing

theorem of_users (isUser : ∀ q, t.job q = .user) (isIdle : t.committing = false) (listed : Listed g.log t.lh)
    (pinned : ∀ i, (t.buf i).dirty = true → (t.buf i).blockno ∈ t.lh) : Committing g t others := by
  constructor
  · intro busy
    rw [isIdle] at busy
    cases busy
  · exact fun q busy => absurd (isUser q) busy
  · exact fun q _ busy _ => absurd (isUser q) busy
  · exact listed
  · exact pinned
  · intro q
    rw [isUser q]
    trivial

/-- Only one process commits. -/
theorem of_alone (jobs : t.job = update s.job p job) (alone : ∀ q, q ≠ p → s.job q = .user)
    (isCommitting : t.committing = true) (quiet : t.outstanding ≤ 0) (listed : Listed g.log t.lh)
    (pinned : ∀ i, (t.buf i).dirty = true → (t.buf i).blockno ∈ t.lh)
    (stage : Stage g t others p job) : Committing g t others := by
  have isUser : ∀ q, q ≠ p → t.job q = .user := by
    intro q different
    rw [jobs, update_of_ne different]
    exact alone q different
  have isP : ∀ q, t.job q ≠ .user → q = p := fun q busy => by_contra fun different => busy (isUser q different)
  constructor
  · exact fun _ => quiet
  · exact fun _ _ => isCommitting
  · intro q r first second
    rw [isP q first, isP r second]
  · exact listed
  · exact pinned
  · intro q
    by_cases same : q = p
    · rw [same, jobs, update_self]
      exact stage
    · rw [isUser q same]
      trivial

section

variable (good : Committing g s contents)
include good

theorem idle (isIdle : s.committing = false) : s.job p = .user := by
  by_contra busy
  have := good.working p busy
  simp [isIdle] at this

theorem at_rest (isIdle : s.committing = false) (jobs : t.job = s.job)
    (committing : t.committing = s.committing) (listed : Listed g.log t.lh)
    (pinned : ∀ i, (t.buf i).dirty = true → (t.buf i).blockno ∈ t.lh) : Committing g t others := by
  apply of_users _ (committing.trans isIdle) listed pinned
  intro q
  rw [jobs]
  exact good.idle isIdle

theorem pinned_kept (lh : t.lh = s.lh) (kept : ∀ i, (t.buf i).dirty = true →
      (s.buf i).dirty = true ∧ (t.buf i).blockno = (s.buf i).blockno)
    (i : Slot) (dirty : (t.buf i).dirty = true) : (t.buf i).blockno ∈ t.lh := by
  obtain ⟨before, same⟩ := kept i dirty
  rw [same, lh]
  exact good.pinned i before

/-- A step that is no part of the commit and changes nothing of the log. -/
theorem apart (coherent : Coherent s contents)
    (changed : Change s t event) (still : Still g s t contents others) (jobs : t.job = s.job)
    (committing : t.committing = s.committing) (outstanding : t.outstanding = s.outstanding)
    (calls : ∀ q, s.job q ≠ .user →
      (∀ i key, s.call q = .locking i key → t.call q = .locking i key) ∧
        ∀ i, t.call q = .leaving i → s.call q = .leaving i) :
    Committing g t others := by
  constructor
  · rw [committing, outstanding]
    exact good.quiet
  · rw [jobs, committing]
    exact good.working
  · rw [jobs]
    exact good.single
  · rw [still.lh]
    exact good.listed
  · exact good.pinned_kept still.lh still.dirty
  · intro q
    rw [jobs]
    by_cases isUser : s.job q = .user
    · rw [isUser]
      trivial
    · obtain ⟨locking, leaving⟩ := calls q isUser
      exact still.stage (fun i b held => changed.holds coherent leaving held) locking (good.stage q)

theorem advance (working : s.job p ≠ .user)
    (jobs : t.job = update s.job p job) (committing : t.committing = s.committing)
    (outstanding : t.outstanding = s.outstanding) (listed : Listed g.log t.lh)
    (pinned : ∀ i, (t.buf i).dirty = true → (t.buf i).blockno ∈ t.lh)
    (stage : Stage g t others p job) : Committing g t others := by
  have isCommitting : s.committing = true := good.working p working
  refine of_alone jobs ?_ (committing.trans isCommitting) (outstanding ▸ good.quiet isCommitting) listed pinned stage
  intro q different
  by_contra isWorking
  exact different (good.single q p isWorking working)

end

end Committing

theorem Holds.key (held : Holds s p i b) (coherent : Coherent s contents) :
    (s.buf i).key = (ROOTDEV, b) := by
  have isValid := coherent.owned i (by simp [held.1])
  rw [Buf.key, (coherent.valid i isValid).1, held.2]

theorem Holds.reads (held : Holds s p i b) (coherent : Coherent s contents) :
    (s.buf i).data = contents (ROOTDEV, b) := by
  have isValid := coherent.owned i (by simp [held.1])
  rw [(coherent.valid i isValid).2, held.key coherent]

theorem Change.still_quiet (changed : Change s t .quiet) (lh : t.lh = s.lh) :
    Still g s t contents contents :=
  ⟨lh, fun _ dirty => changed.dirty (fun _ _ => Event.noConfusion) dirty, fun _ _ => rfl⟩

theorem Change.still_write {data : Block} (changed : Change s t (.write (ROOTDEV, b) data))
    (lh : t.lh = s.lh) (unguarded : ¬ Guarded g s.lh b) :
    Still g s t contents (store contents (ROOTDEV, b) data) := by
  refine ⟨lh, fun _ dirty => changed.dirty (fun _ _ => Event.noConfusion) dirty, fun c guarded => ?_⟩
  apply store_of_ne
  intro same
  have equal : c = b := congrArg Prod.snd same
  exact unguarded (equal ▸ guarded)

theorem start_unguarded (listed : Listed g.log s.lh) : ¬ Guarded g s.lh g.log.start := by
  rintro (member | ⟨k, c, found, same⟩)
  · exact (listed.home _ member).1 rfl
  · exact Log.start_ne_logBlock (listed.small found) same

theorem home_unguarded (listed : Listed g.log s.lh) (home : Home g.log b) (absent : b ∉ s.lh) :
    ¬ Guarded g s.lh b := by
  rintro (member | ⟨k, c, found, same⟩)
  · exact absent member
  · exact home.2 k (listed.inside found) same

theorem Copied.round (copied : Copied g s contents tail) (listed : Listed g.log s.lh)
    (found : s.lh[tail]? = some b) (lh : t.lh = s.lh) :
    Copied g t (store contents (ROOTDEV, g.log.logBlock tail) (contents (ROOTDEV, b))) (tail + 1) := by
  have listedNe : ∀ c ∈ s.lh, ((ROOTDEV, c) : Key) ≠ (ROOTDEV, g.log.logBlock tail) := by
    intro c member same
    exact (listed.home c member).2 tail (listed.inside found) (congrArg Prod.snd same)
  intro k c below other
  rw [lh] at other
  rw [store_of_ne (listedNe c (Listed.mem other))]
  by_cases same : k = tail
  · subst k
    obtain rfl := Option.some.inj (found.symm.trans other)
    exact store_self
  · have logNe : ((ROOTDEV, g.log.logBlock k) : Key) ≠ (ROOTDEV, g.log.logBlock tail) := by
      intro equal
      exact same (Log.logBlock_injective (listed.small other) (listed.small found) (congrArg Prod.snd equal))
    rw [store_of_ne logNe]
    exact copied k c (by omega) other

/-- A round of `install_trans` writes what the map holds. -/
theorem Copied.install (copied : Copied g s contents s.lh.length) (found : s.lh[tail]? = some b) :
    store contents (ROOTDEV, b) (contents (ROOTDEV, g.log.logBlock tail)) = contents := by
  rw [copied tail b (Listed.lt_length found) found]
  exact update_eq_self ..

theorem Clean.round (clean : Clean s tail) (coherent : Coherent s contents)
    (found : s.lh[tail]? = some b) (held : Holds s p j b) (lh : t.lh = s.lh)
    (buf : t.buf = update s.buf j { s.buf j with data, dirty := false, valid := true }) :
    Clean t (tail + 1) := by
  intro k c below other i stands
  rw [lh] at other
  rw [buf] at stands ⊢
  by_cases same : i = j
  · rw [same, update_self]
  · rw [update_of_ne same] at stands ⊢
    by_cases last : k = tail
    · subst k
      obtain rfl := Option.some.inj (found.symm.trans other)
      by_contra dirty
      have isValid := coherent.dirty i (by simpa using dirty)
      have onDisk := (coherent.valid i isValid).1
      have equal : (s.buf i).key = (s.buf j).key := by
        rw [held.key coherent, Buf.key, onDisk, stands]
      exact coherent.other_key onDisk (Ne.symm same) equal.symm
    · exact clean k c (by omega) other i stands

theorem Clean.all (clean : Clean s tail) (good : Committing g s contents) (ended : s.lh[tail]? = none) :
    (s.buf i).dirty = false := by
  by_contra dirty
  obtain ⟨k, below, found⟩ := List.getElem_of_mem (good.pinned i (by simpa using dirty))
  have short := List.getElem?_eq_none_iff.mp ended
  have notDirty := clean k _ (by omega) (List.getElem?_eq_getElem below) i found.symm
  exact dirty notDirty

theorem Copied.all (copied : Copied g s contents tail) (ended : s.lh[tail]? = none) :
    Copied g s contents s.lh.length := by
  have short := List.getElem?_eq_none_iff.mp ended
  intro k b below found
  exact copied k b (by omega) found

section

variable (good : Committing g s contents)
include good

theorem Committing.moves {u : State n} (working : s.job p ≠ .user)
    (jobs : u.job = s.job) (lh : u.lh = s.lh) (committing : u.committing = s.committing)
    (outstanding : u.outstanding = s.outstanding) (dirty : ∀ i, (u.buf i).dirty = true →
      (s.buf i).dirty = true ∧ (u.buf i).blockno = (s.buf i).blockno)
    (stage : Stage g (u.setJob p job) others p job) : Committing g (u.setJob p job) others := by
  have listed : Listed g.log u.lh := lh ▸ good.listed
  have moved : (u.setJob p job).job = update s.job p job := by rw [State.setJob, jobs]
  exact good.advance working moved committing outstanding listed (good.pinned_kept lh dirty) stage

theorem Committing.asks {u : State n} {block : BlockNo}
    (coherent : Coherent s contents) (working : s.job p ≠ .user) (ready : s.call p = .ready)
    (began : breadBegin s p ROOTDEV block = .next u)
    (stage : ∀ t : State n, Still g s t contents contents →
      (∀ i b, Holds s p i b → Holds t p i b) → (∃ i, t.call p = .locking i (ROOTDEV, block)) →
      Stage g t contents p job) :
    Committing g (u.setJob p job) contents := by
  have changed : Change s (u.setJob p job) .quiet := .bread ready began rfl rfl rfl rfl
  obtain ⟨i, equal, _⟩ := breadBegin_next began
  have asked : (u.setJob p job).call p = .locking i (ROOTDEV, block) := by
    rw [equal]
    exact update_self ..
  have lh : u.lh = s.lh := by rw [equal]
  have still : Still g s (u.setJob p job) contents contents := changed.still_quiet lh
  have holds : ∀ i b, Holds s p i b → Holds (u.setJob p job) p i b := by
    intro k b held
    apply changed.holds coherent _ held
    intro j leaving
    rw [asked] at leaving
    cases leaving
  exact good.moves working (by rw [equal]) lh (by rw [equal]) (by rw [equal]) still.dirty
    (stage _ still holds ⟨i, asked⟩)

section

variable (working : s.job p ≠ .user)
include working

theorem Committing.releases {u : State n}
    (ready : s.call p = .ready) (released : brelseBegin s p i = .next u)
    (stage : ∀ t : State n, Still g s t contents contents → Stage g t contents p job) :
    Committing g (u.setJob p job) contents := by
  obtain ⟨owned, equal⟩ := brelseBegin_next released
  have changed : Change s (u.setJob p job) .quiet := by
    rw [equal]
    exact .release ready owned rfl rfl rfl rfl
  have lh : u.lh = s.lh := by rw [equal]
  have still : Still g s (u.setJob p job) contents contents := changed.still_quiet lh
  exact good.moves working (by rw [equal]) lh (by rw [equal]) (by rw [equal]) still.dirty (stage _ still)

theorem Committing.writes {u : State n}
    (wrote : bwrite g s p i data = .next u)
    (stage : ∀ t : State n, Change s t (.write (s.buf i).key data) → t.lh = s.lh →
      t.buf = update s.buf i { s.buf i with data, dirty := false, valid := true } →
      Stage g t others p job) :
    Committing g (u.setJob p job) others := by
  obtain ⟨owned, onDisk, equal⟩ := bwrite_next wrote
  have changed : Change s (u.setJob p job) (.write (s.buf i).key data) := by
    rw [equal]
    exact .write owned onDisk rfl rfl rfl rfl
  have lh : u.lh = s.lh := by rw [equal]
  exact good.moves working (by rw [equal]) lh (by rw [equal]) (by rw [equal])
    (fun i => changed.dirty fun _ _ => Event.noConfusion) (stage _ changed lh (by rw [equal]; rfl))

theorem Committing.loopDone
    (progress : Progress g s contents which tail) (ended : s.lh[tail]? = none) :
    Committing g (loopDone s p which) contents := by
  cases which with
  | writeLog => exact good.advance working rfl rfl rfl good.listed good.pinned (Copied.all progress ended)
  | installTrans =>
    have clean : ∀ i, (s.buf i).dirty = false := fun i => progress.2.all good ended
    have pinned : ∀ i, (s.buf i).dirty = true → (s.buf i).blockno ∈ ([] : List BlockNo) := by
      intro i dirty
      simp [clean i] at dirty
    exact good.advance working rfl rfl rfl Log.listed_nil pinned rfl

theorem Committing.finished :
    Committing g ({ s with committing := false }.setJob p .user) contents := by
  refine .of_users ?_ rfl good.listed good.pinned
  intro q
  by_cases same : q = p
  · subst q
    exact update_self ..
  · simp only [State.setJob, update_of_ne same]
    by_contra busy
    exact same (good.single q p busy working)

end

theorem Committing.commit (coherent : Coherent s contents)
    (ready : s.call p = .ready) (ran : commit g s p = .next t) :
    Committing g t (put contents (written s (.commit p))) := by
  have stage := good.stage p
  unfold Cache.commit at ran
  simp only [written]
  generalize job : s.job p = current at stage ran ⊢
  cases current with
  | user | first which tail | second which tail i | getHead erase => cases ran
  | loop which tail =>
    cases found : s.lh[tail]? with
    | some b =>
      simp only [found] at ran
      obtain ⟨u, began, rfl⟩ := Result.andThen_next ran
      exact good.asks coherent (by simp [job]) ready began
        fun t still _ asked => ⟨still.progress stage, asked⟩
    | none =>
      simp only [found] at ran
      cases ran
      exact good.loopDone (by simp [job]) stage found
  | gotFirst which tail i =>
    cases found : s.lh[tail]? with
    | some b =>
      simp only [found] at ran
      obtain ⟨u, began, rfl⟩ := Result.andThen_next ran
      apply good.asks coherent (by simp [job]) ready began
      intro t still holds asked
      obtain ⟨j, locking⟩ := asked
      exact ⟨still.progress stage.1, holds _ _ stage.2, b, j, by rw [still.lh, found], locking⟩
    | none =>
      simp only [found] at ran
      cases ran
  | gotSecond which tail i j =>
    obtain ⟨u, wrote, rfl⟩ := Result.andThen_next ran
    obtain ⟨progress, held, b, found, heldToo⟩ := stage
    apply good.writes (by simp [job]) wrote
    intro t changed lh buf
    cases which with
    | writeLog =>
      simp only [roundTarget, put, held.key coherent, heldToo.reads coherent]
      exact Copied.round progress good.listed found lh
    | installTrans =>
      simp only [roundTarget, put, heldToo.key coherent, held.reads coherent]
      rw [progress.1.install found]
      refine ⟨?_, progress.2.round coherent found heldToo lh buf⟩
      rw [lh]
      exact progress.1.agree lh fun _ _ => rfl
  | copied which tail i j | half which tail k =>
    obtain ⟨u, released, rfl⟩ := Result.andThen_next ran
    exact good.releases (by simp [job]) ready released fun t still => still.progress stage
  | head erase =>
    obtain ⟨u, began, rfl⟩ := Result.andThen_next ran
    exact good.asks coherent (by simp [job]) ready began
      fun t still _ asked => ⟨still.header stage, asked⟩
  | gotHead erase i =>
    obtain ⟨u, wrote, rfl⟩ := Result.andThen_next ran
    apply good.writes (by simp [job]) wrote
    intro t changed lh buf
    simp only [stage.2.key coherent] at changed ⊢
    exact (changed.still_write lh (start_unguarded good.listed)).header stage.1
  | wroteHead erase i =>
    obtain ⟨u, released, rfl⟩ := Result.andThen_next ran
    have header : Header g s contents erase := stage
    apply good.releases (by simp [job]) ready released
    intro t still
    cases erase with
    | true => exact still.header header
    | false =>
      have clean : Clean t 0 := fun k b below => absurd below (Nat.not_lt_zero k)
      exact ⟨still.header header, clean⟩
  | finish =>
    cases ran
    exact good.finished (by simp [job])

end

theorem calls_of_user {call : Call} (isUser : s.job p = .user)
    (calls : t.call = update s.call p call) (q : Fin n) (busy : s.job q ≠ .user) :
    (∀ i key, s.call q = .locking i key → t.call q = .locking i key) ∧
      ∀ i, t.call q = .leaving i → s.call q = .leaving i := by
  have different : q ≠ p := by
    intro same
    rw [same] at busy
    exact busy isUser
  rw [calls, update_of_ne different]
  exact ⟨fun _ _ asked => asked, fun _ leaving => leaving⟩

theorem Committing.bread {dev : Dev} {blockno : BlockNo} (good : Committing g s contents)
    (coherent : Coherent s contents) (free : s.free p) (began : breadBegin s p dev blockno = .next t) :
    Committing g t contents := by
  have changed : Change s t .quiet := .bread free.1 began rfl rfl rfl rfl
  obtain ⟨i, equal, _⟩ := breadBegin_next began
  have lh : t.lh = s.lh := by rw [equal]
  apply good.apart coherent changed (changed.still_quiet lh)
  · rw [equal]
  · rw [equal]
  · rw [equal]
  · exact calls_of_user free.2 (by rw [equal])

theorem Still.returned {key : Key} (still : Still g s t contents others)
    (holds : ∀ k b, Holds s p k b → Holds t p k b) (asked : s.call p = .locking i key)
    (acquired : ∀ b, key = (ROOTDEV, b) → Holds t p i b) (stage : Stage g s contents p job) :
    Stage g t others p (job.returned i) := by
  cases job with
  | user => trivial
  | loop which tail | copied which tail k j | half which tail k => exact still.progress stage
  | first which tail =>
    obtain ⟨progress, k, asking⟩ := stage
    cases asked.symm.trans asking
    exact ⟨still.progress progress, acquired _ rfl⟩
  | gotFirst which tail k => exact ⟨still.progress stage.1, holds _ _ stage.2⟩
  | second which tail k =>
    obtain ⟨progress, held, b, j, found, asking⟩ := stage
    cases asked.symm.trans asking
    rw [← still.lh] at found
    exact ⟨still.progress progress, holds _ _ held, b, found, acquired _ rfl⟩
  | gotSecond which tail k j =>
    obtain ⟨progress, held, b, found, heldToo⟩ := stage
    rw [← still.lh] at found
    exact ⟨still.progress progress, holds _ _ held, b, found, holds _ _ heldToo⟩
  | head erase | wroteHead erase k => exact still.header stage
  | getHead erase =>
    obtain ⟨header, k, asking⟩ := stage
    cases asked.symm.trans asking
    exact ⟨still.header header, acquired _ rfl⟩
  | gotHead erase k => exact ⟨still.header stage.1, holds _ _ stage.2⟩
  | finish => exact still.lh.trans stage

section

variable (good : Committing g s contents)
include good

theorem Committing.lock (coherent : Coherent s contents)
    (ended : breadEnd g s p = .next t) : Committing g t contents := by
  obtain ⟨i, key, asked, unowned, fetched, equal⟩ := breadEnd_next coherent.dirty ended
  have changed : Change s t .quiet := by
    rw [equal]
    exact .lock asked unowned fetched rfl rfl rfl rfl
  have lh : t.lh = s.lh := by rw [equal]
  have still : Still g s t contents contents := changed.still_quiet lh
  have calls : t.call = update s.call p .ready := by rw [equal]
  have jobs : t.job = update s.job p ((s.job p).returned i) := by rw [equal]
  by_cases isUser : s.job p = .user
  · have stays : (s.job p).returned i = s.job p := by
      rw [isUser]
      rfl
    have unchanged : t.job = s.job := by rw [jobs, stays, update_eq_self]
    exact good.apart coherent changed still unchanged (by rw [equal]) (by rw [equal])
      (calls_of_user isUser calls)
  · have holds : ∀ k b, Holds s p k b → Holds t p k b := by
      intro k b held
      apply changed.holds coherent _ held
      intro j leaving
      rw [calls, update_self] at leaving
      cases leaving
    have acquired : ∀ b, key = (ROOTDEV, b) → Holds t p i b := by
      intro b isKey
      have stands := congrArg Prod.snd ((coherent.asked p i key asked).trans isKey)
      rw [equal]
      unfold Holds
      simp only [update_self]
      exact ⟨trivial, stands⟩
    exact good.advance isUser jobs (by rw [equal]) (by rw [equal]) (lh ▸ good.listed)
      (good.pinned_kept lh still.dirty) (still.returned holds asked acquired (good.stage p))

theorem Committing.bwrite (coherent : Coherent s contents) (free : s.free p)
    (outside : s.committing = true → Home g.log (s.buf i).blockno ∧ (s.buf i).blockno ∉ s.lh)
    (wrote : bwrite g s p i data = .next t) : Committing g t (store contents (s.buf i).key data) := by
  obtain ⟨owned, onDisk, equal⟩ := bwrite_next wrote
  have changed : Change s t (.write (s.buf i).key data) := by
    rw [equal]
    exact .write owned onDisk rfl rfl rfl rfl
  have key : (s.buf i).key = (ROOTDEV, (s.buf i).blockno) := by rw [Buf.key, onDisk]
  have lh : t.lh = s.lh := by rw [equal]
  have jobs : t.job = s.job := by rw [equal]
  have committing : t.committing = s.committing := by rw [equal]
  have outstanding : t.outstanding = s.outstanding := by rw [equal]
  cases isCommitting : s.committing with
  | true =>
    obtain ⟨home, absent⟩ := outside isCommitting
    rw [key] at changed ⊢
    have still : Still g s t contents _ :=
      changed.still_write lh (home_unguarded good.listed home absent)
    have calls : t.call = update s.call p (s.call p) := by rw [equal, update_eq_self]
    exact good.apart coherent changed still jobs committing outstanding (calls_of_user free.2 calls)
  | false =>
    have dirty := fun i => changed.dirty (i := i) fun _ _ => Event.noConfusion
    exact good.at_rest isCommitting jobs committing (lh ▸ good.listed) (good.pinned_kept lh dirty)

theorem Committing.append (asked : s.call p = .logging i data)
    (home : Home g.log (s.buf i).blockno) (open_ : 1 ≤ s.outstanding)
    (room : s.lh.length < Log.LOGSIZE) (area : s.lh.length < g.log.size - 1)
    (ended : logWriteEnd s p = .next t) : Committing g t others := by
  simp only [logWriteEnd, asked] at ended
  cases ended
  have isIdle : s.committing = false := by
    by_contra busy
    have closed := good.quiet (by simpa using busy)
    omega
  have listed := good.listed.logWrite room area home
  have pinned : ∀ j,
      (update s.buf i { s.buf i with data, dirty := true } j).dirty = true →
      (update s.buf i { s.buf i with data, dirty := true } j).blockno ∈
        if (s.buf i).blockno ∈ s.lh then s.lh else s.lh ++ [(s.buf i).blockno] := by
    intro j dirty
    by_cases same : j = i
    · rw [same, update_self]
      split
      · assumption
      · exact List.mem_append_right _ (List.mem_singleton_self _)
    · rw [update_of_ne same] at dirty ⊢
      have member := good.pinned j dirty
      split
      · exact member
      · exact List.mem_append_left _ member
  exact good.at_rest isIdle rfl rfl listed pinned

theorem Committing.logWrite (coherent : Coherent s contents)
    (free : s.free p) (owned : (s.buf i).owner = some p)
    (checked : logWriteBegin g s p i data = .next t) : Committing g t contents := by
  simp only [logWriteBegin] at checked
  split at checked
  · cases checked
  · split at checked
    · cases checked
    · cases checked
      have changed : Change s (s.setCall p (.logging i data)) .quiet :=
        .check free.1 owned rfl rfl rfl rfl
      exact good.apart coherent changed (changed.still_quiet rfl) rfl rfl rfl (calls_of_user free.2 rfl)

theorem Committing.brelse (coherent : Coherent s contents)
    (free : s.free p) (released : brelseBegin s p i = .next t) : Committing g t contents := by
  obtain ⟨owned, equal⟩ := brelseBegin_next released
  have changed : Change s t .quiet := by
    rw [equal]
    exact .release free.1 owned rfl rfl rfl rfl
  apply good.apart coherent changed (changed.still_quiet (by rw [equal]))
  · rw [equal]
  · rw [equal]
  · rw [equal]
  · exact calls_of_user free.2 (by rw [equal])

theorem Committing.unref (coherent : Coherent s contents)
    (changed : Change s t .quiet) (ended : brelseEnd s p = .next t) : Committing g t contents := by
  cases asked : s.call p with
  | ready | locking i key | logging i data =>
    simp only [brelseEnd, asked] at ended
    cases ended
  | leaving i =>
    simp only [brelseEnd, asked] at ended
    cases ended
    apply good.apart coherent changed (changed.still_quiet rfl) rfl rfl rfl
    intro q _
    simp only [State.setCall, State.setBuf]
    by_cases same : q = p
    · subst q
      simp [asked]
    · rw [update_of_ne same]
      exact ⟨fun _ _ waits => waits, fun _ leaving => leaving⟩

theorem Committing.beginOp (began : beginOp s = .next t) : Committing g t contents := by
  simp only [Cache.beginOp] at began
  split at began
  · cases began
  · rename_i isIdle
    split at began
    · cases began
    · cases began
      exact good.at_rest (by simpa using isIdle) rfl rfl good.listed good.pinned

theorem Committing.starts {outstanding : Int}
    (isIdle : s.committing = false) (closed : outstanding ≤ 0) :
    Committing g (State.setJob { s with outstanding, committing := true } p
      (if 0 < s.lh.length then .loop .writeLog 0 else .finish)) contents := by
  refine .of_alone rfl (fun q _ => good.idle isIdle) rfl closed good.listed good.pinned ?_
  split
  · exact fun k b below => absurd below (Nat.not_lt_zero k)
  · rename_i empty
    have zero : s.lh.length = 0 := by omega
    exact List.eq_nil_of_length_eq_zero zero

theorem Committing.endOp (ended : endOp s p = .next t) : Committing g t contents := by
  simp only [Cache.endOp] at ended
  split at ended
  · cases ended
  · rename_i notCommitting
    have isIdle : s.committing = false := by simpa using notCommitting
    split at ended
    · rename_i last
      cases ended
      exact good.starts isIdle (by omega)
    · cases ended
      exact good.at_rest isIdle rfl rfl good.listed good.pinned

end

end Xv6.Cache
