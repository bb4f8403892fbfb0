import Xv6.Process.Table

namespace Xv6.Process

/-! # `findPriority` -/

def prefer (s : State) (worse : Int → Int → Bool) (selectedP : Option Slot) (p : Slot) : Option Slot :=
  match selectedP with
  | none => some p
  | some best => if worse (s.proc best).priority (s.proc p).priority then some p else some best

/-- The tie-break of `findPriority`: "a process with same priority but less
scheduled".  It looks at every runnable process, whatever its queue. -/
def tieBreak (s : State) (selectedP : Option Slot) (p : Slot) : Option Slot :=
  match selectedP with
  | none => none
  | some best =>
    if (s.proc best).priority = (s.proc p).priority ∧
        (s.proc best).scheduledTimes > (s.proc p).scheduledTimes then some p
    else some best

def findPriorityStep (s : State) (mode : Int) (selectedP : Option Slot) (p : Slot) : Option Slot :=
  if (s.proc p).state ≠ .runnable then selectedP
  else if mode = 1 ∧ (s.proc p).queueNumber = QUEUE_PRIORITY then
    tieBreak s (prefer s (fun best own => best > own) selectedP p) p
  else if mode = 2 ∧ (s.proc p).queueNumber = QUEUE_PRIORITY_REVERSE then
    tieBreak s (prefer s (fun best own => best < own) selectedP p) p
  else if mode = 3 then
    tieBreak s (prefer s (fun best own => best > own) selectedP p) p
  else tieBreak s selectedP p

def findPriority (s : State) (mode : Int) : Option Slot :=
  (List.finRange NPROC).foldl (findPriorityStep s mode) none

variable {s : State} {mode : Int} {selectedP : Option Slot} {p x : Slot}

/-! A scan ranks the runnable members of its queue; the tie-break then runs over
everything behind the first member of the best rank.
-/

def modeMember (mode : Int) (p : Proc) : Prop :=
  mode = 1 ∧ p.queueNumber = QUEUE_PRIORITY ∨ mode = 2 ∧ p.queueNumber = QUEUE_PRIORITY_REVERSE ∨ mode = 3

/-- A smaller rank is preferred; mode 2 prefers larger priority values. -/
def modeRank (mode : Int) (p : Proc) : Int :=
  if mode = 2 then -p.priority else p.priority

def Candidate (s : State) (mode : Int) (x : Slot) : Prop :=
  (s.proc x).state = .runnable ∧ modeMember mode (s.proc x)

structure FirstBest (s : State) (mode : Int) (slots : List Slot) (w : Slot) : Prop where
  listed : w ∈ slots
  candidate : Candidate s mode w
  best : ∀ v ∈ slots, Candidate s mode v → modeRank mode (s.proc w) ≤ modeRank mode (s.proc v)
  first : ∀ v ∈ slots, v < w → Candidate s mode v → modeRank mode (s.proc w) < modeRank mode (s.proc v)

/-- Ranked by `scheduled_times`, then by table index. -/
def Sooner (s : State) (x y : Slot) : Prop :=
  (s.proc x).scheduledTimes < (s.proc y).scheduledTimes ∨
    (s.proc x).scheduledTimes = (s.proc y).scheduledTimes ∧ x ≤ y

def Ties (s : State) (w y : Slot) : Prop :=
  (s.proc y).state = .runnable ∧ w ≤ y ∧ (s.proc y).priority = (s.proc w).priority

structure Chosen (s : State) (mode : Int) (slots : List Slot) (w x : Slot) : Prop where
  best : FirstBest s mode slots w
  listed : x ∈ slots
  ties : Ties s w x
  soonest : ∀ y ∈ slots, Ties s w y → Sooner s x y

def ScanResult (s : State) (mode : Int) (slots : List Slot) : Option Slot → Prop
  | none => ∀ v ∈ slots, ¬ Candidate s mode v
  | some x => ∃ w, Chosen s mode slots w x

section

variable {slots : List Slot} {w : Slot}

theorem modeRank_injective {p q : Proc} (same : modeRank mode p = modeRank mode q) :
    p.priority = q.priority := by
  unfold modeRank at same
  split at same <;> omega

theorem modeRank_congr {p q : Proc} (same : p.priority = q.priority) : modeRank mode p = modeRank mode q := by
  simp only [modeRank, same]

/-- The tie-break keeps a choice correct when the slot it looks at is behind
everything scanned and does not outrank the best candidate. -/
theorem tieBreak_chosen (chosen : Chosen s mode slots w x) (behind : ∀ v ∈ slots, v < p)
    (runnable : (s.proc p).state = .runnable)
    (ranked : Candidate s mode p → modeRank mode (s.proc w) ≤ modeRank mode (s.proc p)) :
    ScanResult s mode (slots ++ [p]) (tieBreak s (some x) p) := by
  have best : FirstBest s mode (slots ++ [p]) w := by
    refine { listed := List.mem_append_left _ chosen.best.listed, candidate := chosen.best.candidate,
             best := ?_, first := ?_ }
    · intro v member candidate
      rcases List.mem_append.mp member with old | new
      · exact chosen.best.best v old candidate
      · obtain rfl := List.mem_singleton.mp new
        exact ranked candidate
    · intro v member before candidate
      rcases List.mem_append.mp member with old | new
      · exact chosen.best.first v old before candidate
      · obtain rfl := List.mem_singleton.mp new
        exact absurd before (lt_asymm (behind w chosen.best.listed))
  have x_lt := behind x chosen.listed
  simp only [tieBreak]
  split
  · rename_i better
    refine ⟨w, best, List.mem_append_right _ (List.mem_singleton_self p), ?_, ?_⟩
    · exact ⟨runnable, (behind w chosen.best.listed).le, better.1.symm.trans chosen.ties.2.2⟩
    · intro y member ties
      rcases List.mem_append.mp member with old | new
      · rcases chosen.soonest y old ties with fewer | ⟨equal, _⟩ <;> exact .inl (by omega)
      · obtain rfl := List.mem_singleton.mp new
        exact .inr ⟨rfl, le_rfl⟩
  · rename_i worse
    refine ⟨w, best, List.mem_append_left _ chosen.listed, chosen.ties, ?_⟩
    intro y member ties
    rcases List.mem_append.mp member with old | new
    · exact chosen.soonest y old ties
    · obtain rfl := List.mem_singleton.mp new
      have notFewer : ¬ (s.proc x).scheduledTimes > (s.proc y).scheduledTimes :=
        fun more => worse ⟨chosen.ties.2.2.trans ties.2.2.symm, more⟩
      rcases lt_or_eq_of_le (not_lt.mp notFewer) with fewer | equal
      · exact .inl fewer
      · exact .inr ⟨equal, x_lt.le⟩

theorem tieBreak_self : tieBreak s (some p) p = some p := by
  simp [tieBreak]

theorem chosen_new (candidate : Candidate s mode p) (behind : ∀ v ∈ slots, v < p)
    (outranks : ∀ v ∈ slots, Candidate s mode v → modeRank mode (s.proc p) < modeRank mode (s.proc v)) :
    Chosen s mode (slots ++ [p]) p p := by
  have last {v : Slot} (member : v ∈ slots ++ [p]) : v ∈ slots ∨ v = p := by simpa using member
  refine { best := { listed := by simp, candidate := candidate, best := ?_, first := ?_ }, listed := by simp,
           ties := ⟨candidate.1, le_rfl, rfl⟩, soonest := ?_ }
  · intro v member other
    rcases last member with old | rfl
    · exact (outranks v old other).le
    · exact le_rfl
  · intro v member before other
    rcases last member with old | rfl
    · exact outranks v old other
    · exact absurd before (lt_irrefl v)
  · intro y member ties
    rcases last member with old | rfl
    · exact absurd (behind y old) (not_lt.mpr ties.2.1)
    · exact .inr ⟨rfl, le_rfl⟩

theorem findPriorityStep_other (runnable : (s.proc p).state = .runnable)
    (outside : ¬ modeMember mode (s.proc p)) :
    findPriorityStep s mode selectedP p = tieBreak s selectedP p := by
  simp only [modeMember, not_or] at outside
  simp only [findPriorityStep, runnable, outside, ne_eq, not_true_eq_false, if_false]

theorem findPriorityStep_none (candidate : Candidate s mode p) :
    findPriorityStep s mode none p = some p := by
  obtain ⟨runnable, first | second | third⟩ := candidate
  · simp [findPriorityStep, runnable, first, prefer, tieBreak]
  · simp [findPriorityStep, runnable, second, prefer, tieBreak]
  · simp [findPriorityStep, runnable, third, prefer, tieBreak]

theorem findPriorityStep_some (candidate : Candidate s mode p) : findPriorityStep s mode (some x) p =
      if modeRank mode (s.proc p) < modeRank mode (s.proc x) then some p else tieBreak s (some x) p := by
  have settle {worse : Int → Int → Bool}
      (ranks : worse (s.proc x).priority (s.proc p).priority =
        decide (modeRank mode (s.proc p) < modeRank mode (s.proc x))) :
      tieBreak s (prefer s worse (some x) p) p =
        if modeRank mode (s.proc p) < modeRank mode (s.proc x) then some p else tieBreak s (some x) p := by
    simp only [prefer, ranks, decide_eq_true_eq]
    split
    · exact tieBreak_self
    · rfl
  obtain ⟨runnable, ⟨is, member⟩ | ⟨is, member⟩ | is⟩ := candidate
  · subst is
    simp only [findPriorityStep, runnable, member, ne_eq, not_true_eq_false, if_false, and_self, if_true]
    exact settle (by simp [modeRank])
  · subst is
    simp only [findPriorityStep, runnable, ne_eq, not_true_eq_false, member, and_self, if_true, if_false]
    exact settle (by simp [modeRank])
  · subst is
    have first : ¬ ((3 : Int) = 1 ∧ (s.proc p).queueNumber = QUEUE_PRIORITY) := by simp
    have second : ¬ ((3 : Int) = 2 ∧ (s.proc p).queueNumber = QUEUE_PRIORITY_REVERSE) := by simp
    simp only [findPriorityStep, runnable, ne_eq, not_true_eq_false, if_neg first, if_neg second, if_true,
      if_false]
    exact settle (by simp [modeRank])

theorem ScanResult.skip (result : ScanResult s mode slots selectedP)
    (idle : (s.proc p).state ≠ .runnable) : ScanResult s mode (slots ++ [p]) selectedP := by
  have old {v : Slot} (member : v ∈ slots ++ [p]) (runnable : (s.proc v).state = .runnable) : v ∈ slots := by
    rcases List.mem_append.mp member with old | new
    · exact old
    · obtain rfl := List.mem_singleton.mp new
      exact absurd runnable idle
  cases selectedP with
  | none => exact fun v member candidate => result v (old member candidate.1) candidate
  | some x =>
    obtain ⟨w, chosen⟩ := result
    exact ⟨w, {
      best := {
        listed := List.mem_append_left _ chosen.best.listed
        candidate := chosen.best.candidate
        best := fun v member candidate => chosen.best.best v (old member candidate.1) candidate
        first := fun v member before candidate =>
          chosen.best.first v (old member candidate.1) before candidate }
      listed := List.mem_append_left _ chosen.listed
      ties := chosen.ties
      soonest := fun y member ties => chosen.soonest y (old member ties.1) ties }⟩

theorem findPriorityStep_result (result : ScanResult s mode slots selectedP) (behind : ∀ v ∈ slots, v < p) :
    ScanResult s mode (slots ++ [p]) (findPriorityStep s mode selectedP p) := by
  by_cases runnable : (s.proc p).state = .runnable
  · by_cases member : modeMember mode (s.proc p)
    · have candidate : Candidate s mode p := ⟨runnable, member⟩
      cases selectedP with
      | none =>
        rw [findPriorityStep_none candidate]
        exact ⟨p, chosen_new candidate behind fun v listed other => absurd other (result v listed)⟩
      | some x =>
        obtain ⟨w, chosen⟩ := result
        have rank_x : modeRank mode (s.proc x) = modeRank mode (s.proc w) := modeRank_congr chosen.ties.2.2
        rw [findPriorityStep_some candidate]
        split
        · rename_i outranks
          refine ⟨p, chosen_new candidate behind fun v listed other => ?_⟩
          have := chosen.best.best v listed other
          omega
        · exact tieBreak_chosen chosen behind runnable fun _ => by omega
    · rw [findPriorityStep_other runnable member]
      cases selectedP with
      | none =>
        intro v listed candidate
        rcases List.mem_append.mp listed with old | new
        · exact result v old candidate
        · obtain rfl := List.mem_singleton.mp new
          exact member candidate.2
      | some x =>
        obtain ⟨w, chosen⟩ := result
        exact tieBreak_chosen chosen behind runnable fun candidate => absurd candidate.2 member
  · have skipped : findPriorityStep s mode selectedP p = selectedP := by
      simp [findPriorityStep, runnable]
    rw [skipped]
    exact result.skip runnable

theorem foldl_findPriorityStep (slots rest : List Slot) (sorted : (slots ++ rest).Pairwise (· < ·))
    (result : ScanResult s mode slots selectedP) :
    ScanResult s mode (slots ++ rest) (rest.foldl (findPriorityStep s mode) selectedP) := by
  induction rest generalizing slots selectedP with
  | nil => simpa using result
  | cons p rest ih =>
    have behind : ∀ v ∈ slots, v < p := fun v listed =>
      (List.pairwise_append.mp sorted).2.2 v listed p List.mem_cons_self
    have next := findPriorityStep_result (p := p) result behind
    rw [List.append_cons] at sorted ⊢
    exact ih (slots ++ [p]) sorted next

theorem findPriority_result (s : State) (mode : Int) :
    ScanResult s mode (List.finRange NPROC) (findPriority s mode) :=
  foldl_findPriorityStep [] _ (List.pairwise_lt_finRange NPROC) (fun _ listed => by simp at listed)

theorem findPriority_runnable (chosen : findPriority s mode = some x) :
    (s.proc x).state = .runnable := by
  have result := findPriority_result s mode
  rw [chosen] at result
  obtain ⟨w, chosen⟩ := result
  exact chosen.ties.1

end

end Xv6.Process
