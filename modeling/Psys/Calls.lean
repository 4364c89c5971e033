import Psys.Creation

/-!
The system calls of `sys.c` keep the invariant of the processes.
-/
namespace Psys.Calls
open Psys.State Psys.Context Psys.Sys Psys.ProcQueue Psys.Family Psys.Termination Psys.Processes Psys.Creation

variable {lost : Prop} {gone : Int → Nat → Prop} {k : Kernel}

/-- An active process may call `scheduler` with nothing more to wait for. -/
theorem Going.fits {k : Procs} (going : Going k) {frame : Frame}
    (runs : ∀ t p, Runnable (t p).state → Holds lost t p frame) : Fits lost k.tabProc k.pidCour frame :=
  ⟨fun _ => runs _ _ (.inl going.active),fun _ mark => by simp [going.reseted] at mark⟩

/-- A killed child may leave its father without an answer. -/
def Unheard (t : Int → Context) (pid : Int) : Prop :=
  FatherWaits t pid ∧ (t (t pid).pidParent).pidWait = -1
instance (t : Int → Context) (pid : Int) : Decidable (Unheard t pid) := inferInstanceAs (Decidable (_ ∧ _))

theorem exit_stable (inside : Inside lost gone k.toProcs) (going : Going k.toProcs) (retval : Int) :
    Stable lost gone (exit k retval) := by
  have ended : ¬ Live (exitProcess k.toProcs retval).tabProc k.pidCour := by
    rw [exitProcess_tabProc inside.tree going.live]
    exact fun live => ((terminated_live _ _).mp live).2 rfl
  refine callScheduler_stable (inside.exit going retval) (fun _ => ?_)
  simp only [exitProcess_pidCour]
  exact ⟨fun live => absurd live ended,fun live => absurd live ended⟩

theorem not_ended {t : Int → Context} {pid : Int} (positive : 1 ≤ pid) (accepted : ¬ Ended t pid) : Live t pid := by
  simp only [Ended,not_or,not_lt,Bool.not_eq_false] at accepted
  exact ⟨⟨⟨positive,accepted.1⟩,accepted.2.1⟩,accepted.2.2.2,accepted.2.2.1⟩

theorem kill_stable (inside : Inside lost gone k.toProcs) (going : Going k.toProcs) {pid : Int}
    (heard : Live k.tabProc pid → Unheard k.tabProc pid → lost) : Stable lost gone (kill k pid) := by
  rcases kill_cases k pid with refused | ⟨positive,accepted,called⟩
  · rw [refused]
    exact sysret_stable inside going _
  · have live := not_ended (by omega) accepted
    have killed := inside.kill live (fun waits any => heard live ⟨waits,any⟩)
    have fits : Fits lost (killProcess k.toProcs pid).tabProc (killProcess k.toProcs pid).pidCour (.ret 0) := by
      by_cases self : k.pidCour = pid
      · have ended : ¬ Live (killProcess k.toProcs pid).tabProc (killProcess k.toProcs pid).pidCour := by
          rw [killProcess_tabProc inside.tree live,killProcess_pidCour]
          exact fun live => ((terminated_live _ _).mp live).2 self
        exact ⟨fun live => absurd live ended,fun live => absurd live ended⟩
      · exact Going.fits (going.kill inside.tree live self) (fun _ _ runs => runs)
    rw [called]
    exact callScheduler_stable killed (fun _ => fits)

theorem handlePfault_stable (inside : Inside lost gone k.toProcs) (going : Going k.toProcs)
    (heard : Unheard k.tabProc k.pidCour → lost) : Stable lost gone (handlePfault k) := by
  unfold handlePfault
  split
  · exact callScheduler_stable inside (fun _ => Going.fits going (fun _ _ runs => runs))
  · exact kill_stable inside going (fun _ => heard)

theorem getprio_stable (inside : Inside lost gone k.toProcs) (going : Going k.toProcs) (pid : Int) :
    Stable lost gone (getprio k pid) := by
  obtain ⟨_,called⟩ := getprio_sysret k pid
  rw [called]
  exact sysret_stable inside going _

/-- A change of priority, with a new place in the list for an activable process. -/
theorem setPriority_inside {k : Procs} (inside : Inside lost gone k) (going : Going k) {pid : Int}
    (live : Live k.tabProc pid) (newprio : Int) {p : Procs}
    (written : p = k.setProc pid (fun c => { c with priority := newprio })) :
    Inside lost gone (if (p.tabProc pid).state = .activable then requeue p pid else p) ∧
      Going (if (p.tabProc pid).state = .activable then requeue p pid else p) := by
  obtain ⟨q,ready⟩ := inside.ready
  have alike : Alike k.tabProc p.tabProc := by
    rw [written]; exact Alike.setProc k pid (fun _ => rfl) (fun _ => rfl) (fun _ => rfl) Iff.rfl Iff.rfl
  have state : (p.tabProc pid).state = (k.tabProc pid).state := by simp [written]
  have ready' : ∃ q', Ready (if (p.tabProc pid).state = .activable then requeue p pid else p) q' := by
    rw [state]
    split
    · rename_i activable
      obtain ⟨_,_,l,r,_,_,done,_⟩ := requeue_ready ready ((ready.member pid).mpr ⟨live.1,activable⟩) newprio
      exact ⟨_,written ▸ done⟩
    · rename_i still
      have out : ∀ x ∈ q, x ≠ pid := fun x member same => still (same ▸ ((ready.member x).mp member).2)
      subst written
      refine ⟨q,ready.frame rfl rfl rfl rfl (fun x => ?_) (fun x member => ?_) (fun x _ => ?_) (fun x _ => ?_)⟩
      · simp [InUse]
      · simp [out x member]
      · simp
      · simp
  have table : (if (p.tabProc pid).state = .activable then requeue p pid else p).tabProc = p.tabProc := by
    split <;> simp
  have cour : (if (p.tabProc pid).state = .activable then requeue p pid else p).pidCour = k.pidCour := by
    split <;> simp [written]
  refine ⟨⟨ready',by rw [table]; exact inside.tree.alike alike,fun x other => ?_,fun x n ended => ?_⟩,?_,?_,?_⟩
  · rw [cour] at other
    have frame : (p.tabProc x).frame = (k.tabProc x).frame := by simp [written]
    rw [table,Settled,frame]
    exact (inside.settled x other).alike inside.tree alike (.inl (by simp [written])) (by simp [written])
      (by simp [written]) (by simp [written])
  · have rests := inside.rests x n ended
    have inserted : p.inserted = k.inserted := by rw [written]; rfl
    have other : x ≠ pid := by
      rintro rfl
      exact rests.finished.elim live.2.1 live.2.2
    refine rests.same (by rw [table,written]; simp) ?_
    split
    · rw [requeue_count p other,inserted]
    · rw [inserted]
  all_goals rw [table,cour]
  · exact (alike.live _).mpr going.live
  · simpa [written] using going.active
  · simpa [written] using going.reseted

theorem chprio_stable (inside : Inside lost gone k.toProcs) (going : Going k.toProcs) (pid newprio : Int) :
    Stable lost gone (chprio k pid newprio) := by
  rcases chprio_cases k pid newprio with ⟨_,refused⟩ | ⟨positive,accepted,_,_,⟨_,called⟩ | called⟩
  · rw [refused]
    exact sysret_stable inside going _
  · rw [called]
    exact callScheduler_stable inside (fun _ => Going.fits going (fun _ _ runs => runs))
  · obtain ⟨inside',going'⟩ := setPriority_inside inside going (not_ended positive accepted) newprio rfl
    rw [called]
    exact callScheduler_stable inside' (fun _ => Going.fits going' (fun _ _ runs => runs))

/-- A call of `start` gets the stacks for the process `pid`. -/
structure Takes (t : Int → Context) (ssize : Nat) (memory : Memory) (pid : Int) : Prop where
  size : ssize ≤ 0xffffffe7
  stack : memory.stack = true
  found : freePid t = some pid

/-- A write to a free descriptor leaves nobody without an answer. -/
theorem unheard_givenUp {k : Procs} {pid : Int} (found : freePid k.tabProc = some pid) (used : InUse k.tabProc k.pidCour)
    {prio : Int} {memory : Memory} (unheard : Unheard (k.setProc pid (givenUp k prio memory)).tabProc k.pidCour) :
    Unheard k.tabProc k.pidCour := by
  obtain ⟨inTab,unused⟩ := freePid_unused found
  have other : k.pidCour ≠ pid := fun same => unused (same ▸ used)
  have father : (k.tabProc k.pidCour).pidParent ≠ pid := by
    intro same
    have waits := unheard.1.2.1
    simp [other,same,inTab,givenUp] at waits
  simpa [Unheard,FatherWaits,other,father] using unheard

/-- A creation that takes a page fault leaves nobody without an answer. -/
theorem stumbles_heard {k : Procs} (used : InUse k.tabProc k.pidCour) {prio : Int} {memory : Memory}
    (fault : (contextCreateUser k prio memory).2 = none)
    (heard : Stumbles k.tabProc memory → Unheard k.tabProc k.pidCour → lost)
    (unheard : Unheard (contextCreateUser k prio memory).1.tabProc (contextCreateUser k prio memory).1.pidCour) : lost := by
  obtain ⟨stumbles,pid,found,written⟩ := contextCreateUser_none (.inr used) fault
  rw [written] at unheard
  exact heard stumbles (unheard_givenUp found used unheard)

theorem start_stable (inside : Inside lost gone k.toProcs) (going : Going k.toProcs) (ssize : Nat) (prio : Int)
    {memory : Memory} (apart : ∀ pid, Takes k.tabProc ssize memory pid → ∀ n, ¬ gone pid n)
    (heard : ssize ≤ 0xffffffe7 → Stumbles k.tabProc memory → Unheard k.tabProc k.pidCour → lost) :
    Stable lost gone (start k ssize prio memory) := by
  rcases start_cases k ssize prio memory with ⟨_,refused⟩ | ⟨small,ends⟩
  · rw [refused]
    exact sysret_stable inside going _
  · obtain ⟨inside',going',_⟩ := contextCreateUser_inside inside going prio
      (fun pid stack found => apart pid ⟨small,stack,found⟩)
    rcases ends with ⟨_,_,_,called⟩ | ⟨_,_,_,called⟩ | ⟨fault,called⟩
    · rw [called]
      exact callScheduler_stable inside' (fun _ => Going.fits going' (fun _ _ runs => runs))
    · rw [called]
      exact sysret_stable inside' going' _
    · rw [called]
      exact handlePfault_stable inside' going' (stumbles_heard going.live.1 fault (heard small))

/-! ### Waiting for children -/

/-- The child that `waitpid` is about to report: a zombie child of the current
    process, or none when a father was woken up without one. -/
def Reported (lost : Prop) (k : Procs) (child : Int) : Prop :=
  lost ∧ child = -1 ∨ child ∈ (k.tabProc k.pidCour).children ∧ (k.tabProc child).state = .zombie

/-- The process part of `reap`. -/
def buried (k : Procs) (child : Int) : Procs :=
  (k.setProc child (fun c => { c with state := .dead })).setProc k.pidCour
    (fun c => { c with children := c.children.erase child })

section
variable {k : Procs} {child : Int}

theorem buried_child (live : Live k.tabProc k.pidCour) (inTab : InTab child)
    (zombie : (k.tabProc child).state = .zombie) :
    child ≠ k.pidCour ∧ (buried k child).tabProc child = { k.tabProc child with state := .dead } := by
  have other : child ≠ k.pidCour := fun same => live.2.1 (same ▸ zombie)
  exact ⟨other,by simp [buried,other,inTab]⟩

theorem buried_cour (live : Live k.tabProc k.pidCour) (other : child ≠ k.pidCour) :
    (buried k child).tabProc k.pidCour =
      { k.tabProc k.pidCour with children := (k.tabProc k.pidCour).children.erase child } := by
  simp [buried,other.symm,live.1.1]

theorem buried_same {p : Int} (notChild : p ≠ child) (other : p ≠ k.pidCour) :
    (buried k child).tabProc p = k.tabProc p := by simp [buried,notChild,other]

variable (tree : Tree k.tabProc) (live : Live k.tabProc k.pidCour)
  (member : child ∈ (k.tabProc k.pidCour).children) (zombie : (k.tabProc child).state = .zombie)
include tree live member zombie

theorem buried_live (p : Int) : Live (buried k child).tabProc p ↔ Live k.tabProc p := by
  obtain ⟨other,dead⟩ := buried_child live (tree.child _ live child member).1.1 zombie
  by_cases isChild : p = child
  · subst isChild; simp [Live,dead,zombie]
  · by_cases current : p = k.pidCour
    · subst current; simp [Live,InUse,buried_cour live other]
    · simp [Live,InUse,buried_same isChild current]

/-- The child is gone from the tree. -/
theorem buried_tree : Tree (buried k child).tabProc := by
  obtain ⟨used,parent,_⟩ := tree.child _ live child member
  obtain ⟨other,dead⟩ := buried_child live used.1 zombie
  have liveIff := buried_live tree live member zombie
  have kept : ∀ c, c ≠ child → ((buried k child).tabProc c).pidParent = (k.tabProc c).pidParent ∧
      ((buried k child).tabProc c).state = (k.tabProc c).state ∧
      (InUse (buried k child).tabProc c ↔ InUse k.tabProc c) := by
    intro c different
    by_cases current : c = k.pidCour
    · subst current; simp [InUse,buried_cour live other]
    · simp [InUse,buried_same different current]
  have children : ∀ p, Live k.tabProc p → ∀ c,
      (c ∈ ((buried k child).tabProc p).children ↔ c ∈ (k.tabProc p).children ∧ c ≠ child) := by
    intro p liveP c
    by_cases current : p = k.pidCour
    · subst current; rw [buried_cour live other]; simp [(tree.nodup _ live).mem_erase_iff,and_comm]
    · have notChild : p ≠ child := fun same => liveP.2.1 (same ▸ zombie)
      rw [buried_same notChild current]
      refine ⟨fun inside => ⟨inside,fun same => current ?_⟩,And.left⟩
      exact (tree.child p liveP c inside).2.1.symm.trans (same ▸ parent)
  refine ⟨fun p liveP => ?_,fun p liveP c inside => ?_,fun c usedC alive above => ?_,fun c usedC ended => ?_,
    fun c usedC above => ?_⟩
  · have before := (liveIff p).mp liveP
    by_cases current : p = k.pidCour
    · subst current; rw [buried_cour live other]; exact (tree.nodup _ before).erase _
    · have notChild : p ≠ child := fun same => before.2.1 (same ▸ zombie)
      rw [buried_same notChild current]; exact tree.nodup p before
  · have before := (liveIff p).mp liveP
    obtain ⟨inside,notChild⟩ := (children p before c).mp inside
    obtain ⟨samePar,state,inUse⟩ := kept c notChild
    rw [samePar,state,inUse]
    exact tree.child p before c inside
  · have notChild : c ≠ child := fun same => alive (by rw [same,dead])
    obtain ⟨samePar,state,inUse⟩ := kept c notChild
    rw [samePar] at above ⊢
    obtain ⟨liveP,inside⟩ := tree.parent c (inUse.mp usedC) (state ▸ alive) above
    exact ⟨(liveIff _).mpr liveP,(children _ liveP c).mpr ⟨inside,notChild⟩⟩
  · have notChild : c ≠ child := fun same => by rw [same,dead] at ended; simp at ended
    obtain ⟨samePar,state,inUse⟩ := kept c notChild
    rw [samePar]
    exact tree.zombie c (inUse.mp usedC) (state ▸ ended)
  · by_cases isChild : c = child
    · subst isChild
      rw [dead] at above ⊢
      exact tree.other c used above
    · obtain ⟨samePar,_,inUse⟩ := kept c isChild
      rw [samePar] at above ⊢
      exact tree.other c (inUse.mp usedC) above

theorem buried_settled {p : Int} (other : p ≠ k.pidCour) (settled : Settled lost k.tabProc p) :
    Settled lost (buried k child).tabProc p := by
  have liveIff := buried_live tree live member zombie
  by_cases isChild : p = child
  · subst isChild
    have ended : ¬ Live (buried k p).tabProc p := fun after => ((liveIff p).mp after).2.1 zombie
    exact ⟨fun after => absurd after ended,fun after => absurd after ended⟩
  · have same := buried_same isChild other
    rw [Settled,same]
    refine settled.keep (liveIff p).mp (.inl (by rw [same])) (by rw [same]) (by rw [same]) (by rw [same])
      (fun _ => by rw [same]) (fun liveP c inside => ?_)
    obtain ⟨used,parent,_⟩ := tree.child p liveP c inside
    have notChild : c ≠ child := fun equal =>
      other (parent.symm.trans (equal ▸ (tree.child _ live child member).2.1))
    by_cases current : c = k.pidCour
    · have different := (buried_child live (tree.child _ live child member).1.1 zombie).1
      subst current; rw [buried_cour live different]
    · rw [buried_same notChild current]

end

/-- A father that was woken up without a child buries nothing. -/
theorem buried_lost {k : Procs} (tree : Tree k.tabProc) (live : Live k.tabProc k.pidCour) : buried k (-1) = k := by
  have fresh : (-1) ∉ (k.tabProc k.pidCour).children := fun member => by
    have := (tree.child _ live _ member).1.1
    simp [InTab] at this
  have inTab : ¬ InTab (-1) := by decide
  simp only [buried,Procs.setProc,inTab,and_false,if_false]
  refine congrArg (fun t => { k with tabProc := t }) (funext fun q => ?_)
  by_cases current : q = k.pidCour
  · subst current; simp [List.erase_of_not_mem fresh]
  · simp [current]

theorem buried_inside {k : Procs} (inside : Inside lost gone k) (going : Going k) {child : Int}
    (reported : Reported lost k child) : Inside lost gone (buried k child) ∧ Going (buried k child) := by
  rcases reported with ⟨_,rfl⟩ | ⟨member,zombie⟩
  · rw [buried_lost inside.tree going.live]; exact ⟨inside,going⟩
  · obtain ⟨q,ready⟩ := inside.ready
    have used := (inside.tree.child _ going.live child member).1
    obtain ⟨other,_⟩ := buried_child going.live used.1 zombie
    have table := buried_cour going.live other
    obtain ⟨q',ready'⟩ := ready.stop used (f := fun c => { c with state := .dead }) (fun _ => rfl) (fun _ => rfl)
      (by simp [Runnable])
    rw [zombie] at ready'
    simp only [reduceCtorEq,if_false] at ready'
    refine ⟨⟨⟨q',ready'.setProc _ (fun _ => rfl) (fun _ => rfl) (fun _ => rfl)⟩,
      buried_tree inside.tree going.live member zombie,fun p different => ?_,fun p n ended => ?_⟩,?_,?_,?_⟩
    · exact buried_settled inside.tree going.live member zombie different (inside.settled p different)
    · have rests := inside.rests p n ended
      by_cases isChild : p = child
      · exact ⟨by rw [isChild,(buried_child going.live used.1 zombie).2]; exact .inr rfl,rests.put⟩
      · refine rests.others (x := k.pidCour) (by simp [going.active,Over]) (fun current => ⟨?_,rfl⟩)
        rw [buried_same isChild current]
    · exact (buried_live inside.tree going.live member zombie _).mpr going.live
    · show ((buried k child).tabProc k.pidCour).state = .active
      rw [table]; exact going.active
    · show ((buried k child).tabProc k.pidCour).sidReseted = false
      rw [table]; exact going.reseted

/-- A call of `waitpid` ends. -/
theorem reap_stable (inside : Inside lost gone k.toProcs) (going : Going k.toProcs) {child : Int} (retvalp : Nat)
    (reported : Reported lost k.toProcs child)
    (heard : retvalp ≠ 0 → ¬ Mapped retvalp → Unheard k.tabProc k.pidCour → lost) :
    Stable lost gone (reap k child retvalp) := by
  obtain ⟨inside',going'⟩ := buried_inside inside going reported
  unfold reap
  split
  · rename_i faulty
    exact handlePfault_stable inside going (heard faulty.1 faulty.2)
  · dsimp only
    split <;> exact sysret_stable inside' going' _

/-- The current process goes to sleep until a child ends. -/
theorem waitChild_stable (inside : Inside lost gone k.toProcs) (going : Going k.toProcs) {pidWait : Int} {frame : Frame}
    (holds : ∀ t : Int → Context, (t k.pidCour).state = .waitChild → (t k.pidCour).pidWait = pidWait →
      (t k.pidCour).children = (k.tabProc k.pidCour).children →
      (∀ c, (t c).state = .zombie ↔ (k.tabProc c).state = .zombie) → Holds lost t k.pidCour frame) :
    Stable lost gone (waitChild k pidWait frame) := by
  have inTab := going.live.1.1
  have blocked := inside.block going (blocks_waitChild pidWait)
  refine callScheduler_stable blocked (fun _ => ⟨fun _ => ?_,fun _ mark => ?_⟩)
  · refine holds _ (by simp [inTab]) (by simp [inTab]) (by simp) (fun c => ?_)
    by_cases current : c = k.pidCour
    · subst current; simp [inTab,going.active]
    · simp [current]
  · simp [going.reseted] at mark

/-- A zombie child of the current process that `waitpid(pid)` may report. -/
structure Finds (k : Procs) (pid child : Int) : Prop where
  member : child ∈ (k.tabProc k.pidCour).children
  zombie : (k.tabProc child).state = .zombie
  asked : pid < 0 ∨ child = pid

instance (k : Procs) (pid : Int) : Decidable (∃ child, Finds k pid child) :=
  decidable_of_iff (∃ child ∈ (k.tabProc k.pidCour).children,
    (k.tabProc child).state = .zombie ∧ (pid < 0 ∨ child = pid))
    ⟨fun ⟨child,member,zombie,asked⟩ => ⟨child,member,zombie,asked⟩,
      fun ⟨child,member,zombie,asked⟩ => ⟨child,member,zombie,asked⟩⟩

/-- `waitpid` refuses, reports a zombie child, or sleeps until a child ends. -/
theorem waitpid_cases (k : Kernel) (pid : Int) (retvalp : Nat) :
    (∃ r, r < 0 ∧ waitpid k pid retvalp = sysret k (some r)) ∨
      (∃ child, Finds k.toProcs pid child ∧ waitpid k pid retvalp = reap k child (checkPointer retvalp)) ∨
      ((k.tabProc k.pidCour).children ≠ [] ∧ (∀ c ∈ (k.tabProc k.pidCour).children, (k.tabProc c).state ≠ .zombie) ∧
        waitpid k pid retvalp = waitChild k (-1) (.waitpidAny (checkPointer retvalp))) ∨
      0 < pid ∧ pid ∈ (k.tabProc k.pidCour).children ∧ (k.tabProc pid).state ≠ .zombie ∧
        waitpid k pid retvalp = waitChild k pid (.waitpid pid (checkPointer retvalp)) := by
  unfold waitpid
  dsimp only
  split
  · exact .inl ⟨-1,by omega,rfl⟩
  split
  · rename_i negative
    split
    · exact .inl ⟨-1,by omega,rfl⟩
    · rename_i some
      split
      · rename_i child found
        have zombie : (k.tabProc child).state = .zombie := by simpa using List.find?_some found
        exact .inr (.inl ⟨child,⟨List.mem_of_find?_eq_some found,zombie,.inl negative⟩,rfl⟩)
      · rename_i none
        refine .inr (.inr (.inl ⟨some,fun c member => ?_,rfl⟩))
        simpa using List.find?_eq_none.mp none c member
  · rename_i notNegative
    split
    · exact .inl ⟨-2,by omega,rfl⟩
    · rename_i notZero
      split
      · exact .inl ⟨-3,by omega,rfl⟩
      · rename_i member
        rw [not_not] at member
        split
        · rename_i alive
          exact .inr (.inr (.inr ⟨by omega,member,alive,rfl⟩))
        · rename_i ended
          exact .inr (.inl ⟨pid,⟨member,not_not.mp ended,.inr rfl⟩,rfl⟩)

theorem waitpid_stable (inside : Inside lost gone k.toProcs) (going : Going k.toProcs) (pid : Int) (retvalp : Nat)
    (heard : (∃ child, Finds k.toProcs pid child) → checkPointer retvalp ≠ 0 → ¬ Mapped (checkPointer retvalp) →
      Unheard k.tabProc k.pidCour → lost) : Stable lost gone (waitpid k pid retvalp) := by
  rcases waitpid_cases k pid retvalp with ⟨_,_,same⟩ | ⟨child,finds,same⟩ | ⟨some,none,same⟩ |
    ⟨positive,member,alive,same⟩
  · rw [same]; exact sysret_stable inside going _
  · rw [same]; exact reap_stable inside going _ (.inr ⟨finds.member,finds.zombie⟩) (heard ⟨child,finds⟩)
  · rw [same]
    refine waitChild_stable inside going (fun t state any children zombie => .inl ⟨state,any,fun _ => ?_⟩)
    rw [children]
    exact ⟨some,fun c member => mt (zombie c).mp (none c member)⟩
  · rw [same]
    refine waitChild_stable inside going (fun t state same children zombie =>
      .inl ⟨state,same,positive,fun _ => ?_⟩)
    rw [children]
    exact ⟨member,mt (zombie pid).mp alive⟩

end Psys.Calls
