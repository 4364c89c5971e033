import Psys.Calls

/-!
The processes that semaphores keep waiting: which steps leave them alone, and
the invariant that ties counters, waiting lists and process states together.
-/
namespace Psys.Waiting
open Psys.State Psys.Context Psys.Sys Psys.ProcQueue Psys.Family Psys.Termination Psys.Processes Psys.Creation
open Psys.Calls

variable {lost : Prop} {gone : Int → Nat → Prop}

/-- A process waits on a semaphore. -/
def Blocked (t : Int → Context) (pid sid : Int) : Prop :=
  InUse t pid ∧ (t pid).state = .waitSem ∧ (t pid).sidWait = sid

/-- The waiting lists hold the blocked processes, and negative counters count
    them. Free identifiers name no valid semaphore. -/
structure Sems (sems : Int → Semaphore) (libres : List Int) (t : Int → Context) : Prop where
  nodup : ∀ s, SemInUse sems s → (sems s).procWait.Nodup
  waiting : ∀ s, SemInUse sems s → ∀ p, p ∈ (sems s).procWait ↔ Blocked t p s
  length : ∀ s, SemInUse sems s → ((sems s).procWait.length : Int) = max 0 (-(sems s).c)
  range : ∀ s, SemInUse sems s → SHRT_MIN ≤ (sems s).c ∧ (sems s).c ≤ SHRT_MAX
  valid : ∀ p s, Blocked t p s → SemInUse sems s
  distinct : libres.Nodup
  free : ∀ s ∈ libres, 0 ≤ s ∧ s < NBSEM ∧ (sems s).valide = false

/-- The processes inside `wait` are the same, in the same condition. -/
structure Unconcerned (t t' : Int → Context) : Prop where
  blocked : ∀ p s, Blocked t' p s ↔ Blocked t p s
  waits : ∀ p sid, Live t' p → (t' p).frame = .wait sid → Live t p ∧ (t p).frame = .wait sid ∧
    (t' p).sidReseted = (t p).sidReseted ∧ (t' p).sidDeleted = (t p).sidDeleted ∧
    ((t' p).state = .waitSem ↔ (t p).state = .waitSem)

theorem Unconcerned.refl (t : Int → Context) : Unconcerned t t :=
  ⟨fun _ _ => Iff.rfl,fun _ _ live frame => ⟨live,frame,rfl,rfl,Iff.rfl⟩⟩

theorem Unconcerned.trans {t t' t'' : Int → Context} (first : Unconcerned t t') (second : Unconcerned t' t'') :
    Unconcerned t t'' where
  blocked p s := (second.blocked p s).trans (first.blocked p s)
  waits p sid live frame := by
    obtain ⟨live',frame',reseted',deleted',state'⟩ := second.waits p sid live frame
    obtain ⟨live,frame,reseted,deleted,state⟩ := first.waits p sid live' frame'
    exact ⟨live,frame,reseted'.trans reseted,deleted'.trans deleted,state'.trans state⟩

theorem Sems.unconcerned {sems : Int → Semaphore} {libres : List Int} {t t' : Int → Context}
    (ok : Sems sems libres t) (unconcerned : Unconcerned t t') : Sems sems libres t' :=
  { ok with
    waiting := fun s used p => (ok.waiting s used p).trans (unconcerned.blocked p s).symm
    valid := fun p s blocked => ok.valid p s ((unconcerned.blocked p s).mp blocked) }

/-! ### Steps that leave the waiting processes alone -/

theorem Dispatched.unconcerned {t t' : Int → Context} (dispatched : Dispatched t t') : Unconcerned t t' := by
  have alike := Dispatched.alike dispatched
  have state : ∀ p, (t' p).state = .waitSem ↔ (t p).state = .waitSem := fun p =>
    still_iff (dispatched.state p) (by simp [Runnable])
  have sid : ∀ p, (t' p).sidWait = (t p).sidWait := fun p => (congrArg Context.sidWait (dispatched.same p) :)
  have frame' : ∀ p, (t' p).frame = (t p).frame := fun p => (congrArg Context.frame (dispatched.same p) :)
  refine ⟨fun p s => ?_,fun p s live frame => ?_⟩
  · simp only [Blocked,state,sid]
    constructor
    · rintro ⟨used,rest⟩; exact ⟨alike.used p used,rest⟩
    · rintro ⟨used,waits,rest⟩; exact ⟨alike.kept p used (by simp [waits]),waits,rest⟩
  · exact ⟨(alike.live p).mp live,(frame' p) ▸ frame,(congrArg Context.sidReseted (dispatched.same p) :),
      (congrArg Context.sidDeleted (dispatched.same p) :),state p⟩

/-- One process changes, which is not inside `wait` afterwards. -/
theorem Unconcerned.update {t t' : Int → Context} (x : Int) (others : ∀ p, p ≠ x → t' p = t p)
    (before : InUse t x → (t x).state ≠ .waitSem) (after : InUse t' x → (t' x).state ≠ .waitSem)
    (frame : ∀ sid, Live t' x → (t' x).frame = .wait sid → Live t x ∧ (t x).frame = .wait sid ∧
      (t' x).sidReseted = (t x).sidReseted ∧ (t' x).sidDeleted = (t x).sidDeleted) : Unconcerned t t' := by
  refine ⟨fun p s => ?_,fun p sid live form => ?_⟩
  · by_cases same : p = x
    · subst same
      exact ⟨fun blocked => absurd blocked.2.1 (after blocked.1),fun blocked => absurd blocked.2.1 (before blocked.1)⟩
    · simp only [Blocked,InUse,others p same]
  · by_cases same : p = x
    · subst same
      obtain ⟨was,form',reseted,deleted⟩ := frame sid live form
      exact ⟨was,form',reseted,deleted,iff_of_false (after live.1) (before was.1)⟩
    · rw [others p same] at form ⊢
      exact ⟨by simpa [Live,InUse,others p same] using live,form,rfl,rfl,Iff.rfl⟩

/-- A write that the processes inside `wait` do not feel. -/
theorem Unconcerned.setProc (k : Procs) (x : Int) {f : Context → Context} (valide : ∀ c, (f c).valide = c.valide)
    (frame : ∀ c sid, (f c).frame = .wait sid → c.frame = .wait sid)
    (sidWait : ∀ c, (f c).sidWait = c.sidWait) (reseted : ∀ c, (f c).sidReseted = c.sidReseted)
    (deleted : ∀ c, (f c).sidDeleted = c.sidDeleted)
    (waits : (f (k.tabProc x)).state = .waitSem ↔ (k.tabProc x).state = .waitSem)
    (ended : (f (k.tabProc x)).state ≠ .zombie → (f (k.tabProc x)).state ≠ .dead →
      (k.tabProc x).state ≠ .zombie ∧ (k.tabProc x).state ≠ .dead) :
    Unconcerned k.tabProc (k.setProc x f).tabProc := by
  refine ⟨fun p s => ?_,fun p sid live form => ?_⟩
  · by_cases same : p = x ∧ InTab x
    · obtain ⟨rfl,inTab⟩ := same
      simp [Blocked,InUse,inTab,valide,sidWait,waits]
    · simp [Blocked,InUse,same]
  · by_cases same : p = x ∧ InTab x
    · obtain ⟨rfl,inTab⟩ := same
      simp only [Live,InUse,Procs.setProc_tabProc,inTab,and_self,if_true,valide] at live form ⊢
      exact ⟨⟨⟨trivial,live.1.2⟩,ended live.2.1 live.2.2⟩,frame _ _ form,reseted _,deleted _,waits⟩
    · have kept : (k.setProc x f).tabProc p = k.tabProc p := by simp [same]
      rw [Live,InUse,kept] at live
      rw [kept] at form ⊢
      exact ⟨live,form,rfl,rfl,Iff.rfl⟩

theorem wakeup_unconcerned {k : Procs} {x : Int} (still : InUse k.tabProc x → (k.tabProc x).state ≠ .waitSem ∧
    (k.tabProc x).state ≠ .zombie ∧ (k.tabProc x).state ≠ .dead) :
    Unconcerned k.tabProc (wakeupProcess k x).tabProc := by
  by_cases used : InUse k.tabProc x
  · obtain ⟨still,alive⟩ := still used
    refine Unconcerned.update x (fun p other => by simp [other]) (fun _ => still) (by simp [used])
      (fun sid _ form => ⟨⟨used,alive⟩,by simpa using form,by simp,by simp⟩)
  · rw [wakeupProcess_unused used]; exact .refl _

theorem terminated_unconcerned {t : Int → Context} {pid : Int} (live : Live t pid) (notWaiting : (t pid).state ≠ .waitSem)
    (retval : Option Int) : Unconcerned t (terminated t pid retval) := by
  have state : ∀ q, (terminated t pid retval q).state = .waitSem ↔ (t q).state = .waitSem := by
    intro q
    by_cases same : q = pid
    · subst same
      refine iff_of_false (fun waits => ?_) notWaiting
      by_cases above : (t q).pidParent > 1 <;> simp [terminated,above] at waits
    · rcases terminated_state (t := t) retval same with ⟨_,zombie,dead⟩ | ⟨rfl,waits,woken⟩ | ⟨_,_,kept⟩
      · simp [zombie,dead]
      · simp [woken,waits.2.1]
      · rw [kept]
  refine ⟨fun p s => ?_,fun p sid after frame => ?_⟩
  · simp only [Blocked,terminated_inUse,state]
    rfl
  · exact ⟨((terminated_live retval p).mp after).1,frame,rfl,rfl,state p⟩

theorem created_unconcerned {k : Procs} {pid : Int} (unused : ¬ InUse k.tabProc pid) (priority : Int) :
    Unconcerned k.tabProc (created k pid priority) := by
  have others : ∀ p, p ≠ pid → (created k pid priority p).state = (k.tabProc p).state ∧
      (created k pid priority p).sidWait = (k.tabProc p).sidWait ∧
      (InUse (created k pid priority) p ↔ InUse k.tabProc p) := fun p other => by simp [created,other,InUse]
  refine ⟨fun p s => ?_,fun p sid after frame => ?_⟩
  · by_cases new : p = pid
    · subst new
      exact iff_of_false (fun blocked => by simp [Blocked,created,fresh] at blocked) (fun blocked => unused blocked.1)
    · obtain ⟨state,sid,inUse⟩ := others p new
      simp only [Blocked,state,sid,inUse]
  · by_cases new : p = pid
    · simp [created,fresh,new] at frame
    · obtain ⟨state,_,_⟩ := others p new
      refine ⟨(created_live p new).mp after,by simpa [created,new] using frame,by simp [created,new],
        by simp [created,new],by rw [state]⟩

theorem buried_unconcerned {k : Procs} (tree : Tree k.tabProc) (going : Going k) {child : Int}
    (reported : Reported lost k child) : Unconcerned k.tabProc (buried k child).tabProc := by
  rcases reported with ⟨_,rfl⟩ | ⟨_,zombie⟩
  · rw [buried_lost tree going.live]; exact .refl _
  · have first : Unconcerned k.tabProc (k.setProc child (fun c => { c with state := .dead })).tabProc :=
      .setProc k child (fun _ => rfl) (fun _ _ => id) (fun _ => rfl) (fun _ => rfl) (fun _ => rfl) (by simp [zombie])
        (by simp)
    exact first.trans (.setProc _ k.pidCour (fun _ => rfl) (fun _ _ => id) (fun _ => rfl) (fun _ => rfl) (fun _ => rfl)
      Iff.rfl (fun zombie dead => ⟨zombie,dead⟩))

/-! ### System calls outside `semaphore.c` -/

/-- A step that semaphores do not see. -/
structure Untouched (k k' : Kernel) : Prop where
  semaphores : k'.semaphores = k.semaphores
  sidLibres : k'.sidLibres = k.sidLibres
  semLog : k'.semLog = k.semLog
  processes : Unconcerned k.tabProc k'.tabProc

theorem Untouched.trans {k k' k'' : Kernel} (first : Untouched k k') (second : Untouched k' k'') : Untouched k k'' :=
  ⟨second.semaphores.trans first.semaphores,second.sidLibres.trans first.sidLibres,second.semLog.trans first.semLog,
    first.processes.trans second.processes⟩

/-- The process changes its frame to one that is not the end of `wait`. -/
private theorem frame_unconcerned (k : Procs) {frame : Frame} (notWait : ∀ sid, frame ≠ .wait sid) :
    Unconcerned k.tabProc (k.setProc k.pidCour (fun c => { c with frame := frame })).tabProc :=
  .setProc k _ (fun _ => rfl) (fun _ sid form => absurd form (notWait sid)) (fun _ => rfl) (fun _ => rfl)
    (fun _ => rfl) Iff.rfl (fun zombie dead => ⟨zombie,dead⟩)

theorem callScheduler_untouched {k : Kernel} (inside : Inside lost gone k.toProcs) {frame : Frame}
    (notWait : ∀ sid, frame ≠ .wait sid) : Untouched k (callScheduler k frame) := by
  obtain ⟨q,ready⟩ := inside.ready
  have done := scheduler_scheduled (ready.setProc k.pidCour (f := fun c => { c with frame := frame }) (fun _ => rfl)
    (fun _ => rfl) (fun _ => rfl))
  exact ⟨rfl,rfl,rfl,(frame_unconcerned k.toProcs notWait).trans (Dispatched.unconcerned done.dispatched)⟩

theorem sysret_untouched (k : Kernel) (ret : Option Int) : Untouched k (sysret k ret) :=
  ⟨rfl,rfl,rfl,frame_unconcerned k.toProcs (by simp)⟩

/-- A write that puts a process to sleep and leaves alone what `semaphore.c`
    keeps in it. -/
structure BlocksElsewhere (f : Context → Context) : Prop extends Blocks f where
  frame : ∀ c, (f c).frame = c.frame
  sidWait : ∀ c, (f c).sidWait = c.sidWait
  reseted : ∀ c, (f c).sidReseted = c.sidReseted
  deleted : ∀ c, (f c).sidDeleted = c.sidDeleted
  other : ∀ c, (f c).state ≠ .waitSem

theorem elsewhere_waitChild (pidWait : Int) :
    BlocksElsewhere (fun c => { c with state := .waitChild, pidWait := pidWait }) :=
  ⟨blocks_waitChild pidWait,fun _ => rfl,fun _ => rfl,fun _ => rfl,fun _ => rfl,fun _ => by simp⟩
theorem elsewhere_asleep (timer : Nat) : BlocksElsewhere (fun c => { c with state := .asleep, timer := timer }) :=
  ⟨blocks_asleep timer,fun _ => rfl,fun _ => rfl,fun _ => rfl,fun _ => rfl,fun _ => by simp⟩
theorem elsewhere_waitIo : BlocksElsewhere (fun c => { c with state := .waitIo }) :=
  ⟨blocks_waitIo,fun _ => rfl,fun _ => rfl,fun _ => rfl,fun _ => rfl,fun _ => by simp⟩

section
variable {k : Kernel} (inside : Inside lost gone k.toProcs) (going : Going k.toProcs)

theorem getprio_untouched (pid : Int) : Untouched k (getprio k pid) := by
  obtain ⟨_,called⟩ := getprio_sysret k pid
  rw [called]
  exact sysret_untouched k _

include inside going

theorem exit_untouched (retval : Int) : Untouched k (exit k retval) := by
  have first : Untouched k
      { k with toProcs := exitProcess k.toProcs retval, endLog := .exited k.pidCour retval :: k.endLog } := by
    refine ⟨rfl,rfl,rfl,?_⟩
    rw [exitProcess_tabProc inside.tree going.live]
    exact terminated_unconcerned going.live (by simp [going.active]) _
  exact first.trans (callScheduler_untouched (inside.exit going retval) (by simp))

omit going in
theorem kill_untouched {pid : Int} (notWaiting : 1 < pid → Live k.tabProc pid → (k.tabProc pid).state ≠ .waitSem)
    (heard : Live k.tabProc pid → Unheard k.tabProc pid → lost) : Untouched k (kill k pid) := by
  rcases kill_cases k pid with refused | ⟨positive,accepted,called⟩
  · rw [refused]
    exact sysret_untouched k _
  · have live := not_ended (by omega) accepted
    have notWaiting := notWaiting positive live
    have first : Untouched k { k with toProcs := killProcess k.toProcs pid, endLog := .killed pid :: k.endLog } := by
      refine ⟨rfl,rfl,rfl,?_⟩
      rw [killProcess_tabProc inside.tree live]
      exact terminated_unconcerned live notWaiting _
    rw [called,givenBack,if_neg notWaiting]
    exact first.trans (callScheduler_untouched (inside.kill live (fun waits any => heard live ⟨waits,any⟩)) (by simp))

theorem handlePfault_untouched (heard : Unheard k.tabProc k.pidCour → lost) : Untouched k (handlePfault k) := by
  unfold handlePfault
  split
  · exact callScheduler_untouched inside (by simp)
  · exact kill_untouched inside (fun _ _ => by simp [going.active]) (fun _ => heard)

theorem chprio_untouched (pid newprio : Int) : Untouched k (chprio k pid newprio) := by
  rcases chprio_cases k pid newprio with ⟨_,refused⟩ | ⟨positive,accepted,_,_,⟨_,called⟩ | called⟩
  · rw [refused]
    exact sysret_untouched k _
  · rw [called]
    exact callScheduler_untouched inside (by simp)
  · obtain ⟨inside',_⟩ := setPriority_inside inside going (not_ended positive accepted) newprio rfl
    have table : ∀ p : Procs, (if (p.tabProc pid).state = .activable then requeue p pid else p).tabProc = p.tabProc :=
      fun p => by split <;> simp
    let p := k.toProcs.setProc pid (fun c => { c with priority := newprio })
    have first : Untouched k
        { k with toProcs := if (p.tabProc pid).state = .activable then requeue p pid else p } := by
      refine ⟨rfl,rfl,rfl,?_⟩
      rw [table]
      exact .setProc k.toProcs pid (fun _ => rfl) (fun _ _ => id) (fun _ => rfl) (fun _ => rfl) (fun _ => rfl)
        Iff.rfl (fun zombie dead => ⟨zombie,dead⟩)
    rw [called]
    exact first.trans (callScheduler_untouched inside' (by simp))

theorem start_untouched (ssize : Nat) (prio : Int) {memory : Memory}
    (apart : ∀ pid, Takes k.tabProc ssize memory pid → ∀ n, ¬ gone pid n)
    (heard : ssize ≤ 0xffffffe7 → Stumbles k.tabProc memory → Unheard k.tabProc k.pidCour → lost) :
    Untouched k (start k ssize prio memory) := by
  rcases start_cases k ssize prio memory with ⟨_,refused⟩ | ⟨small,ends⟩
  · rw [refused]
    exact sysret_untouched k _
  · obtain ⟨inside',going',_⟩ := contextCreateUser_inside inside going prio
      (fun pid stack found => apart pid ⟨small,stack,found⟩)
    have first : Untouched k { k with toProcs := (contextCreateUser k.toProcs prio memory).1 } := by
      refine ⟨rfl,rfl,rfl,?_⟩
      obtain ⟨q,ready⟩ := inside.ready
      rcases contextCreateUser_cases ready.cour prio memory with ⟨_,same⟩ | ⟨pid,found,_,⟨_,same⟩ | ⟨_,same⟩⟩
      · rw [same]; exact .refl _
      · obtain ⟨_,unused⟩ := freePid_unused found
        rw [same]
        refine .update pid (fun p other => by simp [other]) (fun used => absurd used unused) (fun used => ?_)
          (fun sid live _ => ?_)
        · exact absurd (by simpa [InUse,givenUp] using used) unused
        · exact absurd (by simpa [InUse,givenUp] using live.1) unused
      · obtain ⟨_,unused⟩ := freePid_unused found
        rw [same,created_wakeup]
        exact created_unconcerned unused prio
    rcases ends with ⟨_,_,_,called⟩ | ⟨_,_,_,called⟩ | ⟨fault,called⟩
    · rw [called]
      exact first.trans (callScheduler_untouched inside' (by simp))
    · rw [called]
      exact first.trans (sysret_untouched _ _)
    · rw [called]
      exact first.trans (handlePfault_untouched inside' going' (stumbles_heard going.live.1 fault (heard small)))

theorem reap_untouched {child : Int} (retvalp : Nat) (reported : Reported lost k.toProcs child)
    (heard : retvalp ≠ 0 → ¬ Mapped retvalp → Unheard k.tabProc k.pidCour → lost) :
    Untouched k (reap k child retvalp) := by
  have first : ∀ mem endLog, Untouched k { k with toProcs := buried k.toProcs child, mem := mem, endLog := endLog } :=
    fun _ _ => ⟨rfl,rfl,rfl,buried_unconcerned inside.tree going reported⟩
  unfold reap
  split
  · rename_i faulty
    exact handlePfault_untouched inside going (heard faulty.1 faulty.2)
  · dsimp only
    split
    · exact (first _ _).trans (sysret_untouched _ _)
    · exact (first _ _).trans (sysret_untouched _ _)

/-- The current process blocks for another reason than a semaphore. -/
theorem block_untouched {f : Context → Context} (blocks : BlocksElsewhere f) {form : Frame}
    (notWait : ∀ sid, form ≠ .wait sid) : Untouched k (callScheduler (k.setProc k.pidCour f) form) := by
  have blocked := inside.block going blocks.toBlocks
  have first : Untouched k (k.setProc k.pidCour f) :=
    ⟨rfl,rfl,rfl,.setProc k.toProcs _ blocks.valide (fun c sid form => blocks.frame c ▸ form) blocks.sidWait
      blocks.reseted blocks.deleted (by simp [blocks.other,going.active]) (fun _ _ => by simp [going.active])⟩
  exact first.trans (callScheduler_untouched blocked notWait)

theorem waitpid_untouched (pid : Int) (retvalp : Nat)
    (heard : (∃ child, Finds k.toProcs pid child) → checkPointer retvalp ≠ 0 → ¬ Mapped (checkPointer retvalp) →
      Unheard k.tabProc k.pidCour → lost) : Untouched k (waitpid k pid retvalp) := by
  have sleep : ∀ pidWait frame, (∀ sid, frame ≠ .wait sid) → Untouched k (waitChild k pidWait frame) :=
    fun pidWait _ notWait => block_untouched inside going (elsewhere_waitChild pidWait) notWait
  rcases waitpid_cases k pid retvalp with ⟨_,_,same⟩ | ⟨child,finds,same⟩ | ⟨_,_,same⟩ | ⟨_,_,_,same⟩
  · rw [same]; exact sysret_untouched k _
  · rw [same]; exact reap_untouched inside going _ (.inr ⟨finds.member,finds.zombie⟩) (heard ⟨child,finds⟩)
  · rw [same]; exact sleep _ _ (by simp)
  · rw [same]; exact sleep _ _ (by simp)

end

end Psys.Waiting
