import Psys.Keyboard
import Psys.SemSteps

/-!
Readers that a key has woken up in `buffer_pop`. They take a byte without
another look at the buffer, which must not run empty before they get the
processor back.
-/
namespace Psys.Readers
open Psys.State Psys.Context Psys.Sys Psys.Semaphore Psys.Devices Psys.System Psys.ProcQueue Psys.Family Psys.Termination
open Psys.Processes Psys.Creation Psys.Calls Psys.Waiting Psys.Inputs Psys.SemCalls Psys.Invariant Psys.SemSteps
open Psys.Registration Psys.Keyboard
open Psys.InputBuffer (RingBuffer pop push unpush)
open Psys.Runs (run reach_of_run)

/-- A process has been woken up inside `buffer_pop` on the console `v`. -/
structure Woken (t : Int → Context) (v p : Int) : Prop where
  used : InUse t p
  runs : Runnable (t p).state
  reading : Reading v (t p).frame

theorem not_reading {frame : Frame} (other : ∀ v buf len left, frame ≠ .consRead v buf len left) (v : Int) :
    ¬ Reading v frame := by
  rintro ⟨buf,len,left,same⟩
  exact other v buf len left same

/-! ### Tables in which nobody is woken up -/

/-- A process has not been woken up in `buffer_pop`. -/
def Still (c c' : Context) : Prop :=
  c'.valide = true → (∃ v, Reading v c'.frame) → ¬ Over c'.state →
    c.valide = true ∧ c'.frame = c.frame ∧ (c'.state = c.state ∨ Runnable c.state ∧ Runnable c'.state)

/-- None of the processes but the current one has been woken up in `buffer_pop`. -/
def Calm (k k' : Procs) : Prop := ∀ p, p ≠ k.pidCour → Still (k.tabProc p) (k'.tabProc p)

theorem Still.refl (c : Context) : Still c c := fun valide _ _ => ⟨valide,rfl,.inl rfl⟩

theorem Still.trans {c c' c'' : Context} (first : Still c c') (second : Still c' c'') : Still c c'' := by
  intro valide reading alive
  obtain ⟨valide',frame',state'⟩ := second valide reading alive
  have alive' : ¬ Over c'.state := by
    rcases state' with same | ⟨runs,_⟩
    · exact same ▸ alive
    · exact fun finished => finished.still runs
  obtain ⟨valide,frame,state⟩ := first valide' (frame' ▸ reading) alive'
  refine ⟨valide,frame'.trans frame,?_⟩
  rcases state' with same' | ⟨runs',runs''⟩
  · rw [same']
    exact state
  · rcases state with same | ⟨runs,_⟩
    · exact .inr ⟨same ▸ runs',runs''⟩
    · exact .inr ⟨runs,runs''⟩

theorem Still.over {c c' : Context} (finished : Over c'.state) : Still c c' := fun _ _ alive => absurd finished alive

theorem Still.elsewhere {c c' : Context} (outside : ∀ v, ¬ Reading v c'.frame) : Still c c' := by
  intro _ reading _
  obtain ⟨v,reading⟩ := reading
  exact absurd reading (outside v)

theorem Still.same {c c' : Context} (valide : c'.valide = c.valide) (frame : c'.frame = c.frame)
    (state : c'.state = c.state) : Still c c' := fun used _ _ => ⟨valide ▸ used,frame,.inl state⟩

theorem Calm.refl (k : Procs) : Calm k k := fun _ _ => .refl _

theorem Calm.trans {k k' k'' : Procs} (first : Calm k k') (cour : k'.pidCour = k.pidCour) (second : Calm k' k'') :
    Calm k k'' := fun p other => (first p other).trans (second p (cour ▸ other))

/-- The scheduler wakes nobody up. -/
theorem Dispatched.still {t t' : Int → Context} (dispatched : Dispatched t t') (p : Int) : Still (t p) (t' p) := by
  intro valide _ _
  have frame : (t' p).frame = (t p).frame := (congrArg Context.frame (dispatched.same p) :)
  refine ⟨?_,frame,dispatched.state p⟩
  rcases dispatched.valide p with same | ⟨freed,_⟩
  · exact same ▸ valide
  · simp [freed] at valide

variable {lost : Prop} {gone : Int → Nat → Prop} {k : Kernel}

/-- A process that sleeps for another reason is not inside `buffer_pop`. -/
theorem asleep_elsewhere {k : Procs} (inside : Inside lost gone k) {x : Int} (other : x ≠ k.pidCour)
    (used : InUse k.tabProc x)
    (state : (k.tabProc x).state = .waitChild ∨ (k.tabProc x).state = .asleep ∨ (k.tabProc x).state = .waitSem) (v : Int) :
    ¬ Reading v (k.tabProc x).frame := by
  rintro ⟨buf,len,left,frame⟩
  have live : Live k.tabProc x := by
    refine ⟨used,?_,?_⟩ <;> rcases state with state | state | state <;> simp [state]
  have holds := (inside.settled x other).holds live
  rw [frame] at holds
  rcases state with state | state | state <;> simp [Holds,state,Runnable] at holds

/-- A step after which nobody has been woken up in `buffer_pop`. -/
structure Quiets (k k' : Kernel) : Prop where
  woken : ∀ v p, Woken k'.tabProc v p → p ≠ k.pidCour ∧ Woken k.tabProc v p
  buf : ∀ v, (k'.virtualConsoles v).buf = (k.virtualConsoles v).buf

theorem Still.woken {t t' : Int → Context} {v p : Int} (still : Still (t p) (t' p)) (woken : Woken t' v p) :
    Woken t v p := by
  obtain ⟨valide,frame,state⟩ := still woken.used.2 ⟨v,woken.reading⟩ (fun finished => finished.still woken.runs)
  refine ⟨⟨woken.used.1,valide⟩,?_,frame ▸ woken.reading⟩
  rcases state with same | ⟨runs,_⟩
  · exact same ▸ woken.runs
  · exact runs

/-- A kernel on the way of a step of `k`, before its last writes. -/
structure Between (k l : Kernel) : Prop where
  calm : Calm k.toProcs l.toProcs
  cour : l.pidCour = k.pidCour
  buf : ∀ v, (l.virtualConsoles v).buf = (k.virtualConsoles v).buf

theorem Between.refl (k : Kernel) : Between k k := ⟨.refl _,rfl,fun _ => rfl⟩

theorem Between.trans {l m : Kernel} (first : Between k l) (second : Between l m) : Between k m :=
  ⟨first.calm.trans first.cour second.calm,second.cour.trans first.cour,
    fun v => (second.buf v).trans (first.buf v)⟩

/-- The rest of the kernel has changed as well. -/
theorem Between.of_calm {l : Kernel} (calm : Calm k.toProcs l.toProcs) (cour : l.pidCour = k.pidCour)
    (consoles : l.virtualConsoles = k.virtualConsoles) : Between k l := ⟨calm,cour,fun v => by rw [consoles]⟩

theorem Between.quiets {l k' : Kernel} (between : Between k l) (quiets : Quiets l k') : Quiets k k' := by
  refine ⟨fun v p woken => ?_,fun v => (quiets.buf v).trans (between.buf v)⟩
  obtain ⟨other,woken⟩ := quiets.woken v p woken
  rw [between.cour] at other
  exact ⟨other,(between.calm p other).woken woken⟩

/-- The current process leaves `buffer_pop`. -/
theorem frame_woken {frame : Frame} (outside : ∀ v, ¬ Reading v frame) {v p : Int}
    (woken : Woken (k.toProcs.setProc k.pidCour (fun c => { c with frame := frame })).tabProc v p) :
    p ≠ k.pidCour ∧ Woken k.tabProc v p := by
  have other : p ≠ k.pidCour := by
    rintro rfl
    have inTab := woken.used.1
    exact outside v (by simpa [inTab] using woken.reading)
  have kept : (k.toProcs.setProc k.pidCour (fun c => { c with frame := frame })).tabProc p = k.tabProc p := by
    simp [other]
  obtain ⟨used,runs,reading⟩ := woken
  rw [InUse,kept] at used
  rw [kept] at runs reading
  exact ⟨other,used,runs,reading⟩

theorem callScheduler_quiets (inside : Inside lost gone k.toProcs) {frame : Frame} (outside : ∀ v, ¬ Reading v frame) :
    Quiets k (callScheduler k frame) := by
  obtain ⟨q,ready⟩ := inside.ready
  have done := scheduler_scheduled (ready.setProc k.pidCour (f := fun c => { c with frame := frame }) (fun _ => rfl)
    (fun _ => rfl) (fun _ => rfl))
  refine ⟨fun v p woken => ?_,fun _ => rfl⟩
  exact frame_woken outside (Still.woken (Dispatched.still done.dispatched p) woken)

theorem sysret_quiets (k : Kernel) (ret : Option Int) : Quiets k (sysret k ret) :=
  ⟨fun _ _ woken => frame_woken (not_reading (by simp)) woken,fun _ => rfl⟩

/-! ### Writes to the table -/

theorem setProc_calm (k : Procs) (x : Int) {f : Context → Context}
    (still : x ≠ k.pidCour → Still (k.tabProc x) (f (k.tabProc x))) : Calm k (k.setProc x f) := by
  intro p other
  by_cases same : p = x ∧ InTab x
  · obtain ⟨rfl,inTab⟩ := same
    simpa [inTab] using still other
  · have kept : (k.setProc x f).tabProc p = k.tabProc p := by simp [same]
    rw [kept]
    exact .refl _

/-- The current process may do to itself what it likes. -/
theorem own_calm (k : Procs) (f : Context → Context) : Calm k (k.setProc k.pidCour f) :=
  setProc_calm k _ (fun other => absurd rfl other)

theorem wakeup_calm (k : Procs) (x : Int)
    (outside : x ≠ k.pidCour → InUse k.tabProc x → ∀ v, ¬ Reading v (k.tabProc x).frame) : Calm k (wakeupProcess k x) := by
  intro p other
  by_cases used : p = x ∧ InUse k.tabProc x
  · obtain ⟨rfl,used⟩ := used
    exact .elsewhere (by simpa using outside other used)
  · rw [wakeupProcess_tabProc,if_neg used]
    exact .refl _

/-- The end of a process wakes up nobody but a father in `waitpid`. -/
theorem terminated_still {k : Procs} (inside : Inside lost gone k) {pid : Int} (live : Live k.tabProc pid)
    (retval : Option Int) {q : Int} (other : q ≠ k.pidCour) : Still (k.tabProc q) (terminated k.tabProc pid retval q) := by
  by_cases same : q = pid
  · apply Still.over
    by_cases above : (k.tabProc pid).pidParent > 1 <;> simp [terminated,same,above,Over]
  · rcases terminated_state (t := k.tabProc) retval same with ⟨_,_,dead⟩ | ⟨rfl,waits,_⟩ | ⟨_,_,kept⟩
    · exact .over (.inr dead)
    · have father := father_live inside.tree live waits
      exact .elsewhere (asleep_elsewhere inside other father.1 (.inl waits.2.1))
    · exact .same rfl rfl kept

/-! ### The system calls -/

section
variable (inside : Inside lost gone k.toProcs) (going : Going k.toProcs)

theorem getprio_quiets (k : Kernel) (pid : Int) : Quiets k (getprio k pid) := by
  obtain ⟨_,called⟩ := getprio_sysret k pid
  rw [called]
  exact sysret_quiets k _

include inside going

theorem exit_quiets (retval : Int) : Quiets k (exit k retval) := by
  have ended : Between k
      { k with toProcs := exitProcess k.toProcs retval, endLog := .exited k.pidCour retval :: k.endLog } := by
    refine .of_calm (fun q other => ?_) (exitProcess_pidCour _ _) rfl
    rw [exitProcess_tabProc inside.tree going.live]
    exact terminated_still inside going.live _ other
  exact ended.quiets (callScheduler_quiets (inside.exit going retval) (not_reading (by simp)))

omit going in
theorem kill_quiets (pid : Int) (heard : Live k.tabProc pid → Unheard k.tabProc pid → lost) : Quiets k (kill k pid) := by
  rcases kill_cases k pid with refused | ⟨positive,accepted,called⟩
  · rw [refused]
    exact sysret_quiets k _
  · have live := not_ended (by omega) accepted
    have killed := inside.kill live (fun waits any => heard live ⟨waits,any⟩)
    have calm : Calm k.toProcs (killProcess k.toProcs pid) := by
      intro q other
      rw [killProcess_tabProc inside.tree live]
      exact terminated_still inside live _ other
    rw [called]
    refine Between.quiets ?_ (callScheduler_quiets killed (not_reading (by simp)))
    exact .of_calm calm (killProcess_pidCour _ _) rfl

omit going in
theorem handlePfault_quiets (heard : Unheard k.tabProc k.pidCour → lost) : Quiets k (handlePfault k) := by
  unfold handlePfault
  split
  · exact callScheduler_quiets inside (not_reading (by simp))
  · exact kill_quiets inside _ (fun _ => heard)

theorem chprio_quiets (pid newprio : Int) : Quiets k (chprio k pid newprio) := by
  rcases chprio_cases k pid newprio with ⟨_,refused⟩ | ⟨positive,accepted,_,_,⟨_,called⟩ | called⟩
  · rw [refused]
    exact sysret_quiets k _
  · rw [called]
    exact callScheduler_quiets inside (not_reading (by simp))
  · obtain ⟨inside',_⟩ := setPriority_inside inside going (not_ended positive accepted) newprio rfl
    rw [called]
    refine Between.quiets ?_ (callScheduler_quiets inside' (not_reading (by simp)))
    have written : Calm k.toProcs (k.toProcs.setProc pid (fun c => { c with priority := newprio })) :=
      setProc_calm _ _ (fun _ => .same rfl rfl rfl)
    split
    · refine .of_calm (fun q other => ?_) (by simp) rfl
      rw [requeue_tabProc]
      exact written q other
    · exact .of_calm written rfl rfl

theorem start_quiets (ssize : Nat) (prio : Int) {memory : Memory}
    (apart : ∀ pid, Takes k.tabProc ssize memory pid → ∀ n, ¬ gone pid n)
    (heard : ssize ≤ 0xffffffe7 → Stumbles k.tabProc memory → Unheard k.tabProc k.pidCour → lost) :
    Quiets k (start k ssize prio memory) := by
  rcases start_cases k ssize prio memory with ⟨_,refused⟩ | ⟨small,ends⟩
  · rw [refused]
    exact sysret_quiets k _
  · obtain ⟨inside',_,cour⟩ := contextCreateUser_inside inside going prio
      (fun pid stack found => apart pid ⟨small,stack,found⟩)
    have created : Between k { k with toProcs := (contextCreateUser k.toProcs prio memory).1 } := by
      refine .of_calm ?_ (contextCreateUser_pidCour _ _ _) rfl
      obtain ⟨q,ready⟩ := inside.ready
      rcases contextCreateUser_cases ready.cour prio memory with ⟨_,same⟩ | ⟨pid,found,_,⟨_,same⟩ | ⟨_,same⟩⟩
      · rw [same]
        exact .refl _
      · obtain ⟨inTab,unused⟩ := freePid_unused found
        rw [same]
        refine setProc_calm _ _ (fun _ valide => ?_)
        exact absurd ⟨inTab,valide⟩ unused
      · rw [same]
        intro p _
        rw [created_wakeup]
        by_cases new : p = pid
        · exact .elsewhere (by simp [created,fresh,new,Reading])
        · exact .same (by simp [created,new]) (by simp [created,new]) (by simp [created,new])
    rcases ends with ⟨_,_,_,called⟩ | ⟨_,_,_,called⟩ | ⟨fault,called⟩
    · rw [called]
      exact created.quiets (callScheduler_quiets inside' (not_reading (by simp)))
    · rw [called]
      exact created.quiets (sysret_quiets _ _)
    · rw [called]
      exact created.quiets (handlePfault_quiets inside' (stumbles_heard going.live.1 fault (heard small)))

omit going in
theorem reap_quiets (child : Int) (retvalp : Nat)
    (heard : retvalp ≠ 0 → ¬ Mapped retvalp → Unheard k.tabProc k.pidCour → lost) : Quiets k (reap k child retvalp) := by
  unfold reap
  split
  · rename_i faulty
    exact handlePfault_quiets inside (heard faulty.1 faulty.2)
  · dsimp only
    have buried : Calm k.toProcs (buried k.toProcs child) := by
      have dead : Calm k.toProcs (k.toProcs.setProc child (fun c => { c with state := .dead })) :=
        setProc_calm _ _ (fun _ => .over (.inr rfl))
      exact Calm.trans dead rfl (own_calm _ _)
    split
    · refine Between.quiets ?_ (sysret_quiets _ _)
      exact .of_calm buried rfl rfl
    · refine Between.quiets ?_ (sysret_quiets _ _)
      exact .of_calm buried rfl rfl

/-- The current process blocks for another reason than the keyboard. -/
theorem block_quiets {f : Context → Context} (blocks : Blocks f) {frame : Frame}
    (outside : ∀ v, ¬ Reading v frame) : Quiets k (callScheduler (k.setProc k.pidCour f) frame) := by
  have blocked := inside.block going blocks
  refine Between.quiets ?_ (callScheduler_quiets blocked outside)
  exact .of_calm (own_calm _ _) rfl rfl

theorem waitpid_quiets (pid : Int) (retvalp : Nat)
    (heard : (∃ child, Finds k.toProcs pid child) → checkPointer retvalp ≠ 0 → ¬ Mapped (checkPointer retvalp) →
      Unheard k.tabProc k.pidCour → lost) : Quiets k (waitpid k pid retvalp) := by
  have sleep : ∀ pidWait frame, (∀ v, ¬ Reading v frame) → Quiets k (waitChild k pidWait frame) :=
    fun pidWait _ outside => block_quiets inside going (blocks_waitChild pidWait) outside
  rcases waitpid_cases k pid retvalp with ⟨_,_,same⟩ | ⟨child,finds,same⟩ | ⟨_,_,same⟩ | ⟨_,_,_,same⟩
  · rw [same]
    exact sysret_quiets k _
  · rw [same]
    exact reap_quiets inside _ _ (heard ⟨child,finds⟩)
  · rw [same]
    exact sleep _ _ (not_reading (by simp))
  · rw [same]
    exact sleep _ _ (not_reading (by simp))

theorem waitClock_quiets (clock : Nat) : Quiets k (waitClock k clock) :=
  block_quiets inside going (blocks_asleep (ulong clock)) (not_reading (by simp))

end

/-- The clock interrupt wakes up processes that sleep until a tick. -/
theorem wakeSleepers_calm (n : Nat) (sleepers : List Int) : ∀ l : Procs, (∀ pid ∈ sleepers, InTab pid) →
    Inputs.Served lost gone k.toProcs l → Calm k.toProcs l → Calm k.toProcs (sleepers.foldl (wakeSleeper n) l) := by
  induction sleepers with
  | nil => exact fun _ _ _ calm => calm
  | cons pid rest ih =>
    intro l inTab served calm
    refine ih _ (fun p member => inTab p (by simp [member])) (wakeSleeper_served served (inTab pid (by simp)) n) ?_
    unfold wakeSleeper
    split
    · rename_i due
      refine calm.trans served.cour (wakeup_calm l pid (fun other used => ?_))
      exact asleep_elsewhere served.inside other used (.inr (.inl due.2.1))
    · exact calm

theorem int32_quiets (stable : Stable lost gone k) (mode : k.inKernel = false) : Quiets k (int32 k) := by
  let k' : Kernel := { k with nbInterrupt := ulong (k.nbInterrupt + 1) }
  have start : Inputs.Served lost gone k'.toProcs k'.toProcs := ⟨stable.toInside,stable.going mode,rfl,.refl _⟩
  have served := updateTimer_served start
  have woken : Between k (updateTimer k') :=
    .of_calm (wakeSleepers_calm (k := k') k'.nbInterrupt pids _ (fun pid => (mem_pids pid).mp) start (.refl _)) served.cour rfl
  exact woken.quiets (callScheduler_quiets served.inside (not_reading (by simp)))

section
variable (inside : Inside lost gone k.toProcs) (going : Going k.toProcs) (counted : Counted k)

theorem tryWait_quiets (k : Kernel) (sid : Int) : Quiets k (tryWait k sid) := by
  unfold tryWait
  split
  · exact sysret_quiets k _
  · split
    · refine Between.quiets ?_ (sysret_quiets _ _)
      exact .of_calm (.refl _) rfl rfl
    · exact sysret_quiets k _

theorem scount_quiets (k : Kernel) (sid : Int) : Quiets k (scount k sid) := by
  obtain ⟨_,called⟩ := scount_sysret k sid
  rw [called]
  exact sysret_quiets k _

theorem waitResume_quiets (k : Kernel) : Quiets k (waitResume k) := by
  rcases waitResume_cases k with ⟨_,called⟩ | ⟨_,called⟩
  · rw [called]
    refine Between.quiets ?_ (sysret_quiets _ _)
    exact .of_calm (own_calm k.toProcs (fun c => { c with sidReseted := false })) rfl rfl
  · rw [called]
    exact sysret_quiets k _

include counted in
theorem screate_quiets (compteur : Int) (memory : Bool) : Quiets k (screate k compteur memory) := by
  rcases screate_cases counted compteur memory with ⟨r,_,same⟩ | ⟨sid,libres,_,_,r,same⟩
  · rw [same]
    exact sysret_quiets k _
  · rw [same]
    refine Between.quiets ?_ (sysret_quiets _ _)
    cases memory <;> exact .of_calm (.refl _) rfl rfl

include inside going

theorem wait_quiets (sid : Int) : Quiets k (wait k sid) := by
  unfold wait
  split
  · exact sysret_quiets k _
  · split
    · exact sysret_quiets k _
    · dsimp only
      split
      · have blocked := inside.block going (blocks_waitSem sid)
        refine Between.quiets ?_ (callScheduler_quiets (show Inside lost gone _ from blocked) (not_reading (by simp)))
        exact .of_calm (own_calm k.toProcs (fun c => { c with state := .waitSem, sidWait := sid })) rfl rfl
      · refine Between.quiets ?_ (sysret_quiets _ _)
        exact .of_calm (.refl _) rfl rfl

include counted

/-- The units of `signal` and `signaln` wake up processes that wait on the semaphore. -/
theorem signalLoop_between {sid : Int} (used : SemInUse k.semaphores sid) (count : Nat)
    (room : (k.semaphores sid).c + count ≤ SHRT_MAX) : Between k (signalLoop sid count k) := by
  refine signalLoop_invariant (P := fun _ l => Between k l) ?_ count inside going counted used room (.refl k)
  intro _ l inside going counted used most between
  rcases signalOne_cases counted used most with ⟨_,_,same⟩ | ⟨rest,pid,form,_,same⟩
  · rw [same]
    exact between.trans (.of_calm (.refl _) rfl rfl)
  · have blocked := (counted.waiting sid used pid).mp (by simp [form])
    rw [same]
    refine between.trans (.of_calm (wakeup_calm _ _ (fun other used => ?_)) (wakeupProcess_pidCour _ _) rfl)
    exact asleep_elsewhere inside other used (.inr (.inr blocked.2.1))

theorem signal_quiets (sid : Int) : Quiets k (signal k sid) := by
  rcases signal_cases k sid with ⟨_,refused⟩ | ⟨used,notMost,ends⟩
  · rw [refused]
    exact sysret_quiets k _
  · have range := counted.range sid used
    obtain ⟨served,_⟩ := signalOne_served inside going counted used (by omega)
    have given := signalLoop_between inside going counted used 1 (by omega)
    rcases ends with ⟨_,called⟩ | ⟨_,called⟩
    · rw [called]
      exact given.quiets (callScheduler_quiets served.inside (not_reading (by simp)))
    · rw [called]
      exact given.quiets (sysret_quiets _ _)

theorem signaln_quiets (sid count : Int) : Quiets k (signaln k sid count) := by
  have most := (short_range count).2
  rcases signaln_cases k sid count with ⟨_,refused⟩ | ⟨used,positive,room,called⟩
  · rw [refused]
    exact sysret_quiets k _
  · have fits : (k.semaphores sid).c + (short count).toNat ≤ SHRT_MAX := by omega
    have served := signalLoop_served (short count).toNat inside going counted used fits
    have given := signalLoop_between inside going counted used _ fits
    rw [called]
    exact given.quiets (callScheduler_quiets served.inside (not_reading (by simp)))

omit going counted in
/-- `sreset` and `sdelete` wake up the processes that wait on the semaphore. -/
theorem emptied_between {sid : Int} {cause : Cause} {mark : Context → Context} {l k' : Kernel}
    (emptied : Emptied lost gone l sid cause mark k') (procs : l.toProcs = k.toProcs)
    (blocked : ∀ p ∈ (l.semaphores sid).procWait, Blocked k.tabProc p sid) (only : Mark mark)
    (consoles : k'.virtualConsoles = k.virtualConsoles) : Between k k' := by
  refine .of_calm (fun p other => ?_) (emptied.cour.trans (by rw [procs])) consoles
  rw [emptied.tabProc,procs]
  split
  · rename_i member
    have waits := blocked p member
    have frame : (mark (k.tabProc p)).frame = (k.tabProc p).frame := (congrArg Context.frame (only.only _) :)
    refine .elsewhere (fun v => ?_)
    simp only [frame]
    exact asleep_elsewhere inside other waits.1 (.inr (.inr waits.2.1)) v
  · exact .refl _

omit inside going counted in
theorem dismissAll_consoles (k : Kernel) (sid : Int) (cause : Cause) (mark : Context → Context) :
    (dismissAll k sid cause mark).virtualConsoles = k.virtualConsoles := by
  have fold : ∀ (waiting : List Int) (l : Kernel),
      (waiting.foldl (dismiss sid cause mark) l).virtualConsoles = l.virtualConsoles := by
    intro waiting
    induction waiting with
    | nil => exact fun _ => rfl
    | cons pid rest ih => exact fun l => (ih _).trans rfl
  exact fold _ _

theorem sreset_quiets (sid count : Int) : Quiets k (sreset k sid count) := by
  rcases sreset_cases k sid count with ⟨_,same⟩ | ⟨used,_,same⟩
  · rw [same]
    exact sysret_quiets k _
  · let k' := k.setSem sid (fun s => { s with c := short count })
    have list : (k'.semaphores sid).procWait = (k.semaphores sid).procWait := by simp [k']
    have waits : ∀ p ∈ (k'.semaphores sid).procWait, Blocked k.tabProc p sid := fun p => by
      rw [list]
      exact (counted.waiting sid used p).mp
    have emptied := dismissAll_emptied (k := k') markReseted_mark .sreset inside going
      (by rw [list]; exact counted.nodup sid used) waits
    have between := emptied_between inside emptied rfl waits markReseted_mark (dismissAll_consoles k' _ _ _)
    rw [same]
    exact between.quiets (callScheduler_quiets emptied.inside (not_reading (by simp)))

theorem sdelete_quiets (sid : Int) : Quiets k (sdelete k sid) := by
  rcases sdelete_cases k sid with ⟨_,same⟩ | ⟨used,same⟩
  · rw [same]
    exact sysret_quiets k _
  · have waits : ∀ p ∈ (k.semaphores sid).procWait, Blocked k.tabProc p sid := fun p => (counted.waiting sid used p).mp
    have emptied := dismissAll_emptied markDeleted_mark .sdelete inside going (counted.nodup sid used) waits
    have between := emptied_between inside emptied rfl waits markDeleted_mark (dismissAll_consoles k _ _ _)
    have closed : Inside lost gone (closed (dismissAll k sid .sdelete markDeleted) sid).toProcs := emptied.inside
    rw [same]
    refine Between.quiets ?_ (callScheduler_quiets closed (not_reading (by simp)))
    exact ⟨between.calm,between.cour,between.buf⟩

end

/-! ### Reading and typing -/

/-- A turn of the loop of `cons_read` that takes a byte, and the turns after
    it, which `rest` tells of, leave the buffer empty. -/
def Turn (buf len : Nat) (r : RingBuffer) (left : Nat) (rest : RingBuffer → Prop) : Prop :=
  if (pop r).1 = 10 ∨ ¬ Mapped (buf + (len - (left + 1))) then (pop r).2.inSize = 0 else rest (pop r).2

/-- The loop of `cons_read`, with `left` of its `len` bytes to read, leaves the
    buffer empty. -/
def Exhausts (buf len : Nat) : Nat → RingBuffer → Prop
  | 0, r => r.inSize = 0
  | left + 1, r => r.inSize = 0 ∨ Turn buf len r left (Exhausts buf len left)

/-- The steps that leave the buffer of the console `v` empty. -/
def Drains (k : Kernel) : Event → Int → Prop
  | .key key, v => v = k.vcCurrent ∧ Devices.translate key = 8 ∧ (k.virtualConsoles v).buf.inSize = 1
  | .call (.consRead buf len), v =>
    v = (k.tabProc k.pidCour).stdout - 100 ∧ Exhausts (checkPointer buf) len len (k.virtualConsoles v).buf
  | .resume, v => k.pidCour ≠ 0 ∧ ∃ buf len left, (k.tabProc k.pidCour).frame = .consRead v buf len left ∧
    Turn buf len (k.virtualConsoles v).buf left (Exhausts buf len left)
  | _, _ => False

/-- The steps that leave no buffer empty for another process which has been
    woken up to read it. -/
def Patient (k : Kernel) (e : Event) : Prop :=
  ∀ v p, IsConsole v → Drains k e v → p ≠ k.pidCour → ¬ Woken k.tabProc v p

/-- The keys that wake up no reader of another console. -/
def Aimed (k : Kernel) : Event → Prop
  | .key key => ∀ p, Wakes k key p → (k.tabProc p).state = .waitIo → Reading k.vcCurrent (k.tabProc p).frame
  | _ => True

/-- The steps after which every reader that has been woken up finds a byte. -/
def Careful (k : Kernel) (e : Event) : Prop := Safe k e ∧ Aimed k e ∧ Patient k e

/-- What reading the console `v` leaves; it may be empty only if `empties`. -/
structure Reads (k : Kernel) (v : Int) (empties : Prop) (k' : Kernel) : Prop where
  woken : ∀ u p, Woken k'.tabProc u p → p ≠ k.pidCour ∧ Woken k.tabProc u p
  others : ∀ u, u ≠ v → (k'.virtualConsoles u).buf = (k.virtualConsoles u).buf
  size : IsConsole v → (k'.virtualConsoles v).buf.inSize ≤ (k.virtualConsoles v).buf.inSize
  empty : IsConsole v → (k'.virtualConsoles v).buf.inSize = 0 → empties

theorem pop_size {r : RingBuffer} (some : r.inSize ≠ 0) (room : r.inSize ≤ InputBuffer.INPUT_BUFFER_SIZE) :
    (pop r).2.inSize = r.inSize - 1 := by
  simp only [InputBuffer.INPUT_BUFFER_SIZE] at room
  simp only [pop]
  omega

/-- The current process has taken a byte. -/
theorem Quiets.reads {l m k' : Kernel} {v : Int} {empties : Prop} (quiets : Quiets m k') (procs : m.toProcs = l.toProcs)
    (others : ∀ u, u ≠ v → (m.virtualConsoles u).buf = (l.virtualConsoles u).buf)
    (size : IsConsole v → (m.virtualConsoles v).buf.inSize ≤ (l.virtualConsoles v).buf.inSize)
    (empty : IsConsole v → (m.virtualConsoles v).buf.inSize = 0 → empties) : Reads l v empties k' := by
  refine ⟨fun u p woken => ?_,fun u other => (quiets.buf u).trans (others u other),fun inside => ?_,fun inside => ?_⟩
  · simpa only [procs] using quiets.woken u p woken
  · rw [quiets.buf]
    exact size inside
  · rw [quiets.buf]
    exact empty inside

theorem takeByte_reads {l : Kernel} (inside : Inside lost gone l.toProcs)
    (heard : Unheard l.tabProc l.pidCour → lost) (v : Int) (buf len left : Nat) {loop : Kernel → Kernel}
    {rest : RingBuffer → Prop}
    (filled : IsConsole v → (l.virtualConsoles v).buf.inSize ≠ 0 ∧
      (l.virtualConsoles v).buf.inSize ≤ InputBuffer.INPUT_BUFFER_SIZE)
    (goes : ∀ m : Kernel, m.toProcs = l.toProcs → (IsConsole v → (m.virtualConsoles v).buf.inSize ≤
      InputBuffer.INPUT_BUFFER_SIZE) → Reads m v (rest (m.virtualConsoles v).buf) (loop m)) :
    Reads l v (Turn buf len (l.virtualConsoles v).buf left rest) (takeByte l v buf len left loop) := by
  let m := l.setConsole v (fun c => { c with buf := (pop c.buf).2 })
  have others : ∀ u, u ≠ v → (m.virtualConsoles u).buf = (l.virtualConsoles u).buf := fun u other => by simp [m,other]
  have taken : IsConsole v → (m.virtualConsoles v).buf = (pop (l.virtualConsoles v).buf).2 := fun inside => by
    simp [m,inside.1,inside.2]
  have size : IsConsole v → (m.virtualConsoles v).buf.inSize ≤ (l.virtualConsoles v).buf.inSize := by
    intro inside
    rw [taken inside,pop_size (filled inside).1 (filled inside).2]
    omega
  unfold takeByte
  dsimp only
  split
  · rename_i newline
    refine (sysret_quiets m _).reads rfl others size (fun inside empty => ?_)
    rw [Turn,if_pos (.inl newline),← taken inside]
    exact empty
  · rename_i ordinary
    split
    · rename_i unmapped
      refine (handlePfault_quiets (k := m) inside heard).reads rfl others size (fun inside empty => ?_)
      rw [Turn,if_pos (.inr unmapped),← taken inside]
      exact empty
    · rename_i mapped
      have after := goes { m with
        mem := Function.update l.mem (buf + (len - (left + 1))) (pop (l.virtualConsoles v).buf).1.toNat } rfl
        (fun inside => (size inside).trans (filled inside).2)
      refine ⟨after.woken,fun u other => (after.others u other).trans (others u other),
        fun inside => (after.size inside).trans (size inside),fun inside empty => ?_⟩
      rw [Turn,if_neg (by simp [ordinary,not_not.mp mapped]),← taken inside]
      exact after.empty inside empty

/-- The current process falls asleep on an empty buffer. -/
theorem asleep_reads {l : Kernel} (inside : Inside lost gone l.toProcs) (going : Going l.toProcs) (v : Int)
    (buf len left : Nat) {empties : Prop} (empty : empties) : Reads l v empties
      (callScheduler ((l.setConsole v (fun c => { c with waitingPid := l.pidCour })).setProc l.pidCour
        (fun c => { c with state := .waitIo })) (.consRead v buf len left)) := by
  have blocked := inside.block going blocks_waitIo
  obtain ⟨q,ready⟩ := blocked.ready
  have done := scheduler_scheduled (ready.setProc l.pidCour (f := fun c => { c with frame := .consRead v buf len left })
    (fun _ => rfl) (fun _ => rfl) (fun _ => rfl))
  have buf : ∀ u, ((l.setConsole v (fun c => { c with waitingPid := l.pidCour })).virtualConsoles u).buf =
      (l.virtualConsoles u).buf := fun u => by simp
  refine ⟨fun u p woken => ?_,fun u _ => buf u,fun _ => (congrArg RingBuffer.inSize (buf v)).le,fun _ _ => empty⟩
  have before := (Dispatched.still done.dispatched p).woken woken
  have other : p ≠ l.pidCour := by
    rintro rfl
    have inTab := before.used.1
    have runs := before.runs
    simp [inTab,Runnable] at runs
  refine ⟨other,?_⟩
  obtain ⟨used,runs,reading⟩ := before
  simp only [InUse,Procs.setProc_tabProc,other,false_and,if_false] at used runs reading
  exact ⟨used,runs,reading⟩

theorem consReadLoop_reads (v : Int) (buf len left : Nat) : ∀ l : Kernel, Inside lost gone l.toProcs → Going l.toProcs →
    (Unheard l.tabProc l.pidCour → lost) →
      (IsConsole v → (l.virtualConsoles v).buf.inSize ≤ InputBuffer.INPUT_BUFFER_SIZE) →
        Reads l v (Exhausts buf len left (l.virtualConsoles v).buf) (consReadLoop v buf len left l) := by
  induction left with
  | zero =>
    intro l _ _ _ _
    exact (sysret_quiets l _).reads rfl (fun _ _ => rfl) (fun _ => le_rfl) (fun _ empty => empty)
  | succ left ih =>
    intro l inside going heard room
    unfold consReadLoop
    by_cases empty : (l.virtualConsoles v).buf.inSize = 0
    · rw [if_pos empty]
      exact asleep_reads inside going v buf len left (.inl empty)
    · rw [if_neg empty]
      have taken := takeByte_reads inside heard v buf len left (fun console => ⟨empty,room console⟩)
        (fun m procs room' => ih m (procs ▸ inside) (procs ▸ going) (procs ▸ heard) room')
      exact ⟨taken.woken,taken.others,taken.size,fun console now => .inr (taken.empty console now)⟩

/-- What a key leaves of the buffers and of the readers. -/
theorem keyboardData_buf (k : Kernel) (key : UInt8) (v : Int) : ((keyboardData k key).virtualConsoles v).buf =
    if v = k.vcCurrent ∧ IsConsole k.vcCurrent then
      if Devices.translate key = 8 then (unpush (k.virtualConsoles v).buf).2
      else push (k.virtualConsoles v).buf (Devices.translate key)
    else (k.virtualConsoles v).buf := by
  unfold keyboardData bufferPush
  by_cases back : Devices.translate key = 8
  · rw [if_pos back]
    simp only [Kernel.setConsole_virtualConsoles,ite_buf,back,if_true]
    rfl
  · rw [if_neg back]
    dsimp only
    have kept : ∀ l : Kernel, l.virtualConsoles = k.virtualConsoles →
        ((l.setConsole k.vcCurrent (fun c => { c with buf := push c.buf (Devices.translate key) })).virtualConsoles v).buf =
          if v = k.vcCurrent ∧ IsConsole k.vcCurrent then push (k.virtualConsoles v).buf (Devices.translate key)
          else (k.virtualConsoles v).buf := by
      intro l same
      simp only [Kernel.setConsole_virtualConsoles,ite_buf,same]
      rfl
    simp only [back,if_false]
    split
    · exact kept (signalNewIo k _) rfl
    · exact kept k rfl

theorem push_size {r : RingBuffer} (room : r.inSize ≤ InputBuffer.INPUT_BUFFER_SIZE) (key : UInt8) :
    (push r key).inSize ≠ 0 ∧ (push r key).inSize ≤ InputBuffer.INPUT_BUFFER_SIZE := by
  by_cases full : r.inSize = InputBuffer.INPUT_BUFFER_SIZE
  · have none : InputBuffer.pushIndex r = none := by rw [InputBuffer.pushIndex,if_pos full]
    simp [push,none,full,InputBuffer.INPUT_BUFFER_SIZE]
  · obtain ⟨i,index⟩ : ∃ i, InputBuffer.pushIndex r = some i := by
      rw [InputBuffer.pushIndex,if_neg full]
      split
      · exact ⟨_,rfl⟩
      · exact ⟨_,rfl⟩
    simp only [push,index]
    simp only [InputBuffer.INPUT_BUFFER_SIZE] at full room ⊢
    omega

/-- The buffers are in bounds, and every reader that has been woken up will
    find a byte. -/
structure Stocked (k : Kernel) : Prop where
  size : ∀ v, IsConsole v → (k.virtualConsoles v).buf.inSize ≤ InputBuffer.INPUT_BUFFER_SIZE
  woken : ∀ v p, IsConsole v → Woken k.tabProc v p → (k.virtualConsoles v).buf.inSize ≠ 0

theorem Quiets.stocked {k' : Kernel} (quiets : Quiets k k') (stocked : Stocked k) : Stocked k' := by
  refine ⟨fun v console => ?_,fun v p console woken => ?_⟩
  · rw [quiets.buf]
    exact stocked.size v console
  · rw [quiets.buf]
    exact stocked.woken v p console (quiets.woken v p woken).2

theorem Reads.stocked {k' : Kernel} {v : Int} {empties : Prop} (reads : Reads k v empties k') (stocked : Stocked k)
    (patient : ∀ p, IsConsole v → empties → p ≠ k.pidCour → ¬ Woken k.tabProc v p) : Stocked k' := by
  refine ⟨fun u console => ?_,fun u p console woken => ?_⟩
  · by_cases same : u = v
    · subst same
      exact (reads.size console).trans (stocked.size u console)
    · rw [reads.others u same]
      exact stocked.size u console
  · obtain ⟨other,before⟩ := reads.woken u p woken
    by_cases same : u = v
    · subst same
      exact fun empty => patient p console (reads.empty console empty) other before
    · rw [reads.others u same]
      exact stocked.woken u p console before

/-- A key wakes up readers of its own console only. -/
theorem keyboardData_woken (stable : Stable lost gone k) {key : UInt8} (welcome : Welcome k key)
    (aimed : Aimed k (.key key)) {v p : Int} (woken : Woken (keyboardData k key).tabProc v p) :
    Woken k.tabProc v p ∨ v = k.vcCurrent ∧ Devices.translate key ≠ 8 := by
  by_cases wakes : Wakes k key p
  · refine .inr ⟨?_,wakes.pushed⟩
    rw [wakes.wakeup] at woken
    have reading : Reading v (k.tabProc p).frame := by simpa using woken.reading
    have sleeps := welcome wakes.pushed wakes.notifies (wakes.waiting ▸ wakes.used)
    rw [wakes.waiting] at sleeps
    rcases sleeps with waits | sleeps
    · obtain ⟨_,_,_,here⟩ := aimed p wakes waits
      obtain ⟨_,_,_,there⟩ := reading
      rw [here] at there
      injection there with same
      exact same.symm
    · have other : p ≠ k.pidCour := by
        rintro rfl
        have inTab := wakes.used.1
        have active := stable.running (by rintro idle; simp [idle,InTab] at inTab)
        simp [sleeps] at active
      exact absurd reading (asleep_elsewhere stable.toInside other wakes.used (.inr (.inl sleeps)) v)
  · refine .inl ?_
    have same : (keyboardData k key).tabProc p = k.tabProc p := by
      by_cases some : ∃ x, Wakes k key x
      · obtain ⟨x,wakesX⟩ := some
        have other : p ≠ x := fun same => wakes (same ▸ wakesX)
        simp [wakesX.wakeup,other]
      · rw [keyboardData_still (fun x wakesX => some ⟨x,wakesX⟩)]
    obtain ⟨used,runs,reading⟩ := woken
    rw [InUse,same] at used
    rw [same] at runs reading
    exact ⟨used,runs,reading⟩

theorem keyboardData_stocked (stable : Stable lost gone k) (mode : k.inKernel = false) {key : UInt8}
    (careful : Careful k (.key key)) (stocked : Stocked k) : Stocked (keyboardData k key) := by
  obtain ⟨welcome,aimed,patient⟩ := careful
  refine ⟨fun v console => ?_,fun v p console woken => ?_⟩
  · rw [keyboardData_buf]
    have room := stocked.size v console
    split
    · split
      · unfold unpush
        split
        · exact room
        · dsimp only
          omega
      · exact (push_size room _).2
    · exact room
  · have before := keyboardData_woken stable welcome aimed woken
    have room := stocked.size v console
    rw [keyboardData_buf]
    split
    · rename_i here
      split
      · rename_i back
        have sleeper := before.resolve_right (fun typed => typed.2 back)
        have some := stocked.woken v p console sleeper
        have current : p ≠ k.pidCour := by
          rintro rfl
          have inTab := sleeper.used.1
          have frame := stable.user mode (by rintro idle; simp [idle,InTab] at inTab)
          exact not_reading (by simp [frame]) v sleeper.reading
        have last : (k.virtualConsoles v).buf.inSize ≠ 1 := fun last =>
          patient v p console ⟨here.1,back,last⟩ current sleeper
        unfold unpush
        rw [if_neg some]
        dsimp only
        omega
      · exact (push_size room _).1
    · rename_i elsewhere
      have sleeper := before.resolve_right (fun typed => elsewhere ⟨typed.1,typed.1 ▸ console⟩)
      exact stocked.woken v p console sleeper

/-! ### The invariant -/

theorem setBuffered_quiets (k : Kernel) (buffered : Bool) : Quiets k (setBuffered k buffered) := by
  refine Between.quiets ?_ (sysret_quiets _ _)
  exact ⟨.refl _,rfl,fun v => by simp⟩

theorem setStdout_quiets (k : Kernel) (node : Option Int) : Quiets k (setStdout k node) := by
  unfold setStdout
  split
  · exact sysret_quiets k _
  · rename_i inode
    refine Between.quiets ?_ (sysret_quiets _ _)
    exact .of_calm (own_calm k.toProcs (fun c => { c with stdout := inode })) rfl rfl

theorem handle_stocked (good : Good True gone k) (mode : k.inKernel = false) (busy : k.pidCour ≠ 0) {c : Call}
    (patient : Patient k (.call c)) (apart : ∀ pid, Reuses k (.call c) pid → ∀ n, ¬ gone pid n)
    (stocked : Stocked k) : Stocked (handle k c) := by
  have inside := good.stable.toInside
  have going := good.stable.going mode busy
  cases c with
  | start ssize prio memory => exact (start_quiets inside going ssize prio apart (fun _ _ _ => trivial)).stocked stocked
  | exit retval => exact (exit_quiets inside going retval).stocked stocked
  | kill pid => exact (kill_quiets inside pid (fun _ _ => trivial)).stocked stocked
  | getprio pid => exact (getprio_quiets k pid).stocked stocked
  | chprio pid newprio => exact (chprio_quiets inside going pid newprio).stocked stocked
  | getpid => exact (sysret_quiets k _).stocked stocked
  | getppid => exact (sysret_quiets k _).stocked stocked
  | waitpid pid retvalp => exact (waitpid_quiets inside going pid retvalp (fun _ _ _ _ => trivial)).stocked stocked
  | waitClock clock => exact (waitClock_quiets inside going clock).stocked stocked
  | currentClock => exact (sysret_quiets k _).stocked stocked
  | screate compteur memory => exact (screate_quiets good.counted compteur memory).stocked stocked
  | wait sid => exact (wait_quiets inside going sid).stocked stocked
  | tryWait sid => exact (tryWait_quiets k sid).stocked stocked
  | signal sid => exact (signal_quiets inside going good.counted sid).stocked stocked
  | signaln sid count => exact (signaln_quiets inside going good.counted sid count).stocked stocked
  | scount sid => exact (scount_quiets k sid).stocked stocked
  | sreset sid count => exact (sreset_quiets inside going good.counted sid count).stocked stocked
  | sdelete sid => exact (sdelete_quiets inside going good.counted sid).stocked stocked
  | consRead buf len =>
    refine (consReadLoop_reads _ (checkPointer buf) len len k inside going (fun _ => trivial) (stocked.size _)).stocked
      stocked (fun p console empties => ?_)
    exact patient _ p console ⟨rfl,empties⟩
  | setBuffered buffered => exact (setBuffered_quiets k buffered).stocked stocked
  | setStdout node => exact (setStdout_quiets k node).stocked stocked
  | sigReturn => exact (callScheduler_quiets inside (not_reading (by simp))).stocked stocked

/-- The process that resumes in `buffer_pop` has been woken up. -/
theorem resume_woken (stable : Stable lost gone k) (busy : k.pidCour ≠ 0) {v : Int}
    (reading : Reading v (k.tabProc k.pidCour).frame) : Woken k.tabProc v k.pidCour :=
  ⟨stable.inUse busy,.inl (stable.running busy),reading⟩

theorem resume_stocked (good : Good True gone k) (patient : Patient k .resume) (stocked : Stocked k) :
    Stocked (resume k) := by
  have inside := good.stable.toInside
  unfold resume
  split
  · exact ⟨stocked.size,stocked.woken⟩
  · rename_i busy
    split
    · exact (sysret_quiets k _).stocked stocked
    · exact (sysret_quiets k _).stocked stocked
    · exact (waitResume_quiets k).stocked stocked
    · exact (reap_quiets inside _ _ (fun _ _ _ => trivial)).stocked stocked
    · exact (reap_quiets inside _ _ (fun _ _ _ => trivial)).stocked stocked
    · rename_i v buf len left frame
      have going := resume_going good.stable busy (by simp [frame])
      have woken := resume_woken good.stable busy ⟨buf,len,left,frame⟩
      have taken := takeByte_reads inside (fun _ => trivial) v buf len left
        (fun console => ⟨stocked.woken v _ console woken,stocked.size v console⟩)
        (fun m procs room => consReadLoop_reads v buf len left m (procs ▸ inside) (procs ▸ going) (fun _ => trivial) room)
      exact taken.stocked stocked (fun p console empties => patient v p console ⟨busy,buf,len,left,frame,empties⟩)
    · exact stocked
    · exact (handlePfault_quiets inside (fun _ => trivial)).stocked stocked

theorem step_stocked {k' : Kernel} {e : Event} (good : Good True (fun _ _ => False) k) (careful : Careful k e)
    (stocked : Stocked k) (stepped : step k e = some k') : Stocked k' := by
  rcases step_cases stepped with ⟨c,rfl,mode,busy,rfl⟩ | ⟨rfl,mode,busy,rfl⟩ | ⟨rfl,mode,rfl⟩ | ⟨key,rfl,mode,rfl⟩ |
    ⟨vcNumber,rfl,mode,rfl⟩ | ⟨rfl,_,rfl⟩
  · exact handle_stocked good mode busy careful.2.2 (fun _ _ _ => id) stocked
  · exact (handlePfault_quiets good.stable.toInside (fun _ => trivial)).stocked stocked
  · exact (int32_quiets good.stable mode).stocked stocked
  · exact keyboardData_stocked good.stable mode careful stocked
  · unfold vcFlip
    split
    · exact ⟨stocked.size,stocked.woken⟩
    · exact stocked
  · exact resume_stocked good careful.2.2 stocked

theorem boot_stocked (boot : Boot k) : Stocked k := by
  refine ⟨fun v console => ?_,fun v p console woken => ?_⟩
  · obtain ⟨outside,consoles,rfl⟩ := boot
    simp only [kernelStart]
    rw [if_pos (show 0 ≤ v ∧ v < VIRTUAL_CONSOLES from console)]
    simp [InputBuffer.ringbufferInit]
  · have frame := (boot_init boot woken.used).2.2.1
    exact absurd woken.reading (not_reading (by simp [frame]) v)

theorem reach_stocked (reached : Reach Careful k) : Stocked k :=
  reached.strengthen (fun _ before => reach_safe (before.weaken (fun _ _ careful => careful.1))) (fun _ => boot_stocked)
    (fun _ _ _ good stocked careful stepped => step_stocked good careful stocked stepped)

/-- The current process is about to take a byte in `buffer_pop` on the console
    `v`, after its sleep. Everywhere else `buffer_pop` has just seen a byte. -/
def Resumes (k : Kernel) (v : Int) : Prop :=
  k.inKernel = true ∧ k.pidCour ≠ 0 ∧ Reading v (k.tabProc k.pidCour).frame

/-- The buffers stay within their bounds, and a reader that resumes finds a byte. -/
theorem buffer_pop_filled (reached : Reach Careful k) {v : Int} (console : IsConsole v) :
    (k.virtualConsoles v).buf.inSize ≤ InputBuffer.INPUT_BUFFER_SIZE ∧
      (Resumes k v → (k.virtualConsoles v).buf.inSize ≠ 0) := by
  have stocked := reach_stocked reached
  refine ⟨stocked.size v console,?_⟩
  rintro ⟨_,busy,reading⟩
  have good := reach_safe (reached.weaken (fun _ _ careful => careful.1))
  exact stocked.woken v _ console (resume_woken good.stable busy reading)

/-- Steps of a single process that are careful. -/
private def Lone (k : Kernel) : Event → Prop
  | .tick => True
  | .resume => k.pidCour = 0 ∨ ∀ p ∈ pids, p ≠ k.pidCour → (k.tabProc p).valide = false
  | .call (.consRead _ _) => ∀ p ∈ pids, p ≠ k.pidCour → (k.tabProc p).valide = false
  | .key key => Devices.translate key ≠ 8 ∧ (k.virtualConsoles k.vcCurrent).waitingPid = 1 ∧
    (k.tabProc 1).state = .waitIo ∧ (k.tabProc 1).frame = .consRead k.vcCurrent 0x1000000 10 9
  | _ => False

private instance (k : Kernel) : DecidablePred (Lone k)
  | .tick => instDecidableTrue
  | .resume => inferInstanceAs (Decidable (_ ∨ ∀ _ ∈ _, _ ≠ _ → _))
  | .call (.consRead _ _) => inferInstanceAs (Decidable (∀ _ ∈ _, _ ≠ _ → _))
  | .key _ => inferInstanceAs (Decidable (_ ∧ _ ∧ _ ∧ _))
  | .call (.start _ _ _) | .call (.exit _) | .call (.kill _) | .call (.getprio _) | .call (.chprio _ _)
  | .call .getpid | .call .getppid | .call (.waitpid _ _) | .call (.waitClock _) | .call .currentClock
  | .call (.screate _ _) | .call (.wait _) | .call (.tryWait _) | .call (.signal _) | .call (.signaln _ _)
  | .call (.scount _) | .call (.sreset _ _) | .call (.sdelete _) | .call (.setBuffered _) | .call (.setStdout _)
  | .call .sigReturn | .fault | .flip _ => instDecidableFalse

/-- A newline wakes up Init, which finds it in the buffer. -/
theorem buffer_pop_filled_init : ∃ k : Kernel, Reach Careful k ∧ Resumes k 0 ∧
    (k.virtualConsoles 0).buf.inSize ≤ InputBuffer.INPUT_BUFFER_SIZE ∧ (k.virtualConsoles 0).buf.inSize ≠ 0 := by
  let events : List Event := [.tick,.resume,.call (.consRead 0x1000000 10),.resume,.key 13,.tick]
  have seen : (run (Runs.guarded step Lone) zeroed events).map (fun k =>
      (k.inKernel,k.pidCour,(k.tabProc 1).frame)) = some (true,1,.consRead 0 0x1000000 10 9) := by decide
  obtain ⟨k,ran,facts⟩ := Option.map_eq_some_iff.mp seen
  simp only [Prod.mk.injEq] at facts
  obtain ⟨mode,current,frame⟩ := facts
  have reached : Reach Careful k := by
    refine (Runs.reach_of_guarded (.start zeroed_boot) ran).weaken ?_
    intro k e lone
    unfold Lone at lone
    split at lone
    · exact ⟨trivial,trivial,fun _ _ _ drains => drains.elim⟩
    · refine ⟨trivial,trivial,fun v p _ drains other woken => ?_⟩
      rcases lone with idle | alone
      · exact drains.1 idle
      · have used := woken.used.2
        simp [alone p ((mem_pids p).mpr woken.used.1) other] at used
    · refine ⟨trivial,trivial,fun v p _ _ other woken => ?_⟩
      have used := woken.used.2
      simp [lone p ((mem_pids p).mpr woken.used.1) other] at used
    · obtain ⟨typed,waiting,waits,frame⟩ := lone
      refine ⟨fun _ _ _ => .inl (by rw [waiting]; exact waits),fun p wakes _ => ?_,fun _ _ _ drains => ?_⟩
      · have same : p = 1 := wakes.waiting.symm.trans waiting
        exact same ▸ ⟨_,_,_,frame⟩
      · exact absurd drains.2.1 typed
    · exact lone.elim
  have resumes : Resumes k 0 := ⟨mode,by simp [current],by rw [current]; exact ⟨_,_,_,frame⟩⟩
  have filled := buffer_pop_filled reached (v := 0) (by decide)
  exact ⟨k,reached,resumes,filled.1,filled.2 resumes⟩

/-- A backspace takes the newline away before the reader resumes, and the size
    of the buffer wraps below zero. -/
theorem buffer_pop_underflow : ¬ ∀ (k : Kernel) (v : Int), Reach (fun _ _ => True) k → IsConsole v →
    (k.virtualConsoles v).buf.inSize ≤ InputBuffer.INPUT_BUFFER_SIZE ∧
      (Resumes k v → (k.virtualConsoles v).buf.inSize ≠ 0) := by
  intro claim
  let events : List Event := [.tick,.resume,.call (.consRead 0x1000000 10),.resume,.key 13,.key 8,.tick,.resume]
  have seen : (run step zeroed events).map (fun k => (k.virtualConsoles 0).buf.inSize) = some 4294967295 := by
    decide +kernel
  obtain ⟨k,ran,size⟩ := Option.map_eq_some_iff.mp seen
  have reached : Reach (fun _ _ => True) k := reach_of_run events (fun _ _ _ => trivial) zeroed_boot ran
  have bound := (claim k 0 reached (by decide)).1
  simp [size,InputBuffer.INPUT_BUFFER_SIZE] at bound

end Psys.Readers
