import Psys.Scheduling

/-!
Processes that sleep until a tick. No step but `wait_clock` sets an alarm, none
but the clock interrupt moves the counter of ticks, and `update_timer` compares
the two as they stand: a process that sleeps for `d` ticks is woken at the
`d`-th, unless the counter wraps while it sleeps.
-/
namespace Psys.Alarms
open Psys.State Psys.Context Psys.Sys Psys.Semaphore Psys.Devices Psys.System Psys.ProcQueue Psys.Runs Psys.Scheduling
open Psys.Calls (waitpid_cases)
open Psys.SemCalls (waitResume_cases sreset_cases sdelete_cases)

variable {k k' : Kernel}

/-! ### Who sets an alarm -/

section Procs
variable (k : Procs) (p : Int)

theorem setProc_timer (x : Int) {f : Context → Context} (timer : ∀ c, (f c).timer = c.timer) :
    ((k.setProc x f).tabProc p).timer = (k.tabProc p).timer := by
  simp only [Procs.setProc_tabProc]
  split
  · exact timer _
  · rfl

@[simp] theorem wakeupProcess_timer (pid : Int) : ((wakeupProcess k pid).tabProc p).timer = (k.tabProc p).timer := by
  simp

@[simp] theorem switchTo_timer (pid : Int) : ((switchTo k pid).tabProc p).timer = (k.tabProc p).timer := by
  simp [switchTo]

@[simp] theorem scheduler_timer : ((scheduler k).tabProc p).timer = (k.tabProc p).timer := by
  unfold scheduler
  split
  · split
    · rfl
    · rfl
    · exact switchTo_timer _ _ _
  · split
    · rfl
    · split
      · dsimp only
        split <;> simp
      · rfl
    · split
      · simp [switchToKernel]
      · rfl

theorem contextCreateUser_timer (priority : Int) (memory : Memory) :
    ((contextCreateUser k priority memory).1.tabProc p).timer = (k.tabProc p).timer := by
  have joined : ∀ (l : Procs) (pid : Int), ((if l.pidCour ≠ 0 then
      l.setProc l.pidCour (fun c => { c with children := pid :: c.children }) else l).tabProc p).timer =
      (l.tabProc p).timer := by
    intro l pid
    split
    · exact setProc_timer l p _ (fun _ => rfl)
    · rfl
  unfold contextCreateUser
  split
  · rfl
  · split
    · rfl
    · dsimp only
      split
      · simp
      · split
        · simp
        · split
          · simp
          · rw [wakeupProcess_timer,setProc_timer _ p _ (by intro c; rfl),joined]
            simp

theorem adopt_timer (child : Int) : ((adopt k child).tabProc p).timer = (k.tabProc p).timer := by
  unfold adopt
  split <;> simp

@[simp] theorem adoptChildren_timer (pid : Int) : ((adoptChildren k pid).tabProc p).timer = (k.tabProc p).timer := by
  suffices ∀ (children : List Int) (k : Procs), ((children.foldl adopt k).tabProc p).timer = (k.tabProc p).timer from
    this _ k
  intro children
  induction children with
  | nil => exact fun _ => rfl
  | cons child rest ih => exact fun k => (ih _).trans (adopt_timer k p child)

theorem exitProcess_timer (retval : Int) : ((exitProcess k retval).tabProc p).timer = (k.tabProc p).timer := by
  unfold exitProcess
  dsimp only
  split <;> split <;> simp

theorem killProcess_timer (pid : Int) : ((killProcess k pid).tabProc p).timer = (k.tabProc p).timer := by
  unfold killProcess
  dsimp only
  have out : ∀ l : Procs, ((if (l.tabProc pid).state = .activable then queueDel l pid else l).tabProc p).timer =
      (l.tabProc p).timer := by
    intro l
    split <;> simp
  split <;> split <;> simp [out]

end Procs

/-- No alarm is set, and no tick is counted. -/
structure Unset (k k' : Kernel) : Prop where
  counter : k'.nbInterrupt = k.nbInterrupt
  timer : ∀ p, (k'.tabProc p).timer = (k.tabProc p).timer

theorem Unset.refl (k : Kernel) : Unset k k := ⟨rfl,fun _ => rfl⟩

theorem Unset.trans {k k' k'' : Kernel} (first : Unset k k') (second : Unset k' k'') : Unset k k'' :=
  ⟨second.counter.trans first.counter,fun p => (second.timer p).trans (first.timer p)⟩

theorem Unset.write (unset : Unset k k') (x : Int) {f : Context → Context} (timer : ∀ c, (f c).timer = c.timer) :
    Unset k (k'.setProc x f) :=
  ⟨unset.counter,fun p => (setProc_timer k'.toProcs p x timer).trans (unset.timer p)⟩

theorem Unset.sysret (unset : Unset k k') (ret : Option Int) : Unset k (sysret k' ret) := by
  have written := unset.write k'.pidCour (f := fun c => { c with frame := .user }) (fun _ => rfl)
  exact ⟨written.counter,written.timer⟩

theorem Unset.callScheduler (unset : Unset k k') (frame : Frame) : Unset k (callScheduler k' frame) := by
  have written := unset.write k'.pidCour (f := fun c => { c with frame := frame }) (fun _ => rfl)
  exact ⟨written.counter,fun p => (scheduler_timer _ p).trans (written.timer p)⟩

/-- The process part of a call. -/
theorem Unset.procs {procs : Procs} (timer : ∀ p, (procs.tabProc p).timer = (k.tabProc p).timer) :
    Unset k { k with toProcs := procs } := ⟨rfl,timer⟩

theorem kill_unset (k : Kernel) (pid : Int) : Unset k (kill k pid) := by
  rcases kill_cases k pid with refused | ⟨_,_,called⟩
  · rw [refused]
    exact (Unset.refl k).sysret _
  · rw [called]
    refine Unset.callScheduler ?_ _
    exact ⟨rfl,fun p => killProcess_timer k.toProcs p pid⟩

theorem handlePfault_unset (k : Kernel) : Unset k (handlePfault k) := by
  unfold handlePfault
  split
  · exact (Unset.refl k).callScheduler _
  · exact kill_unset k _

theorem chprio_unset (k : Kernel) (pid newprio : Int) : Unset k (chprio k pid newprio) := by
  have written : ∀ p, ((k.toProcs.setProc pid (fun c => { c with priority := newprio })).tabProc p).timer =
      (k.tabProc p).timer := fun p => setProc_timer _ p pid (fun _ => rfl)
  rcases chprio_cases k pid newprio with ⟨_,refused⟩ | ⟨_,_,_,_,⟨_,called⟩ | called⟩
  · rw [refused]
    exact (Unset.refl k).sysret _
  · rw [called]
    exact (Unset.refl k).callScheduler _
  · rw [called]
    refine Unset.callScheduler (Unset.procs fun p => ?_) _
    split
    · rw [requeue_tabProc]
      exact written p
    · exact written p

theorem reap_unset (k : Kernel) (child : Int) (retvalp : Nat) : Unset k (reap k child retvalp) := by
  have buried : ∀ l : Kernel, Unset k l → Unset k ((l.setProc child (fun c => { c with state := .dead })).setProc
      l.pidCour (fun c => { c with children := c.children.erase child })) := fun l unset =>
    (unset.write child (f := fun c => { c with state := .dead }) (fun _ => rfl)).write l.pidCour
      (f := fun c => { c with children := c.children.erase child }) (fun _ => rfl)
  have noted : ∀ (l : Kernel) (log : List EndNote), Unset k l → Unset k { l with endLog := log } := fun l log unset =>
    ⟨unset.counter,unset.timer⟩
  unfold reap
  split
  · exact handlePfault_unset k
  · dsimp only
    split
    · have stored : ∀ value, Unset k { k with mem := Function.update k.mem retvalp value } :=
        fun _ => ⟨rfl,fun _ => rfl⟩
      exact Unset.sysret (noted _ _ (buried _ (stored _))) _
    · exact Unset.sysret (noted _ _ (buried k (.refl k))) _

theorem waitChild_unset (k : Kernel) (pidWait : Int) (frame : Frame) : Unset k (waitChild k pidWait frame) :=
  ((Unset.refl k).write k.pidCour (f := fun c => { c with state := .waitChild, pidWait := pidWait })
    (fun _ => rfl)).callScheduler frame

theorem waitpid_unset (k : Kernel) (pid : Int) (retvalp : Nat) : Unset k (waitpid k pid retvalp) := by
  rcases waitpid_cases k pid retvalp with ⟨_,_,called⟩ | ⟨_,_,called⟩ | ⟨_,_,called⟩ | ⟨_,_,_,called⟩
  all_goals rw [called]
  · exact (Unset.refl k).sysret _
  · exact reap_unset k _ _
  · exact waitChild_unset k _ _
  · exact waitChild_unset k _ _

theorem start_unset (k : Kernel) (ssize : Nat) (prio : Int) (memory : Memory) : Unset k (start k ssize prio memory) := by
  have created : Unset k { k with toProcs := (contextCreateUser k.toProcs prio memory).1 } :=
    .procs (fun p => contextCreateUser_timer _ p prio memory)
  rcases start_cases k ssize prio memory with ⟨_,refused⟩ | ⟨_,⟨_,_,_,called⟩ | ⟨_,_,_,called⟩ | ⟨_,called⟩⟩
  · rw [refused]
    exact (Unset.refl k).sysret _
  · rw [called]
    exact created.callScheduler _
  · rw [called]
    exact created.sysret _
  · rw [called]
    exact created.trans (handlePfault_unset _)

/-! ### Semaphores -/

/-- Semaphores hold no alarms. -/
theorem Unset.setSem (unset : Unset k k') (sid : Int) (f : Semaphore → Semaphore) : Unset k (k'.setSem sid f) :=
  ⟨unset.counter,unset.timer⟩

theorem Unset.semLog (unset : Unset k k') (log : List SemNote) : Unset k { k' with semLog := log } :=
  ⟨unset.counter,unset.timer⟩

theorem screate_unset (k : Kernel) (compteur : Int) (memory : Bool) : Unset k (screate k compteur memory) := by
  unfold screate
  dsimp only
  repeat' split
  · exact (Unset.refl k).sysret _
  · exact (Unset.refl k).sysret _
  · exact ⟨rfl,fun _ => rfl⟩
  all_goals
    refine Unset.sysret ?_ _
    exact ⟨rfl,fun _ => rfl⟩

theorem wait_unset (k : Kernel) (sid : Int) : Unset k (wait k sid) := by
  have counted : Unset k (k.setSem sid (fun s => { s with c := short (s.c - 1) })) := (Unset.refl k).setSem _ _
  unfold wait
  split
  · exact (Unset.refl k).sysret _
  split
  · exact (Unset.refl k).sysret _
  · dsimp only
    split
    · have blocked := counted.write k.pidCour (f := fun c => { c with state := .waitSem, sidWait := sid })
        (fun _ => rfl)
      exact ((blocked.setSem _ _).semLog _).callScheduler _
    · exact (counted.semLog _).sysret _

theorem waitResume_unset (k : Kernel) : Unset k (waitResume k) := by
  rcases waitResume_cases k with ⟨_,called⟩ | ⟨_,called⟩
  · rw [called]
    exact ((Unset.refl k).write k.pidCour (f := fun c => { c with sidReseted := false }) (fun _ => rfl)).sysret _
  · rw [called]
    exact (Unset.refl k).sysret _

theorem tryWait_unset (k : Kernel) (sid : Int) : Unset k (tryWait k sid) := by
  unfold tryWait
  dsimp only
  repeat' split
  · exact (Unset.refl k).sysret _
  · exact (((Unset.refl k).setSem _ _).semLog _).sysret _
  · exact (Unset.refl k).sysret _

theorem signalOne_unset (k : Kernel) (sid : Int) : Unset k (signalOne k sid) := by
  unfold signalOne
  dsimp only
  split
  · split
    · exact ⟨rfl,fun _ => rfl⟩
    · exact ⟨rfl,fun p => wakeupProcess_timer _ p _⟩
  · exact ⟨rfl,fun _ => rfl⟩

theorem signal_unset (k : Kernel) (sid : Int) : Unset k (signal k sid) := by
  have given := signalOne_unset k sid
  rcases signal_cases k sid with ⟨_,refused⟩ | ⟨_,_,⟨_,called⟩ | ⟨_,called⟩⟩
  · rw [refused]
    exact (Unset.refl k).sysret _
  · rw [called]
    exact given.callScheduler _
  · rw [called]
    exact given.sysret _

theorem signaln_unset (k : Kernel) (sid count : Int) : Unset k (signaln k sid count) := by
  have loop : ∀ (count : Nat) (l : Kernel), Unset l (signalLoop sid count l) := by
    intro count
    induction count with
    | zero => exact Unset.refl
    | succ count ih => exact fun l => (signalOne_unset l sid).trans (ih _)
  rcases signaln_cases k sid count with ⟨_,refused⟩ | ⟨_,_,_,called⟩
  · rw [refused]
    exact (Unset.refl k).sysret _
  · rw [called]
    exact (loop _ k).callScheduler _

theorem dismissAll_unset (k : Kernel) (sid : Int) (cause : Cause) {f : Context → Context}
    (timer : ∀ c, (f c).timer = c.timer) : Unset k (dismissAll k sid cause f) := by
  have fold : ∀ (waiting : List Int) (l : Kernel), Unset l (waiting.foldl (dismiss sid cause f) l) := by
    intro waiting
    induction waiting with
    | nil => exact Unset.refl
    | cons pid rest ih =>
      intro l
      have dismissed : Unset l (dismiss sid cause f l pid) :=
        ⟨rfl,fun p => (wakeupProcess_timer _ p pid).trans (setProc_timer _ p pid timer)⟩
      exact dismissed.trans (ih _)
  exact ((Unset.refl k).setSem _ _).trans (fold _ _)

theorem sdelete_unset (k : Kernel) (sid : Int) : Unset k (sdelete k sid) := by
  have dismissed := dismissAll_unset k sid .sdelete (f := markDeleted) (by
    intro c; unfold markDeleted; split <;> rfl)
  rcases sdelete_cases k sid with ⟨_,refused⟩ | ⟨_,called⟩
  · rw [refused]
    exact (Unset.refl k).sysret _
  · rw [called]
    refine Unset.callScheduler ?_ _
    exact ⟨dismissed.counter,dismissed.timer⟩

theorem sreset_unset (k : Kernel) (sid count : Int) : Unset k (sreset k sid count) := by
  rcases sreset_cases k sid count with ⟨_,refused⟩ | ⟨_,_,called⟩
  · rw [refused]
    exact (Unset.refl k).sysret _
  · rw [called]
    refine Unset.callScheduler (Unset.trans ?_ (dismissAll_unset _ sid .sreset (f := markReseted) (fun _ => rfl))) _
    exact (Unset.refl k).setSem _ _

/-! ### Consoles -/

theorem Unset.setConsole (unset : Unset k k') (n : Int) (f : VirtualConsole → VirtualConsole) :
    Unset k (k'.setConsole n f) := ⟨unset.counter,unset.timer⟩

theorem takeByte_unset (k : Kernel) (vc : Int) (buf len left : Nat) {loop : Kernel → Kernel}
    (rest : ∀ l, Unset l (loop l)) : Unset k (takeByte k vc buf len left loop) := by
  have taken : ∀ f, Unset k (k.setConsole vc f) := fun f => (Unset.refl k).setConsole vc f
  unfold takeByte
  dsimp only
  split
  · exact (taken _).sysret _
  split
  · exact (taken _).trans (handlePfault_unset _)
  · refine Unset.trans ?_ (rest _)
    exact ⟨rfl,fun _ => rfl⟩

theorem consReadLoop_unset (vc : Int) (buf len left : Nat) (k : Kernel) : Unset k (consReadLoop vc buf len left k) := by
  induction left generalizing k with
  | zero => exact (Unset.refl k).sysret _
  | succ left ih =>
    rw [consReadLoop]
    split
    · exact (((Unset.refl k).setConsole vc _).write k.pidCour (f := fun c => { c with state := .waitIo })
        (fun _ => rfl)).callScheduler _
    · exact takeByte_unset k vc buf len left ih

theorem setStdout_unset (k : Kernel) (node : Option Int) : Unset k (setStdout k node) := by
  cases node with
  | none => exact (Unset.refl k).sysret _
  | some inode =>
    exact ((Unset.refl k).write k.pidCour (f := fun c => { c with stdout := inode }) (fun _ => rfl)).sysret _

theorem keyboardData_unset (k : Kernel) (key : UInt8) : Unset k (keyboardData k key) := by
  unfold keyboardData
  split
  · exact (Unset.refl k).setConsole _ _
  · unfold bufferPush
    dsimp only
    split
    · exact ⟨rfl,fun p => wakeupProcess_timer _ p _⟩
    · exact (Unset.refl k).setConsole _ _

/-! ### Steps -/

/-- Every call but `wait_clock` leaves the alarms alone. -/
theorem handle_unset (k : Kernel) {c : Call} (other : ∀ clock, c ≠ .waitClock clock) : Unset k (handle k c) := by
  cases c with
  | start ssize prio memory => exact start_unset k ssize prio memory
  | exit retval =>
    have ended : Unset k { k with toProcs := exitProcess k.toProcs retval, endLog := .exited k.pidCour retval :: k.endLog } :=
      ⟨rfl,fun p => exitProcess_timer _ p retval⟩
    exact ended.callScheduler _
  | kill pid => exact kill_unset k pid
  | getprio pid =>
    simp only [handle,getprio]
    split <;> exact (Unset.refl k).sysret _
  | chprio pid newprio => exact chprio_unset k pid newprio
  | getpid | getppid | currentClock => exact (Unset.refl k).sysret _
  | waitpid pid retvalp => exact waitpid_unset k pid retvalp
  | waitClock clock => exact absurd rfl (other clock)
  | screate compteur memory => exact screate_unset k compteur memory
  | wait sid => exact wait_unset k sid
  | tryWait sid => exact tryWait_unset k sid
  | signal sid => exact signal_unset k sid
  | signaln sid count => exact signaln_unset k sid count
  | scount sid =>
    simp only [handle,scount]
    repeat' split
    all_goals exact (Unset.refl k).sysret _
  | sreset sid count => exact sreset_unset k sid count
  | sdelete sid => exact sdelete_unset k sid
  | consRead buf len => exact consReadLoop_unset _ _ _ _ k
  | setBuffered buffered => exact ((Unset.refl k).setConsole _ _).sysret _
  | setStdout node => exact setStdout_unset k node
  | sigReturn => exact (Unset.refl k).callScheduler _

theorem resume_unset (k : Kernel) : Unset k (resume k) := by
  unfold resume
  split
  · exact ⟨rfl,fun _ => rfl⟩
  repeat' split
  · exact (Unset.refl k).sysret _
  · exact (Unset.refl k).sysret _
  · exact waitResume_unset k
  · exact reap_unset k _ _
  · exact reap_unset k _ _
  · exact takeByte_unset k _ _ _ _ (consReadLoop_unset _ _ _ _)
  · exact .refl k
  · exact handlePfault_unset k

/-- `wait_clock` sets the alarm of the current process only. -/
theorem waitClock_timer (k : Kernel) (clock : Nat) :
    (waitClock k clock).nbInterrupt = k.nbInterrupt ∧
      ∀ p, ((waitClock k clock).tabProc p).timer =
        if p = k.pidCour ∧ InTab k.pidCour then ulong clock else (k.tabProc p).timer := by
  refine ⟨rfl,fun p => ?_⟩
  have slept : ∀ l : Kernel, (callScheduler l .user).tabProc p = (scheduler (l.toProcs.setProc l.pidCour
      (fun c => { c with frame := .user }))).tabProc p := fun _ => rfl
  rw [waitClock,slept,scheduler_timer,setProc_timer _ p _ (by intro c; rfl)]
  simp only [Kernel.setProc_toProcs,Procs.setProc_tabProc]
  split <;> rfl

/-- A step other than the clock interrupt, in the eyes of a process that is not
    the current one. -/
theorem step_unset {e : Event} (stepped : step k e = some k') (between : e ≠ .tick) {p : Int} (other : p ≠ k.pidCour) :
    k'.nbInterrupt = k.nbInterrupt ∧ (k'.tabProc p).timer = (k.tabProc p).timer := by
  have only : Unset k k' → k'.nbInterrupt = k.nbInterrupt ∧ (k'.tabProc p).timer = (k.tabProc p).timer :=
    fun unset => ⟨unset.counter,unset.timer p⟩
  rcases Invariant.step_cases stepped with ⟨c,_,_,_,rfl⟩ | ⟨_,_,_,rfl⟩ | ⟨tick,_,_⟩ | ⟨key,_,_,rfl⟩ | ⟨vcNumber,_,_,rfl⟩ |
    ⟨_,_,rfl⟩
  · by_cases sleeps : ∃ clock, c = .waitClock clock
    · obtain ⟨clock,rfl⟩ := sleeps
      obtain ⟨counter,timer⟩ := waitClock_timer k clock
      exact ⟨counter,(timer p).trans (if_neg (fun same => other same.1))⟩
    · exact only (handle_unset k (fun clock same => sleeps ⟨clock,same⟩))
  · exact only (handlePfault_unset k)
  · exact absurd tick between
  · exact only (keyboardData_unset k key)
  · unfold vcFlip
    split <;> exact ⟨rfl,rfl⟩
  · exact only (resume_unset k)

end Psys.Alarms
