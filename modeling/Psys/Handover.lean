import Psys.Invariant

/-!
The processor changes hands in the scheduler only: when a step ends in user
mode, the process that it ran for is the one that goes on.
-/
namespace Psys.Handover
open Psys.Calls (waitpid_cases)
open Psys.Creation (contextCreateUser_pidCour)
open Psys.ProcQueue (wakeupProcess_pidCour requeue_pidCour)
open Psys.Processes (killProcess_pidCour exitProcess_pidCour)
open Psys.SemCalls (waitResume_cases sreset_cases sdelete_cases)
open Psys.State Psys.Context Psys.Sys Psys.Semaphore Psys.Devices Psys.System

/-- The kernel, run on from `k`, is at work or has gone back to the process it
    ran for. -/
def Home (k k' : Kernel) : Prop := k'.inKernel = true ∨ k'.pidCour = k.pidCour

/-- Kernel code, run on from `k`, either does not call the scheduler or ends in
    a call of it; up to there the current process is the same. -/
def Passes (k k' : Kernel) : Prop :=
  k'.pidCour = k.pidCour ∨ ∃ (before : Kernel) (frame : Frame), before.pidCour = k.pidCour ∧ k' = callScheduler before frame

theorem Passes.home {k k' : Kernel} (passes : Passes k k') : Home k k' := by
  rcases passes with same | ⟨before,frame,_,rfl⟩
  · exact .inr same
  · exact .inl rfl

theorem Passes.sysret {k k' : Kernel} (same : k'.pidCour = k.pidCour) (ret : Option Int) : Passes k (sysret k' ret) := by
  refine .inl ?_
  rw [← same]
  rfl

theorem callScheduler_passes {k k' : Kernel} (same : k'.pidCour = k.pidCour) (frame : Frame) :
    Passes k (callScheduler k' frame) := .inr ⟨k',frame,same,rfl⟩

theorem kill_passes {k k' : Kernel} (same : k'.pidCour = k.pidCour) (pid : Int) : Passes k (kill k' pid) := by
  rcases kill_cases k' pid with refused | ⟨_,_,called⟩
  · rw [refused]
    exact .sysret same _
  · rw [called]
    exact callScheduler_passes ((killProcess_pidCour _ _).trans same) _

theorem handlePfault_passes {k k' : Kernel} (same : k'.pidCour = k.pidCour) : Passes k (handlePfault k') := by
  unfold handlePfault
  split
  · exact callScheduler_passes same _
  · exact kill_passes same _

theorem reap_passes (k : Kernel) (child : Int) (retvalp : Nat) : Passes k (reap k child retvalp) := by
  unfold reap
  split
  · exact handlePfault_passes rfl
  · refine .sysret ?_ _
    dsimp only
    split <;> rfl

theorem waitpid_passes (k : Kernel) (pid : Int) (retvalp : Nat) : Passes k (waitpid k pid retvalp) := by
  rcases waitpid_cases k pid retvalp with ⟨_,_,called⟩ | ⟨_,_,called⟩ | ⟨_,_,called⟩ | ⟨_,_,_,called⟩
  all_goals rw [called]
  · exact .sysret rfl _
  · exact reap_passes _ _ _
  · exact callScheduler_passes rfl _
  · exact callScheduler_passes rfl _

theorem chprio_passes (k : Kernel) (pid newprio : Int) : Passes k (chprio k pid newprio) := by
  rcases chprio_cases k pid newprio with ⟨_,refused⟩ | ⟨_,_,_,_,⟨_,called⟩ | called⟩
  · rw [refused]
    exact .sysret rfl _
  · rw [called]
    exact callScheduler_passes rfl _
  · rw [called]
    refine callScheduler_passes ?_ _
    split
    · exact requeue_pidCour _ _
    · rfl

theorem start_passes (k : Kernel) (ssize : Nat) (prio : Int) (memory : Memory) : Passes k (start k ssize prio memory) := by
  rcases start_cases k ssize prio memory with ⟨_,refused⟩ | ⟨_,⟨_,_,_,called⟩ | ⟨_,_,_,called⟩ | ⟨_,called⟩⟩
  · rw [refused]
    exact .sysret rfl _
  · rw [called]
    exact callScheduler_passes (contextCreateUser_pidCour k.toProcs prio memory) _
  · rw [called]
    exact .sysret (contextCreateUser_pidCour k.toProcs prio memory) _
  · rw [called]
    exact handlePfault_passes (contextCreateUser_pidCour k.toProcs prio memory)

theorem signalOne_pidCour (k : Kernel) (sid : Int) : (signalOne k sid).pidCour = k.pidCour := by
  unfold signalOne
  dsimp only
  split
  · split
    · rfl
    · exact wakeupProcess_pidCour _ _
  · rfl

theorem signalLoop_pidCour (sid : Int) (count : Nat) (k : Kernel) : (signalLoop sid count k).pidCour = k.pidCour := by
  induction count generalizing k with
  | zero => rfl
  | succ count ih => exact (ih (signalOne k sid)).trans (signalOne_pidCour k sid)

theorem dismissAll_pidCour (k : Kernel) (sid : Int) (cause : Cause) (mark : Context → Context) :
    (dismissAll k sid cause mark).pidCour = k.pidCour := by
  have fold : ∀ (waiting : List Int) (k : Kernel), (waiting.foldl (dismiss sid cause mark) k).pidCour = k.pidCour := by
    intro waiting
    induction waiting with
    | nil => exact fun _ => rfl
    | cons pid rest ih => exact fun k => (ih (dismiss sid cause mark k pid)).trans (wakeupProcess_pidCour _ _)
  exact fold _ _

theorem updateTimer_pidCour (k : Kernel) : (updateTimer k).pidCour = k.pidCour := by
  have fold : ∀ (rest : List Int) (p : Procs), (rest.foldl (wakeSleeper k.nbInterrupt) p).pidCour = p.pidCour := by
    intro rest
    induction rest with
    | nil => exact fun _ => rfl
    | cons pid rest ih =>
      intro p
      refine (ih (wakeSleeper k.nbInterrupt p pid)).trans ?_
      unfold wakeSleeper
      split
      · exact wakeupProcess_pidCour _ _
      · rfl
  exact fold _ _

theorem screate_passes (k : Kernel) (compteur : Int) (memory : Bool) : Passes k (screate k compteur memory) := by
  unfold screate
  dsimp only
  split
  · exact .sysret rfl _
  split
  · exact .sysret rfl _
  split
  · exact .inl rfl
  split
  · exact .sysret rfl _
  · exact .sysret rfl _

theorem getprio_passes (k : Kernel) (pid : Int) : Passes k (getprio k pid) := by
  obtain ⟨_,called⟩ := getprio_sysret k pid
  rw [called]
  exact .sysret rfl _

theorem wait_passes (k : Kernel) (sid : Int) : Passes k (Semaphore.wait k sid) := by
  unfold Semaphore.wait
  dsimp only
  repeat' split
  · exact .sysret rfl _
  · exact .sysret rfl _
  · exact callScheduler_passes rfl _
  · exact .sysret rfl _

theorem waitResume_passes (k : Kernel) : Passes k (waitResume k) := by
  rcases waitResume_cases k with ⟨_,called⟩ | ⟨_,called⟩
  all_goals
    rw [called]
    exact .sysret rfl _

theorem tryWait_passes (k : Kernel) (sid : Int) : Passes k (tryWait k sid) := by
  unfold tryWait
  dsimp only
  repeat' split
  all_goals exact .sysret rfl _

theorem signal_passes (k : Kernel) (sid : Int) : Passes k (Semaphore.signal k sid) := by
  rcases signal_cases k sid with ⟨_,refused⟩ | ⟨_,_,⟨_,called⟩ | ⟨_,called⟩⟩
  · rw [refused]
    exact .sysret rfl _
  · rw [called]
    exact callScheduler_passes (signalOne_pidCour k sid) _
  · rw [called]
    exact .sysret (signalOne_pidCour k sid) _

theorem signaln_passes (k : Kernel) (sid count : Int) : Passes k (signaln k sid count) := by
  rcases signaln_cases k sid count with ⟨_,refused⟩ | ⟨_,_,_,called⟩
  · rw [refused]
    exact .sysret rfl _
  · rw [called]
    exact callScheduler_passes (signalLoop_pidCour sid _ k) _

theorem scount_passes (k : Kernel) (sid : Int) : Passes k (scount k sid) := by
  obtain ⟨_,called⟩ := scount_sysret k sid
  rw [called]
  exact .sysret rfl _

theorem sreset_passes (k : Kernel) (sid count : Int) : Passes k (sreset k sid count) := by
  rcases sreset_cases k sid count with ⟨_,refused⟩ | ⟨_,_,called⟩
  · rw [refused]
    exact .sysret rfl _
  · rw [called]
    exact callScheduler_passes (dismissAll_pidCour _ sid _ _) _

theorem sdelete_passes (k : Kernel) (sid : Int) : Passes k (sdelete k sid) := by
  rcases sdelete_cases k sid with ⟨_,refused⟩ | ⟨_,called⟩
  · rw [refused]
    exact .sysret rfl _
  · rw [called]
    refine callScheduler_passes ?_ _
    exact dismissAll_pidCour _ sid _ _

theorem setStdout_passes (k : Kernel) (node : Option Int) : Passes k (setStdout k node) := by
  unfold setStdout
  split <;> exact .sysret rfl _

theorem takeByte_passes {k k' : Kernel} (same : k'.pidCour = k.pidCour) (vc : Int) (buf len left : Nat)
    {loop : Kernel → Kernel} (loops : ∀ k', k'.pidCour = k.pidCour → Passes k (loop k')) :
    Passes k (takeByte k' vc buf len left loop) := by
  unfold takeByte
  dsimp only
  split
  · exact .sysret (by exact same) _
  split
  · exact handlePfault_passes same
  · exact loops _ same

theorem consReadLoop_passes {k : Kernel} (vc : Int) (buf len left : Nat) :
    ∀ k' : Kernel, k'.pidCour = k.pidCour → Passes k (consReadLoop vc buf len left k') := by
  induction left with
  | zero =>
    intro k' same
    exact .sysret same _
  | succ left ih =>
    intro k' same
    unfold consReadLoop
    split
    · refine callScheduler_passes ?_ _
      exact same
    · exact takeByte_passes same _ _ _ _ ih

theorem handle_passes (k : Kernel) (c : Call) : Passes k (handle k c) := by
  cases c with
  | start ssize prio memory => exact start_passes _ _ _ _
  | exit retval => exact callScheduler_passes (exitProcess_pidCour k.toProcs retval) _
  | kill pid => exact kill_passes rfl pid
  | getprio pid => exact getprio_passes _ _
  | chprio pid newprio => exact chprio_passes _ _ _
  | getpid => exact .sysret rfl _
  | getppid => exact .sysret rfl _
  | waitpid pid retvalp => exact waitpid_passes _ _ _
  | waitClock clock => exact callScheduler_passes rfl _
  | currentClock => exact .sysret rfl _
  | screate compteur memory => exact screate_passes _ _ _
  | wait sid => exact wait_passes _ _
  | tryWait sid => exact tryWait_passes _ _
  | signal sid => exact signal_passes _ _
  | signaln sid count => exact signaln_passes _ _ _
  | scount sid => exact scount_passes _ _
  | sreset sid count => exact sreset_passes _ _ _
  | sdelete sid => exact sdelete_passes _ _
  | consRead buf len => exact consReadLoop_passes _ _ _ _ k rfl
  | setBuffered buffered => exact .sysret rfl _
  | setStdout node => exact setStdout_passes _ _
  | sigReturn => exact callScheduler_passes rfl _

theorem resume_passes (k : Kernel) : Passes k (resume k) := by
  unfold resume
  split
  · exact .inl rfl
  split
  · exact .sysret rfl _
  · exact .sysret rfl _
  · exact waitResume_passes _
  · exact reap_passes _ _ _
  · exact reap_passes _ _ _
  · exact takeByte_passes rfl _ _ _ _ (consReadLoop_passes _ _ _ _)
  · exact .inl rfl
  · exact handlePfault_passes rfl

theorem keyboardData_passes (k : Kernel) (key : UInt8) : Passes k (keyboardData k key) := by
  unfold keyboardData
  split
  · exact .inl rfl
  · unfold bufferPush
    dsimp only
    split
    · exact .inl (wakeupProcess_pidCour _ _)
    · exact .inl rfl

/-- Every step ends so. -/
theorem kernelStep_passes {k k' : Kernel} {e : System.Event} (stepped : System.step k e = some k') : Passes k k' := by
  rcases Invariant.step_cases stepped with ⟨c,_,_,_,rfl⟩ | ⟨_,_,_,rfl⟩ | ⟨_,_,rfl⟩ | ⟨key,_,_,rfl⟩ |
    ⟨vcNumber,_,_,rfl⟩ | ⟨_,_,rfl⟩
  · exact handle_passes k c
  · exact handlePfault_passes rfl
  · exact callScheduler_passes (updateTimer_pidCour _) _
  · exact keyboardData_passes _ _
  · refine .inl ?_
    unfold vcFlip
    split <;> rfl
  · exact resume_passes k

/-- Only the scheduler passes the processor on. -/
theorem kernelStep_home {k k' : Kernel} {e : System.Event} (stepped : System.step k e = some k') : Home k k' :=
  (kernelStep_passes stepped).home

end Psys.Handover
