import Psys.Inputs
import Psys.SemCalls
import Psys.System

/-!
The invariant of the whole kernel. It survives every step, whatever the
processes do, except two that leave a stale PID behind: a `kill` of a process
that waits on a semaphore, and a key that wakes up a process which is no longer
waiting for input.
-/
namespace Psys.Invariant
open Psys.State Psys.Context Psys.Sys Psys.System Psys.ProcQueue Psys.Family Psys.Termination Psys.Processes Psys.Creation
open Psys.Semaphore Psys.Devices Psys.Calls Psys.Waiting Psys.Inputs Psys.SemCalls

/-- The steps that leave no stale PID behind: no `kill` of a process that waits
    on a semaphore, and no key that wakes up a process in use which neither
    reads a console nor sleeps until a tick. -/
def Safe (k : Kernel) : Event → Prop
  | .call (.kill pid) => 1 < pid → InUse k.tabProc pid → (k.tabProc pid).state ≠ .waitSem
  | .key c => Welcome k c
  | _ => True

instance (k : Kernel) (e : Event) : Decidable (Safe k e) := by
  unfold Safe
  split <;> infer_instance

/-- The kernel code that may run into a page fault. -/
def Faulty : Frame → Prop
  | .waitpidAny retvalp | .waitpid _ retvalp => retvalp ≠ 0 ∧ ¬ Mapped retvalp
  | .consRead _ _ _ _ | .fault => True
  | .user | .ret _ | .wait _ | .exit => False

instance : DecidablePred Faulty := fun frame => by
  unfold Faulty
  split <;> infer_instance

/-- The steps in which the current process may run into a page fault. -/
def Faults (k : Kernel) : Event → Prop
  | .fault | .call (.consRead _ _) => True
  | .call (.start ssize _ memory) => ssize ≤ 0xffffffe7 ∧ Stumbles k.tabProc memory
  | .call (.waitpid pid retvalp) =>
    (∃ child, Finds k.toProcs pid child) ∧ checkPointer retvalp ≠ 0 ∧ ¬ Mapped (checkPointer retvalp)
  | .resume => Faulty (k.tabProc k.pidCour).frame
  | _ => False

instance (k : Kernel) (e : Event) : Decidable (Faults k e) := by
  unfold Faults
  split <;> infer_instance

/-- The argument of a call of `kill`. -/
def victim : Event → Option Int
  | .call (.kill pid) => some pid
  | _ => none

/-- The steps that kill no process, by `kill` or by a page fault, whose father
    sleeps in `waitpid(-1)`. -/
def Heard (k : Kernel) (e : Event) : Prop :=
  (∀ pid ∈ victim e, Live k.tabProc pid → ¬ Unheard k.tabProc pid) ∧ (Faults k e → ¬ Unheard k.tabProc k.pidCour)
instance (k : Kernel) (e : Event) : Decidable (Heard k e) := inferInstanceAs (Decidable (_ ∧ _))

/-- The steps that take the descriptor of `pid` for a new process. -/
def Reuses (k : Kernel) : Event → Int → Prop
  | .call (.start ssize _ memory), pid => Takes k.tabProc ssize memory pid
  | _, _ => False

variable {lost : Prop} {gone : Int → Nat → Prop} {k k' : Kernel}

theorem Keeps.good (keeps : Keeps lost gone k k') (counted : Counted k) : Good lost gone k' := by
  refine ⟨keeps.stable,?_⟩
  rw [Counted,keeps.untouched.semaphores,keeps.untouched.sidLibres]
  exact counted.unconcerned keeps.untouched.processes

/-- The steps that run no code of `semaphore.c`, but for `scount`. -/
def Quiet (k : Kernel) : Event → Prop
  | .call (.screate _ _) | .call (.wait _) | .call (.tryWait _) | .call (.signal _) | .call (.signaln _ _)
  | .call (.sreset _ _) | .call (.sdelete _) => False
  | .resume => k.pidCour = 0 ∨ ∀ sid, (k.tabProc k.pidCour).frame ≠ .wait sid
  | _ => True

/-! ### Steps outside `semaphore.c` -/

/-- A call of `kill` leaves no father without an answer. -/
theorem Heard.kill {pid : Int} (heard : Heard k (.call (.kill pid)) ∨ lost) (live : Live k.tabProc pid)
    (unheard : Unheard k.tabProc pid) : lost :=
    heard.resolve_left (fun said => said.1 pid rfl live unheard)

/-- A page fault of the current process leaves no father without an answer. -/
theorem Heard.fault {e : Event} (heard : Heard k e ∨ lost) (faults : Faults k e) (unheard : Unheard k.tabProc k.pidCour) :
    lost := heard.resolve_left (fun said => said.2 faults unheard)

theorem scount_keeps (inside : Inside lost gone k.toProcs) (going : Going k.toProcs) (sid : Int) :
    Keeps lost gone k (scount k sid) := by
  obtain ⟨_,called⟩ := scount_sysret k sid
  rw [called]
  exact sysret_keeps inside going _

/-- The system calls outside `semaphore.c`. -/
theorem handle_keeps (stable : Stable lost gone k) (mode : k.inKernel = false) (busy : k.pidCour ≠ 0) (c : Call)
    (quiet : Quiet k (.call c)) (safe : Safe k (.call c)) (heard : Heard k (.call c) ∨ lost)
    (apart : ∀ pid, Reuses k (.call c) pid → ∀ n, ¬ gone pid n) : Keeps lost gone k (handle k c) := by
  have inside := stable.toInside
  have going := stable.going mode busy
  cases c with
  | start ssize prio memory =>
    have told : ssize ≤ 0xffffffe7 → Stumbles k.tabProc memory → Unheard k.tabProc k.pidCour → lost :=
      fun small stumbles => Heard.fault heard ⟨small,stumbles⟩
    exact ⟨start_stable inside going ssize prio apart told,start_untouched inside going ssize prio apart told⟩
  | exit retval => exact ⟨exit_stable inside going retval,exit_untouched inside going retval⟩
  | kill pid =>
    have told := Heard.kill heard
    exact ⟨kill_stable inside going told,kill_untouched inside (fun above live => safe above live.1) told⟩
  | getprio pid => exact ⟨getprio_stable inside going pid,getprio_untouched pid⟩
  | chprio pid newprio => exact ⟨chprio_stable inside going pid newprio,chprio_untouched inside going pid newprio⟩
  | getpid => exact sysret_keeps inside going _
  | getppid => exact sysret_keeps inside going _
  | waitpid pid retvalp =>
    have told : (∃ child, Finds k.toProcs pid child) → checkPointer retvalp ≠ 0 → ¬ Mapped (checkPointer retvalp) →
        Unheard k.tabProc k.pidCour → lost := fun found some unmapped => Heard.fault heard ⟨found,some,unmapped⟩
    exact ⟨waitpid_stable inside going pid retvalp told,waitpid_untouched inside going pid retvalp told⟩
  | waitClock clock => exact waitClock_keeps inside going clock
  | currentClock => exact sysret_keeps inside going _
  | scount sid => exact scount_keeps inside going sid
  | consRead buf len =>
    have told : Unheard k.tabProc k.pidCour → lost := Heard.fault heard trivial
    exact consReadLoop_keeps _ _ _ _ inside going told
  | setBuffered buffered => exact setBuffered_keeps inside going buffered
  | setStdout node => exact setStdout_keeps inside going node
  | sigReturn =>
    exact ⟨callScheduler_stable inside (fun _ => Going.fits going (fun _ _ runs => .inl runs)),
      callScheduler_untouched inside (by simp)⟩
  | screate _ _ | wait _ | tryWait _ | signal _ | signaln _ _ | sreset _ _ | sdelete _ => exact quiet.elim

section
variable (stable : Stable lost gone k) (busy : k.pidCour ≠ 0)
include stable busy

/-- A process that gets the processor back may run on, unless that is the end
    of `wait`. -/
theorem resume_going (notWait : ∀ sid, (k.tabProc k.pidCour).frame ≠ .wait sid) : Going k.toProcs := by
  have live := stable.live busy
  refine ⟨live,stable.running busy,?_⟩
  by_contra mark
  obtain ⟨_,sid,frame⟩ := (stable.current busy).reseted live (by simpa using mark)
  exact notWait sid frame

/-- A father that gets the processor back in `waitpid(-1)` has a child to report. -/
theorem resume_any {retvalp : Nat} (frame : (k.tabProc k.pidCour).frame = .waitpidAny retvalp) :
    Reported lost k.toProcs (k.tabProc k.pidCour).pidWait := by
  have holds := (stable.current busy).holds (stable.live busy)
  simp only [frame,Holds,stable.running busy] at holds
  rcases holds with ⟨asleep,_⟩ | ⟨_,missing | found⟩
  · simp at asleep
  · exact .inl missing
  · exact .inr found

/-- So has one that waits for a certain child. -/
theorem resume_one {pid : Int} {retvalp : Nat} (frame : (k.tabProc k.pidCour).frame = .waitpid pid retvalp) :
    pid ∈ (k.tabProc k.pidCour).children ∧ (k.tabProc pid).state = .zombie := by
  have holds := (stable.current busy).holds (stable.live busy)
  simp only [frame,Holds,stable.running busy] at holds
  rcases holds with ⟨asleep,_⟩ | ⟨_,found⟩
  · simp at asleep
  · exact found

end

/-- The rest of the kernel code that a process runs when it gets the processor
    back, unless that is the end of `wait`. -/
theorem resume_keeps (stable : Stable lost gone k) (quiet : Quiet k .resume) (heard : Heard k .resume ∨ lost) :
    Keeps lost gone k (resume k) := by
  have inside := stable.toInside
  unfold resume
  split
  · rename_i idle
    refine ⟨⟨inside,stable.running,stable.current,fun _ busy => absurd idle busy,fun mode => ?_⟩,rfl,rfl,rfl,.refl _⟩
    simp at mode
  · rename_i busy
    have notWait := quiet.resolve_left busy
    have going := resume_going stable busy notWait
    split
    · exact sysret_keeps inside going _
    · exact sysret_keeps inside going _
    · rename_i sid frame
      exact absurd frame (notWait sid)
    · rename_i retvalp frame
      have reported := resume_any stable busy frame
      have told : retvalp ≠ 0 → ¬ Mapped retvalp → Unheard k.tabProc k.pidCour → lost := fun some unmapped =>
        Heard.fault heard (by simp [Faults,Faulty,frame,some,unmapped])
      exact ⟨reap_stable inside going _ reported told,reap_untouched inside going _ reported told⟩
    · rename_i pid retvalp frame
      have reported : Reported lost k.toProcs pid := .inr (resume_one stable busy frame)
      have told : retvalp ≠ 0 → ¬ Mapped retvalp → Unheard k.tabProc k.pidCour → lost := fun some unmapped =>
        Heard.fault heard (by simp [Faults,Faulty,frame,some,unmapped])
      exact ⟨reap_stable inside going _ reported told,reap_untouched inside going _ reported told⟩
    · rename_i vc buf len left frame
      have told : Unheard k.tabProc k.pidCour → lost := Heard.fault heard (by simp [Faults,Faulty,frame])
      refine takeByte_keeps inside going (fun k'' same untouched => ?_) told
      have keeps := consReadLoop_keeps vc buf len left (k := k'') (same ▸ inside) (same ▸ going) (same ▸ told)
      exact ⟨keeps.stable,untouched.trans keeps.untouched⟩
    · rename_i frame
      have holds := (stable.current busy).holds (stable.live busy)
      simp [frame,Holds] at holds
    · rename_i frame
      exact handlePfault_keeps inside going (Heard.fault heard (by simp [Faults,Faulty,frame]))

/-- What an enabled step computes. -/
theorem step_cases {e : Event} (stepped : step k e = some k') :
    (∃ c, e = .call c ∧ k.inKernel = false ∧ k.pidCour ≠ 0 ∧ k' = handle k c) ∨
      (e = .fault ∧ k.inKernel = false ∧ k.pidCour ≠ 0 ∧ k' = handlePfault k) ∨
      (e = .tick ∧ k.inKernel = false ∧ k' = int32 k) ∨
      (∃ key, e = .key key ∧ k.inKernel = false ∧ k' = keyboardData k key) ∨
      (∃ vcNumber, e = .flip vcNumber ∧ k.inKernel = false ∧ k' = vcFlip k vcNumber) ∨
      (e = .resume ∧ k.inKernel = true ∧ k' = resume k) := by
  cases e <;> simp only [step,Option.ite_none_left_eq_some,not_or,Option.some.injEq,Bool.not_eq_true,
    Bool.not_eq_false] at stepped
  · obtain ⟨⟨_,mode,busy⟩,rfl⟩ := stepped; exact .inl ⟨_,rfl,mode,busy,rfl⟩
  · obtain ⟨⟨_,mode,busy⟩,rfl⟩ := stepped; exact .inr (.inl ⟨rfl,mode,busy,rfl⟩)
  · obtain ⟨⟨_,mode⟩,rfl⟩ := stepped; exact .inr (.inr (.inl ⟨rfl,mode,rfl⟩))
  · obtain ⟨⟨_,mode⟩,rfl⟩ := stepped; exact .inr (.inr (.inr (.inl ⟨_,rfl,mode,rfl⟩)))
  · obtain ⟨⟨_,mode⟩,rfl⟩ := stepped; exact .inr (.inr (.inr (.inr (.inl ⟨_,rfl,mode,rfl⟩))))
  · obtain ⟨⟨_,mode⟩,rfl⟩ := stepped; exact .inr (.inr (.inr (.inr (.inr ⟨rfl,mode,rfl⟩))))

theorem step_called {c : Call} (stepped : step k (.call c) = some k') :
    k.inKernel = false ∧ k.pidCour ≠ 0 ∧ k' = handle k c := by
  simp only [step,Option.ite_none_left_eq_some,not_or,Option.some.injEq,Bool.not_eq_true] at stepped
  exact ⟨stepped.1.2.1,stepped.1.2.2,stepped.2.symm⟩

theorem step_resumed (stepped : step k .resume = some k') : k' = resume k := by
  simp only [step,Option.ite_none_left_eq_some,Option.some.injEq] at stepped
  exact stepped.2.symm

/-- A kernel that has stopped takes no step. -/
theorem step_running {e : Event} (stepped : step k e = some k') : k.halted = false := by
  by_contra halted
  have stops : k.halted = true := by simpa using halted
  cases e <;> simp [step,stops] at stepped

/-- A step outside `semaphore.c` keeps the processes in order and leaves the
    semaphores alone. -/
theorem step_keeps (stable : Stable lost gone k) {e : Event} (quiet : Quiet k e) (safe : Safe k e)
    (heard : Heard k e ∨ lost) (apart : ∀ pid, Reuses k e pid → ∀ n, ¬ gone pid n) (stepped : step k e = some k') :
    Keeps lost gone k k' := by
  rcases step_cases stepped with ⟨c,rfl,mode,busy,rfl⟩ | ⟨rfl,mode,busy,rfl⟩ | ⟨rfl,mode,rfl⟩ | ⟨key,rfl,mode,rfl⟩ |
    ⟨vcNumber,rfl,mode,rfl⟩ | ⟨rfl,mode,rfl⟩
  · exact handle_keeps stable mode busy c quiet safe heard apart
  · exact handlePfault_keeps stable.toInside (stable.going mode busy) (Heard.fault heard trivial)
  · exact int32_keeps stable mode
  · exact keyboardData_keeps stable mode safe
  · exact vcFlip_keeps stable vcNumber
  · exact resume_keeps stable quiet heard

/-- The only other code that a process runs on with is the end of `wait`. -/
theorem resume_wait (quiet : ¬ Quiet k .resume) : k.pidCour ≠ 0 ∧ resume k = waitResume k := by
  simp only [Quiet,not_or,not_forall,not_not] at quiet
  obtain ⟨busy,sid,frame⟩ := quiet
  exact ⟨busy,by simp [resume,busy,frame]⟩

/-- Every step keeps the invariant. -/
theorem step_good (good : Good lost gone k) {e : Event} (safe : Safe k e) (heard : Heard k e ∨ lost)
    (apart : ∀ pid, Reuses k e pid → ∀ n, ¬ gone pid n) (stepped : step k e = some k') : Good lost gone k' := by
  by_cases quiet : Quiet k e
  · exact Keeps.good (step_keeps good.stable quiet safe heard apart stepped) good.counted
  rcases step_cases stepped with ⟨c,rfl,mode,busy,rfl⟩ | ⟨rfl,_⟩ | ⟨rfl,_⟩ | ⟨key,rfl,_⟩ | ⟨vcNumber,rfl,_⟩ | ⟨rfl,_,rfl⟩
  · have inside := good.stable.toInside
    have going := good.stable.going mode busy
    cases c with
    | screate compteur memory => exact screate_kept inside going good.counted compteur memory
    | wait sid => exact wait_kept inside going good.counted sid
    | tryWait sid => exact tryWait_kept inside going good.counted sid
    | signal sid => exact signal_kept inside going good.counted sid
    | signaln sid count => exact signaln_kept inside going good.counted sid count
    | sreset sid count => exact sreset_kept inside going good.counted sid count
    | sdelete sid => exact sdelete_kept inside going good.counted sid
    | _ => exact absurd trivial quiet
  · exact absurd trivial quiet
  · exact absurd trivial quiet
  · exact absurd trivial quiet
  · exact absurd trivial quiet
  · obtain ⟨busy,same⟩ := resume_wait quiet
    rw [same]
    exact waitResume_kept good.stable busy good.counted

/-! ### The start -/

/-- The processes when `context_init` creates Init. -/
def before (outside : Int → Context) : Procs where
  tabProc := fun p => if InTab p then blank else outside p
  links := Ring.empty
  pidCour := 0
  halted := false
  inserted := []

theorem before_unused (outside : Int → Context) (p : Int) : ¬ InUse (before outside).tabProc p := by
  rintro ⟨inTab,used⟩
  simp [before,inTab,blank] at used

theorem contextInit_eq (outside : Int → Context) : contextInit outside =
    wakeupProcess { before outside with tabProc := created (before outside) 1 3 } 1 := by
  have found : freePid (before outside).tabProc = some 1 := by
    have first : InTab 1 := by decide
    show List.find? _ (1 :: _) = _
    rw [List.find?_cons_of_pos]
    simp [before,first,blank]
  rcases contextCreateUser_cases (k := before outside) (.inl rfl) 3 .granted with
    ⟨none | off,_⟩ | ⟨pid,is,_,⟨unserved,_⟩ | ⟨_,same⟩⟩
  · simp [found] at none
  · simp at off
  · exact absurd (by decide) unserved
  · rw [found,Option.some.injEq] at is
    subst is
    exact congrArg Prod.fst same

/-- Init is alone. -/
theorem contextInit_inside (outside : Int → Context) : Inside lost (fun _ _ => False) (contextInit outside) := by
  have unused := before_unused outside
  have noTree : Tree (before outside).tabProc :=
    ⟨fun p live => absurd live.1 (unused p),fun p live => absurd live.1 (unused p),fun c used => absurd used (unused c),
      fun c used => absurd used (unused c),fun c used => absurd used (unused c)⟩
  have ready : Ready (before outside) [] :=
    ⟨⟨Ring.empty_ring,.nil,by simp,rfl⟩,fun p => by simp [unused p],fun p used => absurd used (unused p),.inl rfl⟩
  have inTab : InTab 1 := by decide
  have alone : ∀ p, InUse (created (before outside) 1 3) p → p = 1 := fun p used => by
    by_contra other
    exact unused p (by simpa [created,other,InUse] using used)
  have init : created (before outside) 1 3 1 = fresh (before outside) 1 3 := by simp [created]
  rw [contextInit_eq]
  refine ⟨created_ready (unused 1) inTab ready (by simp [before]) 3,?_,fun p other => ?_,fun _ _ ended => ended.elim⟩
  · rw [created_wakeup]
    refine ⟨fun p live => ?_,fun p live c member => ?_,fun c used _ above => ?_,fun c used zombie => ?_,
      fun c used above => ?_⟩
    · rw [alone p live.1,init]; exact List.nodup_nil
    · rw [alone p live.1,init] at member; simp [fresh] at member
    · rw [alone c used,init] at above; simp [fresh,before] at above
    · rw [alone c used,init] at zombie; simp [fresh] at zombie
    · rw [alone c used,init] at above; simp [fresh,before] at above
  · rw [created_wakeup]
    refine created_settled (unused 1) inTab noTree (by simpa using other) ?_ 3
    exact ⟨fun live => absurd live.1 (unused p),fun live => absurd live.1 (unused p)⟩

/-- No semaphore exists at the start, and every identifier is free once. -/
theorem semInit_eq : semInit = ((List.range NBSEM.toNat).map (fun i : Nat => (i : Int))).reverse := by
  have general : ∀ (l : List Nat) (acc : List Int),
      l.foldl (fun libres (i : Nat) => (i : Int) :: libres) acc = (l.map (fun i : Nat => (i : Int))).reverse ++ acc := by
    intro l
    induction l with
    | nil => exact fun _ => rfl
    | cons i rest ih => exact fun acc => by simp [ih]
  rw [semInit,general,List.append_nil]

theorem mem_semInit (s : Int) : s ∈ semInit ↔ 0 ≤ s ∧ s < NBSEM := by
  rw [semInit_eq]
  have size : (NBSEM.toNat : Int) = NBSEM := Int.toNat_of_nonneg (by simp [NBSEM])
  generalize NBSEM.toNat = n at size ⊢
  simp only [List.mem_reverse,List.mem_map,List.mem_range,← size]
  constructor
  · rintro ⟨i,inside,rfl⟩; omega
  · intro inside; exact ⟨s.toNat,by omega,by omega⟩

theorem semInit_nodup : semInit.Nodup := by
  rw [semInit_eq]
  generalize NBSEM.toNat = n
  exact List.nodup_reverse.mpr (List.nodup_range.map (fun _ _ same => by exact_mod_cast same))

theorem boot_idle (boot : Boot k) : k.pidCour = 0 ∧ k.inKernel = false := by
  obtain ⟨outside,consoles,rfl⟩ := boot
  refine ⟨?_,rfl⟩
  show (contextInit outside).pidCour = 0
  rw [contextInit_eq]; simp [before]

/-- Init is the only process at the start. -/
theorem boot_init (boot : Boot k) {p : Int} (used : InUse k.tabProc p) :
    p = 1 ∧ (k.tabProc p).state = .activable ∧ (k.tabProc p).frame = .user ∧ (k.tabProc p).children = [] ∧
      (k.tabProc p).pidParent = 0 ∧ (k.tabProc p).killed = false := by
  obtain ⟨outside,consoles,rfl⟩ := boot
  simp only [kernelStart,contextInit_eq,created_wakeup] at used ⊢
  by_cases init : p = 1
  · subst init; simp [created,fresh,before]
  · exact absurd (by simpa [created,init,InUse] using used) (before_unused outside p)

theorem boot_inUse (boot : Boot k) : InUse k.tabProc 1 := by
  obtain ⟨outside,consoles,rfl⟩ := boot
  simp only [kernelStart,contextInit_eq,created_wakeup]
  simp [InUse,InTab,NBPROC,created,fresh,before]

theorem boot_good (boot : Boot k) : Good lost (fun _ _ => False) k := by
  have idle := (boot_idle boot).1
  have alone := fun p (used : InUse k.tabProc p) => (boot_init boot used).2.1
  obtain ⟨outside,consoles,rfl⟩ := boot
  have inside : Inside lost (fun _ _ => False) (contextInit outside) := contextInit_inside outside
  refine ⟨⟨inside,fun busy => absurd idle busy,fun busy => absurd idle busy,fun _ busy => absurd idle busy,
    fun mode => by simp [kernelStart] at mode⟩,?_⟩
  have none : ∀ s, ¬ SemInUse (kernelStart outside consoles).semaphores s := fun s used => by
    simp [kernelStart,SemInUse] at used
  have libres : (kernelStart outside consoles).sidLibres = semInit := by rw [kernelStart]
  rw [Counted,libres]
  refine ⟨fun s used => absurd used (none s),fun s used => absurd used (none s),fun s used => absurd used (none s),
    fun s used => absurd used (none s),fun p s waits => ?_,semInit_nodup,fun s member => ?_⟩
  · exact absurd ((alone p waits.1).symm.trans waits.2.1) (by simp)
  · obtain ⟨low,high⟩ := (mem_semInit s).mp member
    exact ⟨low,high,rfl⟩

/-- The invariant holds in every state that safe steps reach. -/
theorem reach_good (reached : Reach (fun k e => Safe k e ∧ (Heard k e ∨ lost)) k) : Good lost (fun _ _ => False) k :=
  reached.invariant (fun _ => boot_good)
    (fun _ _ _ good allowed stepped => step_good good allowed.1 allowed.2 (fun _ _ _ => id) stepped)

/-- Without a claim on the fathers that `kill` leaves without an answer. -/
theorem reach_safe (reached : Reach Safe k) : Good True (fun _ _ => False) k :=
  reach_good (reached.weaken (fun _ _ safe => ⟨safe,.inr trivial⟩))

end Psys.Invariant
