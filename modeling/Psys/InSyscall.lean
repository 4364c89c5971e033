import Psys.Dispatch
import Psys.Handover

/-!
`in_syscall` on runs of the kernel. It is one variable for all processes: a
handler sets it when it is entered and resets it when it returns, while system
calls stop in `scheduler` and other processes go on.
-/
namespace Psys.InSyscall
open Psys.State Psys.Context Psys.Sys Psys.Semaphore Psys.Devices Psys.System Psys.Dispatch
open Psys.Handover (Home kernelStep_home)
open Psys.Invariant (boot_idle)
open Psys.Runs (run)

/-! ### The kernel with `in_syscall` -/

/-- The system calls whose work on processes and console input is `c`.
    `usleep` and `buzzer_beep` end in `wait_clock`. -/
def serves (f : Routine) : Call → Bool
  | .start .. => f = .start
  | .exit _ => f = .exit
  | .kill _ => f = .kill
  | .getprio _ => f = .getprio
  | .chprio .. => f = .chprio
  | .getpid => f = .getpid
  | .getppid => f = .getppid
  | .waitpid .. => f = .waitpid
  | .waitClock _ => f = .waitClock ∨ f = .usleep ∨ f = .buzzerBeep
  | .currentClock => f = .currentClock
  | .screate .. => f = .screate
  | .wait _ => f = .wait
  | .tryWait _ => f = .tryWait
  | .signal _ => f = .signal
  | .signaln .. => f = .signaln
  | .scount _ => f = .scount
  | .sreset .. => f = .sreset
  | .sdelete _ => f = .sdelete
  | .consRead .. => f = .consRead
  | .setBuffered _ => f = .consIoctl
  | .setStdout _ => f = .setStdout
  | .sigReturn => f = .sigReturn

/-- The system calls that can end without work on processes or console input. -/
def plain (f : Routine) : Bool :=
  f ∈ [.contextPs,.semInfo,.clear,.consEcho,.open,.close,.chdir,.consWrite,.clockSettings,.consIoctl,.fstat,
    .signalSend,.sigaction,.getcwd,.read,.write,.readdir]

structure Machine where
  kernel : Kernel
  inSyscall : UInt32
  /-- History: the number of the system call that a process is inside of; none
      for a process in user mode or interrupted there. -/
  inside : Int → Option UInt32
  /-- History: the process that had the processor last, 0 before the first. -/
  last : Int

inductive Event where
  /-- A system call that works on processes or console input, with any
      arguments that the registers can stand for. -/
  | call (r : Registers) (c : Call)
  /-- Another system call, up to its end. -/
  | plain (r : Registers)
  /-- A system call in which the kernel makes a page fault. -/
  | broken (r : Registers)
  /-- What else happens to the kernel. -/
  | other (e : System.Event)

/-- The entry of the current process into a system call. -/
@[simps]
def enter (m : Machine) (r : Registers) : Machine :=
  { m with
    inSyscall := (int49 m.inSyscall r).inSyscall
    inside := Function.update m.inside m.kernel.pidCour (some r.eax) }

/-- The child of a call of `start` is in no system call. -/
def born (m : Machine) : Call → Machine
  | .start ssize prio memory =>
    if ssize > 0xffffffe7 then m
    else
      match (contextCreateUser m.kernel.toProcs prio memory).2 with
      | none => m
      | some pid => { m with inside := Function.update m.inside pid none }
  | _ => m

/-- What `syscall_handlerN` writes when its function has returned. -/
def idleCode : UInt32 := 0xff

/-- The kernel has run on to `k` for the current process of `m`, which was in a
    system call and is in user mode again. -/
def Returns (m : Machine) (k : Kernel) : Prop :=
  m.kernel.pidCour ≠ 0 ∧ (m.inside m.kernel.pidCour).isSome ∧ k.inKernel = false ∧ k.halted = false
instance (m : Machine) (k : Kernel) : Decidable (Returns m k) := inferInstanceAs (Decidable (_ ∧ _))

/-- The machine after the kernel has run on to `k`. -/
@[simps]
def advance (m : Machine) (k : Kernel) : Machine where
  kernel := k
  inSyscall := if Returns m k then idleCode else m.inSyscall
  inside := if Returns m k then Function.update m.inside m.kernel.pidCour none else m.inside
  last := if k.pidCour = 0 then m.last else k.pidCour

/-- One step, when the machine can take it. -/
def step (m : Machine) : Event → Option Machine
  | .call r c =>
    match (int49 m.inSyscall r).jump with
    | .called f _ =>
      if serves f c then (System.step m.kernel (.call c)).map (advance (enter (born m c) r)) else none
    | _ => none
  | .plain r =>
    match (int49 m.inSyscall r).jump with
    | .called f _ =>
      if plain f ∧ m.kernel.halted = false ∧ m.kernel.inKernel = false ∧ m.kernel.pidCour ≠ 0
      then some (advance (enter m r) m.kernel) else none
    | _ => none
  | .broken r =>
    match (int49 m.inSyscall r).jump with
    | .called _ _ => (System.step m.kernel .fault).map (advance (enter m r))
    | _ => none
  | .other (.call _) => none
  | .other e => (System.step m.kernel e).map (advance m)

/-- The start: `in_syscall` is 0. -/
def Boot (m : Machine) : Prop :=
  System.Boot m.kernel ∧ m.inSyscall = 0 ∧ m.inside = (fun _ => none) ∧ m.last = 0

/-- A start in zeroed memory. -/
def zeroed : Machine := ⟨System.zeroed,0,fun _ => none,0⟩

theorem zeroed_boot : Boot zeroed := ⟨System.zeroed_boot,rfl,rfl,rfl⟩

/-- The states that the machine reaches by steps that meet a guard. -/
abbrev Reach (guard : Machine → Event → Prop) : Machine → Prop := Runs.Reach Boot step guard

/-! ### What `in_syscall` should be -/

/-- `in_syscall` fits a process: it is the number of the call that the process
    is inside of, and no registered number when it is in none. -/
structure Fits (m : Machine) (p : Int) : Prop where
  serving : ∀ code, m.inside p = some code → m.inSyscall = code
  interrupted : m.inside p = none → ¬ Registered m.inSyscall

/-- `in_syscall` fits the current process, for which the kernel runs or will
    run at the next interrupt. -/
def Right (m : Machine) : Prop := m.kernel.pidCour ≠ 0 → Fits m m.kernel.pidCour

/-- The step leaves the processor with the process that had it last, or with
    none, or with a process that was left where that one is: in the same system
    call, or both in user mode. -/
def SamePlace (m : Machine) (e : Event) : Prop :=
  ∀ m', step m e = some m' → m'.kernel.pidCour ≠ 0 → m'.inside m'.kernel.pidCour = m'.inside m.last

theorem samePlace_all (m : Machine) (e : Event) : (step m e).all (fun m' =>
    decide (m'.kernel.pidCour ≠ 0 → m'.inside m'.kernel.pidCour = m'.inside m.last)) = true ↔ SamePlace m e := by
  rw [Option.all_eq_true]
  simp only [decide_eq_true_eq]
  exact Iff.rfl

instance (m : Machine) (e : Event) : Decidable (SamePlace m e) := decidable_of_iff _ (samePlace_all m e)

variable {m m' : Machine} {p : Int}

theorem idleCode_free : ¬ Registered idleCode := by decide

/-- A handler that returns leaves `in_syscall` right for its process. -/
theorem advance_fits (fits : Fits m p) (ran : m.kernel.pidCour ≠ 0 → m.kernel.pidCour = p) (k : Kernel) :
    Fits (advance m k) p := by
  by_cases returns : Returns m k
  · have same := ran returns.1
    constructor
    · intro code inside
      rw [advance_inside,if_pos returns,same,Function.update_self] at inside
      cases inside
    · intro _
      rw [advance_inSyscall,if_pos returns]
      exact idleCode_free
  · constructor
    · intro code inside
      rw [advance_inside,if_neg returns] at inside
      rw [advance_inSyscall,if_neg returns]
      exact fits.serving code inside
    · intro inside
      rw [advance_inside,if_neg returns] at inside
      rw [advance_inSyscall,if_neg returns]
      exact fits.interrupted inside

/-- A process that enters a system call finds its number in `in_syscall`. -/
theorem enter_fits {r : Registers} {f : Routine} {args : List UInt32}
    (called : (int49 m.inSyscall r).jump = .called f args) : Fits (enter m r) m.kernel.pidCour := by
  obtain ⟨stored,_,_⟩ := int49_called called
  constructor
  · intro code inside
    rw [enter_inside,Function.update_self] at inside
    cases inside
    exact stored
  · intro inside
    rw [enter_inside,Function.update_self] at inside
    cases inside

/-- What the birth of a child leaves as it is. -/
structure Near (m n : Machine) : Prop where
  kernel : n.kernel = m.kernel
  last : n.last = m.last
  inSyscall : n.inSyscall = m.inSyscall
  inside : ∀ p code, n.inside p = some code → m.inside p = some code

theorem born_near (m : Machine) (c : Call) : Near m (born m c) := by
  have same : Near m m := ⟨rfl,rfl,rfl,fun _ _ inside => inside⟩
  cases c
  case start ssize prio memory =>
    simp only [born]
    split
    · exact same
    · split
      · exact same
      next pid _ =>
      refine ⟨rfl,rfl,rfl,?_⟩
      intro p code inside
      dsimp only at inside
      by_cases child : p = pid
      · rw [child,Function.update_self] at inside
        cases inside
      · rwa [Function.update_of_ne child] at inside
  all_goals exact same

theorem busy_of_fault {k k' : Kernel} (stepped : System.step k .fault = some k') : k.pidCour ≠ 0 := by
  simp only [System.step,Option.ite_none_left_eq_some,not_or] at stepped
  exact stepped.1.2.2

/-- What a step does: the kernel runs on, perhaps after the current process has
    entered a system call. -/
theorem step_cases {e : Event} (stepped : step m e = some m') :
    (∃ k, Home m.kernel k ∧ m' = advance m k) ∨
      ∃ n r f args k, Near m n ∧ m.kernel.pidCour ≠ 0 ∧ (int49 m.inSyscall r).jump = .called f args ∧
        Home m.kernel k ∧ m' = advance (enter n r) k := by
  cases e with
  | call r c =>
    simp only [step] at stepped
    split at stepped
    case h_1 f args called =>
      split at stepped
      · obtain ⟨k,took,rfl⟩ := Option.map_eq_some_iff.mp stepped
        exact .inr ⟨_,r,f,args,k,born_near m c,(Invariant.step_called took).2.1,called,kernelStep_home took,rfl⟩
      · cases stepped
    case h_2 => cases stepped
  | plain r =>
    simp only [step] at stepped
    split at stepped
    case h_1 f args called =>
      split at stepped
      case isTrue enabled =>
        cases stepped
        exact .inr ⟨m,r,f,args,_,⟨rfl,rfl,rfl,fun _ _ inside => inside⟩,enabled.2.2.2,called,.inr rfl,rfl⟩
      case isFalse => cases stepped
    case h_2 => cases stepped
  | broken r =>
    simp only [step] at stepped
    split at stepped
    case h_1 f args called =>
      obtain ⟨k,took,rfl⟩ := Option.map_eq_some_iff.mp stepped
      exact .inr ⟨m,r,f,args,k,⟨rfl,rfl,rfl,fun _ _ inside => inside⟩,busy_of_fault took,called,kernelStep_home took,rfl⟩
    case h_2 => cases stepped
  | other e =>
    cases e with
    | call c => cases stepped
    | fault | tick | key _ | flip _ | resume =>
      obtain ⟨k,took,rfl⟩ := Option.map_eq_some_iff.mp stepped
      exact .inl ⟨k,kernelStep_home took,rfl⟩

/-- A process in user mode is in no system call. -/
def AtRest (m : Machine) : Prop :=
  m.kernel.inKernel = false → m.kernel.halted = false → m.kernel.pidCour ≠ 0 → m.inside m.kernel.pidCour = none

theorem advance_atRest {k : Kernel} (home : Home m.kernel k) : AtRest (advance m k) := by
  intro mode going busy
  rw [advance_kernel] at mode going busy
  have same : k.pidCour = m.kernel.pidCour := home.resolve_left (by rw [mode]; simp)
  rw [advance_kernel,advance_inside,same]
  by_cases returns : Returns m k
  · rw [if_pos returns,Function.update_self]
  · rw [if_neg returns]
    rw [same] at busy
    cases inside : m.inside m.kernel.pidCour with
    | none => rfl
    | some code => exact absurd ⟨busy,by rw [inside]; rfl,mode,going⟩ returns

theorem step_atRest {e : Event} (stepped : step m e = some m') : AtRest m' := by
  rcases step_cases stepped with ⟨k,home,rfl⟩ | ⟨n,r,f,args,k,near,_,_,home,rfl⟩
  · exact advance_atRest home
  · exact advance_atRest (by rw [enter_kernel,near.kernel]; exact home)

/-- What a run keeps, whatever process comes next: `in_syscall` fits the
    process that had the processor last. -/
structure Tracked (m : Machine) : Prop where
  fits : Fits m m.last
  current : m.kernel.pidCour ≠ 0 → m.kernel.pidCour = m.last
  registered : ∀ p code, m.inside p = some code → Registered code

/-- A step keeps `in_syscall` right for the process that had the processor
    before it. -/
theorem step_fits (tracked : Tracked m) {e : Event} (stepped : step m e = some m') : Fits m' m.last := by
  rcases step_cases stepped with ⟨k,_,rfl⟩ | ⟨n,r,f,args,k,near,busy,called,_,rfl⟩
  · exact advance_fits tracked.fits tracked.current k
  · rw [← near.inSyscall] at called
    have entered := enter_fits called
    rw [near.kernel,tracked.current busy] at entered
    exact advance_fits entered (by rw [enter_kernel,near.kernel]; exact tracked.current) k

theorem step_current {e : Event} (stepped : step m e = some m') :
    m'.kernel.pidCour ≠ 0 → m'.kernel.pidCour = m'.last := by
  intro busy
  rcases step_cases stepped with ⟨k,_,rfl⟩ | ⟨n,r,f,args,k,_,_,_,_,rfl⟩
  · rw [advance_kernel] at busy
    rw [advance_kernel,advance_last,if_neg busy]
  · rw [advance_kernel] at busy
    rw [advance_kernel,advance_last,if_neg busy]

/-- The last process stays the last until another gets the processor. -/
theorem step_last {e : Event} (stepped : step m e = some m') :
    m'.last = if m'.kernel.pidCour = 0 then m.last else m'.kernel.pidCour := by
  rcases step_cases stepped with ⟨k,_,rfl⟩ | ⟨n,r,f,args,k,near,_,_,_,rfl⟩
  · rfl
  · rw [advance_last,enter_last,near.last,advance_kernel]

theorem advance_registered (registered : ∀ p code, m.inside p = some code → Registered code) (k : Kernel) :
    ∀ p code, (advance m k).inside p = some code → Registered code := by
  intro p code inside
  rw [advance_inside] at inside
  split at inside
  · by_cases same : p = m.kernel.pidCour
    · rw [same,Function.update_self] at inside
      cases inside
    · rw [Function.update_of_ne same] at inside
      exact registered p code inside
  · exact registered p code inside

theorem step_registered (tracked : Tracked m) {e : Event} (stepped : step m e = some m') :
    ∀ p code, m'.inside p = some code → Registered code := by
  rcases step_cases stepped with ⟨k,_,rfl⟩ | ⟨n,r,f,args,k,near,_,called,_,rfl⟩
  · exact advance_registered tracked.registered k
  · apply advance_registered
    intro p code inside
    rw [enter_inside] at inside
    by_cases same : p = n.kernel.pidCour
    · rw [same,Function.update_self] at inside
      cases inside
      exact ⟨f,(int49_called called).2.2⟩
    · rw [Function.update_of_ne same] at inside
      exact tracked.registered p code (near.inside p code inside)

/-- Where two processes were left in the same place, `in_syscall` fits both or
    neither. -/
theorem Fits.same {q : Int} (fits : Fits m p) (place : m.inside q = m.inside p) : Fits m q := by
  constructor
  · intro code inside
    exact fits.serving code (place ▸ inside)
  · intro inside
    exact fits.interrupted (place ▸ inside)

/-- Where `in_syscall` fits two processes, they were left in the same place. -/
theorem Fits.place {q : Int} (fits : Fits m p) (other : Fits m q)
    (registered : ∀ p code, m.inside p = some code → Registered code) : m.inside q = m.inside p := by
  cases here : m.inside p with
  | none =>
    cases there : m.inside q with
    | none => rfl
    | some code =>
      have known := registered q code there
      rw [← other.serving code there] at known
      exact absurd known (fits.interrupted here)
  | some code =>
    cases there : m.inside q with
    | none =>
      have known := registered p code here
      rw [← fits.serving code here] at known
      exact absurd known (other.interrupted there)
    | some code' => rw [← fits.serving code here,← other.serving code' there]

theorem step_tracked (tracked : Tracked m) {e : Event} (allowed : SamePlace m e) (stepped : step m e = some m') :
    Tracked m' := by
  have fits := step_fits tracked stepped
  refine ⟨?_,step_current stepped,step_registered tracked stepped⟩
  rw [step_last stepped]
  by_cases idle : m'.kernel.pidCour = 0
  · rw [if_pos idle]
    exact fits
  · rw [if_neg idle]
    exact fits.same (allowed m' stepped idle)

theorem boot_tracked (boot : Boot m) : Tracked m := by
  obtain ⟨started,inSyscall,inside,_⟩ := boot
  refine ⟨⟨?_,?_⟩,?_,?_⟩
  · intro code here
    rw [inside] at here
    cases here
  · intro _
    rw [inSyscall]
    decide
  · intro busy
    exact absurd (boot_idle started).1 busy
  · intro p code here
    rw [inside] at here
    cases here

theorem reach_tracked (reached : Reach SamePlace m) : Tracked m :=
  Runs.Reach.invariant (fun _ => boot_tracked) (fun _ _ _ tracked allowed stepped => step_tracked tracked allowed stepped)
    reached

/-- In user mode a process is in no system call, along every run. -/
theorem reach_atRest {guard : Machine → Event → Prop} (reached : Reach guard m) : AtRest m := by
  cases reached with
  | start boot => exact fun _ _ busy => absurd (boot_idle boot.1).1 busy
  | next _ _ stepped => exact step_atRest stepped

/-- In a run that has passed the processor only between processes left in the
    same place, a step that passes it otherwise makes `in_syscall` wrong, and
    no other step does. -/
theorem samePlace_iff (reached : Reach SamePlace m) {e : Event} (stepped : step m e = some m') :
    SamePlace m e ↔ Right m' := by
  have tracked := reach_tracked reached
  have fits := step_fits tracked stepped
  constructor
  · intro allowed busy
    exact fits.same (allowed m' stepped busy)
  · intro right n same busy
    cases stepped.symm.trans same
    exact fits.place (right busy) (step_registered tracked stepped)

/-- Along every run that passes the processor only between processes left in
    the same place, `in_syscall` fits the current process. -/
theorem inSyscall_right (reached : Reach SamePlace m) : Right m := by
  have tracked := reach_tracked reached
  intro busy
  rw [tracked.current busy]
  exact tracked.fits

/-- Registers with a system call number. -/
def number (eax : UInt32) : Registers := ⟨eax,0,0,0,0,0⟩

/-- Init sleeps in `wait_clock` and wakes up with its number in `in_syscall`. -/
theorem inSyscall_right_init : ∃ m, Reach SamePlace m ∧ m.kernel.pidCour = 1 ∧ m.inside 1 = some 0x28 ∧ Right m := by
  let events : List Event :=
    [.other .tick,.other .resume,.call (number 0x28) (.waitClock 2),.other .resume,.other .tick]
  have seen : (run (Runs.guarded step SamePlace) zeroed events).map (fun m => (m.kernel.pidCour,m.inside 1)) =
      some (1,some 0x28) := by decide
  obtain ⟨m,ran,facts⟩ := Option.map_eq_some_iff.mp seen
  simp only [Prod.mk.injEq] at facts
  have reached : Reach SamePlace m := Runs.reach_of_guarded (.start zeroed_boot) ran
  exact ⟨m,reached,facts.1,facts.2,inSyscall_right reached⟩

/-- Init starts a child, which a tick interrupts in user mode, and sleeps in
    `wait_clock`: the child goes on with the number of `wait_clock`. -/
theorem inSyscall_stale : ¬ ∀ m, Reach (fun _ _ => True) m → Right m := by
  intro claim
  let events : List Event :=
    [.other .tick,.other .resume,.call (number 0xa0) (.start 100 3 .granted),.other .resume,.other .tick,
      .other .resume,.call (number 0x28) (.waitClock 1000)]
  have seen : (run step zeroed events).map (fun m => (m.kernel.pidCour,m.inside 2,m.inSyscall)) =
      some (2,none,0x28) := by decide
  obtain ⟨m,ran,facts⟩ := Option.map_eq_some_iff.mp seen
  simp only [Prod.mk.injEq] at facts
  obtain ⟨current,inside,stale⟩ := facts
  have reached : Reach (fun _ _ => True) m := Runs.reach_of_run events (fun _ _ _ => trivial) zeroed_boot ran
  have fits := claim m reached (by rw [current]; decide)
  rw [current] at fits
  exact fits.interrupted inside (by rw [stale]; decide)

end Psys.InSyscall
