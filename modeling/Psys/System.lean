import Psys.Devices
import Psys.Runs
import Psys.Semaphore

/-!
The kernel as a machine: system calls of the current process, interrupts, and
the kernel code that runs on when a process gets the processor back. All gates
are interrupt gates, so kernel code runs until it leaves the kernel or calls
`scheduler`.
-/
namespace Psys.System
open Psys.State Psys.Context Psys.Sys Psys.Semaphore Psys.Devices

/-- The system calls that touch processes, semaphores or console input. -/
inductive Call where
  | start (ssize : Nat) (prio : Int) (memory : Memory)
  | exit (retval : Int)
  | kill (pid : Int)
  | getprio (pid : Int)
  | chprio (pid newprio : Int)
  | getpid
  | getppid
  | waitpid (pid : Int) (retvalp : Nat)
  | waitClock (clock : Nat)
  | currentClock
  | screate (compteur : Int) (memory : Bool)
  | wait (sid : Int)
  | tryWait (sid : Int)
  | signal (sid : Int)
  | signaln (sid count : Int)
  | scount (sid : Int)
  | sreset (sid count : Int)
  | sdelete (sid : Int)
  | consRead (buf len : Nat)
  | setBuffered (buffered : Bool)
  | setStdout (node : Option Int)
  | sigReturn

inductive Event where
  | call (c : Call)
  /-- A page fault or a protection fault of the current process. -/
  | fault
  /-- The clock interrupt. -/
  | tick
  /-- The keyboard interrupt with a character. -/
  | key (c : UInt8)
  /-- The keyboard interrupt with a console key. -/
  | flip (vcNumber : Int)
  /-- The current process runs on in the kernel. -/
  | resume

/-- The handler of a system call, up to its end or its call of `scheduler`. -/
def handle (k : Kernel) : Call → Kernel
  | .start ssize prio memory => start k ssize prio memory
  | .exit retval => exit k retval
  | .kill pid => kill k pid
  | .getprio pid => getprio k pid
  | .chprio pid newprio => chprio k pid newprio
  | .getpid => getpid k
  | .getppid => getppid k
  | .waitpid pid retvalp => waitpid k pid retvalp
  | .waitClock clock => waitClock k clock
  | .currentClock => currentClock k
  | .screate compteur memory => screate k compteur memory
  | .wait sid => wait k sid
  | .tryWait sid => tryWait k sid
  | .signal sid => signal k sid
  | .signaln sid count => signaln k sid count
  | .scount sid => scount k sid
  | .sreset sid count => sreset k sid count
  | .sdelete sid => sdelete k sid
  | .consRead buf len => consRead k buf len
  | .setBuffered buffered => setBuffered k buffered
  | .setStdout node => setStdout k node
  | .sigReturn => callScheduler k .user

/-- The current process runs on in the kernel after `scheduler`, up to its end
    or the next call of `scheduler`. -/
def resume (k : Kernel) : Kernel :=
  if k.pidCour = 0 then { k with inKernel := false, ret := none }
  else
    match (k.tabProc k.pidCour).frame with
    | .user => sysret k none
    | .ret value => sysret k (some value)
    | .wait _ => waitResume k
    | .waitpidAny retvalp => reap k (k.tabProc k.pidCour).pidWait retvalp
    | .waitpid pid retvalp => reap k pid retvalp
    | .consRead vc buf len left => takeByte k vc buf len left (consReadLoop vc buf len left)
    | .exit => k
    | .fault => handlePfault k

/-- One step, when the machine can take it. -/
def step (k : Kernel) : Event → Option Kernel
  | .call c => if k.halted ∨ k.inKernel ∨ k.pidCour = 0 then none else some (handle k c)
  | .fault => if k.halted ∨ k.inKernel ∨ k.pidCour = 0 then none else some (handlePfault k)
  | .tick => if k.halted ∨ k.inKernel then none else some (int32 k)
  | .key c => if k.halted ∨ k.inKernel then none else some (keyboardData k c)
  | .flip vcNumber => if k.halted ∨ k.inKernel then none else some (vcFlip k vcNumber)
  | .resume => if k.halted ∨ k.inKernel = false then none else some (resume k)

/-! ### The start of the kernel -/

/-- A descriptor before its first use. -/
def blank : Context where
  priority := 0
  pidParent := 0
  pidWait := 0
  state := .active
  children := []
  killed := false
  valRet := 0
  valide := false
  timer := 0
  stdout := 0
  sidWait := 0
  sidDeleted := false
  sidReseted := false
  frame := .user

/-- `context_init`, with any memory around the process table. -/
def contextInit (outside : Int → Context) : Procs :=
  (contextCreateUser
    { tabProc := fun p => if InTab p then blank else outside p
      links := Ring.empty
      pidCour := 0
      halted := false
      inserted := [] } 3 .granted).1

/-- The free semaphore identifiers after `sem_init`. -/
def semInit : List Int := (List.range NBSEM.toNat).foldl (fun libres (i : Nat) => (i : Int) :: libres) []

/-- `kernel_start`, up to its idle loop. -/
def kernelStart (outside : Int → Context) (consoles : Int → VirtualConsole) : Kernel where
  toProcs := contextInit outside
  semaphores := fun _ => ⟨0,[],false⟩
  sidLibres := semInit
  nbInterrupt := 0
  virtualConsoles := fun i =>
    if 0 ≤ i ∧ i < VIRTUAL_CONSOLES
    then { buf := InputBuffer.ringbufferInit (consoles i).buf, buffered := true, waitingPid := -1 }
    else consoles i
  vcCurrent := 0
  inKernel := false
  ret := none
  mem := fun _ => 0
  semLog := []
  endLog := []

/-- The states in which the kernel can start. -/
def Boot (k : Kernel) : Prop := ∃ outside consoles, k = kernelStart outside consoles

/-- A start in zeroed memory. -/
def zeroed : Kernel := kernelStart (fun _ => blank) (fun _ => ⟨⟨fun _ => 0,0,0⟩,true,-1⟩)

theorem zeroed_boot : Boot zeroed := ⟨_,_,rfl⟩

/-- The states that the kernel reaches by steps that meet a guard. -/
abbrev Reach (guard : Kernel → Event → Prop) : Kernel → Prop := Runs.Reach Boot step guard

end Psys.System
