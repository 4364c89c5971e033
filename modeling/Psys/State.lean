import Mathlib.Tactic.Simps.Basic
import Psys.InputBuffer
import Psys.Ring

/-!
The data of the kernel: process descriptors, the links of the activable list,
semaphores and the input side of the virtual consoles, with the suspended
kernel code of every process. History variables record what happened and are
read by no function of the kernel.
-/
namespace Psys.State
open Psys.InputBuffer (RingBuffer)

def NBPROC : Int := 20
def NBSEM : Int := 10001
def MAXPRIO : Int := 256
def VIRTUAL_CONSOLES : Int := 4
def SHRT_MIN : Int := -32768
def SHRT_MAX : Int := 32767
/-- Lowest address of user space. -/
def USER_SPACE : Nat := 0x1000000
/-- The addresses that `setup_pgtab` maps for the kernel: all but the first
    page, up to the end of user space. -/
def Mapped (p : Nat) : Prop := 0x1000 ≤ p ∧ p < 0x3000000
instance (p : Nat) : Decidable (Mapped p) := inferInstanceAs (Decidable (_ ∧ _))

/-- Conversion to `short int`. -/
def short (x : Int) : Int := (x + 32768) % 65536 - 32768
/-- Arithmetic of `unsigned long`. -/
def ulong (x : Nat) : Nat := x % 4294967296
/-- Conversion to `long`. -/
def long (x : Int) : Int := (x + 2147483648) % 4294967296 - 2147483648
theorem long_small {x : Int} (low : -2147483648 ≤ x) (high : x ≤ 2147483647) : long x = x := by
  unfold long
  omega

/-- `enum proc_state` -/
inductive ProcState where
  | active
  | activable
  | waitSem
  | waitIo
  | waitChild
  | asleep
  | zombie
  | dead
  deriving DecidableEq

/-- The code that a process still has to run in the kernel once
    `context_switch` comes back to it. -/
inductive Frame where
  /-- Nothing: back to user mode. -/
  | user
  /-- The caller of `scheduler` returns a value. -/
  | ret (value : Int)
  /-- The rest of `wait(sid)`. -/
  | wait (sid : Int)
  /-- The rest of `waitpid` for a negative pid. -/
  | waitpidAny (retvalp : Nat)
  /-- The rest of `waitpid` for a positive pid. -/
  | waitpid (pid : Int) (retvalp : Nat)
  /-- The rest of `buffer_pop` in `cons_read`, with the bytes still to read
      after the one waited for. -/
  | consRead (vc : Int) (buf len left : Nat)
  /-- `while(1)` at the end of `exit`. -/
  | exit
  /-- The return from a page fault, which takes the error code for an address
      and faults again. -/
  | fault
  deriving DecidableEq

/-- A process descriptor, less what only other subsystems read. -/
@[ext]
structure Context where
  priority : Int
  pidParent : Int
  pidWait : Int
  state : ProcState
  children : List Int
  killed : Bool
  valRet : Int
  valide : Bool
  timer : Nat
  /-- Inode of the node in descriptor 1. -/
  stdout : Int
  sidWait : Int
  sidDeleted : Bool
  sidReseted : Bool
  /-- What the kernel stack holds. -/
  frame : Frame

/-- The data of `context.c`. Descriptors are named by PID: `tabProc p` is
    `tab_proc[p-1]`. The entries outside 1..NBPROC are the memory around the
    array. -/
structure Procs where
  tabProc : Int → Context
  /-- The `activable` field of each descriptor and `proc_queue_activ`. -/
  links : Ring.Links Int
  pidCour : Int
  /-- A failed assertion, an access through NULL or an endless loop. -/
  halted : Bool
  /-- History: the PIDs given to `queue_add`, newest first. -/
  inserted : List Int

/-- A semaphore descriptor. -/
structure Semaphore where
  c : Int
  procWait : List Int
  valide : Bool

/-- The input side of `struct virtual_console`. -/
structure VirtualConsole where
  buf : RingBuffer
  buffered : Bool
  waitingPid : Int

/-- What took a process out of a semaphore's waiting list. -/
inductive Cause where
  | signal
  | sreset
  | sdelete
  deriving DecidableEq

/-- History of the semaphores. -/
inductive SemNote where
  | created (sid count : Int)
  /-- A `wait` or `try_wait` that succeeded at once. -/
  | acquired (sid pid : Int)
  | blocked (sid pid : Int)
  /-- One unit given by `signal` or `signaln`. -/
  | signalled (sid : Int)
  | released (sid pid : Int) (cause : Cause)
  deriving DecidableEq

/-- History of terminations. -/
inductive EndNote where
  | exited (pid retval : Int)
  | killed (pid : Int)
  /-- `waitpid` returned the child to its caller. -/
  | reaped (parent child : Int)
  deriving DecidableEq

structure Kernel extends Procs where
  semaphores : Int → Semaphore
  sidLibres : List Int
  nbInterrupt : Nat
  virtualConsoles : Int → VirtualConsole
  vcCurrent : Int
  /-- The current process still has kernel code to run: its frame. Otherwise
      it is in user mode, or the kernel in its idle loop. -/
  inKernel : Bool
  /-- The value that the last system call to finish returned. -/
  ret : Option Int
  /-- Words stored through user pointers. -/
  mem : Nat → Int
  semLog : List SemNote
  endLog : List EndNote

/-- A PID that names an entry of `tab_proc`. -/
def InTab (pid : Int) : Prop := 1 ≤ pid ∧ pid ≤ NBPROC
instance (pid : Int) : Decidable (InTab pid) := inferInstanceAs (Decidable (_ ∧ _))

/-- A PID in use. -/
def InUse (t : Int → Context) (pid : Int) : Prop := InTab pid ∧ (t pid).valide = true
instance (t : Int → Context) (pid : Int) : Decidable (InUse t pid) := inferInstanceAs (Decidable (_ ∧ _))

theorem inUse_iff (t : Int → Context) (pid : Int) : InUse t pid ↔ InTab pid ∧ (t pid).valide = true := ⟨id,id⟩

/-- A valid semaphore identifier. -/
def SemInUse (sems : Int → Semaphore) (sid : Int) : Prop :=
  0 ≤ sid ∧ sid < NBSEM ∧ (sems sid).valide = true
instance (sems : Int → Semaphore) (sid : Int) : Decidable (SemInUse sems sid) :=
  inferInstanceAs (Decidable (_ ∧ _))

/-- The PIDs of `tab_proc`, in order. -/
def pids : List Int := (List.range NBPROC.toNat).map (fun i : Nat => (i : Int) + 1)

theorem mem_pids (p : Int) : p ∈ pids ↔ InTab p := by
  simp only [pids,List.mem_map,List.mem_range,InTab,NBPROC]
  constructor
  · rintro ⟨i,inside,rfl⟩; omega
  · intro inside; exact ⟨(p - 1).toNat,by omega,by omega⟩

/-! ### Reading through a condition

A conditional write is read field by field, so that the fields it does not
touch disappear from a goal. -/

section Fields
variable (h : Prop) [Decidable h]

@[simp] theorem ite_priority (a b : Context) : (if h then a else b).priority = if h then a.priority else b.priority := by
  split <;> rfl
@[simp] theorem ite_pidParent (a b : Context) : (if h then a else b).pidParent = if h then a.pidParent else b.pidParent := by
  split <;> rfl
@[simp] theorem ite_pidWait (a b : Context) : (if h then a else b).pidWait = if h then a.pidWait else b.pidWait := by
  split <;> rfl
@[simp] theorem ite_state (a b : Context) : (if h then a else b).state = if h then a.state else b.state := by
  split <;> rfl
@[simp] theorem ite_children (a b : Context) : (if h then a else b).children = if h then a.children else b.children := by
  split <;> rfl
@[simp] theorem ite_killed (a b : Context) : (if h then a else b).killed = if h then a.killed else b.killed := by
  split <;> rfl
@[simp] theorem ite_valRet (a b : Context) : (if h then a else b).valRet = if h then a.valRet else b.valRet := by
  split <;> rfl
@[simp] theorem ite_valide (a b : Context) : (if h then a else b).valide = if h then a.valide else b.valide := by
  split <;> rfl
@[simp] theorem ite_timer (a b : Context) : (if h then a else b).timer = if h then a.timer else b.timer := by
  split <;> rfl
@[simp] theorem ite_stdout (a b : Context) : (if h then a else b).stdout = if h then a.stdout else b.stdout := by
  split <;> rfl
@[simp] theorem ite_sidWait (a b : Context) : (if h then a else b).sidWait = if h then a.sidWait else b.sidWait := by
  split <;> rfl
@[simp] theorem ite_sidDeleted (a b : Context) : (if h then a else b).sidDeleted = if h then a.sidDeleted else b.sidDeleted := by
  split <;> rfl
@[simp] theorem ite_sidReseted (a b : Context) : (if h then a else b).sidReseted = if h then a.sidReseted else b.sidReseted := by
  split <;> rfl
@[simp] theorem ite_frame (a b : Context) : (if h then a else b).frame = if h then a.frame else b.frame := by
  split <;> rfl
@[simp] theorem ite_sem_c (a b : Semaphore) : (if h then a else b).c = if h then a.c else b.c := by
  split <;> rfl
@[simp] theorem ite_sem_procWait (a b : Semaphore) : (if h then a else b).procWait = if h then a.procWait else b.procWait := by
  split <;> rfl
@[simp] theorem ite_sem_valide (a b : Semaphore) : (if h then a else b).valide = if h then a.valide else b.valide := by
  split <;> rfl
@[simp] theorem ite_buf (a b : VirtualConsole) : (if h then a else b).buf = if h then a.buf else b.buf := by
  split <;> rfl
@[simp] theorem ite_buffered (a b : VirtualConsole) : (if h then a else b).buffered = if h then a.buffered else b.buffered := by
  split <;> rfl
@[simp] theorem ite_waitingPid (a b : VirtualConsole) :
    (if h then a else b).waitingPid = if h then a.waitingPid else b.waitingPid := by
  split <;> rfl

end Fields

/-! ### Writing -/

/-- A write to the fields of `tab_proc[pid-1]`. A write outside the array is lost. -/
@[simps]
def Procs.setProc (k : Procs) (pid : Int) (f : Context → Context) : Procs :=
  { k with tabProc := fun q => if q = pid ∧ InTab pid then f (k.tabProc q) else k.tabProc q }

/-- `tab_proc[pid-1].state = state` -/
abbrev Procs.setState (k : Procs) (pid : Int) (state : ProcState) : Procs :=
  k.setProc pid (fun c => { c with state := state })

/-- A failed assertion, or an access through NULL. The model stops here. In the
    kernel `panic` writes to address 0, and either way the page fault ends the
    current process and the others run on, with what the code has done so far. -/
@[simps]
def Procs.panic (k : Procs) : Procs := { k with halted := true }

/-- The same for the whole kernel. -/
@[simps toProcs semaphores sidLibres nbInterrupt virtualConsoles vcCurrent inKernel ret mem semLog endLog]
def Kernel.setProc (k : Kernel) (pid : Int) (f : Context → Context) : Kernel :=
  { k with toProcs := k.toProcs.setProc pid f }

/-- A write to the fields of `semaphores[sid]`. -/
@[simps toProcs semaphores sidLibres nbInterrupt virtualConsoles vcCurrent inKernel ret mem semLog endLog]
def Kernel.setSem (k : Kernel) (sid : Int) (f : Semaphore → Semaphore) : Kernel :=
  { k with semaphores := fun s => if s = sid then f (k.semaphores s) else k.semaphores s }

/-- A write to the fields of a virtual console, lost outside the array. -/
@[simps toProcs semaphores sidLibres nbInterrupt virtualConsoles vcCurrent inKernel ret mem semLog endLog]
def Kernel.setConsole (k : Kernel) (n : Int) (f : VirtualConsole → VirtualConsole) : Kernel :=
  { k with
    virtualConsoles := fun i =>
      if i = n ∧ 0 ≤ n ∧ n < VIRTUAL_CONSOLES then f (k.virtualConsoles i) else k.virtualConsoles i }

end Psys.State
