import Psys.State

/-!
`context.c`: the activable list, waking a process up, the scheduler and the
creation of processes.
-/
namespace Psys.Context
open Psys.State

/-- More cells than a walk through `next` pointers meets before it ends or
    repeats itself. -/
def fuel : Nat := 21

/-- `queue_add` stops at the first element whose priority is not below that of
    the element to insert. -/
def stopFor (t : Int → Context) (pid other : Int) : Bool := !decide ((t other).priority < (t pid).priority)

/-- `queue_add(&tab_proc[pid-1], &proc_queue_activ, ..)` -/
def queueAdd (k : Procs) (pid : Int) : Procs :=
  match Ring.add k.links fuel (stopFor k.tabProc pid) pid with
  | some links => { k with links := links, inserted := pid :: k.inserted }
  | none => k.panic

/-- `queue_del(&tab_proc[pid-1], activable)` -/
def queueDel (k : Procs) (pid : Int) : Procs :=
  match Ring.del k.links pid with
  | some links => { k with links := links }
  | none => k.panic

/-- `INIT_LINK(&(tab_proc[pid-1].activable))` -/
def initLink (k : Procs) (pid : Int) : Procs := { k with links := Ring.clear k.links (.elem pid) }

/-- `wakeup_process` -/
def wakeupProcess (k : Procs) (pid : Int) : Procs :=
  if pid < 1 ∨ pid > NBPROC ∨ (k.tabProc pid).valide = false then k
  else
    let k := k.setState pid .activable
    queueAdd (initLink k pid) pid

/-- `garbage_collector` -/
def garbageCollector (k : Procs) : Procs :=
  { k with
    tabProc := fun p =>
      if InUse k.tabProc p ∧ (k.tabProc p).state = .dead then { k.tabProc p with valide := false }
      else k.tabProc p }

/-- `context_switch` to a process that becomes the current one. The new context
    first frees the dead ones. -/
def switchTo (k : Procs) (pid : Int) : Procs :=
  garbageCollector ({ k with pidCour := pid }.setState pid .active)

/-- `context_switch` to the idle loop of the kernel. -/
def switchToKernel (k : Procs) : Procs := garbageCollector { k with pidCour := 0 }

/-- `scheduler`. What the caller does afterwards is in the `frame` of the
    process that called it. -/
def scheduler (k : Procs) : Procs :=
  if k.pidCour = 0 then
    match Ring.out k.links with
    | none => k.panic
    | some none => k
    | some (some (pid,links)) => switchTo { k with links := links } pid
  else
    match Ring.top k.links with
    | none => k.panic
    | some (some pid) =>
      if (k.tabProc k.pidCour).state ≠ .active ∨ (k.tabProc pid).priority ≥ (k.tabProc k.pidCour).priority then
        let k' := queueDel k pid
        let k' := if (k'.tabProc k.pidCour).state = .active then wakeupProcess k' k.pidCour else k'
        switchTo k' pid
      else k
    | some none =>
      if (k.tabProc k.pidCour).state ≠ .active then switchToKernel k else k

/-- What a process that is created meets: whether there is memory for its two
    stacks and for its list of children, whether its name can be read and its
    copy allocated, and whether its four nodes and the cell of its father's list
    can be. -/
structure Memory where
  stack : Bool
  children : Bool
  name : Bool
  nodes : Bool

/-- Nothing is refused. -/
@[simps]
def Memory.granted : Memory := ⟨true,true,true,true⟩

/-- Nothing is refused once the two stacks are there. -/
def Memory.Serves (memory : Memory) : Prop := memory.children = true ∧ memory.name = true ∧ memory.nodes = true
instance (memory : Memory) : Decidable memory.Serves := inferInstanceAs (Decidable (_ ∧ _))
@[simp] theorem granted_serves : Memory.granted.Serves := ⟨rfl,rfl,rfl⟩

/-- The first descriptor that is not in use. -/
def freePid (t : Int → Context) : Option Int := pids.find? (fun pid => !(t pid).valide)

/-- `context_create_user`. Only the stacks and the list of children are checked:
    what is refused later is read or written through, and the process that
    creates takes a page fault, here no value. -/
def contextCreateUser (k : Procs) (priority : Int) (memory : Memory) : Procs × Option Int :=
  match freePid k.tabProc with
  | none => (k,some (-1))
  | some pid =>
    if memory.stack = false then (k,some (-1))
    else
      let k := k.setProc pid (fun c => { c with
        state := .activable
        priority := priority
        pidParent := k.pidCour
        killed := false
        children := []
        sidWait := 0
        sidReseted := false
        sidDeleted := false })
      if memory.children = false then (k,some (-1))
      -- `strlen` of the name, and `strcpy` to its copy
      else if memory.name = false then (k,none)
      else
        let stdout := if k.pidCour = 0 then 100 else (k.tabProc k.pidCour).stdout
        let k := k.setProc pid (fun c => { c with stdout := stdout })
        -- `procfs_new_node` and its like, and `list_put_first`
        if memory.nodes = false then (k,none)
        else
          let k := if k.pidCour ≠ 0 then k.setProc k.pidCour (fun c => { c with children := pid :: c.children }) else k
          let k := k.setProc pid (fun c => { c with frame := .user, valide := true })
          (wakeupProcess k pid,some pid)

/-- The kernel is left: the process runs on in user mode. -/
def sysret (k : Kernel) (ret : Option Int) : Kernel :=
  { k.setProc k.pidCour (fun c => { c with frame := .user }) with inKernel := false, ret := ret }

/-- A call of `scheduler` by the current process, which goes on with `frame`. -/
def callScheduler (k : Kernel) (frame : Frame) : Kernel :=
  { k with
    toProcs := scheduler (k.toProcs.setProc k.pidCour (fun c => { c with frame := frame }))
    inKernel := true }

end Psys.Context
