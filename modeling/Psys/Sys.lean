import Psys.Context

/-!
`sys.c`: termination of processes, priorities, waiting for children and the
creation of a process by another.
-/
namespace Psys.Sys
open Psys.State Psys.Context

/-- `check_pointer`, called by the system call that is being served. -/
def checkPointer (p : Nat) : Nat := if p < USER_SPACE then 0 else p

/-- The father of `pid` sleeps in `waitpid` until `pid`, or any child, ends. -/
def FatherWaits (t : Int → Context) (pid : Int) : Prop :=
  let father := t (t pid).pidParent
  (t pid).pidParent > 1 ∧ father.state = .waitChild ∧ (pid = father.pidWait ∨ father.pidWait = -1)
instance (t : Int → Context) (pid : Int) : Decidable (FatherWaits t pid) :=
  inferInstanceAs (Decidable (_ ∧ _))

/-- One child of a process that ends: a zombie dies, a live child goes to Init. -/
def adopt (k : Procs) (child : Int) : Procs :=
  if (k.tabProc child).state = .zombie then k.setState child .dead
  else
    let k := k.setProc child (fun c => { c with pidParent := 1 })
    k.setProc 1 (fun c => { c with children := child :: c.children })

/-- The loop of `exit` and `kill` over the children of the process that ends.
    What the loop puts in front of Init's list comes before its iterator. -/
def adoptChildren (k : Procs) (pid : Int) : Procs := (k.tabProc pid).children.foldl adopt k

/-- The process part of `exit`. -/
def exitProcess (k : Procs) (retval : Int) : Procs :=
  let pid := k.pidCour
  let ppid := (k.tabProc pid).pidParent
  let p := if FatherWaits k.tabProc pid
    then wakeupProcess (k.setProc ppid (fun c => { c with pidWait := pid })) ppid else k
  let p := adoptChildren p pid
  if ppid > 1
  then p.setProc pid (fun c => { c with state := .zombie, valRet := retval })
  else (p.setState pid .dead).setProc 1 (fun c => { c with children := c.children.erase pid })

/-- `exit` -/
def exit (k : Kernel) (retval : Int) : Kernel :=
  callScheduler
    { k with toProcs := exitProcess k.toProcs retval, endLog := .exited k.pidCour retval :: k.endLog } .exit

/-- The process part of `kill`. Unlike `exit`, it leaves `pid_wait` of the
    father alone. -/
def killProcess (k : Procs) (pid : Int) : Procs :=
  let ppid := (k.tabProc pid).pidParent
  let p := if FatherWaits k.tabProc pid then wakeupProcess k ppid else k
  let p := adoptChildren p pid
  let p := if (p.tabProc pid).state = .activable then queueDel p pid else p
  if ppid > 1
  then p.setProc pid (fun c => { c with state := .zombie, killed := true })
  else (p.setState pid .dead).setProc 1 (fun c => { c with children := c.children.erase pid })

/-- The PIDs that `kill` and `chprio` refuse, above their own lower bound. -/
def Ended (t : Int → Context) (pid : Int) : Prop :=
  pid > NBPROC ∨ (t pid).valide = false ∨ (t pid).state = .dead ∨ (t pid).state = .zombie
instance (t : Int → Context) (pid : Int) : Decidable (Ended t pid) := inferInstanceAs (Decidable (_ ∨ _))

/-- `kill`. A process blocked on a semaphore only gives its unit back: it stays
    in the semaphore's waiting list. -/
def kill (k : Kernel) (pid : Int) : Kernel :=
  if pid ≤ 1 ∨ Ended k.tabProc pid then sysret k (some (-1))
  else
    let k := if (k.tabProc pid).state = .waitSem
      then k.setSem (k.tabProc pid).sidWait (fun s => { s with c := short (s.c + 1) }) else k
    callScheduler { k with toProcs := killProcess k.toProcs pid, endLog := .killed pid :: k.endLog } (.ret 0)

/-- `handle_pfault`. A process that it kills does not come back; `kill` refuses
    Init, which returns into the next fault. -/
def handlePfault (k : Kernel) : Kernel :=
  if k.pidCour ≤ 1 ∨ Ended k.tabProc k.pidCour then callScheduler k .fault else kill k k.pidCour

/-- `getprio` -/
def getprio (k : Kernel) (pid : Int) : Kernel :=
  if pid = 0 ∨ Ended k.tabProc pid then sysret k (some (-1)) else sysret k (some (k.tabProc pid).priority)

/-- `getpid` -/
def getpid (k : Kernel) : Kernel := sysret k (some k.pidCour)
/-- `getppid` -/
def getppid (k : Kernel) : Kernel := sysret k (some (k.tabProc k.pidCour).pidParent)

/-- The search of `chprio` through the activable list, which removes the
    process and inserts it again. -/
def requeue (k : Procs) (pid : Int) : Procs :=
  match Ring.seek k.links (fun other => decide (other = pid)) fuel .head with
  | none => k.panic
  | some .head => k
  | some (.elem found) => queueAdd (queueDel k found) found

/-- `chprio` -/
def chprio (k : Kernel) (pid newprio : Int) : Kernel :=
  let oldprio := (k.tabProc pid).priority
  if pid ≤ 0 ∨ Ended k.tabProc pid then sysret k (some (-1))
  else if newprio ≤ 0 ∨ newprio > MAXPRIO then sysret k (some (-2))
  else if newprio = oldprio then callScheduler k (.ret oldprio)
  else
    let p := k.toProcs.setProc pid (fun c => { c with priority := newprio })
    let p := if (p.tabProc pid).state = .activable then requeue p pid else p
    callScheduler { k with toProcs := p } (.ret oldprio)

/-- The end of `waitpid`: the value of the child is stored and the child dies.
    A `child` outside the table, left by a father that was woken up without a
    child, reads memory around the table; the source then writes a state in
    front of the table, which is taken to have no effect. -/
def reap (k : Kernel) (child : Int) (retvalp : Nat) : Kernel :=
  if retvalp ≠ 0 ∧ ¬ Mapped retvalp then handlePfault k
  else
    let value := if (k.tabProc child).killed then 0 else (k.tabProc child).valRet
    let k := if retvalp ≠ 0 then { k with mem := Function.update k.mem retvalp value } else k
    let k := k.setProc child (fun c => { c with state := .dead })
    let k := k.setProc k.pidCour (fun c => { c with children := c.children.erase child })
    sysret { k with endLog := .reaped k.pidCour child :: k.endLog } (some child)

/-- The current process sleeps until a child ends. -/
def waitChild (k : Kernel) (pidWait : Int) (frame : Frame) : Kernel :=
  callScheduler (k.setProc k.pidCour (fun c => { c with state := .waitChild, pidWait := pidWait })) frame

/-- `waitpid` -/
def waitpid (k : Kernel) (pid : Int) (retvalp : Nat) : Kernel :=
  let retvalp := checkPointer retvalp
  let children := (k.tabProc k.pidCour).children
  if pid = k.pidCour then sysret k (some (-1))
  else if pid < 0 then
    if children = [] then sysret k (some (-1))
    else
      match children.find? (fun child => decide ((k.tabProc child).state = .zombie)) with
      | some child => reap k child retvalp
      | none => waitChild k (-1) (.waitpidAny retvalp)
  else if pid = 0 then sysret k (some (-2))
  else if pid ∉ children then sysret k (some (-3))
  else if (k.tabProc pid).state ≠ .zombie then waitChild k pid (.waitpid pid retvalp)
  else reap k pid retvalp

/-- `start` -/
def start (k : Kernel) (ssize : Nat) (prio : Int) (memory : Memory) : Kernel :=
  if ssize > 0xffffffe7 then sysret k (some (-1))
  else
    let created := contextCreateUser k.toProcs prio memory
    let k := { k with toProcs := created.1 }
    match created.2 with
    | none => handlePfault k
    | some ret => if ret > 0 then callScheduler k (.ret ret) else sysret k (some ret)

/-! ### What the calls come to -/

/-- The semaphores when `kill` calls `scheduler`. -/
def givenBack (k : Kernel) (pid : Int) : Int → Semaphore :=
  if (k.tabProc pid).state = .waitSem
  then (k.setSem (k.tabProc pid).sidWait (fun s => { s with c := short (s.c + 1) })).semaphores else k.semaphores

theorem kill_cases (k : Kernel) (pid : Int) :
    kill k pid = sysret k (some (-1)) ∨
      1 < pid ∧ ¬ Ended k.tabProc pid ∧ kill k pid = callScheduler { k with
        semaphores := givenBack k pid
        toProcs := killProcess k.toProcs pid
        endLog := .killed pid :: k.endLog } (.ret 0) := by
  by_cases refused : pid ≤ 1 ∨ Ended k.tabProc pid
  · exact .inl (if_pos refused)
  · rw [kill,if_neg refused]
    rw [not_or,not_le] at refused
    refine .inr ⟨refused.1,refused.2,?_⟩
    by_cases waits : (k.tabProc pid).state = .waitSem
    · rw [givenBack,if_pos waits,if_pos waits]
      rfl
    · rw [givenBack,if_neg waits,if_neg waits]

theorem getprio_sysret (k : Kernel) (pid : Int) : ∃ r, getprio k pid = sysret k (some r) := by
  rw [getprio]
  split
  · exact ⟨_,rfl⟩
  · exact ⟨_,rfl⟩

theorem chprio_cases (k : Kernel) (pid newprio : Int) :
    (∃ r, chprio k pid newprio = sysret k (some r)) ∨
      1 ≤ pid ∧ ¬ Ended k.tabProc pid ∧ 1 ≤ newprio ∧ newprio ≤ MAXPRIO ∧
        (newprio = (k.tabProc pid).priority ∧ chprio k pid newprio = callScheduler k (.ret (k.tabProc pid).priority) ∨
          let p := k.toProcs.setProc pid (fun c => { c with priority := newprio })
          chprio k pid newprio =
            callScheduler { k with toProcs := if (p.tabProc pid).state = .activable then requeue p pid else p }
              (.ret (k.tabProc pid).priority)) := by
  rw [chprio]
  by_cases refused : pid ≤ 0 ∨ Ended k.tabProc pid
  · exact .inl ⟨-1,if_pos refused⟩
  by_cases outside : newprio ≤ 0 ∨ newprio > MAXPRIO
  · refine .inl ⟨-2,?_⟩
    rw [if_neg refused,if_pos outside]
  rw [if_neg refused,if_neg outside]
  rw [not_or] at refused outside
  refine .inr ⟨by omega,refused.2,by omega,by omega,?_⟩
  by_cases same : newprio = (k.tabProc pid).priority
  · exact .inl ⟨same,if_pos same⟩
  · exact .inr (if_neg same)

theorem start_cases (k : Kernel) (ssize : Nat) (prio : Int) (memory : Memory) :
    0xffffffe7 < ssize ∧ start k ssize prio memory = sysret k (some (-1)) ∨
      let created := contextCreateUser k.toProcs prio memory
      ssize ≤ 0xffffffe7 ∧
        ((∃ ret, created.2 = some ret ∧ 0 < ret ∧
            start k ssize prio memory = callScheduler { k with toProcs := created.1 } (.ret ret)) ∨
          (∃ ret, created.2 = some ret ∧ ret ≤ 0 ∧
            start k ssize prio memory = sysret { k with toProcs := created.1 } (some ret)) ∨
          created.2 = none ∧ start k ssize prio memory = handlePfault { k with toProcs := created.1 }) := by
  rw [start]
  by_cases large : ssize > 0xffffffe7
  · exact .inl ⟨large,if_pos large⟩
  · rw [if_neg large]
    refine .inr ⟨not_lt.mp large,?_⟩
    dsimp only
    cases value : (contextCreateUser k.toProcs prio memory).2 with
    | none => exact .inr (.inr ⟨rfl,rfl⟩)
    | some ret =>
      by_cases positive : ret > 0
      · exact .inl ⟨ret,rfl,positive,if_pos positive⟩
      · exact .inr (.inl ⟨ret,rfl,not_lt.mp positive,if_neg positive⟩)

end Psys.Sys
