import Psys.Descriptors
import Psys.Signals

/-!
The blocks that `mem_alloc` and `user_stack_alloc` hand out: who asks for them,
who keeps them and who gives them back. What processes do besides is left open:
the scheduler may run any of them, and their states may change at any time.
-/
namespace Psys.Blocks
open Psys.State Psys.Vfs
open Psys.Handlers (FileDescriptor closeCallback)
open Psys.Descriptors (setupFiles slot)
open Psys.Signals (NBSIG IsSignal)

/-- `list_t`: the block of the list, and its elements with the blocks of their cells. -/
structure Chain where
  head : Nat
  cells : List (Int × Nat)

/-- A process descriptor, as far as it leads to blocks. -/
structure Process where
  valide : Bool
  state : ProcState
  pidParent : Int
  sidWait : Int
  kernelStack : Option Nat
  userStack : Option Nat
  name : Option Nat
  children : Option Chain
  sigs : Option Chain
  curSig : Bool
  procfsNode : Option Nat
  vfsStateNode : Option Nat
  vfsParentNode : Option Nat
  vfsNameNode : Option Nat
  fileDesc : Int → FileDescriptor

structure Semaphore where
  c : Int
  procWait : Option Chain
  valide : Bool

structure Machine where
  /-- The next fresh block. A block has one number for each time it is handed out. -/
  next : Nat
  live : List Nat
  tabProc : Int → Process
  pidCour : Int
  semaphores : Int → Semaphore
  sidLibres : Chain
  kikoobuf : Option Nat
  /-- `kernel_context.children` -/
  kernelChildren : Chain
  /-- The other blocks that the kernel took for itself when it started. -/
  boot : List Nat
  /-- A failed assertion. -/
  halted : Bool

def Machine.setProc (m : Machine) (pid : Int) (f : Process → Process) : Machine :=
  { m with tabProc := Function.update m.tabProc pid (f (m.tabProc pid)) }

def Machine.setSem (m : Machine) (sid : Int) (f : Semaphore → Semaphore) : Machine :=
  { m with semaphores := Function.update m.semaphores sid (f (m.semaphores sid)) }

/-- The model stops, where the page fault of `panic` ends the current process. -/
def Machine.panic (m : Machine) : Machine := { m with halted := true }

/-! ### `mem_alloc` and `mem_free` -/

/-- `mem_alloc` and `user_stack_alloc`, with what they answer: a block or `NULL`. -/
def memAlloc (m : Machine) (answer : Bool) : Machine × Option Nat :=
  if answer then ({ m with next := m.next + 1, live := m.next :: m.live },some m.next) else (m,none)

/-- `mem_free` and `user_stack_free` -/
def memFree (m : Machine) (block : Nat) : Machine := { m with live := m.live.filter (fun b => b ≠ block) }

/-! ### `list.c` -/

/-- Where lists are kept. -/
inductive Place where
  | children (pid : Int)
  | sigs (pid : Int)
  | procWait (sid : Int)
  | sidLibres
  | kernelChildren

def Machine.list (m : Machine) : Place → Option Chain
  | .children pid => (m.tabProc pid).children
  | .sigs pid => (m.tabProc pid).sigs
  | .procWait sid => (m.semaphores sid).procWait
  | .sidLibres => some m.sidLibres
  | .kernelChildren => some m.kernelChildren

def Machine.setList (m : Machine) (place : Place) (l : Chain) : Machine :=
  match place with
  | .children pid => m.setProc pid (fun c => { c with children := some l })
  | .sigs pid => m.setProc pid (fun c => { c with sigs := some l })
  | .procWait sid => m.setSem sid (fun s => { s with procWait := some l })
  | .sidLibres => { m with sidLibres := l }
  | .kernelChildren => { m with kernelChildren := l }

/-- `list_new` -/
def listNew (m : Machine) (answer : Bool) : Machine × Option Chain :=
  match memAlloc m answer with
  | (m,some head) => (m,some ⟨head,[]⟩)
  | (m,none) => (m,none)

/-- `list_put_first`; false when it does not return. Without memory it faults
    before it changes the list. -/
def listPutFirst (m : Machine) (answer : Bool) (place : Place) (element : Int) : Machine × Bool :=
  match m.list place with
  | none => (m.panic,false)
  | some l =>
    match memAlloc m answer with
    | (m,some cell) => (m.setList place { l with cells := (element,cell) :: l.cells },true)
    | (m,none) => (m,false)

/-- `list_get_first` of a list that is there. -/
def listGetFirst (m : Machine) (place : Place) : Machine × Int :=
  match m.list place with
  | none => (m.panic,-1)
  | some l =>
    match l.cells with
    | [] => (m,-1)
    | (element,cell) :: rest => (memFree (m.setList place { l with cells := rest }) cell,element)

/-- `list_get_last` -/
def listGetLast (m : Machine) (place : Place) : Machine × Int :=
  match m.list place with
  | none => (m.panic,-1)
  | some l =>
    match l.cells.getLast? with
    | none => (m,-1)
    | some (element,cell) => (memFree (m.setList place { l with cells := l.cells.dropLast }) cell,element)

/-- `list_delete` -/
def listDelete (m : Machine) (place : Place) (e : Int) : Machine :=
  match m.list place with
  | none => m.panic
  | some l =>
    match l.cells.find? (fun cell => cell.1 = e) with
    | none => m
    | some cell => memFree (m.setList place { l with cells := l.cells.erase cell }) cell.2

/-- The blocks of a list. -/
def chainBlocks : Option Chain → List Nat
  | none => []
  | some l => l.head :: l.cells.map Prod.snd

/-- `list_free` -/
def listFree (m : Machine) (l : Option Chain) : Machine := (chainBlocks l).foldl memFree m

/-! ### `context.c` -/

/-- The first descriptor that is not in use. -/
def freePid (m : Machine) : Option Int := pids.find? (fun pid => !(m.tabProc pid).valide)

/-- Where the parent keeps its children. -/
def Machine.parentList (m : Machine) : Place := if m.pidCour ≠ 0 then .children m.pidCour else .kernelChildren

/-- The `procfs_new_..` functions: they write to their node at once. The last of
    them is followed by the list of the parent. -/
def procfsNodes (m : Machine) (pid : Int) (a : Nat → Bool) : Machine × Bool :=
  match memAlloc m (a 0) with
  | (m,none) => (m,false)
  | (m,some node) =>
    let m := m.setProc pid (fun c => { c with procfsNode := some node })
    match memAlloc m (a 1) with
    | (m,none) => (m,false)
    | (m,some node) =>
      let m := m.setProc pid (fun c => { c with vfsStateNode := some node })
      match memAlloc m (a 2) with
      | (m,none) => (m,false)
      | (m,some node) =>
        let m := m.setProc pid (fun c => { c with vfsParentNode := some node })
        match memAlloc m (a 3) with
        | (m,none) => (m,false)
        | (m,some node) => (m.setProc pid (fun c => { c with vfsNameNode := some node }),true)

/-- `context_create_user` from the name on. It does not return when the name
    cannot be read or one of its allocations is refused. -/
def nameAndAttach (m : Machine) (pid : Int) (a : Nat → Bool) (readable : Bool) : Machine × Option Int :=
  if readable = false then (m,none)
  else
    match memAlloc m (a 0) with
    | (m,none) => (m,none)
    | (m,some name) =>
      let stdout := if m.pidCour = 0 then .to (.console 0) else ((m.tabProc m.pidCour).fileDesc 1).node
      let m := m.setProc pid (fun c => { c with
        name := some name
        fileDesc := (setupFiles stdout ⟨c.fileDesc,fsRoot,false⟩).fileDesc })
      match procfsNodes m pid (fun i => a (i + 1)) with
      | (m,false) => (m,none)
      | (m,true) =>
        match listPutFirst m (a 5) m.parentList pid with
        | (m,false) => (m,none)
        | (m,true) => (m.setProc pid (fun c => { c with valide := true }),some pid)

/-- `context_create_user`, with the answers to its allocations in their order;
    none when it does not return. -/
def contextCreateUser (m : Machine) (a : Nat → Bool) (readable : Bool) : Machine × Option Int :=
  match freePid m with
  | none => (m,some (-1))
  | some pid =>
    match memAlloc m (a 0) with
    | (m,kernelStack) =>
      match memAlloc m (a 1) with
      | (m,userStack) =>
        if kernelStack = none ∨ userStack = none then (m,some (-1))
        else
          match listNew m (a 2) with
          | (m,children) =>
            let m := m.setProc pid (fun c => { c with
              state := .activable
              kernelStack := kernelStack
              userStack := userStack
              pidParent := m.pidCour
              children := children
              sidWait := 0 })
            if children = none then (m,some (-1))
            else
              match listNew m (a 3) with
              | (m,sigs) =>
                let m := m.setProc pid (fun c => { c with sigs := sigs, curSig := false })
                nameAndAttach m pid (fun i => a (i + 4)) readable

/-- `garbage_collector` on one descriptor. -/
def collect (m : Machine) (pid : Int) : Machine :=
  let c := m.tabProc pid
  if c.valide = true ∧ c.state = .dead then
    let m := c.kernelStack.toList.foldl memFree m
    let m := c.userStack.toList.foldl memFree m
    (listFree m c.children).setProc pid (fun c => { c with valide := false })
  else m

/-- `garbage_collector` -/
def garbageCollector (m : Machine) : Machine := pids.foldl collect m

/-- `trt_sigs` -/
def trtSigs (m : Machine) : Machine :=
  if m.pidCour = 0 then m
  else
    match (m.tabProc m.pidCour).sigs with
    | none => m.panic
    | some l =>
      if l.cells = [] ∨ (m.tabProc m.pidCour).curSig then m
      else (listGetLast (m.setProc m.pidCour (fun c => { c with curSig := true })) (.sigs m.pidCour)).1

/-- `context_switch` to a process, or to the idle loop. -/
def contextSwitch (m : Machine) (pid : Int) : Machine := garbageCollector (trtSigs { m with pidCour := pid })

/-! ### `sys.c` -/

/-- The loop over the children in `exit` and `kill`; false when it faults. -/
def reparent (m : Machine) (a : Nat → Bool) : List Int → Machine × Bool
  | [] => (m,true)
  | child :: rest =>
    if (m.tabProc child).state = .zombie then reparent (m.setProc child (fun c => { c with state := .dead })) a rest
    else
      match listPutFirst (m.setProc child (fun c => { c with pidParent := 1 })) (a 0) (.children 1) child with
      | (m,false) => (m,false)
      | (m,true) => reparent m (fun i => a (i + 1)) rest

/-- The common part of `exit` and `kill`, from the iterator on. -/
def endProcess (m : Machine) (a : Nat → Bool) (pid : Int) : Machine :=
  match (m.tabProc pid).children with
  | none => m.panic
  | some l =>
    match memAlloc m (a 0) with
    | (m,none) => m
    | (m,some it) =>
      match reparent m (fun i => a (i + 1)) (l.cells.map Prod.fst) with
      | (m,false) => m
      | (m,true) =>
        let m := memFree m it
        if (m.tabProc pid).pidParent > 1 then m.setProc pid (fun c => { c with state := .zombie })
        else listDelete (m.setProc pid (fun c => { c with state := .dead })) (.children 1) pid

/-- `exit` -/
def exit (m : Machine) (a : Nat → Bool) : Machine := endProcess m a m.pidCour

/-- `kill` -/
def kill (m : Machine) (pid : Int) (a : Nat → Bool) : Machine :=
  let c := m.tabProc pid
  if pid ≤ 1 ∨ pid > NBPROC ∨ c.valide = false ∨ c.state = .dead ∨ c.state = .zombie then m
  else
    let m := if c.state = .waitSem then m.setSem c.sidWait (fun s => { s with c := short (s.c + 1) }) else m
    endProcess m a pid

/-- A list iterator, freed after the walk; none when it is refused. -/
def iterate (m : Machine) (answer : Bool) : Option Machine :=
  match memAlloc m answer with
  | (_,none) => none
  | (m,some it) => some (memFree m it)

/-- The end of `waitpid` for a child. -/
def reap (m : Machine) (child : Int) : Machine :=
  listDelete (m.setProc child (fun c => { c with state := .dead })) (.children m.pidCour) child

/-- `waitpid` from its iterator on, when it finds the child or none; none also
    when it goes to sleep. -/
def waitpid (m : Machine) (found : Option Int) (answer : Bool) : Machine :=
  match iterate m answer with
  | none => m
  | some m =>
    match found with
    | some child => reap m child
    | none => m

/-! ### `semaphore.c` -/

/-- `sid < 0 || sid > NBSEM-1 || semaphores[sid].valide != 1`, negated. -/
def Machine.HasSem (m : Machine) (sid : Int) : Prop := 0 ≤ sid ∧ sid ≤ NBSEM - 1 ∧ (m.semaphores sid).valide = true
instance (m : Machine) (sid : Int) : Decidable (m.HasSem sid) := inferInstanceAs (Decidable (_ ∧ _))

/-- `screate` -/
def screate (m : Machine) (compteur : Int) (answer : Bool) : Machine :=
  if compteur < 0 ∨ m.sidLibres.cells = [] then m
  else
    match listGetFirst m .sidLibres with
    | (m,sid) =>
      if (m.semaphores sid).valide then m.panic
      else
        match listNew m answer with
        | (m,procWait) =>
          m.setSem sid (fun s => { s with
            c := compteur
            procWait := procWait
            valide := if procWait.isNone then s.valide else true })

/-- `wait`, up to its call of `scheduler`. -/
def wait (m : Machine) (sid : Int) (answer : Bool) : Machine :=
  if ¬ m.HasSem sid ∨ (m.semaphores sid).c = SHRT_MIN then m
  else
    let m := m.setSem sid (fun s => { s with c := s.c - 1 })
    if (m.semaphores sid).c < 0 then
      let m := m.setProc m.pidCour (fun c => { c with state := .waitSem, sidWait := sid })
      (listPutFirst m answer (.procWait sid) m.pidCour).1
    else m

/-- `try_wait` -/
def tryWait (m : Machine) (sid : Int) : Machine :=
  if ¬ m.HasSem sid then m
  else if (m.semaphores sid).c > 0 then m.setSem sid (fun s => { s with c := s.c - 1 })
  else m

/-- One turn of `signaln`, and `signal` past its checks. -/
def signalOne (m : Machine) (sid : Int) : Machine :=
  let m := m.setSem sid (fun s => { s with c := s.c + 1 })
  if (m.semaphores sid).c ≤ 0 then (listGetLast m (.procWait sid)).1 else m

/-- `signaln`; `signal` is the case of one. -/
def signaln (m : Machine) (sid count : Int) : Machine :=
  if ¬ m.HasSem sid ∨ count < 0 ∨ ((m.semaphores sid).c > 0 ∧ SHRT_MAX - (m.semaphores sid).c < count) then m
  else (List.range count.toNat).foldl (fun m _ => signalOne m sid) m

/-- The loop of `sdelete` and `sreset` that takes every waiting process out. -/
def drain (m : Machine) (sid : Int) : Nat → Machine
  | 0 => m
  | turns + 1 => drain (listGetFirst m (.procWait sid)).1 sid turns

/-- The number of waiting processes. -/
def Machine.waiters (m : Machine) (sid : Int) : Nat :=
  match (m.semaphores sid).procWait with
  | none => 0
  | some l => l.cells.length

/-- `sdelete` -/
def sdelete (m : Machine) (sid : Int) (answer : Bool) : Machine :=
  if ¬ m.HasSem sid then m
  else
    let m := drain m sid (m.waiters sid)
    let m := (listFree m (m.semaphores sid).procWait).setSem sid (fun s => { s with valide := false })
    (listPutFirst m answer .sidLibres sid).1

/-- `sreset` -/
def sreset (m : Machine) (sid count : Int) : Machine :=
  if ¬ m.HasSem sid ∨ count < 0 then m
  else drain (m.setSem sid (fun s => { s with c := count })) sid (m.waiters sid)

/-- `sem_info`: one iterator for each semaphore in use; `answers` are those to
    the iterators. -/
def semInfo (m : Machine) : List Bool → Machine
  | [] => m
  | answer :: rest =>
    match iterate m answer with
    | none => m
    | some m => semInfo m rest

/-! ### `signals.c` and `vfs.c` -/

/-- `signal_send` -/
def signalSend (m : Machine) (pid signalid : Int) (answer : Bool) : Machine :=
  if (m.tabProc pid).valide = false ∨ ¬ IsSignal signalid then m.panic
  else (listPutFirst m answer (.sigs pid) signalid).1

/-- `sigaction`. The word behind `sigmap` is `sigs`. -/
def sigaction (m : Machine) (signalid : Int) : Machine :=
  if ¬ IsSignal signalid then m.panic
  else if signalid = NBSIG then m.setProc m.pidCour (fun c => { c with sigs := none })
  else m

/-- `sig_return` -/
def sigReturn (m : Machine) : Machine := m.setProc m.pidCour (fun c => { c with curSig := false })

/-- A write to a descriptor of the current process. -/
def Machine.setFile (m : Machine) (fd : Int) (f : FileDescriptor → FileDescriptor) : Machine :=
  m.setProc m.pidCour (fun c => { c with fileDesc := Function.update c.fileDesc fd (f (c.fileDesc fd)) })

/-- `/kikoo` -/
def kikoo : Node := .rootfs 12

/-- `fd_alloc` at the end of `open`. -/
def fdAlloc (m : Machine) (node : Node) : Machine :=
  match slot (m.tabProc m.pidCour).fileDesc with
  | some fd => m.setFile fd (fun _ => ⟨true,.to node,0⟩)
  | none => m

/-- `open` of a node. `kikoo_open` writes to its block at once. -/
def openFile (m : Machine) (node : Node) (answer : Bool) : Machine :=
  if node = kikoo then
    match memAlloc m answer with
    | (m,none) => { m with kikoobuf := none }
    | (m,some block) => fdAlloc { m with kikoobuf := some block } node
  else fdAlloc m node

/-- `fd_free` -/
def fdFree (m : Machine) (fd : Int) : Machine :=
  if ((m.tabProc m.pidCour).fileDesc fd).present = false then m
  else m.setFile fd (fun f => { f with present := false, node := .null })

/-- `close` -/
def close (m : Machine) (fd : Int) : Machine :=
  match ((m.tabProc m.pidCour).fileDesc fd).node with
  | .null | .stray => m
  | .to node =>
    match closeCallback node with
    | .null => fdFree m fd
    | .stray => m
    | .to _ => fdFree (m.kikoobuf.toList.foldl memFree m) fd

/-- `set_stdout` to a node. -/
def setStdout (m : Machine) (node : Node) : Machine := m.setFile 1 (fun f => { f with node := .to node })

/-! ### Steps -/

inductive Event where
  | create (a : Nat → Bool) (readable : Bool)
  | exit (a : Nat → Bool)
  | kill (pid : Int) (a : Nat → Bool)
  | waitpid (found : Option Int) (answer : Bool)
  | reap (child : Int)
  | screate (compteur : Int) (answer : Bool)
  | wait (sid : Int) (answer : Bool)
  | tryWait (sid : Int)
  | signaln (sid count : Int)
  | sdelete (sid : Int) (answer : Bool)
  | sreset (sid count : Int)
  | semInfo (answers : List Bool)
  | signalSend (pid signalid : Int) (answer : Bool)
  | sigaction (signalid : Int)
  | sigReturn
  | openFile (node : Node) (answer : Bool)
  | close (fd : Int)
  | setStdout (node : Node)
  | switch (pid : Int)
  /-- A process falls asleep, wakes up or ends its wait. -/
  | become (pid : Int) (state : ProcState)

/-- What a system call of the current process does. -/
def serve (m : Machine) : Event → Machine
  | .create a readable => (contextCreateUser m a readable).1
  | .exit a => exit m a
  | .kill pid a => kill m pid a
  | .waitpid found answer => waitpid m found answer
  | .reap child => reap m child
  | .screate compteur answer => screate m compteur answer
  | .wait sid answer => wait m sid answer
  | .tryWait sid => tryWait m sid
  | .signaln sid count => signaln m sid count
  | .sdelete sid answer => sdelete m sid answer
  | .sreset sid count => sreset m sid count
  | .semInfo answers => semInfo m answers
  | .signalSend pid signalid answer => signalSend m pid signalid answer
  | .sigaction signalid => sigaction m signalid
  | .sigReturn => sigReturn m
  | .openFile node answer => openFile m node answer
  | .close fd => close m fd
  | .setStdout node => setStdout m node
  | .switch pid => contextSwitch m pid
  | .become pid state => m.setProc pid (fun c => { c with state := state })

/-- The machine can take the step: Init is created by the kernel itself, other
    calls are made by processes. Only `exit`, `kill` and `waitpid` end a process. -/
def Enabled (m : Machine) : Event → Prop
  | .create _ _ => True
  | .switch pid => pid = 0 ∨ (m.tabProc pid).valide = true
  | .become _ state => state ≠ .dead
  | _ => m.pidCour ≠ 0
instance (m : Machine) (e : Event) : Decidable (Enabled m e) := by unfold Enabled; split <;> infer_instance

def step (m : Machine) (e : Event) : Option Machine :=
  if m.halted = true ∨ ¬ Enabled m e then none else some (serve m e)

/-- The kernel before it creates Init: the free semaphores, and what it keeps. -/
structure Boot (m : Machine) : Prop where
  processes : ∀ p, (m.tabProc p).valide = false ∧ (m.tabProc p).children = none ∧ (m.tabProc p).sigs = none
  semaphores : ∀ sid, (m.semaphores sid).valide = false
  idle : m.pidCour = 0
  live : ∀ b, b ∈ m.live ↔ b ∈ chainBlocks (some m.sidLibres) ∨ b ∈ chainBlocks (some m.kernelChildren) ∨ b ∈ m.boot
  fresh : ∀ b ∈ m.live, b < m.next

/-- The states that the machine reaches by steps that meet a guard. -/
abbrev Reach (guard : Machine → Event → Prop) : Machine → Prop := Runs.Reach Boot step guard

end Psys.Blocks
