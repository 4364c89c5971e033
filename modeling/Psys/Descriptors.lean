import Psys.UserPointers

/-!
The descriptor tables of all processes along runs. The system calls on files are
the handlers, run on the table of the current process; the rest of the kernel
takes the steps of its own machine.
-/
namespace Psys.Descriptors
open Psys.State Psys.Vfs Psys.Provenance Psys.Handlers
open Psys.Context (freePid sysret)
open Psys.Sys (handlePfault)

/-- What a descriptor of a process holds of the file system. -/
structure Files where
  fileDesc : Int → FileDescriptor
  workingDir : Node
  /-- History: `context_create_user` has set the table up. -/
  created : Bool

structure Machine where
  /-- What the handlers work on, less the table and the directory, which are
      those of the current process. -/
  base : Handlers.Machine
  files : Int → Files

/-- The files of the current process. -/
def Machine.own (m : Machine) : Files := m.files m.base.kernel.pidCour

/-- What a handler of the current process finds. -/
def Machine.entered (m : Machine) (number : UInt32) : Handlers.Machine :=
  { m.base with inSyscall := number, fileDesc := m.own.fileDesc, workingDir := m.own.workingDir }

/-- A handler runs in a system call of the current process, which ends with its
    value or in a page fault. -/
def Machine.enter (m : Machine) (number : UInt32) (handler : Handler Int) (mem : Nat → UInt8) : Machine :=
  let after := handler ⟨m.entered number,mem⟩
  let state := after.world.state
  { base :=
      match after.value with
      | some r => { state with inSyscall := 0xff, kernel := sysret state.kernel (some r) }
      | none => { state with kernel := handlePfault state.kernel }
    files := Function.update m.files m.base.kernel.pidCour
      { m.own with fileDesc := state.fileDesc, workingDir := state.workingDir } }

/-! ### The system calls on files -/

inductive FileCall where
  | read (fd : Int) (buf len : Nat)
  | write (fd : Int) (buf len : Nat)
  | readdir (fd : Int) (dirp : Nat) (n : Int)
  | fstat (fd : Int) (s : Nat)
  | close (fd : Int)

def FileCall.fd : FileCall → Int
  | .read fd _ _ | .write fd _ _ | .readdir fd _ _ | .fstat fd _ | .close fd => fd

def FileCall.number : FileCall → UInt32
  | .read _ _ _ => SYSCALL_READ
  | .write _ _ _ => SYSCALL_WRITE
  | .readdir _ _ _ => SYSCALL_READDIR
  | .fstat _ _ => SYSCALL_FSTAT
  | .close _ => SYSCALL_CLOSE

/-- The handler of the call. -/
def serve (freed : List UInt8 → List UInt8) : FileCall → Handler Int
  | .read fd buf len => read fd ⟨buf,some 0⟩ len
  | .write fd buf len => write fd ⟨buf,some 0⟩ len
  | .readdir fd dirp n => Handlers.readdir fd ⟨dirp,some 0⟩ n
  | .fstat fd s => fstat fd ⟨s,some 0⟩
  | .close fd => close freed fd

/-! ### Steps -/

inductive Event where
  /-- Anything else that the kernel does. -/
  | kernel (e : System.Event)
  /-- Memory is as other code has left it. -/
  | file (c : FileCall) (freed : List UInt8 → List UInt8) (mem : Nat → UInt8)
  | openFile (name : Nat) (mem : Nat → UInt8)
  | setStdout (name : Nat) (mem : Nat → UInt8)
  | chdir (path : Nat) (mem : Nat → UInt8)
  | consRead (buf len : Nat)
  | consWrite (buf : Nat) (len : Int) (mem : Nat → UInt8)

/-- The table that `context_create_user` sets up in a descriptor. Descriptor 0 gets no node. -/
def setupFiles (stdout : Ptr Node) (old : Files) : Files where
  fileDesc fd :=
    if fd = 0 then { old.fileDesc fd with present := true }
    else if fd = 1 then ⟨true,stdout,0⟩
    else if 1 < fd ∧ fd < DTABLESIZE then { old.fileDesc fd with present := false }
    else old.fileDesc fd
  workingDir := fsRoot
  created := true

/-- The descriptor that a step of the kernel takes for a new process. -/
def creates (k : Kernel) : System.Event → Option Int
  | .call (.start ssize _ memory) =>
    if ssize ≤ 0xffffffe7 ∧ memory.stack ∧ memory.children ∧ memory.name then freePid k.tabProc else none
  | _ => none

/-- The calls that are steps of their own here. -/
def Here : System.Event → Prop
  | .call (.consRead _ _) | .call (.setStdout _) => True
  | _ => False
instance : DecidablePred Here := fun e =>
  decidable_of_iff ((match e with | .call (.consRead _ _) | .call (.setStdout _) => true | _ => false) = true) (by
    unfold Here
    split <;> simp)

/-- A process runs in user mode. Only what `context_create_user` has created is
    a process. -/
def Machine.InUser (m : Machine) : Prop :=
  m.base.kernel.halted = false ∧ m.base.kernel.inKernel = false ∧ m.base.kernel.pidCour ≠ 0 ∧ m.own.created = true
instance (m : Machine) : Decidable m.InUser := inferInstanceAs (Decidable (_ ∧ _))

/-- A system call of the current process. -/
def Machine.calls (m : Machine) (number : UInt32) (handler : Handler Int) (mem : Nat → UInt8) : Option Machine :=
  if m.InUser then some (m.enter number handler mem) else none

/-- A step of the kernel machine. -/
def Machine.passes (m : Machine) (k : Kernel) (e : System.Event) : Option Machine :=
  (System.step k e).map (fun k' => { m with base := { m.base with kernel := k' } })

/-- `cons_read` takes the console of descriptor 1; the kernel machine knows it as
    an inode. -/
def consRead (m : Machine) (buf len : Nat) : Option Machine :=
  let k := m.base.kernel
  match (m.own.fileDesc 1).node with
  | .to node => m.passes (k.setProc k.pidCour (fun c => { c with stdout := (fsNode node).inode })) (.call (.consRead buf len))
  | _ => if len = 0 then m.calls SYSCALL_CONS_READ (pure 0) (fun _ => 0) else m.passes k .fault

/-- One step, when the machine can take it. -/
def step (m : Machine) : Event → Option Machine
  | .kernel e =>
    if Here e then none
    else
      (m.passes m.base.kernel e).map (fun m' =>
        match creates m.base.kernel e with
        | some pid => { m' with files := Function.update m.files pid (setupFiles (m.own.fileDesc 1).node (m.files pid)) }
        | none => m')
  | .file c freed mem => m.calls c.number (serve freed c) mem
  | .openFile name mem => m.calls SYSCALL_OPEN (openFile ⟨name,some 0⟩) mem
  | .setStdout name mem => m.calls SYSCALL_SET_STDOUT (setStdout ⟨name,some 0⟩) mem
  | .chdir path mem => m.calls SYSCALL_CHDIR (Handlers.chdir ⟨path,some 0⟩) mem
  | .consRead buf len => consRead m buf len
  | .consWrite buf len mem => m.calls SYSCALL_CONS_WRITE (do
      Handlers.consWrite ⟨buf,some 0⟩ len
      return 0) mem

/-- A table in zeroed memory. -/
def Zeroed (f : Files) : Prop := f.created = false ∧ ∀ fd, 0 ≤ fd → fd < DTABLESIZE → f.fileDesc fd = ⟨false,.null,0⟩

/-- The start: `context_init` has created Init. -/
def Boot (m : Machine) : Prop :=
  System.Boot m.base.kernel ∧
    ∃ files : Int → Files, (∀ p, Zeroed (files p)) ∧
      m.files = Function.update files 1 (setupFiles (.to (.console 0)) (files 1))

/-- A start in zeroed memory. -/
def zeroed : Machine where
  base := UserPointers.initMachine System.zeroed
  files := Function.update (fun _ => ⟨fun _ => ⟨false,.null,0⟩,fsRoot,false⟩) 1
    (setupFiles (.to (.console 0)) ⟨fun _ => ⟨false,.null,0⟩,fsRoot,false⟩)

theorem zeroed_boot : Boot zeroed := ⟨System.zeroed_boot,_,fun _ => ⟨rfl,fun _ _ _ => rfl⟩,rfl⟩

/-- The states that the machine reaches by steps that meet a guard. -/
abbrev Reach (guard : Machine → Event → Prop) : Machine → Prop := Runs.Reach Boot step guard

/-! ### What handlers do to a table -/

/-- A descriptor keeps its presence and its node, or loses both. -/
def Worn (f f' : FileDescriptor) : Prop :=
  f'.present = f.present ∧ f'.node = f.node ∨ f.node ≠ .null ∧ f'.present = false ∧ f'.node = .null

theorem Worn.trans {f f' f'' : FileDescriptor} (first : Worn f f') (second : Worn f' f'') : Worn f f'' := by
  rcases second with ⟨present,node⟩ | ⟨found,present,node⟩
  · rcases first with kept | freed
    · exact .inl ⟨present.trans kept.1,node.trans kept.2⟩
    · exact .inr ⟨freed.1,present.trans freed.2.1,node.trans freed.2.2⟩
  · rcases first with kept | freed
    · exact .inr ⟨kept.2 ▸ found,present,node⟩
    · exact absurd freed.2.2 found

/-- The same of all descriptors. -/
def Wears (m m' : Handlers.Machine) : Prop := ∀ fd, Worn (m.fileDesc fd) (m'.fileDesc fd)

instance : Std.Refl Wears := ⟨fun _ _ => .inl ⟨rfl,rfl⟩⟩
instance : IsTrans Handlers.Machine Wears := ⟨fun _ _ _ first second fd => (first fd).trans (second fd)⟩

theorem wears_of_eq {m m' : Handlers.Machine} (same : m'.fileDesc = m.fileDesc) : Wears m m' := by
  intro fd
  rw [same]
  exact .inl ⟨rfl,rfl⟩

theorem setFile_wears (m : Handlers.Machine) (fd : Int) {f : FileDescriptor → FileDescriptor}
    (worn : Worn (m.fileDesc fd) (f (m.fileDesc fd))) : Wears m (m.setFile fd f) := by
  intro fd'
  by_cases same : fd' = fd
  · subst same
    simpa [Machine.setFile] using worn
  · simp [Machine.setFile,Function.update_of_ne same,Worn]

section Wears
variable {R : Handlers.Machine → Handlers.Machine → Prop} [Std.Refl R]

theorem moves_checkPointer (p : Pointer) (code : UInt32) : Moves R (checkPointer p code) := moves_of_still (fun _ => rfl)

theorem moves_byteAt (p : Pointer) (i : Nat) : Moves R (byteAt p i) := moves_load _

variable [IsTrans Handlers.Machine R]

theorem moves_memread (bytes : List UInt8) (offset : Nat) (buf : Pointer) (len : Nat) :
    Moves R (memread bytes offset buf len) := by
  refine Moves.ite (moves_pure _) ?_
  refine Moves.ite (moves_pure _) ?_
  exact (moves_storeBytes _ _).bind (fun _ => moves_pure _)

theorem moves_readOp (op : ReadOp) (node : Node) (offset len : Nat) (buf : Pointer) :
    Moves R (readOp op node offset len buf) := by
  refine Moves.bind moves_get ?_
  intro m
  cases op with
  | answer => exact (moves_storeBytes _ _).bind (fun _ => moves_pure _)
  | zero => exact (moves_storeBytes _ _).bind (fun _ => moves_pure _)
  | blink =>
    apply Moves.ite
    · exact (moves_storeBytes _ _).bind (fun _ => moves_pure _)
    · exact moves_pure _
  | kikoo => exact moves_memread _ _ _ _
  | fg => exact moves_memread _ _ _ _
  | bg => exact moves_memread _ _ _ _
  | state => exact moves_memread _ _ _ _
  | parent => exact moves_memread _ _ _ _
  | name => exact moves_memread _ _ _ _

/-- The resolution of a path leaves the state alone. -/
theorem moves_vfsPathResolution (name : Pointer) : Moves R (Handlers.vfsPathResolution name) := by
  have filename : ∀ room offset, Moves R (Handlers.vfsNextFilename name room offset) := by
    intro room
    induction room with
    | zero => exact fun offset => (moves_byteAt name offset).bind (fun _ => moves_stop)
    | succ room ih =>
      intro offset
      refine Moves.bind (moves_byteAt name offset) ?_
      intro c
      refine Moves.ite (moves_pure _) ?_
      refine Moves.ite (moves_pure _) ?_
      exact (ih (offset + 1)).bind (fun _ => moves_pure _)
  have loop : ∀ turns current offset, Moves R (resolveLoop name turns current offset) := by
    intro turns
    induction turns with
    | zero => exact fun _ _ => moves_stop
    | succ turns ih =>
      intro current offset
      refine Moves.bind (filename _ _) ?_
      intro next
      refine Moves.bind moves_get ?_
      intro m
      split
      · exact moves_pure _
      · exact Moves.ite (moves_pure _) (ih _ _)
  have word : ∀ bytes i, Moves R (nameIs name bytes i) := by
    intro bytes
    induction bytes with
    | nil => exact fun i => (moves_byteAt name i).bind (fun _ => moves_pure _)
    | cons b rest ih =>
      intro i
      refine Moves.bind (moves_byteAt name i) ?_
      exact fun _ => Moves.ite (ih _) (moves_pure _)
  refine Moves.bind (moves_byteAt name 0) ?_
  intro first
  apply Moves.ite
  · refine Moves.bind moves_get ?_
    intro m
    refine Moves.bind (word _ _) ?_
    intro dot
    refine Moves.ite (moves_pure _) ?_
    refine Moves.bind (word _ _) ?_
    intro dots
    exact Moves.ite (moves_pure _) (loop _ _ _)
  · refine Moves.bind (moves_byteAt name 1) ?_
    intro second
    exact Moves.ite (moves_pure _) (loop _ _ _)

end Wears

theorem read_wears (fd : Int) (buf : Pointer) (len : Nat) : Moves Wears (read fd buf len) := by
  refine Moves.bind (moves_checkPointer _ _) ?_
  intro buf
  refine Moves.bind moves_get ?_
  intro m
  split
  · exact moves_stop
  · exact moves_expose _
  · split
    · exact moves_pure _
    · exact moves_expose _
    · refine Moves.bind (moves_readOp _ _ _ _ _) ?_
      intro bytesRead
      exact (moves_modify (fun m => setFile_wears m fd (.inl ⟨rfl,rfl⟩))).bind (fun _ => moves_pure _)

theorem writeFirst_wears (len : Nat) (buf : Pointer) {f : UInt8 → Handlers.Machine → Handlers.Machine}
    (same : ∀ c m, (f c m).fileDesc = m.fileDesc) : Moves Wears (writeFirst len buf f) := by
  apply Moves.ite
  · refine Moves.bind (moves_byteAt buf 0) ?_
    intro c
    exact (moves_modify (fun m => wears_of_eq (same c m))).bind (fun _ => moves_pure _)
  · exact moves_pure _

theorem putBytes_wears (console : Int) (s : Pointer) (left : Nat) : ∀ i, Moves Wears (putBytes console s left i) := by
  induction left with
  | zero => exact fun _ => moves_pure _
  | succ left ih =>
    intro i
    refine Moves.bind (moves_byteAt s i) ?_
    intro c
    exact Moves.bind (moves_modify (fun _ => wears_of_eq rfl)) (fun _ => ih _)

theorem write_wears (fd : Int) (buf : Pointer) (len : Nat) : Moves Wears (write fd buf len) := by
  refine Moves.bind moves_get ?_
  intro m
  split
  · exact moves_stop
  · exact moves_expose _
  · rename_i node _
    split
    · exact moves_pure _
    · exact moves_expose _
    · rename_i op _
      cases op with
      | vc => exact (putBytes_wears _ _ _ _).bind (fun _ => moves_pure _)
      | blink => exact writeFirst_wears _ _ (fun _ _ => rfl)
      | fg => exact writeFirst_wears _ _ (fun _ _ => rfl)
      | bg => exact writeFirst_wears _ _ (fun _ _ => rfl)
      | echo => exact writeFirst_wears _ _ (fun _ _ => rfl)

theorem readdir_wears (fd : Int) (dirp : Pointer) (n : Int) : Moves Wears (Handlers.readdir fd dirp n) := by
  refine Moves.bind (moves_checkPointer _ _) ?_
  intro dirp
  refine Moves.bind moves_get ?_
  intro m
  split
  · exact moves_stop
  · exact moves_expose _
  · apply Moves.ite
    · split
      · exact moves_expose _
      · exact moves_pure _
      · exact moves_pure _
      · refine Moves.bind (moves_storeBytes _ _) ?_
        exact fun _ => (moves_storeBytes _ _).bind (fun _ => moves_pure _)
    · exact moves_pure _

theorem fstat_wears (fd : Int) (s : Pointer) : Moves Wears (fstat fd s) := by
  refine Moves.bind moves_get ?_
  intro m
  refine Moves.ite (moves_pure _) ?_
  split
  · exact moves_stop
  · exact moves_expose _
  · refine Moves.bind (moves_storeBytes _ _) ?_
    intro _
    refine Moves.bind (moves_storeBytes _ _) ?_
    intro _
    refine Moves.bind (moves_storeBytes _ _) ?_
    exact fun _ => (moves_storeBytes _ _).bind (fun _ => moves_pure _)

theorem fdFree_wears {fd : Int} {s : World Handlers.Machine} (found : (s.state.fileDesc fd).node ≠ .null) :
    Wears s.state (fdFree fd s).world.state := by
  rw [fdFree,get_bind]
  split
  · exact wears_of_eq rfl
  · rw [modify_bind]
    exact setFile_wears s.state fd (f := fun f => { f with present := false, node := .null }) (.inr ⟨found,rfl,rfl⟩)

/-- `close_fs` needs a node. -/
theorem close_wears (freed : List UInt8 → List UInt8) (fd : Int) : Moves Wears (close freed fd) := by
  intro s
  rw [close,get_bind]
  rcases node : (s.state.fileDesc fd).node with _ | n | _
  · exact wears_of_eq rfl
  · rcases callback : closeCallback n with _ | _ | _
    · simp only [callback]
      exact fdFree_wears (by simp [node])
    · simp only [callback,modify_bind]
      exact fdFree_wears (s := ⟨{ s.state with kikoobuf := freed s.state.kikoobuf },s.mem⟩) (by simp [node])
    · simp only [callback]
      exact wears_of_eq rfl
  · exact wears_of_eq rfl

/-- The calls on files set no node. -/
theorem serve_wears (freed : List UInt8 → List UInt8) (c : FileCall) : Moves Wears (serve freed c) := by
  cases c with
  | read fd buf len => exact read_wears _ _ _
  | write fd buf len => exact write_wears _ _ _
  | readdir fd dirp n => exact readdir_wears _ _ _
  | fstat fd s => exact fstat_wears _ _
  | close fd => exact close_wears _ _

theorem consWrite_wears (buf : Pointer) (len : Int) : Moves Wears (Handlers.consWrite buf len) := by
  refine Moves.bind (moves_checkPointer _ _) ?_
  intro buf
  refine Moves.bind moves_get ?_
  intro m
  apply Moves.ite
  · exact (write_wears _ _ _).bind (fun _ => moves_pure _)
  · exact putBytes_wears _ _ _ _

theorem chdir_wears (path : Pointer) : Moves Wears (Handlers.chdir path) := by
  refine Moves.bind (moves_checkPointer _ _) ?_
  intro path
  refine Moves.bind (moves_vfsPathResolution _) ?_
  intro node
  split
  · exact moves_pure _
  · exact moves_stop
  · refine Moves.ite (moves_pure _) ?_
    exact Moves.bind (moves_modify (fun _ => wears_of_eq rfl)) (fun _ => moves_pure _)

/-! ### What a step does to a table -/

/-- `fd_alloc` puts a node into the first free descriptor. -/
def slot (t : Int → FileDescriptor) : Option Int :=
  (List.range DTABLESIZE.toNat : List Int).find? (fun i => !(t i).present)

theorem slot_free {t : Int → FileDescriptor} {i : Int} (free : slot t = some i) :
    0 ≤ i ∧ i < DTABLESIZE ∧ (t i).present = false := by
  have inside := List.mem_of_find?_eq_some free
  have absent := List.find?_some free
  simp only [List.bind_eq_flatMap,List.mem_flatMap,List.mem_range] at inside
  obtain ⟨j,below,same⟩ := inside
  rw [List.mem_singleton.mp same] at absent ⊢
  exact ⟨by omega,by omega,by simpa using absent⟩

/-- What the path of a system call resolves to. -/
def Machine.resolved (m : Machine) (number : UInt32) (name : Nat) (mem : Nat → UInt8) : Option (Ptr Node) :=
  (Handlers.vfsPathResolution ⟨name,some 0⟩ ⟨m.entered number,mem⟩).value

/-- A program that starts with the resolution of a path. -/
theorem resolve_cases {α : Type} (name : Pointer) (f : Ptr Node → Handler α) (s : World Handlers.Machine) :
    ((Handlers.vfsPathResolution name >>= f) s).world.state = s.state ∨
      ∃ node s', (Handlers.vfsPathResolution name s).value = some node ∧ s'.state = s.state ∧
        ((Handlers.vfsPathResolution name >>= f) s).world = (f node s').world := by
  have still : (Handlers.vfsPathResolution name s).world.state = s.state :=
    (moves_vfsPathResolution (R := fun m m' => m = m') name s).symm
  cases value : (Handlers.vfsPathResolution name s).value with
  | none =>
    rw [bind_none value]
    exact .inl still
  | some node =>
    refine .inr ⟨node,_,rfl,still,?_⟩
    rw [bind_some value]

theorem fdAlloc_some {node : Ptr Node} {s : World Handlers.Machine} {i : Int} (free : slot s.state.fileDesc = some i) :
    fdAlloc node s = ⟨[],some i,⟨s.state.setFile i (fun f => { f with present := true, node := node }),s.mem⟩⟩ := by
  unfold slot at free
  rw [fdAlloc,get_bind,free]
  exact modify_bind _ _ _

theorem fdAlloc_none {node : Ptr Node} {s : World Handlers.Machine} (full : slot s.state.fileDesc = none) :
    fdAlloc node s = ⟨[],some (-1),s⟩ := by
  unfold slot at full
  rw [fdAlloc,get_bind,full]
  rfl

/-- The end of `open`. -/
def allocate (n : Node) : Handler Int := do
  let fd ← fdAlloc (.to n)
  modify (fun m => m.setFile fd (fun f => { f with offset := 0 }))
  return fd

theorem allocate_cases (n : Node) (s : World Handlers.Machine) :
    Wears s.state (allocate n s).world.state ∨ ∃ i, slot s.state.fileDesc = some i ∧
      (allocate n s).world.state.fileDesc = Function.update s.state.fileDesc i ⟨true,.to n,0⟩ := by
  unfold allocate
  cases free : slot s.state.fileDesc with
  | none =>
    left
    rw [bind_some (by rw [fdAlloc_none free]),fdAlloc_none free]
    exact setFile_wears s.state (-1) (f := fun f => { f with offset := 0 }) (.inl ⟨rfl,rfl⟩)
  | some i =>
    right
    refine ⟨i,rfl,?_⟩
    rw [bind_some (by rw [fdAlloc_some free]),fdAlloc_some free]
    show (Machine.setFile _ _ _).fileDesc = _
    simp [Machine.setFile]

theorem openFile_cases (name : Pointer) (s : World Handlers.Machine) :
    Wears s.state (openFile name s).world.state ∨
      ∃ n i, (Handlers.vfsPathResolution name s).value = some (.to n) ∧ slot s.state.fileDesc = some i ∧
        (openFile name s).world.state.fileDesc = Function.update s.state.fileDesc i ⟨true,.to n,0⟩ := by
  unfold openFile
  rcases resolve_cases name _ s with still | ⟨node,s',value,same,after⟩
  · exact .inl (wears_of_eq (congrArg _ still))
  rw [after]
  rcases node with _ | n | _
  · exact .inl (wears_of_eq (congrArg _ same))
  · have finish : ∀ s'' : World Handlers.Machine, s''.state.fileDesc = s.state.fileDesc →
        Wears s.state (allocate n s'').world.state ∨
          ∃ n' i, (Handlers.vfsPathResolution name s).value = some (.to n') ∧ slot s.state.fileDesc = some i ∧
            (allocate n s'').world.state.fileDesc = Function.update s.state.fileDesc i ⟨true,.to n',0⟩ := by
      intro s'' kept
      rcases allocate_cases n s'' with worn | ⟨i,free,opened⟩
      · exact .inl (fun fd => kept ▸ worn fd)
      · exact .inr ⟨n,i,value,kept ▸ free,kept ▸ opened⟩
    have table : s'.state.fileDesc = s.state.fileDesc := congrArg _ same
    by_cases kikoo : n = .rootfs 12
    · subst kikoo
      exact finish ⟨{ s'.state with kikoobuf := kikoomsg },s'.mem⟩ table
    · simp only [if_neg kikoo]
      exact finish s' table
  · exact .inl (wears_of_eq (congrArg _ same))

theorem setStdout_cases (name : Pointer) (s : World Handlers.Machine) :
    (setStdout name s).world.state = s.state ∨
      ∃ node, (Handlers.vfsPathResolution name s).value = some node ∧ node ≠ .null ∧
        (setStdout name s).world.state = s.state.setFile 1 (fun f => { f with node := node }) := by
  unfold setStdout
  rcases resolve_cases name _ s with still | ⟨node,s',value,same,after⟩
  · exact .inl still
  rw [after]
  by_cases missing : node = .null
  · rw [if_pos missing]
    exact .inl same
  · rw [if_neg missing]
    refine .inr ⟨node,value,missing,?_⟩
    rw [modify_bind,← same]
    rfl

/-- What a step makes of the files of a process. -/
inductive Change (m : Machine) (e : Event) (p : Int) (f : Files) : Prop
  | worn : f.created = (m.files p).created → (∀ fd, Worn ((m.files p).fileDesc fd) (f.fileDesc fd)) → Change m e p f
  | opened {name : Nat} {mem : Nat → UInt8} {n : Node} {i : Int} : e = .openFile name mem → p = m.base.kernel.pidCour →
      m.resolved SYSCALL_OPEN name mem = some (.to n) → slot (m.files p).fileDesc = some i → (m.files p).created = true →
      f.created = true → f.fileDesc = Function.update (m.files p).fileDesc i ⟨true,.to n,0⟩ → Change m e p f
  | printed {name : Nat} {mem : Nat → UInt8} {node : Ptr Node} : e = .setStdout name mem → p = m.base.kernel.pidCour →
      m.resolved SYSCALL_SET_STDOUT name mem = some node → node ≠ .null → (m.files p).created = true → f.created = true →
      f.fileDesc = Function.update (m.files p).fileDesc 1 { (m.files p).fileDesc 1 with node := node } → Change m e p f
  | setup {e' : System.Event} : e = .kernel e' → creates m.base.kernel e' = some p →
      f = setupFiles (m.own.fileDesc 1).node (m.files p) → Change m e p f

variable {m m' : Machine} {e : Event} {p : Int}

theorem Change.same : Change m e p (m.files p) := .worn rfl (fun _ => .inl ⟨rfl,rfl⟩)

/-- The files after a system call. -/
theorem enter_change {number : UInt32} {handler : Handler Int} {mem : Nat → UInt8}
    (called : m.calls number handler mem = some m')
    (change : ∀ f : Files, m.own.created = true → f.created = true →
      f.fileDesc = (handler ⟨m.entered number,mem⟩).world.state.fileDesc → Change m e m.base.kernel.pidCour f) :
    Change m e p (m'.files p) := by
  obtain ⟨user,⟨⟩⟩ := Option.ite_none_right_eq_some.mp called
  have created : m.own.created = true := user.2.2.2
  by_cases here : p = m.base.kernel.pidCour
  · subst here
    simp only [Machine.enter,Function.update_self]
    exact change _ created created rfl
  · simp only [Machine.enter,Function.update_of_ne here]
    exact .same

/-- A handler that sets no node. -/
theorem enter_worn {number : UInt32} {handler : Handler Int} {mem : Nat → UInt8} (wears : Moves Wears handler)
    (called : m.calls number handler mem = some m') : Change m e p (m'.files p) := by
  apply enter_change called
  intro f created still table
  refine .worn (still.trans created.symm) ?_
  rw [table]
  exact wears ⟨m.entered number,mem⟩

theorem step_change (stepped : step m e = some m') : Change m e p (m'.files p) := by
  cases e with
  | kernel e =>
    obtain ⟨-,taken⟩ := Option.ite_none_left_eq_some.mp stepped
    obtain ⟨middle,passed,after⟩ := Option.map_eq_some_iff.mp taken
    obtain ⟨k,-,rfl⟩ := Option.map_eq_some_iff.mp passed
    subst after
    cases made : creates m.base.kernel e with
    | none => exact .same
    | some pid =>
      by_cases here : p = pid
      · subst here
        simp only [Function.update_self]
        exact .setup rfl made rfl
      · simp only [Function.update_of_ne here]
        exact .same
  | file c freed mem => exact enter_worn (serve_wears freed c) stepped
  | openFile name mem =>
    apply enter_change stepped
    intro f created still table
    rcases openFile_cases ⟨name,some 0⟩ ⟨m.entered SYSCALL_OPEN,mem⟩ with worn | ⟨n,i,value,free,opened⟩
    · exact .worn (still.trans created.symm) (fun fd => table ▸ worn fd)
    · exact .opened rfl rfl value free created still (table.trans opened)
  | setStdout name mem =>
    apply enter_change stepped
    intro f created still table
    rcases setStdout_cases ⟨name,some 0⟩ ⟨m.entered SYSCALL_SET_STDOUT,mem⟩ with same | ⟨node,value,found,printed⟩
    · exact .worn (still.trans created.symm) (fun fd => table ▸ wears_of_eq (congrArg _ same) fd)
    · exact .printed rfl rfl value found created still (table.trans (congrArg _ printed))
  | chdir path mem => exact enter_worn (chdir_wears _) stepped
  | consRead buf len =>
    have untouched : ∀ k e', m.passes k e' = some m' → m'.files = m.files := by
      intro k e' passed
      obtain ⟨k',-,rfl⟩ := Option.map_eq_some_iff.mp passed
      rfl
    simp only [step,consRead] at stepped
    split at stepped
    · rw [untouched _ _ stepped]
      exact .same
    · split at stepped
      · exact enter_worn (moves_pure _) stepped
      · rw [untouched _ _ stepped]
        exact .same
  | consWrite buf len mem => exact enter_worn ((consWrite_wears _ _).bind (fun _ => moves_pure _)) stepped

end Psys.Descriptors
