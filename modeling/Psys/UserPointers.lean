import Psys.Handlers
import Psys.Runs
import Psys.System

/-!
The system calls that take pointers, entered by a process, against the memory of
the kernel. A handler that checks its pointers makes no access that comes from
one below user space, and neither does one that returns before its first access;
the others do, whatever the state of the kernel.
-/
namespace Psys.UserPointers
open Psys.State Psys.Vfs Psys.Provenance Psys.Handlers
open Psys.Context (Memory freePid)
open Psys.Dispatch (isInSyscall)
open Psys.System (Event Reach step zeroed zeroed_boot)
open Psys.Runs (run reach_of_run)

variable {α : Type} {arg : Nat} {p : Pointer} {others : World Machine → World Machine}

/-! ### The check -/

/-- What `check_pointer` answers. -/
theorem checkPointer_bind (code : UInt32) (f : Pointer → Handler α) (s : World Machine) :
    (checkPointer p code >>= f) s =
      f (if isInSyscall s.state.inSyscall code && !isPointerUserspace p then null else p) s := rfl

theorem touches_check (code : UInt32) (f : Pointer → Handler α) (s : World Machine) :
    Touches arg (checkPointer p code >>= f) s ↔
      Touches arg (f (if isInSyscall s.state.inSyscall code && !isPointerUserspace p then null else p)) s := Iff.rfl

/-- A handler that checks the pointer goes on with one that comes from nowhere. -/
theorem checked {code : UInt32} {f : Pointer → Handler α} {s : World Machine} (low : p.address < USER_SPACE)
    (inside : s.state.inSyscall = code) (quiet : ∀ q, Foreign arg q → Quiet arg (f q)) :
    ¬ Touches arg (checkPointer p code >>= f) s := by
  have refused : (isInSyscall s.state.inSyscall code && !isPointerUserspace p) = true := by
    simp [isInSyscall,isPointerUserspace,inside,low]
  intro ⟨q,accessed,comes⟩
  rw [checkPointer_bind,if_pos refused] at accessed
  exact quiet null foreign_null s q accessed comes

/-- The check of a pointer from elsewhere. -/
theorem quiet_check {code : UInt32} {f : Pointer → Handler α} (foreign : Foreign arg p)
    (quiet : ∀ q, Foreign arg q → Quiet arg (f q)) : Quiet arg (checkPointer p code >>= f) := by
  intro s
  rw [checkPointer_bind]
  apply quiet
  split
  · exact foreign_null
  · exact foreign

/-! ### Memory -/

theorem quiet_byteAt (foreign : Foreign arg p) (i : Nat) : Quiet arg (byteAt p i) := quiet_load (foreign.plus i)

theorem quiet_storeWord (foreign : Foreign arg p) (w : UInt32) : Quiet arg (storeWord p w) :=
  quiet_storeBytes _ foreign

theorem quiet_loadWord (foreign : Foreign arg p) : Quiet arg (loadWord p) := by
  apply Quiet.bind (quiet_loadBytes 4 foreign)
  exact fun _ => quiet_pure _

theorem quiet_cString (turns : Nat) : ∀ {p : Pointer}, Foreign arg p → Quiet arg (cString p turns) := by
  induction turns with
  | zero => exact fun _ => quiet_stop
  | succ turns ih =>
    intro p foreign
    apply Quiet.bind (quiet_byteAt foreign 0)
    intro b
    apply Quiet.ite (quiet_pure _)
    exact (ih (foreign.plus 1)).bind (fun _ => quiet_pure _)

theorem quiet_memread (bytes : List UInt8) (offset len : Nat) (foreign : Foreign arg p) :
    Quiet arg (memread bytes offset p len) := by
  apply Quiet.ite (quiet_pure _)
  apply Quiet.ite (quiet_pure _)
  exact (quiet_storeBytes _ foreign).bind (fun _ => quiet_pure _)

/-! ### Paths -/

theorem quiet_vfsNextFilename (foreign : Foreign arg p) (room : Nat) :
    ∀ offset, Quiet arg (Handlers.vfsNextFilename p room offset) := by
  induction room with
  | zero => exact fun offset => (quiet_byteAt foreign offset).bind (fun _ => quiet_stop)
  | succ room ih =>
    intro offset
    apply Quiet.bind (quiet_byteAt foreign offset)
    intro c
    apply Quiet.ite (quiet_pure _)
    apply Quiet.ite (quiet_pure _)
    exact (ih (offset + 1)).bind (fun _ => quiet_pure _)

theorem quiet_resolveLoop (foreign : Foreign arg p) (turns : Nat) :
    ∀ current offset, Quiet arg (resolveLoop p turns current offset) := by
  induction turns with
  | zero => exact fun _ _ => quiet_stop
  | succ turns ih =>
    intro current offset
    apply Quiet.bind (quiet_vfsNextFilename foreign _ _)
    intro next
    apply Quiet.bind quiet_get
    intro m
    split
    · exact quiet_pure _
    · exact Quiet.ite (quiet_pure _) (ih _ _)

theorem quiet_nameIs (foreign : Foreign arg p) (bytes : List UInt8) : ∀ i, Quiet arg (nameIs p bytes i) := by
  induction bytes with
  | nil => exact fun i => (quiet_byteAt foreign i).bind (fun _ => quiet_pure _)
  | cons b rest ih =>
    intro i
    apply Quiet.bind (quiet_byteAt foreign i)
    exact fun _ => Quiet.ite (ih _) (quiet_pure _)

theorem quiet_vfsPathResolution (foreign : Foreign arg p) : Quiet arg (Handlers.vfsPathResolution p) := by
  apply Quiet.bind (quiet_byteAt foreign 0)
  intro first
  apply Quiet.ite
  · apply Quiet.bind quiet_get
    intro m
    apply Quiet.bind (quiet_nameIs foreign _ _)
    intro dot
    apply Quiet.ite (quiet_pure _)
    apply Quiet.bind (quiet_nameIs foreign _ _)
    intro dots
    exact Quiet.ite (quiet_pure _) (quiet_resolveLoop foreign _ _ _)
  · apply Quiet.bind (quiet_byteAt foreign 1)
    intro second
    exact Quiet.ite (quiet_pure _) (quiet_resolveLoop foreign _ _ _)

/-! ### Files -/

theorem quiet_readOp (op : ReadOp) (node : Node) (offset len : Nat) (foreign : Foreign arg p) :
    Quiet arg (readOp op node offset len p) := by
  apply Quiet.bind quiet_get
  intro m
  cases op with
  | answer => exact (quiet_storeBytes _ foreign).bind (fun _ => quiet_pure _)
  | zero => exact (quiet_storeBytes _ foreign).bind (fun _ => quiet_pure _)
  | blink =>
    apply Quiet.ite
    · exact (quiet_storeBytes _ foreign).bind (fun _ => quiet_pure _)
    · exact quiet_pure _
  | kikoo => exact quiet_memread _ _ _ foreign
  | fg => exact quiet_memread _ _ _ foreign
  | bg => exact quiet_memread _ _ _ foreign
  | state => exact quiet_memread _ _ _ foreign
  | parent => exact quiet_memread _ _ _ foreign
  | name => exact quiet_memread _ _ _ foreign

theorem quiet_exposed (foreign : Foreign arg p) : Quiet arg (expose [p] : Handler α) := by
  apply quiet_expose
  intro q member
  rw [List.mem_singleton.mp member]
  exact foreign

theorem quiet_writeFirst (len : Nat) (foreign : Foreign arg p) (f : UInt8 → Machine → Machine) :
    Quiet arg (writeFirst len p f) := by
  apply Quiet.ite
  · apply Quiet.bind (quiet_byteAt foreign 0)
    intro c
    exact (quiet_modify _).bind (fun _ => quiet_pure _)
  · exact quiet_pure _

theorem quiet_putBytes (console : Int) (foreign : Foreign arg p) (left : Nat) :
    ∀ i, Quiet arg (putBytes console p left i) := by
  induction left with
  | zero => exact fun _ => quiet_pure _
  | succ left ih =>
    intro i
    apply Quiet.bind (quiet_byteAt foreign i)
    intro c
    exact (quiet_modify _).bind (fun _ => ih _)

theorem quiet_writeOp (op : WriteOp) (node : Node) (len : Nat) (foreign : Foreign arg p) :
    Quiet arg (writeOp op node len p) := by
  cases op with
  | vc => exact (quiet_putBytes _ foreign _ _).bind (fun _ => quiet_pure _)
  | blink => exact quiet_writeFirst _ foreign _
  | fg => exact quiet_writeFirst _ foreign _
  | bg => exact quiet_writeFirst _ foreign _
  | echo => exact quiet_writeFirst _ foreign _

theorem quiet_write (fd : Int) (len : Nat) (foreign : Foreign arg p) : Quiet arg (write fd p len) := by
  apply Quiet.bind quiet_get
  intro m
  split
  · exact quiet_stop
  · exact quiet_exposed foreign
  · split
    · exact quiet_pure _
    · exact quiet_exposed foreign
    · exact quiet_writeOp _ _ _ foreign

/-! ### The end of `waitpid` and the console -/

theorem quiet_reap (child : Int) (foreign : Foreign arg p) : Quiet arg (reap child p) := by
  have after : Quiet arg (do
      modify (fun m : Machine =>
        let k := m.kernel.setProc child (fun c => { c with state := .dead })
        { m with kernel := k.setProc k.pidCour (fun c => { c with children := c.children.erase child }) })
      return child : Handler Int) := (quiet_modify _).bind (fun _ => quiet_pure _)
  apply Quiet.bind quiet_get
  intro m
  apply Quiet.ite
  · exact (quiet_storeWord foreign _).bind (fun _ => after)
  · exact after

theorem quiet_waitChild (pidWait : Int) : Quiet arg (waitChild others pidWait) :=
  (quiet_modify _).bind (fun _ => quiet_pause _)

theorem quiet_bufferPop (vc : Int) : Quiet arg (bufferPop others vc) := by
  have after : Quiet arg (do
      let m ← get
      modify (fun m : Machine =>
        { m with kernel := m.kernel.setConsole vc (fun c => { c with buf := (InputBuffer.pop c.buf).2 }) })
      return (InputBuffer.pop (m.kernel.virtualConsoles vc).buf).1 : Handler UInt8) :=
    quiet_get.bind (fun _ => (quiet_modify _).bind (fun _ => quiet_pure _))
  apply Quiet.bind quiet_get
  intro m
  apply Quiet.ite
  · exact (quiet_modify _).bind (fun _ => (quiet_pause _).bind (fun _ => after))
  · exact after

theorem quiet_consReadLoop (len : Nat) (foreign : Foreign arg p) (left : Nat) :
    Quiet arg (consReadLoop others p len left) := by
  induction left with
  | zero => exact quiet_pure _
  | succ left ih =>
    apply Quiet.bind quiet_get
    intro m
    split
    · apply Quiet.bind (quiet_bufferPop _)
      intro c
      apply Quiet.ite (quiet_pure _)
      exact (quiet_store (foreign.plus _) _).bind (fun _ => ih)
    · exact quiet_stop

/-! ### Handlers that check their pointer -/

section Checked
variable {s : World Machine} (low : p.address < USER_SPACE)
include low

theorem waitpid_checked (inside : s.state.inSyscall = SYSCALL_WAITPID) (pid : Int) :
    ¬ Touches arg (waitpid others pid p) s := by
  apply checked low inside
  intro q foreign
  apply Quiet.bind quiet_get
  intro m
  apply Quiet.ite (quiet_pure _)
  apply Quiet.ite
  · apply Quiet.ite (quiet_pure _)
    split
    · exact quiet_reap _ foreign
    · exact (quiet_waitChild _).bind (fun _ => quiet_get.bind (fun _ => quiet_reap _ foreign))
  · apply Quiet.ite (quiet_pure _)
    apply Quiet.ite (quiet_pure _)
    apply Quiet.ite
    · exact (quiet_waitChild _).bind (fun _ => quiet_reap _ foreign)
    · exact quiet_reap _ foreign

theorem read_checked (inside : s.state.inSyscall = SYSCALL_READ) (fd : Int) (len : Nat) :
    ¬ Touches arg (read fd p len) s := by
  apply checked low inside
  intro q foreign
  apply Quiet.bind quiet_get
  intro m
  split
  · exact quiet_stop
  · exact quiet_exposed foreign
  · split
    · exact quiet_pure _
    · exact quiet_exposed foreign
    · apply Quiet.bind (quiet_readOp _ _ _ _ foreign)
      exact fun _ => (quiet_modify _).bind (fun _ => quiet_pure _)

theorem readdir_checked (inside : s.state.inSyscall = SYSCALL_READDIR) (fd : Int) (n : Int) :
    ¬ Touches arg (Handlers.readdir fd p n) s := by
  apply checked low inside
  intro q foreign
  apply Quiet.bind quiet_get
  intro m
  split
  · exact quiet_stop
  · exact quiet_exposed foreign
  · apply Quiet.ite
    · split
      · exact quiet_exposed foreign
      · exact quiet_pure _
      · exact quiet_pure _
      · apply Quiet.bind (quiet_storeBytes _ foreign)
        exact fun _ => (quiet_storeWord (foreign.plus _) _).bind (fun _ => quiet_pure _)
    · exact quiet_pure _

theorem getcwd_checked (inside : s.state.inSyscall = SYSCALL_GETCWD) (len : Nat) : ¬ Touches arg (getcwd p len) s := by
  apply checked low inside
  intro q foreign
  apply Quiet.ite (quiet_pure _)
  apply Quiet.bind quiet_get
  exact fun m => (quiet_storeBytes _ foreign).bind (fun _ => quiet_pure _)

theorem chdir_checked (inside : s.state.inSyscall = SYSCALL_CHDIR) : ¬ Touches arg (Handlers.chdir p) s := by
  apply checked low inside
  intro q foreign
  apply Quiet.bind (quiet_vfsPathResolution foreign)
  intro node
  split
  · exact quiet_pure _
  · exact quiet_stop
  · apply Quiet.ite (quiet_pure _)
    exact (quiet_modify _).bind (fun _ => quiet_pure _)

theorem consRead_checked (inside : s.state.inSyscall = SYSCALL_CONS_READ) (len : Nat) :
    ¬ Touches arg (consRead others p len) s := by
  apply checked low inside
  exact fun q foreign => quiet_consReadLoop _ foreign _

/-- The pointer that `cons_write` hands on to `write` is checked. -/
theorem consWrite_checked (inside : s.state.inSyscall = SYSCALL_CONS_WRITE) (len : Int) :
    ¬ Touches arg (consWrite p len) s := by
  apply checked low inside
  intro q foreign
  apply Quiet.bind quiet_get
  intro m
  apply Quiet.ite
  · exact (quiet_write _ _ foreign).bind (fun _ => quiet_pure _)
  · exact quiet_putBytes _ foreign _ _

theorem consIoctl_checked (inside : s.state.inSyscall = SYSCALL_CONS_IOCTL) (req : Option ConsIoctlReq) :
    ¬ Touches arg (consIoctl req p) s := by
  apply checked low inside
  intro q foreign
  apply Quiet.bind quiet_get
  intro m
  rcases req with _ | req
  · exact quiet_pure _
  · cases req with
    | setPal =>
      apply Quiet.bind (quiet_loadWord foreign)
      intro _
      apply Quiet.bind (quiet_loadWord (foreign.plus 4))
      intro _
      apply Quiet.bind (quiet_loadWord (foreign.plus 8))
      exact fun _ => (quiet_loadWord (foreign.plus 12)).bind (fun _ => quiet_pure _)
    | getPal =>
      apply Quiet.bind (quiet_loadWord foreign)
      intro _
      apply Quiet.bind (quiet_storeWord (foreign.plus 4) _)
      exact fun _ => (quiet_storeWord (foreign.plus 8) _).bind (fun _ => quiet_storeWord (foreign.plus 12) _)
    | setAttr => exact (quiet_loadWord foreign).bind (fun _ => quiet_modify _)
    | getAttr => exact quiet_storeWord foreign _
    | setBuf => exact (quiet_loadWord foreign).bind (fun _ => quiet_modify _)
    | getBuf => exact quiet_storeWord foreign _

end Checked

/-- The body of `clock_settings`. -/
theorem quiet_settings {quartz ticks : Pointer} (first : Foreign arg quartz) (second : Foreign arg ticks) :
    Quiet arg (do
      let m ← get
      if quartz.address ≠ 0 then storeWord quartz TIMER_INPUT_FREQ
      if ticks.address ≠ 0 then storeWord ticks m.rate : Handler Unit) := by
  have last : ∀ m : Machine, Quiet arg (do if ticks.address ≠ 0 then storeWord ticks m.rate : Handler Unit) :=
    fun _ => Quiet.ite (quiet_storeWord second _) (quiet_pure _)
  apply Quiet.bind quiet_get
  intro m
  apply Quiet.ite
  · exact (quiet_storeWord first _).bind (fun _ => last m)
  · exact last m

/-- `clock_settings` checks both of its pointers. -/
theorem clockSettings_checked {s : World Machine} (quartz ticks : Nat)
    (inside : s.state.inSyscall = SYSCALL_CLOCK_SETTINGS) :
    (quartz < USER_SPACE → ¬ Touches 0 (clockSettings ⟨quartz,some 0⟩ ⟨ticks,some 1⟩) s) ∧
    (ticks < USER_SPACE → ¬ Touches 1 (clockSettings ⟨quartz,some 0⟩ ⟨ticks,some 1⟩) s) := by
  constructor
  · intro low
    apply checked low inside
    intro q foreign
    apply quiet_check (by simp [Foreign])
    exact fun r other => quiet_settings foreign other
  · intro low touches
    have next := (touches_check SYSCALL_CLOCK_SETTINGS _ s).mp touches
    refine checked (p := ⟨ticks,some 1⟩) low inside ?_ next
    intro r foreign
    apply quiet_settings _ foreign
    split
    · exact foreign_null
    · simp [Foreign]

/-! ### The calls -/

/-- The system calls that take pointers, with the values of their arguments. -/
inductive PointerCall where
  | start (ptfunc ssize : Nat) (prio : Int) (name arg : Nat) (memory : Memory)
  | waitpid (pid : Int) (retvalp : Nat)
  | read (fd : Int) (buf len : Nat)
  | write (fd : Int) (buf len : Nat)
  | readdir (fd : Int) (dirp : Nat) (n : Int)
  | openFile (name : Nat)
  | fstat (fd : Int) (s : Nat)
  | chdir (path : Nat)
  | getcwd (buf len : Nat)
  | setStdout (name : Nat)
  | consRead (buf len : Nat)
  | consWrite (buf : Nat) (len : Int)
  | consIoctl (req : Option ConsIoctlReq) (p : Nat)
  | clockSettings (quartz ticks : Nat)

/-- The function that is called. -/
def PointerCall.routine : PointerCall → Dispatch.Routine
  | .start .. => .start
  | .waitpid .. => .waitpid
  | .read .. => .read
  | .write .. => .write
  | .readdir .. => .readdir
  | .openFile _ => .open
  | .fstat .. => .fstat
  | .chdir _ => .chdir
  | .getcwd .. => .getcwd
  | .setStdout _ => .setStdout
  | .consRead .. => .consRead
  | .consWrite .. => .consWrite
  | .consIoctl .. => .consIoctl
  | .clockSettings .. => .clockSettings

/-- The number of the call. -/
def PointerCall.number : PointerCall → UInt32
  | .start .. => SYSCALL_START
  | .waitpid .. => SYSCALL_WAITPID
  | .read .. => SYSCALL_READ
  | .write .. => SYSCALL_WRITE
  | .readdir .. => SYSCALL_READDIR
  | .openFile _ => SYSCALL_OPEN
  | .fstat .. => SYSCALL_FSTAT
  | .chdir _ => SYSCALL_CHDIR
  | .getcwd .. => SYSCALL_GETCWD
  | .setStdout _ => SYSCALL_SET_STDOUT
  | .consRead .. => SYSCALL_CONS_READ
  | .consWrite .. => SYSCALL_CONS_WRITE
  | .consIoctl .. => SYSCALL_CONS_IOCTL
  | .clockSettings .. => SYSCALL_CLOCK_SETTINGS

/-- The numbers are those of the tables. -/
theorem number_registered (c : PointerCall) : (c.number.toNat,c.routine) ∈ Dispatch.registered := by
  cases c <;> (simp only [PointerCall.number,PointerCall.routine]; decide)

/-- The pointers among the arguments, in order. -/
def PointerCall.pointers : PointerCall → List Nat
  | .start ptfunc _ _ name arg _ => [ptfunc,name,arg]
  | .waitpid _ retvalp => [retvalp]
  | .read _ buf _ => [buf]
  | .write _ buf _ => [buf]
  | .readdir _ dirp _ => [dirp]
  | .openFile name => [name]
  | .fstat _ s => [s]
  | .chdir path => [path]
  | .getcwd buf _ => [buf]
  | .setStdout name => [name]
  | .consRead buf _ => [buf]
  | .consWrite buf _ => [buf]
  | .consIoctl _ p => [p]
  | .clockSettings quartz ticks => [quartz,ticks]

/-- The call of the function, with each pointer marked with its place. -/
def serve (others : World Machine → World Machine) : PointerCall → Handler Unit
  | .start ptfunc ssize prio name arg memory => do
    let _ ← start others ⟨ptfunc,some 0⟩ ssize prio ⟨name,some 1⟩ ⟨arg,some 2⟩ memory
  | .waitpid pid retvalp => do let _ ← waitpid others pid ⟨retvalp,some 0⟩
  | .read fd buf len => do let _ ← read fd ⟨buf,some 0⟩ len
  | .write fd buf len => do let _ ← write fd ⟨buf,some 0⟩ len
  | .readdir fd dirp n => do let _ ← Handlers.readdir fd ⟨dirp,some 0⟩ n
  | .openFile name => do let _ ← openFile ⟨name,some 0⟩
  | .fstat fd s => do let _ ← fstat fd ⟨s,some 0⟩
  | .chdir path => do let _ ← Handlers.chdir ⟨path,some 0⟩
  | .getcwd buf len => do let _ ← getcwd ⟨buf,some 0⟩ len
  | .setStdout name => do let _ ← setStdout ⟨name,some 0⟩
  | .consRead buf len => do let _ ← consRead others ⟨buf,some 0⟩ len
  | .consWrite buf len => consWrite ⟨buf,some 0⟩ len
  | .consIoctl req p => consIoctl req ⟨p,some 0⟩
  | .clockSettings quartz ticks => clockSettings ⟨quartz,some 0⟩ ⟨ticks,some 1⟩

/-- `syscall_handler1` to `syscall_handler5` -/
def syscallHandler (others : World Machine → World Machine) (c : PointerCall) : Handler Unit := do
  modify (fun m => { m with inSyscall := c.number })
  serve others c
  modify (fun m => { m with inSyscall := 0xff })

/-- The kernel, entered in that state, makes no access at an address that comes
    from a pointer of the call below user space, whatever memory holds and
    other processes do while the call sleeps. -/
def Untouched (m : Machine) (c : PointerCall) : Prop :=
  ∀ others mem i p, c.pointers[i]? = some p → p < USER_SPACE → ¬ Touches i (syscallHandler others c) ⟨m,mem⟩

/-- `start` returns before it looks at the name. -/
def StartRefused (ssize : Nat) (memory : Memory) (m : Machine) : Prop :=
  ssize > 0xffffffe7 ∨ (freePid m.kernel.tabProc).isNone ∨ memory.stack = false ∨ memory.children = false

/-- A write to the file reads nothing from the buffer. -/
def Unread (node : Ptr Node) (len : Nat) : Prop :=
  match node with
  | .null => True
  | .stray => False
  | .to n =>
    match (fsNode n).write with
    | .null => True
    | .stray => False
    | .to _ => len = 0

/-- `fstat` does not get to its pointer. -/
def Unopened (f : FileDescriptor) : Prop := f.present = false ∨ f.node = .null

/-- The pointers that a handler uses without a check lie in user space, or the
    handler returns before it uses them. -/
def Shielded (m : Machine) : PointerCall → Prop
  | .start _ ssize _ name _ memory => USER_SPACE ≤ name ∨ StartRefused ssize memory m
  | .write fd buf len => USER_SPACE ≤ buf ∨ Unread (m.fileDesc fd).node len
  | .openFile name => USER_SPACE ≤ name
  | .setStdout name => USER_SPACE ≤ name
  | .fstat fd s => USER_SPACE ≤ s ∨ Unopened (m.fileDesc fd)
  | _ => True

/-! ### Handlers without a check -/

theorem touches_byteAt (comes : p.origin = some arg) (i : Nat) (s : World Machine) : Touches arg (byteAt p i) s :=
  touches_load (p := p.plus i) comes s

theorem touches_storeWord (comes : p.origin = some arg) (w : UInt32) (s : World Machine) :
    Touches arg (storeWord p w) s := by
  unfold storeWord wordBytes storeBytes
  exact (touches_store comes _ s).bind _

/-- The first byte of a path is read. -/
theorem touches_vfsPathResolution (comes : p.origin = some arg) (s : World Machine) :
    Touches arg (Handlers.vfsPathResolution p) s := (touches_byteAt comes 0 s).bind _

section Start
variable {ptfunc name argument : Pointer} {ssize : Nat} {prio : Int} {memory : Memory}

/-- `start` uses no pointer but the name. -/
theorem quiet_start (foreign : Foreign arg name) : Quiet arg (start others ptfunc ssize prio name argument memory) := by
  apply Quiet.bind (quiet_of_silent (fun _ => rfl))
  intro _
  apply Quiet.ite (quiet_pure _)
  apply Quiet.bind quiet_get
  intro m
  apply Quiet.ite
  · exact (quiet_modify _).bind (fun _ => quiet_pure _)
  · apply Quiet.bind (quiet_cString _ foreign)
    intro text
    apply Quiet.bind (quiet_modify _)
    intro _
    apply Quiet.ite
    · exact (quiet_byteAt foreign 0).bind (fun _ => quiet_stop)
    · apply Quiet.bind (quiet_cString _ foreign)
      intro _
      split
      · exact quiet_stop
      · exact (quiet_modify _).bind (fun _ => (quiet_pause _).bind (fun _ => quiet_pure _))

theorem start_refused {s : World Machine} (refused : StartRefused ssize memory s.state) :
    ¬ Touches arg (start others ptfunc ssize prio name argument memory) s := by
  intro touches
  have next := (touches_check SYSCALL_START _ s).mp touches
  by_cases big : ssize > 0xffffffe7
  · rw [if_pos big] at next
    exact not_touches (quiet_pure _) s next
  · rw [if_neg big,touches_get_bind] at next
    simp only [if_pos (refused.resolve_left big)] at next
    exact not_touches ((quiet_modify _).bind (fun _ => quiet_pure _)) s next

theorem start_reads {s : World Machine} (comes : name.origin = some arg)
    (accepted : ¬ StartRefused ssize memory s.state) :
    Touches arg (start others ptfunc ssize prio name argument memory) s := by
  obtain ⟨small,created⟩ := not_or.mp accepted
  refine (touches_check SYSCALL_START _ s).mpr ?_
  rw [if_neg small,touches_get_bind]
  simp only [if_neg created]
  have first : Touches arg (cString name limit) s := (touches_byteAt comes 0 s).bind _
  exact first.bind _

end Start

theorem writeFirst_touches_iff (comes : p.origin = some arg) (len : Nat) (f : UInt8 → Machine → Machine)
    (s : World Machine) : Touches arg (writeFirst len p f) s ↔ len ≠ 0 := by
  unfold writeFirst
  by_cases some : len > 0
  · rw [if_pos some]
    exact ⟨fun _ => by omega,fun _ => (touches_byteAt comes 0 s).bind _⟩
  · rw [if_neg some]
    exact ⟨fun touches => absurd touches (not_touches (quiet_pure _) s),fun more => absurd more (by omega)⟩

/-- A `write` callback reads the buffer when there is something to read. -/
theorem writeOp_touches_iff (comes : p.origin = some arg) (op : WriteOp) (node : Node) (len : Nat) (s : World Machine) :
    Touches arg (writeOp op node len p) s ↔ len ≠ 0 := by
  cases op with
  | vc =>
    unfold writeOp
    rw [touches_bind_iff (fun _ => quiet_pure _)]
    cases len with
    | zero => exact ⟨fun touches => absurd touches (not_touches (quiet_pure _) s),fun more => absurd rfl more⟩
    | succ left => exact ⟨fun _ => by omega,fun _ => (touches_byteAt comes 0 s).bind _⟩
  | blink => exact writeFirst_touches_iff comes len _ s
  | fg => exact writeFirst_touches_iff comes len _ s
  | bg => exact writeFirst_touches_iff comes len _ s
  | echo => exact writeFirst_touches_iff comes len _ s

/-- A write reads the buffer, if it comes to that. -/
theorem write_touches_iff (comes : p.origin = some arg) (fd : Int) (len : Nat) (s : World Machine) :
    Touches arg (write fd p len) s ↔ ¬ Unread (s.state.fileDesc fd).node len := by
  have given : Touches arg (expose [p] : Handler Int) s := touches_expose (List.mem_singleton.mpr rfl) comes s
  unfold write Unread
  rw [touches_get_bind]
  generalize (s.state.fileDesc fd).node = node
  rcases node with _ | n | _
  · simp [not_touches quiet_stop]
  · dsimp only
    generalize (fsNode n).write = callback
    rcases callback with _ | op | _
    · simp [not_touches (quiet_pure _)]
    · exact writeOp_touches_iff comes op n len s
    · simp [given]
  · simp [given]

/-- `fstat` writes to any pointer for a file that is there. -/
theorem fstat_touches_iff (comes : p.origin = some arg) (fd : Int) (s : World Machine) :
    Touches arg (fstat fd p) s ↔ ¬ Unopened (s.state.fileDesc fd) := by
  unfold fstat Unopened
  rw [touches_get_bind]
  by_cases absent : (s.state.fileDesc fd).present = false
  · simp [absent,not_touches (quiet_pure _)]
  · rw [if_neg absent]
    generalize (s.state.fileDesc fd).node = node
    rcases node with _ | n | _
    · simp [not_touches quiet_stop]
    · have first := touches_storeWord (p := p.plus 128) comes (if (fsNode n).type = .dir then 1 else 0) s
      exact ⟨fun _ => by simp [absent],fun _ => first.bind _⟩
    · simp [absent,touches_expose (List.mem_singleton.mpr rfl) comes]

/-! ### All calls -/

/-- A call touches an argument in its handler if at all. -/
theorem touches_handler (c : PointerCall) (m : Machine) (mem : Nat → UInt8) :
    Touches arg (syscallHandler others c) ⟨m,mem⟩ ↔
      Touches arg (serve others c) ⟨{ m with inSyscall := c.number },mem⟩ := by
  unfold syscallHandler
  rw [touches_modify_bind]
  exact touches_bind_iff (fun _ => quiet_modify _) _

/-- The value of a call is thrown away. -/
theorem touches_discarded (m : Handler α) (s : World Machine) : Touches arg (do let _ ← m) s ↔ Touches arg m s :=
  touches_bind_iff (fun _ => quiet_pure _) s

/-- The only pointer of a call. -/
theorem only_pointer {x p i : Nat} (given : [x][i]? = some p) : i = 0 ∧ p = x := by
  rw [List.getElem?_singleton] at given
  split at given
  · next first => exact ⟨first,(Option.some.inj given).symm⟩
  · cases given

/-- The calls whose condition holds touch no kernel memory through a pointer. -/
theorem untouched_of_shielded {m : Machine} {c : PointerCall} (shielded : Shielded m c) : Untouched m c := by
  intro others mem i p given low
  rw [touches_handler]
  cases c with
  | start ptfunc ssize prio name argument memory =>
    rw [serve,touches_discarded]
    rcases shielded with high | refused
    · have elsewhere : i ≠ 1 := by
        intro second
        subst second
        cases given
        exact absurd low (not_lt.mpr high)
      exact not_touches (quiet_start (by simpa [Foreign] using elsewhere.symm)) _
    · exact start_refused refused
  | write fd buf len =>
    obtain ⟨rfl,rfl⟩ := only_pointer given
    rw [serve,touches_discarded,write_touches_iff rfl,not_not]
    exact shielded.resolve_left (not_le.mpr low)
  | fstat fd buf =>
    obtain ⟨rfl,rfl⟩ := only_pointer given
    rw [serve,touches_discarded,fstat_touches_iff rfl,not_not]
    exact shielded.resolve_left (not_le.mpr low)
  | openFile name =>
    obtain ⟨rfl,rfl⟩ := only_pointer given
    exact absurd low (not_lt.mpr shielded)
  | setStdout name =>
    obtain ⟨rfl,rfl⟩ := only_pointer given
    exact absurd low (not_lt.mpr shielded)
  | clockSettings quartz ticks =>
    have both := clockSettings_checked (s := ⟨{ m with inSyscall := SYSCALL_CLOCK_SETTINGS },mem⟩)
      quartz ticks rfl
    rcases i with _ | _ | i
    · cases given
      exact both.1 low
    · cases given
      exact both.2 low
    · cases given
  | waitpid pid retvalp =>
    obtain ⟨rfl,rfl⟩ := only_pointer given
    rw [serve,touches_discarded]
    exact waitpid_checked low rfl pid
  | read fd buf len =>
    obtain ⟨rfl,rfl⟩ := only_pointer given
    rw [serve,touches_discarded]
    exact read_checked low rfl fd len
  | readdir fd dirp n =>
    obtain ⟨rfl,rfl⟩ := only_pointer given
    rw [serve,touches_discarded]
    exact readdir_checked low rfl fd n
  | chdir path =>
    obtain ⟨rfl,rfl⟩ := only_pointer given
    rw [serve,touches_discarded]
    exact chdir_checked low rfl
  | getcwd buf len =>
    obtain ⟨rfl,rfl⟩ := only_pointer given
    rw [serve,touches_discarded]
    exact getcwd_checked low rfl len
  | consRead buf len =>
    obtain ⟨rfl,rfl⟩ := only_pointer given
    rw [serve,touches_discarded]
    exact consRead_checked low rfl len
  | consWrite buf len =>
    obtain ⟨rfl,rfl⟩ := only_pointer given
    exact consWrite_checked low rfl len
  | consIoctl req buf =>
    obtain ⟨rfl,rfl⟩ := only_pointer given
    exact consIoctl_checked low rfl req

/-- An unchecked pointer below user space is used. -/
theorem shielded_of_untouched {m : Machine} {c : PointerCall} (untouched : Untouched m c) : Shielded m c := by
  have safe := fun i p given low => untouched id (fun _ => 0) i p given low
  simp only [touches_handler] at safe
  cases c with
  | start ptfunc ssize prio name argument memory =>
    by_contra exposed
    obtain ⟨low,accepted⟩ := not_or.mp exposed
    refine safe 1 name rfl (not_le.mp low) (Touches.bind ?_ _)
    exact start_reads rfl accepted
  | write fd buf len =>
    by_contra exposed
    obtain ⟨low,reads⟩ := not_or.mp exposed
    refine safe 0 buf rfl (not_le.mp low) (Touches.bind ?_ _)
    exact (write_touches_iff rfl fd len _).mpr reads
  | fstat fd buf =>
    by_contra exposed
    obtain ⟨low,opened⟩ := not_or.mp exposed
    refine safe 0 buf rfl (not_le.mp low) (Touches.bind ?_ _)
    exact (fstat_touches_iff rfl fd _).mpr opened
  | openFile name =>
    by_contra low
    refine safe 0 name rfl (not_le.mp low) (Touches.bind ?_ _)
    exact (touches_vfsPathResolution rfl _).bind _
  | setStdout name =>
    by_contra low
    refine safe 0 name rfl (not_le.mp low) (Touches.bind ?_ _)
    exact (touches_vfsPathResolution rfl _).bind _
  | _ => trivial

/-- Init before its first system call, with the descriptors that
    `context_create_user` sets up. -/
def initMachine (k : Kernel) : Machine where
  kernel := k
  inSyscall := 0
  fileDesc := fun fd =>
    if fd = 0 then ⟨true,.null,0⟩
    else if fd = 1 then ⟨true,.to (.console 0),0⟩
    else if 1 < fd ∧ fd < DTABLESIZE then ⟨false,.null,0⟩
    else ⟨false,.stray,0⟩
  workingDir := fsRoot
  size := fun _ => 0
  kikoobuf := []
  currentAttr := 0x07
  echo := 1
  rate := TIMER_INPUT_FREQ
  port := 0
  names := fun _ => [73,110,105,116]
  output := []

end Psys.UserPointers
