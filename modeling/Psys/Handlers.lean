import Psys.Devices
import Psys.Dispatch
import Psys.Provenance
import Psys.Vfs

/-!
The system calls that take pointers or descriptors, with every access that they
make through pointers. Kernel data is state; memory is what the pointers of a
call lead to, user memory or not.
-/
namespace Psys.Handlers
open Psys.State Psys.Context Psys.Vfs Psys.Provenance
open Psys.Dispatch (isInSyscall)

def DTABLESIZE : Int := 20
def TIMER_INPUT_FREQ : UInt32 := 0x1234DD

/-- `struct file_descriptor` -/
structure FileDescriptor where
  present : Bool
  node : Ptr Node
  offset : Nat

/-- The kernel with what these calls use of it besides processes. -/
structure Machine where
  kernel : Kernel
  inSyscall : UInt32
  /-- The descriptors of the current process. Indices outside of 0..19 are the
      memory around the table. -/
  fileDesc : Int → FileDescriptor
  workingDir : Node
  /-- The fields `size` of the nodes, which no code sets. -/
  size : Node → UInt32
  /-- What `kikoobuf` points to. -/
  kikoobuf : List UInt8
  /-- `current_attr` and `echo` of the visible console. -/
  currentAttr : UInt32
  echo : Int
  rate : UInt32
  /-- What the ports of the palette answer. -/
  port : UInt32
  /-- The names of processes. -/
  names : Int → List UInt8
  /-- Output: what was given to `console_putbyte`, newest first. -/
  output : List (Int × UInt8)

abbrev Handler (α : Type) := Prog Machine α

/-! ### Memory -/

/-- A byte at an offset from a pointer. -/
def byteAt (p : Pointer) (i : Nat) : Handler UInt8 := load Mapped (p.plus i)

/-- The bytes of a word, lowest first. -/
def wordBytes (w : UInt32) : List UInt8 := [w.toUInt8,(w >>> 8).toUInt8,(w >>> 16).toUInt8,(w >>> 24).toUInt8]

/-- `*(int *) p = w` -/
def storeWord (p : Pointer) (w : UInt32) : Handler Unit := storeBytes Mapped p (wordBytes w)

/-- `*(int *) p` -/
def loadWord (p : Pointer) : Handler UInt32 := do
  let bytes ← loadBytes Mapped p 4
  return bytes.foldr (fun b w => w * 256 + b.toUInt32) 0

/-- The low 32 bits of a number. -/
def word (x : Int) : UInt32 := UInt32.ofNat (x % 4294967296).toNat

/-- What `strncpy` stores for a text. -/
def padded (name : Text) (n : Nat) : List UInt8 := (textBytes name ++ List.replicate n 0).take n

/-- The bytes up to the terminator, as `strlen` and `strcpy` read them. -/
def cString (p : Pointer) : Nat → Handler (List UInt8)
  | 0 => stop
  | turns + 1 => do
    let b ← byteAt p 0
    if b = 0 then return []
    else
      let rest ← cString (p.plus 1) turns
      return b :: rest

/-- More turns than there are mapped bytes. -/
def limit : Nat := 0x3000000

/-- `memread` -/
def memread (bytes : List UInt8) (offset : Nat) (bufout : Pointer) (len : Nat) : Handler Int :=
  if len = 0 then return 0
  else if offset ≥ bytes.length then return 0
  else do
    let bytes := (bytes.drop offset).take len
    storeBytes Mapped bufout bytes
    return bytes.length

/-! ### `check_pointer` -/

def SYSCALL_OPEN : UInt32 := 0x2b
def SYSCALL_CLOSE : UInt32 := 0x2c
def SYSCALL_CHDIR : UInt32 := 0x2e
def SYSCALL_SET_STDOUT : UInt32 := 0x2f
def SYSCALL_CLOCK_SETTINGS : UInt32 := 0x41
def SYSCALL_CONS_READ : UInt32 := 0x42
def SYSCALL_CONS_WRITE : UInt32 := 0x43
def SYSCALL_WAITPID : UInt32 := 0x46
def SYSCALL_CONS_IOCTL : UInt32 := 0x47
def SYSCALL_FSTAT : UInt32 := 0x49
def SYSCALL_GETCWD : UInt32 := 0x4a
def SYSCALL_READ : UInt32 := 0x60
def SYSCALL_WRITE : UInt32 := 0x61
def SYSCALL_READDIR : UInt32 := 0x62
def SYSCALL_START : UInt32 := 0xa0

/-- `is_pointer_userspace` -/
def isPointerUserspace (p : Pointer) : Bool := p.address ≥ USER_SPACE

/-- `check_pointer` -/
def checkPointer (p : Pointer) (code : UInt32) : Handler Pointer := do
  let m ← get
  return if isInSyscall m.inSyscall code && !isPointerUserspace p then null else p

/-! ### Paths -/

/-- `vfs_next_filename`, with the room left in the buffer: the name, the offset
    of what ended it and whether that was the end. What does not fit overwrites
    the stack. -/
def vfsNextFilename (name : Pointer) : Nat → Nat → Handler (Text × Nat × Bool)
  | 0, offset => do
    let _ ← byteAt name offset
    stop
  | room + 1, offset => do
    let c ← byteAt name offset
    if c = 0 then return ([],offset,true)
    else if c = 47 then return ([],offset,false)
    else
      let next ← vfsNextFilename name room (offset + 1)
      return (Char.ofNat c.toNat :: next.1,next.2)

/-- The loop of `vfs_path_resolution`, from an offset. -/
def resolveLoop (name : Pointer) : Nat → Ptr Node → Nat → Handler (Ptr Node)
  | 0, _, _ => stop
  | turns + 1, current, offset => do
    let next ← vfsNextFilename name FS_NAME_MAX offset
    let m ← get
    match finddirFs m.kernel.tabProc current next.1 with
    | .null => return .null
    | found => if next.2.2 then return found else resolveLoop name turns found (next.2.1 + 1)

/-- `strncmp(name, word, FS_NAME_MAX) == 0`, for a short word, from an offset. -/
def nameIs (name : Pointer) : List UInt8 → Nat → Handler Bool
  | [], i => do
    let c ← byteAt name i
    return c = 0
  | b :: rest, i => do
    let c ← byteAt name i
    if c = b then nameIs name rest (i + 1) else return false

/-- `vfs_path_resolution` -/
def vfsPathResolution (name : Pointer) : Handler (Ptr Node) := do
  let first ← byteAt name 0
  if first ≠ 47 then
    let m ← get
    let dot ← nameIs name [46] 0
    if dot then return .to m.workingDir
    else
      let dots ← nameIs name [46,46] 0
      if dots then return (fsNode m.workingDir).parent
      else resolveLoop name limit (.to m.workingDir) 0
  else
    let second ← byteAt name 1
    if second = 0 then return .to fsRoot
    else resolveLoop name limit (.to fsRoot) 1

/-! ### `vfs.c` -/

/-- A write to a descriptor of the current process. -/
def Machine.setFile (m : Machine) (fd : Int) (f : FileDescriptor → FileDescriptor) : Machine :=
  { m with fileDesc := Function.update m.fileDesc fd (f (m.fileDesc fd)) }

/-- What `context_print_state` and `procfs_state_read` call a state. -/
def stateName : ProcState → String
  | .active => "STATE_ACTIVE"
  | .activable => "STATE_ACTIVABLE"
  | .waitSem => "STATE_WAIT_SEM"
  | .waitIo => "STATE_WAIT_IO"
  | .waitChild => "STATE_WAIT_CHILD"
  | .asleep => "STATE_ASLEEP"
  | .zombie => "STATE_ZOMBIE"
  | .dead => "STATE_DEAD"

/-- The `read` callbacks. -/
def readOp (op : ReadOp) (node : Node) (offset len : Nat) (buf : Pointer) : Handler Int := do
  let m ← get
  match op with
  | .answer => do
    storeBytes Mapped buf (List.replicate len 42)
    return len
  | .zero => do
    storeBytes Mapped buf (List.replicate len 0)
    return len
  | .kikoo => memread m.kikoobuf offset buf len
  | .blink =>
    if offset = 0 then do
      -- `snprintf` terminates after the one character.
      storeBytes Mapped buf [if (m.currentAttr &&& 0x80) ≠ 0 then 49 else 48,0]
      return 1
    else return 0
  | .fg => memread (textBytes (decimal (m.currentAttr &&& 0x0f).toNat)) offset buf len
  | .bg => memread (textBytes (decimal ((m.currentAttr &&& 0x70) >>> 4).toNat)) offset buf len
  | .state =>
    let state := (m.kernel.tabProc ((fsNode node).inode - 1200)).state
    memread (textBytes (stateName state).toList) offset buf len
  | .parent => memread (textBytes (decimal (m.kernel.tabProc ((fsNode node).inode - 2200)).pidParent)) offset buf len
  | .name => memread (m.names ((fsNode node).inode - 3200)) offset buf len

/-- `read` -/
def read (fd : Int) (buf : Pointer) (len : Nat) : Handler Int := do
  let buf ← checkPointer buf SYSCALL_READ
  let m ← get
  match (m.fileDesc fd).node with
  | .null => stop
  | .stray => expose [buf]
  | .to node =>
    match (fsNode node).read with
    | .null => return 0
    | .stray => expose [buf]
    | .to op => do
      let bytesRead ← readOp op node (m.fileDesc fd).offset len buf
      modify (fun m => m.setFile fd (fun f => { f with offset := (f.offset + bytesRead.toNat) % 4294967296 }))
      return bytesRead

/-- A write callback of `/sys/console`, with what it does with the first byte. -/
def writeFirst (len : Nat) (buf : Pointer) (f : UInt8 → Machine → Machine) : Handler Int :=
  if len > 0 then do
    let c ← byteAt buf 0
    modify (f c)
    return 1
  else return -1

/-- The loop of `console_vc_write`. -/
def putBytes (console : Int) (s : Pointer) : Nat → Nat → Handler Unit
  | 0, _ => return ()
  | left + 1, i => do
    let c ← byteAt s i
    modify (fun m => { m with output := (console,c) :: m.output })
    putBytes console s left (i + 1)

/-- The `write` callbacks. -/
def writeOp (op : WriteOp) (node : Node) (len : Nat) (buf : Pointer) : Handler Int :=
  match op with
  | .blink => writeFirst len buf (fun c m =>
      { m with currentAttr := if c = 48 then m.currentAttr &&& 0xffffff7f else m.currentAttr ||| 0x80 })
  | .fg => writeFirst len buf (fun c m =>
      { m with currentAttr := (m.currentAttr &&& 0xfffffff0) ||| ((c.toUInt32 - 48) &&& 0x0f) })
  | .bg => writeFirst len buf (fun c m =>
      { m with currentAttr := (m.currentAttr &&& 0xffffff8f) ||| (((c.toUInt32 - 48) <<< (4 : UInt32)) &&& 0x70) })
  | .echo => writeFirst len buf (fun c m => { m with echo := (c.toNat : Int) - 48 })
  | .vc => do
    putBytes ((fsNode node).inode - 100) buf len 0
    return len

/-- `write`. The check of the pointer is commented out. -/
def write (fd : Int) (buf : Pointer) (len : Nat) : Handler Int := do
  let m ← get
  match (m.fileDesc fd).node with
  | .null => stop
  | .stray => expose [buf]
  | .to node =>
    match (fsNode node).write with
    | .null => return 0
    | .stray => expose [buf]
    | .to op => writeOp op node len buf

/-- What a `readdir` callback stores of a name: with `strncpy` or `snprintf`. -/
def direntName (op : Ptr DirOp) (name : Text) : List UInt8 :=
  if op = .to .rootfs ∨ op = .to .procfsSub then padded name FS_NAME_MAX else textBytes name ++ [0]

/-- `readdir` -/
def readdir (fd : Int) (dirp : Pointer) (n : Int) : Handler Int := do
  let dirp ← checkPointer dirp SYSCALL_READDIR
  let m ← get
  match (m.fileDesc fd).node with
  | .null => stop
  | .stray => expose [dirp]
  | .to node =>
    if (fsNode node).readdir ≠ .null ∧ (fsNode node).type = .dir then
      match Vfs.readdir m.kernel.tabProc node n with
      | none => expose [dirp]
      | some .error => return -1
      | some .done => return 0
      | some (.entry d) => do
        storeBytes Mapped dirp (direntName (fsNode node).readdir d.name)
        storeWord (dirp.plus FS_NAME_MAX) (word d.inode)
        return 1
    else return -1

/-- `kikoomsg`, with its terminator. -/
def kikoomsg : List UInt8 :=
  [75,105,107,111,111,111,111,111,111,111,32,33,10,76,111,111,108,32,33,32,112,116,100,114,10,0]

/-- `fd_alloc` -/
def fdAlloc (node : Ptr Node) : Handler Int := do
  let m ← get
  match (List.range DTABLESIZE.toNat).find? (fun i => !(m.fileDesc i).present) with
  | some i => do
    modify (fun m => m.setFile i (fun f => { f with present := true, node := node }))
    return i
  | none => return -1

/-- `open` -/
def openFile (name : Pointer) : Handler Int := do
  let node ← vfsPathResolution name
  match node with
  | .null => return -1
  | .stray => stop
  | .to n => do
    -- `/kikoo` is the only node with an `open` callback.
    if n = .rootfs 12 then modify (fun m => { m with kikoobuf := kikoomsg })
    let fd ← fdAlloc node
    modify (fun m => m.setFile fd (fun f => { f with offset := 0 }))
    return fd

/-- The field `close` of a node. Memory from `mem_alloc` has none set. -/
def closeCallback : Node → Ptr Unit
  | .rootfs i => if i = 12 then .to () else .null
  | .console _ => .null
  | .process _ | .state _ | .parent _ | .name _ => .stray

/-- `fd_free` -/
def fdFree (fd : Int) : Handler Int := do
  let m ← get
  if (m.fileDesc fd).present = false then return -1
  else do
    modify (fun m => m.setFile fd (fun f => { f with present := false, node := .null }))
    return 0

/-- `close`; `freed` is what `mem_free` makes of the block that `kikoobuf`
    points to. -/
def close (freed : List UInt8 → List UInt8) (fd : Int) : Handler Int := do
  let m ← get
  match (m.fileDesc fd).node with
  | .null => stop
  | .stray => expose []
  | .to node =>
    match closeCallback node with
    | .null => fdFree fd
    | .stray => expose []
    | .to _ => do
      modify (fun m => { m with kikoobuf := freed m.kikoobuf })
      fdFree fd

/-- `fstat` -/
def fstat (fd : Int) (s : Pointer) : Handler Int := do
  let m ← get
  if (m.fileDesc fd).present = false then return -1
  else
    match (m.fileDesc fd).node with
    | .null => stop
    | .stray => expose [s]
    | .to node => do
      storeWord (s.plus 128) (if (fsNode node).type = .dir then 1 else 0)
      storeWord (s.plus 132) (word (fsNode node).inode)
      storeWord (s.plus 136) (m.size node)
      storeBytes Mapped s (padded (fsNode node).name FS_NAME_MAX)
      return 0

/-- `getcwd` -/
def getcwd (buf : Pointer) (len : Nat) : Handler Pointer := do
  let buf ← checkPointer buf SYSCALL_GETCWD
  if buf.address = 0 then return null
  else
    let m ← get
    storeBytes Mapped buf (padded (fsNode m.workingDir).name len)
    return buf

/-- `chdir` -/
def chdir (path : Pointer) : Handler Int := do
  let path ← checkPointer path SYSCALL_CHDIR
  let node ← vfsPathResolution path
  match node with
  | .null => return -1
  | .stray => stop
  | .to n =>
    if (fsNode n).type ≠ .dir then return -1
    else do
      modify (fun m => { m with workingDir := n })
      return 0

/-- `set_stdout` -/
def setStdout (name : Pointer) : Handler Int := do
  let node ← vfsPathResolution name
  if node = .null then return -1
  else
    modify (fun m => m.setFile 1 (fun f => { f with node := node }))
    return 0

/-! ### `console.c` -/

/-- `console_putbytes` -/
def consolePutbytes (s : Pointer) (len : Int) : Handler Unit := do
  let m ← get
  if isInSyscall m.inSyscall SYSCALL_CONS_WRITE then
    let _ ← write 1 s (word len).toNat
    return ()
  else putBytes m.kernel.vcCurrent s len.toNat 0

/-- `cons_write` -/
def consWrite (buf : Pointer) (len : Int) : Handler Unit := do
  let buf ← checkPointer buf SYSCALL_CONS_WRITE
  consolePutbytes buf len

/-- `buffer_pop`: an empty buffer puts the process to sleep once. -/
def bufferPop (others : World Machine → World Machine) (vc : Int) : Handler UInt8 := do
  let m ← get
  if (m.kernel.virtualConsoles vc).buf.inSize = 0 then
    modify (fun m =>
      let k := m.kernel.setConsole vc (fun c => { c with waitingPid := m.kernel.pidCour })
      { m with kernel := k.setProc k.pidCour (fun c => { c with state := .waitIo }) })
    pause others
  let m ← get
  modify (fun m => { m with kernel := m.kernel.setConsole vc (fun c => { c with buf := (InputBuffer.pop c.buf).2 }) })
  return (InputBuffer.pop (m.kernel.virtualConsoles vc).buf).1

/-- The loop of `cons_read`, with `left` bytes to read. -/
def consReadLoop (others : World Machine → World Machine) (buf : Pointer) (len : Nat) : Nat → Handler Nat
  | 0 => return len
  | left + 1 => do
    let m ← get
    match (m.fileDesc 1).node with
    | .to node =>
      let offset := len - (left + 1)
      let c ← bufferPop others ((fsNode node).inode - 100)
      if c = 10 then return offset
      else
        store Mapped (buf.plus offset) c
        consReadLoop others buf len left
    | _ => stop

/-- `cons_read` -/
def consRead (others : World Machine → World Machine) (buf : Pointer) (len : Nat) : Handler Nat := do
  let buf ← checkPointer buf SYSCALL_CONS_READ
  consReadLoop others buf len len

/-- `enum cons_ioctl_req` -/
inductive ConsIoctlReq where
  | setPal | getPal | setAttr | getAttr | setBuf | getBuf
  deriving DecidableEq

/-- `cons_ioctl`, less the writes to the ports of the palette; none stands for a
    request that is none. -/
def consIoctl (req : Option ConsIoctlReq) (p : Pointer) : Handler Unit := do
  let p ← checkPointer p SYSCALL_CONS_IOCTL
  let m ← get
  match req with
  | none => return ()
  | some .setPal => do
    let _ ← loadWord p
    let _ ← loadWord (p.plus 4)
    let _ ← loadWord (p.plus 8)
    let _ ← loadWord (p.plus 12)
    return ()
  | some .getPal => do
    let _ ← loadWord p
    storeWord (p.plus 4) m.port
    storeWord (p.plus 8) m.port
    storeWord (p.plus 12) m.port
  | some .setAttr => do
    let attr ← loadWord p
    modify (fun m => { m with currentAttr := attr })
  | some .getAttr => storeWord p m.currentAttr
  | some .setBuf => do
    let buffered ← loadWord p
    modify (fun m => { m with
      kernel := m.kernel.setConsole m.kernel.vcCurrent (fun c => { c with buffered := decide (buffered ≠ 0) }) })
  | some .getBuf => storeWord p (if (m.kernel.virtualConsoles m.kernel.vcCurrent).buffered then 1 else 0)

/-! ### `timer.c` and `sys.c` -/

/-- `clock_settings` -/
def clockSettings (quartz ticks : Pointer) : Handler Unit := do
  let quartz ← checkPointer quartz SYSCALL_CLOCK_SETTINGS
  let ticks ← checkPointer ticks SYSCALL_CLOCK_SETTINGS
  let m ← get
  if quartz.address ≠ 0 then storeWord quartz TIMER_INPUT_FREQ
  if ticks.address ≠ 0 then storeWord ticks m.rate

/-- The end of `waitpid`. -/
def reap (child : Int) (retvalp : Pointer) : Handler Int := do
  let m ← get
  if retvalp.address ≠ 0 then
    let c := m.kernel.tabProc child
    storeWord retvalp (if c.killed then 0 else word c.valRet)
  modify (fun m =>
    let k := m.kernel.setProc child (fun c => { c with state := .dead })
    { m with kernel := k.setProc k.pidCour (fun c => { c with children := c.children.erase child }) })
  return child

/-- The process sleeps until a child ends. -/
def waitChild (others : World Machine → World Machine) (pidWait : Int) : Handler Unit := do
  modify (fun m => { m with
    kernel := m.kernel.setProc m.kernel.pidCour (fun c => { c with state := .waitChild, pidWait := pidWait }) })
  pause others

/-- `waitpid` -/
def waitpid (others : World Machine → World Machine) (pid : Int) (retvalp : Pointer) : Handler Int := do
  let retvalp ← checkPointer retvalp SYSCALL_WAITPID
  let m ← get
  let children := (m.kernel.tabProc m.kernel.pidCour).children
  if pid = m.kernel.pidCour then return -1
  else if pid < 0 then
    if children = [] then return -1
    else
      match children.find? (fun child => decide ((m.kernel.tabProc child).state = .zombie)) with
      | some child => reap child retvalp
      | none => do
        waitChild others (-1)
        let m ← get
        reap (m.kernel.tabProc m.kernel.pidCour).pidWait retvalp
  else if pid = 0 then return -2
  else if pid ∉ children then return -3
  else if (m.kernel.tabProc pid).state ≠ .zombie then do
    waitChild others pid
    reap pid retvalp
  else reap pid retvalp

/-- `start`. `ptfunc` and `arg` are put on the stacks of the new process, the
    name is measured and copied. Here `memory.name` is the memory for the copy. -/
def start (others : World Machine → World Machine) (ptfunc : Pointer) (ssize : Nat) (prio : Int) (name _arg : Pointer)
    (memory : Memory) : Handler Int := do
  let _ ← checkPointer ptfunc SYSCALL_START
  if ssize > 0xffffffe7 then return -1
  else
    let m ← get
    let created := contextCreateUser m.kernel.toProcs prio memory
    if (freePid m.kernel.tabProc).isNone ∨ memory.stack = false ∨ memory.children = false then
      modify (fun m => { m with kernel := { m.kernel with toProcs := created.1 } })
      return -1
    else
      let text ← cString name limit
      modify (fun m => { m with kernel := { m.kernel with toProcs := created.1 } })
      if memory.name = false then
        -- `strcpy` reads a byte that it has no place for
        let _ ← byteAt name 0
        stop
      else
        let _ ← cString name limit
        match created.2 with
        | none => stop
        | some pid =>
          modify (fun m => { m with names := Function.update m.names pid text })
          pause others
          return pid

end Psys.Handlers
