import Mathlib.Tactic.IntervalCases
import Psys.Switching

/-!
Kernel stacks along runs: gates, calls and returns of C functions, switches,
new processes and dead ones, in any order. C functions may change all registers
and all memory, but for the words that the code around them needs.
-/
namespace Psys.KernelStacks
open Psys.Assembly Psys.Switching

/-- Where the descriptors of the processes are, and the stack that the kernel
    starts on. -/
structure Layout where
  ctx : Pid → Nat
  bootLow : Nat
  bootTop : Nat
  apart : ∀ p q, ∀ i ∈ [0,4,20], ∀ j ∈ [0,4,20], ctx p + i = ctx q + j → p = q ∧ i = j
  tss : ∀ p, ∀ i ∈ [0,4,20], ctx p + i ≠ ESP0 ∧ ctx p + i ≠ SS0
  user : ∀ p, ctx p + 20 < USER_SPACE
  boot : bootTop ≤ USER_SPACE ∧ 88 ≤ bootLow
  outside : ∀ p, ∀ i ∈ [0,4,20], ctx p + i < bootLow ∨ bootTop ≤ ctx p + i
  outsideTss : ∀ a ∈ [ESP0,SS0], a < bootLow ∨ bootTop ≤ a

structure Machine where
  cpu : Cpu
  pidCour : Pid
  inKernel : Bool
  used : Pid → Bool
  record : Pid → Record

inductive Event where
  /-- The process runs, or the idle loop. -/
  | user (cpu : Cpu)
  | interrupt (vector : Vector)
  /-- A C function runs. -/
  | compute (cpu : Cpu)
  | call (ret : Nat)
  | ret
  /-- `scheduler` calls `context_switch`; `mid` is what `trt_sigs` and
      `garbage_collector` leave. -/
  | switch (q : Pid) (ret : Nat) (mid : Cpu)
  | back
  /-- `context_create_user` makes the stack of a process that starts at `f`. -/
  | create (q : Pid) (stack userStack f iretAt : Nat)
  /-- `garbage_collector` frees the stack of a dead process. -/
  | free (q : Pid)

variable (place : Layout)

def Machine.setRecord (m : Machine) (p : Pid) (r : Record) : Machine := { m with record := Function.update m.record p r }

/-- The gate and its code up to the call of the C function. -/
def enter (m : Machine) (v : Vector) : Machine :=
  let r : Record := ⟨v.kind (m.cpu.reg .eax),0,m.cpu.reg,if Outer (m.cpu.reg .cs) then m.cpu.mem ESP0 else m.cpu.reg .esp⟩
  let cpu := exec (save r.kind) (interrupt (m.cpu.mem ESP0) (m.cpu.mem SS0) m.cpu)
  { m.setRecord m.pidCour r with cpu := cpu, inKernel := true }

def Machine.deepen (m : Machine) (p : Pid) (depth : Nat) : Machine := m.setRecord p { m.record p with depth := depth }

/-- The call of a C function, up to the frame that it makes. -/
def call (m : Machine) (ret : Nat) : Machine :=
  { m.deepen m.pidCour ((m.record m.pidCour).depth + 1) with cpu := exec [.push .ebp,.mov .esp .ebp] (m.cpu.push ret) }

/-- The end of a C function. -/
def leaveFunction (m : Machine) : Machine :=
  { m.deepen m.pidCour ((m.record m.pidCour).depth - 1) with cpu := exec [.leave,.ret] m.cpu }

/-- The call of `context_switch` up to its calls of C functions. -/
def out (m : Machine) (q : Pid) (ret : Nat) : Machine :=
  { m.deepen m.pidCour ((m.record m.pidCour).depth + 1) with
    cpu := exec switchOut (m.cpu.pushWords [place.ctx q,place.ctx m.pidCour,ret])
    pidCour := q }

/-- And from there on to its return. -/
def into (m : Machine) (mid : Cpu) : Machine :=
  { m.deepen m.pidCour ((m.record m.pidCour).depth - 1) with cpu := exec switchIn mid }

def back (m : Machine) : Machine :=
  { m with cpu := iret (exec (restore (m.record m.pidCour).kind) m.cpu), inKernel := false }

/-- The registers that a new process starts with, and the word below its stack. -/
def initial (f userStack below : Nat) : Reg → Nat
  | .eip => f
  | .cs => USER_CS
  | .eflags => 0x202
  | .esp => userStack
  | .ss | .ds | .es | .fs | .gs => USER_DS
  | .ebp => below
  | _ => 0

def create (m : Machine) (q : Pid) (stack userStack f iretAt : Nat) : Machine :=
  let word (n : Nat) : Nat := stack + KERNEL_STACK_SIZE - 4 * n
  let writes : List (Nat × Nat) :=
    [(word 1,USER_DS),(word 2,userStack),(word 3,0x202),(word 4,USER_CS),(word 5,f),(word 6,iretAt),(word 8,word 7),
      (place.ctx q,word 8),(place.ctx q + 4,stack),(place.ctx q + 20,KERNEL_STACK_SIZE)]
  let r : Record := ⟨.fresh,1,initial f userStack (m.cpu.mem (word 7)),stack + KERNEL_STACK_SIZE⟩
  { m.setRecord q r with
    cpu := writes.foldl (fun c w => c.write w.1 w.2) m.cpu
    used := Function.update m.used q true }

def step (m : Machine) : Event → Option Machine
  | .user cpu => if m.inKernel then none else some { m with cpu := cpu }
  | .interrupt v => if m.inKernel then none else some (enter m v)
  | .compute cpu => if m.inKernel ∧ 0 < (m.record m.pidCour).depth then some { m with cpu := cpu } else none
  | .call ret => if m.inKernel then some (call m ret) else none
  | .ret => if m.inKernel ∧ 0 < (m.record m.pidCour).depth then some (leaveFunction m) else none
  | .switch q ret mid =>
    if m.inKernel ∧ 0 < (m.record m.pidCour).depth ∧ m.used q ∧ q ≠ m.pidCour then some (into (out place m q ret) mid)
    else none
  | .back => if m.inKernel ∧ (m.record m.pidCour).depth = 0 then some (back m) else none
  | .create q stack userStack f iretAt => if m.used q then none else some (create place m q stack userStack f iretAt)
  | .free q => if q = 0 ∨ q = m.pidCour then none else some { m with used := Function.update m.used q false }

/-! ### The memory that the code needs -/

/-- The frame pointers that the functions of a process have saved. -/
def slots (mem : Nat → Nat) : Nat → Nat → List Nat
  | 0, _ => []
  | depth + 1, ebp => ebp :: slots mem depth (mem ebp)

/-- The words of a stack that only their owners may change. -/
def words (mem : Nat → Nat) (r : Record) (ebp : Nat) : List Nat :=
  (List.range r.image.length).map (fun i => r.base + 4 * i) ++ slots mem r.depth ebp

/-- The same of a process that does not run, with what `context_switch` needs. -/
def parkedWords (m : Machine) (p : Pid) : List Nat :=
  [place.ctx p,place.ctx p + 4,place.ctx p + 20,m.cpu.mem (place.ctx p)] ++
    words m.cpu.mem (m.record p) (m.cpu.mem (place.ctx p) + 4)

/-- Another memory is the same where the kernel relies on it. -/
structure Respects (m : Machine) (mem : Nat → Nat) : Prop where
  tss : mem ESP0 = m.cpu.mem ESP0 ∧ mem SS0 = m.cpu.mem SS0
  current : mem (place.ctx m.pidCour + 4) = m.cpu.mem (place.ctx m.pidCour + 4) ∧
    mem (place.ctx m.pidCour + 20) = m.cpu.mem (place.ctx m.pidCour + 20)
  parked : ∀ p, m.used p → p ≠ m.pidCour → ∀ a ∈ parkedWords place m p, mem a = m.cpu.mem a

def Machine.low (m : Machine) (p : Pid) : Nat := if p = 0 then place.bootLow else m.cpu.mem (place.ctx p + 4)
def Machine.high (m : Machine) (p : Pid) : Nat :=
  if p = 0 then place.bootTop else m.cpu.mem (place.ctx p + 4) + m.cpu.mem (place.ctx p + 20)

/-- What the steps may do: processes write to user space, C functions keep to
    the conventions for calls, stacks are large enough and `mem_alloc` gives
    memory that nobody uses. -/
def Allowed (m : Machine) : Event → Prop
  | .user cpu =>
    (∀ a < USER_SPACE, cpu.mem a = m.cpu.mem a) ∧ (Outer (cpu.reg .cs) ↔ m.pidCour ≠ 0) ∧
      (m.pidCour = 0 → place.bootLow + 88 ≤ cpu.reg .esp ∧ cpu.reg .esp ≤ place.bootTop ∧ cpu.reg .ss = KERNEL_DS)
  | .interrupt v => v = .int49 → m.pidCour ≠ 0
  | .compute cpu =>
    Respects place m cpu.mem ∧
      (∀ a ∈ words m.cpu.mem (m.record m.pidCour) (m.cpu.reg .ebp), cpu.mem a = m.cpu.mem a) ∧
      (∀ r ∈ [Reg.ebp,.fs,.gs,.ss], cpu.reg r = m.cpu.reg r) ∧
      m.low place m.pidCour ≤ cpu.reg .esp ∧ cpu.reg .esp ≤ m.cpu.reg .ebp
  | .call _ => m.low place m.pidCour + 8 ≤ m.cpu.reg .esp
  | .switch q ret mid =>
    m.low place m.pidCour + 20 ≤ m.cpu.reg .esp ∧ (m.record m.pidCour).kind ≠ .device ∧
      let o := out place m q ret
      mid.mem ESP0 = o.cpu.mem ESP0 ∧ mid.mem SS0 = o.cpu.mem SS0 ∧
        (∀ p, m.used p → ∀ a ∈ parkedWords place o p, mid.mem a = o.cpu.mem a) ∧
        ∀ r ∈ [Reg.esp,.ss], mid.reg r = o.cpu.reg r
  | .create q stack _ _ _ =>
    (m.inKernel = false → m.pidCour = 0) ∧ q ≠ 0 ∧ stack + KERNEL_STACK_SIZE ≤ USER_SPACE ∧
      (∀ p, m.used p → stack + KERNEL_STACK_SIZE ≤ m.low place p ∨ m.high place p ≤ stack) ∧
      (∀ p, ∀ i ∈ [0,4,20], place.ctx p + i < stack ∨ stack + KERNEL_STACK_SIZE ≤ place.ctx p + i) ∧
      ∀ a ∈ [ESP0,SS0], a < stack ∨ stack + KERNEL_STACK_SIZE ≤ a
  | .ret | .back | .free _ => True

/-- The kernel before its idle loop. -/
structure Boot (m : Machine) : Prop where
  kernel : m.pidCour = 0 ∧ m.inKernel = false
  alone : ∀ p, m.used p ↔ p = 0
  level : ¬ Outer (m.cpu.reg .cs) ∧ m.cpu.reg .ss = KERNEL_DS
  stack : place.bootLow + 88 ≤ m.cpu.reg .esp ∧ m.cpu.reg .esp ≤ place.bootTop

abbrev Reach : Machine → Prop := Runs.Reach (Boot place) (step place) (Allowed place)

/-! ### What a stack in the kernel looks like -/

/-- The frames of C functions, from the innermost one to the code of the gate. -/
inductive Chain (mem : Nat → Nat) (start outer : Nat) : Nat → Nat → Prop
  | done : Chain mem start outer 0 outer
  | first {b : Nat} (below : b + 8 = start) (saved : mem b = outer) : Chain mem start outer 1 b
  | frame {depth b next : Nat} (rest : Chain mem start outer (depth + 1) next) (below : b + 8 ≤ next)
      (saved : mem b = next) : Chain mem start outer (depth + 2) b

/-- A process in the kernel, with its frame pointer and its stack pointer. -/
structure Kept (mem : Nat → Nat) (low : Nat) (r : Record) (ebp sp : Nat) : Prop where
  holds : Holds mem r.base r.image
  chain : Chain mem r.start (r.entry .ebp) r.depth ebp
  low : low ≤ sp
  done : r.depth = 0 → sp = r.start
  inside : 0 < r.depth → sp ≤ ebp
  room : 4 * r.image.length + r.gap ≤ r.top

/-- What is known of the registers that it left behind. -/
structure Level (place : Layout) (high : Nat) (p : Pid) (r : Record) : Prop where
  outer : Outer (r.entry .cs) ↔ p ≠ 0
  top : p ≠ 0 → r.top = high
  boot : p = 0 → r.top = r.entry .esp ∧ place.bootLow + 88 ≤ r.top ∧ r.top ≤ place.bootTop ∧
    r.entry .ss = KERNEL_DS
  fresh : r.kind = .fresh → ∀ s ∈ [Reg.ds,.es,.fs,.gs], r.entry s = USER_DS

/-- A process stopped in `context_switch`. -/
structure Parked (m : Machine) (p : Pid) : Prop where
  level : Level place (m.high place p) p (m.record p)
  saved : m.cpu.mem (m.cpu.mem (place.ctx p)) = m.cpu.mem (place.ctx p) + 4
  deep : 0 < (m.record p).depth
  device : (m.record p).kind ≠ .device
  kept : Kept m.cpu.mem (m.low place p) (m.record p) (m.cpu.mem (place.ctx p) + 4) (m.cpu.mem (place.ctx p))

/-- The current process in the kernel. -/
structure Running (m : Machine) : Prop where
  level : Level place (m.high place m.pidCour) m.pidCour (m.record m.pidCour)
  kept : Kept m.cpu.mem (m.low place m.pidCour) (m.record m.pidCour) (m.cpu.reg .ebp) (m.cpu.reg .esp)
  ss : m.cpu.reg .ss = KERNEL_DS
  device : (m.record m.pidCour).kind = .device →
    m.cpu.reg .fs = (m.record m.pidCour).entry .fs ∧ m.cpu.reg .gs = (m.record m.pidCour).entry .gs

/-- The current process in user mode, or the idle loop. -/
structure Outside (m : Machine) : Prop where
  outer : Outer (m.cpu.reg .cs) ↔ m.pidCour ≠ 0
  idle : m.pidCour = 0 → place.bootLow + 88 ≤ m.cpu.reg .esp ∧ m.cpu.reg .esp ≤ place.bootTop ∧
    m.cpu.reg .ss = KERNEL_DS

/-- The stacks do not touch each other, nor the descriptors. -/
structure Laid (m : Machine) : Prop where
  current : m.used m.pidCour
  kernel : m.used 0
  sized : ∀ p, m.used p → p ≠ 0 → m.cpu.mem (place.ctx p + 20) = KERNEL_STACK_SIZE
  user : ∀ p, m.used p → m.high place p ≤ USER_SPACE
  outside : ∀ p, m.used p → ∀ q, ∀ i ∈ [0,4,20], place.ctx q + i < m.low place p ∨ m.high place p ≤ place.ctx q + i
  outsideTss : ∀ p, m.used p → ∀ a ∈ [ESP0,SS0], a < m.low place p ∨ m.high place p ≤ a
  disjoint : ∀ p q, m.used p → m.used q → p ≠ q → m.high place p ≤ m.low place q ∨ m.high place q ≤ m.low place p

structure Good (m : Machine) : Prop where
  laid : Laid place m
  tss : m.pidCour ≠ 0 → m.cpu.mem ESP0 = m.high place m.pidCour ∧ m.cpu.mem SS0 = KERNEL_DS
  parked : ∀ p, m.used p → p ≠ m.pidCour → Parked place m p
  running : m.inKernel = true → Running place m
  outside : m.inKernel = false → Outside place m

variable {place} {m m' : Machine} {mem mem' : Nat → Nat} {start outer depth ebp sp low : Nat} {r : Record} {p : Pid}

theorem Chain.slots_within (chain : Chain mem start outer depth ebp) :
    ∀ a ∈ slots mem depth ebp, ebp ≤ a ∧ a + 8 ≤ start := by
  induction chain with
  | done => simp [slots]
  | first below saved =>
    intro a member
    obtain rfl : a = _ := by simpa [slots] using member
    omega
  | @frame depth b next rest below saved ih =>
    intro a member
    have head : next + 8 ≤ start := (ih next (by simp [slots])).2
    rw [slots,List.mem_cons,saved] at member
    rcases member with rfl | member
    · omega
    · have := ih a member
      omega

theorem Chain.ends (chain : Chain mem start outer depth ebp) (deep : 0 < depth) : ebp + 8 ≤ start := by
  obtain ⟨n,rfl⟩ := Nat.exists_eq_add_of_lt deep
  exact (chain.slots_within ebp (by simp [slots])).2

theorem Chain.same (chain : Chain mem start outer depth ebp) (same : ∀ a ∈ slots mem depth ebp, mem' a = mem a) :
    Chain mem' start outer depth ebp := by
  induction chain with
  | done => exact .done
  | first below saved => exact .first below ((same _ (by simp [slots])).trans saved)
  | frame rest below saved ih =>
    refine .frame (ih (fun a member => same a ?_)) below ((same _ (by simp [slots])).trans saved)
    rw [slots,saved]
    exact List.mem_cons_of_mem _ member

theorem Kept.start_le (kept : Kept mem low r ebp sp) : sp ≤ r.start ∧ r.start ≤ r.base ∧ r.base ≤ r.top := by
  refine ⟨?_,Nat.sub_le _ _,Nat.sub_le _ _⟩
  by_cases deep : 0 < r.depth
  · have := kept.chain.ends deep
    have := kept.inside deep
    omega
  · exact Nat.le_of_eq (kept.done (by omega))

/-- All words that a process relies on are between its stack pointer and the
    end of its stack. -/
theorem Kept.words_within (kept : Kept mem low r ebp sp) {a : Nat} (member : a ∈ words mem r ebp) :
    low ≤ a ∧ sp ≤ a ∧ a < r.top := by
  have order := kept.start_le
  have least := kept.low
  rw [words,List.mem_append,List.mem_map] at member
  rcases member with ⟨i,inside,rfl⟩ | slot
  · have fits := kept.room
    rw [List.mem_range] at inside
    rw [Record.base] at order ⊢
    omega
  · have within := kept.chain.slots_within a slot
    have deep : 0 < r.depth := Nat.pos_of_ne_zero (fun zero => by rw [zero] at slot; simp [slots] at slot)
    have := kept.inside deep
    omega

theorem Kept.same (kept : Kept mem low r ebp sp) (mem' : Nat → Nat) (same : ∀ a ∈ words mem r ebp, mem' a = mem a) :
    Kept mem' low r ebp sp where
  holds := kept.holds.same (fun i inside => same _ (List.mem_append_left _ (List.mem_map.mpr ⟨i,by simpa using inside,rfl⟩)))
  chain := kept.chain.same (fun a slot => same a (List.mem_append_right _ slot))
  low := kept.low
  done := kept.done
  inside := kept.inside
  room := kept.room

theorem Level.high_le {high : Nat} (level : Level place high p r) : r.top ≤ if p = 0 then place.bootTop else high := by
  split
  next zero => exact (level.boot zero).2.2.1
  next other => exact Nat.le_of_eq (level.top other)

theorem high_eq (m : Machine) (p : Pid) : (if p = 0 then place.bootTop else m.high place p) = m.high place p := by
  rw [Machine.high]
  split <;> rfl

/-- A parked process relies on its descriptor and on words of its stack. -/
theorem Parked.words_within (parked : Parked place m p) {a : Nat} (member : a ∈ parkedWords place m p) :
    (∃ i ∈ [0,4,20], a = place.ctx p + i) ∨ m.low place p ≤ a ∧ a < m.high place p := by
  have top := parked.level.high_le
  rw [high_eq] at top
  have order := parked.kept.start_le
  have least := parked.kept.low
  simp only [parkedWords,List.mem_append,List.mem_cons,List.not_mem_nil,or_false] at member
  rcases member with (rfl | rfl | rfl | rfl) | inside
  · exact .inl ⟨0,by simp,rfl⟩
  · exact .inl ⟨4,by simp,rfl⟩
  · exact .inl ⟨20,by simp,rfl⟩
  · have := parked.kept.inside parked.deep
    have := parked.kept.chain.ends parked.deep
    exact .inr ⟨least,by omega⟩
  · have within := parked.kept.words_within inside
    exact .inr ⟨within.1,by omega⟩

/-- Where the stack of a process is depends on its descriptor alone. -/
theorem bounds_same (m m' : Machine) (p : Pid) (same : ∀ i ∈ [4,20], m'.cpu.mem (place.ctx p + i) = m.cpu.mem (place.ctx p + i)) :
    m'.low place p = m.low place p ∧ m'.high place p = m.high place p := by
  rw [Machine.low,Machine.low,Machine.high,Machine.high,same 4 (by simp),same 20 (by simp)]
  exact ⟨rfl,rfl⟩

theorem Respects.bounds (m' : Machine) (respects : Respects place m m'.cpu.mem) :
    m'.low place m.pidCour = m.low place m.pidCour ∧ m'.high place m.pidCour = m.high place m.pidCour := by
  refine bounds_same m m' _ (fun i member => ?_)
  simp only [List.mem_cons,List.not_mem_nil,or_false] at member
  rcases member with rfl | rfl
  · exact respects.current.1
  · exact respects.current.2

theorem Parked.same (parked : Parked place m p) (record : m'.record p = m.record p)
    (same : ∀ a ∈ parkedWords place m p, m'.cpu.mem a = m.cpu.mem a) : Parked place m' p := by
  have descriptor : ∀ i ∈ [4,20], m'.cpu.mem (place.ctx p + i) = m.cpu.mem (place.ctx p + i) := by
    simp only [List.mem_cons,List.not_mem_nil,or_false]
    rintro i (rfl | rfl) <;> exact same _ (by simp [parkedWords])
  obtain ⟨low,high⟩ := bounds_same m m' p descriptor
  have ctx : m'.cpu.mem (place.ctx p) = m.cpu.mem (place.ctx p) := same _ (by simp [parkedWords])
  have saved : m'.cpu.mem (m.cpu.mem (place.ctx p)) = m.cpu.mem (m.cpu.mem (place.ctx p)) :=
    same _ (by simp [parkedWords])
  obtain ⟨level,word,deep,device,kept⟩ := parked
  refine ⟨by rw [high,record]; exact level,by rw [ctx,saved]; exact word,record ▸ deep,record ▸ device,?_⟩
  rw [low,record,ctx]
  exact kept.same _ (fun a member => same a (List.mem_append_right _ member))

theorem Laid.same (laid : Laid place m) (used : m'.used = m.used) (current : m'.used m'.pidCour)
    (same : ∀ p, m.used p → ∀ i ∈ [4,20], m'.cpu.mem (place.ctx p + i) = m.cpu.mem (place.ctx p + i)) :
    Laid place m' := by
  have bounds := fun p used => bounds_same m m' p (same p used)
  refine ⟨current,used ▸ laid.kernel,?_,?_,?_,?_,?_⟩ <;> rw [used]
  · intro p inUse other
    rw [same p inUse 20 (by simp)]
    exact laid.sized p inUse other
  · intro p inUse
    rw [(bounds p inUse).2]
    exact laid.user p inUse
  · intro p inUse
    rw [(bounds p inUse).1,(bounds p inUse).2]
    exact laid.outside p inUse
  · intro p inUse
    rw [(bounds p inUse).1,(bounds p inUse).2]
    exact laid.outsideTss p inUse
  · intro p q inUse inUse' other
    rw [(bounds p inUse).1,(bounds p inUse).2,(bounds q inUse').1,(bounds q inUse').2]
    exact laid.disjoint p q inUse inUse' other

/-- A step of the current process that respects the others. -/
theorem Good.respect (good : Good place m) (used : m'.used = m.used) (pidCour : m'.pidCour = m.pidCour)
    (records : ∀ p, p ≠ m.pidCour → m'.record p = m.record p) (respects : Respects place m m'.cpu.mem)
    (running : m'.inKernel = true → Running place m') (outside : m'.inKernel = false → Outside place m') :
    Good place m' := by
  have descriptors : ∀ p, m.used p → ∀ i ∈ [4,20],
      m'.cpu.mem (place.ctx p + i) = m.cpu.mem (place.ctx p + i) := by
    intro p inUse i member
    simp only [List.mem_cons,List.not_mem_nil,or_false] at member
    by_cases other : p = m.pidCour
    · subst other
      rcases member with rfl | rfl
      · exact respects.current.1
      · exact respects.current.2
    · rcases member with rfl | rfl <;> exact respects.parked p inUse other _ (by simp [parkedWords])
  have current := good.laid.current
  refine ⟨good.laid.same used (by rw [used,pidCour]; exact current) descriptors,fun busy => ?_,
    fun p inUse other => ?_,running,outside⟩
  · rw [pidCour] at busy ⊢
    rw [respects.tss.1,respects.tss.2,(bounds_same m m' _ (descriptors _ current)).2]
    exact good.tss busy
  · rw [used] at inUse
    rw [pidCour] at other
    exact (good.parked p inUse other).same (records p other) (respects.parked p inUse other)

/-- Writes to the stack of the current process respect the others. -/
theorem Good.local (good : Good place m)
    (writes : ∀ a, (a < m.low place m.pidCour ∨ m.high place m.pidCour ≤ a) → mem a = m.cpu.mem a) :
    Respects place m mem := by
  have laid := good.laid
  refine ⟨⟨?_,?_⟩,⟨?_,?_⟩,fun p used other a member => writes a ?_⟩
  · exact writes _ (laid.outsideTss _ laid.current _ (by simp))
  · exact writes _ (laid.outsideTss _ laid.current _ (by simp))
  · exact writes _ (laid.outside _ laid.current _ 4 (by simp))
  · exact writes _ (laid.outside _ laid.current _ 20 (by simp))
  · rcases (good.parked p used other).words_within member with ⟨i,inside,rfl⟩ | within
    · exact laid.outside _ laid.current _ i inside
    · have := laid.disjoint p m.pidCour used laid.current other
      omega

/-! ### The steps -/

theorem user_good (good : Good place m) (mode : m.inKernel = false) {cpu : Cpu} (allowed : Allowed place m (.user cpu)) :
    Good place { m with cpu := cpu } := by
  obtain ⟨writes,outer,idle⟩ := allowed
  have same : ∀ a, a < USER_SPACE → cpu.mem a = m.cpu.mem a := writes
  have descriptor : ∀ q, ∀ i ∈ [0,4,20], place.ctx q + i < USER_SPACE := by
    intro q i member
    have := place.user q
    simp only [List.mem_cons,List.not_mem_nil,or_false] at member
    omega
  refine good.respect rfl rfl (fun _ _ => rfl) ⟨⟨same _ (by decide),same _ (by decide)⟩,
    ⟨same _ (descriptor _ 4 (by simp)),same _ (descriptor _ 20 (by simp))⟩,fun p used other a member => same a ?_⟩
    (fun kernel => absurd kernel (by simp [mode])) (fun _ => ⟨outer,idle⟩)
  rcases (good.parked p used other).words_within member with ⟨i,inside,rfl⟩ | within
  · exact descriptor p i inside
  · have := good.laid.user p used
    omega

theorem gap_le (r : Record) : r.gap ≤ 24 := by
  rw [Record.gap]
  split
  next args _ => have := arguments_length args; omega
  next => omega

theorem interrupt_good (good : Good place m) (mode : m.inKernel = false) (v : Vector) : Good place (enter m v) := by
  have outside := good.outside mode
  have laid := good.laid
  let r : Record := ⟨v.kind (m.cpu.reg .eax),0,m.cpu.reg,if Outer (m.cpu.reg .cs) then m.cpu.mem ESP0 else m.cpu.reg .esp⟩
  have level : Level place (m.high place m.pidCour) m.pidCour r := by
    refine ⟨outside.outer,fun busy => ?_,fun idle => ?_,fun fresh => absurd fresh (by cases v <;> simp [r,Vector.kind])⟩
    · exact (if_pos (outside.outer.mpr busy)).trans (good.tss busy).1
    · have inner : ¬ Outer (m.cpu.reg .cs) := fun outer => outside.outer.mp outer idle
      obtain ⟨least,most,ss⟩ := outside.idle idle
      have top : r.top = m.cpu.reg .esp := if_neg inner
      exact ⟨top,top ▸ least,top ▸ most,ss⟩
  have bounds : m.low place m.pidCour + 88 ≤ r.top ∧ r.top ≤ m.high place m.pidCour := by
    by_cases idle : m.pidCour = 0
    · obtain ⟨_,least,most,_⟩ := level.boot idle
      simpa only [Machine.low,Machine.high,if_pos idle] using And.intro least most
    · rw [level.top idle]
      simp only [Machine.low,Machine.high,if_neg idle,laid.sized _ laid.current idle,KERNEL_STACK_SIZE]
      omega
  have order : r.start ≤ r.base ∧ r.base ≤ r.top := ⟨Nat.sub_le _ _,Nat.sub_le _ _⟩
  have length := image_length r
  have gap := gap_le r
  have start : r.top ≤ r.start + 88 := by rw [Record.start,Record.base]; omega
  have few : r.start ≤ r.top - 4 * (interrupted m.cpu.reg).length := by
    have : 4 * (interrupted m.cpu.reg).length ≤ 4 * r.image.length := by
      rw [Record.image,List.length_append]; exact Nat.mul_le_mul_left _ (Nat.le_add_left _ _)
    rw [Record.base] at order
    omega
  obtain ⟨esp,regs,ss,holds,writes⟩ := interrupt_holds (c := m.cpu) (m.cpu.mem ESP0) (m.cpu.mem SS0) r.top rfl (by omega)
  have saved := save_saved (r := r) (c := interrupt (m.cpu.mem ESP0) (m.cpu.mem SS0) m.cpu) (by omega)
    (by cases v <;> simp [r,Vector.kind]) regs esp (esp ▸ holds)
  have local_ : ∀ a, (a < m.low place m.pidCour ∨ m.high place m.pidCour ≤ a) → (enter m v).cpu.mem a = m.cpu.mem a :=
    fun a out => (saved.others a (by omega)).trans (writes a (by omega))
  have respects := good.local local_
  obtain ⟨low,high⟩ := Respects.bounds (enter m v) respects
  have record : (enter m v).record m.pidCour = r := by simp [enter,Machine.setRecord,r]
  refine good.respect rfl rfl (fun p other => by simp [enter,Machine.setRecord,other]) respects (fun _ => ?_)
    (fun user => by simp [enter] at user)
  refine ⟨?_,?_,?_,?_⟩
  · show Level place ((enter m v).high place m.pidCour) m.pidCour ((enter m v).record m.pidCour)
    rw [high,record]
    exact level
  · show Kept _ ((enter m v).low place m.pidCour) ((enter m v).record m.pidCour) _ _
    rw [low,record]
    refine ⟨saved.holds,?_,?_,fun _ => saved.esp,fun deep => absurd deep (by simp [r]),by omega⟩
    · exact saved.ebp ▸ .done
    · exact saved.esp ▸ (by omega : m.low place m.pidCour ≤ r.start)
  · refine saved.ss.trans (ss.trans ?_)
    split
    next outer => exact (good.tss (outside.outer.mp outer)).2
    next inner => exact (outside.idle (by by_contra busy; exact inner (outside.outer.mpr busy))).2.2
  · show ((enter m v).record m.pidCour).kind = .device → _
    rw [show (enter m v).record (enter m v).pidCour = r from record]
    rw [record]
    exact saved.device

/-- A C function of the kernel. -/
theorem compute_good (good : Good place m) (mode : m.inKernel = true) (deep : 0 < (m.record m.pidCour).depth) {cpu : Cpu}
    (allowed : Allowed place m (.compute cpu)) : Good place { m with cpu := cpu } := by
  obtain ⟨respects,own,regs,least,most⟩ := allowed
  obtain ⟨level,kept,ss,device⟩ := good.running mode
  obtain ⟨low,high⟩ := Respects.bounds { m with cpu := cpu } respects
  have ebp := regs .ebp (by simp)
  refine good.respect rfl rfl (fun _ _ => rfl) respects (fun _ => ⟨?_,?_,?_,fun kind => ?_⟩)
    (fun user => absurd user (by simp [mode]))
  · rw [high]; exact level
  · obtain ⟨holds,chain,_,_,_,room⟩ := kept.same cpu.mem own
    rw [low]
    refine ⟨holds,?_,least,fun zero => absurd deep (Nat.not_lt_of_ge (Nat.le_of_eq zero)),fun _ => ?_,room⟩
    · exact ebp ▸ chain
    · exact ebp ▸ most
  · exact (regs .ss (by simp)).trans ss
  · exact ⟨(regs .fs (by simp)).trans (device kind).1,(regs .gs (by simp)).trans (device kind).2⟩

/-- A frame more. -/
theorem Kept.push (kept : Kept mem low r ebp sp) (mem' : Nat → Nat) (b s : Nat) (order : b + 8 ≤ sp)
    (exact_ : r.depth = 0 → b + 8 = sp) (saved : mem' b = ebp) (same : ∀ a ∈ words mem r ebp, mem' a = mem a)
    (sp_le : s ≤ b) (low_le : low ≤ s) : Kept mem' low { r with depth := r.depth + 1 } b s := by
  obtain ⟨holds,chain,_,_,_,room⟩ := kept.same mem' same
  refine ⟨holds,?_,low_le,fun zero => absurd zero (by simp),fun _ => sp_le,room⟩
  obtain ⟨kind,depth,entry,top⟩ := r
  cases depth with
  | zero =>
    cases chain with
    | done => exact .first ((exact_ rfl).trans (kept.done rfl)) saved
  | succ depth =>
    have := kept.inside (Nat.succ_pos depth)
    exact .frame chain (by omega) saved

/-- A frame less. -/
theorem Kept.pop (kept : Kept mem low r ebp sp) (deep : 0 < r.depth) :
    Kept mem low { r with depth := r.depth - 1 } (mem ebp) (ebp + 8) := by
  have least := kept.low
  have inside := kept.inside deep
  obtain ⟨kind,depth,entry,top⟩ := r
  obtain ⟨holds,chain,_,_,_,room⟩ := kept
  cases chain with
  | done => exact absurd deep (by simp)
  | first below saved =>
    rw [saved]
    exact ⟨holds,.done,by omega,fun _ => below,fun deep => absurd deep (by simp),room⟩
  | frame rest below saved =>
    rw [saved]
    exact ⟨holds,rest,by omega,fun zero => absurd zero (by simp),fun _ => below,room⟩

/-- A step of the kernel code of the current process, on its own stack. -/
theorem Good.inside (good : Good place m) (mode : m.inKernel = true) {cpu : Cpu} {r : Record}
    (writes : ∀ a, (a < m.low place m.pidCour ∨ m.high place m.pidCour ≤ a) → cpu.mem a = m.cpu.mem a)
    (entered : r.kind = (m.record m.pidCour).kind ∧ r.entry = (m.record m.pidCour).entry ∧ r.top = (m.record m.pidCour).top)
    (kept : Kept cpu.mem (m.low place m.pidCour) r (cpu.reg .ebp) (cpu.reg .esp))
    (regs : ∀ s ∈ [Reg.fs,.gs,.ss], cpu.reg s = m.cpu.reg s) :
    Good place { m.setRecord m.pidCour r with cpu := cpu } := by
  obtain ⟨level,_,ss,device⟩ := good.running mode
  obtain ⟨kind,entry,top⟩ := entered
  have respects := good.local writes
  let m' : Machine := { m.setRecord m.pidCour r with cpu := cpu }
  obtain ⟨low,high⟩ := Respects.bounds m' respects
  have record : m'.record m.pidCour = r := by simp [m',Machine.setRecord]
  refine good.respect rfl rfl (fun p other => by simp [Machine.setRecord,other]) respects (fun _ => ⟨?_,?_,?_,?_⟩)
    (fun user => absurd user (by simp [Machine.setRecord,mode]))
  · show Level place (m'.high place m.pidCour) m.pidCour (m'.record m.pidCour)
    rw [high,record]
    obtain ⟨outer,atTop,boot,fresh⟩ := level
    exact ⟨entry ▸ outer,top ▸ atTop,top ▸ entry ▸ boot,kind ▸ entry ▸ fresh⟩
  · show Kept _ (m'.low place m.pidCour) (m'.record m.pidCour) _ _
    rw [low,record]
    exact kept
  · exact (regs .ss (by simp)).trans ss
  · show (m'.record m.pidCour).kind = .device → cpu.reg .fs = (m'.record m.pidCour).entry .fs ∧
      cpu.reg .gs = (m'.record m.pidCour).entry .gs
    rw [record,kind,entry,regs .fs (by simp),regs .gs (by simp)]
    exact device

theorem Running.top_le (running : Running place m) :
    m.cpu.reg .esp ≤ (m.record m.pidCour).top ∧ (m.record m.pidCour).top ≤ m.high place m.pidCour := by
  have top := running.level.high_le
  rw [high_eq] at top
  have order := running.kept.start_le
  exact ⟨by omega,top⟩

theorem call_good (good : Good place m) (mode : m.inKernel = true) {ret : Nat} (allowed : Allowed place m (.call ret)) :
    Good place (call m ret) := by
  have running := good.running mode
  have bounds := running.top_le
  have kept := running.kept
  have room : m.low place m.pidCour + 8 ≤ m.cpu.reg .esp := allowed
  let c := (m.cpu.push ret).push (m.cpu.reg .ebp)
  have cpu : exec [.push .ebp,.mov .esp .ebp] (m.cpu.push ret) = c.set .ebp (m.cpu.reg .esp - 8) := by
    simp [exec,exec1,Cpu.pushWords,Cpu.push,c,Nat.sub_sub]
  have mem : c.mem = Function.update (Function.update m.cpu.mem (m.cpu.reg .esp - 4) ret) (m.cpu.reg .esp - 8)
      (m.cpu.reg .ebp) := by simp [c,Cpu.push,Nat.sub_sub]
  have writes : ∀ a, (a < m.cpu.reg .esp - 8 ∨ m.cpu.reg .esp ≤ a) → c.mem a = m.cpu.mem a := fun a out => by
    rw [mem,Function.update_of_ne (by omega),Function.update_of_ne (by omega)]
  have esp : c.reg .esp = m.cpu.reg .esp - 8 := by simp [c,Cpu.push,Nat.sub_sub]
  have pushed := kept.push c.mem (m.cpu.reg .esp - 8) (m.cpu.reg .esp - 8) (by omega)
    (fun _ => by omega) (by simp [mem]) (fun a member => writes a (.inr (kept.words_within member).2.1)) (by omega)
    (by omega)
  refine good.inside mode (r := { m.record m.pidCour with depth := (m.record m.pidCour).depth + 1 }) (fun a out => ?_)
    ⟨rfl,rfl,rfl⟩ ?_ (fun s member => ?_)
  · rw [cpu]; exact writes a (by omega)
  · rw [cpu]; simpa [esp] using pushed
  · rw [cpu]
    simp only [List.mem_cons,List.not_mem_nil,or_false] at member
    rcases member with rfl | rfl | rfl <;> simp [c,Cpu.push]

theorem ret_good (good : Good place m) (mode : m.inKernel = true) (deep : 0 < (m.record m.pidCour).depth) :
    Good place (leaveFunction m) := by
  have popped := (good.running mode).kept.pop deep
  refine good.inside mode (r := { m.record m.pidCour with depth := (m.record m.pidCour).depth - 1 }) (fun a _ => ?_)
    ⟨rfl,rfl,rfl⟩ ?_ (fun s member => ?_)
  · simp [exec,exec1]
  · simpa [exec,exec1,Cpu.popInto] using popped
  · simp only [List.mem_cons,List.not_mem_nil,or_false] at member
    rcases member with rfl | rfl | rfl <;> simp [exec,exec1,Cpu.popInto]

/-- A process goes back to user mode, or the kernel to its idle loop. -/
theorem back_restored (good : Good place m) (mode : m.inKernel = true) (done : (m.record m.pidCour).depth = 0) :
    (back m).cpu.mem = m.cpu.mem ∧
      ∀ s ∈ kept (m.record m.pidCour).kind, (back m).cpu.reg s = (m.record m.pidCour).entry s := by
  obtain ⟨level,⟨holds,chain,_,start,_,room⟩,ss,device⟩ := good.running mode
  have ebp : m.cpu.reg .ebp = (m.record m.pidCour).entry .ebp := by
    rw [done] at chain
    generalize m.cpu.reg .ebp = b at chain
    cases chain
    rfl
  refine restore_restored room (start done) holds (fun inner => ?_) ebp device level.fresh
  obtain ⟨top,_,_,segment⟩ := level.boot (by by_contra busy; exact inner (level.outer.mpr busy))
  exact ⟨top,ss.trans segment.symm⟩

theorem kept_always (kind : Kind) : ∀ s ∈ [Reg.cs,.esp,.ss], s ∈ kept kind := by cases kind <;> simp [kept]

theorem back_good (good : Good place m) (mode : m.inKernel = true) (done : (m.record m.pidCour).depth = 0) :
    Good place (back m) := by
  obtain ⟨mem,regs⟩ := back_restored good mode done
  have level := (good.running mode).level
  have found : ∀ s ∈ [Reg.cs,.esp,.ss], (back m).cpu.reg s = (m.record m.pidCour).entry s :=
    fun s member => regs s (kept_always _ s member)
  refine good.respect rfl rfl (fun _ _ => rfl) (good.local (fun a _ => by rw [mem])) (fun kernel => by simp [back] at kernel)
    (fun _ => ⟨?_,fun idle => ?_⟩)
  · rw [found .cs (by simp)]; exact level.outer
  · obtain ⟨top,least,most,ss⟩ := level.boot idle
    rw [found .esp (by simp),found .ss (by simp),← top]
    exact ⟨least,most,ss⟩

/-! ### The switch -/

section Switch
variable {q : Pid} {ret : Nat}

/-- What `context_switch` has done when it calls C functions. -/
structure SwitchedOut (place : Layout) (m : Machine) (q : Pid) (o : Cpu) : Prop where
  esp : o.reg .esp = m.cpu.mem (place.ctx q)
  ss : o.reg .ss = m.cpu.reg .ss
  tss : o.mem ESP0 = m.cpu.mem (place.ctx q + 4) + m.cpu.mem (place.ctx q + 20) ∧ o.mem SS0 = KERNEL_DS
  saved : o.mem (place.ctx m.pidCour) = m.cpu.reg .esp - 20
  frame : o.mem (m.cpu.reg .esp - 20) = m.cpu.reg .esp - 16 ∧ o.mem (m.cpu.reg .esp - 16) = m.cpu.reg .ebp
  others : ∀ a, (a < m.cpu.reg .esp - 20 ∨ m.cpu.reg .esp ≤ a) → a ≠ place.ctx m.pidCour → a ∉ [ESP0,SS0] →
    o.mem a = m.cpu.mem a

theorem switched_out (ret : Nat) (good : Good place m) (mode : m.inKernel = true) (other : q ≠ m.pidCour)
    (room : m.low place m.pidCour + 20 ≤ m.cpu.reg .esp) : SwitchedOut place m q (out place m q ret).cpu := by
  have bounds := (good.running mode).top_le
  have laid := good.laid
  obtain ⟨n,esp⟩ : ∃ n, m.cpu.reg .esp = n + 20 := ⟨m.cpu.reg .esp - 20,by omega⟩
  -- The words that it reads are not among those that it writes.
  have clear : ∀ p, ∀ i ∈ [0,4,20], ∀ k < 20, place.ctx p + i ≠ n + k := by
    intro p i member k below same
    have := laid.outside _ laid.current p i member
    omega
  have clearTss : ∀ a ∈ [ESP0,SS0], ∀ k < 20, a ≠ n + k := by
    intro a member k below same
    have := laid.outsideTss _ laid.current a member
    omega
  have apart : ∀ i ∈ [0,4,20], place.ctx q + i ≠ place.ctx m.pidCour := fun i member same =>
    other (place.apart q m.pidCour i member 0 (by simp) same).1
  let stack : Nat → Nat := Function.update (Function.update (Function.update (Function.update (Function.update
    m.cpu.mem (n + 16) (place.ctx q)) (n + 12) (place.ctx m.pidCour)) (n + 8) ret) (n + 4) (m.cpu.reg .ebp)) n (n + 4)
  let mem := Function.update stack (place.ctx m.pidCour) n
  have reads : ∀ a, (∀ k < 20, a ≠ n + k) → a ≠ place.ctx m.pidCour → mem a = m.cpu.mem a := fun a free notCtx => by
    have zero : a ≠ n := free 0 (by omega)
    simp only [mem,stack]
    rw [Function.update_of_ne notCtx,Function.update_of_ne zero,Function.update_of_ne (free 4 (by omega)),
      Function.update_of_ne (free 8 (by omega)),Function.update_of_ne (free 12 (by omega)),
      Function.update_of_ne (free 16 (by omega))]
  have first : stack (n + 12) = place.ctx m.pidCour := by simp [stack]
  have second : mem (n + 16) = place.ctx q := by
    have other : n + 16 ≠ place.ctx m.pidCour := Ne.symm (clear m.pidCour 0 (by simp) 16 (by omega))
    simp only [mem]
    rw [Function.update_of_ne other]
    simp [stack]
  obtain ⟨c,prologue⟩ : ∃ c, c = exec [.push .ebp,.mov .esp .ebp,.push .ebp]
      (m.cpu.pushWords [place.ctx q,place.ctx m.pidCour,ret]) := ⟨_,rfl⟩
  have pushed : c.mem = stack ∧ c.reg .ebp = n + 4 ∧ c.reg .esp = n ∧ c.reg .ss = m.cpu.reg .ss := by
    simp [prologue,exec,exec1,Cpu.pushWords,Cpu.push,esp,stack]
  have whole : (out place m q ret).cpu = exec (switchOut.drop 3) c := by rw [prologue]; rfl
  obtain ⟨stackIs,ebp,sp,ss⟩ := pushed
  have after : (out place m q ret).cpu.mem = Function.update (Function.update mem ESP0
      (mem (place.ctx q + 4) + mem (place.ctx q + 20))) SS0 KERNEL_DS ∧
      (out place m q ret).cpu.reg .esp = mem (place.ctx q) ∧ (out place m q ret).cpu.reg .ss = m.cpu.reg .ss := by
    rw [whole]
    have memIs : Function.update stack (place.ctx m.pidCour) n = mem := rfl
    simp [switchOut,exec,exec1,stackIs,ebp,sp,ss,first,memIs,second,Nat.add_comm]
  obtain ⟨memory,spAfter,ssAfter⟩ := after
  have kept : ∀ a, a ∉ [ESP0,SS0] → (out place m q ret).cpu.mem a = mem a := fun a notTss => by
    simp only [List.mem_cons,List.not_mem_nil,or_false,not_or] at notTss
    rw [memory,Function.update_of_ne notTss.2,Function.update_of_ne notTss.1]
  have readCtx : ∀ i ∈ [0,4,20], mem (place.ctx q + i) = m.cpu.mem (place.ctx q + i) := fun i member =>
    reads _ (clear q i member) (apart i member)
  have onStack : ∀ k < 20, (out place m q ret).cpu.mem (n + k) = stack (n + k) := fun k below => by
    have notTss : n + k ∉ [ESP0,SS0] := fun member => clearTss _ member k below rfl
    rw [kept _ notTss]
    exact Function.update_of_ne (Ne.symm (clear m.pidCour 0 (by simp) k below)) _ _
  have notTss : place.ctx m.pidCour ∉ [ESP0,SS0] := fun member => by
    have := place.tss m.pidCour 0 (by simp)
    simp_all
  refine ⟨spAfter.trans (readCtx 0 (by simp)),ssAfter,⟨?_,by rw [memory,Function.update_self]⟩,?_,⟨?_,?_⟩,
    fun a out notCtx free => ?_⟩
  · rw [memory,Function.update_of_ne (by decide),Function.update_self,readCtx 4 (by simp),readCtx 20 (by simp)]
  · rw [kept _ notTss,esp]
    simp [mem]
  · rw [esp,Nat.add_sub_cancel]
    exact (onStack 0 (by omega)).trans (by simp [stack])
  · rw [esp]
    exact (onStack 4 (by omega)).trans (by simp [stack])
  · exact (kept a free).trans (reads a (fun k below => by omega) notCtx)

/-- When `context_switch` calls C functions, no process runs. -/
theorem out_parked (good : Good place m) (mode : m.inKernel = true) (deep : 0 < (m.record m.pidCour).depth)
    (kind : (m.record m.pidCour).kind ≠ .device) (room : m.low place m.pidCour + 20 ≤ m.cpu.reg .esp)
    (switched : SwitchedOut place m q (out place m q ret).cpu) :
    (∀ p, m.used p → ∀ i ∈ [4,20], (out place m q ret).cpu.mem (place.ctx p + i) = m.cpu.mem (place.ctx p + i)) ∧
      ∀ p, m.used p → Parked place (out place m q ret) p := by
  have laid := good.laid
  have running := good.running mode
  have bounds := running.top_le
  obtain ⟨esp,_,_,saved,frame,others⟩ := switched
  have descriptors : ∀ p, ∀ i ∈ [0,4,20], place.ctx p + i ≠ place.ctx m.pidCour →
      (out place m q ret).cpu.mem (place.ctx p + i) = m.cpu.mem (place.ctx p + i) := by
    intro p i member notSaved
    have apart := laid.outside _ laid.current p i member
    have notTss := place.tss p i member
    exact others _ (by omega) notSaved (by simp [notTss])
  have upper : ∀ p, ∀ i ∈ [4,20], (out place m q ret).cpu.mem (place.ctx p + i) = m.cpu.mem (place.ctx p + i) := by
    intro p i member
    have all : i ∈ [0,4,20] := List.mem_cons_of_mem _ member
    refine descriptors p i all (fun same => ?_)
    have := (place.apart p m.pidCour i all 0 (by simp) same).2
    subst this
    simp at member
  refine ⟨fun p _ => upper p,fun p used => ?_⟩
  by_cases other : p = m.pidCour
  · subst other
    obtain ⟨low,high⟩ := bounds_same m (out place m q ret) _ (upper m.pidCour)
    have record : (out place m q ret).record m.pidCour =
        { m.record m.pidCour with depth := (m.record m.pidCour).depth + 1 } := by
      simp [out,Machine.deepen,Machine.setRecord]
    have below := running.kept.inside deep
    have fits : m.cpu.reg .esp - 20 + 4 = m.cpu.reg .esp - 16 := by omega
    have pushed := running.kept.push (out place m q ret).cpu.mem (m.cpu.reg .esp - 16) (m.cpu.reg .esp - 20) (by omega)
      (fun zero => absurd deep (by omega)) frame.2 (fun a member => ?_) (by omega)
      (by omega)
    · refine ⟨?_,?_,?_,?_,?_⟩
      · rw [high,record]
        obtain ⟨outer,top,boot,fresh⟩ := running.level
        exact ⟨outer,top,boot,fresh⟩
      · rw [saved,frame.1,fits]
      · rw [record]; exact Nat.succ_pos _
      · rw [record]; exact kind
      · rw [low,record,saved,fits]
        exact pushed
    · have within := running.kept.words_within member
      refine others a (.inr within.2.1) (fun same => ?_) (fun tss => ?_)
      · have := laid.outside _ laid.current m.pidCour 0 (by simp)
        omega
      · have := laid.outsideTss _ laid.current a tss
        omega
  · refine (good.parked p used other).same (by simp [out,Machine.deepen,Machine.setRecord,other]) (fun a member => ?_)
    rcases (good.parked p used other).words_within member with ⟨i,inside,rfl⟩ | within
    · exact descriptors p i inside (fun same => other (place.apart p m.pidCour i inside 0 (by simp) same).1)
    · have disjoint := laid.disjoint p m.pidCour used laid.current other
      refine others a (by omega) (fun same => ?_) (fun tss => ?_)
      · have := laid.outside p used m.pidCour 0 (by simp)
        omega
      · have := laid.outsideTss p used a tss
        omega

theorem switch_good (good : Good place m) (mode : m.inKernel = true) (deep : 0 < (m.record m.pidCour).depth)
    (used : m.used q) (other : q ≠ m.pidCour) {mid : Cpu} (allowed : Allowed place m (.switch q ret mid)) :
    Good place (into (out place m q ret) mid) := by
  obtain ⟨room,kind,esp0,ss0,words,regs⟩ := allowed
  have laid := good.laid
  have switched := switched_out ret good mode other room
  obtain ⟨descriptors,parked⟩ := out_parked good mode deep kind room switched
  let o := out place m q ret
  let m' := into o mid
  have recordQ : m'.record q = { o.record q with depth := (o.record q).depth - 1 } := by
    simp [m',into,Machine.deepen,Machine.setRecord,o,out]
  have memory : m'.cpu.mem = mid.mem := by simp [m',into,switchIn,exec,exec1]
  have upper : ∀ p, m.used p → ∀ i ∈ [4,20], m'.cpu.mem (place.ctx p + i) = m.cpu.mem (place.ctx p + i) := by
    intro p inUse i member
    rw [memory,words p inUse _ (by
      simp only [List.mem_cons,List.not_mem_nil,or_false] at member
      rcases member with rfl | rfl <;> simp [parkedWords]),descriptors p inUse i member]
  have parkedQ := parked q used
  have saved : mid.mem (o.cpu.mem (place.ctx q)) = o.cpu.mem (place.ctx q) + 4 :=
    (words q used _ (by simp [parkedWords,o])).trans parkedQ.saved
  -- The stack pointer is the one that `context_switch` has saved for `q`.
  have atQ : mid.reg .esp = o.cpu.mem (place.ctx q) := by
    have same := switched.others (place.ctx q)
      (by have := laid.outside _ laid.current q 0 (by simp)
          have := (good.running mode).top_le
          omega)
      (fun same => other (place.apart q m.pidCour 0 (by simp) 0 (by simp) same).1)
      (by have := place.tss q 0 (by simp); simpa using this)
    rw [regs .esp (by simp),switched.esp]
    exact same.symm
  have cpu : m'.cpu.reg .ebp = mid.mem (o.cpu.mem (place.ctx q) + 4) ∧
      m'.cpu.reg .esp = o.cpu.mem (place.ctx q) + 4 + 8 ∧ m'.cpu.reg .ss = mid.reg .ss := by
    simp [m',into,switchIn,exec,exec1,Cpu.popInto,atQ,saved]
  obtain ⟨low,high⟩ := bounds_same o m' q (fun i member => by
    rw [upper q used i member]; exact (descriptors q used i member).symm)
  refine ⟨laid.same rfl used upper,fun busy => ?_,fun p inUse notQ => ?_,fun _ => ⟨?_,?_,?_,fun device => ?_⟩,
    fun user => ?_⟩
  · show m'.cpu.mem ESP0 = m'.high place q ∧ _
    rw [memory,esp0,ss0,switched.tss.1,switched.tss.2,(bounds_same m m' _ (upper q used)).2]
    exact ⟨(if_neg busy).symm,rfl⟩
  · have record : m'.record p = o.record p := by
      simp [m',into,Machine.deepen,Machine.setRecord,o,out,show p ≠ q from notQ]
    exact (parked p inUse).same record (fun a member => by rw [memory]; exact words p inUse a member)
  · show Level place (m'.high place q) q (m'.record q)
    rw [high,recordQ]
    obtain ⟨outer,top,boot,fresh⟩ := parkedQ.level
    exact ⟨outer,top,boot,fresh⟩
  · show Kept m'.cpu.mem (m'.low place q) (m'.record q) (m'.cpu.reg .ebp) (m'.cpu.reg .esp)
    rw [low,recordQ,memory,cpu.1,cpu.2.1]
    have kept := parkedQ.kept.same mid.mem (fun a member => words q used a (List.mem_append_right _ member))
    exact kept.pop parkedQ.deep
  · rw [cpu.2.2,regs .ss (by simp),switched.ss]
    exact (good.running mode).ss
  · rw [show (into (out place m q ret) mid).record (into (out place m q ret) mid).pidCour =
      { o.record q with depth := (o.record q).depth - 1 } from recordQ] at device
    exact absurd device parkedQ.device
  · exact absurd user (by simp [into,out,Machine.deepen,Machine.setRecord,mode])

end Switch

theorem free_good (good : Good place m) {q : Pid} (busy : q ≠ 0) (other : q ≠ m.pidCour) :
    Good place { m with used := Function.update m.used q false } := by
  have fewer : ∀ p, Function.update m.used q false p = true → m.used p := fun p used => by
    by_cases same : p = q <;> simp_all
  obtain ⟨⟨current,kernel,sized,user,outside,outsideTss,disjoint⟩,tss,parked,running,outer⟩ := good
  refine ⟨⟨?_,?_,fun p used => sized p (fewer p used),fun p used => user p (fewer p used),
    fun p used => outside p (fewer p used),fun p used => outsideTss p (fewer p used),
    fun p q' used used' => disjoint p q' (fewer p used) (fewer q' used')⟩,tss,fun p used notCur => ?_,?_,?_⟩
  · simpa [other.symm] using current
  · simpa [busy.symm] using kernel
  · obtain ⟨level,saved,deep,device,kept⟩ := parked p (fewer p used) notCur
    exact ⟨level,saved,deep,device,kept⟩
  · intro mode
    obtain ⟨level,kept,ss,device⟩ := running mode
    exact ⟨level,kept,ss,device⟩
  · intro mode
    obtain ⟨level,idle⟩ := outer mode
    exact ⟨level,idle⟩

section Create
variable {q : Pid} {stack userStack f iretAt : Nat}

/-- The stack of a new process is ready for `context_switch`. -/
theorem create_memory (m : Machine) (userStack f iretAt : Nat)
    (apart : ∀ i ∈ [0,4,20], place.ctx q + i < stack ∨ stack + KERNEL_STACK_SIZE ≤ place.ctx q + i) :
    let mem := (create place m q stack userStack f iretAt).cpu.mem
    let top := stack + KERNEL_STACK_SIZE
    (∀ a, (a < stack ∨ top ≤ a) → (∀ i ∈ [0,4,20], a ≠ place.ctx q + i) → mem a = m.cpu.mem a) ∧
      Holds mem (top - 20) (interrupted (initial f userStack (m.cpu.mem (top - 28)))) ∧
      mem (top - 28) = m.cpu.mem (top - 28) ∧ mem (top - 32) = top - 28 ∧ mem (place.ctx q) = top - 32 ∧
      mem (place.ctx q + 4) = stack ∧ mem (place.ctx q + 20) = KERNEL_STACK_SIZE := by
  have free : ∀ i ∈ [0,4,20], ∀ k < 40000, ¬ stack + k = place.ctx q + i := fun i member k below => by
    have := apart i member
    simp only [KERNEL_STACK_SIZE] at this
    omega
  have zero := free 0 (by simp)
  have four := free 4 (by simp)
  have twenty := free 20 (by simp)
  simp only [Nat.add_zero] at zero
  refine ⟨fun a out notCtx => ?_,?_,?_,?_,?_,?_,?_⟩
  · have notZero := notCtx 0 (by simp)
    have notFour := notCtx 4 (by simp)
    have notTwenty := notCtx 20 (by simp)
    simp only [KERNEL_STACK_SIZE] at out
    have clear : ∀ k < 40000, ¬ a = stack + k := fun k below => by omega
    simp_all [create,KERNEL_STACK_SIZE]
  · simp [create,KERNEL_STACK_SIZE,interrupted,initial,Outer,USER_CS,Holds,Nat.add_assoc,zero,four,twenty]
  · simp [create,KERNEL_STACK_SIZE,zero,four,twenty]
  · simp [create,KERNEL_STACK_SIZE,zero,four,twenty]
  · simp [create,KERNEL_STACK_SIZE]
  · simp [create,KERNEL_STACK_SIZE]
  · simp [create,KERNEL_STACK_SIZE]

/-- What the kernel relies on is not where a new stack is made. -/
theorem create_respects (good : Good place m) (unused : m.used q = false)
    (allowed : Allowed place m (.create q stack userStack f iretAt)) :
    ∀ p, m.used p → ∀ a, ((∃ i ∈ [0,4,20], a = place.ctx p + i) ∨ a ∈ [ESP0,SS0] ∨ m.low place p ≤ a ∧ a < m.high place p) →
      (create place m q stack userStack f iretAt).cpu.mem a = m.cpu.mem a := by
  obtain ⟨_,_,_,apart,outside,outsideTss⟩ := allowed
  intro p used a place_
  have notQ : p ≠ q := fun same => by rw [same,unused] at used; simp at used
  refine (create_memory m userStack f iretAt (outside q)).1 a ?_ ?_
  · rcases place_ with ⟨i,member,rfl⟩ | tss | within
    · exact outside p i member
    · exact outsideTss a tss
    · have := apart p used
      omega
  · intro i member same
    rcases place_ with ⟨j,member',rfl⟩ | tss | within
    · exact notQ (place.apart p q j member' i member same).1
    · have := place.tss q i member
      simp only [List.mem_cons,List.not_mem_nil,or_false] at tss
      omega
    · have := good.laid.outside p used q i member
      omega

theorem create_good (good : Good place m) (unused : m.used q = false)
    (allowed : Allowed place m (.create q stack userStack f iretAt)) :
    Good place (create place m q stack userStack f iretAt) := by
  have respects := create_respects good unused allowed
  obtain ⟨idle,busy,user,apart,outside,outsideTss⟩ := allowed
  have laid := good.laid
  let m' := create place m q stack userStack f iretAt
  obtain ⟨_,holds,below,ebp,ctx,stackAt,size⟩ := create_memory m userStack f iretAt (outside q)
  have other : q ≠ m.pidCour := fun same => by
    have current := laid.current
    rw [← same,unused] at current
    simp at current
  have before : ∀ p, m'.used p → p ≠ q → m.used p := fun p used notQ => by
    simpa [m',create,Machine.setRecord,notQ] using used
  have reg : m'.cpu.reg = m.cpu.reg := rfl
  have records : ∀ p, p ≠ q → m'.record p = m.record p := fun p notQ => by
    simp [m',create,Machine.setRecord,notQ]
  have bounds : ∀ p, m.used p → m'.low place p = m.low place p ∧ m'.high place p = m.high place p := fun p used =>
    bounds_same m m' p (fun i member => respects p used _ (.inl ⟨i,List.mem_cons_of_mem _ member,rfl⟩))
  have lowQ : m'.low place q = stack := (if_neg busy).trans stackAt
  have highQ : m'.high place q = stack + KERNEL_STACK_SIZE := (if_neg busy).trans (by rw [stackAt,size])
  refine ⟨⟨?_,?_,fun p used notZero => ?_,fun p used => ?_,fun p used => ?_,fun p used => ?_,fun p p' used used' differ => ?_⟩,
    fun running => ?_,fun p used notCur => ?_,fun kernel => ?_,fun mode => ?_⟩
  · simpa [create,Machine.setRecord,other.symm] using laid.current
  · simpa [create,Machine.setRecord,Ne.symm busy] using laid.kernel
  · by_cases same : p = q
    · rw [same]; exact size
    · have old := before p used same
      exact (respects p old _ (.inl ⟨20,by simp,rfl⟩)).trans (laid.sized p old notZero)
  · by_cases same : p = q
    · rw [same,highQ]; exact user
    · have old := before p used same
      rw [(bounds p old).2]; exact laid.user p old
  · by_cases same : p = q
    · rw [same,highQ,lowQ]; exact outside
    · have old := before p used same
      rw [(bounds p old).1,(bounds p old).2]; exact laid.outside p old
  · by_cases same : p = q
    · rw [same,highQ,lowQ]; exact outsideTss
    · have old := before p used same
      rw [(bounds p old).1,(bounds p old).2]; exact laid.outsideTss p old
  · by_cases same : p = q
    · have old := before p' used' (fun same' => differ (same.trans same'.symm))
      rw [same,highQ,lowQ,(bounds p' old).1,(bounds p' old).2]
      exact apart p' old
    · have old := before p used same
      rw [(bounds p old).1,(bounds p old).2]
      by_cases same' : p' = q
      · rw [same',highQ,lowQ]
        exact (apart p old).symm
      · have old' := before p' used' same'
        rw [(bounds p' old').1,(bounds p' old').2]
        exact laid.disjoint p p' old old' differ
  · have current := laid.current
    show m'.cpu.mem ESP0 = m'.high place m.pidCour ∧ m'.cpu.mem SS0 = KERNEL_DS
    rw [(bounds _ current).2,respects _ current _ (.inr (.inl (by simp))),respects _ current _ (.inr (.inl (by simp)))]
    exact good.tss running
  · by_cases same : p = q
    · subst same
      have record : m'.record p = ⟨.fresh,1,initial f userStack (m.cpu.mem (stack + KERNEL_STACK_SIZE - 28)),
          stack + KERNEL_STACK_SIZE⟩ := by simp [m',create,Machine.setRecord]
      have atEbp : m'.cpu.mem (place.ctx p) + 4 = stack + KERNEL_STACK_SIZE - 28 := by
        rw [ctx]; simp only [KERNEL_STACK_SIZE]; omega
      have deep : 0 < (m'.record p).depth := by rw [record]; exact Nat.one_pos
      have kind : (m'.record p).kind ≠ .device := by rw [record]; simp
      refine ⟨?_,?_,deep,kind,?_⟩
      · rw [highQ,record]
        exact ⟨by simp [initial,Outer,USER_CS,busy],fun _ => rfl,fun zero => absurd zero busy,
          fun _ s member => by
            simp only [List.mem_cons,List.not_mem_nil,or_false] at member
            rcases member with rfl | rfl | rfl | rfl <;> rfl⟩
      · rw [atEbp,ctx]
        exact ebp
      · rw [lowQ,record,atEbp,ctx]
        have length : (interrupted (initial f userStack (m.cpu.mem (stack + KERNEL_STACK_SIZE - 28)))).length = 5 := by
          simp [interrupted,initial,Outer,USER_CS]
        have base : (⟨.fresh,1,initial f userStack (m.cpu.mem (stack + KERNEL_STACK_SIZE - 28)),
            stack + KERNEL_STACK_SIZE⟩ : Record).base = stack + KERNEL_STACK_SIZE - 20 := by
          simp only [Record.base,Record.image,List.nil_append,length]
        refine ⟨by rw [base]; exact holds,?_,?_,fun zero => absurd zero (by simp),fun _ => ?_,?_⟩
        · refine .first ?_ below
          simp only [Record.start,Record.base,Record.gap,Record.image,interrupted,initial,Outer,USER_CS,KERNEL_STACK_SIZE]
          simp
        · simp only [KERNEL_STACK_SIZE]; omega
        · simp only [KERNEL_STACK_SIZE]; omega
        · simp [Record.gap,Record.image,interrupted,initial,Outer,USER_CS,KERNEL_STACK_SIZE]
    · have old := before p used same
      have parked := good.parked p old notCur
      exact parked.same (records p same) (fun a member => respects p old a (by
        rcases parked.words_within member with ctx | within
        · exact .inl ctx
        · exact .inr (.inr within)))
  · have current := laid.current
    obtain ⟨level,kept,ss,device⟩ := good.running kernel
    have record := records m.pidCour other.symm
    have top := level.high_le
    rw [high_eq] at top
    refine ⟨?_,?_,ss,?_⟩
    · show Level place (m'.high place m.pidCour) m.pidCour (m'.record m.pidCour)
      rw [(bounds _ current).2,record]; exact level
    · show Kept m'.cpu.mem (m'.low place m.pidCour) (m'.record m.pidCour) _ _
      rw [(bounds _ current).1,record]
      refine kept.same _ (fun a member => respects _ current a (.inr (.inr ?_)))
      have within := kept.words_within member
      omega
    · show (m'.record m.pidCour).kind = .device → m.cpu.reg .fs = (m'.record m.pidCour).entry .fs ∧
        m.cpu.reg .gs = (m'.record m.pidCour).entry .gs
      rw [record]; exact device
  · obtain ⟨level,rest⟩ := good.outside mode
    exact ⟨level,rest⟩

end Create

/-! ### Runs -/

theorem boot_good (boot : Boot place m) : Good place m := by
  obtain ⟨⟨zero,user⟩,alone,level,stack⟩ := boot
  have low : m.low place 0 = place.bootLow := if_pos rfl
  have high : m.high place 0 = place.bootTop := if_pos rfl
  have only : ∀ p, m.used p → p = 0 := fun p => (alone p).mp
  refine ⟨⟨(alone _).mpr zero,(alone _).mpr rfl,fun p used other => absurd (only p used) other,fun p used => ?_,
    fun p used => ?_,fun p used => ?_,fun p q used used' other => absurd ((only p used).trans (only q used').symm) other⟩,
    fun busy => absurd zero busy,fun p used other => absurd ((only p used).trans zero.symm) other,
    fun kernel => by simp [user] at kernel,fun _ => ⟨?_,fun _ => ⟨stack.1,stack.2,level.2⟩⟩⟩
  · rw [only p used,high]; exact place.boot.1
  · rw [only p used,high,low]; exact place.outside
  · rw [only p used,high,low]; exact place.outsideTss
  · exact ⟨fun outer => absurd outer level.1,fun busy => absurd zero busy⟩

theorem step_good (good : Good place m) {e : Event} (allowed : Allowed place m e) (stepped : step place m e = some m') :
    Good place m' := by
  cases e with
  | user cpu =>
    simp only [step,Option.ite_none_left_eq_some,Bool.not_eq_true,Option.some.injEq] at stepped
    exact stepped.2 ▸ user_good good stepped.1 allowed
  | interrupt v =>
    simp only [step,Option.ite_none_left_eq_some,Bool.not_eq_true,Option.some.injEq] at stepped
    exact stepped.2 ▸ interrupt_good good stepped.1 v
  | compute cpu =>
    simp only [step,Option.ite_none_right_eq_some,Option.some.injEq] at stepped
    exact stepped.2 ▸ compute_good good stepped.1.1 stepped.1.2 allowed
  | call ret =>
    simp only [step,Option.ite_none_right_eq_some,Option.some.injEq] at stepped
    exact stepped.2 ▸ call_good good stepped.1 allowed
  | ret =>
    simp only [step,Option.ite_none_right_eq_some,Option.some.injEq] at stepped
    exact stepped.2 ▸ ret_good good stepped.1.1 stepped.1.2
  | switch q ret mid =>
    simp only [step,Option.ite_none_right_eq_some,Option.some.injEq] at stepped
    obtain ⟨⟨mode,deep,used,other⟩,rfl⟩ := stepped
    exact switch_good good mode deep used other allowed
  | back =>
    simp only [step,Option.ite_none_right_eq_some,Option.some.injEq] at stepped
    exact stepped.2 ▸ back_good good stepped.1.1 stepped.1.2
  | create q stack userStack f iretAt =>
    simp only [step,Option.ite_none_left_eq_some,Bool.not_eq_true,Option.some.injEq] at stepped
    exact stepped.2 ▸ create_good good stepped.1 allowed
  | free q =>
    simp only [step,Option.ite_none_left_eq_some,not_or,Option.some.injEq] at stepped
    exact stepped.2 ▸ free_good good stepped.1.1 stepped.1.2

theorem reach_good (reached : Reach place m) : Good place m :=
  reached.invariant (fun _ => boot_good) (fun _ _ _ good allowed stepped => step_good good allowed stepped)

/-- The steps that leave a process in the kernel. -/
def Stays (p : Pid) (m : Machine) : Event → Prop
  | .back => m.pidCour ≠ p
  | .free q => q ≠ p
  | _ => True

/-- What a process left behind when it entered the kernel. -/
structure Inside (p : Pid) (kind : Kind) (entry : Reg → Nat) (m : Machine) : Prop where
  used : m.used p
  busy : m.pidCour = p → m.inKernel = true
  kind : (m.record p).kind = kind
  entry : (m.record p).entry = entry

theorem Inside.deepen {kind : Kind} {entry : Reg → Nat} (inside : Inside p kind entry m) (q : Pid) (depth : Nat) :
    ((m.deepen q depth).record p).kind = kind ∧ ((m.deepen q depth).record p).entry = entry := by
  by_cases same : p = q
  · subst same; simpa [Machine.deepen,Machine.setRecord] using ⟨inside.kind,inside.entry⟩
  · simpa [Machine.deepen,Machine.setRecord,same] using ⟨inside.kind,inside.entry⟩

theorem step_inside {kind : Kind} {entry : Reg → Nat} (inside : Inside p kind entry m) {e : Event} (stays : Stays p m e)
    (stepped : step place m e = some m') : Inside p kind entry m' := by
  have deepen := inside.deepen
  obtain ⟨used,busy,sameKind,sameEntry⟩ := inside
  cases e with
  | user cpu =>
    simp only [step,Option.ite_none_left_eq_some,Option.some.injEq] at stepped
    exact stepped.2 ▸ ⟨used,busy,sameKind,sameEntry⟩
  | interrupt v =>
    simp only [step,Option.ite_none_left_eq_some,Option.some.injEq] at stepped
    have other : p ≠ m.pidCour := fun same => stepped.1 (busy same.symm)
    refine stepped.2 ▸ ⟨used,fun _ => rfl,?_,?_⟩ <;> simpa [enter,Machine.setRecord,other]
  | compute cpu =>
    simp only [step,Option.ite_none_right_eq_some,Option.some.injEq] at stepped
    exact stepped.2 ▸ ⟨used,busy,sameKind,sameEntry⟩
  | call ret =>
    simp only [step,Option.ite_none_right_eq_some,Option.some.injEq] at stepped
    exact stepped.2 ▸ ⟨used,fun _ => stepped.1,(deepen _ _).1,(deepen _ _).2⟩
  | ret =>
    simp only [step,Option.ite_none_right_eq_some,Option.some.injEq] at stepped
    exact stepped.2 ▸ ⟨used,fun _ => stepped.1.1,(deepen _ _).1,(deepen _ _).2⟩
  | switch q ret mid =>
    simp only [step,Option.ite_none_right_eq_some,Option.some.injEq] at stepped
    obtain ⟨⟨mode,_⟩,rfl⟩ := stepped
    have middle := deepen m.pidCour ((m.record m.pidCour).depth + 1)
    have parked : Inside p kind entry (out place m q ret) := ⟨used,fun _ => mode,middle.1,middle.2⟩
    exact ⟨used,fun _ => mode,(parked.deepen _ _).1,(parked.deepen _ _).2⟩
  | back =>
    simp only [step,Option.ite_none_right_eq_some,Option.some.injEq] at stepped
    exact stepped.2 ▸ ⟨used,fun same => absurd same stays,sameKind,sameEntry⟩
  | create q stack userStack f iretAt =>
    simp only [step,Option.ite_none_left_eq_some,Bool.not_eq_true,Option.some.injEq] at stepped
    have other : p ≠ q := fun same => by rw [same,stepped.1] at used; simp at used
    refine stepped.2 ▸ ⟨?_,busy,?_,?_⟩ <;> simpa [create,Machine.setRecord,other]
  | free q =>
    simp only [step,Option.ite_none_left_eq_some,Option.some.injEq] at stepped
    have other : p ≠ q := Ne.symm stays
    exact stepped.2 ▸ ⟨by simpa [other] using used,busy,sameKind,sameEntry⟩

theorem inside_restored {kind : Kind} {entry : Reg → Nat} (good : Good place m) (inside : Inside m.pidCour kind entry m)
    (stepped : step place m .back = some m') : ∀ s ∈ kept kind, m'.cpu.reg s = entry s := by
  simp only [step,Option.ite_none_right_eq_some,Option.some.injEq] at stepped
  obtain ⟨⟨mode,done⟩,rfl⟩ := stepped
  have restored := (back_restored good mode done).2
  rw [inside.kind,inside.entry] at restored
  exact restored

/-- A process comes back from the kernel. -/
theorem leads_restored {m₁ m₂ m₃ : Machine} {kind : Kind} {entry : Reg → Nat} (reached : Reach place m₁)
    (first : Inside p kind entry m₁)
    (between : Runs.Leads (step place) (fun m e => Allowed place m e ∧ Stays p m e) m₁ m₂) (current : m₂.pidCour = p)
    (left : step place m₂ .back = some m₃) : ∀ s ∈ kept kind, m₃.cpu.reg s = entry s := by
  have last : Inside p kind entry m₂ :=
    between.invariant first (fun _ _ _ inside allowed stepped => step_inside inside allowed.2 stepped)
  exact inside_restored (reach_good (reached.leads (between.weaken (fun _ _ both => both.1)))) (current ▸ last) left

theorem interrupt_inside {v : Vector} (good : Good place m) (entered : step place m (.interrupt v) = some m') :
    Inside m.pidCour (v.kind (m.cpu.reg .eax)) m.cpu.reg m' := by
  simp only [step,Option.ite_none_left_eq_some,Option.some.injEq] at entered
  refine entered.2 ▸ ⟨good.laid.current,fun _ => rfl,?_,?_⟩ <;> simp [enter,Machine.setRecord]

/-! ### A run with one process -/

/-- Descriptors and a stack for the idle loop. -/
def somewhere : Layout where
  ctx p := 0x300000 + 1000 * p.val
  bootLow := 0x90000
  bootTop := 0xA0000
  apart p q i inside j inside' same := by
    simp only [List.mem_cons,List.not_mem_nil,or_false] at inside inside'
    have equal : p.val = q.val := by omega
    exact ⟨Fin.ext equal,by omega⟩
  tss p i inside := by simp only [ESP0,SS0]; omega
  user p := by simp only [USER_SPACE]; omega
  boot := by decide
  outside p i inside := by omega
  outsideTss := by decide

/-- The kernel in its idle loop. -/
def booted : Machine where
  cpu := ⟨fun | .esp => 0x9F000 | .cs => 0x10 | .ss => KERNEL_DS | .edi => 7 | _ => 0,fun _ => 0⟩
  pidCour := 0
  inKernel := false
  used p := p = 0
  record _ := ⟨.fresh,0,fun _ => 0,0⟩

section
variable {m : Machine} (mode : m.inKernel = true)
include mode

theorem step_ret (deep : 0 < (m.record m.pidCour).depth) : step somewhere m .ret = some (leaveFunction m) :=
  if_pos ⟨mode,deep⟩
theorem step_switch {q : Pid} {ret : Nat} {mid : Cpu} (deep : 0 < (m.record m.pidCour).depth) (used : m.used q)
    (other : q ≠ m.pidCour) : step somewhere m (.switch q ret mid) = some (into (out somewhere m q ret) mid) :=
  if_pos ⟨mode,deep,used,other⟩
theorem step_back (done : (m.record m.pidCour).depth = 0) : step somewhere m .back = some (back m) := if_pos ⟨mode,done⟩

end

theorem booted_boot : Boot somewhere booted := ⟨⟨rfl,rfl⟩,fun p => by simp [booted],by decide,by decide⟩

/-- The kernel makes a process and switches to it at the next interrupt of the
    clock. -/
def made : Machine := create somewhere booted 1 0x500000 0x1100000 0x1000400 0x100000
def ticked : Machine := call (enter made .int32) 0
def switched : Machine := into (out somewhere ticked 1 0) (out somewhere ticked 1 0).cpu

theorem made_allowed : Allowed somewhere booted (.create 1 0x500000 0x1100000 0x1000400 0x100000) := by
  refine ⟨fun _ => rfl,by decide,by decide,fun p used => ?_,fun p i inside => ?_,by decide⟩
  · obtain rfl : p = 0 := by simpa [booted] using used
    exact .inr (by decide)
  · simp only [somewhere,KERNEL_STACK_SIZE]
    simp only [List.mem_cons,List.not_mem_nil,or_false] at inside
    omega

/-- The C function of a gate switches to another process. -/
theorem gate_switches {p q : Pid} {v : Vector} {m : Machine}
    (first : (enter m v).low somewhere m.pidCour + 8 ≤ (enter m v).cpu.reg .esp)
    (room : (call (enter m v) 0).low somewhere m.pidCour + 20 ≤ (call (enter m v) 0).cpu.reg .esp)
    (kind : v.kind (m.cpu.reg .eax) ≠ .device) (used : m.used q) (other : q ≠ m.pidCour) :
    Runs.Leads (step somewhere) (fun m e => Allowed somewhere m e ∧ Stays p m e) (enter m v)
      (into (out somewhere (call (enter m v) 0) q 0) (out somewhere (call (enter m v) 0) q 0).cpu) := by
  have called : Runs.Leads (step somewhere) (fun m e => Allowed somewhere m e ∧ Stays p m e) (enter m v)
      (call (enter m v) 0) := .next .refl (e := .call 0) ⟨first,trivial⟩ rfl
  have switches : Allowed somewhere (call (enter m v) 0) (.switch q 0 (out somewhere (call (enter m v) 0) q 0).cpu) :=
    ⟨room,by simpa [call,enter,Machine.deepen,Machine.setRecord] using kind,rfl,rfl,fun _ _ _ _ => rfl,fun _ _ => rfl⟩
  exact .next called (e := .switch q 0 _) ⟨switches,trivial⟩
    (step_switch rfl (by simp [call,enter,Machine.deepen,Machine.setRecord]) used other)

theorem made_switched : Runs.Leads (step somewhere) (fun m e => Allowed somewhere m e ∧ Stays 1 m e) made switched := by
  have entered : Runs.Leads (step somewhere) (fun m e => Allowed somewhere m e ∧ Stays 1 m e) made (enter made .int32) :=
    .next .refl (e := .interrupt .int32) ⟨by simp [Allowed],trivial⟩ rfl
  exact entered.trans (gate_switches (by decide +kernel) (by decide +kernel) (by decide +kernel) (by decide) (by decide))

theorem switched_reach : Reach somewhere switched :=
  (Runs.Reach.next (.start booted_boot) made_allowed (rfl : step somewhere booted _ = some made)).leads
    (made_switched.weaken (fun _ _ both => both.1))

/-- Process 1 runs and writes to a register, until the next interrupt of the
    clock gives the processor back to the idle loop. -/
def running : Machine := back switched
def counting : Machine :=
  { running with cpu := { running.cpu with reg := Function.update running.cpu.reg .edi 9 } }
def stopped : Machine := call (enter counting .int32) 0
def returned : Machine := into (out somewhere stopped 0 0) (out somewhere stopped 0 0).cpu

theorem made_returned : Runs.Leads (step somewhere) (fun m e => Allowed somewhere m e ∧ Stays 0 m e)
    (enter made .int32) (leaveFunction returned) := by
  let Meanwhile := Runs.Leads (step somewhere) (fun m e => Allowed somewhere m e ∧ Stays 0 m e) (enter made .int32)
  have away : Meanwhile switched :=
    gate_switches (by decide +kernel) (by decide +kernel) (by decide +kernel) (by decide) (by decide)
  have runs : Meanwhile running := .next away (e := .back) ⟨trivial,by show _ ≠ _; decide +kernel⟩
    (step_back (by decide +kernel) (by decide +kernel))
  have writes : Allowed somewhere running (.user counting.cpu) :=
    ⟨fun _ _ => rfl,by decide +kernel,fun idle => absurd idle (by decide +kernel)⟩
  have counts : Meanwhile counting := .next runs (e := .user counting.cpu) ⟨writes,trivial⟩ rfl
  have entered : Meanwhile (enter counting .int32) :=
    .next counts (e := .interrupt .int32) ⟨by simp [Allowed],trivial⟩ rfl
  have home : Meanwhile returned := entered.trans
    (gate_switches (by decide +kernel) (by decide +kernel) (by decide +kernel) (by decide +kernel) (by decide +kernel))
  exact .next home (e := .ret) ⟨trivial,trivial⟩
    (step_ret (by decide +kernel) (by decide +kernel))

/-! ### What processes find when they come back -/

/-- A process that an interrupt or a system call takes into the kernel comes
    back with the registers that it had there, whatever the other processes and
    the kernel do in between of what they may do: with all of them after an
    interrupt, and with the frame pointer, the stack pointer, the segments and
    the program counter after a system call. -/
theorem registers_kept {m₀ m₁ m₂ m₃ : Machine} {v : Vector} (reached : Reach place m₀)
    (allowed : Allowed place m₀ (.interrupt v)) (entered : step place m₀ (.interrupt v) = some m₁)
    (between : Runs.Leads (step place) (fun m e => Allowed place m e ∧ Stays m₀.pidCour m e) m₁ m₂)
    (current : m₂.pidCour = m₀.pidCour) (left : step place m₂ .back = some m₃) :
    ∀ s ∈ kept (v.kind (m₀.cpu.reg .eax)), m₃.cpu.reg s = m₀.cpu.reg s :=
  leads_restored (reached.next allowed entered) (interrupt_inside (reach_good reached) entered) between current left

/-- The idle loop has its registers again after process 1 has run with others. -/
theorem registers_kept_idle : counting.pidCour = 1 ∧ counting.cpu.reg .edi = 9 ∧ ∃ m : Machine, m.cpu.reg .edi = 7 ∧
    m.pidCour = 0 ∧ m.inKernel = false ∧ ∀ s ∈ kept (Vector.int32.kind 0), m.cpu.reg s = made.cpu.reg s := by
  have reached : Reach somewhere made :=
    Runs.Reach.next (.start booted_boot) made_allowed (rfl : step somewhere booted _ = some made)
  have left : step somewhere (leaveFunction returned) .back = some (back (leaveFunction returned)) :=
    step_back (by decide +kernel) (by decide +kernel)
  have restored := registers_kept (v := .int32) reached (by simp [Allowed]) rfl made_returned rfl left
  exact ⟨rfl,by decide +kernel,_,restored .edi (by decide),rfl,rfl,restored⟩

/-! ### The functions of `syscalls.S` -/

/-- The arguments of the call go into registers. -/
def loads (args : Nat) : List Instr :=
  ([.load 8 .ebp .ebx,.load 12 .ebp .ecx,.load 16 .ebp .edx,.load 20 .ebp .esi,.load 24 .ebp .edi] : List Instr).take args

/-- A function of the library for users, up to `int $49`. -/
def stub (code args : Nat) : List Instr :=
  [.push .ebp,.mov .esp .ebp,.push .ebx,.push .ecx,.push .edx,.push .esi,.push .edi,.movImm code .eax] ++ loads args

/-- And after it. -/
def stubEnd : List Instr := [.pop .edi,.pop .esi,.pop .edx,.pop .ecx,.pop .ebx,.leave,.ret]

/-- The arguments of a system call, as the C function of the user got them. -/
def argument (i : Nat) : Reg := ([.ebx,.ecx,.edx,.esi,.edi] : List Reg).getD i .eax

/-- The stack of the user at `int $49`. -/
structure Called (code args : Nat) (c d : Cpu) : Prop where
  number : d.reg .eax = code
  arguments : ∀ i < args, d.reg (argument i) = c.mem (c.reg .esp + 4 + 4 * i)
  esp : d.reg .esp + 24 = c.reg .esp
  ebp : d.reg .ebp + 4 = c.reg .esp
  saved : Holds d.mem (d.reg .esp) (([.edi,.esi,.edx,.ecx,.ebx,.ebp] : List Reg).map c.reg ++ [c.mem (c.reg .esp)])
  segments : ∀ s ∈ [Reg.ds,.es,.fs,.gs], d.reg s = c.reg s
  others : d.reg .cs = c.reg .cs ∧ ∀ a < d.reg .esp, d.mem a = c.mem a

theorem loads_exec {d : Cpu} {args : Nat} (few : args ≤ 5) :
    (exec (loads args) d).mem = d.mem ∧
      (∀ s ∈ [Reg.eax,.esp,.ebp,.ds,.es,.fs,.gs,.cs], (exec (loads args) d).reg s = d.reg s) ∧
      ∀ i < args, (exec (loads args) d).reg (argument i) = d.mem (d.reg .ebp + 8 + 4 * i) := by
  refine ⟨?_,?_,fun i inside => ?_⟩
  · interval_cases args <;> simp [loads,exec,exec1]
  · interval_cases args <;> simp [loads,exec,exec1]
  · interval_cases args <;> interval_cases i <;> simp [loads,exec,exec1,argument]

theorem stub_called (code : Nat) {args : Nat} {c : Cpu} (few : args ≤ 5) (room : 24 ≤ c.reg .esp) :
    Called code args c (exec (stub code args) c) := by
  obtain ⟨n,esp⟩ : ∃ n, c.reg .esp = n + 24 := ⟨c.reg .esp - 24,by omega⟩
  obtain ⟨d,pushed⟩ : ∃ d, d = exec ((stub code 0).take 8) c := ⟨_,rfl⟩
  have whole : exec (stub code args) c = exec (loads args) d := by
    rw [pushed,← exec_append]; rfl
  have after : d.reg .eax = code ∧ d.reg .esp = n ∧ d.reg .ebp = n + 20 ∧
      (∀ s ∈ [Reg.ds,.es,.fs,.gs,.cs], d.reg s = c.reg s) ∧ d.mem = Function.update (Function.update (Function.update
        (Function.update (Function.update (Function.update c.mem (n + 20) (c.reg .ebp)) (n + 16) (c.reg .ebx)) (n + 12)
        (c.reg .ecx)) (n + 8) (c.reg .edx)) (n + 4) (c.reg .esi)) n (c.reg .edi) := by
    simp [pushed,stub,exec,exec1,Cpu.pushWords,Cpu.push,esp]
  obtain ⟨eax,sp,ebp,segments,mem⟩ := after
  have above : ∀ a, n + 24 ≤ a → d.mem a = c.mem a := fun a high => by
    rw [mem,Function.update_of_ne (by omega),Function.update_of_ne (by omega),Function.update_of_ne (by omega),
      Function.update_of_ne (by omega),Function.update_of_ne (by omega),Function.update_of_ne (by omega)]
  obtain ⟨sameMem,sameRegs,words⟩ := loads_exec (d := d) few
  rw [whole]
  refine ⟨(sameRegs .eax (by simp)).trans eax,fun i inside => ?_,?_,?_,?_,fun s member => ?_,?_,fun a below => ?_⟩
  · rw [words i inside,ebp,esp,above _ (by omega)]
  · rw [sameRegs .esp (by simp),sp,esp]
  · rw [sameRegs .ebp (by simp),ebp,esp]
  · rw [sameMem,sameRegs .esp (by simp),sp,Holds.append]
    refine ⟨by rw [mem]; simp [Holds,Nat.add_assoc],by simp [Holds,esp,above]⟩
  · rw [sameRegs s (by simp only [List.mem_cons,List.not_mem_nil,or_false] at member ⊢; tauto)]
    exact segments s (by simp only [List.mem_cons,List.not_mem_nil,or_false] at member ⊢; tauto)
  · exact (sameRegs .cs (by simp)).trans (segments .cs (by simp))
  · rw [sameRegs .esp (by simp),sp] at below
    rw [sameMem,mem,Function.update_of_ne (by omega),Function.update_of_ne (by omega),Function.update_of_ne (by omega),
      Function.update_of_ne (by omega),Function.update_of_ne (by omega),Function.update_of_ne (by omega)]

/-- Process 1 calls `wait_clock`; the idle loop runs until the clock lets the
    process go on. -/
def asking : Machine := { running with cpu := exec (stub 0x28 1) running.cpu }
def asleep : Machine := call (enter asking .int49) 0
def suspended : Machine := into (out somewhere asleep 0 0) (out somewhere asleep 0 0).cpu
def idling : Machine := back (leaveFunction suspended)
def waking : Machine := call (enter idling .int32) 0
def awake : Machine := into (out somewhere waking 1 0) (out somewhere waking 1 0).cpu

theorem asking_reach : Reach somewhere asking := by
  obtain ⟨_,_,esp,_,_,_,cs,writes⟩ := stub_called (c := running.cpu) 0x28 (by omega : 1 ≤ 5) (by decide +kernel)
  have least : USER_SPACE + 24 ≤ running.cpu.reg .esp := by decide +kernel
  have user : Allowed somewhere running (.user asking.cpu) := by
    refine ⟨fun a below => writes a (by omega),?_,fun idle => absurd idle (by decide +kernel)⟩
    show Outer ((exec (stub 0x28 1) running.cpu).reg .cs) ↔ _
    rw [cs]
    decide +kernel
  have left : step somewhere switched .back = some running := rfl
  have ran : step somewhere running (.user asking.cpu) = some asking := rfl
  exact (switched_reach.next (by exact trivial) left).next user ran

theorem asking_awake : Runs.Leads (step somewhere) (fun m e => Allowed somewhere m e ∧ Stays 1 m e)
    (enter asking .int49) (leaveFunction awake) := by
  let Meanwhile := Runs.Leads (step somewhere) (fun m e => Allowed somewhere m e ∧ Stays 1 m e) (enter asking .int49)
  have away : Meanwhile suspended :=
    gate_switches (by decide +kernel) (by decide +kernel) (by decide +kernel) (by decide +kernel) (by decide +kernel)
  have ended : Meanwhile (leaveFunction suspended) := .next away (e := .ret) ⟨trivial,trivial⟩
    (step_ret (by decide +kernel) (by decide +kernel))
  have idle : Meanwhile idling := .next ended (e := .back) ⟨trivial,by show _ ≠ _; decide +kernel⟩
    (step_back (by decide +kernel) (by decide +kernel))
  have entered : Meanwhile (enter idling .int32) :=
    .next idle (e := .interrupt .int32) ⟨by simp [Allowed],trivial⟩ rfl
  have home : Meanwhile awake := entered.trans
    (gate_switches (by decide +kernel) (by decide +kernel) (by decide +kernel) (by decide +kernel) (by decide +kernel))
  exact .next home (e := .ret) ⟨trivial,trivial⟩
    (step_ret (by decide +kernel) (by decide +kernel))

/-- A system call through its function in `syscalls.S` gives its caller all
    registers back but `%eax`. -/
theorem stub_kept {m₀ m₁ m₂ m₃ : Machine} {code args : Nat} {c : Cpu} (reached : Reach place m₀) (few : args ≤ 5)
    (room : 24 ≤ c.reg .esp) (called : m₀.cpu = exec (stub code args) c)
    (allowed : Allowed place m₀ (.interrupt .int49)) (entered : step place m₀ (.interrupt .int49) = some m₁)
    (between : Runs.Leads (step place) (fun m e => Allowed place m e ∧ Stays m₀.pidCour m e) m₁ m₂)
    (current : m₂.pidCour = m₀.pidCour) (left : step place m₂ .back = some m₃)
    (stack : ∀ i < 7, m₃.cpu.mem (m₀.cpu.reg .esp + 4 * i) = m₀.cpu.mem (m₀.cpu.reg .esp + 4 * i)) :
    (exec stubEnd m₃.cpu).reg .esp = c.reg .esp + 4 ∧ (exec stubEnd m₃.cpu).reg .eip = c.mem (c.reg .esp) ∧
      ∀ s ∈ [Reg.ebx,.ecx,.edx,.esi,.edi,.ebp,.ds,.es,.fs,.gs], (exec stubEnd m₃.cpu).reg s = c.reg s := by
  have kept := leads_restored (reached.next allowed entered) (interrupt_inside (reach_good reached) entered) between
    current left
  obtain ⟨_,_,esp,ebp,saved,segments,_⟩ := stub_called code few room
  rw [← called] at esp ebp saved segments
  have sp : m₃.cpu.reg .esp = m₀.cpu.reg .esp := kept .esp (by simp [Vector.kind,Switching.kept])
  have words : Holds m₃.cpu.mem (m₃.cpu.reg .esp)
      (([.edi,.esi,.edx,.ecx,.ebx,.ebp] : List Reg).map c.reg ++ [c.mem (c.reg .esp)]) := by
    rw [sp]
    exact saved.same (fun i inside => stack i (by simpa using inside))
  let rs : List Reg := [.edi,.esi,.edx,.ecx,.ebx]
  obtain ⟨e,pops⟩ : ∃ e, e = exec (rs.map .pop) m₃.cpu := ⟨_,rfl⟩
  rw [show ([.edi,.esi,.edx,.ecx,.ebx,.ebp] : List Reg).map c.reg ++ [c.mem (c.reg .esp)] =
    rs.map c.reg ++ [c.reg .ebp,c.mem (c.reg .esp)] from rfl] at words
  obtain ⟨popped,regs,left⟩ := popInto_holds c.reg (by decide : some Reg.esp ∉ rs.map some) (by simp [rs]) words
  rw [← exec_pop,← pops] at popped regs left
  have base : e.reg .ebp = m₃.cpu.reg .esp + 20 := by
    rw [regs .ebp (by simp),if_neg (by decide),sp,kept .ebp (by simp [Vector.kind,Switching.kept])]
    omega
  -- `leave` finds the frame pointer right above the registers.
  have whole : exec stubEnd m₃.cpu = exec [.leave,.ret] e := by rw [pops]; rfl
  have ends : (exec [.leave,.ret] e).reg .esp = e.reg .ebp + 8 ∧ (exec [.leave,.ret] e).reg .eip = e.mem (e.reg .ebp + 4) ∧
      (exec [.leave,.ret] e).reg .ebp = e.mem (e.reg .ebp) ∧
      ∀ s ∈ [Reg.ebx,.ecx,.edx,.esi,.edi,.ds,.es,.fs,.gs], (exec [.leave,.ret] e).reg s = e.reg s := by
    simp [exec,exec1,Cpu.popInto]
  obtain ⟨atEnd,eip,frame,others⟩ := ends
  have above : e.mem (e.reg .ebp) = c.reg .ebp ∧ e.mem (e.reg .ebp + 4) = c.mem (c.reg .esp) := by
    rw [base]
    exact ⟨left.1,left.2.1⟩
  rw [whole,atEnd,eip,base,sp]
  refine ⟨by omega,by rw [← above.2,base,sp],fun s member => ?_⟩
  by_cases isEbp : s = .ebp
  · rw [isEbp,frame]; exact above.1
  have rest : s ∈ [Reg.ebx,.ecx,.edx,.esi,.edi,.ds,.es,.fs,.gs] := by
    simp only [List.mem_cons,List.not_mem_nil,or_false] at member ⊢; tauto
  rw [others s rest,regs s (by rintro rfl; simp at rest)]
  split
  · rfl
  next unsaved =>
    have segment : s ∈ [Reg.ds,.es,.fs,.gs] := by
      simp only [rs,List.map_cons,List.map_nil,List.mem_cons,List.not_mem_nil,or_false,Option.some.injEq,not_or] at rest unsaved ⊢
      tauto
    have found : m₃.cpu.reg s = m₀.cpu.reg s := kept s (by
      simp only [Vector.kind,Switching.kept,List.mem_cons,List.not_mem_nil,or_false] at segment ⊢; tauto)
    rw [found]
    exact segments s segment

/-- `wait_clock` returns to its caller with its registers. -/
theorem stub_kept_sleep : idling.pidCour = 0 ∧ idling.inKernel = false ∧ ∃ m : Cpu,
    (exec stubEnd m).reg .esp = running.cpu.reg .esp + 4 ∧
      (exec stubEnd m).reg .eip = running.cpu.mem (running.cpu.reg .esp) ∧
      ∀ s ∈ [Reg.ebx,.ecx,.edx,.esi,.edi,.ebp,.ds,.es,.fs,.gs], (exec stubEnd m).reg s = running.cpu.reg s := by
  have entered : step somewhere asking (.interrupt .int49) = some (enter asking .int49) := rfl
  have done : step somewhere (leaveFunction awake) .back = some (back (leaveFunction awake)) :=
    step_back (by decide +kernel) (by decide +kernel)
  exact ⟨rfl,rfl,_,stub_kept asking_reach (by omega : 1 ≤ 5) (by decide +kernel)
    (rfl : asking.cpu = exec (stub 0x28 1) running.cpu) (fun _ => by decide +kernel) entered asking_awake (by decide +kernel) done
    (by decide +kernel)⟩

/-- A new process starts at its function with its own stack, and with the
    segments of user mode. -/
theorem fresh_starts {m₀ m₁ m₂ m₃ : Machine} {q : Pid} {stack userStack f iretAt : Nat} (reached : Reach place m₀)
    (allowed : Allowed place m₀ (.create q stack userStack f iretAt))
    (created : step place m₀ (.create q stack userStack f iretAt) = some m₁)
    (between : Runs.Leads (step place) (fun m e => Allowed place m e ∧ Stays q m e) m₁ m₂) (current : m₂.pidCour = q)
    (left : step place m₂ .back = some m₃) :
    m₃.cpu.reg .eip = f ∧ m₃.cpu.reg .cs = USER_CS ∧ m₃.cpu.reg .esp = userStack ∧ m₃.cpu.reg .eflags = 0x202 ∧
      ∀ s ∈ [Reg.ds,.es,.fs,.gs,.ss], m₃.cpu.reg s = USER_DS := by
  have good := reach_good reached
  have unused : m₀.used q = false := by
    simp only [step,Option.ite_none_left_eq_some,Bool.not_eq_true] at created
    exact created.1
  have other : m₀.pidCour ≠ q := fun same => by
    have current := good.laid.current
    rw [same,unused] at current
    simp at current
  have first : ∃ below, Inside q .fresh (initial f userStack below) m₁ := by
    simp only [step,Option.ite_none_left_eq_some,Option.some.injEq] at created
    refine ⟨m₀.cpu.mem (stack + KERNEL_STACK_SIZE - 28),created.2 ▸ ⟨?_,fun same => absurd same other,?_,?_⟩⟩ <;>
      simp [create,Machine.setRecord]
  obtain ⟨below,first⟩ := first
  have regs := leads_restored (reached.next allowed created) first between current left
  refine ⟨regs .eip (by decide),regs .cs (by decide),regs .esp (by decide),regs .eflags (by decide),fun s member => ?_⟩
  simp only [List.mem_cons,List.not_mem_nil,or_false] at member
  rcases member with rfl | rfl | rfl | rfl | rfl <;> exact regs _ (by decide)

theorem fresh_starts_one : ∃ m : Machine, m.pidCour = 1 ∧ m.cpu.reg .eip = 0x1000400 ∧ m.cpu.reg .cs = USER_CS ∧
    m.cpu.reg .esp = 0x1100000 ∧ m.cpu.reg .eflags = 0x202 ∧ ∀ s ∈ [Reg.ds,.es,.fs,.gs,.ss], m.cpu.reg s = USER_DS := by
  have left : step somewhere switched .back = some (back switched) := rfl
  have created : step somewhere booted (.create 1 0x500000 0x1100000 0x1000400 0x100000) = some made := rfl
  exact ⟨back switched,rfl,fresh_starts (.start booted_boot) made_allowed created made_switched rfl left⟩

end Psys.KernelStacks
