import Psys.Creation
import Psys.System

/-!
`start` with the sizes and allocations that it depends on: which calls fail, what
those that do not fail create, and where the first words of the two stacks go.
-/
namespace Psys.Starting
open Psys.State Psys.Context
open Psys.Creation (freePid_unused created created_wakeup)

/-! ### Translation -/

/-- Which allocations find memory during the creation of a process, and whether
    the name can be read. -/
structure Allocations where
  kernelStack : Bool
  userStack : Bool
  children : Bool
  readable : Bool
  name : Bool
  procfsNode : Bool
  stateNode : Bool
  parentNode : Bool
  nameNode : Bool
  /-- The cell that `list_put_first` puts in front of the father's children. -/
  cell : Bool

/-- The two stacks of a process. -/
inductive Region where
  | kernelStack
  | userStack
  deriving DecidableEq

/-- What a call leaves: the processes, the value that it returns unless it
    faults, and the words of the stacks that it writes to. -/
structure Outcome where
  procs : Procs
  value : Option Int
  writes : List (Region × UInt32)

/-- The size of a kernel stack. -/
def KERNEL_STACK_SIZE : UInt32 := 40000

/-- The initial words of the stacks: SS, ESP, EFLAGS, CS, EIP, the address of
    `_iret` and the old EBP, then the argument and the address of `exit`. -/
def stackWrites (nbElemK nbElemU : UInt32) : List (Region × UInt32) :=
  [(.kernelStack,nbElemK - 1),(.kernelStack,nbElemK - 2),(.kernelStack,nbElemK - 3),(.kernelStack,nbElemK - 4),
    (.kernelStack,nbElemK - 5),(.kernelStack,nbElemK - 6),(.kernelStack,nbElemK - 8),
    (.userStack,nbElemU - 1),(.userStack,nbElemU - 2)]

/-- The process is put in front of the children of its father. -/
def attach (k : Procs) (pid : Int) : Procs :=
  if k.pidCour ≠ 0 then k.setProc k.pidCour (fun c => { c with children := pid :: c.children }) else k

/-- `context_create_user` -/
def contextCreateUser (k : Procs) (stackSize : UInt32) (priority : Int) (a : Allocations) : Outcome :=
  match freePid k.tabProc with
  | none => ⟨k,some (-1),[]⟩
  | some pid =>
    let nbElemU := stackSize / 4
    let nbElemK := KERNEL_STACK_SIZE / 4
    if a.kernelStack = false ∨ a.userStack = false then ⟨k,some (-1),[]⟩
    else
      let k := k.setProc pid (fun c => { c with
        state := .activable
        priority := priority
        pidParent := k.pidCour
        killed := false
        children := []
        sidWait := 0
        sidReseted := false
        sidDeleted := false })
      if a.children = false then ⟨k,some (-1),[]⟩
      -- `strlen` of the name, and `strcpy` to its copy
      else if a.readable = false ∨ a.name = false then ⟨k,none,[]⟩
      else
        let stdout := if k.pidCour = 0 then 100 else (k.tabProc k.pidCour).stdout
        let k := k.setProc pid (fun c => { c with stdout := stdout })
        if a.procfsNode = false ∨ a.stateNode = false ∨ a.parentNode = false ∨ a.nameNode = false ∨ a.cell = false
        then ⟨k,none,[]⟩
        else
          let k := attach k pid
          let k := k.setProc pid (fun c => { c with frame := .user, valide := true })
          ⟨wakeupProcess k pid,some pid,stackWrites nbElemK nbElemU⟩

/-- `start`, up to its call of `scheduler`. -/
def start (k : Procs) (ssize : UInt32) (prio : Int) (a : Allocations) : Outcome :=
  if ssize > 0xffffffe7 then ⟨k,some (-1),[]⟩ else contextCreateUser k (ssize + 12) prio a

/-! ### The model without sizes -/

variable {k : Procs} {ssize : UInt32} {prio : Int} {a : Allocations} {pid : Int}

/-- What the process model asks of the allocations. -/
def Allocations.memory (a : Allocations) : Memory where
  stack := a.kernelStack && a.userStack
  children := a.children
  name := a.readable && a.name
  nodes := a.procfsNode && a.stateNode && a.parentNode && a.nameNode && a.cell

/-- The allocations after the list of children find memory, which no code
    checks. -/
def Allocations.Served (a : Allocations) : Prop :=
  a.readable = true ∧ a.name = true ∧ a.procfsNode = true ∧ a.stateNode = true ∧ a.parentNode = true ∧ a.nameNode = true ∧
    a.cell = true
instance (a : Allocations) : Decidable a.Served := inferInstanceAs (Decidable (_ ∧ _))

/-- The call stops at one of its checks. -/
def Refused (k : Procs) (ssize : UInt32) (a : Allocations) : Prop :=
  ssize > 0xffffffe7 ∨ freePid k.tabProc = none ∨ a.kernelStack = false ∨ a.userStack = false ∨ a.children = false

theorem start_large (big : ssize > 0xffffffe7) : start k ssize prio a = ⟨k,some (-1),[]⟩ := if_pos big

/-- A size that does not wrap gets a creation. -/
theorem start_room (room : ssize ≤ 0xffffffe7) : start k ssize prio a = contextCreateUser k (ssize + 12) prio a :=
  if_neg (UInt32.not_lt.mpr room)

/-- A call that is not refused faults when a later allocation finds no memory. -/
theorem contextCreateUser_faults (found : freePid k.tabProc = some pid) (kernelStack : a.kernelStack = true)
    (userStack : a.userStack = true) (children : a.children = true) (unserved : ¬ a.Served) (stackSize : UInt32)
    (priority : Int) : (contextCreateUser k stackSize priority a).value = none := by
  unfold contextCreateUser
  simp only [found,kernelStack,userStack,children,Bool.true_eq_false,or_self,↓reduceIte]
  split
  · rfl
  · rename_i read
    rw [if_pos]
    by_contra rest
    simp only [not_or,Bool.not_eq_false] at read rest
    exact unserved ⟨read.1,read.2,rest⟩

/-- It is the creation of the process model. -/
theorem contextCreateUser_context (k : Procs) (stackSize : UInt32) (priority : Int) (a : Allocations) :
    (contextCreateUser k stackSize priority a).procs = (Context.contextCreateUser k priority a.memory).1 ∧
      (contextCreateUser k stackSize priority a).value = (Context.contextCreateUser k priority a.memory).2 := by
  unfold contextCreateUser Context.contextCreateUser
  cases freePid k.tabProc with
  | none => exact ⟨rfl,rfl⟩
  | some pid =>
    obtain ⟨kernelStack,userStack,children,readable,name,procfsNode,stateNode,parentNode,nameNode,cell⟩ := a
    -- The two models ask the same questions in the same order.
    by_cases memory : kernelStack = true ∧ userStack = true
    · by_cases names : readable = true ∧ name = true
      · by_cases nodes : procfsNode = true ∧ stateNode = true ∧ parentNode = true ∧ nameNode = true ∧ cell = true
        · cases children <;> simp [Allocations.memory,memory,names,nodes,attach]
        · have refused : procfsNode = false ∨ stateNode = false ∨ parentNode = false ∨ nameNode = false ∨ cell = false := by
            simpa [-not_and,not_and_or] using nodes
          have stops : (procfsNode && stateNode && parentNode && nameNode && cell) = false := by
            simpa only [Bool.and_eq_false_iff,or_assoc] using refused
          cases children <;> simp [Allocations.memory,memory,names,refused,stops]
      · have refused : readable = false ∨ name = false := by simpa [-not_and,not_and_or] using names
        have stops : (readable && name) = false := Bool.and_eq_false_iff.mpr refused
        cases children <;> simp [Allocations.memory,memory,refused,stops]
    · have refused : kernelStack = false ∨ userStack = false := by simpa [-not_and,not_and_or] using memory
      have stops : (kernelStack && userStack) = false := Bool.and_eq_false_iff.mpr refused
      simp [Allocations.memory,refused,stops]

/-- `start` of the process model is this one, followed by its call of
    `scheduler`, its return or the page fault. -/
theorem start_sys (m : Kernel) (ssize : UInt32) (prio : Int) (a : Allocations) :
    Sys.start m ssize.toNat prio a.memory =
      match (start m.toProcs ssize prio a).value with
      | none => Sys.handlePfault { m with toProcs := (start m.toProcs ssize prio a).procs }
      | some r =>
        if r > 0 then callScheduler { m with toProcs := (start m.toProcs ssize prio a).procs } (.ret r)
        else sysret { m with toProcs := (start m.toProcs ssize prio a).procs } (some r) := by
  by_cases big : ssize > 0xffffffe7
  · have large : ssize.toNat > 0xffffffe7 := UInt32.lt_iff_toNat_lt.mp big
    rw [start_large big,Sys.start,if_pos large]
    exact (if_neg (by decide)).symm
  · have room : ¬ ssize.toNat > 0xffffffe7 := fun large => big (UInt32.lt_iff_toNat_lt.mpr large)
    obtain ⟨procs,value⟩ := contextCreateUser_context m.toProcs (ssize + 12) prio a
    rw [start_room (UInt32.not_lt.mp big),procs,value]
    refine (if_neg room).trans ?_
    obtain ⟨procs,value | value⟩ := Context.contextCreateUser m.toProcs prio a.memory <;> rfl

/-! ### Calls that fail and calls that create -/

/-- Nothing is created, and nothing that a process has changes. -/
structure Leaves (k k' : Procs) : Prop where
  inUse : ∀ p, InUse k'.tabProc p ↔ InUse k.tabProc p
  entries : ∀ p, InUse k.tabProc p → k'.tabProc p = k.tabProc p
  links : k'.links = k.links

/-- One process is created, with a priority that `chprio` admits, a stack whose
    size has not wrapped and initial words in its stacks. -/
structure Creates (k : Procs) (ssize : UInt32) (pid : Int) (r : Outcome) : Prop where
  unused : InTab pid ∧ ¬ InUse k.tabProc pid
  inUse : ∀ p, InUse r.procs.tabProc p ↔ InUse k.tabProc p ∨ p = pid
  priority : 1 ≤ (r.procs.tabProc pid).priority ∧ (r.procs.tabProc pid).priority ≤ MAXPRIO
  size : (ssize + 12).toNat = ssize.toNat + 12
  kernelStack : ∀ i, (Region.kernelStack,i) ∈ r.writes → 4 * (i.toNat + 1) ≤ KERNEL_STACK_SIZE.toNat
  userStack : ∀ i, (Region.userStack,i) ∈ r.writes → 4 * (i.toNat + 1) ≤ (ssize + 12).toNat

/-- A call either fails and leaves everything as it is, or creates. -/
def Promised (k : Procs) (ssize : UInt32) (prio : Int) (a : Allocations) : Prop :=
  (start k ssize prio a).value = some (-1) ∧ Leaves k (start k ssize prio a).procs ∨
    ∃ pid, (start k ssize prio a).value = some pid ∧ Creates k ssize pid (start k ssize prio a)

theorem Leaves.rfl' (k : Procs) : Leaves k k := ⟨fun _ => Iff.rfl,fun _ _ => rfl,rfl⟩

/-- A write to a descriptor that is not in use, which leaves it so. -/
theorem leaves_setProc (unused : ¬ InUse k.tabProc pid) {f : Context → Context} (kept : ∀ c, (f c).valide = c.valide) :
    Leaves k (k.setProc pid f) := by
  refine ⟨?_,?_,rfl⟩
  · intro p
    by_cases here : p = pid ∧ InTab pid
    · simp only [InUse,Procs.setProc_tabProc,if_pos here,kept]
    · simp only [InUse,Procs.setProc_tabProc,if_neg here]
  · intro p used
    have other : p ≠ pid := fun same => unused (same ▸ used)
    simp only [Procs.setProc_tabProc,other,false_and,↓reduceIte]

/-- A refused call leaves everything as it is. -/
theorem start_refused (refused : Refused k ssize a) :
    (start k ssize prio a).value = some (-1) ∧ Leaves k (start k ssize prio a).procs := by
  by_cases big : ssize > 0xffffffe7
  · rw [start_large big]
    exact ⟨rfl,Leaves.rfl' k⟩
  rw [start_room (UInt32.not_lt.mp big),contextCreateUser]
  cases found : freePid k.tabProc with
  | none => exact ⟨rfl,Leaves.rfl' k⟩
  | some pid =>
    by_cases without : a.kernelStack = false ∨ a.userStack = false
    · simp only [if_pos without]
      exact ⟨trivial,Leaves.rfl' k⟩
    · have children : a.children = false := by
        rcases refused with big' | none' | kernelStack | userStack | children
        · exact absurd big' big
        · rw [found] at none'
          cases none'
        · exact absurd (.inl kernelStack) without
        · exact absurd (.inr userStack) without
        · exact children
      simp only [if_neg without,if_pos children]
      exact ⟨trivial,leaves_setProc (freePid_unused found).2 (fun _ => rfl)⟩

/-- The size of the user stack does not wrap when the check lets it through. -/
theorem size_eq (room : ssize ≤ 0xffffffe7) : (ssize + 12).toNat = ssize.toNat + 12 := by
  have small : ssize.toNat ≤ 4294967271 := UInt32.le_iff_toNat_le.mp room
  rw [UInt32.toNat_add]
  show (ssize.toNat + 12) % 4294967296 = ssize.toNat + 12
  omega

/-- The words at the top of a stack are in it when it has so many of them. -/
theorem top_inside {size words : UInt32} {below : UInt32} (whole : words.toNat = size.toNat / 4) (deep : 1 ≤ below.toNat)
    (enough : below.toNat ≤ words.toNat) : 4 * ((words - below).toNat + 1) ≤ size.toNat := by
  rw [UInt32.toNat_sub_of_le _ _ (UInt32.le_iff_toNat_le.mpr enough)]
  omega

theorem stackWrites_kernel {nbElemU i : UInt32}
    (written : (Region.kernelStack,i) ∈ stackWrites (KERNEL_STACK_SIZE / 4) nbElemU) :
    4 * (i.toNat + 1) ≤ KERNEL_STACK_SIZE.toNat := by
  simp only [stackWrites,List.mem_cons,Prod.mk.injEq,true_and,reduceCtorEq,false_and,List.not_mem_nil,or_false] at written
  rcases written with rfl | rfl | rfl | rfl | rfl | rfl | rfl <;> decide

theorem stackWrites_user {size nbElemK i : UInt32} (enough : 12 ≤ size.toNat)
    (written : (Region.userStack,i) ∈ stackWrites nbElemK (size / 4)) : 4 * (i.toNat + 1) ≤ size.toNat := by
  have whole : (size / 4).toNat = size.toNat / 4 := UInt32.toNat_div _ _
  simp only [stackWrites,List.mem_cons,Prod.mk.injEq,true_and,reduceCtorEq,false_and,false_or,List.not_mem_nil,
    or_false] at written
  rcases written with rfl | rfl
  · exact top_inside whole (by decide) (by show 1 ≤ _; omega)
  · exact top_inside whole (by decide) (by show 2 ≤ _; omega)

/-- The father only gets a child. -/
@[simp] theorem attach_valide (k : Procs) (pid p : Int) : ((attach k pid).tabProc p).valide = (k.tabProc p).valide := by
  unfold attach
  split
  · simp
  · rfl

@[simp] theorem attach_priority (k : Procs) (pid p : Int) : ((attach k pid).tabProc p).priority = (k.tabProc p).priority := by
  unfold attach
  split
  · simp
  · rfl

/-- What a call that is not refused does when the other allocations find memory:
    it creates one process, of any priority. -/
theorem start_creates (prio : Int) (room : ssize ≤ 0xffffffe7) (found : freePid k.tabProc = some pid) (kernelStack : a.kernelStack = true)
    (userStack : a.userStack = true) (children : a.children = true) (served : a.Served) :
    (start k ssize prio a).value = some pid ∧
      (∀ p, InUse (start k ssize prio a).procs.tabProc p ↔ InUse k.tabProc p ∨ p = pid) ∧
      ((start k ssize prio a).procs.tabProc pid).priority = prio ∧
      (start k ssize prio a).writes = stackWrites (KERNEL_STACK_SIZE / 4) ((ssize + 12) / 4) := by
  obtain ⟨inTab,unused⟩ := freePid_unused found
  obtain ⟨readable,name,procfsNode,stateNode,parentNode,nameNode,cell⟩ := served
  rw [start_room room,contextCreateUser]
  simp only [found,kernelStack,userStack,children,readable,name,procfsNode,stateNode,parentNode,nameNode,cell,
    Bool.true_eq_false,or_self,↓reduceIte,true_and,and_true,Procs.setProc_pidCour]
  refine ⟨?_,?_⟩
  · intro p
    by_cases new : p = pid
    · simp [InUse,new,inTab]
    · simp [InUse,new]
  · simp [inTab]

/-- The call keeps its promise when it is refused, or when the priority is in
    range and all other allocations find memory. -/
theorem start_promised_iff (k : Procs) (ssize : UInt32) (prio : Int) (a : Allocations) :
    Promised k ssize prio a ↔ Refused k ssize a ∨ (1 ≤ prio ∧ prio ≤ MAXPRIO) ∧ a.Served := by
  by_cases refused : Refused k ssize a
  · exact iff_of_true (.inl (start_refused refused)) (.inl refused)
  obtain ⟨small,free,kernelStack,userStack,children⟩ : ¬ ssize > 0xffffffe7 ∧ freePid k.tabProc ≠ none ∧
      a.kernelStack = true ∧ a.userStack = true ∧ a.children = true := by
    simpa [Refused,not_or] using refused
  have room : ssize ≤ 0xffffffe7 := UInt32.not_lt.mp small
  obtain ⟨pid,found⟩ := Option.ne_none_iff_exists'.mp free
  rw [or_iff_right refused]
  by_cases served : a.Served
  · obtain ⟨value,inUse,priority,writes⟩ := start_creates prio room found kernelStack userStack children served
    have creates : (1 ≤ prio ∧ prio ≤ MAXPRIO) → Creates k ssize pid (start k ssize prio a) := by
      intro range
      refine ⟨freePid_unused found,inUse,priority.symm ▸ range,size_eq room,?_,?_⟩
      · intro i written
        exact stackWrites_kernel (writes ▸ written)
      · intro i written
        have enough : 12 ≤ (ssize + 12).toNat := by
          rw [size_eq room]
          omega
        exact stackWrites_user enough (writes ▸ written)
    constructor
    · rintro (⟨failed,-⟩ | ⟨pid',value',created⟩)
      · obtain ⟨low,-⟩ := (freePid_unused found).1
        have same := Option.some.inj (value.symm.trans failed)
        omega
      · obtain rfl := Option.some.inj (value.symm.trans value')
        exact ⟨priority ▸ created.priority,served⟩
    · exact fun range => .inr ⟨pid,value,creates range.1⟩
  · have faults : (start k ssize prio a).value = none := by
      rw [start_room room]
      exact contextCreateUser_faults found kernelStack userStack children served _ _
    refine iff_of_false ?_ (fun range => served range.2)
    rintro (⟨failed,-⟩ | ⟨pid',value',-⟩)
    · rw [faults] at failed
      cases failed
    · rw [faults] at value'
      cases value'

/-- Init starts a process of priority 1000. -/
theorem start_promised_thousand : ¬ ∀ k ssize prio a, Promised k ssize prio a := by
  intro claim
  let a : Allocations := ⟨true,true,true,true,true,true,true,true,true,true⟩
  have seen : (Runs.run System.step System.zeroed [.tick,.resume]).map (fun k =>
      (k.pidCour,k.inKernel,freePid k.tabProc)) = some (1,false,some 2) := by decide
  obtain ⟨k,_,facts⟩ := Option.map_eq_some_iff.mp seen
  simp only [Prod.mk.injEq] at facts
  have found : freePid k.tabProc = some 2 := facts.2.2
  obtain ⟨value,-,priority,-⟩ : (start k.toProcs 512 1000 a).value = some 2 ∧ _ ∧
      ((start k.toProcs 512 1000 a).procs.tabProc 2).priority = 1000 ∧ _ :=
    start_creates 1000 (by decide) found rfl rfl rfl (by decide)
  rcases claim k.toProcs 512 1000 a with ⟨failed,-⟩ | ⟨pid,value',created⟩
  · exact absurd (Option.some.inj (value.symm.trans failed)) (by decide)
  · obtain rfl := Option.some.inj (value.symm.trans value')
    have high := created.priority.2
    rw [priority] at high
    exact absurd high (by decide)

end Psys.Starting
