import Psys.Descriptors

/-!
`open` with all that it writes to: the descriptor table, the driver of the node
and the process descriptor in front of the table.
-/
namespace Psys.Opening
open Psys.State Psys.Vfs Psys.Provenance Psys.Handlers
open Psys.Descriptors (slot slot_free fdAlloc_some fdAlloc_none allocate moves_vfsPathResolution)

/-! ### Translation -/

/-- Where fields of `context` lie, in words from its start. -/
def TIMER : Int := 25
def FILE_DESC : Int := 26

/-- The word of `file_desc[fd].offset`. -/
def offsetWord (fd : Int) : Int := FILE_DESC + 3 * fd + 2

/-- What `open` works on besides memory. -/
structure Opener where
  machine : Handlers.Machine
  /-- The pointer `kikoobuf`; the machine has what it points to. -/
  kikoobuf : Nat
  /-- The nodes of processes in whose field `open`, which no code sets, memory
      happened to hold `NULL`. -/
  cleared : Node → Bool

/-- The field `open` of a node. -/
def openCallback (o : Opener) (n : Node) : Ptr Unit :=
  match n with
  | .rootfs i => if i = 12 then .to () else .null
  | .console _ => .null
  | .process _ | .state _ | .parent _ | .name _ => if o.cleared n then .null else .stray

/-- The process descriptor of the caller. -/
def Opener.descriptor (o : Opener) : Context := o.machine.kernel.tabProc o.machine.kernel.pidCour

/-- `tab_proc[pid_cour-1].timer = timer` -/
def Opener.setTimer (o : Opener) (timer : Nat) : Opener :=
  { o with machine := { o.machine with kernel := { o.machine.kernel with
      tabProc := Function.update o.machine.kernel.tabProc o.machine.kernel.pidCour { o.descriptor with timer := timer } } } }

/-- `tab_proc[pid_cour-1].file_desc[fd].offset = offset`, which reaches a field
    in front of the table when the index is negative. -/
def Opener.setOffset (o : Opener) (fd : Int) (offset : Nat) : Opener :=
  if offsetWord fd = TIMER then o.setTimer offset
  else { o with machine := o.machine.setFile fd (fun f => { f with offset := offset }) }

/-- A handler of the machine. -/
def within {α : Type} (handler : Handler α) : Prog Opener α := fun s =>
  let after := handler ⟨s.state.machine,s.mem⟩
  ⟨after.accesses,after.value,⟨{ s.state with machine := after.world.state },after.world.mem⟩⟩

/-- `kikoo_open`, when `mem_alloc` answers a block. -/
def kikooOpen (block : Nat) (o : Opener) : Opener :=
  { o with machine := { o.machine with kikoobuf := kikoomsg }, kikoobuf := block }

/-- `open_fs`; `block` is what `mem_alloc` answers. `strcpy` to `NULL` faults,
    and nothing is known of what an unset callback does. -/
def openFs (block : Nat) (n : Node) : Prog Opener Unit := do
  let o ← get
  match openCallback o n with
  | .null => return ()
  | .stray => stop
  | .to _ =>
    if block = 0 then do
      modify (fun o => { o with kikoobuf := block })
      stop
    else modify (kikooOpen block)

/-- `open` -/
def openFile (block : Nat) (name : Pointer) : Prog Opener Int := do
  let node ← within (Handlers.vfsPathResolution name)
  match node with
  | .null => return -1
  | .stray => stop
  | .to n => do
    openFs block n
    let fd ← within (fdAlloc node)
    modify (fun o => o.setOffset fd 0)
    return fd

/-! ### The steps of `open` -/

variable {o o' : Opener} {s : World Opener} {block : Nat} {name : Pointer} {n : Node} {fd i : Int}

/-- What the path of the call resolves to. -/
def resolved (name : Pointer) (s : World Opener) : Option (Ptr Node) :=
  (Handlers.vfsPathResolution name ⟨s.state.machine,s.mem⟩).value

/-- The resolution of a path leaves the machine alone. -/
theorem resolution_state (name : Pointer) (s : World Opener) :
    (Handlers.vfsPathResolution name ⟨s.state.machine,s.mem⟩).world.state = s.state.machine :=
  (moves_vfsPathResolution (R := fun m m' => m = m') name _).symm

/-- The offset of a descriptor of the table is in the table; that of descriptor
    -1 is the field `timer`. -/
theorem offsetWord_timer (fd : Int) : offsetWord fd = TIMER ↔ fd = -1 := by
  unfold offsetWord FILE_DESC TIMER
  omega

/-- The descriptors in the order in which they are tried. -/
theorem indices_eq : (List.range DTABLESIZE.toNat : List Int) = (List.range 20).map (fun k : Nat => (k : Int)) := by decide

/-- The first free descriptor is the least one. -/
theorem slot_least {t : Int → FileDescriptor} (free : slot t = some i) :
    ∀ j, 0 ≤ j → j < i → (t j).present = true := by
  unfold slot at free
  rw [indices_eq,List.find?_map,Option.map_eq_some_iff] at free
  obtain ⟨k,found,rfl⟩ := free
  obtain ⟨-,-,earlier⟩ := List.find?_range_eq_some.mp found
  intro j low below
  obtain ⟨j',rfl⟩ := Int.eq_ofNat_of_zero_le low
  simpa using earlier j' (by omega)

/-- A full table has no free descriptor. -/
theorem slot_none {t : Int → FileDescriptor} :
    slot t = none ↔ ∀ j, 0 ≤ j → j < DTABLESIZE → (t j).present = true := by
  unfold slot
  rw [indices_eq,List.find?_eq_none]
  constructor
  · intro full j low high
    obtain ⟨j',rfl⟩ := Int.eq_ofNat_of_zero_le low
    have inside : j' ∈ List.range 20 := List.mem_range.mpr (by unfold DTABLESIZE at high; omega)
    simpa using full j' (List.mem_map_of_mem inside)
  · intro full j listed
    obtain ⟨j',inside,rfl⟩ := List.mem_map.mp listed
    have below := List.mem_range.mp inside
    simp [full j' (by omega) (by unfold DTABLESIZE; omega)]

/-- What the driver of the node does. -/
def called (block : Nat) (n : Node) (o : Opener) : Opener :=
  match openCallback o n with
  | .to _ => kikooOpen block o
  | _ => o

/-- The driver returns. -/
def Returns (block : Nat) (n : Node) (o : Opener) : Prop :=
  openCallback o n = .null ∨ openCallback o n = .to () ∧ block ≠ 0

theorem openFs_returns (returns : Returns block n s.state) :
    openFs block n s = ⟨[],some (),⟨called block n s.state,s.mem⟩⟩ := by
  unfold openFs called
  rw [get_bind]
  rcases returns with callback | ⟨callback,block⟩
  · simp only [callback]
    rfl
  · simp only [callback,if_neg block]
    rfl

theorem openFs_stops (stops : ¬ Returns block n s.state) : (openFs block n s).value = none := by
  unfold openFs
  rw [get_bind]
  rcases callback : openCallback s.state n with _ | _ | _
  · exact absurd (.inl callback) stops
  · have missing : block = 0 := by_contra (fun given => stops (.inr ⟨callback,given⟩))
    simp only [if_pos missing]
    rfl
  · rfl

/-- The driver does not touch the table. -/
theorem called_fileDesc (block : Nat) (n : Node) (o : Opener) :
    (called block n o).machine.fileDesc = o.machine.fileDesc := by
  unfold called
  split <;> rfl

/-- `open` after the resolution of the path. -/
def finish (block : Nat) (n : Node) : Prog Opener Int := do
  openFs block n
  let fd ← within (fdAlloc (.to n))
  modify (fun o => o.setOffset fd 0)
  return fd

/-- The same for whatever the path resolves to. -/
def proceed (block : Nat) : Ptr Node → Prog Opener Int
  | .null => return -1
  | .stray => stop
  | .to n => finish block n

/-- The resolution of the path leaves the state alone. -/
theorem openFile_resolved (block : Nat) {node : Ptr Node} (found : resolved name s = some node) :
    ∃ s', s'.state = s.state ∧ (openFile block name s).value = (proceed block node s').value ∧
      (openFile block name s).world = (proceed block node s').world := by
  have value : (within (Handlers.vfsPathResolution name) s).value = some node := found
  refine ⟨(within (Handlers.vfsPathResolution name) s).world,?_,?_⟩
  · unfold within
    simp only [resolution_state]
  · unfold openFile
    rw [bind_some value]
    cases node <;> exact ⟨rfl,rfl⟩

/-- A path that resolves to nothing opens nothing. -/
theorem openFile_null (block : Nat) (found : resolved name s = some .null) :
    (openFile block name s).value = some (-1) ∧ (openFile block name s).world.state = s.state := by
  obtain ⟨s',same,value,world⟩ := openFile_resolved block found
  exact ⟨value,world ▸ same⟩

theorem finish_full (returns : Returns block n s.state) (full : slot s.state.machine.fileDesc = none) :
    (finish block n s).value = some (-1) ∧ (finish block n s).world.state = (called block n s.state).setTimer 0 := by
  have alloc : within (fdAlloc (.to n)) ⟨called block n s.state,s.mem⟩ =
      ⟨[],some (-1),⟨called block n s.state,s.mem⟩⟩ := by
    unfold within
    rw [fdAlloc_none (by rw [called_fileDesc]; exact full)]
  unfold finish
  rw [bind_some (by rw [openFs_returns returns]),openFs_returns returns,bind_some (by rw [alloc]),alloc]
  exact ⟨rfl,rfl⟩

theorem finish_free (returns : Returns block n s.state) (free : slot s.state.machine.fileDesc = some i) :
    (finish block n s).value = some i ∧
      (finish block n s).world.state.machine.fileDesc = Function.update s.state.machine.fileDesc i ⟨true,.to n,0⟩ := by
  have alloc : within (fdAlloc (.to n)) ⟨called block n s.state,s.mem⟩ =
      ⟨[],some i,⟨{ called block n s.state with
        machine := (called block n s.state).machine.setFile i (fun f => { f with present := true, node := .to n }) },s.mem⟩⟩ := by
    unfold within
    rw [fdAlloc_some (by rw [called_fileDesc]; exact free)]
  have inside : ¬ offsetWord i = TIMER := by
    obtain ⟨low,-,-⟩ := slot_free free
    rw [offsetWord_timer]
    omega
  unfold finish
  rw [bind_some (by rw [openFs_returns returns]),openFs_returns returns,bind_some (by rw [alloc]),alloc]
  refine ⟨rfl,?_⟩
  show (Opener.setOffset _ i 0).machine.fileDesc = _
  unfold Opener.setOffset
  rw [if_neg inside]
  simp [Machine.setFile,called_fileDesc]

/-- A call that fails for lack of a descriptor has already run the driver, and
    then clears the field `timer`. -/
theorem openFile_full (found : resolved name s = some (.to n)) (returns : Returns block n s.state)
    (full : slot s.state.machine.fileDesc = none) :
    (openFile block name s).value = some (-1) ∧
      (openFile block name s).world.state = (called block n s.state).setTimer 0 := by
  obtain ⟨s',same,value,world⟩ := openFile_resolved block found
  rw [← same] at returns full ⊢
  rw [value,world]
  exact finish_full returns full

theorem openFile_free (found : resolved name s = some (.to n)) (returns : Returns block n s.state)
    (free : slot s.state.machine.fileDesc = some i) :
    (openFile block name s).value = some i ∧
      (openFile block name s).world.state.machine.fileDesc =
        Function.update s.state.machine.fileDesc i ⟨true,.to n,0⟩ := by
  obtain ⟨s',same,value,world⟩ := openFile_resolved block found
  rw [← same] at returns free ⊢
  rw [value,world]
  exact finish_free returns free

/-- Otherwise the call does not return. -/
theorem openFile_stops (unknown : resolved name s = none ∨ resolved name s = some .stray ∨
    ∃ n, resolved name s = some (.to n) ∧ ¬ Returns block n s.state) :
    (openFile block name s).value = none := by
  rcases unknown with none' | stray | ⟨n,found,stops⟩
  · have value : (within (Handlers.vfsPathResolution name) s).value = none := none'
    unfold openFile
    rw [bind_none value]
  · obtain ⟨s',-,value,-⟩ := openFile_resolved block stray
    exact value
  · obtain ⟨s',same,value,-⟩ := openFile_resolved block found
    rw [← same] at stops
    rw [value]
    show (finish block n s').value = none
    unfold finish
    rw [bind_none (openFs_stops stops)]

/-- The end of the handler of the machine, for which descriptor -1 is one like
    the others. -/
theorem allocate_free {w : World Handlers.Machine} (free : slot w.state.fileDesc = some i) :
    (allocate n w).value = some i ∧
      (allocate n w).world.state.fileDesc = Function.update w.state.fileDesc i ⟨true,.to n,0⟩ := by
  unfold allocate
  rw [bind_some (by rw [fdAlloc_some free]),fdAlloc_some free]
  refine ⟨rfl,?_⟩
  show (Machine.setFile _ _ _).fileDesc = _
  simp [Machine.setFile]

theorem allocate_full {w : World Handlers.Machine} (full : slot w.state.fileDesc = none) :
    (allocate n w).value = some (-1) ∧ ∀ j, 0 ≤ j → (allocate n w).world.state.fileDesc j = w.state.fileDesc j := by
  unfold allocate
  rw [bind_some (by rw [fdAlloc_none full]),fdAlloc_none full]
  refine ⟨rfl,?_⟩
  intro j low
  have other : j ≠ -1 := by omega
  exact Function.update_of_ne other _ _

/-- What the handler of the machine does once the path is resolved. -/
theorem handler_resolved (found : resolved name s = some (.to n)) :
    ∃ w : World Handlers.Machine, w.state.fileDesc = s.state.machine.fileDesc ∧
      (Handlers.openFile name ⟨s.state.machine,s.mem⟩).value = (allocate n w).value ∧
      (Handlers.openFile name ⟨s.state.machine,s.mem⟩).world = (allocate n w).world := by
  have table : (Handlers.vfsPathResolution name ⟨s.state.machine,s.mem⟩).world.state.fileDesc = s.state.machine.fileDesc :=
    congrArg Machine.fileDesc (resolution_state name s)
  unfold Handlers.openFile
  rw [bind_some (show (Handlers.vfsPathResolution name ⟨s.state.machine,s.mem⟩).value = some (.to n) from found)]
  by_cases kikoo : n = .rootfs 12
  · subst kikoo
    exact ⟨⟨{ (Handlers.vfsPathResolution name ⟨s.state.machine,s.mem⟩).world.state with kikoobuf := kikoomsg },_⟩,
      table,rfl,rfl⟩
  · simp only [if_neg kikoo]
    exact ⟨_,table,rfl,rfl⟩

/-- A call that returns does to the table what the handler of the machine does. -/
theorem openFile_handler (value : (openFile block name s).value = some fd) :
    (Handlers.openFile name ⟨s.state.machine,s.mem⟩).value = some fd ∧
      ∀ j, 0 ≤ j → (Handlers.openFile name ⟨s.state.machine,s.mem⟩).world.state.fileDesc j =
        (openFile block name s).world.state.machine.fileDesc j := by
  rcases found : resolved name s with _ | _ | n | _
  · rw [openFile_stops (.inl found)] at value
    cases value
  · obtain ⟨failed,state⟩ := openFile_null block found
    obtain rfl := Option.some.inj (value.symm.trans failed)
    unfold Handlers.openFile
    rw [bind_some (show (Handlers.vfsPathResolution name ⟨s.state.machine,s.mem⟩).value = some .null from found),state]
    exact ⟨rfl,fun j _ => congrArg (fun m => m.fileDesc j) (resolution_state name s)⟩
  · by_cases returns : Returns block n s.state
    · obtain ⟨w,table,value',world'⟩ := handler_resolved found
      rw [value',world']
      cases free : slot s.state.machine.fileDesc with
      | none =>
        obtain ⟨failed,state⟩ := openFile_full found returns free
        obtain ⟨failed',kept⟩ := allocate_full (n := n) (table ▸ free : slot w.state.fileDesc = none)
        obtain rfl := Option.some.inj (value.symm.trans failed)
        refine ⟨failed',?_⟩
        intro j low
        rw [kept j low,table,state]
        show _ = (called block n s.state).machine.fileDesc j
        rw [called_fileDesc]
      | some i =>
        obtain ⟨opened,state⟩ := openFile_free found returns free
        obtain ⟨opened',state'⟩ := allocate_free (n := n) (table ▸ free : slot w.state.fileDesc = some i)
        obtain rfl := Option.some.inj (value.symm.trans opened)
        exact ⟨opened',fun j _ => by rw [state',state,table]⟩
    · rw [openFile_stops (.inr (.inr ⟨n,found,returns⟩))] at value
      cases value
  · rw [openFile_stops (.inr (.inl found))] at value
    cases value

/-! ### What a call promises -/

/-- A call that succeeds takes the least free descriptor, with offset 0, and
    changes no other one. -/
structure Opens (fd : Int) (o o' : Opener) : Prop where
  inside : 0 ≤ fd ∧ fd < DTABLESIZE
  free : (o.machine.fileDesc fd).present = false
  least : ∀ j, 0 ≤ j → j < fd → (o.machine.fileDesc j).present = true
  present : (o'.machine.fileDesc fd).present = true
  offset : (o'.machine.fileDesc fd).offset = 0
  others : ∀ j, j ≠ fd → o'.machine.fileDesc j = o.machine.fileDesc j

/-- A call that fails changes nothing, and one that does not opens a
    descriptor. -/
def Promised (block : Nat) (name : Pointer) (s : World Opener) : Prop :=
  ∀ fd, (openFile block name s).value = some fd →
    if fd = -1 then (openFile block name s).world.state = s.state
    else Opens fd s.state (openFile block name s).world.state

/-- Either a descriptor is free, or there is nothing to clear: the field `timer`
    is 0, and the node is not `/kikoo`, or its buffer is as its driver sets it. -/
def Harmless (block : Nat) (o : Opener) (n : Node) : Prop :=
  slot o.machine.fileDesc ≠ none ∨
    o.descriptor.timer = 0 ∧ (n = .rootfs 12 → o.kikoobuf = block ∧ o.machine.kikoobuf = kikoomsg)

theorem called_kikoo : called block (.rootfs 12) o = kikooOpen block o := rfl

/-- Only `/kikoo` has the callback. -/
theorem openCallback_to {u : Unit} (callback : openCallback o n = .to u) : n = .rootfs 12 := by
  cases n with
  | rootfs i =>
    obtain ⟨rfl,-⟩ := (ite_eq_iff.mp callback).resolve_right (fun other => nomatch other.2)
    rfl
  | console c => cases callback
  | process p | state p | parent p | name p =>
    rcases ite_eq_iff.mp callback with ⟨-,null⟩ | ⟨-,stray⟩
    · cases null
    · cases stray

theorem called_other (other : n ≠ .rootfs 12) : called block n o = o := by
  unfold called
  split
  · rename_i callback
    exact absurd (openCallback_to callback) other
  · rfl

/-- The driver does nothing, or what it has done before. -/
theorem called_eq : called block n o = o ↔ (n = .rootfs 12 → o.kikoobuf = block ∧ o.machine.kikoobuf = kikoomsg) := by
  by_cases kikoo : n = .rootfs 12
  · subst kikoo
    rw [called_kikoo]
    constructor
    · intro same _
      exact ⟨(congrArg Opener.kikoobuf same).symm,(congrArg (fun o => o.machine.kikoobuf) same).symm⟩
    · intro before
      obtain ⟨pointer,text⟩ := before rfl
      unfold kikooOpen
      rw [← pointer,← text]
  · exact ⟨fun _ is => absurd is kikoo,fun _ => called_other kikoo⟩

@[simp] theorem setTimer_descriptor (o : Opener) (timer : Nat) :
    (o.setTimer timer).descriptor = { o.descriptor with timer := timer } := by
  unfold Opener.setTimer
  exact Function.update_self ..

theorem setTimer_self (o : Opener) : o.setTimer o.descriptor.timer = o := by
  unfold Opener.setTimer
  rw [show Function.update o.machine.kernel.tabProc o.machine.kernel.pidCour o.descriptor = o.machine.kernel.tabProc from
    Function.update_eq_self ..]

/-- The field `timer` of the caller, which the driver does not touch. -/
theorem called_descriptor : (called block n o).descriptor = o.descriptor := by
  unfold called
  split <;> rfl

/-- Nothing changes when the field `timer` is 0 already and the driver does
    nothing new. -/
theorem setTimer_called : (called block n o).setTimer 0 = o ↔ o.descriptor.timer = 0 ∧ called block n o = o := by
  constructor
  · intro same
    refine ⟨?_,?_⟩
    · have timer := congrArg (fun o => o.descriptor.timer) same
      simp only [setTimer_descriptor] at timer
      exact timer.symm
    · rw [called_eq]
      rintro rfl
      exact ⟨(congrArg Opener.kikoobuf same).symm,(congrArg (fun o => o.machine.kikoobuf) same).symm⟩
  · rintro ⟨zero,same⟩
    rw [same,← zero]
    exact setTimer_self o

/-- What a call that takes a descriptor does to the table. -/
theorem opens_of_update (free : slot o.machine.fileDesc = some i)
    (table : o'.machine.fileDesc = Function.update o.machine.fileDesc i ⟨true,.to n,0⟩) : Opens i o o' := by
  obtain ⟨low,high,absent⟩ := slot_free free
  exact {
    inside := ⟨low,high⟩
    free := absent
    least := slot_least free
    present := by rw [table,Function.update_self]
    offset := by rw [table,Function.update_self]
    others := by
      intro j other
      rw [table,Function.update_of_ne other] }

/-- `open` keeps its promise exactly when it does not fail behind a driver that it
    has called already, or when that call has changed nothing. -/
theorem promised_iff (block : Nat) (name : Pointer) (s : World Opener) :
    Promised block name s ↔ ∀ n, resolved name s = some (.to n) → Returns block n s.state →
      Harmless block s.state n := by
  constructor
  · intro promised n found returns
    rw [Harmless,or_iff_not_imp_left,not_not]
    intro full
    obtain ⟨value,state⟩ := openFile_full found returns full
    have same := promised (-1) value
    rw [if_pos rfl,state,setTimer_called,called_eq] at same
    exact same
  · intro harmless fd value
    rcases found : resolved name s with _ | _ | n | _
    · rw [openFile_stops (.inl found)] at value
      cases value
    · obtain ⟨failed,state⟩ := openFile_null block found
      obtain rfl : fd = -1 := Option.some.inj (value.symm.trans failed)
      exact state
    · by_cases returns : Returns block n s.state
      · cases free : slot s.state.machine.fileDesc with
        | none =>
          obtain ⟨failed,state⟩ := openFile_full found returns free
          obtain rfl : fd = -1 := Option.some.inj (value.symm.trans failed)
          rw [if_pos rfl,state,setTimer_called,called_eq]
          exact (harmless n found returns).resolve_left (fun some' => some' free)
        | some i =>
          obtain ⟨opened,table⟩ := openFile_free found returns free
          obtain rfl : fd = i := Option.some.inj (value.symm.trans opened)
          have inside : fd ≠ -1 := by
            obtain ⟨low,-,-⟩ := slot_free free
            omega
          rw [if_neg inside]
          exact opens_of_update free table
      · rw [openFile_stops (.inr (.inr ⟨n,found,returns⟩))] at value
        cases value
    · rw [openFile_stops (.inr (.inl found))] at value
      cases value

/-- A process with twenty descriptors that has slept until tick 5 opens `/`. -/
def crowded : World Opener where
  state := {
    machine := { UserPointers.initMachine
        { System.zeroed with
          pidCour := 1
          tabProc := fun p => { System.zeroed.tabProc p with timer := 5 } } with
      fileDesc := fun _ => ⟨true,.to fsRoot,0⟩ }
    kikoobuf := 0
    cleared := fun _ => false }
  mem := fun a => if a = USER_SPACE then 47 else 0

theorem promised_crowded : ¬ ∀ block name s, Promised block name s := by
  intro claim
  have found : resolved ⟨USER_SPACE,some 0⟩ crowded = some (.to fsRoot) := by rfl
  have full : slot crowded.state.machine.fileDesc = none := slot_none.mpr (fun _ _ _ => rfl)
  obtain ⟨value,state⟩ := openFile_full (n := fsRoot) found (.inl rfl) full
  have same := claim 1 ⟨USER_SPACE,some 0⟩ crowded (-1) value
  rw [if_pos rfl,state,setTimer_called] at same
  exact absurd same.1 (by decide)

end Psys.Opening
