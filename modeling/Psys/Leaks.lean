import Psys.Custody

/-!
Every block that is live has an owner, in the runs in which no creation of a
process stops halfway, no dead process is collected, and no list or buffer is
dropped.
-/
namespace Psys.Leaks
open Psys.State Psys.Vfs Psys.Blocks Psys.Custody
open Psys.Handlers (DTABLESIZE)
open Psys.Descriptors (setupFiles slot)
open Psys.Signals (NBSIG IsSignal)

variable {m m' : Machine} {held : List Nat}

/-! ### The creation of a process -/

/-- A creation under way: only the descriptor of the process has changed, and
    the new blocks are held. -/
structure Draft (m : Machine) (pid : Int) (c : Process) (held : List Nat) (n : Machine) : Prop where
  same : n = { m with next := n.next, live := n.live, tabProc := Function.update m.tabProc pid c }
  live : ∀ b ∈ n.live, b ∈ m.live ∨ b ∈ held

section Draft
variable {pid : Int} {c : Process} {n : Machine}

theorem draft_start (m : Machine) (pid : Int) : Draft m pid (m.tabProc pid) [] m := ⟨by simp,fun _ alive => .inl alive⟩

theorem Draft.alloc (draft : Draft m pid c held n) :
    ∃ n' b, memAlloc n true = (n',some b) ∧ Draft m pid c (b :: held) n' := by
  refine ⟨_,_,rfl,?_,?_⟩
  · rw [draft.same]
  · intro b alive
    rcases List.mem_cons.mp alive with rfl | before
    · exact .inr List.mem_cons_self
    · exact (draft.live b before).imp_right (List.mem_cons_of_mem _)

theorem Draft.list (draft : Draft m pid c held n) (answer : Bool) :
    ∃ n' l, listNew n answer = (n',l) ∧ l.isSome = answer ∧ Draft m pid c (chainBlocks l ++ held) n' := by
  cases answer with
  | false => exact ⟨n,none,rfl,rfl,draft⟩
  | true =>
    obtain ⟨n',b,given,draft'⟩ := draft.alloc
    exact ⟨n',some ⟨b,[]⟩,by simp [listNew,given],rfl,draft'⟩

theorem Draft.write (draft : Draft m pid c held n) (f : Process → Process) :
    Draft m pid (f c) held (n.setProc pid f) := by
  refine ⟨?_,draft.live⟩
  rw [draft.same]
  simp [Machine.setProc]

theorem Draft.tabProc (draft : Draft m pid c held n) : n.tabProc pid = c := by
  rw [draft.same]
  simp

theorem Draft.other (draft : Draft m pid c held n) {p : Int} (other : p ≠ pid) : n.tabProc p = m.tabProc p := by
  rw [draft.same]
  simp [other]

theorem Draft.pidCour (draft : Draft m pid c held n) : n.pidCour = m.pidCour := by rw [draft.same]

/-- The descriptor was not in use. -/
theorem Draft.covered (draft : Draft m pid c held n) (covered : Covered m [])
    (unused : (m.tabProc pid).valide = false) : Covered n held := by
  have keeps : Keeps m n [] := by
    rw [draft.same]
    refine ⟨?_,fun _ used _ member _ => ⟨used,member⟩,fun _ member _ => member,?_,fun _ owned _ => owned⟩
    · intro p _ used
      have other : p ≠ pid := by
        rintro rfl
        simp [unused] at used
      exact ⟨by simpa [other] using used,fun b member _ => by simpa [other] using member⟩
    · intro b buffer _ p fd opens
      have other : p ≠ pid := by
        rintro rfl
        simp [unused,Opens] at opens
      exact ⟨buffer,p,fd,by simpa [Opens,other] using opens⟩
  refine covered.change keeps ?_ (fun b member => absurd member List.not_mem_nil)
  intro b alive
  rcases draft.live b alive with before | member
  · exact .inl ⟨before,List.not_mem_nil⟩
  · exact .inr (.inr member)

theorem procfsNodes_draft (draft : Draft m pid c held n) {a : Nat → Bool} (granted : ∀ i, a i = true) :
    ∃ n' b₀ b₁ b₂ b₃, procfsNodes n pid a = (n',true) ∧
      Draft m pid { c with
          procfsNode := some b₀
          vfsStateNode := some b₁
          vfsParentNode := some b₂
          vfsNameNode := some b₃ }
        (b₃ :: b₂ :: b₁ :: b₀ :: held) n' := by
  obtain ⟨n₀,b₀,given₀,draft⟩ := draft.alloc
  obtain ⟨n₁,b₁,given₁,draft⟩ := (draft.write (fun c => { c with procfsNode := some b₀ })).alloc
  obtain ⟨n₂,b₂,given₂,draft⟩ := (draft.write (fun c => { c with vfsStateNode := some b₁ })).alloc
  obtain ⟨n₃,b₃,given₃,draft⟩ := (draft.write (fun c => { c with vfsParentNode := some b₂ })).alloc
  refine ⟨_,b₀,b₁,b₂,b₃,?_,draft.write (fun c => { c with vfsNameNode := some b₃ })⟩
  simp only [procfsNodes,granted,given₀,given₁,given₂,given₃]

/-- A creation that is granted all it asks for: the process has what was
    allocated, when it comes to the list of the parent. -/
theorem contextCreateUser_draft (free : freePid m = some pid) {a : Nat → Bool} (granted : ∀ i, i ≠ 3 → a i = true) :
    ∃ n c held, Draft m pid c held n ∧ (∀ b ∈ held, b ∈ blocks c) ∧ c.children ≠ none ∧
      ((listPutFirst n true n.parentList pid).2 = true →
        contextCreateUser m a true =
          ((listPutFirst n true n.parentList pid).1.setProc pid (fun c => { c with valide := true }),some pid)) := by
  obtain ⟨n₀,kernelStack,given₀,draft⟩ := (draft_start m pid).alloc
  obtain ⟨n₁,userStack,given₁,draft⟩ := draft.alloc
  obtain ⟨n₂,children,given₂,got,draft⟩ := draft.list true
  have there : children ≠ none := by
    rintro rfl
    cases got
  obtain ⟨n₃,sigs,given₃,-,draft⟩ := (draft.write (fun c => { c with
    state := .activable
    kernelStack := some kernelStack
    userStack := some userStack
    pidParent := n₂.pidCour
    children := children
    sidWait := 0 })).list (a 3)
  obtain ⟨n₄,name,given₄,draft⟩ := (draft.write (fun c => { c with sigs := sigs, curSig := false })).alloc
  obtain ⟨n₅,b₀,b₁,b₂,b₃,given₅,draft⟩ := procfsNodes_draft (draft.write (fun c => { c with
    name := some name
    fileDesc := (setupFiles (if n₄.pidCour = 0 then .to (.console 0) else ((n₄.tabProc n₄.pidCour).fileDesc 1).node)
      ⟨c.fileDesc,fsRoot,false⟩).fileDesc })) (a := fun i => a (i + 1 + 4))
    (fun i => granted _ (by omega))
  refine ⟨n₅,_,_,draft,?_,there,?_⟩
  · intro b member
    simp only [List.mem_cons,List.mem_append,List.not_mem_nil,or_false] at member
    simp only [blocks,List.mem_append,Option.mem_toList,Option.some.injEq]
    tauto
  · intro put
    have pair : listPutFirst n₅ true n₅.parentList pid = ((listPutFirst n₅ true n₅.parentList pid).1,true) :=
      Prod.ext rfl put
    simp only [contextCreateUser,free,nameAndAttach,granted 0 (by omega),granted 1 (by omega),granted 2 (by omega),
      granted 4 (by omega),granted 9 (by omega),given₀,given₁,given₂,given₃,given₄,there,reduceCtorEq,or_self,if_false]
    rw [given₅]
    dsimp only
    rw [pair]

end Draft

/-- A parent has a list for its children, in a descriptor of its own. -/
theorem parentList_setList {n : Machine} {pid : Int} (other : n.pidCour ≠ 0 → n.pidCour ≠ pid) (l : Chain) :
    (n.setList n.parentList l).tabProc pid = n.tabProc pid := by
  unfold Machine.parentList
  split
  · rename_i parent
    simp [Machine.setList,Machine.setProc,(other parent).symm]
  · rfl

/-! ### Dead processes -/

theorem listGetLast_state (m : Machine) (place : Place) (p : Int) :
    ((listGetLast m place).1.tabProc p).state = (m.tabProc p).state := by
  unfold listGetLast
  split
  · rfl
  · split
    · rfl
    · exact setList_field Process.state (fun _ _ => rfl) (fun _ _ => rfl) m place _ p

theorem trtSigs_state (m : Machine) (p : Int) : ((trtSigs m).tabProc p).state = (m.tabProc p).state := by
  unfold trtSigs
  split
  · rfl
  · split
    · rfl
    · split
      · rfl
      · rw [listGetLast_state]
        exact setProc_field Process.state (f := fun c => { c with curSig := true }) (fun _ => rfl) p

/-- No process waits for the collector. -/
def Idle (m : Machine) : Prop := ∀ p, (m.tabProc p).valide = true → (m.tabProc p).state ≠ .dead

theorem garbageCollector_idle (idle : Idle m) : garbageCollector m = m := by
  refine List.foldl_fixed' ?_ pids
  intro p
  unfold collect
  exact if_neg (fun dead => idle p dead.1 dead.2)

/-- What the collector gives back of a dead process: the stacks and the list of
    children. The name, the list of signals and the four nodes stay live. -/
theorem collect_live {pid : Int} (dead : (m.tabProc pid).valide = true ∧ (m.tabProc pid).state = .dead) (b : Nat) :
    b ∈ (collect m pid).live ↔ b ∈ m.live ∧ b ∉ (m.tabProc pid).kernelStack ∧ b ∉ (m.tabProc pid).userStack ∧
      b ∉ chainBlocks (m.tabProc pid).children := by
  simp only [collect,dead,and_self,if_true,listFree,foldl_memFree]
  simp only [Machine.setProc,List.mem_filter,Option.mem_toList,decide_not,Bool.not_eq_true',decide_eq_false_iff_not]
  tauto

/-- A creation that is refused one of its stacks answers -1 and keeps the other. -/
theorem contextCreateUser_half {pid : Int} (free : freePid m = some pid) {a : Nat → Bool} (half : a 0 ≠ a 1)
    (readable : Bool) : contextCreateUser m a readable = ((memAlloc m true).1,some (-1)) := by
  cases kernel : a 0 with
  | false =>
    have user : a 1 = true := by simpa [kernel] using half.symm
    simp [contextCreateUser,free,memAlloc,kernel,user]
  | true =>
    have user : a 1 = false := by simpa [kernel] using half.symm
    simp [contextCreateUser,free,memAlloc,kernel,user]

/-! ### Runs -/

/-- The invariant: every live block has an owner, and Init is there with the
    lists that processes need. -/
structure Sound (m : Machine) : Prop where
  covered : Covered m []
  current : m.pidCour = 0 ∨ (m.tabProc m.pidCour).valide = true
  init : ∀ p, (m.tabProc p).valide = true → (m.tabProc 1).valide = true
  children : ∀ p, (m.tabProc p).valide = true → (m.tabProc p).children ≠ none
  inTab : ∀ p, (m.tabProc p).valide = true → InTab p

theorem Sound.goes (sound : Sound m) (goes : Goes m m') : Sound m' where
  covered := goes.covered sound.covered
  current := by
    rw [goes.cour,goes.valide]
    exact sound.current
  init p used := by
    rw [goes.valide] at used ⊢
    exact sound.init p used
  children p used := by
    rw [goes.valide] at used
    exact goes.children p (sound.children p used)
  inTab p used := by
    rw [goes.valide] at used
    exact sound.inTab p used

theorem freePid_unused {pid : Int} (free : freePid m = some pid) : InTab pid ∧ (m.tabProc pid).valide = false := by
  have inside := List.mem_of_find?_eq_some free
  have unused := List.find?_some free
  exact ⟨(mem_pids pid).mp inside,by simpa using unused⟩

/-- Init is the first process. -/
theorem freePid_init {pid : Int} (free : freePid m = some pid) (other : pid ≠ 1) : (m.tabProc 1).valide = true := by
  by_contra unused
  have first : freePid m = some 1 := by
    have head : pids = 1 :: pids.tail := by decide
    rw [freePid,head,List.find?_cons_of_pos]
    simpa using unused
  rw [first] at free
  cases free
  exact other rfl

/-- The parent is another process, with a list of its own for its children. -/
theorem Draft.parent {n : Machine} {pid : Int} {c : Process} (draft : Draft m pid c held n) (sound : Sound m)
    (unused : (m.tabProc pid).valide = false) :
    (n.pidCour ≠ 0 → n.pidCour ≠ pid) ∧ Keeper n n.parentList ∧ ∃ l, n.list n.parentList = some l := by
  have known : n.pidCour ≠ 0 → n.pidCour ≠ pid ∧ (n.tabProc n.pidCour).valide = true ∧ InTab n.pidCour ∧
      (n.tabProc n.pidCour).children ≠ none := by
    intro user
    rw [draft.pidCour] at user ⊢
    have used := sound.current.resolve_left user
    have other : m.pidCour ≠ pid := by
      intro same
      rw [same,unused] at used
      cases used
    rw [draft.other other]
    exact ⟨other,used,sound.inTab _ used,sound.children _ used⟩
  refine ⟨fun user => (known user).1,?_⟩
  unfold Machine.parentList
  split
  · rename_i user
    obtain ⟨_,used,inTab,there⟩ := known user
    exact ⟨⟨inTab,used⟩,Option.ne_none_iff_exists'.mp there⟩
  · exact ⟨trivial,_,rfl⟩

/-- A creation that is granted what it asks for ends, and its process has what
    it was granted. -/
theorem contextCreateUser_granted (sound : Sound m) {pid : Int} (free : freePid m = some pid) {a : Nat → Bool}
    (granted : ∀ i, i ≠ 3 → a i = true) : ∃ n held, Covered n held ∧ (∀ b ∈ held, b ∈ blocks (n.tabProc pid)) ∧
      n.pidCour = m.pidCour ∧ (n.tabProc pid).children ≠ none ∧
      (∀ p, p ≠ pid → (n.tabProc p).valide = (m.tabProc p).valide ∧
        ((m.tabProc p).children ≠ none → (n.tabProc p).children ≠ none)) ∧
      contextCreateUser m a true = (n.setProc pid (fun c => { c with valide := true }),some pid) := by
  obtain ⟨inTab,unused⟩ := freePid_unused free
  obtain ⟨n,c,held,draft,drafted,there,ends⟩ := contextCreateUser_draft free granted
  obtain ⟨other,keeper,l,found⟩ := draft.parent sound unused
  have goes := listPutFirst_goes keeper true pid
  have put := listPutFirst_granted found pid
  have same : ((listPutFirst n true n.parentList pid).1).tabProc pid = c := by
    rw [put]
    exact (parentList_setList (n := (memAlloc n true).1) other _).trans draft.tabProc
  refine ⟨_,held,goes.covered (draft.covered sound.covered unused),?_,goes.cour.trans draft.pidCour,?_,?_,
    ends (by rw [put])⟩
  · rw [same]
    exact drafted
  · rw [same]
    exact there
  · intro p other
    have before := draft.other other
    refine ⟨by rw [goes.valide,before],?_⟩
    intro list
    exact goes.children p (by rwa [before])

theorem contextCreateUser_valide (sound : Sound m) {pid : Int} (free : freePid m = some pid) {a : Nat → Bool}
    (granted : ∀ i, i ≠ 3 → a i = true) (p : Int) :
    ((contextCreateUser m a true).1.tabProc p).valide = true ↔ p = pid ∨ (m.tabProc p).valide = true := by
  obtain ⟨n,_,_,_,_,_,others,result⟩ := contextCreateUser_granted sound free granted
  rw [result]
  by_cases here : p = pid
  · subst here
    simp [Machine.setProc]
  · simp [Machine.setProc,here,(others p here).1]

theorem contextCreateUser_sound (sound : Sound m) {pid : Int} (free : freePid m = some pid) {a : Nat → Bool}
    (granted : ∀ i, i ≠ 3 → a i = true) : Sound (contextCreateUser m a true).1 := by
  obtain ⟨inTab,unused⟩ := freePid_unused free
  have valid := contextCreateUser_valide sound free granted
  obtain ⟨n,held,covered,owned,cour,there,others,result⟩ := contextCreateUser_granted sound free granted
  rw [result] at valid ⊢
  refine ⟨?_,?_,?_,?_,?_⟩
  · have keeps : Keeps n (n.setProc pid (fun c => { c with valide := true })) [] :=
      setProc_keeps (fun _ => rfl) (fun _ b member _ => member) rfl
    refine covered.change keeps (fun b alive => .inl ⟨alive,List.not_mem_nil⟩) ?_
    intro b member _
    refine .inl (@Owned.process _ _ pid inTab ?_ ?_)
    · simp [Machine.setProc]
    · simp only [Machine.setProc,Function.update_self]
      exact owned b member
  · rw [valid]
    exact sound.current.imp cour.trans (fun used => .inr (cour ▸ used))
  · intro p used
    rw [valid]
    by_cases first : pid = 1
    · exact .inl first.symm
    · exact .inr (freePid_init free first)
  · intro p used
    by_cases here : p = pid
    · subst here
      simpa [Machine.setProc] using there
    · have before := ((valid p).mp used).resolve_left here
      simpa [Machine.setProc,here] using (others p here).2 (sound.children p before)
  · intro p used
    rcases (valid p).mp used with rfl | before
    · exact inTab
    · exact sound.inTab p before

theorem contextSwitch_sound (sound : Sound m) {pid : Int} (next : pid = 0 ∨ (m.tabProc pid).valide = true)
    (idle : Idle m) : Sound (contextSwitch m pid) := by
  have moved : Sound { m with pidCour := pid } := by
    refine ⟨?_,next,sound.init,sound.children,sound.inTab⟩
    intro b alive
    exact (sound.covered b alive).imp_left (fun owned => owned.same rfl rfl rfl rfl rfl rfl)
  have goes := trtSigs_goes { m with pidCour := pid }
  unfold contextSwitch
  rw [garbageCollector_idle]
  · exact moved.goes goes
  · intro p used
    rw [goes.valide] at used
    rw [trtSigs_state]
    exact idle p used

/-- Steps that give back what they were given: a creation is refused both of its
    stacks or nothing, but for the list of signals; `exit` and `kill` find memory
    for every child; no dead process is collected; no list and no buffer is
    written over. -/
def Frugal (m : Machine) : Event → Prop
  | .create a readable => freePid m = none ∨ (a 0 = false ∧ a 1 = false) ∨ (readable = true ∧ ∀ i, i ≠ 3 → a i = true)
  | .exit a | .kill _ a => a 0 = true → ∀ i, a (i + 1) = true
  | .switch _ => Idle m
  | .sigaction signalid => signalid ≠ NBSIG
  | .openFile node answer =>
    node = kikoo → Spent m ∧ (answer = true → slot (m.tabProc m.pidCour).fileDesc ≠ none)
  | .close fd => 0 ≤ fd ∧ fd < DTABLESIZE
  | .setStdout node =>
    node = kikoo ∨ Spent m ∨ ¬ Opens m m.pidCour 1 ∨ ∃ p fd, Opens m p fd ∧ ¬ (p = m.pidCour ∧ fd = 1)
  | _ => True

theorem setStdout_goes {node : Node} (kept : Frugal m (.setStdout node)) : Goes m (setStdout m node) := by
  refine setFile_goes ?_
  intro b buffer alive p fd opens
  by_cases other : p = m.pidCour ∧ fd = 1
  · obtain ⟨rfl,rfl⟩ := other
    rcases kept with rfl | spent | closed | ⟨p,fd,opens',other⟩
    · obtain ⟨inTab,used,present,_⟩ := opens
      refine ⟨m.pidCour,1,inTab,?_,?_,?_⟩
      · simpa [Machine.setFile,Machine.setProc] using used
      · simpa [Machine.setFile,Machine.setProc] using present
      · simp [Machine.setFile,Machine.setProc]
    · exact absurd alive (spent b buffer)
    · exact absurd opens closed
    · exact ⟨p,fd,opens'.setFile _ other⟩
  · exact ⟨p,fd,opens.setFile _ other⟩

theorem serve_sound (sound : Sound m) {e : Event} (enabled : Enabled m e) (frugal : Frugal m e) :
    Sound (serve m e) := by
  have init (user : m.pidCour ≠ 0) : (m.tabProc 1).valide = true := sound.init _ (sound.current.resolve_left user)
  cases e with
  | create a readable =>
    cases free : freePid m with
    | none => simpa [serve,contextCreateUser,free] using sound
    | some pid =>
      rcases frugal with full | ⟨kernelStack,userStack⟩ | ⟨rfl,granted⟩
      · rw [free] at full
        cases full
      · simpa [serve,contextCreateUser,free,memAlloc,kernelStack,userStack] using sound
      · exact contextCreateUser_sound sound free granted
  | exit a => exact sound.goes (endProcess_goes frugal (init enabled) (sound.children 1 (init enabled)))
  | kill pid a => exact sound.goes (kill_goes pid frugal (init enabled) (sound.children 1 (init enabled)))
  | waitpid found answer => exact sound.goes (waitpid_goes m found answer)
  | reap child => exact sound.goes (reap_goes m child)
  | screate compteur answer => exact sound.goes (screate_goes m compteur answer)
  | wait sid answer => exact sound.goes (wait_goes m sid answer)
  | tryWait sid => exact sound.goes (tryWait_goes m sid)
  | signaln sid count => exact sound.goes (signaln_goes m sid count)
  | sdelete sid answer => exact sound.goes (sdelete_goes m sid answer)
  | sreset sid count => exact sound.goes (sreset_goes m sid count)
  | semInfo answers => exact sound.goes (semInfo_goes m answers)
  | signalSend pid signalid answer => exact sound.goes (signalSend_goes (sound.inTab pid) signalid answer)
  | sigaction signalid =>
    have kept : sigaction m signalid = if ¬ IsSignal signalid then m.panic else m := by
      unfold sigaction
      split
      · rfl
      · exact if_neg frugal
    show Sound (sigaction m signalid)
    rw [kept]
    split
    · exact sound.goes (panic_goes m)
    · exact sound
  | sigReturn =>
    exact sound.goes (setProc_goes m m.pidCour (f := fun c => { c with curSig := false }) (fun _ => rfl)
      (fun _ => rfl) (fun _ => rfl) (fun _ => rfl))
  | openFile node answer =>
    have used := sound.current.resolve_left enabled
    exact sound.goes (openFile_goes (sound.inTab _ used) used node answer frugal)
  | close fd => exact sound.goes (close_goes m fd)
  | setStdout node => exact sound.goes (setStdout_goes frugal)
  | switch pid => exact contextSwitch_sound sound enabled frugal
  | become pid state => exact sound.goes (setState_goes m pid state)

theorem boot_sound (boot : Boot m) : Sound m := by
  have unused (p : Int) : (m.tabProc p).valide ≠ true := by simp [boot.processes p]
  refine ⟨?_,.inl boot.idle,fun p used => absurd used (unused p),fun p used => absurd used (unused p),
    fun p used => absurd used (unused p)⟩
  intro b alive
  rcases (boot.live b).mp alive with free | children | kept
  · exact .inl (.sidLibres free)
  · exact .inl (.kernel (.inl children))
  · exact .inl (.kernel (.inr kept))

theorem step_sound (sound : Sound m) {e : Event} (frugal : Frugal m e) (stepped : step m e = some m') : Sound m' := by
  unfold step at stepped
  split at stepped
  · cases stepped
  · rename_i running
    cases stepped
    refine serve_sound sound ?_ frugal
    by_contra disabled
    exact running (.inr disabled)

theorem reach_sound (reached : Reach Frugal m) : Sound m :=
  Runs.Reach.invariant (P := Sound) (fun _ => boot_sound)
    (fun _ _ _ sound frugal stepped => step_sound sound frugal stepped) reached

/-! ### A process that comes and goes -/

theorem step_serve {e : Event} (running : m.halted = false) (enabled : Enabled m e) : step m e = some (serve m e) := by
  simp [step,running,enabled]

theorem collect_valide {pid p : Int} (used : ((collect m pid).tabProc p).valide = true) :
    (m.tabProc p).valide = true := by
  unfold collect at used
  dsimp only at used
  split at used
  · simp only [listFree,foldl_memFree] at used
    by_cases here : p = pid
    · subst here
      simp [Machine.setProc] at used
    · simpa [Machine.setProc,here] using used
  · exact used

theorem contextSwitch_valide {pid p : Int} (used : ((contextSwitch m pid).tabProc p).valide = true) :
    (m.tabProc p).valide = true := by
  have collected (places : List Int) : ∀ n : Machine, ((places.foldl collect n).tabProc p).valide = true →
      (n.tabProc p).valide = true := by
    induction places with
    | nil => exact fun _ => id
    | cons place rest ih => exact fun n used => collect_valide (ih _ used)
  unfold contextSwitch garbageCollector at used
  have before := collected pids _ used
  rw [(trtSigs_goes _).valide] at before
  exact before

/-- A start: `sem_init` has put the semaphores into `sid_libres`. -/
def started : Machine where
  next := NBSEM.toNat + 6
  live := List.range (NBSEM.toNat + 6)
  tabProc := fun _ => ⟨false,.active,0,0,none,none,none,none,none,false,none,none,none,none,fun _ => ⟨false,.null,0⟩⟩
  pidCour := 0
  semaphores := fun _ => ⟨0,none,false⟩
  sidLibres := ⟨0,(List.range NBSEM.toNat).map (fun (i : Nat) => (NBSEM - 1 - (i : Int),i + 1))⟩
  kikoobuf := none
  kernelChildren := ⟨NBSEM.toNat + 1,[]⟩
  boot := [NBSEM.toNat + 2,NBSEM.toNat + 3,NBSEM.toNat + 4,NBSEM.toNat + 5]
  halted := false

theorem started_free (b : Nat) : b ∈ chainBlocks (some started.sidLibres) ↔ b < NBSEM.toNat + 1 := by
  simp only [started,chainBlocks,List.map_map,List.mem_cons,List.mem_map,List.mem_range,Function.comp_apply]
  constructor
  · rintro (rfl | ⟨i,below,rfl⟩) <;> omega
  · intro below
    cases b with
    | zero => exact .inl rfl
    | succ i => exact .inr ⟨i,by omega,rfl⟩

theorem started_boot : Boot started := by
  refine ⟨fun _ => ⟨rfl,rfl,rfl⟩,fun _ => rfl,rfl,?_,?_⟩
  · intro b
    rw [started_free]
    simp only [started,chainBlocks,List.map_nil,List.mem_cons,List.mem_range,List.not_mem_nil,or_false]
    omega
  · intro b alive
    simpa [started] using alive

/-- The kernel has created Init. -/
def withInit : Machine := (contextCreateUser started (fun _ => true) true).1

/-- Init runs. -/
def inInit : Machine := contextSwitch withInit 1

/-- Init has started a process. -/
def parent : Machine := (contextCreateUser inInit (fun _ => true) true).1

/-- Init has killed the process. -/
def killed : Machine := kill parent 2 (fun _ => true)

/-- The collector has come by. -/
def ended : Machine := contextSwitch killed 0

theorem withInit_valide {p : Int} (used : (withInit.tabProc p).valide = true) : p = 1 := by
  have free : freePid started = some 1 := by decide
  have valid := contextCreateUser_valide (boot_sound started_boot) free (a := fun _ => true) (fun _ _ => rfl) p
  exact (valid.mp used).resolve_right (by simp [started])

theorem withInit_reach : Reach Frugal withInit := by
  have granted : Frugal started (.create (fun _ => true) true) := .inr (.inr ⟨rfl,fun _ _ => rfl⟩)
  exact .next (.start started_boot) granted (step_serve rfl trivial)

set_option maxRecDepth 20000 in
theorem inInit_reach : Reach Frugal inInit := by
  have idle : Idle withInit := by
    intro p used
    rw [withInit_valide used]
    decide
  exact .next (e := .switch 1) withInit_reach idle (step_serve rfl (.inr (by decide)))

theorem inInit_valide {p : Int} (used : (inInit.tabProc p).valide = true) : p = 1 := by
  unfold inInit at used
  exact withInit_valide (contextSwitch_valide used)

set_option maxRecDepth 20000 in
theorem parent_reach : Reach Frugal parent := by
  have granted : Frugal inInit (.create (fun _ => true) true) := .inr (.inr ⟨rfl,fun _ _ => rfl⟩)
  exact .next inInit_reach granted (step_serve (by decide) trivial)

set_option maxRecDepth 20000 in
theorem parent_valide {p : Int} (used : (parent.tabProc p).valide = true) : p = 2 ∨ p = 1 := by
  have free : freePid inInit = some 2 := by decide
  have valid := contextCreateUser_valide (reach_sound inInit_reach) free (a := fun _ => true) (fun _ _ => rfl) p
  exact (valid.mp used).imp_right inInit_valide

set_option maxRecDepth 20000 in
theorem ended_valide {p : Int} (used : (ended.tabProc p).valide = true) : p = 1 := by
  have gone : (ended.tabProc 2).valide = false := by decide
  have goes : Goes parent killed := kill_goes 2 (fun _ _ => rfl) (by decide) (by decide)
  have other : p ≠ 2 := by
    rintro rfl
    rw [gone] at used
    cases used
  unfold ended at used
  have before := contextSwitch_valide used
  rw [goes.valide] at before
  exact (parent_valide before).resolve_left other

set_option maxRecDepth 20000 in
theorem ended_owned {b : Nat} (owned : Owned ended b) : b ≤ 10016 := by
  cases owned with
  | @process p _ used member =>
    rw [ended_valide used] at member
    have init : ∀ b ∈ blocks (ended.tabProc 1), b ≤ 10016 := by decide
    exact init b member
  | semaphore used _ =>
    have same : ended.semaphores = started.semaphores := rfl
    rw [same] at used
    cases used
  | sidLibres member =>
    have same : ended.sidLibres = started.sidLibres := rfl
    rw [same,started_free] at member
    simp only [NBSEM] at member
    omega
  | file buffer _ =>
    have same : ended.kikoobuf = none := rfl
    rw [same] at buffer
    cases buffer
  | kernel kept =>
    have kernel : ∀ b ∈ chainBlocks (some ended.kernelChildren) ++ ended.boot, b ≤ 10016 := by decide
    exact kernel b (List.mem_append.mpr kept)

/-- In the runs in which every step gives back what it was given, every live
    block has an owner. -/
theorem frugal_owned (reached : Reach Frugal m) : ∀ b ∈ m.live, Owned m b := by
  intro b alive
  rcases (reach_sound reached).covered b alive with owned | held
  · exact owned
  · cases held

set_option maxRecDepth 20000 in
theorem frugal_owned_parent : ∃ m : Machine, Reach Frugal m ∧ (m.tabProc 1).valide = true ∧
    (m.tabProc 2).valide = true ∧ ∀ b ∈ m.live, Owned m b :=
  ⟨parent,parent_reach,by decide,by decide,frugal_owned parent_reach⟩

set_option maxRecDepth 20000 in
/-- The name of a process outlives it. -/
theorem name_unowned : ¬ ∀ m : Machine, Reach (fun _ _ => True) m → ∀ b ∈ m.live, Owned m b := by
  intro claim
  have grown : Reach (fun _ _ => True) parent := parent_reach.weaken (fun _ _ _ => trivial)
  have dead : Reach (fun _ _ => True) killed :=
    .next (e := .kill 2 (fun _ => true)) grown trivial (step_serve (by decide) (by decide))
  have reached : Reach (fun _ _ => True) ended :=
    .next (e := .switch 0) dead trivial (step_serve (by decide) (.inl rfl))
  -- the block that process 2 had for its name
  have alive : 10021 ∈ ended.live := by decide
  have low := ended_owned (claim ended reached 10021 alive)
  omega

end Psys.Leaks
