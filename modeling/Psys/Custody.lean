import Psys.Blocks

/-!
Who owns a block, and the changes that leave every live block with an owner.
-/
namespace Psys.Custody
open Psys.State Psys.Vfs Psys.Blocks
open Psys.Handlers (FileDescriptor)
open Psys.Descriptors (slot slot_free)

/-- The blocks of a process: its stacks, its name, its lists and its four nodes. -/
def blocks (c : Process) : List Nat :=
  c.kernelStack.toList ++ c.userStack.toList ++ c.name.toList ++ chainBlocks c.children ++ chainBlocks c.sigs ++
    c.procfsNode.toList ++ c.vfsStateNode.toList ++ c.vfsParentNode.toList ++ c.vfsNameNode.toList

/-- The descriptor has `/kikoo` open. -/
def Opens (m : Machine) (p fd : Int) : Prop :=
  InTab p ∧ (m.tabProc p).valide = true ∧ ((m.tabProc p).fileDesc fd).present = true ∧
    ((m.tabProc p).fileDesc fd).node = .to kikoo

/-- The owners of blocks. The last one is the kernel, since its start. -/
inductive Owned (m : Machine) (b : Nat) : Prop
  | process {p : Int} : InTab p → (m.tabProc p).valide = true → b ∈ blocks (m.tabProc p) → Owned m b
  | semaphore {sid : Int} : (m.semaphores sid).valide = true → b ∈ chainBlocks (m.semaphores sid).procWait → Owned m b
  | sidLibres : b ∈ chainBlocks (some m.sidLibres) → Owned m b
  | file {p fd : Int} : m.kikoobuf = some b → Opens m p fd → Owned m b
  | kernel : b ∈ chainBlocks (some m.kernelChildren) ∨ b ∈ m.boot → Owned m b

/-- Every live block has an owner or is held by the function that runs. -/
def Covered (m : Machine) (held : List Nat) : Prop := ∀ b ∈ m.live, Owned m b ∨ b ∈ held

/-- The owners keep what they have, but for some blocks. -/
structure Keeps (m m' : Machine) (lost : List Nat) : Prop where
  processes : ∀ p, InTab p → (m.tabProc p).valide = true → (m'.tabProc p).valide = true ∧
    ∀ b ∈ blocks (m.tabProc p), b ∉ lost → b ∈ blocks (m'.tabProc p)
  semaphores : ∀ sid, (m.semaphores sid).valide = true → ∀ b ∈ chainBlocks (m.semaphores sid).procWait, b ∉ lost →
    (m'.semaphores sid).valide = true ∧ b ∈ chainBlocks (m'.semaphores sid).procWait
  sidLibres : ∀ b ∈ chainBlocks (some m.sidLibres), b ∉ lost → b ∈ chainBlocks (some m'.sidLibres)
  file : ∀ b, m.kikoobuf = some b → b ∉ lost → ∀ p fd, Opens m p fd → m'.kikoobuf = some b ∧ ∃ p fd, Opens m' p fd
  kernel : ∀ b, b ∈ chainBlocks (some m.kernelChildren) ∨ b ∈ m.boot → b ∉ lost →
    b ∈ chainBlocks (some m'.kernelChildren) ∨ b ∈ m'.boot

theorem keeps_refl (m : Machine) (lost : List Nat) : Keeps m m lost :=
  ⟨fun _ _ used => ⟨used,fun _ member _ => member⟩,fun _ used _ member _ => ⟨used,member⟩,fun _ member _ => member,
    fun _ buffer _ _ _ opens => ⟨buffer,_,_,opens⟩,fun _ kept _ => kept⟩

theorem Keeps.owned {m m' : Machine} {lost : List Nat} (keeps : Keeps m m' lost) {b : Nat} (owned : Owned m b)
    (other : b ∉ lost) : Owned m' b := by
  cases owned with
  | @process p inTab valid member =>
    obtain ⟨valid',same⟩ := keeps.processes p inTab valid
    exact .process inTab valid' (same b member other)
  | @semaphore sid valid member =>
    obtain ⟨valid',member'⟩ := keeps.semaphores sid valid b member other
    exact .semaphore valid' member'
  | sidLibres member => exact .sidLibres (keeps.sidLibres b member other)
  | @file p fd buffer opens =>
    obtain ⟨buffer',p',fd',opens'⟩ := keeps.file b buffer other p fd opens
    exact .file buffer' opens'
  | kernel kept => exact .kernel (keeps.kernel b kept other)

/-- The rule for a change: what is live afterwards was live and stays with its
    owner, or is new and owned or held. -/
theorem Covered.change {m m' : Machine} {held held' lost : List Nat} (covered : Covered m held)
    (keeps : Keeps m m' lost)
    (live : ∀ b ∈ m'.live, b ∈ m.live ∧ b ∉ lost ∨ Owned m' b ∨ b ∈ held')
    (holds : ∀ b ∈ held, b ∈ m'.live → Owned m' b ∨ b ∈ held') : Covered m' held' := by
  intro b alive
  rcases live b alive with ⟨before,other⟩ | owner
  · rcases covered b before with owned | member
    · exact .inl (keeps.owned owned other)
    · exact holds b member alive
  · exact owner

variable {m : Machine} {held lost : List Nat}

/-! ### Writes to descriptors -/

/-- A field that the write leaves alone. -/
theorem setProc_field {α : Type} (g : Process → α) {pid : Int} {f : Process → Process} (kept : ∀ c, g (f c) = g c)
    (p : Int) : g ((m.setProc pid f).tabProc p) = g (m.tabProc p) := by
  by_cases here : p = pid
  · subst here
    simp [Machine.setProc,kept]
  · simp [Machine.setProc,here]

theorem Opens.setProc {p fd pid : Int} (opens : Opens m p fd) {f : Process → Process}
    (valid : (m.tabProc pid).valide = true → (f (m.tabProc pid)).valide = true)
    (files : (f (m.tabProc pid)).fileDesc = (m.tabProc pid).fileDesc) : Opens (m.setProc pid f) p fd := by
  obtain ⟨inTab,used,present,node⟩ := opens
  by_cases same : p = pid
  · subst same
    refine ⟨inTab,?_,?_,?_⟩
    · simpa [Machine.setProc] using valid used
    · simpa [Machine.setProc,files] using present
    · simpa [Machine.setProc,files] using node
  · exact ⟨inTab,by simpa [Machine.setProc,same] using used,by simpa [Machine.setProc,same] using present,
      by simpa [Machine.setProc,same] using node⟩

theorem setProc_keeps {pid : Int} {f : Process → Process}
    (valid : (m.tabProc pid).valide = true → (f (m.tabProc pid)).valide = true)
    (same : (m.tabProc pid).valide = true → ∀ b ∈ blocks (m.tabProc pid), b ∉ lost → b ∈ blocks (f (m.tabProc pid)))
    (files : (f (m.tabProc pid)).fileDesc = (m.tabProc pid).fileDesc) : Keeps m (m.setProc pid f) lost where
  processes p inTab used := by
    by_cases here : p = pid
    · subst here
      simpa [Machine.setProc] using ⟨valid used,same used⟩
    · simp only [Machine.setProc,Function.update_of_ne here]
      exact ⟨used,fun _ member _ => member⟩
  semaphores := (keeps_refl m lost).semaphores
  sidLibres := (keeps_refl m lost).sidLibres
  file _ buffer _ _ _ opens := ⟨buffer,_,_,opens.setProc valid files⟩
  kernel := (keeps_refl m lost).kernel

/-- A write that concerns no block. -/
theorem setProc_covered (covered : Covered m held) (pid : Int) {f : Process → Process}
    (valid : ∀ c, (f c).valide = c.valide) (same : ∀ c, blocks (f c) = blocks c)
    (files : ∀ c, (f c).fileDesc = c.fileDesc) :
    Covered (m.setProc pid f) held := by
  have keeps : Keeps m (m.setProc pid f) [] :=
    setProc_keeps (fun used => by rw [valid,used]) (fun _ b member _ => by rw [same]; exact member) (files _)
  exact covered.change keeps (fun b alive => .inl ⟨alive,List.not_mem_nil⟩) (fun b member _ => .inr member)

theorem setSem_keeps {sid : Int} {f : Blocks.Semaphore → Blocks.Semaphore}
    (same : (m.semaphores sid).valide = true → ∀ b ∈ chainBlocks (m.semaphores sid).procWait, b ∉ lost →
      (f (m.semaphores sid)).valide = true ∧ b ∈ chainBlocks (f (m.semaphores sid)).procWait) :
    Keeps m (m.setSem sid f) lost where
  processes := (keeps_refl m lost).processes
  semaphores s used b member other := by
    by_cases here : s = sid
    · subst here
      simpa [Machine.setSem] using same used b member other
    · simp only [Machine.setSem,Function.update_of_ne here]
      exact ⟨used,member⟩
  sidLibres := (keeps_refl m lost).sidLibres
  file := (keeps_refl m lost).file
  kernel := (keeps_refl m lost).kernel

theorem setSem_covered (covered : Covered m held) (sid : Int) {f : Blocks.Semaphore → Blocks.Semaphore}
    (valid : ∀ s, (f s).valide = s.valide) (same : ∀ s, (f s).procWait = s.procWait) :
    Covered (m.setSem sid f) held := by
  have keeps : Keeps m (m.setSem sid f) [] :=
    setSem_keeps (fun used b member _ => ⟨by rw [valid,used],by rw [same]; exact member⟩)
  exact covered.change keeps (fun b alive => .inl ⟨alive,List.not_mem_nil⟩) (fun b member _ => .inr member)

/-! ### Allocation -/

/-- Owners stay when no other field changes than the stock of blocks, the
    current process and the assertion that failed. -/
theorem Owned.same {m' : Machine} {b : Nat} (owned : Owned m b) (tabProc : m'.tabProc = m.tabProc)
    (semaphores : m'.semaphores = m.semaphores) (sidLibres : m'.sidLibres = m.sidLibres)
    (kikoobuf : m'.kikoobuf = m.kikoobuf) (kernelChildren : m'.kernelChildren = m.kernelChildren)
    (boot : m'.boot = m.boot) : Owned m' b := by
  cases owned with
  | @process p inTab valid member => exact .process inTab (by rwa [tabProc]) (by rwa [tabProc])
  | @semaphore sid valid member => exact @Owned.semaphore _ _ sid (by rwa [semaphores]) (by rwa [semaphores])
  | sidLibres member => exact .sidLibres (by rwa [sidLibres])
  | @file p fd buffer opens => exact @Owned.file _ _ p fd (by rwa [kikoobuf]) (by rwa [Opens,tabProc])
  | kernel kept => exact .kernel (by rwa [kernelChildren,boot])

theorem Covered.panic (covered : Covered m held) : Covered m.panic held :=
  fun b alive => (covered b alive).imp_left (fun owned => owned.same rfl rfl rfl rfl rfl rfl)

theorem memAlloc_covered (covered : Covered m held) (answer : Bool) :
    Covered (memAlloc m answer).1 ((memAlloc m answer).2.toList ++ held) := by
  cases answer with
  | false => exact covered
  | true =>
    intro b alive
    rcases List.mem_cons.mp alive with rfl | before
    · exact .inr (List.mem_cons_self)
    · exact (covered b before).imp (fun owned => owned.same rfl rfl rfl rfl rfl rfl) (List.mem_cons_of_mem _)

theorem memFree_covered {block : Nat} (covered : Covered m (block :: held)) : Covered (memFree m block) held := by
  intro b alive
  obtain ⟨before,other⟩ := List.mem_filter.mp alive
  rcases covered b before with owned | member
  · exact .inl (owned.same rfl rfl rfl rfl rfl rfl)
  · rcases List.mem_cons.mp member with same | member
    · simp [same] at other
    · exact .inr member

/-- Blocks that somebody owns may be freed. -/
theorem Covered.weaken (covered : Covered m held) {held' : List Nat} (sub : ∀ b ∈ held, b ∈ held') : Covered m held' :=
  fun b alive => (covered b alive).imp_right (sub b)

/-! ### Lists -/

/-- The place belongs to an owner. -/
def Keeper (m : Machine) : Place → Prop
  | .children pid | .sigs pid => InTab pid ∧ (m.tabProc pid).valide = true
  | .procWait sid => (m.semaphores sid).valide = true
  | .sidLibres | .kernelChildren => True

theorem owned_of_list {place : Place} (keeper : Keeper m place) {l : Chain} (found : m.list place = some l) {b : Nat}
    (member : b ∈ chainBlocks (some l)) : Owned m b := by
  cases place with
  | children pid =>
    have kept : b ∈ chainBlocks (m.tabProc pid).children := by
      rw [show (m.tabProc pid).children = some l from found]
      exact member
    exact .process keeper.1 keeper.2 (by simp [blocks,kept])
  | sigs pid =>
    have kept : b ∈ chainBlocks (m.tabProc pid).sigs := by
      rw [show (m.tabProc pid).sigs = some l from found]
      exact member
    exact .process keeper.1 keeper.2 (by simp [blocks,kept])
  | procWait sid =>
    have kept : b ∈ chainBlocks (m.semaphores sid).procWait := by
      rw [show (m.semaphores sid).procWait = some l from found]
      exact member
    exact .semaphore keeper kept
  | sidLibres =>
    cases found
    exact .sidLibres member
  | kernelChildren =>
    cases found
    exact .kernel (.inl member)

/-- The blocks of a descriptor, list by list. -/
theorem mem_blocks {c : Process} {b : Nat} : b ∈ blocks c ↔
    b ∈ chainBlocks c.children ∨ b ∈ chainBlocks c.sigs ∨
      b ∈ c.kernelStack.toList ++ c.userStack.toList ++ c.name.toList ++ c.procfsNode.toList ++ c.vfsStateNode.toList ++
        c.vfsParentNode.toList ++ c.vfsNameNode.toList := by
  simp only [blocks,List.mem_append]
  tauto

theorem setList_keeps {place : Place} {l l' : Chain} (found : m.list place = some l)
    (same : ∀ b ∈ chainBlocks (some l), b ∉ lost → b ∈ chainBlocks (some l')) : Keeps m (m.setList place l') lost := by
  cases place with
  | children pid =>
    have list : (m.tabProc pid).children = some l := found
    refine setProc_keeps (f := fun c => { c with children := some l' }) id ?_ rfl
    intro _ b member other
    rw [mem_blocks] at member ⊢
    rw [list] at member
    exact member.imp_left (fun kept => same b kept other)
  | sigs pid =>
    have list : (m.tabProc pid).sigs = some l := found
    refine setProc_keeps (f := fun c => { c with sigs := some l' }) id ?_ rfl
    intro _ b member other
    rw [mem_blocks] at member ⊢
    rw [list] at member
    exact member.imp_right (fun rest => rest.imp_left (fun kept => same b kept other))
  | procWait sid =>
    have list : (m.semaphores sid).procWait = some l := found
    refine setSem_keeps (f := fun s => { s with procWait := some l' }) ?_
    intro used b member other
    rw [list] at member
    exact ⟨used,same b member other⟩
  | sidLibres =>
    cases found
    exact { keeps_refl m lost with sidLibres := same }
  | kernelChildren =>
    cases found
    exact { keeps_refl m lost with kernel := fun b kept other => kept.imp_left (fun member => same b member other) }

@[simp] theorem setList_live (m : Machine) (place : Place) (l : Chain) : (m.setList place l).live = m.live := by
  cases place <;> rfl

theorem setList_list (m : Machine) (place : Place) (l : Chain) : (m.setList place l).list place = some l := by
  cases place <;> simp [Machine.setList,Machine.list,Machine.setProc,Machine.setSem]

theorem Keeper.setList {place : Place} (keeper : Keeper m place) (l : Chain) : Keeper (m.setList place l) place := by
  cases place with
  | children pid => simpa [Machine.setList,Keeper,Machine.setProc] using keeper
  | sigs pid => simpa [Machine.setList,Keeper,Machine.setProc] using keeper
  | procWait sid => simpa [Machine.setList,Keeper,Machine.setSem] using keeper
  | sidLibres => trivial
  | kernelChildren => trivial

theorem listPutFirst_none {place : Place} (found : m.list place = none) (answer : Bool) (element : Int) :
    listPutFirst m answer place element = (m.panic,false) := by simp [listPutFirst,found]

theorem listPutFirst_refused {place : Place} {l : Chain} (found : m.list place = some l) (element : Int) :
    listPutFirst m false place element = (m,false) := by simp [listPutFirst,found,memAlloc]

theorem listPutFirst_granted {place : Place} {l : Chain} (found : m.list place = some l) (element : Int) :
    listPutFirst m true place element =
      ((memAlloc m true).1.setList place { l with cells := (element,m.next) :: l.cells },true) := by
  simp [listPutFirst,found,memAlloc]

/-- A cell is added. -/
theorem listPutFirst_covered (covered : Covered m held) {place : Place} (keeper : Keeper m place) (answer : Bool)
    (element : Int) : Covered (listPutFirst m answer place element).1 held := by
  cases found : m.list place with
  | none =>
    rw [listPutFirst_none found]
    exact covered.panic
  | some l =>
    cases answer with
    | false =>
      rw [listPutFirst_refused found]
      exact covered
    | true =>
      rw [listPutFirst_granted found]
      -- The cell is held until the list has it.
      have given := memAlloc_covered covered true
      have listed : (memAlloc m true).1.list place = some l := by rw [← found]; cases place <;> rfl
      have keeper' : Keeper (memAlloc m true).1 place := by cases place <;> exact keeper
      have keeps : Keeps (memAlloc m true).1
          ((memAlloc m true).1.setList place { l with cells := (element,m.next) :: l.cells }) [] := by
        refine setList_keeps listed ?_
        intro b member _
        simp only [chainBlocks,List.map_cons,List.mem_cons] at member ⊢
        tauto
      refine given.change keeps ?_ ?_
      · intro b alive
        rw [setList_live] at alive
        exact .inl ⟨alive,List.not_mem_nil⟩
      · intro b member _
        rcases List.mem_cons.mp member with rfl | before
        · exact .inl (owned_of_list (keeper'.setList _) (setList_list _ _ _) (by simp [chainBlocks]))
        · exact .inr before

/-- A cell is taken out and freed. -/
theorem take_covered (covered : Covered m held) {place : Place} {l l' : Chain} {cell : Nat}
    (found : m.list place = some l) (same : ∀ b ∈ chainBlocks (some l), b ≠ cell → b ∈ chainBlocks (some l')) :
    Covered (memFree (m.setList place l') cell) held := by
  have keeps : Keeps m (m.setList place l') [cell] :=
    setList_keeps found (fun b member other => same b member (fun e => other (e ▸ List.mem_cons_self)))
  have between : Covered (m.setList place l') (cell :: held) := by
    refine covered.change keeps ?_ (fun b member _ => .inr (List.mem_cons_of_mem _ member))
    intro b alive
    rw [setList_live] at alive
    by_cases same : b = cell
    · exact .inr (.inr (same ▸ List.mem_cons_self))
    · exact .inl ⟨alive,by simpa using same⟩
  exact memFree_covered between

/-! ### Changes that lose no block -/

/-- The processes stay, with their lists, and every live block keeps an owner. -/
structure Goes (m m' : Machine) : Prop where
  cour : m'.pidCour = m.pidCour
  valide : ∀ p, (m'.tabProc p).valide = (m.tabProc p).valide
  children : ∀ p, (m.tabProc p).children ≠ none → (m'.tabProc p).children ≠ none
  covered : ∀ {held}, Covered m held → Covered m' held

variable {m' m'' : Machine}

theorem Goes.refl (m : Machine) : Goes m m := ⟨rfl,fun _ => rfl,fun _ => id,id⟩

theorem Goes.trans (first : Goes m m') (second : Goes m' m'') : Goes m m'' where
  cour := second.cour.trans first.cour
  valide p := (second.valide p).trans (first.valide p)
  children p there := second.children p (first.children p there)
  covered covered := second.covered (first.covered covered)

/-- The tables stay. -/
theorem goes_of_tabProc (cour : m'.pidCour = m.pidCour) (same : m'.tabProc = m.tabProc)
    (covered : ∀ {held}, Covered m held → Covered m' held) : Goes m m' :=
  ⟨cour,fun p => by rw [same],fun p there => by rwa [same],covered⟩

theorem panic_goes (m : Machine) : Goes m m.panic := goes_of_tabProc rfl rfl Covered.panic

theorem setProc_goes (m : Machine) (pid : Int) {f : Process → Process} (valid : ∀ c, (f c).valide = c.valide)
    (children : ∀ c, (f c).children = c.children) (same : ∀ c, blocks (f c) = blocks c)
    (files : ∀ c, (f c).fileDesc = c.fileDesc) : Goes m (m.setProc pid f) := by
  exact ⟨rfl,setProc_field Process.valide valid,fun p there => by rwa [setProc_field Process.children children],
    fun covered => setProc_covered covered pid valid same files⟩

theorem setSem_goes (m : Machine) (sid : Int) {f : Blocks.Semaphore → Blocks.Semaphore}
    (valid : ∀ s, (f s).valide = s.valide) (same : ∀ s, (f s).procWait = s.procWait) : Goes m (m.setSem sid f) :=
  goes_of_tabProc rfl rfl (fun covered => setSem_covered covered sid valid same)

theorem setState_goes (m : Machine) (pid : Int) (state : ProcState) :
    Goes m (m.setProc pid (fun c => { c with state := state })) :=
  setProc_goes m pid (fun _ => rfl) (fun _ => rfl) (fun _ => rfl) (fun _ => rfl)

theorem setCount_goes (m : Machine) (sid : Int) (f : Int → Int) :
    Goes m (m.setSem sid (fun s => { s with c := f s.c })) := setSem_goes m sid (fun _ => rfl) (fun _ => rfl)

theorem memFree_goes (m : Machine) (block : Nat) : Goes m (memFree m block) :=
  goes_of_tabProc rfl rfl (fun covered => memFree_covered (covered.weaken (fun _ => List.mem_cons_of_mem _)))

/-- What is allocated for the time of a change is freed after it. -/
theorem bracket_goes (between : Goes (memAlloc m true).1 m') : Goes m (memFree m' m.next) :=
  ⟨between.cour,between.valide,between.children,
    fun covered => memFree_covered (between.covered (memAlloc_covered covered true))⟩

theorem setList_field {α : Type} (g : Process → α) (children : ∀ c l, g { c with children := l } = g c)
    (sigs : ∀ c l, g { c with sigs := l } = g c) (m : Machine) (place : Place) (l : Chain) (p : Int) :
    g ((m.setList place l).tabProc p) = g (m.tabProc p) := by
  cases place with
  | children pid => exact setProc_field g (fun c => children c l) p
  | sigs pid => exact setProc_field g (fun c => sigs c l) p
  | procWait | sidLibres | kernelChildren => rfl

theorem setList_valide (m : Machine) (place : Place) (l : Chain) (p : Int) :
    ((m.setList place l).tabProc p).valide = (m.tabProc p).valide :=
  setList_field Process.valide (fun _ _ => rfl) (fun _ _ => rfl) m place l p

theorem setList_children (m : Machine) (place : Place) (l : Chain) (p : Int) (there : (m.tabProc p).children ≠ none) :
    ((m.setList place l).tabProc p).children ≠ none := by
  cases place with
  | children pid => by_cases here : p = pid <;> simp [Machine.setList,Machine.setProc,here,there]
  | sigs pid =>
    have same : ((m.setList (.sigs pid) l).tabProc p).children = (m.tabProc p).children :=
      setProc_field Process.children (f := fun c => { c with sigs := some l }) (fun _ => rfl) p
    rwa [same]
  | procWait | sidLibres | kernelChildren => exact there

theorem setList_pidCour (m : Machine) (place : Place) (l : Chain) : (m.setList place l).pidCour = m.pidCour := by
  cases place <;> rfl

theorem listPutFirst_goes {place : Place} (keeper : Keeper m place) (answer : Bool) (element : Int) :
    Goes m (listPutFirst m answer place element).1 := by
  cases found : m.list place with
  | none =>
    rw [listPutFirst_none found]
    exact panic_goes m
  | some l =>
    cases answer with
    | false =>
      rw [listPutFirst_refused found]
      exact .refl m
    | true =>
      have covers {held : List Nat} (covered : Covered m held) := listPutFirst_covered covered keeper true element
      rw [listPutFirst_granted found] at covers ⊢
      exact ⟨setList_pidCour _ place _,setList_valide _ place _,setList_children (memAlloc m true).1 place _,covers⟩

/-- A list loses a cell that is freed. -/
theorem take_goes {place : Place} {l l' : Chain} {cell : Nat} (found : m.list place = some l)
    (same : ∀ b ∈ chainBlocks (some l), b ≠ cell → b ∈ chainBlocks (some l')) :
    Goes m (memFree (m.setList place l') cell) :=
  ⟨setList_pidCour m place l',setList_valide m place l',setList_children m place l',
    fun covered => take_covered covered found same⟩

theorem listGetFirst_goes (m : Machine) (place : Place) : Goes m (listGetFirst m place).1 := by
  unfold listGetFirst
  cases found : m.list place with
  | none => exact panic_goes m
  | some l =>
    cases cells : l.cells with
    | nil => simpa [cells] using Goes.refl m
    | cons first rest =>
      simp only [cells]
      refine take_goes found ?_
      intro b member other
      simp only [chainBlocks,cells,List.map_cons,List.mem_cons] at member ⊢
      tauto

theorem listGetLast_goes (m : Machine) (place : Place) : Goes m (listGetLast m place).1 := by
  unfold listGetLast
  cases found : m.list place with
  | none => exact panic_goes m
  | some l =>
    cases last : l.cells.getLast? with
    | none => simpa [last] using Goes.refl m
    | some cell =>
      have split := List.dropLast_append_getLast? cell last
      simp only [last]
      refine take_goes found ?_
      intro b member other
      rw [chainBlocks,← split] at member
      simp only [List.map_append,List.map_cons,List.map_nil,List.mem_cons,List.mem_append,List.not_mem_nil,
        or_false] at member
      simp only [chainBlocks,List.mem_cons]
      tauto

theorem listDelete_goes (m : Machine) (place : Place) (e : Int) : Goes m (listDelete m place e) := by
  unfold listDelete
  cases found : m.list place with
  | none => exact panic_goes m
  | some l =>
    cases first : l.cells.find? (fun cell => cell.1 = e) with
    | none => simpa [first] using Goes.refl m
    | some cell =>
      simp only [first]
      refine take_goes found ?_
      intro b member other
      simp only [chainBlocks,List.mem_cons,List.mem_map] at member ⊢
      rcases member with rfl | ⟨cell',inside,rfl⟩
      · exact .inl rfl
      · refine .inr ⟨cell',(List.mem_erase_of_ne ?_).mpr inside,rfl⟩
        rintro rfl
        exact other rfl

/-! ### Semaphores, signals, processes -/

theorem iterate_goes {answer : Bool} (done : iterate m answer = some m') : Goes m m' := by
  cases answer with
  | false => simp [iterate,memAlloc] at done
  | true =>
    have same : m' = memFree (memAlloc m true).1 m.next := by simpa [iterate,memAlloc,eq_comm] using done
    rw [same]
    exact bracket_goes (.refl _)

theorem semInfo_goes (m : Machine) (answers : List Bool) : Goes m (semInfo m answers) := by
  induction answers generalizing m with
  | nil => exact .refl m
  | cons answer rest ih =>
    simp only [semInfo]
    cases done : iterate m answer with
    | none => exact .refl m
    | some m' => exact (iterate_goes done).trans (ih m')

theorem reap_goes (m : Machine) (child : Int) : Goes m (reap m child) :=
  (setState_goes m child .dead).trans (listDelete_goes _ _ _)

theorem waitpid_goes (m : Machine) (found : Option Int) (answer : Bool) : Goes m (waitpid m found answer) := by
  unfold waitpid
  cases done : iterate m answer with
  | none => exact .refl m
  | some m' =>
    cases found with
    | none => exact iterate_goes done
    | some child => exact (iterate_goes done).trans (reap_goes m' child)

theorem tryWait_goes (m : Machine) (sid : Int) : Goes m (tryWait m sid) := by
  unfold tryWait
  split
  · exact .refl m
  · split
    · exact setCount_goes m sid (fun c => c - 1)
    · exact .refl m

theorem wait_goes (m : Machine) (sid : Int) (answer : Bool) : Goes m (wait m sid answer) := by
  unfold wait
  split
  · exact .refl m
  · rename_i passed
    have has : m.HasSem sid := by
      by_contra missing
      exact passed (.inl missing)
    have counted := setCount_goes m sid (fun c => c - 1)
    dsimp only
    split
    · refine counted.trans (.trans (setProc_goes _ _ (f := fun c => { c with state := .waitSem, sidWait := sid })
        (fun _ => rfl) (fun _ => rfl) (fun _ => rfl) (fun _ => rfl)) (listPutFirst_goes ?_ answer _))
      simpa [Keeper,Machine.setProc,Machine.setSem] using has.2.2
    · exact counted

theorem signalOne_goes (m : Machine) (sid : Int) : Goes m (signalOne m sid) := by
  have counted := setCount_goes m sid (fun c => c + 1)
  unfold signalOne
  dsimp only
  split
  · exact counted.trans (listGetLast_goes _ _)
  · exact counted

theorem foldl_goes {α : Type} {f : Machine → α → Machine} (one : ∀ m x, Goes m (f m x)) (xs : List α) (m : Machine) :
    Goes m (xs.foldl f m) := by
  induction xs generalizing m with
  | nil => exact .refl m
  | cons x rest ih => exact (one m x).trans (ih (f m x))

theorem signaln_goes (m : Machine) (sid count : Int) : Goes m (signaln m sid count) := by
  unfold signaln
  split
  · exact .refl m
  · exact foldl_goes (fun m _ => signalOne_goes m sid) _ m

theorem drain_goes (m : Machine) (sid : Int) (turns : Nat) : Goes m (drain m sid turns) := by
  induction turns generalizing m with
  | zero => exact .refl m
  | succ turns ih => exact (listGetFirst_goes m _).trans (ih _)

theorem sreset_goes (m : Machine) (sid count : Int) : Goes m (sreset m sid count) := by
  unfold sreset
  split
  · exact .refl m
  · exact (setCount_goes m sid (fun _ => count)).trans (drain_goes _ _ _)

theorem foldl_memFree (bs : List Nat) (m : Machine) :
    bs.foldl memFree m = { m with live := m.live.filter (fun b => b ∉ bs) } := by
  induction bs generalizing m with
  | nil => simp
  | cons b rest ih => simp [ih,memFree,List.filter_filter,Bool.and_comm]

/-- The list of a semaphore is freed, and the semaphore given up. -/
theorem giveUp_goes (m : Machine) (sid : Int) :
    Goes m ((listFree m (m.semaphores sid).procWait).setSem sid (fun s => { s with valide := false })) := by
  rw [listFree,foldl_memFree]
  refine goes_of_tabProc rfl rfl ?_
  intro held covered
  have keeps : Keeps m (m.setSem sid (fun s => { s with valide := false })) (chainBlocks (m.semaphores sid).procWait) :=
    setSem_keeps (fun _ b member other => absurd member other)
  refine covered.change ⟨keeps.processes,keeps.semaphores,keeps.sidLibres,keeps.file,keeps.kernel⟩ ?_
    (fun b member _ => .inr member)
  intro b alive
  obtain ⟨before,other⟩ := List.mem_filter.mp alive
  exact .inl ⟨before,by simpa using other⟩

theorem sdelete_goes (m : Machine) (sid : Int) (answer : Bool) : Goes m (sdelete m sid answer) := by
  unfold sdelete
  split
  · exact .refl m
  · have keeper (m : Machine) : Keeper m .sidLibres := trivial
    exact (drain_goes m sid _).trans ((giveUp_goes _ sid).trans (listPutFirst_goes (keeper _) answer sid))

/-- A semaphore that is not in use gets its list. -/
theorem screate_goes (m : Machine) (compteur : Int) (answer : Bool) : Goes m (screate m compteur answer) := by
  unfold screate
  split
  · exact .refl m
  · have taken := listGetFirst_goes m .sidLibres
    generalize listGetFirst m .sidLibres = result at taken
    obtain ⟨n,sid⟩ := result
    dsimp only at taken ⊢
    split
    · exact taken.trans (panic_goes n)
    · rename_i unused
      refine taken.trans ?_
      cases answer with
      | false =>
        refine goes_of_tabProc rfl rfl ?_
        intro held covered
        have keeps : Keeps n (n.setSem sid (fun s => { s with c := compteur, procWait := none })) [] :=
          setSem_keeps (fun used => absurd used unused)
        exact covered.change keeps (fun b alive => .inl ⟨alive,List.not_mem_nil⟩) (fun b member _ => .inr member)
      | true =>
        refine goes_of_tabProc rfl rfl ?_
        intro held covered
        have given := memAlloc_covered covered true
        have keeps : Keeps (memAlloc n true).1
            ((memAlloc n true).1.setSem sid
              (fun s => { s with c := compteur, procWait := some ⟨n.next,[]⟩, valide := true })) [] :=
          setSem_keeps (fun used => absurd used unused)
        refine given.change keeps (fun b alive => .inl ⟨alive,List.not_mem_nil⟩) ?_
        intro b member _
        rcases List.mem_cons.mp member with rfl | before
        · refine .inl (@Owned.semaphore _ _ sid ?_ ?_) <;> simp [Machine.setSem,listNew,memAlloc,chainBlocks]
        · exact .inr before

theorem signalSend_goes {pid : Int} (inTab : (m.tabProc pid).valide = true → InTab pid) (signalid : Int)
    (answer : Bool) : Goes m (signalSend m pid signalid answer) := by
  unfold signalSend
  split
  · exact panic_goes m
  · rename_i passed
    have used : (m.tabProc pid).valide = true := by
      by_contra unused
      exact passed (.inl (by simpa using unused))
    have keeper : Keeper m (.sigs pid) := ⟨inTab used,used⟩
    exact listPutFirst_goes keeper answer signalid

/-- The processes that `exit` and `kill` pass on find a place at Init. -/
theorem reparent_goes {a : Nat → Bool} (granted : ∀ i, a i = true) (children : List Int) :
    ∀ {m : Machine}, (m.tabProc 1).valide = true → (m.tabProc 1).children ≠ none →
      (reparent m a children).2 = true ∧ Goes m (reparent m a children).1 := by
  induction children generalizing a with
  | nil => exact fun _ _ => ⟨rfl,.refl _⟩
  | cons child rest ih =>
    intro m init there
    simp only [reparent]
    split
    · have dead := setState_goes m child .dead
      obtain ⟨done,goes⟩ := ih granted (by rw [dead.valide]; exact init) (dead.children 1 there)
      exact ⟨done,dead.trans goes⟩
    · have moved := setProc_goes m child (f := fun c => { c with pidParent := 1 }) (fun _ => rfl) (fun _ => rfl)
        (fun _ => rfl) (fun _ => rfl)
      generalize m.setProc child (fun c => { c with pidParent := 1 }) = n at moved ⊢
      have keeper : Keeper n (.children 1) := ⟨by decide,by rw [moved.valide]; exact init⟩
      obtain ⟨l,found⟩ : ∃ l, n.list (.children 1) = some l := Option.ne_none_iff_exists'.mp (moved.children 1 there)
      have goes := moved.trans (listPutFirst_goes keeper true child)
      rw [listPutFirst_granted found] at goes
      rw [granted 0,listPutFirst_granted found]
      obtain ⟨done,later⟩ := ih (a := fun i => a (i + 1)) (fun i => granted (i + 1)) (by rw [goes.valide]; exact init)
        (goes.children 1 there)
      exact ⟨done,goes.trans later⟩

theorem endProcess_goes {a : Nat → Bool} {pid : Int} (granted : a 0 = true → ∀ i, a (i + 1) = true)
    (init : (m.tabProc 1).valide = true) (there : (m.tabProc 1).children ≠ none) : Goes m (endProcess m a pid) := by
  unfold endProcess
  cases found : (m.tabProc pid).children with
  | none => exact panic_goes m
  | some l =>
    cases answer : a 0 with
    | false => exact .refl m
    | true =>
      have between := reparent_goes (a := fun i => a (i + 1)) (granted answer) (l.cells.map Prod.fst)
        (m := (memAlloc m true).1) init there
      generalize result : reparent (memAlloc m true).1 (fun i => a (i + 1)) (l.cells.map Prod.fst) = pair at between
      obtain ⟨n,done⟩ := pair
      obtain ⟨rfl,goes⟩ := between
      have freed : Goes m (memFree n m.next) := bracket_goes goes
      have step : (memAlloc m true) = ((memAlloc m true).1,some m.next) := rfl
      rw [step]
      dsimp only
      rw [result]
      dsimp only
      split
      · exact freed.trans (setState_goes _ _ _)
      · exact freed.trans ((setState_goes _ _ _).trans (listDelete_goes _ _ _))

theorem kill_goes {a : Nat → Bool} (pid : Int) (granted : a 0 = true → ∀ i, a (i + 1) = true)
    (init : (m.tabProc 1).valide = true) (there : (m.tabProc 1).children ≠ none) : Goes m (kill m pid a) := by
  unfold kill
  dsimp only
  split
  · exact .refl m
  · have counted : Goes m (if (m.tabProc pid).state = .waitSem then
        m.setSem (m.tabProc pid).sidWait (fun s => { s with c := short (s.c + 1) }) else m) := by
      split
      · exact setCount_goes m _ (fun c => short (c + 1))
      · exact .refl m
    refine counted.trans (endProcess_goes granted ?_ (counted.children 1 there))
    rw [counted.valide]
    exact init

theorem trtSigs_goes (m : Machine) : Goes m (trtSigs m) := by
  unfold trtSigs
  split
  · exact .refl m
  · cases sigs : (m.tabProc m.pidCour).sigs with
    | none => exact panic_goes m
    | some l =>
      dsimp only
      split
      · exact .refl m
      · exact (setProc_goes m m.pidCour (f := fun c => { c with curSig := true }) (fun _ => rfl) (fun _ => rfl)
          (fun _ => rfl) (fun _ => rfl)).trans (listGetLast_goes _ _)

/-! ### Files -/

theorem setFile_keeps {fd : Int} {f : FileDescriptor → FileDescriptor}
    (kept : ∀ b, m.kikoobuf = some b → b ∉ lost → ∀ p fd', Opens m p fd' → ∃ p fd', Opens (m.setFile fd f) p fd') :
    Keeps m (m.setFile fd f) lost where
  processes p inTab used := by
    by_cases here : p = m.pidCour
    · subst here
      exact ⟨by simpa [Machine.setFile,Machine.setProc] using used,
        fun b member _ => by simpa [Machine.setFile,Machine.setProc,blocks] using member⟩
    · simp only [Machine.setFile,Machine.setProc,Function.update_of_ne here]
      exact ⟨used,fun _ member _ => member⟩
  semaphores := (keeps_refl m lost).semaphores
  sidLibres := (keeps_refl m lost).sidLibres
  file b buffer other p fd' opens := ⟨buffer,kept b buffer other p fd' opens⟩
  kernel := (keeps_refl m lost).kernel

/-- Another descriptor stays as it is. -/
theorem Opens.setFile {p fd fd' : Int} (opens : Opens m p fd') (f : FileDescriptor → FileDescriptor)
    (other : ¬ (p = m.pidCour ∧ fd' = fd)) : Opens (m.setFile fd f) p fd' := by
  obtain ⟨inTab,used,present,node⟩ := opens
  by_cases here : p = m.pidCour
  · subst here
    have apart : fd' ≠ fd := fun same => other ⟨rfl,same⟩
    exact ⟨inTab,by simpa [Machine.setFile,Machine.setProc] using used,
      by simpa [Machine.setFile,Machine.setProc,apart] using present,
      by simpa [Machine.setFile,Machine.setProc,apart] using node⟩
  · refine ⟨inTab,?_,?_,?_⟩ <;> simpa [Machine.setFile,Machine.setProc,here]

/-- A write to a descriptor, when the buffer of `/kikoo` stays open or is not live. -/
theorem setFile_goes {fd : Int} {f : FileDescriptor → FileDescriptor}
    (kept : ∀ b ∈ m.kikoobuf, b ∈ m.live → ∀ p fd', Opens m p fd' → ∃ p fd', Opens (m.setFile fd f) p fd') :
    Goes m (m.setFile fd f) := by
  refine ⟨rfl,setProc_field Process.valide (fun _ => rfl),fun p there => ?_,?_⟩
  · have same : ((m.setFile fd f).tabProc p).children = (m.tabProc p).children :=
      setProc_field Process.children
        (f := fun c => { c with fileDesc := Function.update c.fileDesc fd (f (c.fileDesc fd)) }) (fun _ => rfl) p
    rwa [same]
  intro held covered
  have keeps : Keeps m (m.setFile fd f) (m.kikoobuf.toList.filter (fun b => b ∉ m.live)) := by
    refine setFile_keeps ?_
    intro b buffer other
    refine kept b buffer ?_
    by_contra spent
    exact other (List.mem_filter.mpr ⟨by simp [buffer],by simpa using spent⟩)
  refine covered.change keeps ?_ (fun b member _ => .inr member)
  intro b alive
  refine .inl ⟨alive,fun spent => ?_⟩
  have gone : b ∉ m.live := by simpa using (List.mem_filter.mp spent).2
  exact gone alive

theorem fdAlloc_goes (m : Machine) (node : Node) : Goes m (fdAlloc m node) := by
  unfold fdAlloc
  cases free : slot (m.tabProc m.pidCour).fileDesc with
  | none => exact .refl m
  | some fd =>
    refine setFile_goes ?_
    intro _ _ _ p fd' opens
    refine ⟨p,fd',opens.setFile _ ?_⟩
    rintro ⟨rfl,rfl⟩
    have absent := (slot_free free).2.2
    rw [opens.2.2.1] at absent
    cases absent

/-- The buffer of `/kikoo` is freed or was never there. -/
def Spent (m : Machine) : Prop := ∀ b ∈ m.kikoobuf, b ∉ m.live

/-- The pointer to the buffer is overwritten. -/
theorem kikoobuf_covered (covered : Covered m held) (spent : ∀ b ∈ m.kikoobuf, b ∈ m.live → b ∈ held)
    (buffer : Option Nat) : Covered { m with kikoobuf := buffer } held := by
  have keeps : Keeps m { m with kikoobuf := buffer } m.kikoobuf.toList :=
    { keeps_refl m m.kikoobuf.toList with file := fun _ found other => absurd (by simp [found]) other }
  refine covered.change keeps ?_ (fun b member _ => .inr member)
  intro b alive
  by_cases found : b ∈ m.kikoobuf
  · exact .inr (.inr (spent b found alive))
  · exact .inl ⟨alive,by simpa using found⟩

theorem Covered.settle {b : Nat} (covered : Covered m (b :: held)) (owned : Owned m b) : Covered m held := by
  intro b' alive
  rcases covered b' alive with other | member
  · exact .inl other
  · rcases List.mem_cons.mp member with rfl | member
    · exact .inl owned
    · exact .inr member

theorem openFile_goes (inTab : InTab m.pidCour) (used : (m.tabProc m.pidCour).valide = true) (node : Node)
    (answer : Bool) (room : node = kikoo → Spent m ∧ (answer = true → slot (m.tabProc m.pidCour).fileDesc ≠ none)) :
    Goes m (openFile m node answer) := by
  unfold openFile
  split
  · rename_i same
    obtain ⟨spent,free⟩ := room same
    cases answer with
    | false =>
      refine goes_of_tabProc rfl rfl ?_
      exact fun covered => kikoobuf_covered covered (fun b found alive => absurd alive (spent b found)) none
    | true =>
      obtain ⟨fd,found⟩ := Option.ne_none_iff_exists'.mp (free rfl)
      -- The machine with the new block, which the descriptor takes.
      let n : Machine := { (memAlloc m true).1 with kikoobuf := some m.next }
      have opened : fdAlloc n node = n.setFile fd (fun _ => ⟨true,.to node,0⟩) := by
        have there : slot (n.tabProc n.pidCour).fileDesc = some fd := found
        simp only [fdAlloc,there]
      have goes := fdAlloc_goes n node
      refine ⟨goes.cour,goes.valide,goes.children,?_⟩
      intro held covered
      have given : Covered n (m.next :: held) := by
        refine kikoobuf_covered (memAlloc_covered covered true) ?_ _
        intro b pointed alive
        rcases List.mem_cons.mp alive with rfl | old
        · exact List.mem_cons_self
        · exact absurd old (spent b pointed)
      refine (goes.covered given).settle ?_
      rw [opened]
      refine @Owned.file _ _ m.pidCour fd rfl ⟨inTab,?_,?_,?_⟩
      · simpa [n,Machine.setFile,Machine.setProc,memAlloc] using used
      · simp [n,Machine.setFile,Machine.setProc,memAlloc]
      · simp [n,Machine.setFile,Machine.setProc,memAlloc,same]
  · exact fdAlloc_goes m node

theorem fdFree_goes {fd : Int} (kept : Spent m ∨ ((m.tabProc m.pidCour).fileDesc fd).node ≠ .to kikoo) :
    Goes m (fdFree m fd) := by
  unfold fdFree
  split
  · exact .refl m
  · refine setFile_goes ?_
    intro b buffer alive p fd' opens
    rcases kept with spent | other
    · exact absurd alive (spent b buffer)
    · refine ⟨p,fd',opens.setFile _ ?_⟩
      rintro ⟨rfl,rfl⟩
      exact other opens.2.2.2

theorem close_goes (m : Machine) (fd : Int) : Goes m (close m fd) := by
  unfold close
  split
  · exact .refl m
  · exact .refl m
  · rename_i node found
    split
    · rename_i callback
      refine fdFree_goes (.inr ?_)
      rw [found]
      intro same
      cases same
      cases callback
    · exact .refl m
    · have freed := foldl_goes memFree_goes m.kikoobuf.toList m
      refine freed.trans (fdFree_goes (.inl ?_))
      rw [foldl_memFree]
      intro b buffer alive
      have other := (List.mem_filter.mp alive).2
      have buffer : m.kikoobuf = some b := buffer
      simp [buffer] at other

end Psys.Custody
