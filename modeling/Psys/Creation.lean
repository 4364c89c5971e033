import Psys.Processes

/-!
What `context_create_user` does to the processes.
-/
namespace Psys.Creation
open Psys.State Psys.Context Psys.ProcQueue Psys.Family Psys.Processes

theorem freePid_unused {t : Int → Context} {pid : Int} (found : freePid t = some pid) : InTab pid ∧ ¬ InUse t pid := by
  have member := List.mem_of_find?_eq_some found
  have free := List.find?_some found
  simp only [Bool.not_eq_true'] at free
  exact ⟨(mem_pids pid).mp member,fun used => by simp [used.2] at free⟩

theorem contextCreateUser_pidCour (k : Procs) (priority : Int) (memory : Memory) :
    (contextCreateUser k priority memory).1.pidCour = k.pidCour := by
  unfold contextCreateUser
  split
  · rfl
  · split
    · rfl
    · dsimp only
      split
      · rfl
      · split
        · rfl
        · split
          · rfl
          · simp only [wakeupProcess_pidCour,Procs.setProc_pidCour,apply_ite Procs.pidCour,ite_self]

/-- The console or file that a new process writes to. -/
def stdoutOf (k : Procs) : Int := if k.pidCour = 0 then 100 else (k.tabProc k.pidCour).stdout

/-- The descriptor of a new process. -/
def fresh (k : Procs) (pid priority : Int) : Context :=
  { k.tabProc pid with
    state := .activable
    priority := priority
    pidParent := k.pidCour
    killed := false
    children := []
    sidWait := 0
    sidReseted := false
    sidDeleted := false
    stdout := stdoutOf k
    frame := .user
    valide := true }

/-- The table when a new process is woken up for the first time. -/
def created (k : Procs) (pid priority : Int) (q : Int) : Context :=
  if q = pid then fresh k pid priority
  else { k.tabProc q with
    children := if q = k.pidCour ∧ k.pidCour ≠ 0 then pid :: (k.tabProc q).children else (k.tabProc q).children }

/-- A descriptor that is given up when something is refused after its stacks. -/
def givenUp (k : Procs) (priority : Int) (memory : Memory) (c : Context) : Context :=
  { c with
    state := .activable
    priority := priority
    pidParent := k.pidCour
    killed := false
    children := []
    sidWait := 0
    sidReseted := false
    sidDeleted := false
    stdout := if memory.children = true ∧ memory.name = true then stdoutOf k else c.stdout }

/-- The value of a creation that is given up, which only checks the list of
    children. -/
def givenUpValue (memory : Memory) : Option Int := if memory.children = false then some (-1) else none

section
variable {k : Procs} {pid : Int} {memory : Memory} (found : freePid k.tabProc = some pid) (stack : memory.stack = true)
include found stack

theorem contextCreateUser_givenUp (unserved : ¬ memory.Serves) (priority : Int) :
    contextCreateUser k priority memory = (k.setProc pid (givenUp k priority memory),givenUpValue memory) := by
  unfold contextCreateUser
  rw [found]
  obtain ⟨_,children,name,nodes⟩ := memory
  subst stack
  cases children with
  | false => rfl
  | true =>
    cases name with
    | false => rfl
    | true =>
      have refused : nodes = false := by simpa [Memory.Serves] using unserved
      subst refused
      refine Prod.ext (congrArg (fun t => { k with tabProc := t }) (funext fun q => ?_)) rfl
      by_cases taken : q = pid ∧ InTab pid
      · by_cases own : k.pidCour = pid <;> simp [taken,givenUp,stdoutOf,own]
      · simp [taken]

theorem contextCreateUser_created (cour : k.pidCour = 0 ∨ InUse k.tabProc k.pidCour) (serves : memory.Serves)
    (priority : Int) : contextCreateUser k priority memory =
      (wakeupProcess { k with tabProc := created k pid priority } pid,some pid) := by
  obtain ⟨inside,unused⟩ := freePid_unused found
  have other : k.pidCour ≠ pid := by
    rintro rfl
    rcases cour with idle | used
    · simp [idle,InTab] at inside
    · exact unused used
  unfold contextCreateUser
  simp only [found,stack,serves.1,serves.2.1,serves.2.2,Bool.true_eq_false,if_false]
  refine Prod.ext (congrArg (wakeupProcess · pid) ?_) rfl
  simp only [Procs.setProc_pidCour]
  by_cases idle : k.pidCour = 0
  · rw [if_neg (not_not.mpr idle)]
    refine congrArg (fun t => { k with tabProc := t }) (funext fun q => ?_)
    by_cases same : q = pid
    · subst same; simp [created,fresh,inside,idle,stdoutOf]
    · ext <;> simp [created,same,idle]
  · rw [if_pos idle]
    have used := cour.resolve_left idle
    refine congrArg (fun t => { k with tabProc := t }) (funext fun q => ?_)
    by_cases same : q = pid
    · subst same; simp [created,fresh,inside,idle,other,other.symm,stdoutOf]
    · by_cases current : q = k.pidCour
      · subst current; ext <;> simp [created,other,used.1,idle]
      · ext <;> simp [created,same,current]

end

/-- The three ways through `context_create_user`. -/
theorem contextCreateUser_cases {k : Procs} (cour : k.pidCour = 0 ∨ InUse k.tabProc k.pidCour) (priority : Int)
    (memory : Memory) :
    (freePid k.tabProc = none ∨ memory.stack = false) ∧ contextCreateUser k priority memory = (k,some (-1)) ∨
      ∃ pid, freePid k.tabProc = some pid ∧ memory.stack = true ∧
        (¬ memory.Serves ∧
            contextCreateUser k priority memory = (k.setProc pid (givenUp k priority memory),givenUpValue memory) ∨
          memory.Serves ∧
            contextCreateUser k priority memory =
              (wakeupProcess { k with tabProc := created k pid priority } pid,some pid)) := by
  cases found : freePid k.tabProc with
  | none =>
    refine .inl ⟨.inl rfl,?_⟩
    unfold contextCreateUser
    rw [found]
  | some pid =>
    by_cases stack : memory.stack = false
    · refine .inl ⟨.inr stack,?_⟩
      unfold contextCreateUser
      simp [found,stack]
    · have stack := Bool.eq_true_of_not_eq_false stack
      refine .inr ⟨pid,rfl,stack,?_⟩
      by_cases serves : memory.Serves
      · exact .inr ⟨serves,contextCreateUser_created found stack cour serves priority⟩
      · exact .inl ⟨serves,contextCreateUser_givenUp found stack serves priority⟩

/-- Something is refused that `context_create_user` does not check. -/
structure Stumbles (t : Int → Context) (memory : Memory) : Prop where
  room : freePid t ≠ none
  stack : memory.stack = true
  children : memory.children = true
  unserved : ¬ memory.Serves

instance (t : Int → Context) (memory : Memory) : Decidable (Stumbles t memory) :=
  decidable_of_iff (freePid t ≠ none ∧ memory.stack = true ∧ memory.children = true ∧ ¬ memory.Serves)
    ⟨fun ⟨room,stack,children,unserved⟩ => ⟨room,stack,children,unserved⟩,
      fun ⟨room,stack,children,unserved⟩ => ⟨room,stack,children,unserved⟩⟩

/-- Then the process that creates takes a page fault, and has written to the
    free descriptor only. -/
theorem contextCreateUser_none {k : Procs} (cour : k.pidCour = 0 ∨ InUse k.tabProc k.pidCour) {priority : Int}
    {memory : Memory} (fault : (contextCreateUser k priority memory).2 = none) :
    Stumbles k.tabProc memory ∧ ∃ pid, freePid k.tabProc = some pid ∧
      (contextCreateUser k priority memory).1 = k.setProc pid (givenUp k priority memory) := by
  rcases contextCreateUser_cases cour priority memory with ⟨_,same⟩ | ⟨pid,found,stack,⟨unserved,same⟩ | ⟨_,same⟩⟩
  · simp [same] at fault
  · rw [same] at fault
    have children : memory.children = true := by
      by_contra refused
      simp [givenUpValue,refused] at fault
    exact ⟨⟨by simp [found],stack,children,unserved⟩,pid,found,by rw [same]⟩
  · simp [same] at fault

/-- Waking the new process up finds it activable already. -/
theorem created_wakeup (k : Procs) (pid priority : Int) :
    (wakeupProcess { k with tabProc := created k pid priority } pid).tabProc = created k pid priority := by
  funext q
  by_cases new : q = pid
  · ext <;> simp [new,created,fresh]
  · ext <;> simp [new]

section
variable {k : Procs} {pid : Int} (unused : ¬ InUse k.tabProc pid) (inTab : InTab pid)

theorem created_live {priority : Int} (q : Int) (other : q ≠ pid) :
    Live (created k pid priority) q ↔ Live k.tabProc q := by
  simp [Live,InUse,created,other]

include unused inTab

theorem created_tree (tree : Tree k.tabProc) (live : Live k.tabProc k.pidCour) (priority : Int) :
    Tree (created k pid priority) := by
  have different : k.pidCour ≠ pid := fun same => unused (same ▸ live.1)
  have busy : k.pidCour ≠ 0 := fun idle => by have := live.1.1; simp [idle,InTab] at this
  have old : ∀ p, Live k.tabProc p → pid ∉ (k.tabProc p).children := fun p liveP member =>
    unused (tree.child p liveP pid member).1
  have kept : ∀ c, c ≠ pid → (created k pid priority c).pidParent = (k.tabProc c).pidParent ∧
      (created k pid priority c).state = (k.tabProc c).state ∧
      (InUse (created k pid priority) c ↔ InUse k.tabProc c) := fun c other => by simp [created,other,InUse]
  refine ⟨fun p liveP => ?_,fun p liveP c member => ?_,fun c used alive above => ?_,fun c used zombie => ?_,
    fun c used above => ?_⟩
  · by_cases new : p = pid
    · simp [created,fresh,new]
    · have before := (created_live p new).mp liveP
      by_cases current : p = k.pidCour
      · subst current
        simp [created,new,busy,tree.nodup _ before,old _ before]
      · simpa [created,new,current] using tree.nodup p before
  · have newborn : p = k.pidCour → c = pid → InUse (created k pid priority) c ∧
        (created k pid priority c).pidParent = p ∧ (created k pid priority c).state ≠ .dead := by
      rintro rfl rfl
      simp [created,fresh,InUse,inTab]
    have elder : Live k.tabProc p → c ∈ (k.tabProc p).children → InUse (created k pid priority) c ∧
        (created k pid priority c).pidParent = p ∧ (created k pid priority c).state ≠ .dead := by
      intro liveP member
      obtain ⟨parent,state,inUse⟩ := kept c (fun same => old p liveP (same ▸ member))
      rw [parent,state,inUse]
      exact tree.child p liveP c member
    by_cases new : p = pid
    · simp [created,fresh,new] at member
    · have before := (created_live p new).mp liveP
      by_cases current : p = k.pidCour
      · have split : c = pid ∨ c ∈ (k.tabProc p).children := by
          simpa [created,new,busy,current,different] using member
        exact split.elim (newborn current) (elder before)
      · exact elder before (by simpa [created,new,current] using member)
  · by_cases new : c = pid
    · subst new
      have parent : (created k c priority c).pidParent = k.pidCour := by simp [created,fresh]
      rw [parent]
      exact ⟨(created_live _ different).mpr live,by simp [created,different,busy]⟩
    · obtain ⟨parent,state,inUse⟩ := kept c new
      rw [parent] at above ⊢
      rw [state] at alive
      obtain ⟨liveP,member⟩ := tree.parent c (inUse.mp used) alive above
      have other : (k.tabProc c).pidParent ≠ pid := fun same => unused (same ▸ liveP.1)
      refine ⟨(created_live _ other).mpr liveP,?_⟩
      by_cases current : (k.tabProc c).pidParent = k.pidCour <;> simp [created,other,current,different,busy]
      · exact .inr (current ▸ member)
      · exact member
  · by_cases new : c = pid
    · simp [created,fresh,new] at zombie
    · obtain ⟨parent,state,inUse⟩ := kept c new
      rw [parent]
      exact tree.zombie c (inUse.mp used) (state ▸ zombie)
  · by_cases new : c = pid
    · simpa [created,fresh,new] using different
    · obtain ⟨parent,state,inUse⟩ := kept c new
      rw [parent] at above ⊢
      exact tree.other c (inUse.mp used) above

theorem created_settled {lost : Prop} (tree : Tree k.tabProc) {q : Int} (other : q ≠ k.pidCour)
    (settled : Settled lost k.tabProc q) (priority : Int) : Settled lost (created k pid priority) q := by
  by_cases new : q = pid
  · subst new
    have frame : (created k q priority q).frame = .user := by simp [created,fresh]
    rw [Settled,frame]
    exact ⟨fun _ => .inl (.inr (by simp [created,fresh])),fun _ mark => by simp [created,fresh] at mark⟩
  · have same : created k pid priority q = k.tabProc q := by simp [created,new,other]
    rw [Settled,same]
    refine settled.keep (created_live q new).mp (.inl (by rw [same])) (by rw [same]) (by rw [same]) (by rw [same])
      (fun _ => by rw [same]) (fun liveQ c member => ?_)
    have different : c ≠ pid := fun same => unused (same ▸ (tree.child q liveQ c member).1)
    simp [created,different]

theorem created_ready {q : List Int} (ready : Ready k q) (different : k.pidCour ≠ pid) (priority : Int) :
    ∃ q', Ready (wakeupProcess { k with tabProc := created k pid priority } pid) q' := by
  have out : pid ∉ q := fun member => unused ((ready.member pid).mp member).1
  have but : ReadyBut { k with tabProc := created k pid priority } q pid := by
    refine ⟨ready.toQueue.frame rfl rfl rfl (fun p member => ?_),out,fun p other => ?_,fun p other used => ?_,?_⟩
    · have other : p ≠ pid := fun same => out (same ▸ member)
      simp [created,other]
    · simpa [created,other,InUse] using ready.member p
    · simpa [created,other] using ready.active p (by simpa [created,other,InUse] using used)
    · refine ready.cour.imp_right (fun used => ?_)
      simpa [created,different,InUse] using used
  obtain ⟨l,r,_,woken⟩ := wakeupProcess_ready but (by simp [InUse,inTab,created,fresh])
  exact ⟨_,woken⟩

end

/-- `context_create_user`, called by a process; the descriptor that it takes is
    none of those that are `gone`. -/
theorem contextCreateUser_inside {lost : Prop} {gone : Int → Nat → Prop} {k : Procs} (inside : Inside lost gone k)
    (going : Going k) (priority : Int) {memory : Memory}
    (apart : ∀ pid, memory.stack = true → freePid k.tabProc = some pid → ∀ n, ¬ gone pid n) :
    Inside lost gone (contextCreateUser k priority memory).1 ∧ Going (contextCreateUser k priority memory).1 ∧
      (contextCreateUser k priority memory).1.pidCour = k.pidCour := by
  have tree := inside.tree
  obtain ⟨q,ready⟩ := inside.ready
  rcases contextCreateUser_cases ready.cour priority memory with ⟨_,same⟩ | ⟨pid,found,stack,⟨_,same⟩ | ⟨_,same⟩⟩
  · rw [same]; exact ⟨inside,going,rfl⟩
  · obtain ⟨inTab,unused⟩ := freePid_unused found
    have different : k.pidCour ≠ pid := fun same => unused (same ▸ going.live.1)
    have alike : Alike k.tabProc (k.setProc pid (givenUp k priority memory)).tabProc := by
      refine Alike.update pid (fun p other => by simp [other]) (by simp [inTab,givenUp]) ?_ ?_ ?_ ?_
      all_goals exact fun used => absurd used unused
    rw [same]
    refine ⟨⟨⟨q,?_⟩,tree.alike alike,fun p other => ?_,fun p n ended => ?_⟩,⟨(alike.live _).mpr going.live,?_,?_⟩,rfl⟩
    · have others : ∀ p, InUse k.tabProc p → p ≠ pid := fun p used same => unused (same ▸ used)
      refine ready.frame rfl rfl rfl rfl (fun p => ?_) (fun p member => ?_) (fun p used => ?_) (fun p used => ?_)
      · by_cases new : p = pid <;> simp [InUse,new,givenUp]
      · simp [others p ((ready.member p).mp member).1]
      · simp [others p used]
      · simp [others p used]
    · by_cases new : p = pid
      · have dead : ¬ Live (k.setProc pid (givenUp k priority memory)).tabProc p := fun live =>
          unused (new ▸ ((alike.live p).mp live).1)
        exact ⟨fun live => absurd live dead,fun live => absurd live dead⟩
      · exact (inside.settled p other).same tree alike (by simp [new])
    · have old : p ≠ pid := fun same => apart pid stack found n (same ▸ ended)
      exact (inside.rests p n ended).same (by simp [old]) rfl
    · simpa [different] using going.active
    · simpa [different] using going.reseted
  · obtain ⟨inTab,unused⟩ := freePid_unused found
    have different : k.pidCour ≠ pid := fun same => unused (same ▸ going.live.1)
    rw [same]
    have table := created_wakeup k pid priority
    refine ⟨⟨created_ready unused inTab ready different priority,?_,fun p other => ?_,fun p n ended => ?_⟩,⟨?_,?_,?_⟩,
      by simp⟩
    · rw [table]; exact created_tree unused inTab tree going.live priority
    · rw [table]
      have other : p ≠ k.pidCour := by simpa using other
      exact created_settled unused inTab tree other (inside.settled p other) priority
    · have old : p ≠ pid := fun same => apart pid stack found n (same ▸ ended)
      exact (inside.rests p n ended).same (by rw [table]; simp [created,old]) (wakeupProcess_count _ old)
    all_goals rw [table,wakeupProcess_pidCour]
    · exact (created_live _ different).mpr going.live
    · simpa [created,different] using going.active
    · simpa [created,different] using going.reseted

end Psys.Creation
