import Psys.Climbing
import Psys.FamSteps

/-!
The family tree under Init. As long as Init does not exit, every process that
is not dead is in the list of its father and of no other process, and the
parent fields lead from it to Init.
-/
namespace Psys.Ancestry
open Psys.State Psys.Context Psys.Sys Psys.System Psys.ProcQueue Psys.Family Psys.Termination Psys.Processes Psys.Creation
open Psys.Calls Psys.SemCalls Psys.Invariant Psys.Scheduling Psys.FamSteps
open Psys.Climbing (Climbs Relinked)
open Psys.Runs (run reach_of_run)

variable {k k' : Kernel}

/-- In use and not dead: a process or a zombie. -/
def Present (t : Int → Context) (p : Int) : Prop := InUse t p ∧ (t p).state ≠ .dead

/-- Init is there, and has in its list every process that names it or nobody. -/
structure Grounded (t : Int → Context) : Prop where
  init : Live t 1
  orphan : (t 1).pidParent = 0
  low : ∀ c, Present t c → c ≠ 1 → (t c).pidParent ≤ 1 → (t c).pidParent = 1 ∧ c ∈ (t 1).children

/-- The parent fields lead to Init. -/
abbrev Led (t : Int → Context) (p : Int) : Prop := Climbs (Present t) (fun q => (t q).pidParent) 1 p

/-- Nobody comes to life when a process ends. -/
theorem terminated_present {t : Int → Context} {pid : Int} {retval : Option Int} (live : Live t pid) {c : Int}
    (present : Present (terminated t pid retval) c) : Present t c := by
  refine ⟨present.1,fun dead => present.2 ?_⟩
  have notPid : c ≠ pid := fun same => live.2.2 (same ▸ dead)
  rcases terminated_state (t := t) retval notPid with ⟨_,_,state⟩ | ⟨same,waits,_⟩ | ⟨_,_,state⟩
  · exact state
  · simp [same,waits.2.1] at dead
  · rw [state,dead]

section
variable {t t' : Int → Context} (tree : Tree t) (grounded : Grounded t)
include tree grounded

/-- The father of a process is there and has it in its list. -/
theorem Grounded.father {c : Int} (present : Present t c) (other : c ≠ 1) :
    Live t (t c).pidParent ∧ c ∈ (t (t c).pidParent).children := by
  by_cases above : (t c).pidParent > 1
  · exact tree.parent c present.1 present.2 above
  · obtain ⟨parent,member⟩ := grounded.low c present other (not_lt.mp above)
    rw [parent]
    exact ⟨grounded.init,member⟩

/-- Init is nobody's child. -/
theorem Grounded.not_child {p : Int} (live : Live t p) : 1 ∉ (t p).children := fun member => by
  have parent := (tree.child p live 1 member).2.1
  have inTab := live.1.1
  rw [grounded.orphan] at parent
  simp [← parent,InTab] at inTab

omit tree in
theorem Grounded.kin (kin : Kin t t') : Grounded t' where
  init := (kin.live 1).mpr grounded.init
  orphan := (kin.parent 1 ((kin.live 1).mpr grounded.init).1).trans grounded.orphan
  low c present other below := by
    have init := ((kin.live 1).mpr grounded.init).1
    rw [kin.parent c present.1] at below ⊢
    rw [kin.children 1 init]
    exact grounded.low c ⟨kin.used c present.1,mt (kin.dead c present.1).mpr present.2⟩ other below

/-- Init takes the live children of a process that ends, and the zombies die. -/
theorem terminated_grounded {pid : Int} (live : Live t pid) (other : pid ≠ 1) (retval : Option Int) :
    Grounded (terminated t pid retval) where
  init := (terminated_live retval 1).mpr ⟨grounded.init,other.symm⟩
  orphan := by simp [terminated,grounded.not_child tree live,grounded.orphan]
  low c present notInit below := by
    have notPid : c ≠ pid := fun same => by
      have state := present.2
      by_cases above : (t pid).pidParent > 1
      · have own : pid ∉ (t pid).children := fun member => other (tree.self live member)
        simp only [terminated,same,own,false_and,if_false] at below
        omega
      · simp [terminated,same,above] at state
    have joins : c ∈ (orphans t (t pid).children).reverse ++ (t 1).children →
        c ∈ (terminated t pid retval 1).children := fun member => by
      simp only [terminated,if_true]
      split
      · exact member
      · exact (List.mem_erase_of_ne notPid).mpr member
    by_cases kid : c ∈ (t pid).children ∧ (t c).state ≠ .zombie
    · refine ⟨by simp [terminated,kid],joins ?_⟩
      simp [orphans,kid]
    · have parent : (terminated t pid retval c).pidParent = (t c).pidParent := if_neg kid
      have before := terminated_present live present
      rw [parent] at below ⊢
      obtain ⟨father,member⟩ := grounded.low c before notInit below
      exact ⟨father,joins (by simp [member])⟩

end

/-- A new process joins the list of its father. -/
theorem created_grounded {k : Procs} (grounded : Grounded k.tabProc) (going : Going k) {pid : Int}
    (unused : ¬ InUse k.tabProc pid) (priority : Int) : Grounded (created k pid priority) := by
  have notInit : 1 ≠ pid := fun same => unused (same ▸ grounded.init.1)
  have inTab := going.live.1.1
  refine ⟨(created_live 1 notInit).mpr grounded.init,by simp [created,notInit,grounded.orphan],
    fun c present other below => ?_⟩
  by_cases new : c = pid
  · have current : k.pidCour = 1 := by
      simp only [created,fresh,new,if_true] at below
      have := inTab.1
      omega
    simp [created,fresh,new,current,notInit]
  · have before : Present k.tabProc c := by simpa [Present,InUse,created,new] using present
    have parent : (created k pid priority c).pidParent = (k.tabProc c).pidParent := by simp [created,new]
    rw [parent] at below ⊢
    obtain ⟨father,member⟩ := grounded.low c before other below
    refine ⟨father,?_⟩
    simp only [created,notInit,if_false]
    split
    · exact List.mem_cons_of_mem _ member
    · exact member

/-- What is left when a zombie has been reported. -/
theorem buried_present {k : Procs} (going : Going k) {child : Int} (inTab : InTab child)
    (zombie : (k.tabProc child).state = .zombie) {c : Int} (present : Present (buried k child).tabProc c) :
    c ≠ child ∧ ((buried k child).tabProc c).pidParent = (k.tabProc c).pidParent ∧ Present k.tabProc c := by
  obtain ⟨_,dead⟩ := buried_child going.live inTab zombie
  have notChild : c ≠ child := fun same => present.2 (by rw [same,dead])
  refine ⟨notChild,?_⟩
  by_cases current : c = k.pidCour
  · rw [current]
    exact ⟨by simp [buried],going.live.1,going.live.2.2⟩
  · rw [Present,InUse,buried_same notChild current] at present
    exact ⟨by rw [buried_same notChild current],present⟩

/-- A zombie leaves the list of its father, which is not Init. -/
theorem buried_grounded {k : Procs} (tree : Tree k.tabProc) (grounded : Grounded k.tabProc) (going : Going k)
    {child : Int} (member : child ∈ (k.tabProc k.pidCour).children) (zombie : (k.tabProc child).state = .zombie) :
    Grounded (buried k child).tabProc := by
  obtain ⟨used,parent,_⟩ := tree.child _ going.live child member
  have notInit : 1 ≠ child := fun same => grounded.init.2.1 (same ▸ zombie)
  have notCour : 1 ≠ k.pidCour := fun same => by
    have := tree.zombie child used zombie
    omega
  have init := buried_same (k := k) notInit notCour
  refine ⟨(buried_live tree going.live member zombie 1).mpr grounded.init,by rw [init]; exact grounded.orphan,
    fun c present other below => ?_⟩
  obtain ⟨_,same,before⟩ := buried_present going used.1 zombie present
  rw [same] at below ⊢
  rw [init]
  exact grounded.low c before other below

/-! ### The parent fields -/

/-- Parent fields stay or name Init, and a new process names an old one. -/
def Links (t t' : Int → Context) : Prop :=
  ∀ a, Present t' a → (Present t a → (t' a).pidParent = 1 ∨ (t' a).pidParent = (t a).pidParent) ∧
    (¬ Present t a → Present t (t' a).pidParent)

theorem Links.kin {t t' t'' : Int → Context} (links : Links t t') (kin : Kin t' t'') : Links t t'' := by
  intro a present
  rw [kin.parent a present.1]
  exact links a ⟨kin.used a present.1,mt (kin.dead a present.1).mpr present.2⟩

theorem Links.refl (t : Int → Context) : Links t t := fun _ present => ⟨fun _ => .inr rfl,fun absent => absurd present absent⟩

theorem terminated_links {t : Int → Context} {pid : Int} (live : Live t pid) (retval : Option Int) :
    Links t (terminated t pid retval) := by
  intro a present
  refine ⟨fun _ => ?_,fun absent => absurd (terminated_present live present) absent⟩
  by_cases orphan : a ∈ (t pid).children ∧ (t a).state ≠ .zombie
  · exact .inl (if_pos orphan)
  · exact .inr (if_neg orphan)

theorem created_links {k : Procs} (going : Going k) {pid : Int} (unused : ¬ InUse k.tabProc pid) (priority : Int) :
    Links k.tabProc (created k pid priority) := by
  intro a present
  by_cases new : a = pid
  · subst new
    refine ⟨fun before => absurd before.1 unused,fun _ => ?_⟩
    simp only [created,fresh,if_true]
    exact ⟨going.live.1,going.live.2.2⟩
  · have before : Present k.tabProc a := by simpa [Present,InUse,created,new] using present
    exact ⟨fun _ => .inr (by simp [created,new]),fun absent => absurd before absent⟩

theorem buried_links {k : Procs} (going : Going k) {child : Int} (inTab : InTab child)
    (zombie : (k.tabProc child).state = .zombie) : Links k.tabProc (buried k child).tabProc := fun _ present =>
  have ⟨_,same,before⟩ := buried_present going inTab zombie present
  ⟨fun _ => .inr same,fun absent => absurd before absent⟩

/-! ### Runs -/

/-- The tree of all processes, with Init as its root. -/
structure Rooted (t : Int → Context) : Prop extends Grounded t where
  led : ∀ p, Present t p → Led t p

/-- The steps outside semaphores and keyboard in which Init does not exit. -/
def Lineal (k : Kernel) (e : Event) : Prop := Plain e ∧ ∀ retval, e = .call (.exit retval) → k.pidCour ≠ 1

theorem step_grounded (tree : Tree k.tabProc) (grounded : Grounded k.tabProc) {e : Event}
    (stays : ∀ retval, e = .call (.exit retval) → k.pidCour ≠ 1) (kind : FamStep True k e k') :
    Grounded k'.tabProc ∧ Links k.tabProc k'.tabProc := by
  cases kind with
  | kin kin => exact ⟨grounded.kin kin,(Links.refl _).kin kin⟩
  | created _ unused going kin =>
    exact ⟨(created_grounded grounded going unused _).kin kin,(created_links going unused _).kin kin⟩
  | exited going kin =>
    exact ⟨(terminated_grounded tree grounded going.live (stays _ rfl) _).kin kin,(terminated_links going.live _).kin kin⟩
  | killed above live kin =>
    exact ⟨(terminated_grounded tree grounded live (by omega) _).kin kin,(terminated_links live _).kin kin⟩
  | reaped going member zombie kin =>
    have inTab := (tree.child _ going.live _ member).1.1
    exact ⟨(buried_grounded tree grounded going member zombie).kin kin,(buried_links going inTab zombie).kin kin⟩
  | missed _ kin => exact ⟨grounded.kin kin,(Links.refl _).kin kin⟩

theorem step_rooted (tree : Tree k.tabProc) (rooted : Rooted k.tabProc) {e : Event}
    (stays : ∀ retval, e = .call (.exit retval) → k.pidCour ≠ 1) (kind : FamStep True k e k')
    (after : Tree k'.tabProc) : Rooted k'.tabProc := by
  obtain ⟨grounded,links⟩ := step_grounded tree rooted.toGrounded stays kind
  have relinked : Relinked (Present k.tabProc) (Present k'.tabProc) (fun p => (k.tabProc p).pidParent)
      (fun p => (k'.tabProc p).pidParent) 1 := by
    refine ⟨fun a present _ => (links a present).1,fun a present _ => (links a present).2,fun a present other => ?_⟩
    have father := (grounded.father after present other).1
    exact ⟨father.1,father.2.2⟩
  exact ⟨grounded,fun _ present => relinked.climbs rooted.led present⟩

theorem boot_rooted (boot : Boot k) : Rooted k.tabProc := by
  have init := boot_inUse boot
  obtain ⟨_,state,_,_,parent,_⟩ := boot_init boot init
  refine ⟨⟨⟨init,by simp [state],by simp [state]⟩,parent,fun c present other => ?_⟩,fun p present => ?_⟩
  · exact absurd (boot_init boot present.1).1 other
  · rw [(boot_init boot present.1).1]; exact .root

theorem reach_rooted (reached : Reach Lineal k) : Bare True k ∧ Rooted k.tabProc := by
  induction reached with
  | start boot => exact ⟨boot_bare boot,boot_rooted boot⟩
  | next _ allowed stepped ih =>
    have after := ih.1.step allowed.1 (.inr trivial) stepped
    have kind := step_famStep ih.1.stable allowed.1 (.inr trivial) (fun _ _ _ => id) stepped
    exact ⟨after,step_rooted ih.1.stable.tree ih.2 allowed.2 kind after.stable.tree⟩

end Psys.Ancestry
