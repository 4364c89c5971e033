import Psys.Bounds
import Psys.Vfs

/-!
The entries of `tab_proc` that the functions with a PID for an argument read
or write, each named by the PID that it belongs to.
-/
namespace Psys.TableAccess
open Psys.State Psys.Context Psys.Sys Psys.System Psys.Family Psys.Vfs Psys.Bounds
open Psys.Runs (run reach_of_run)

/-- A use of `tab_proc` through a PID. -/
inductive Request where
  | getprio (pid : Int)
  | chprio (pid newprio : Int)
  | kill (pid : Int)
  | waitpid (pid : Int) (retvalp : Nat)
  /-- The rest of `waitpid` after its call of `scheduler`. -/
  | resumed
  | wakeupProcess (pid : Int)
  | procfsFinddir (name : Text)

/-- The loop of `waitpid` up to the first zombie. -/
def scanned (t : Int → Context) : List Int → List Int
  | [] => []
  | child :: rest => if (t child).state = .zombie then [child] else child :: scanned t rest

/-- The end of `waitpid`, unless storing the value ends in a page fault. -/
def reapAccesses (k : Kernel) (child : Int) (retvalp : Nat) : List Int :=
  child :: (if retvalp ≠ 0 ∧ ¬ Mapped retvalp then [] else [k.pidCour])

/-- One child in the loop of `kill`. -/
def adoptAccesses (t : Int → Context) (child : Int) : List Int :=
  if (t child).state = .zombie then [child] else [child,1]

/-- The entries that are read or written. -/
def accesses (k : Kernel) : Request → List Int
  | .getprio pid => if pid = 0 ∨ pid > NBPROC then [] else [pid]
  | .chprio pid _ => [pid]
  | .kill pid =>
    if pid ≤ 1 ∨ pid > NBPROC then []
    else if Ended k.tabProc pid then [pid]
    else pid :: (if (k.tabProc pid).pidParent > 1 then (k.tabProc pid).pidParent else 1) ::
      (k.tabProc pid).children.flatMap (adoptAccesses k.tabProc)
  | .waitpid pid retvalp =>
    let retvalp := checkPointer retvalp
    let children := (k.tabProc k.pidCour).children
    if pid = k.pidCour then []
    else if pid < 0 then
      k.pidCour :: (scanned k.tabProc children ++
        match children.find? (fun child => decide ((k.tabProc child).state = .zombie)) with
        | some child => reapAccesses k child retvalp
        | none => [])
    else if pid = 0 then []
    else if pid ∉ children then [k.pidCour]
    else k.pidCour :: pid :: (if (k.tabProc pid).state ≠ .zombie then [] else reapAccesses k pid retvalp)
  | .resumed =>
    match (k.tabProc k.pidCour).frame with
    | .waitpidAny retvalp => k.pidCour :: reapAccesses k (k.tabProc k.pidCour).pidWait retvalp
    | .waitpid pid retvalp => reapAccesses k pid retvalp
    | _ => []
  | .wakeupProcess pid => if pid < 1 ∨ pid > NBPROC then [] else [pid]
  | .procfsFinddir name => [strtol name]

/-- A PID that names no live process makes the call fail and change nothing. -/
def Refuses (k : Kernel) : Request → Prop
  | .getprio pid => ¬ Live k.tabProc pid → ∃ r, r < 0 ∧ getprio k pid = sysret k (some r)
  | .chprio pid newprio => ¬ Live k.tabProc pid → ∃ r, r < 0 ∧ chprio k pid newprio = sysret k (some r)
  | .kill pid => ¬ Live k.tabProc pid → ∃ r, r < 0 ∧ kill k pid = sysret k (some r)
  | _ => True

/-- The arguments and states for which no entry outside of the table is used. -/
def Admissible (k : Kernel) : Request → Prop
  | .getprio pid => 0 ≤ pid
  | .chprio pid _ => InTab pid
  | .resumed => ∀ retvalp, (k.tabProc k.pidCour).frame = .waitpidAny retvalp → (k.tabProc k.pidCour).pidWait ≠ -1
  | .procfsFinddir name => InTab (strtol name)
  | .kill _ | .waitpid _ _ | .wakeupProcess _ => True

variable {k : Kernel}

theorem ended_of_not_live {pid : Int} (positive : 1 ≤ pid) (dead : ¬ Live k.tabProc pid) : Ended k.tabProc pid := by
  by_contra alive
  simp only [Ended,not_or,not_lt,Bool.not_eq_false] at alive
  exact dead ⟨⟨⟨positive,by omega⟩,alive.2.1⟩,alive.2.2.2,alive.2.2.1⟩

theorem mem_scanned {t : Int → Context} {children : List Int} {p : Int} (member : p ∈ scanned t children) : p ∈ children := by
  induction children with
  | nil => exact member
  | cons child rest ih =>
    unfold scanned at member
    split at member
    · exact List.mem_cons.mpr (.inl (List.mem_singleton.mp member))
    · rcases List.mem_cons.mp member with rfl | later
      · exact List.mem_cons_self
      · exact List.mem_cons_of_mem _ (ih later)

theorem reapAccesses_inTab (current : InTab k.pidCour) {child : Int} {retvalp : Nat} :
    (∀ p ∈ reapAccesses k child retvalp, InTab p) ↔ InTab child := by
  unfold reapAccesses
  constructor
  · exact fun all => all child (by simp)
  · intro inTab p member
    rcases List.mem_cons.mp member with rfl | later
    · exact inTab
    · split at later
      · simp at later
      · exact List.mem_singleton.mp later ▸ current

theorem kill_accesses (bounded : Bounded k.toProcs) (pid : Int) : ∀ p ∈ accesses k (.kill pid), InTab p := by
  intro p member
  simp only [accesses] at member
  split at member
  · simp at member
  rename_i range
  have inTab : InTab pid := ⟨by omega,by omega⟩
  split at member
  · exact List.mem_singleton.mp member ▸ inTab
  have within := bounded.within pid inTab
  have father := within.parent
  rcases List.mem_cons.mp member with rfl | member
  · exact inTab
  rcases List.mem_cons.mp member with rfl | member
  · split
    · exact ⟨by omega,father⟩
    · decide
  · obtain ⟨child,kid,used⟩ := List.mem_flatMap.mp member
    have inside := within.children child kid
    unfold adoptAccesses at used
    split at used
    · exact List.mem_singleton.mp used ▸ inside
    · rcases List.mem_cons.mp used with rfl | init
      · exact inside
      · exact List.mem_singleton.mp init ▸ (by decide)

theorem waitpid_accesses (bounded : Bounded k.toProcs) (current : InTab k.pidCour) (pid : Int) (retvalp : Nat) :
    ∀ p ∈ accesses k (.waitpid pid retvalp), InTab p := by
  have children := (bounded.within _ current).children
  intro p member
  simp only [accesses] at member
  split at member
  · simp at member
  split at member
  · rcases List.mem_cons.mp member with rfl | member
    · exact current
    rcases List.mem_append.mp member with member | member
    · exact children p (mem_scanned member)
    · split at member
      · rename_i child found
        exact (reapAccesses_inTab current).mpr (children child (List.mem_of_find?_eq_some found)) p member
      · simp at member
  split at member
  · simp at member
  split at member
  · exact List.mem_singleton.mp member ▸ current
  rename_i kid
  have inTab := children pid (not_not.mp kid)
  rcases List.mem_cons.mp member with rfl | member
  · exact current
  rcases List.mem_cons.mp member with rfl | member
  · exact inTab
  split at member
  · simp at member
  · exact (reapAccesses_inTab current).mpr inTab p member

theorem resumed_accesses (bounded : Bounded k.toProcs) (current : InTab k.pidCour) :
    (∀ p ∈ accesses k .resumed, InTab p) ↔ Admissible k .resumed := by
  have within := bounded.within _ current
  cases frame : (k.tabProc k.pidCour).frame with
  | waitpidAny retvalp =>
    simp only [accesses,Admissible,frame,List.forall_mem_cons,reapAccesses_inTab current,current,true_and]
    constructor
    · rintro inTab _ _ same
      simp [same,InTab] at inTab
    · exact fun told => (within.any retvalp frame).resolve_left (told retvalp rfl)
  | waitpid pid retvalp =>
    simp only [accesses,Admissible,frame,reapAccesses_inTab current]
    exact iff_of_true (within.one pid retvalp frame) (by simp)
  | _ => simp [accesses,Admissible,frame]

/-- In every state that the kernel reaches, a process that uses a PID stays
    within the table, and a PID of no live process is refused, in exactly the
    admissible cases. -/
theorem tabProc_accesses (reached : Reach (fun _ _ => True) k) (busy : k.pidCour ≠ 0) (r : Request) :
    (∀ p ∈ accesses k r, InTab p) ∧ Refuses k r ↔ Admissible k r := by
  have bounded := reach_bounded reached
  have current := bounded.cour.resolve_left busy
  cases r with
  | getprio pid =>
    simp only [accesses,Admissible,Refuses]
    constructor
    · rintro ⟨inside,_⟩
      by_contra negative
      have inTab := inside pid (by rw [if_neg (by simp only [NBPROC]; omega)]; simp)
      exact negative (by have := inTab.1; omega)
    · refine fun positive => ⟨fun p member => ?_,fun dead => ⟨-1,by omega,?_⟩⟩
      · split at member
        · simp at member
        · rename_i range
          exact List.mem_singleton.mp member ▸ ⟨by omega,by omega⟩
      · rw [getprio,if_pos]
        by_cases zero : pid = 0
        · exact .inl zero
        · exact .inr (ended_of_not_live (by omega) dead)
  | chprio pid newprio =>
    simp only [accesses,Admissible,Refuses,List.mem_singleton,forall_eq]
    refine and_iff_left_of_imp (fun inTab dead => ⟨-1,by omega,?_⟩)
    rw [chprio,if_pos (.inr (ended_of_not_live inTab.1 dead))]
  | kill pid =>
    refine iff_of_true ⟨kill_accesses bounded pid,fun dead => ⟨-1,by omega,?_⟩⟩ trivial
    rw [kill,if_pos]
    by_cases low : pid ≤ 1
    · exact .inl low
    · exact .inr (ended_of_not_live (by omega) dead)
  | waitpid pid retvalp => exact iff_of_true ⟨waitpid_accesses bounded current pid retvalp,trivial⟩ trivial
  | resumed => exact (and_iff_left trivial).trans (resumed_accesses bounded current)
  | wakeupProcess pid =>
    refine iff_of_true ⟨fun p member => ?_,trivial⟩ trivial
    simp only [accesses] at member
    split at member
    · simp at member
    · rename_i range
      exact List.mem_singleton.mp member ▸ ⟨by omega,by omega⟩
  | procfsFinddir name => simp [accesses,Admissible,Refuses]

/-- Init, in user mode after the first tick. -/
private theorem reach_first : ∃ k : Kernel, Reach (fun _ _ => True) k ∧ k.pidCour = 1 := by
  have seen : (run step zeroed [.tick,.resume]).map (fun k => k.pidCour) = some 1 := by decide
  obtain ⟨k,ran,cour⟩ := Option.map_eq_some_iff.mp seen
  exact ⟨k,reach_of_run [.tick,.resume] (fun _ _ _ => trivial) zeroed_boot ran,cour⟩

/-- `getprio(2)` by Init. -/
theorem tabProc_accesses_init : ∃ k : Kernel, Reach (fun _ _ => True) k ∧ k.pidCour = 1 ∧
    ((∀ p ∈ accesses k (.getprio 2), InTab p) ∧ Refuses k (.getprio 2) ↔ Admissible k (.getprio 2)) := by
  obtain ⟨k,reached,cour⟩ := reach_first
  exact ⟨k,reached,cour,tabProc_accesses reached (by simp [cour]) (.getprio 2)⟩

/-- `getprio(-1)` reads `tab_proc[-2]`. -/
theorem tabProc_overrun : ¬ ∀ (k : Kernel) (r : Request), Reach (fun _ _ => True) k → k.pidCour ≠ 0 →
    (∀ p ∈ accesses k r, InTab p) ∧ Refuses k r := by
  intro claim
  obtain ⟨k,reached,cour⟩ := reach_first
  have inTab := (claim k (.getprio (-1)) reached (by simp [cour])).1 (-1) (by simp [accesses,NBPROC])
  simp [InTab] at inTab

end Psys.TableAccess
