import Psys.Family

/-!
What the end of a process, by `exit` or by `kill`, does to the process table.
-/
namespace Psys.Termination
open Psys.State Psys.Context Psys.Sys Psys.ProcQueue Psys.Family

/-- The children of a process that go to Init when it ends. -/
def orphans (t : Int → Context) (children : List Int) : List Int :=
  children.filter (fun c => decide ((t c).state ≠ .zombie))

/-- The table after `exit` and `kill` have gone through a list of children. -/
def adopted (t : Int → Context) (children : List Int) (q : Int) : Context :=
  { t q with
    state := if q ∈ children ∧ InTab q ∧ (t q).state = .zombie then .dead else (t q).state
    pidParent := if q ∈ children ∧ InTab q ∧ (t q).state ≠ .zombie then 1 else (t q).pidParent
    children := if q = 1 then (orphans t children).reverse ++ (t q).children else (t q).children }

theorem adopt_fold (k : Procs) (children : List Int) (nodup : children.Nodup) :
    children.foldl adopt k = { k with tabProc := adopted k.tabProc children } := by
  induction children generalizing k with
  | nil =>
    have same : adopted k.tabProc [] = k.tabProc := by
      funext q; ext <;> simp [adopted,orphans]
    rw [same]; rfl
  | cons c rest ih =>
    obtain ⟨fresh,distinct⟩ := List.nodup_cons.mp nodup
    have others : orphans (adopt k c).tabProc rest = orphans k.tabProc rest := by
      refine List.filter_congr (fun d inRest => ?_)
      have different : d ≠ c := fun same => fresh (same ▸ inRest)
      simp only [adopt]
      split <;> simp [different]
    have first : (adopt k c).links = k.links ∧ (adopt k c).pidCour = k.pidCour ∧ (adopt k c).halted = k.halted ∧
        (adopt k c).inserted = k.inserted := by
      unfold adopt; split <;> exact ⟨rfl,rfl,rfl,rfl⟩
    rw [List.foldl_cons,ih (adopt k c) distinct]
    obtain ⟨links,cour,halted,inserted⟩ := first
    simp only [links,cour,halted,inserted,Procs.mk.injEq,and_true]
    funext q
    simp only [adopted,others]
    by_cases zombie : (k.tabProc c).state = .zombie
    · have done : adopt k c = k.setState c .dead := if_pos zombie
      have list : orphans k.tabProc (c :: rest) = orphans k.tabProc rest := by simp [orphans,zombie]
      rw [done,list]
      rcases eq_or_ne q c with rfl | different
      · by_cases inside : InTab q <;> ext <;> simp [zombie,inside,fresh]
      · ext <;> simp [different]
    · have done : adopt k c = (k.setProc c (fun d => { d with pidParent := 1 })).setProc 1
          (fun d => { d with children := c :: d.children }) := if_neg zombie
      have list : orphans k.tabProc (c :: rest) = c :: orphans k.tabProc rest := by simp [orphans,zombie]
      have init : InTab 1 := by decide
      rw [done,list]
      rcases eq_or_ne q c with rfl | different
      · rcases eq_or_ne q 1 with rfl | one
        · ext <;> simp [zombie,init,fresh]
        · by_cases inside : InTab q <;> ext <;> simp [zombie,inside,fresh,one]
      · rcases eq_or_ne q 1 with rfl | one
        · ext <;> simp [different,init]
        · ext <;> simp [different,one]

/-- The table after the end of `pid`, with the value given to `exit` or without
    one when it was killed. -/
def terminated (t : Int → Context) (pid : Int) (retval : Option Int) (q : Int) : Context :=
  let ppid := (t pid).pidParent
  let children := (t pid).children
  let adopted := (orphans t children).reverse ++ (t 1).children
  { t q with
    state :=
      if q = pid then (if ppid > 1 then .zombie else .dead)
      else if q ∈ children ∧ (t q).state = .zombie then .dead
      else if q = ppid ∧ FatherWaits t pid then .activable
      else (t q).state
    pidParent := if q ∈ children ∧ (t q).state ≠ .zombie then 1 else (t q).pidParent
    children := if q = 1 then (if ppid > 1 then adopted else adopted.erase pid) else (t q).children
    pidWait := if q = ppid ∧ FatherWaits t pid ∧ retval.isSome then pid else (t q).pidWait
    valRet := if q = pid ∧ ppid > 1 then retval.getD (t q).valRet else (t q).valRet
    killed := if q = pid ∧ ppid > 1 ∧ retval = none then true else (t q).killed }

/-- A father that waits is in use. -/
theorem father_live {t : Int → Context} (tree : Tree t) {pid : Int} (live : Live t pid) (waits : FatherWaits t pid) :
    Live t (t pid).pidParent := (tree.parent pid live.1 live.2.2 waits.1).1

/-- The table once the father has been woken up, and told who ended when `noted`. -/
def told (t : Int → Context) (pid : Int) (noted : Bool) (q : Int) : Context :=
  { t q with
    state := if q = (t pid).pidParent ∧ FatherWaits t pid then .activable else (t q).state
    pidWait := if q = (t pid).pidParent ∧ FatherWaits t pid ∧ noted then pid else (t q).pidWait }

/-- What `adoptChildren` makes of it. -/
private theorem adopted_told {t : Int → Context} (tree : Tree t) {pid : Int} (live : Live t pid) (noted : Bool) (q : Int) :
    adopted (told t pid noted) (t pid).children q =
      { t q with
        state :=
          if q ∈ (t pid).children ∧ (t q).state = .zombie then .dead
          else if q = (t pid).pidParent ∧ FatherWaits t pid then .activable
          else (t q).state
        pidParent := if q ∈ (t pid).children ∧ (t q).state ≠ .zombie then 1 else (t q).pidParent
        children :=
          if q = 1 then (orphans t (t pid).children).reverse ++ (t 1).children else (t q).children
        pidWait := if q = (t pid).pidParent ∧ FatherWaits t pid ∧ noted then pid else (t q).pidWait } := by
  have inTab : ∀ c, c ∈ (t pid).children → InTab c := fun c member => (tree.child pid live c member).1.1
  -- The father waits, so that waking it up makes no difference to the zombies.
  have same : ∀ c, (told t pid noted c).state = .zombie ↔ (t c).state = .zombie := by
    intro c
    by_cases father : c = (t pid).pidParent ∧ FatherWaits t pid
    · obtain ⟨rfl,waits⟩ := father
      have sleeping : (t (t pid).pidParent).state = .waitChild := waits.2.1
      simp [told,waits,sleeping]
    · simp [told,father]
  have zombies : orphans (told t pid noted) (t pid).children = orphans t (t pid).children :=
    List.filter_congr (fun c _ => by simp only [ne_eq,same c])
  by_cases member : q ∈ (t pid).children
  · have inside := inTab q member
    by_cases one : q = 1
    · subst one; ext <;> simp only [adopted,ne_eq,same,zombies,member,inside] <;> simp [told]
    · ext <;> simp only [adopted,ne_eq,same,member,inside,one] <;> simp [told]
  · by_cases one : q = 1
    · subst one; ext <;> simp [adopted,zombies,member,told]
    · ext <;> simp [adopted,member,one,told]

section
variable {k : Procs} (tree : Tree k.tabProc) {pid : Int} (live : Live k.tabProc pid)
include tree live

/-- The common end of `exit` and `kill`. -/
private theorem ended_tabProc {p : Procs} {retval : Option Int}
    (second : ∀ q, p.tabProc q = adopted (told k.tabProc pid retval.isSome) (k.tabProc pid).children q)
    {mark : Context → Context}
    (marks : ∀ c, mark c =
      { c with state := .zombie, valRet := retval.getD c.valRet, killed := if retval = none then true else c.killed }) :
    (if (k.tabProc pid).pidParent > 1 then p.setProc pid mark
      else (p.setState pid .dead).setProc 1 (fun c => { c with children := c.children.erase pid })).tabProc =
      terminated k.tabProc pid retval := by
  have inside := live.1.1
  have init : InTab 1 := by decide
  funext q
  by_cases above : (k.tabProc pid).pidParent > 1
  · simp only [above,if_true,Procs.setProc_tabProc]
    rw [second,adopted_told tree live]
    by_cases same : q = pid
    · subst same; ext <;> simp [terminated,above,inside,marks]
    · ext <;> simp [terminated,above,same]
  · simp only [above,if_false,Procs.setProc_tabProc]
    rw [second,adopted_told tree live]
    by_cases same : q = pid
    · subst same
      rcases eq_or_ne q 1 with rfl | one
      · ext <;> simp [terminated,above,inside]
      · ext <;> simp [terminated,above,inside,one]
    · rcases eq_or_ne q 1 with rfl | one
      · ext <;> simp [terminated,above,same,init]
      · ext <;> simp [terminated,above,same,one]

theorem killProcess_tabProc : (killProcess k pid).tabProc = terminated k.tabProc pid none := by
  have kids : (told k.tabProc pid false pid).children = (k.tabProc pid).children := rfl
  let p := if FatherWaits k.tabProc pid then wakeupProcess k (k.tabProc pid).pidParent else k
  have first : p.tabProc = told k.tabProc pid false := by
    funext q
    by_cases waits : FatherWaits k.tabProc pid
    · have father := (father_live tree live waits).1
      ext <;> simp [p,told,waits,father]
    · ext <;> simp [p,told,waits]
  have second : (adoptChildren p pid).tabProc = adopted (told k.tabProc pid false) (k.tabProc pid).children := by
    rw [adoptChildren,first,kids,adopt_fold p _ (tree.nodup pid live),first]
  refine ended_tabProc tree live (fun q => ?_) (fun c => rfl)
  show (if ((adoptChildren p pid).tabProc pid).state = .activable then queueDel (adoptChildren p pid) pid
    else adoptChildren p pid).tabProc q = _
  split <;> simp [second]

end

theorem exitProcess_tabProc {k : Procs} (tree : Tree k.tabProc) (live : Live k.tabProc k.pidCour) (retval : Int) :
    (exitProcess k retval).tabProc = terminated k.tabProc k.pidCour (some retval) := by
  have kids : (told k.tabProc k.pidCour true k.pidCour).children = (k.tabProc k.pidCour).children := rfl
  let p := if FatherWaits k.tabProc k.pidCour
    then wakeupProcess (k.setProc (k.tabProc k.pidCour).pidParent (fun c => { c with pidWait := k.pidCour }))
      (k.tabProc k.pidCour).pidParent else k
  have first : p.tabProc = told k.tabProc k.pidCour true := by
    funext q
    by_cases waits : FatherWaits k.tabProc k.pidCour
    · have father := (father_live tree live waits).1
      have used : InUse (k.setProc (k.tabProc k.pidCour).pidParent (fun c => { c with pidWait := k.pidCour })).tabProc
          (k.tabProc k.pidCour).pidParent := by simpa [InUse] using father
      by_cases same : q = (k.tabProc k.pidCour).pidParent
      · ext <;> simp [p,told,waits,used,father.1,same]
      · ext <;> simp [p,told,waits,same]
    · ext <;> simp [p,told,waits]
  refine ended_tabProc tree live (p := adoptChildren p k.pidCour) (fun q => ?_) (fun c => rfl)
  rw [adoptChildren,first,kids,adopt_fold p _ (tree.nodup _ live),first]
  rfl

/-! ### The invariants after the end of a process -/

section
variable {t : Int → Context} (tree : Tree t) {pid : Int} (live : Live t pid) (retval : Option Int)

omit tree live
theorem terminated_inUse (q : Int) : InUse (terminated t pid retval) q ↔ InUse t q := Iff.rfl

theorem terminated_live (q : Int) : Live (terminated t pid retval) q ↔ Live t q ∧ q ≠ pid := by
  simp only [Live,terminated_inUse]
  by_cases same : q = pid
  · by_cases above : (t pid).pidParent > 1 <;> simp [terminated,same,above]
  · by_cases zombie : q ∈ (t pid).children ∧ (t q).state = .zombie
    · simp [terminated,same,zombie]
    · by_cases father : q = (t pid).pidParent ∧ FatherWaits t pid
      · obtain ⟨rfl,waits⟩ := father
        have sleeping : (t (t pid).pidParent).state = .waitChild := waits.2.1
        simp [terminated,same,waits,sleeping]
      · simp [terminated,same,zombie,father]

/-- A process other than the one that ends keeps its state, is woken up, or dies
    as a zombie child. -/
theorem terminated_state {q : Int} (other : q ≠ pid) :
    (q ∈ (t pid).children ∧ (t q).state = .zombie ∧ (terminated t pid retval q).state = .dead) ∨
      (q = (t pid).pidParent ∧ FatherWaits t pid ∧ (terminated t pid retval q).state = .activable) ∨
      (¬(q ∈ (t pid).children ∧ (t q).state = .zombie) ∧ ¬(q = (t pid).pidParent ∧ FatherWaits t pid) ∧
        (terminated t pid retval q).state = (t q).state) := by
  by_cases zombie : q ∈ (t pid).children ∧ (t q).state = .zombie
  · exact .inl ⟨zombie.1,zombie.2,by simp [terminated,other,zombie]⟩
  · by_cases father : q = (t pid).pidParent ∧ FatherWaits t pid
    · refine .inr (.inl ⟨father.1,father.2,?_⟩)
      simp only [terminated,other,zombie,if_false]
      rw [if_pos father]
    · refine .inr (.inr ⟨zombie,father,?_⟩)
      simp only [terminated,other,zombie,if_false]
      rw [if_neg father]

/-- A process that has ended stays so. -/
theorem terminated_over {q : Int} (ended : Over (t q).state) : Over (terminated t pid retval q).state := by
  by_cases same : q = pid
  · by_cases above : (t pid).pidParent > 1 <;> simp [terminated,same,above,Over]
  · rcases terminated_state (t := t) retval same with ⟨_,_,dead⟩ | ⟨rfl,waits,_⟩ | ⟨_,_,kept⟩
    · exact .inr dead
    · simp [waits.2.1,Over] at ended
    · rw [kept]; exact ended

theorem terminated_parent {c : Int} (notKid : c ∉ (t pid).children) :
    (terminated t pid retval c).pidParent = (t c).pidParent := by simp [terminated,notKid]

/-- Only a zombie child of the process that ends dies with it. -/
theorem terminated_undead {c : Int} (different : c ≠ pid) (survives : ¬(c ∈ (t pid).children ∧ (t c).state = .zombie))
    (undead : (t c).state ≠ .dead) : (terminated t pid retval c).state ≠ .dead := by
  rcases terminated_state (t := t) retval different with ⟨kid,zombie,_⟩ | ⟨_,_,woken⟩ | ⟨_,_,kept⟩
  · exact absurd ⟨kid,zombie⟩ survives
  · simp [woken]
  · rw [kept]; exact undead

/-- No child of a process becomes a zombie, unless it is the one that ends. -/
theorem terminated_alive {c : Int} (different : c ≠ pid) (alive : (t c).state ≠ .zombie) :
    (terminated t pid retval c).state ≠ .zombie := by
  rcases terminated_state (t := t) retval different with ⟨_,_,dead⟩ | ⟨_,_,woken⟩ | ⟨_,_,kept⟩
  · simp [dead]
  · simp [woken]
  · rw [kept]; exact alive

include tree live

/-- Init's new children are not among its old ones. -/
theorem terminated_nodup (init : Live t 1) (other : 1 ≠ pid) :
    ((orphans t (t pid).children).reverse ++ (t 1).children).Nodup := by
  refine List.nodup_append.mpr ⟨List.nodup_reverse.mpr ((tree.nodup pid live).filter _),tree.nodup 1 init,?_⟩
  rintro c orphan d member rfl
  have kid := (List.mem_filter.mp (List.mem_reverse.mp orphan)).1
  exact other ((tree.child 1 init c member).2.1.symm.trans (tree.child pid live c kid).2.1)

/-- A child of another process is none of the process that ends. -/
theorem other_kid {p c : Int} (other : p ≠ pid) (parent : (t c).pidParent = p) : c ∉ (t pid).children :=
  fun kid => other (parent.symm.trans (tree.child pid live c kid).2.1)

/-- A child that Init takes over. -/
theorem adopted_child (other : 1 ≠ pid) {c : Int} (orphan : c ∈ orphans t (t pid).children) :
    InUse t c ∧ (terminated t pid retval c).pidParent = 1 ∧ (terminated t pid retval c).state ≠ .dead := by
  obtain ⟨kid,alive⟩ := List.mem_filter.mp orphan
  simp only [ne_eq,decide_eq_true_eq] at alive
  obtain ⟨used,_,undead⟩ := tree.child pid live c kid
  have different : c ≠ pid := fun same => other (tree.self live (same ▸ kid)).symm
  exact ⟨used,by simp [terminated,kid,alive],terminated_undead retval different (fun both => alive both.2) undead⟩

/-- A child that another process keeps. -/
theorem kept_child {p c : Int} (liveP : Live t p) (other : p ≠ pid) (member : c ∈ (t p).children)
    (undead : c = pid → (terminated t pid retval c).state ≠ .dead) :
    InUse t c ∧ (terminated t pid retval c).pidParent = p ∧ (terminated t pid retval c).state ≠ .dead := by
  obtain ⟨used,parent,alive⟩ := tree.child p liveP c member
  have notKid := other_kid tree live other parent
  refine ⟨used,(terminated_parent retval notKid).trans parent,?_⟩
  by_cases same : c = pid
  · exact undead same
  · exact terminated_undead retval same (fun both => notKid both.1) alive

theorem terminated_child_init (init : Live t 1) (other : 1 ≠ pid) {c : Int}
    (member : c ∈ (terminated t pid retval 1).children) :
    InUse t c ∧ (terminated t pid retval c).pidParent = 1 ∧ (terminated t pid retval c).state ≠ .dead := by
  have whole := terminated_nodup tree live init other
  have origin : c ∈ (orphans t (t pid).children).reverse ++ (t 1).children := by
    simp only [terminated,if_true] at member
    split at member
    · exact member
    · exact List.mem_of_mem_erase member
  rcases List.mem_append.mp origin with orphan | own
  · exact adopted_child tree live retval other (List.mem_reverse.mp orphan)
  · refine kept_child tree live retval init other own ?_
    -- A child of Init that ends leaves Init's list.
    rintro rfl
    have parent := (tree.child 1 init c own).2.1
    simp only [terminated,if_true,parent] at member
    simp [whole.mem_erase_iff] at member

theorem terminated_child_other {p c : Int} (liveP : Live t p) (other : p ≠ pid) (one : p ≠ 1)
    (member : c ∈ (terminated t pid retval p).children) :
    InUse t c ∧ (terminated t pid retval c).pidParent = p ∧ (terminated t pid retval c).state ≠ .dead := by
  have before : c ∈ (t p).children := by simpa [terminated,one] using member
  refine kept_child tree live retval liveP other before ?_
  rintro rfl
  have parent := (tree.child p liveP c before).2.1
  have inside := liveP.1.1
  simp only [InTab] at inside
  simp only [terminated,if_true,parent]
  rw [if_pos (by omega)]
  simp

omit tree in
/-- A process whose parent is not Init afterwards was not taken over. -/
theorem not_adopted {c : Int} (alive : (terminated t pid retval c).state ≠ .dead)
    (above : (terminated t pid retval c).pidParent > 1) : c ∉ (t pid).children := by
  intro kid
  by_cases zombie : (t c).state = .zombie
  · have different : c ≠ pid := fun same => live.2.1 (same ▸ zombie)
    rcases terminated_state (t := t) retval different with ⟨_,_,dead⟩ | ⟨rfl,waits,_⟩ | ⟨not,_⟩
    · exact alive dead
    · simp [waits.2.1] at zombie
    · exact not ⟨kid,zombie⟩
  · simp [terminated,kid,zombie] at above

theorem terminated_tree : Tree (terminated t pid retval) where
  nodup p liveP := by
    obtain ⟨before,other⟩ := (terminated_live retval p).mp liveP
    by_cases one : p = 1
    · subst one
      have whole := terminated_nodup tree live before other
      simp only [terminated,if_true]
      split
      · exact whole
      · exact whole.erase pid
    · simpa [terminated,one] using tree.nodup p before
  child p liveP c member := by
    obtain ⟨before,other⟩ := (terminated_live retval p).mp liveP
    by_cases one : p = 1
    · subst one
      exact terminated_child_init tree live retval before other member
    · exact terminated_child_other tree live retval before other one member
  parent c used alive above := by
    have notKid := not_adopted live retval alive above
    have undead : (t c).state ≠ .dead := by
      by_cases same : c = pid
      · exact same ▸ live.2.2
      · rcases terminated_state (t := t) retval same with ⟨kid,_⟩ | ⟨rfl,waits,_⟩ | ⟨_,_,kept⟩
        · exact absurd kid notKid
        · simp [waits.2.1]
        · rw [← kept]; exact alive
    rw [terminated_parent retval notKid] at above ⊢
    obtain ⟨liveP,member⟩ := tree.parent c used undead above
    have different : (t c).pidParent ≠ pid := fun same => notKid (same ▸ member)
    have one : (t c).pidParent ≠ 1 := by omega
    exact ⟨(terminated_live retval _).mpr ⟨liveP,different⟩,by simpa [terminated,one] using member⟩
  zombie c used zombie := by
    by_cases same : c = pid
    · subst same
      have above : (t c).pidParent > 1 := by
        by_contra below
        simp [terminated,below] at zombie
      have notKid : c ∉ (t c).children := fun kid => tree.other c used above (tree.child c live c kid).2.1
      rwa [terminated_parent retval notKid]
    · rcases terminated_state (t := t) retval same with ⟨_,_,dead⟩ | ⟨_,_,woken⟩ | ⟨not,_,kept⟩
      · simp [dead] at zombie
      · simp [woken] at zombie
      · rw [kept] at zombie
        have notKid : c ∉ (t pid).children := fun kid => not ⟨kid,zombie⟩
        rw [terminated_parent retval notKid]
        exact tree.zombie c used zombie
  other c used above := by
    have notOrphan : ¬(c ∈ (t pid).children ∧ (t c).state ≠ .zombie) := fun orphan => by
      simp [terminated,orphan] at above
    have parent : (terminated t pid retval c).pidParent = (t c).pidParent := by
      simp only [terminated]; rw [if_neg notOrphan]
    rw [parent] at above ⊢
    exact tree.other c used above

/-- A zombie child of another process is left alone. -/
theorem terminated_zombie {q c : Int} (liveQ : Live t q) (other : q ≠ pid) (member : c ∈ (t q).children)
    (zombie : (t c).state = .zombie) :
    c ∈ (terminated t pid retval q).children ∧ (terminated t pid retval c).state = .zombie := by
  obtain ⟨used,parent,_⟩ := tree.child q liveQ c member
  have one : q ≠ 1 := by
    have := tree.zombie c used zombie
    omega
  have different : c ≠ pid := fun same => live.2.1 (same ▸ zombie)
  have notKid := other_kid tree live other parent
  refine ⟨by simpa [terminated,one] using member,?_⟩
  rcases terminated_state (t := t) retval different with ⟨kid,_⟩ | ⟨rfl,waits,_⟩ | ⟨_,_,kept⟩
  · exact absurd kid notKid
  · simp [waits.2.1] at zombie
  · rw [kept]; exact zombie

/-- A father that waits for the process that ends can report it. One that waits
    for any child has been told which one ended, or may have lost it. -/
theorem terminated_father {lost : Prop} (waits : FatherWaits t pid) (settled : Settled lost t (t pid).pidParent)
    (heard : (t (t pid).pidParent).pidWait = -1 → retval.isSome ∨ lost) :
    Settled lost (terminated t pid retval) (t pid).pidParent := by
  have ⟨above,sleeping,awaited⟩ := waits
  have liveF := father_live tree live waits
  have holds := settled.holds liveF
  have one : (t pid).pidParent ≠ 1 := by omega
  have other : (t pid).pidParent ≠ pid := tree.other pid live.1 above
  have member : pid ∈ (terminated t pid retval (t pid).pidParent).children := by
    simpa [terminated,one] using (tree.parent pid live.1 live.2.2 above).2
  have woken : Runnable (terminated t pid retval (t pid).pidParent).state := by
    simp [terminated,other,sleeping,waits,Runnable]
  have ended : (terminated t pid retval pid).state = .zombie := by simp [terminated,above]
  have frame : (terminated t pid retval (t pid).pidParent).frame = (t (t pid).pidParent).frame := rfl
  refine ⟨fun _ => ?_,fun _ reseted => ?_⟩
  · rw [frame]
    cases form : (t (t pid).pidParent).frame with
    | waitpidAny retvalp =>
      simp only [form,Holds,sleeping,true_and] at holds
      rcases holds with ⟨any,_⟩ | ⟨runnable,_⟩
      · by_cases said : retval.isSome
        · have told : (terminated t pid retval (t pid).pidParent).pidWait = pid := by
            simp [terminated,waits,said]
          exact .inr ⟨woken,.inr (by rw [told]; exact ⟨member,ended⟩)⟩
        · refine .inr ⟨woken,.inl ⟨(heard any).resolve_left said,?_⟩⟩
          simpa [terminated,said] using any
      · simp [Runnable] at runnable
    | waitpid c retvalp =>
      simp only [form,Holds,sleeping,true_and] at holds
      rcases holds with ⟨same,positive,_⟩ | ⟨runnable,_⟩
      · have target : c = pid := by omega
        subst target
        exact .inr ⟨woken,member,ended⟩
      · simp [Runnable] at runnable
    | _ => simp [form,Holds,sleeping,Runnable] at holds
  · obtain ⟨runnable,_⟩ := settled.reseted liveF reseted
    simp [sleeping,Runnable] at runnable

omit live in
/-- A child that ends under a sleeping father would have woken it up. -/
theorem unawaited {q : Int} (liveQ : Live t q) (father : ¬(q = (t pid).pidParent ∧ FatherWaits t pid)) (one : q ≠ 1)
    (sleeping : (t q).state = .waitChild) (member : pid ∈ (t q).children) :
    pid ≠ (t q).pidWait ∧ (t q).pidWait ≠ -1 := by
  have parent := (tree.child q liveQ pid member).2.1
  have inside := liveQ.1.1
  simp only [InTab] at inside
  have waiting : ¬ FatherWaits t pid := fun waits => father ⟨parent.symm,waits⟩
  simp only [FatherWaits,parent,sleeping,true_and,not_and_or,not_or] at waiting
  rcases waiting with below | waiting
  · omega
  · exact waiting

/-- The other processes keep their conditions. -/
theorem terminated_settled {lost : Prop} {q : Int} (other : q ≠ pid) (settled : Settled lost t q)
    (heard : FatherWaits t pid → (t (t pid).pidParent).pidWait = -1 → retval.isSome ∨ lost) :
    Settled lost (terminated t pid retval) q := by
  by_cases father : q = (t pid).pidParent ∧ FatherWaits t pid
  · obtain ⟨rfl,waits⟩ := father
    exact terminated_father tree live retval waits settled (heard waits)
  have frame : (terminated t pid retval q).frame = (t q).frame := rfl
  have mark : (terminated t pid retval q).sidReseted = (t q).sidReseted := rfl
  have sidWait : (terminated t pid retval q).sidWait = (t q).sidWait := rfl
  have pidWait : (terminated t pid retval q).pidWait = (t q).pidWait := by
    simp only [terminated]
    rw [if_neg (fun told => father ⟨told.1,told.2.1⟩)]
  have state : Live (terminated t pid retval) q → (terminated t pid retval q).state = (t q).state := by
    intro liveQ
    rcases terminated_state (t := t) retval other with ⟨_,_,dead⟩ | ⟨is,waits,_⟩ | ⟨_,_,kept⟩
    · exact absurd dead liveQ.2.2
    · exact absurd ⟨is,waits⟩ father
    · exact kept
  have children : q ≠ 1 → (terminated t pid retval q).children = (t q).children := fun one => by
    simp [terminated,one]
  refine ⟨fun liveT => ?_,fun liveT reseted => ?_⟩
  · obtain ⟨liveQ,_⟩ := (terminated_live retval q).mp liveT
    have holds := settled.holds liveQ
    have kept := state liveT
    rw [frame]
    cases form : (t q).frame with
    | waitpidAny retvalp =>
      simp only [form,Holds] at holds ⊢
      rw [kept,pidWait]
      rcases holds with ⟨sleeping,any,ready⟩ | ⟨runnable,lost | ⟨member,zombie⟩⟩
      · refine .inl ⟨sleeping,any,fun one => ?_⟩
        rw [children one]
        refine ⟨(ready one).1,fun c member => ?_⟩
        refine terminated_alive retval (fun same => ?_) ((ready one).2 c member)
        exact (unawaited tree liveQ father one sleeping (same ▸ member)).2 any
      · exact .inr ⟨runnable,.inl lost⟩
      · exact .inr ⟨runnable,.inr (terminated_zombie tree live retval liveQ other member zombie)⟩
    | waitpid c retvalp =>
      simp only [form,Holds] at holds ⊢
      rw [kept,pidWait]
      rcases holds with ⟨sleeping,target,positive,ready⟩ | ⟨runnable,member,zombie⟩
      · refine .inl ⟨sleeping,target,positive,fun one => ?_⟩
        rw [children one]
        refine ⟨(ready one).1,terminated_alive retval (fun same => ?_) (ready one).2⟩
        exact (unawaited tree liveQ father one sleeping (same ▸ (ready one).1)).1 (same ▸ target.symm)
      · exact .inr ⟨runnable,terminated_zombie tree live retval liveQ other member zombie⟩
    | exit => simp only [form,Holds] at holds
    | _ => simpa only [form,Holds,kept,sidWait] using holds
  · obtain ⟨liveQ,_⟩ := (terminated_live retval q).mp liveT
    obtain ⟨runnable,found⟩ := settled.reseted liveQ (mark ▸ reseted)
    exact ⟨by rw [state liveT]; exact runnable,by rw [frame]; exact found⟩

end

/-! ### The activable list after the end of a process -/

theorem adoptChildren_ready {k : Procs} {q : List Int} (ready : Ready k q) {pid : Int}
    (nodup : (k.tabProc pid).children.Nodup) : Ready (adoptChildren k pid) q := by
  rw [adoptChildren,adopt_fold k _ nodup]
  refine ready.frame rfl rfl rfl rfl (fun p => Iff.rfl) (fun p _ => rfl) (fun p _ => ?_) (fun p _ => ?_)
  all_goals by_cases zombie : p ∈ (k.tabProc pid).children ∧ InTab p ∧ (k.tabProc p).state = .zombie
  all_goals simp [adopted,zombie]

/-- The last writes of `exit` and `kill`. -/
private theorem finish_ready {k : Procs} {q : List Int} (ready : Ready k q) {pid : Int} (used : InUse k.tabProc pid)
    (mark : Context → Context) (valide : ∀ c, (mark c).valide = c.valide)
    (priority : ∀ c, (mark c).priority = c.priority) (zombie : ∀ c, (mark c).state = .zombie) (above : Prop)
    [Decidable above] :
    let p := if (k.tabProc pid).state = .activable then queueDel k pid else k
    ∃ q', Ready (if above then p.setProc pid mark
      else (p.setState pid .dead).setProc 1 (fun c => { c with children := c.children.erase pid })) q' := by
  intro p
  by_cases h : above
  · rw [if_pos h]
    exact ready.stop used valide priority (by simp [zombie,Runnable])
  · rw [if_neg h]
    obtain ⟨q',ready'⟩ := ready.stop used (f := fun c => { c with state := .dead }) (fun _ => rfl) (fun _ => rfl)
      (by simp [Runnable])
    exact ⟨q',ready'.setProc 1 (fun _ => rfl) (fun _ => rfl) (fun _ => rfl)⟩

/-- Waking the father up, which may have been told something before. -/
private theorem tell_ready {k p : Procs} {q : List Int} (ready : Ready k q) (tree : Tree k.tabProc) {pid : Int}
    (live : Live k.tabProc pid) (same : Ready p q)
    (used : InUse p.tabProc (k.tabProc pid).pidParent ↔ InUse k.tabProc (k.tabProc pid).pidParent) :
    ∃ q', Ready (if FatherWaits k.tabProc pid then wakeupProcess p (k.tabProc pid).pidParent else k) q' := by
  split
  · rename_i waits
    have out : (k.tabProc pid).pidParent ∉ q := fun member => by
      have activable := ((ready.member _).mp member).2
      rw [waits.2.1] at activable
      simp at activable
    obtain ⟨l,r,_,woken⟩ := wakeupProcess_ready (same.but out) (used.mpr (father_live tree live waits).1)
    exact ⟨_,woken⟩
  · exact ⟨q,ready⟩

theorem killProcess_ready {k : Procs} {q : List Int} (ready : Ready k q) (tree : Tree k.tabProc) {pid : Int}
    (live : Live k.tabProc pid) : ∃ q', Ready (killProcess k pid) q' := by
  obtain ⟨q₁,ready₁⟩ := tell_ready ready tree live ready Iff.rfl
  generalize known : (if FatherWaits k.tabProc pid then wakeupProcess k (k.tabProc pid).pidParent else k) = p at ready₁
  have children : (p.tabProc pid).children = (k.tabProc pid).children := by rw [← known]; split <;> simp
  have nodup : (p.tabProc pid).children.Nodup := by rw [children]; exact tree.nodup pid live
  have used : InUse (adoptChildren p pid).tabProc pid := by
    rw [adoptChildren,adopt_fold p _ nodup]
    show InUse p.tabProc pid
    rw [← known]; split <;> simpa [InUse] using live.1
  have := finish_ready (adoptChildren_ready ready₁ nodup) used
    (fun c => { c with state := .zombie, killed := true }) (fun _ => rfl) (fun _ => rfl) (fun _ => rfl)
    ((k.tabProc pid).pidParent > 1)
  simpa only [killProcess,known] using this

theorem exitProcess_ready {k : Procs} {q : List Int} (ready : Ready k q) (tree : Tree k.tabProc)
    (live : Live k.tabProc k.pidCour) (active : (k.tabProc k.pidCour).state = .active) (retval : Int) :
    ∃ q', Ready (exitProcess k retval) q' := by
  let ppid := (k.tabProc k.pidCour).pidParent
  obtain ⟨q₁,ready₁⟩ := tell_ready (p := k.setProc ppid (fun c => { c with pidWait := k.pidCour })) ready tree live
    (ready.setProc _ (fun _ => rfl) (fun _ => rfl) (fun _ => rfl)) (by simp [InUse])
  generalize known : (if FatherWaits k.tabProc k.pidCour
    then wakeupProcess (k.setProc ppid (fun c => { c with pidWait := k.pidCour })) ppid else k) = p at ready₁
  have children : (p.tabProc k.pidCour).children = (k.tabProc k.pidCour).children := by rw [← known]; split <;> simp
  have nodup : (p.tabProc k.pidCour).children.Nodup := by rw [children]; exact tree.nodup _ live
  have state : (p.tabProc k.pidCour).state = .active := by
    rw [← known]
    split
    · rename_i waits
      have other : k.pidCour ≠ ppid := tree.other _ live.1 waits.1 ∘ Eq.symm
      simpa [other] using active
    · exact active
  have used : InUse (adoptChildren p k.pidCour).tabProc k.pidCour := by
    rw [adoptChildren,adopt_fold p _ nodup]
    show InUse p.tabProc k.pidCour
    rw [← known]; split <;> simpa [InUse] using live.1
  have still : ((adoptChildren p k.pidCour).tabProc k.pidCour).state = .active := by
    rw [adoptChildren,adopt_fold p _ nodup]
    simp [adopted,state]
  have := finish_ready (adoptChildren_ready ready₁ nodup) used
    (fun c => { c with state := .zombie, valRet := retval }) (fun _ => rfl) (fun _ => rfl) (fun _ => rfl) (ppid > 1)
  rw [still] at this
  simpa only [exitProcess,known,reduceCtorEq,if_false,ppid] using this

end Psys.Termination
