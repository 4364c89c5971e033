import Psys.ProcQueue

/-!
Two invariants of the process table. The family tree: the children lists and
the parent fields agree. The suspended kernel code: what a process has still to
run in the kernel agrees with its state and with the states of its children.
-/
namespace Psys.Family
open Psys.State Psys.Context Psys.ProcQueue

/-- In use and not ended. -/
def Live (t : Int → Context) (pid : Int) : Prop :=
  InUse t pid ∧ (t pid).state ≠ .zombie ∧ (t pid).state ≠ .dead
instance (t : Int → Context) (pid : Int) : Decidable (Live t pid) := inferInstanceAs (Decidable (_ ∧ _))

/-- The states of a process that has ended. -/
def Over (s : ProcState) : Prop := s = .zombie ∨ s = .dead

theorem Over.still {s : ProcState} (finished : Over s) : ¬ Runnable s := by
  rcases finished with rfl | rfl <;> simp [Runnable]

/-- Children lists and parent fields agree. Nothing is said of the father when
    `pid_parent` names Init, which may have ended. -/
structure Tree (t : Int → Context) : Prop where
  nodup : ∀ p, Live t p → (t p).children.Nodup
  child : ∀ p, Live t p → ∀ c ∈ (t p).children, InUse t c ∧ (t c).pidParent = p ∧ (t c).state ≠ .dead
  parent : ∀ c, InUse t c → (t c).state ≠ .dead → (t c).pidParent > 1 →
    Live t (t c).pidParent ∧ c ∈ (t (t c).pidParent).children
  zombie : ∀ c, InUse t c → (t c).state = .zombie → (t c).pidParent > 1
  other : ∀ c, InUse t c → (t c).pidParent > 1 → (t c).pidParent ≠ c

/-- Nobody but Init is its own child. -/
theorem Tree.self {t : Int → Context} (tree : Tree t) {pid : Int} (live : Live t pid)
    (member : pid ∈ (t pid).children) : pid = 1 := by
  have parent := (tree.child pid live pid member).2.1
  have inside := live.1.1
  by_contra other
  simp only [InTab] at inside
  exact tree.other pid live.1 (by omega) parent

/-- The condition on a process that has `frame` still to run. Init is left out
    of the conditions on children: nobody wakes it when a child ends. With
    `lost`, a process may have been woken up without a child to report. -/
def Holds (lost : Prop) (t : Int → Context) (p : Int) : Frame → Prop
  | .user => Runnable (t p).state ∨ (t p).state = .asleep
  | .ret _ => Runnable (t p).state
  | .wait sid => Runnable (t p).state ∨ (t p).state = .waitSem ∧ (t p).sidWait = sid
  | .waitpidAny _ =>
    (t p).state = .waitChild ∧ (t p).pidWait = -1 ∧
        (p ≠ 1 → (t p).children ≠ [] ∧ ∀ c ∈ (t p).children, (t c).state ≠ .zombie) ∨
      Runnable (t p).state ∧ (lost ∧ (t p).pidWait = -1 ∨
        (t p).pidWait ∈ (t p).children ∧ (t (t p).pidWait).state = .zombie)
  | .waitpid c _ =>
    (t p).state = .waitChild ∧ (t p).pidWait = c ∧ 0 < c ∧ (p ≠ 1 → c ∈ (t p).children ∧ (t c).state ≠ .zombie) ∨
      Runnable (t p).state ∧ c ∈ (t p).children ∧ (t c).state = .zombie
  | .consRead _ _ _ _ => Runnable (t p).state ∨ (t p).state = .waitIo
  | .exit => False
  | .fault => Runnable (t p).state

/-- A live process may go on with `frame`; a mark of `sreset` waits for the end
    of a call of `wait`. -/
structure Fits (lost : Prop) (t : Int → Context) (p : Int) (frame : Frame) : Prop where
  holds : Live t p → Holds lost t p frame
  reseted : Live t p → (t p).sidReseted = true → Runnable (t p).state ∧ ∃ sid, frame = .wait sid

/-- A process has a frame that fits. -/
abbrev Settled (lost : Prop) (t : Int → Context) (p : Int) : Prop := Fits lost t p (t p).frame

/-- Another table with the same processes in use and the same relations between
    them. Dead ones may be freed. -/
structure Alike (t t' : Int → Context) : Prop where
  used : ∀ p, InUse t' p → InUse t p
  kept : ∀ p, InUse t p → (t p).state ≠ .dead → InUse t' p
  parent : ∀ p, InUse t p → (t' p).pidParent = (t p).pidParent
  children : ∀ p, InUse t p → (t' p).children = (t p).children
  zombie : ∀ p, InUse t p → ((t' p).state = .zombie ↔ (t p).state = .zombie)
  dead : ∀ p, InUse t p → ((t' p).state = .dead ↔ (t p).state = .dead)

theorem Alike.live {t t' : Int → Context} (alike : Alike t t') (p : Int) : Live t' p ↔ Live t p := by
  constructor
  · rintro ⟨used,zombie,dead⟩
    have before := alike.used p used
    exact ⟨before,mt (alike.zombie p before).mpr zombie,mt (alike.dead p before).mpr dead⟩
  · rintro ⟨used,zombie,dead⟩
    exact ⟨alike.kept p used dead,mt (alike.zombie p used).mp zombie,mt (alike.dead p used).mp dead⟩

theorem Tree.alike {t t' : Int → Context} (tree : Tree t) (alike : Alike t t') : Tree t' where
  nodup p live := by
    have before := (alike.live p).mp live
    rw [alike.children p before.1]; exact tree.nodup p before
  child p live c member := by
    have before := (alike.live p).mp live
    rw [alike.children p before.1] at member
    obtain ⟨used,parent,alive⟩ := tree.child p before c member
    exact ⟨alike.kept c used alive,(alike.parent c used).trans parent,mt (alike.dead c used).mp alive⟩
  parent c used alive above := by
    have before := alike.used c used
    rw [alike.parent c before] at above ⊢
    obtain ⟨live,member⟩ := tree.parent c before (mt (alike.dead c before).mpr alive) above
    exact ⟨(alike.live _).mpr live,by rw [alike.children _ live.1]; exact member⟩
  zombie c used zombie := by
    have before := alike.used c used
    rw [alike.parent c before]
    exact tree.zombie c before ((alike.zombie c before).mp zombie)
  other c used above := by
    have before := alike.used c used
    rw [alike.parent c before] at above ⊢
    exact tree.other c before above

/-- A state other than the runnable ones is kept from one runnable state to another. -/
theorem still_iff {s s' : ProcState} (state : s' = s ∨ Runnable s ∧ Runnable s') {r : ProcState} (not : ¬ Runnable r) :
    s' = r ↔ s = r := by
  rcases state with same | ⟨was,is⟩
  · rw [same]
  · constructor
    · rintro rfl; exact absurd is not
    · rintro rfl; exact absurd was not

theorem Dispatched.alike {t t' : Int → Context} (dispatched : Dispatched t t') : Alike t t' where
  used p used := by
    refine ⟨used.1,?_⟩
    rcases dispatched.valide p with same | ⟨freed,_⟩
    · exact same ▸ used.2
    · exact absurd used.2 (by simp [freed])
  kept p used alive := by
    refine ⟨used.1,?_⟩
    rcases dispatched.valide p with same | ⟨_,dead⟩
    · exact same ▸ used.2
    · exact absurd dead alive
  parent p _ := (congrArg Context.pidParent (dispatched.same p) :)
  children p _ := (congrArg Context.children (dispatched.same p) :)
  zombie p _ := still_iff (dispatched.state p) (by simp [Runnable])
  dead p _ := still_iff (dispatched.state p) (by simp [Runnable])

/-- A process keeps its condition when it keeps its fields and its children
    keep theirs, also from one runnable state to another. -/
theorem Holds.keep {lost : Prop} {t t' : Int → Context} {p : Int}
    (state : (t' p).state = (t p).state ∨ Runnable (t p).state ∧ Runnable (t' p).state)
    (pidWait : (t' p).pidWait = (t p).pidWait) (sidWait : (t' p).sidWait = (t p).sidWait)
    (children : (t' p).children = (t p).children)
    (zombie : ∀ c ∈ (t p).children, ((t' c).state = .zombie ↔ (t c).state = .zombie)) {frame : Frame}
    (holds : Holds lost t p frame) : Holds lost t' p frame := by
  have runnable : Runnable (t' p).state ↔ Runnable (t p).state := by
    rcases state with same | ⟨was,is⟩
    · rw [same]
    · exact iff_of_true is was
  have sleeping : (t' p).state = .waitChild ↔ (t p).state = .waitChild := still_iff state (by simp [Runnable])
  cases frame with
  | waitpidAny _ =>
    simp only [Holds,runnable,pidWait,children,sleeping] at holds ⊢
    refine holds.imp ?_ ?_
    · rintro ⟨waits,any,ready⟩
      exact ⟨waits,any,fun other => ⟨(ready other).1,fun c member =>
        mt (zombie c member).mp ((ready other).2 c member)⟩⟩
    · rintro ⟨runs,found⟩
      exact ⟨runs,found.imp_right (fun both => ⟨both.1,(zombie _ both.1).mpr both.2⟩)⟩
  | waitpid c _ =>
    simp only [Holds,runnable,pidWait,children,sleeping] at holds ⊢
    refine holds.imp ?_ ?_
    · rintro ⟨waits,same,positive,ready⟩
      exact ⟨waits,same,positive,fun other => ⟨(ready other).1,mt (zombie c (ready other).1).mp (ready other).2⟩⟩
    · rintro ⟨runs,member,ended⟩
      exact ⟨runs,member,(zombie c member).mpr ended⟩
  | exit => exact holds
  | _ =>
    simpa only [Holds,runnable,sidWait,still_iff state (r := .asleep) (by simp [Runnable]),
      still_iff state (r := .waitSem) (by simp [Runnable]),still_iff state (r := .waitIo) (by simp [Runnable])]
      using holds

theorem Fits.keep {lost : Prop} {t t' : Int → Context} {p : Int} (live : Live t' p → Live t p)
    (state : (t' p).state = (t p).state ∨ Runnable (t p).state ∧ Runnable (t' p).state)
    (pidWait : (t' p).pidWait = (t p).pidWait) (sidWait : (t' p).sidWait = (t p).sidWait)
    (reseted : (t' p).sidReseted = (t p).sidReseted)
    (children : Live t p → (t' p).children = (t p).children)
    (zombie : Live t p → ∀ c ∈ (t p).children, ((t' c).state = .zombie ↔ (t c).state = .zombie)) {frame : Frame}
    (fits : Fits lost t p frame) : Fits lost t' p frame where
  holds after := (fits.holds (live after)).keep state pidWait sidWait (children (live after)) (zombie (live after))
  reseted after mark := by
    obtain ⟨runnable,found⟩ := fits.reseted (live after) (reseted ▸ mark)
    refine ⟨?_,found⟩
    rcases state with same | ⟨_,is⟩
    · rw [same]; exact runnable
    · exact is

theorem Fits.alike {lost : Prop} {t t' : Int → Context} (tree : Tree t) (alike : Alike t t') {p : Int}
    (state : (t' p).state = (t p).state ∨ Runnable (t p).state ∧ Runnable (t' p).state)
    (pidWait : (t' p).pidWait = (t p).pidWait) (sidWait : (t' p).sidWait = (t p).sidWait)
    (reseted : (t' p).sidReseted = (t p).sidReseted) {frame : Frame} (fits : Fits lost t p frame) :
    Fits lost t' p frame :=
  fits.keep (alike.live p).mp state pidWait sidWait reseted (fun live => alike.children p live.1)
    (fun live c member => alike.zombie c (tree.child p live c member).1)

theorem Settled.dispatched {lost : Prop} {t t' : Int → Context} (tree : Tree t) (dispatched : Dispatched t t') {p : Int}
    (settled : Settled lost t p) : Settled lost t' p := by
  have frame : (t' p).frame = (t p).frame := (congrArg Context.frame (dispatched.same p) :)
  rw [Settled,frame]
  exact Fits.alike tree (Dispatched.alike dispatched) (dispatched.state p)
    (congrArg Context.pidWait (dispatched.same p) :) (congrArg Context.sidWait (dispatched.same p) :)
    (congrArg Context.sidReseted (dispatched.same p) :) settled

/-- The same descriptor in an alike table. -/
theorem Settled.same {lost : Prop} {t t' : Int → Context} (tree : Tree t) (alike : Alike t t') {p : Int}
    (same : t' p = t p) (settled : Settled lost t p) : Settled lost t' p := by
  rw [Settled,same]
  exact Fits.alike tree alike (.inl (by rw [same])) (by rw [same]) (by rw [same]) (by rw [same]) settled

/-- One process changes in fields that its relatives do not read. -/
theorem Alike.update {t t' : Int → Context} (x : Int) (others : ∀ p, p ≠ x → t' p = t p)
    (valide : (t' x).valide = (t x).valide) (parent : InUse t x → (t' x).pidParent = (t x).pidParent)
    (children : InUse t x → (t' x).children = (t x).children)
    (zombie : InUse t x → ((t' x).state = .zombie ↔ (t x).state = .zombie))
    (dead : InUse t x → ((t' x).state = .dead ↔ (t x).state = .dead)) : Alike t t' := by
  refine ⟨fun p => ?_,fun p => ?_,fun p => ?_,fun p => ?_,fun p => ?_,fun p => ?_⟩
  all_goals by_cases same : p = x
  all_goals first | subst same | simp only [InUse,others p same]
  · simp only [InUse,valide]; exact id
  · exact id
  · simp only [InUse,valide]; exact fun used _ => used
  · exact fun used _ => used
  · exact parent
  · exact fun _ => trivial
  · exact children
  · exact fun _ => trivial
  · exact zombie
  · exact fun _ => trivial
  · exact dead
  · exact fun _ => trivial

/-- A write to the fields of one process that its relatives do not read. -/
theorem Alike.setProc (k : Procs) (x : Int) {f : Context → Context} (valide : ∀ c, (f c).valide = c.valide)
    (parent : ∀ c, (f c).pidParent = c.pidParent) (children : ∀ c, (f c).children = c.children)
    (zombie : (f (k.tabProc x)).state = .zombie ↔ (k.tabProc x).state = .zombie)
    (dead : (f (k.tabProc x)).state = .dead ↔ (k.tabProc x).state = .dead) :
    Alike k.tabProc (k.setProc x f).tabProc := by
  refine Alike.update x (fun p different => by simp [different]) ?_ ?_ ?_ ?_ ?_
  all_goals by_cases inside : InTab x <;> simp [inside,valide,parent,children,zombie,dead]

/-- A process that waits for something else than a child may go on from there. -/
theorem Holds.woken {lost : Prop} {t t' : Int → Context} {p : Int} {frame : Frame} (holds : Holds lost t p frame)
    (state : (t p).state = .waitSem ∨ (t p).state = .waitIo ∨ (t p).state = .asleep)
    (runnable : Runnable (t' p).state) : Holds lost t' p frame := by
  cases frame with
  | user => exact .inl runnable
  | ret _ => exact runnable
  | wait _ => exact .inl runnable
  | consRead _ _ _ _ => exact .inl runnable
  | fault => exact runnable
  | exit => exact holds
  | waitpidAny _ | waitpid _ _ => rcases state with state | state | state <;> simp [Holds,state,Runnable] at holds

end Psys.Family
