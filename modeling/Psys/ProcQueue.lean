import Mathlib.Data.List.Perm.Subperm
import Psys.Sys

/-!
The activable list as a sorted list of PIDs. Insertion, removal and dispatch
keep it well formed and never fail; the scheduler keeps it the list of the
activable processes and runs one of highest priority.
-/
namespace Psys.ProcQueue
open Psys.State Psys.Context Psys.Sys

/-- Going forward through the list, `a` may stand before `b`: its priority is
    lower, or it is the same and `a` was inserted later. -/
def Before (k : Procs) (a b : Int) : Prop :=
  (k.tabProc a).priority < (k.tabProc b).priority ∨
    (k.tabProc a).priority = (k.tabProc b).priority ∧ k.inserted.idxOf a < k.inserted.idxOf b

/-- The links form the sorted list `q` of entries of the table. -/
structure Queue (k : Procs) (q : List Int) : Prop where
  ring : Ring.IsRing k.links q
  sorted : q.Pairwise (Before k)
  inTab : ∀ p ∈ q, InTab p
  running : k.halted = false

/-- The list holds the activable processes, and only the current process is
    active. -/
structure Ready (k : Procs) (q : List Int) : Prop extends Queue k q where
  member : ∀ p, p ∈ q ↔ InUse k.tabProc p ∧ (k.tabProc p).state = .activable
  active : ∀ p, InUse k.tabProc p → (k.tabProc p).state = .active → p = k.pidCour
  cour : k.pidCour = 0 ∨ InUse k.tabProc k.pidCour

def Runnable (s : ProcState) : Prop := s = .active ∨ s = .activable

/-- The process that a step leaves in charge is active. -/
def Running (k : Procs) : Prop := k.pidCour ≠ 0 → (k.tabProc k.pidCour).state = .active

/-- No activable process has a higher priority than the current one, and there
    is none while the kernel idles. -/
def Top (k : Procs) : Prop :=
  ∀ p, InUse k.tabProc p → (k.tabProc p).state = .activable →
    k.pidCour ≠ 0 ∧ (k.tabProc p).priority ≤ (k.tabProc k.pidCour).priority

/-- What a call of `scheduler` may do to the process table: runnable processes
    stay runnable, and dead ones may be freed. -/
structure Dispatched (t t' : Int → Context) : Prop where
  same : ∀ p, t' p = { t p with state := (t' p).state, valide := (t' p).valide }
  state : ∀ p, (t' p).state = (t p).state ∨ Runnable (t p).state ∧ Runnable (t' p).state
  valide : ∀ p, (t' p).valide = (t p).valide ∨ (t' p).valide = false ∧ (t p).state = .dead

/-! ### What the primitives leave alone -/

@[simp] theorem queueAdd_tabProc (k : Procs) (pid : Int) : (queueAdd k pid).tabProc = k.tabProc := by
  unfold queueAdd; split <;> rfl
@[simp] theorem queueAdd_pidCour (k : Procs) (pid : Int) : (queueAdd k pid).pidCour = k.pidCour := by
  unfold queueAdd; split <;> rfl
@[simp] theorem queueDel_tabProc (k : Procs) (pid : Int) : (queueDel k pid).tabProc = k.tabProc := by
  unfold queueDel; split <;> rfl
@[simp] theorem queueDel_pidCour (k : Procs) (pid : Int) : (queueDel k pid).pidCour = k.pidCour := by
  unfold queueDel; split <;> rfl
@[simp] theorem requeue_tabProc (k : Procs) (pid : Int) : (requeue k pid).tabProc = k.tabProc := by
  unfold requeue
  split
  · rfl
  · rfl
  · simp
@[simp] theorem requeue_pidCour (k : Procs) (pid : Int) : (requeue k pid).pidCour = k.pidCour := by
  unfold requeue
  split
  · rfl
  · rfl
  · simp
@[simp] theorem initLink_tabProc (k : Procs) (pid : Int) : (initLink k pid).tabProc = k.tabProc := rfl
@[simp] theorem initLink_pidCour (k : Procs) (pid : Int) : (initLink k pid).pidCour = k.pidCour := rfl
@[simp] theorem wakeupProcess_pidCour (k : Procs) (pid : Int) : (wakeupProcess k pid).pidCour = k.pidCour := by
  unfold wakeupProcess; split <;> simp

/-- `wakeup_process` changes the state of its process and of no other. -/
@[simp] theorem wakeupProcess_tabProc (k : Procs) (pid q : Int) : (wakeupProcess k pid).tabProc q =
    { k.tabProc q with state := if q = pid ∧ InUse k.tabProc pid then .activable else (k.tabProc q).state } := by
  unfold wakeupProcess
  by_cases used : InUse k.tabProc pid
  · have inside := used.1
    have valid := used.2
    simp only [InTab] at inside
    rw [if_neg (by rw [valid]; simp; omega)]
    by_cases same : q = pid <;> simp [used,used.1,same]
  · rw [if_pos (by
      by_contra refused
      simp only [not_or,not_lt,Bool.not_eq_false] at refused
      exact used ⟨⟨by omega,by omega⟩,refused.2.2⟩)]
    simp [used]

/-! ### Operations on the list -/

theorem Queue.length_le {k : Procs} {q : List Int} (queue : Queue k q) : q.length < fuel := by
  have inside : q ⊆ pids := fun p member => (mem_pids p).mpr (queue.inTab p member)
  have bound := (List.Nodup.subperm queue.ring.nodup inside).length_le
  have : pids.length = 20 := rfl
  simp only [fuel]; omega

/-- The list reads the links, the priorities and the order of insertion. -/
theorem Queue.frame {k k' : Procs} {q : List Int} (queue : Queue k q) (links : k'.links = k.links)
    (inserted : k'.inserted = k.inserted) (halted : k'.halted = k.halted)
    (priority : ∀ p ∈ q, (k'.tabProc p).priority = (k.tabProc p).priority) : Queue k' q where
  ring := links ▸ queue.ring
  sorted := queue.sorted.imp_of_mem (fun {a b} inA inB before => by
    simpa only [Before,priority a inA,priority b inB,inserted] using before)
  inTab := queue.inTab
  running := halted ▸ queue.running

theorem initLink_queue {k : Procs} {q : List Int} (queue : Queue k q) {x : Int} (fresh : x ∉ q) :
    Queue (initLink k x) q :=
  { queue with ring := Ring.clear_ring queue.ring fresh }

/-- A priority divides the list. -/
theorem Queue.divide {k : Procs} {q : List Int} (queue : Queue k q) (bound : Int) :
    ∃ l r, q = l ++ r ∧ (∀ a ∈ l, (k.tabProc a).priority < bound) ∧ ∀ b ∈ r, bound ≤ (k.tabProc b).priority := by
  let low := fun a => decide ((k.tabProc a).priority < bound)
  have whole : q.takeWhile low ++ q.dropWhile low = q := List.takeWhile_append_dropWhile
  refine ⟨q.takeWhile low,q.dropWhile low,whole.symm,?_,?_⟩
  · intro a member
    simpa [low] using List.mem_takeWhile_imp member
  · have sorted := (List.pairwise_append.mp (whole ▸ queue.sorted)).2.1
    have first := List.head?_dropWhile_not low q
    cases upper : q.dropWhile low with
    | nil => simp
    | cons c r =>
      rw [upper] at sorted first
      have least : bound ≤ (k.tabProc c).priority := by simpa [low] using first
      intro b member
      rcases List.mem_cons.mp member with rfl | later
      · exact least
      · rcases (List.pairwise_cons.mp sorted).1 b later with less | ⟨same,_⟩ <;> omega

/-- The order among old elements does not see a new insertion. -/
private theorem Before.insert {k : Procs} {a b x : Int} (otherA : a ≠ x) (otherB : b ≠ x) (before : Before k a b)
    (links : Ring.Links Int) : Before { k with links := links, inserted := x :: k.inserted } a b := by
  simpa [Before,List.idxOf_cons_ne _ otherA.symm,List.idxOf_cons_ne _ otherB.symm] using before

/-- `queue_add` puts the process behind all of lower priority. -/
theorem queueAdd_queue {k : Procs} {q : List Int} (queue : Queue k q) {x : Int} (fresh : x ∉ q) (inside : InTab x)
    (unlinked : k.links (.elem x) = ⟨none,none⟩) :
    ∃ l r, q = l ++ r ∧ Queue (queueAdd k x) (l ++ x :: r) ∧
      (∀ a ∈ l, (k.tabProc a).priority < (k.tabProc x).priority) ∧
      ∀ b ∈ r, (k.tabProc x).priority ≤ (k.tabProc b).priority := by
  obtain ⟨l,r,rfl,lower,upper⟩ := queue.divide (k.tabProc x).priority
  have parts := List.pairwise_append.mp queue.sorted
  have passed : ∀ a ∈ l, stopFor k.tabProc x a = false := fun a member => by simp [stopFor,lower a member]
  have stopped : ∀ b ∈ r.head?, stopFor k.tabProc x b = true := fun b head => by
    simpa [stopFor] using upper b (List.mem_of_mem_head? head)
  obtain ⟨links,added,ring⟩ := Ring.add_ring queue.ring fresh unlinked passed stopped
    (Nat.lt_of_le_of_lt (by simp) queue.length_le)
  have done : queueAdd k x = { k with links := links, inserted := x :: k.inserted } := by
    simp [queueAdd,added]
  refine ⟨l,r,rfl,?_,lower,upper⟩
  rw [done]
  have other : ∀ a ∈ l ++ r, a ≠ x := fun a member same => fresh (same ▸ member)
  refine ⟨ring,List.pairwise_append.mpr ⟨?_,List.pairwise_cons.mpr ⟨?_,?_⟩,?_⟩,?_,queue.running⟩
  · exact parts.1.imp_of_mem (fun inA inB before => before.insert (other _ (by simp [inA])) (other _ (by simp [inB])) _)
  · intro b member
    have different := other b (by simp [member])
    rcases Int.lt_or_eq_of_le (upper b member) with less | same
    · exact .inl less
    · refine .inr ⟨same,?_⟩
      simp [List.idxOf_cons_ne _ different.symm]
  · exact parts.2.1.imp_of_mem (fun inA inB before => before.insert (other _ (by simp [inA])) (other _ (by simp [inB])) _)
  · intro a inL b member
    rcases List.mem_cons.mp member with rfl | inR
    · exact .inl (lower a inL)
    · exact (parts.2.2 a inL b inR).insert (other _ (by simp [inL])) (other _ (by simp [inR])) _
  · intro p member
    rcases List.mem_append.mp member with inL | member
    · exact queue.inTab p (by simp [inL])
    · rcases List.mem_cons.mp member with rfl | inR
      · exact inside
      · exact queue.inTab p (by simp [inR])

/-- `queue_del` removes the process and clears its links. -/
theorem queueDel_queue {k : Procs} {l r : List Int} {x : Int} (queue : Queue k (l ++ x :: r)) :
    Queue (queueDel k x) (l ++ r) ∧ (queueDel k x).links (.elem x) = ⟨none,none⟩ := by
  obtain ⟨links,deleted,ring,clear⟩ := Ring.del_ring queue.ring
  have done : queueDel k x = { k with links := links } := by simp [queueDel,deleted]
  rw [done]
  have sub : (l ++ r).Sublist (l ++ x :: r) := List.Sublist.append_left (List.sublist_cons_self x r) l
  exact ⟨⟨ring,queue.sorted.sublist sub,fun p member => queue.inTab p (sub.subset member),queue.running⟩,clear⟩

theorem wakeupProcess_used {k : Procs} {x : Int} (used : InUse k.tabProc x) :
    wakeupProcess k x = queueAdd (initLink (k.setState x .activable) x) x := by
  have := used.1
  simp only [InTab] at this
  simp only [wakeupProcess]
  rw [if_neg (by rw [used.2]; simp; omega)]

/-- `wakeup_process` on a process in use that is not in the list. -/
theorem wakeupProcess_queue {k : Procs} {q : List Int} (queue : Queue k q) {x : Int} (used : InUse k.tabProc x)
    (fresh : x ∉ q) :
    ∃ l r, q = l ++ r ∧ Queue (wakeupProcess k x) (l ++ x :: r) ∧
      (∀ a ∈ l, (k.tabProc a).priority < (k.tabProc x).priority) ∧
      ∀ b ∈ r, (k.tabProc x).priority ≤ (k.tabProc b).priority := by
  have woken := wakeupProcess_used used
  have stated : Queue (k.setState x .activable) q := queue.frame rfl rfl rfl (fun p _ => by simp)
  obtain ⟨l,r,split,added,lower,upper⟩ := queueAdd_queue (initLink_queue stated fresh) fresh used.1 (by
    simp [initLink,Ring.clear])
  refine ⟨l,r,split,woken ▸ added,?_,?_⟩
  · simpa using lower
  · simpa using upper

/-- The invariant while `x` is about to be inserted, whatever its state. -/
structure ReadyBut (k : Procs) (q : List Int) (x : Int) : Prop extends Queue k q where
  fresh : x ∉ q
  member : ∀ p, p ≠ x → (p ∈ q ↔ InUse k.tabProc p ∧ (k.tabProc p).state = .activable)
  active : ∀ p, p ≠ x → InUse k.tabProc p → (k.tabProc p).state = .active → p = k.pidCour
  cour : k.pidCour = 0 ∨ InUse k.tabProc k.pidCour

theorem Ready.but {k : Procs} {q : List Int} (ready : Ready k q) {x : Int} (out : x ∉ q) : ReadyBut k q x :=
  { ready with fresh := out, member := fun p _ => ready.member p, active := fun p _ => ready.active p }

/-- A process outside the list that is made activable and inserted. -/
theorem ReadyBut.insert {k k' : Procs} {q : List Int} {x : Int} (but : ReadyBut k q x) (used : InUse k.tabProc x)
    {l r : List Int} (split : q = l ++ r) (queue : Queue k' (l ++ x :: r)) (cour : k'.pidCour = k.pidCour)
    (inUse : ∀ p, InUse k'.tabProc p ↔ InUse k.tabProc p) (self : (k'.tabProc x).state = .activable)
    (state : ∀ p, p ≠ x → (k'.tabProc p).state = (k.tabProc p).state) : Ready k' (l ++ x :: r) where
  toQueue := queue
  member p := by
    rw [inUse p]
    by_cases same : p = x
    · subst same; simp [used,self]
    · have := but.member p same
      rw [split] at this
      simp only [List.mem_append,List.mem_cons,same,false_or,state p same] at this ⊢
      exact this
  active p usedP active := by
    rw [inUse p] at usedP
    by_cases same : p = x
    · subst same; simp [self] at active
    · rw [cour]; exact but.active p same usedP (state p same ▸ active)
  cour := by rw [cour,inUse]; exact but.cour

/-- `wakeup_process` on a process in use outside the list. -/
theorem wakeupProcess_ready {k : Procs} {q : List Int} {x : Int} (but : ReadyBut k q x) (used : InUse k.tabProc x) :
    ∃ l r, q = l ++ r ∧ Ready (wakeupProcess k x) (l ++ x :: r) := by
  obtain ⟨l,r,split,queue,_⟩ := wakeupProcess_queue but.toQueue used but.fresh
  exact ⟨l,r,split,but.insert used split queue (by simp) (fun p => by simp [InUse]) (by simp [used])
    (fun p other => by simp [other])⟩

theorem wakeupProcess_unused {k : Procs} {x : Int} (unused : ¬ InUse k.tabProc x) : wakeupProcess k x = k := by
  unfold wakeupProcess
  rw [if_pos]
  by_contra refused
  simp only [not_or,not_lt,Bool.not_eq_false] at refused
  exact unused ⟨⟨by omega,by omega⟩,refused.2.2⟩

/-- The list reads the states and the priorities of the processes in use. -/
theorem Ready.frame {k k' : Procs} {q : List Int} (ready : Ready k q) (links : k'.links = k.links)
    (inserted : k'.inserted = k.inserted) (halted : k'.halted = k.halted) (cour : k'.pidCour = k.pidCour)
    (used : ∀ p, InUse k'.tabProc p ↔ InUse k.tabProc p)
    (priority : ∀ p ∈ q, (k'.tabProc p).priority = (k.tabProc p).priority)
    (activable : ∀ p, InUse k.tabProc p → ((k'.tabProc p).state = .activable ↔ (k.tabProc p).state = .activable))
    (active : ∀ p, InUse k.tabProc p → (k'.tabProc p).state = .active → (k.tabProc p).state = .active) :
    Ready k' q where
  toQueue := ready.toQueue.frame links inserted halted priority
  member p := by
    rw [ready.member p,used p]
    exact and_congr_right (fun usedP => (activable p usedP).symm)
  active p usedP state := by
    rw [used p] at usedP
    rw [cour]
    exact ready.active p usedP (active p usedP state)
  cour := by rw [cour,used]; exact ready.cour

/-- A write to fields that the list does not read. -/
theorem Ready.setProc {k : Procs} {q : List Int} (ready : Ready k q) (x : Int) {f : Context → Context}
    (valide : ∀ c, (f c).valide = c.valide) (priority : ∀ c, (f c).priority = c.priority)
    (state : ∀ c, (f c).state = c.state) : Ready (k.setProc x f) q := by
  refine ready.frame rfl rfl rfl rfl (fun p => ?_) (fun p _ => ?_) (fun p _ => ?_) (fun p _ => ?_)
  all_goals by_cases same : p = x <;> simp [InUse,same,valide,priority,state]

/-- A process stops being runnable, and leaves the list if it was in it. -/
theorem Ready.stop {k : Procs} {q : List Int} (ready : Ready k q) {x : Int} (used : InUse k.tabProc x)
    {f : Context → Context} (valide : ∀ c, (f c).valide = c.valide) (priority : ∀ c, (f c).priority = c.priority)
    (stopped : ¬ Runnable (f (k.tabProc x)).state) :
    ∃ q', Ready ((if (k.tabProc x).state = .activable then queueDel k x else k).setProc x f) q' := by
  have inside := used.1
  simp only [Runnable,not_or] at stopped
  by_cases activable : (k.tabProc x).state = .activable
  · obtain ⟨l,r,rfl⟩ := List.append_of_mem ((ready.member x).mpr ⟨used,activable⟩)
    obtain ⟨queue,_⟩ := queueDel_queue ready.toQueue
    have fresh := (List.nodup_cons.mp (List.nodup_middle.mp ready.ring.nodup)).1
    have inUse : ∀ p, InUse ((queueDel k x).setProc x f).tabProc p ↔ InUse k.tabProc p := fun p => by
      by_cases same : p = x <;> simp [InUse,same,valide]
    rw [if_pos activable]
    refine ⟨l ++ r,queue.frame rfl rfl rfl (fun p _ => ?_),fun p => ?_,fun p usedP active => ?_,?_⟩
    · by_cases same : p = x <;> simp [same,priority]
    · rw [inUse p]
      by_cases same : p = x
      · subst same; simp [fresh,inside,stopped]
      · have := ready.member p
        simp only [List.mem_append,List.mem_cons,same,false_or] at this ⊢
        simpa [same] using this
    · rw [inUse p] at usedP
      by_cases same : p = x
      · subst same; simp [inside,stopped] at active
      · simpa using ready.active p usedP (by simpa [same] using active)
    · simpa only [inUse,Procs.setProc_pidCour,queueDel_pidCour] using ready.cour
  · rw [if_neg activable]
    refine ⟨q,ready.frame rfl rfl rfl rfl (fun p => ?_) (fun p _ => ?_) (fun p _ => ?_) (fun p _ => ?_)⟩
    · by_cases same : p = x <;> simp [InUse,same,valide]
    · by_cases same : p = x <;> simp [same,priority]
    · by_cases same : p = x
      · subst same; simp [inside,stopped,activable]
      · simp [same]
    · by_cases same : p = x
      · subst same; simp [inside,stopped]
      · simp [same]

/-- An activable process gets another priority and a new place in the list. -/
theorem requeue_ready {k : Procs} {q : List Int} (ready : Ready k q) {x : Int} (member : x ∈ q) (newprio : Int) :
    ∃ l r l' r', q = l ++ x :: r ∧ l ++ r = l' ++ r' ∧
      Ready (requeue (k.setProc x (fun c => { c with priority := newprio })) x) (l' ++ x :: r') ∧
      (∀ a ∈ l', (k.tabProc a).priority < newprio) ∧ ∀ b ∈ r', newprio ≤ (k.tabProc b).priority := by
  obtain ⟨l,r,rfl⟩ := List.append_of_mem member
  obtain ⟨used,activable⟩ := (ready.member x).mp member
  obtain ⟨fresh,_⟩ := List.nodup_cons.mp (List.nodup_middle.mp ready.ring.nodup)
  have other : ∀ p ∈ l ++ r, p ≠ x := fun p inside same => fresh (same ▸ inside)
  obtain ⟨links,deleted,ring,clear⟩ := Ring.del_ring ready.ring
  let k' := k.setProc x (fun c => { c with priority := newprio })
  have found : requeue k' x = queueAdd { k' with links := links } x := by
    have met : Ring.seek k'.links (fun p => decide (p = x)) fuel .head = some (.elem x) :=
      Ring.seek_ring ready.ring (fun b inL => by simp [other b (by simp [inL])]) (by simp)
        (Nat.lt_of_le_of_lt (by simp) ready.toQueue.length_le)
    have removed : Ring.del k'.links x = some links := deleted
    simp [requeue,met,queueDel,removed]
  have sub : (l ++ r).Sublist (l ++ x :: r) := List.Sublist.append_left (List.sublist_cons_self x r) l
  have priority : ∀ p, p ≠ x → (k'.tabProc p).priority = (k.tabProc p).priority := fun p different => by
    simp [k',different]
  have queue : Queue { k' with links := links } (l ++ r) :=
    ⟨ring,(ready.sorted.sublist sub).imp_of_mem (fun {a b} inA inB before => by
      simpa [Before,k',other a inA,other b inB] using before),
      fun p inside => ready.inTab p (sub.subset inside),ready.running⟩
  have usedP : ∀ p, InUse k'.tabProc p ↔ InUse k.tabProc p := fun p => by simp [k',InUse]
  obtain ⟨l',r',split,added,lower,upper⟩ := queueAdd_queue queue fresh used.1 clear
  have but : ReadyBut { k' with links := links } (l ++ r) x :=
    { queue with
      fresh := fresh
      member := fun p different => by
        have := ready.member p
        simp only [List.mem_append,List.mem_cons,different,false_or] at this ⊢
        rw [usedP p]
        simpa [k'] using this
      active := fun p _ inUse active => ready.active p ((usedP p).mp inUse) (by simpa [k'] using active)
      cour := ready.cour.imp_right (usedP _).mpr }
  refine ⟨l,r,l',r',rfl,split,?_,fun a inL => ?_,fun b inR => ?_⟩
  · rw [found]
    exact but.insert ((usedP x).mpr used) split added (by simp) (fun p => by simp) (by simpa [k'] using activable)
      (fun p _ => by simp)
  · have different := other a (split ▸ by simp [inL])
    simpa [k',different,used.1] using lower a inL
  · have different := other b (split ▸ by simp [inR])
    simpa [k',different,used.1] using upper b inR

/-! ### The history of insertions -/

@[simp] theorem queueDel_inserted (k : Procs) (pid : Int) : (queueDel k pid).inserted = k.inserted := by
  unfold queueDel; split <;> rfl

/-- An insertion that does not fail is recorded. -/
theorem queueAdd_inserted {k : Procs} {pid : Int} (running : (queueAdd k pid).halted = false) :
    (queueAdd k pid).inserted = pid :: k.inserted := by
  unfold queueAdd at running ⊢
  split
  · rfl
  · rename_i failed
    simp [failed] at running

theorem queueAdd_count (k : Procs) {pid p : Int} (other : p ≠ pid) :
    (queueAdd k pid).inserted.count p = k.inserted.count p := by
  unfold queueAdd
  split
  · exact List.count_cons_of_ne other.symm
  · rfl

theorem wakeupProcess_count (k : Procs) {pid p : Int} (other : p ≠ pid) :
    (wakeupProcess k pid).inserted.count p = k.inserted.count p := by
  unfold wakeupProcess
  split
  · rfl
  · exact queueAdd_count _ other

theorem requeue_count (k : Procs) {pid p : Int} (other : p ≠ pid) :
    (requeue k pid).inserted.count p = k.inserted.count p := by
  unfold requeue
  split
  · rfl
  · rfl
  · rename_i found met
    have same : found = pid := by simpa using Ring.seek_stops met
    rw [same,queueAdd_count _ other,queueDel_inserted]

/-- `scheduler` inserts the current process, if any. -/
theorem scheduler_count (k : Procs) {p : Int} (still : (k.tabProc p).state ≠ .active) :
    (scheduler k).inserted.count p = k.inserted.count p := by
  unfold scheduler
  split
  · split <;> rfl
  · split
    · rfl
    · split
      · dsimp only
        split
        · rename_i pid _ _ active
          rw [queueDel_tabProc] at active
          have other : p ≠ k.pidCour := fun same => still (same ▸ active)
          exact (wakeupProcess_count (queueDel k pid) other).trans (by rw [queueDel_inserted])
        · exact congrArg (List.count p) (queueDel_inserted k _)
      · rfl
    · split <;> rfl

/-! ### The scheduler -/

theorem Dispatched.refl (t : Int → Context) : Dispatched t t := ⟨fun _ => rfl,fun _ => .inl rfl,fun _ => .inl rfl⟩

theorem Dispatched.trans {t t' t'' : Int → Context} (first : Dispatched t t') (second : Dispatched t' t'') :
    Dispatched t t'' where
  same p := by rw [second.same p,first.same p]
  state p := by
    rcases second.state p with same | ⟨was,is⟩
    · rw [same]; exact first.state p
    · rcases first.state p with same | ⟨before,_⟩
      · exact .inr ⟨same ▸ was,is⟩
      · exact .inr ⟨before,is⟩
  valide p := by
    rcases second.valide p with same | ⟨freed,ended⟩
    · rw [same]; exact first.valide p
    · rcases first.state p with same | ⟨_,alive⟩
      · exact .inr ⟨freed,same ▸ ended⟩
      · simp [ended,Runnable] at alive

/-- A runnable process gets another runnable state. -/
theorem setState_dispatched (k : Procs) (pid : Int) {state : ProcState} (was : Runnable (k.tabProc pid).state)
    (is : Runnable state) : Dispatched k.tabProc (k.setState pid state).tabProc where
  same p := by by_cases same : p = pid ∧ InTab pid <;> simp [same]
  state p := by
    by_cases same : p = pid ∧ InTab pid
    · obtain ⟨rfl,inside⟩ := same
      exact .inr ⟨was,by simpa [inside] using is⟩
    · simp [same]
  valide p := by simp

theorem wakeupProcess_dispatched (k : Procs) (pid : Int) (was : Runnable (k.tabProc pid).state) :
    Dispatched k.tabProc (wakeupProcess k pid).tabProc where
  same p := by simp
  state p := by
    by_cases same : p = pid ∧ InUse k.tabProc pid
    · obtain ⟨rfl,used⟩ := same
      exact .inr ⟨was,by simp [used,Runnable]⟩
    · simp [same]
  valide p := by simp

/-- `garbage_collector` frees the dead processes in use. -/
@[simp] theorem garbageCollector_tabProc (k : Procs) (q : Int) : (garbageCollector k).tabProc q =
    { k.tabProc q with
      valide := if InUse k.tabProc q ∧ (k.tabProc q).state = .dead then false else (k.tabProc q).valide } := by
  simp only [garbageCollector]
  split <;> rfl
@[simp] theorem garbageCollector_pidCour (k : Procs) : (garbageCollector k).pidCour = k.pidCour := rfl

theorem garbageCollector_dispatched (k : Procs) : Dispatched k.tabProc (garbageCollector k).tabProc where
  same p := by simp
  state p := by simp
  valide p := by
    by_cases dead : InUse k.tabProc p ∧ (k.tabProc p).state = .dead <;> simp [dead]

theorem garbageCollector_inUse (k : Procs) (p : Int) :
    InUse (garbageCollector k).tabProc p ↔ InUse k.tabProc p ∧ (k.tabProc p).state ≠ .dead := by
  rw [inUse_iff,garbageCollector_tabProc]
  by_cases dead : InUse k.tabProc p ∧ (k.tabProc p).state = .dead
  · simp [dead]
  · simp only [if_neg dead,← inUse_iff]
    tauto

theorem garbageCollector_ready {k : Procs} {q : List Int} (ready : Ready k q)
    (alive : k.pidCour = 0 ∨ (k.tabProc k.pidCour).state ≠ .dead) : Ready (garbageCollector k) q where
  toQueue := ready.toQueue.frame rfl rfl rfl (fun p _ => by simp)
  member p := by
    rw [ready.member p,garbageCollector_inUse]
    simp only [garbageCollector_tabProc]
    constructor
    · rintro ⟨used,activable⟩; exact ⟨⟨used,by simp [activable]⟩,activable⟩
    · rintro ⟨⟨used,_⟩,activable⟩; exact ⟨used,activable⟩
  active p used state := by
    rw [garbageCollector_inUse] at used
    exact ready.active p used.1 (by simpa using state)
  cour := by
    rw [garbageCollector_inUse]
    rcases ready.cour with idle | current
    · exact .inl idle
    · rcases alive with idle | alive
      · exact .inl idle
      · exact .inr ⟨current,alive⟩

/-- A process outside the list is dispatched, when no other process is active. -/
theorem switchTo_ready {k : Procs} {q : List Int} (queue : Queue k q) {x : Int} (used : InUse k.tabProc x)
    (member : ∀ p, p ∈ q ↔ InUse k.tabProc p ∧ (k.tabProc p).state = .activable ∧ p ≠ x)
    (active : ∀ p, InUse k.tabProc p → (k.tabProc p).state = .active → p = x) :
    Ready (switchTo k x) q ∧ Running (switchTo k x) := by
  have inside := used.1
  have same : ∀ p, InUse ({ k with pidCour := x }.setState x .active).tabProc p ↔ InUse k.tabProc p := by
    intro p; simp [InUse]
  have ready : Ready ({ k with pidCour := x }.setState x .active) q := by
    refine ⟨queue.frame rfl rfl rfl (fun p _ => by simp),?_,?_,.inr ?_⟩
    · intro p
      rw [member p,same p]
      by_cases other : p = x <;> simp [other,inside]
    · intro p usedP state
      rw [same p] at usedP
      by_cases other : p = x
      · exact other
      · exact active p usedP (by simpa [other] using state)
    · rw [same]; exact used
  refine ⟨garbageCollector_ready ready (.inr (by simp [inside])),fun _ => ?_⟩
  simp [switchTo,inside]

theorem switchTo_dispatched (k : Procs) (x : Int) (was : Runnable (k.tabProc x).state) :
    Dispatched k.tabProc (switchTo k x).tabProc :=
  (setState_dispatched { k with pidCour := x } x was (.inl rfl)).trans (garbageCollector_dispatched _)

/-- The last process of the list has the highest priority. -/
theorem Queue.last {k : Procs} {l : List Int} {x : Int} (queue : Queue k (l ++ [x])) {p : Int} (member : p ∈ l) :
    (k.tabProc p).priority ≤ (k.tabProc x).priority := by
  rcases (List.pairwise_append.mp queue.sorted).2.2 p member x (by simp) with less | ⟨same,_⟩ <;> omega

theorem Dispatched.priority {t t' : Int → Context} (dispatched : Dispatched t t') (p : Int) :
    (t' p).priority = (t p).priority := (congrArg Context.priority (dispatched.same p) :)

/-- What a call of `scheduler` that finds `k` leaves behind. -/
structure Scheduled (k k' : Procs) : Prop where
  ready : ∃ q, Ready k' q
  running : Running k'
  top : Top k'
  dispatched : Dispatched k.tabProc k'.tabProc

/-- A process of highest priority is dispatched. -/
private theorem switchTo_scheduled {k k' : Procs} (before : Dispatched k.tabProc k'.tabProc) {l : List Int}
    (queue : Queue k' l) {x : Int} (used : InUse k'.tabProc x) (was : (k'.tabProc x).state = .activable)
    (member : ∀ p, p ∈ l ↔ InUse k'.tabProc p ∧ (k'.tabProc p).state = .activable ∧ p ≠ x)
    (active : ∀ p, InUse k'.tabProc p → (k'.tabProc p).state ≠ .active)
    (highest : ∀ p ∈ l, (k'.tabProc p).priority ≤ (k'.tabProc x).priority) : Scheduled k (switchTo k' x) := by
  obtain ⟨ready,running⟩ := switchTo_ready queue used member (fun p usedP state => absurd state (active p usedP))
  have dispatched := switchTo_dispatched k' x (.inr was)
  refine ⟨⟨l,ready⟩,running,fun p usedP state => ⟨?_,?_⟩,before.trans dispatched⟩
  · show x ≠ 0
    rintro rfl
    simp [InUse,InTab] at used
  · show _ ≤ ((switchTo k' x).tabProc x).priority
    rw [dispatched.priority p,dispatched.priority x]
    exact highest p ((ready.member p).mpr ⟨usedP,state⟩)

/-- Nothing else is runnable. -/
theorem scheduler_alone {k : Procs} (ready : Ready k []) (active : (k.tabProc k.pidCour).state = .active) :
    scheduler k = k := by
  by_cases idle : k.pidCour = 0
  · simp [scheduler,idle,Ring.out_empty ready.ring]
  · simp [scheduler,idle,Ring.top_ring ready.ring,active]

/-- Nothing else is runnable: the current process goes on, or the kernel idles. -/
private theorem scheduler_empty {k : Procs} (ready : Ready k []) : Scheduled k (scheduler k) := by
  have still : Top k := by
    intro p used state
    simpa using (ready.member p).mpr ⟨used,state⟩
  by_cases idle : k.pidCour = 0
  · have same : scheduler k = k := by simp [scheduler,idle,Ring.out_empty ready.ring]
    rw [same]
    exact ⟨⟨[],ready⟩,fun other => absurd idle other,still,.refl _⟩
  · by_cases active : (k.tabProc k.pidCour).state = .active
    · rw [scheduler_alone ready active]
      exact ⟨⟨[],ready⟩,fun _ => active,still,.refl _⟩
    · have same : scheduler k = switchToKernel k := by simp [scheduler,idle,Ring.top_ring ready.ring,active]
      rw [same]
      have ready' : Ready { k with pidCour := 0 } [] :=
        { ready with
          active := fun p used state => absurd (ready.active p used state ▸ state) active
          cour := .inl rfl }
      have collected := garbageCollector_ready ready' (.inl rfl)
      refine ⟨⟨[],collected⟩,fun other => absurd rfl other,fun p used state => ?_,garbageCollector_dispatched _⟩
      simpa using (collected.member p).mpr ⟨used,state⟩

section Waiting
variable {k : Procs} {l : List Int} {x : Int} (ready : Ready k (l ++ [x]))
include ready

/-- The processes before the last of the list. -/
private theorem Ready.before (p : Int) : p ∈ l ↔ InUse k.tabProc p ∧ (k.tabProc p).state = .activable ∧ p ≠ x := by
  have fresh : x ∉ l := (List.nodup_cons.mp (List.nodup_middle.mp ready.ring.nodup)).1 ∘ (by simp)
  have listed := ready.member p
  by_cases same : p = x
  · subst same
    simp [fresh]
  · simp only [List.mem_append,List.mem_singleton,same,or_false] at listed
    simp [same,listed]

/-- The kernel idles: the last of the list is dispatched. -/
private theorem scheduler_idle (idle : k.pidCour = 0) : Scheduled k (scheduler k) := by
  obtain ⟨used,was⟩ := (ready.member x).mp (by simp)
  obtain ⟨links,taken,ring⟩ := Ring.out_ring ready.ring
  have same : scheduler k = switchTo { k with links := links } x := by simp [scheduler,idle,taken]
  have queue : Queue { k with links := links } l :=
    ⟨ring,ready.sorted.sublist (List.sublist_append_left l [x]),fun p inL => ready.inTab p (by simp [inL]),
      ready.running⟩
  rw [same]
  refine switchTo_scheduled ?_ queue used was ready.before (fun p usedP state => ?_) (fun p => ready.last)
  · exact .refl _
  · have current := ready.active p usedP state
    simp [current,idle,InUse,InTab] at usedP

/-- The current process stops: the last of the list takes its place. -/
private theorem scheduler_passes (busy : k.pidCour ≠ 0) (stopped : (k.tabProc k.pidCour).state ≠ .active) :
    Scheduled k (scheduler k) := by
  obtain ⟨used,was⟩ := (ready.member x).mp (by simp)
  obtain ⟨queue,_⟩ := queueDel_queue ready.toQueue
  rw [List.append_nil] at queue
  have same : scheduler k = switchTo (queueDel k x) x := by
    simp [scheduler,busy,Ring.top_ring ready.ring,stopped]
  rw [same]
  refine switchTo_scheduled (by simpa using Dispatched.refl _) queue (by simpa using used) (by simpa using was)
    (by simpa using ready.before) (fun p usedP state => ?_) (fun p inL => by simpa using ready.last inL)
  simp only [queueDel_tabProc] at usedP state
  exact stopped (ready.active p usedP state ▸ state)

/-- What the list is when the last of it preempts the current process, which
    goes back to the list. -/
private theorem Ready.preempted (busy : k.pidCour ≠ 0) (active : (k.tabProc k.pidCour).state = .active) :
    ∃ l₁ l₂, l = l₁ ++ l₂ ∧ Queue (wakeupProcess (queueDel k x) k.pidCour) (l₁ ++ k.pidCour :: l₂) ∧
      (∀ a ∈ l₁, (k.tabProc a).priority < (k.tabProc k.pidCour).priority) ∧
      (∀ b ∈ l₂, (k.tabProc k.pidCour).priority ≤ (k.tabProc b).priority) ∧
      (∀ p, p ∈ l₁ ++ k.pidCour :: l₂ ↔ InUse (wakeupProcess (queueDel k x) k.pidCour).tabProc p ∧
        ((wakeupProcess (queueDel k x) k.pidCour).tabProc p).state = .activable ∧ p ≠ x) ∧
      ∀ p, InUse (wakeupProcess (queueDel k x) k.pidCour).tabProc p →
        ((wakeupProcess (queueDel k x) k.pidCour).tabProc p).state ≠ .active := by
  obtain ⟨used,was⟩ := (ready.member x).mp (by simp)
  obtain ⟨queue,_⟩ := queueDel_queue ready.toQueue
  rw [List.append_nil] at queue
  have current : InUse k.tabProc k.pidCour := ready.cour.resolve_left busy
  have other : k.pidCour ≠ x := fun same => by simp [same,was] at active
  have outside : k.pidCour ∉ l := fun inL => by simp [((ready.before _).mp inL).2.1] at active
  obtain ⟨l₁,l₂,rfl,woken,lower,upper⟩ := wakeupProcess_queue queue (by simpa using current) outside
  have used' : ∀ p, InUse (wakeupProcess (queueDel k x) k.pidCour).tabProc p ↔ InUse k.tabProc p := by
    intro p
    simp [InUse]
  refine ⟨l₁,l₂,rfl,woken,by simpa using lower,by simpa using upper,fun p => ?_,fun p usedP => ?_⟩
  · have listed := ready.before p
    rw [used' p]
    by_cases same : p = k.pidCour
    · subst same
      simp [current,other]
    · simp only [List.mem_append,List.mem_cons,same,false_or,wakeupProcess_tabProc,queueDel_tabProc,false_and,
        if_false] at listed ⊢
      exact listed
  · rw [used' p] at usedP
    by_cases same : p = k.pidCour
    · subst same
      simp [current]
    · simpa [same] using fun state => same (ready.active p usedP state)

/-- The last of the list preempts the current process, if its priority is as
    high. -/
theorem scheduler_switches (busy : k.pidCour ≠ 0) (active : (k.tabProc k.pidCour).state = .active)
    (preempted : (k.tabProc x).priority ≥ (k.tabProc k.pidCour).priority) :
    scheduler k = switchTo (wakeupProcess (queueDel k x) k.pidCour) x := by
  simp [scheduler,busy,Ring.top_ring ready.ring,active,preempted]

/-- The current process goes behind those of lower priority. -/
theorem scheduler_requeues (busy : k.pidCour ≠ 0) (active : (k.tabProc k.pidCour).state = .active)
    (preempted : (k.tabProc x).priority ≥ (k.tabProc k.pidCour).priority) :
    ∃ l₁ l₂, l = l₁ ++ l₂ ∧ Ready (scheduler k) (l₁ ++ k.pidCour :: l₂) ∧
      (∀ a ∈ l₁, (k.tabProc a).priority < (k.tabProc k.pidCour).priority) ∧
      ∀ b ∈ l₂, (k.tabProc k.pidCour).priority ≤ (k.tabProc b).priority := by
  obtain ⟨used,_⟩ := (ready.member x).mp (by simp)
  obtain ⟨l₁,l₂,split,woken,lower,upper,member,still⟩ := ready.preempted busy active
  refine ⟨l₁,l₂,split,?_,lower,upper⟩
  rw [scheduler_switches ready busy active preempted]
  exact (switchTo_ready woken (by simpa [InUse] using used) member
    (fun p usedP state => absurd state (still p usedP))).1

/-- The last of the list preempts the current process. -/
private theorem scheduler_preempts (busy : k.pidCour ≠ 0) (active : (k.tabProc k.pidCour).state = .active)
    (preempted : (k.tabProc x).priority ≥ (k.tabProc k.pidCour).priority) : Scheduled k (scheduler k) := by
  obtain ⟨used,was⟩ := (ready.member x).mp (by simp)
  obtain ⟨l₁,l₂,rfl,woken,_,_,member,still⟩ := ready.preempted busy active
  have other : k.pidCour ≠ x := fun same => by simp [same,was] at active
  have moved : Dispatched k.tabProc (wakeupProcess (queueDel k x) k.pidCour).tabProc := by
    simpa using wakeupProcess_dispatched (queueDel k x) k.pidCour (by simp [active,Runnable])
  rw [scheduler_switches ready busy active preempted]
  refine switchTo_scheduled moved woken (by simpa [InUse] using used) (by simp [other.symm,was]) member still
    (fun p inL => ?_)
  by_cases same : p = k.pidCour
  · subst same
    simpa using preempted
  · simp only [List.mem_append,List.mem_cons,same,false_or] at inL
    simpa using ready.last (List.mem_append.mpr inL)

/-- The current process has a higher priority than any in the list. -/
theorem scheduler_same (busy : k.pidCour ≠ 0) (active : (k.tabProc k.pidCour).state = .active)
    (highest : ¬ (k.tabProc x).priority ≥ (k.tabProc k.pidCour).priority) : scheduler k = k := by
  simp [scheduler,busy,Ring.top_ring ready.ring,active,highest]

private theorem scheduler_continues (busy : k.pidCour ≠ 0) (active : (k.tabProc k.pidCour).state = .active)
    (highest : ¬ (k.tabProc x).priority ≥ (k.tabProc k.pidCour).priority) : Scheduled k (scheduler k) := by
  rw [scheduler_same ready busy active highest]
  refine ⟨⟨_,ready⟩,fun _ => active,fun p usedP state => ⟨busy,?_⟩,.refl _⟩
  rcases List.mem_append.mp ((ready.member p).mpr ⟨usedP,state⟩) with inL | last
  · have := ready.last inL
    omega
  · simp only [List.mem_singleton] at last
    subst last
    omega

end Waiting

/-- `scheduler` keeps the list, leaves an active process in charge and none of
    higher priority behind, and idles only when nothing is runnable. -/
theorem scheduler_scheduled {k : Procs} {q : List Int} (ready : Ready k q) : Scheduled k (scheduler k) := by
  cases q using List.reverseRecOn with
  | nil => exact scheduler_empty ready
  | append_singleton l x =>
    by_cases idle : k.pidCour = 0
    · exact scheduler_idle ready idle
    · by_cases active : (k.tabProc k.pidCour).state = .active
      · by_cases preempted : (k.tabProc x).priority ≥ (k.tabProc k.pidCour).priority
        · exact scheduler_preempts ready idle active preempted
        · exact scheduler_continues ready idle active preempted
      · exact scheduler_passes ready idle active

end Psys.ProcQueue
