import Psys.Invariant

/-!
`chprio` on a list of activable processes in order: the list stays in order,
and no other process changes its place among the rest.
-/
namespace Psys.Priorities
open Psys.State Psys.Context Psys.Sys Psys.ProcQueue Psys.System Psys.Invariant
open Psys.Runs (run reach_of_run)

/-- The processes when `chprio` calls `scheduler`. -/
def reordered (k : Procs) (pid newprio : Int) : Procs :=
  if newprio = (k.tabProc pid).priority then k
  else
    let p := k.setProc pid (fun c => { c with priority := newprio })
    if (p.tabProc pid).state = .activable then requeue p pid else p

theorem chprio_eq (k : Kernel) (pid newprio : Int) : chprio k pid newprio =
    if pid ≤ 0 ∨ Ended k.tabProc pid then sysret k (some (-1))
    else if newprio ≤ 0 ∨ newprio > MAXPRIO then sysret k (some (-2))
    else callScheduler { k with toProcs := reordered k.toProcs pid newprio } (.ret (k.tabProc pid).priority) := by
  unfold chprio reordered
  dsimp only
  by_cases refused : pid ≤ 0 ∨ Ended k.tabProc pid
  · rw [if_pos refused,if_pos refused]
  rw [if_neg refused,if_neg refused]
  by_cases bad : newprio ≤ 0 ∨ newprio > MAXPRIO
  · rw [if_pos bad,if_pos bad]
  rw [if_neg bad,if_neg bad]
  by_cases same : newprio = (k.tabProc pid).priority
  · rw [if_pos same,if_pos same]
  · rw [if_neg same,if_neg same]

/-- What `chprio` does to them; `q` is the list before. -/
structure Changed (k : Procs) (q : List Int) (pid newprio : Int) (p : Procs) : Prop where
  tabProc : ∀ x, p.tabProc x = if x = pid then { k.tabProc x with priority := newprio } else k.tabProc x
  cour : p.pidCour = k.pidCour
  /-- The old priority again. -/
  same : newprio = (k.tabProc pid).priority → p = k
  /-- A process outside the list. -/
  still : (k.tabProc pid).state ≠ .activable → p.links = k.links ∧ p.inserted = k.inserted ∧ Ready p q
  /-- An activable process goes behind those of its new priority, which stand
      nearer to the end that `scheduler` takes from. -/
  moved : (k.tabProc pid).state = .activable → newprio ≠ (k.tabProc pid).priority →
    ∃ l r l' r', q = l ++ pid :: r ∧ l ++ r = l' ++ r' ∧ Ready p (l' ++ pid :: r') ∧
      (∀ a ∈ l', (p.tabProc a).priority < newprio) ∧ ∀ b ∈ r', newprio ≤ (p.tabProc b).priority

/-- A process outside the list gets a priority. -/
theorem setPriority_ready {k : Procs} {q : List Int} (ready : Ready k q) {pid : Int}
    (still : (k.tabProc pid).state ≠ .activable) (newprio : Int) :
    Ready (k.setProc pid (fun c => { c with priority := newprio })) q := by
  refine ready.frame rfl rfl rfl rfl (fun p => by simp [InUse]) (fun p member => ?_) (fun p _ => by simp)
    (fun p _ => by simp)
  have other : p ≠ pid := fun same => still (same ▸ ((ready.member p).mp member).2)
  simp [other]

/-- `chprio` of a process in use, up to its call of `scheduler`. -/
theorem reordered_changed {k : Procs} {q : List Int} (ready : Ready k q) {pid : Int} (used : InUse k.tabProc pid)
    (newprio : Int) : Changed k q pid newprio (reordered k pid newprio) := by
  unfold reordered
  have inTab := used.1
  by_cases same : newprio = (k.tabProc pid).priority
  · rw [if_pos same]
    refine ⟨fun x => ?_,rfl,fun _ => rfl,fun _ => ⟨rfl,rfl,ready⟩,fun _ other => absurd same other⟩
    by_cases self : x = pid
    · subst self; rw [if_pos rfl,same]
    · rw [if_neg self]
  · rw [if_neg same]
    dsimp only
    have state : ((k.setProc pid (fun c => { c with priority := newprio })).tabProc pid).state =
        (k.tabProc pid).state := by simp
    have written : ∀ x, (k.setProc pid (fun c => { c with priority := newprio })).tabProc x =
        if x = pid then { k.tabProc x with priority := newprio } else k.tabProc x := fun x => by simp [inTab]
    rw [state]
    by_cases activable : (k.tabProc pid).state = .activable
    · rw [if_pos activable]
      refine ⟨fun x => by rw [requeue_tabProc,written],by simp,fun equal => absurd equal same,
        fun still => absurd activable still,fun _ _ => ?_⟩
      obtain ⟨l,r,l',r',form,rest,ready',lower,upper⟩ := requeue_ready ready ((ready.member pid).mpr ⟨used,activable⟩) newprio
      have distinct := List.nodup_middle.mp ready'.ring.nodup
      have other : ∀ p ∈ l' ++ r', p ≠ pid := fun p member equal => (List.nodup_cons.mp distinct).1 (equal ▸ member)
      refine ⟨l,r,l',r',form,rest,ready',fun a inL => ?_,fun b inR => ?_⟩
      · rw [requeue_tabProc,written,if_neg (other a (by simp [inL]))]
        exact lower a inL
      · rw [requeue_tabProc,written,if_neg (other b (by simp [inR]))]
        exact upper b inR
    · rw [if_neg activable]
      exact ⟨written,rfl,fun equal => absurd equal same,fun _ => ⟨rfl,rfl,setPriority_ready ready activable newprio⟩,
        fun active => absurd active activable⟩

/-- The list when `chprio` calls `scheduler`. -/
theorem Changed.ready {k p : Procs} {q : List Int} {pid newprio : Int} (changed : Changed k q pid newprio p)
    (ready : Ready k q) : ∃ q', Ready p q' := by
  by_cases same : newprio = (k.tabProc pid).priority
  · exact ⟨q,changed.same same ▸ ready⟩
  · by_cases activable : (k.tabProc pid).state = .activable
    · obtain ⟨_,_,l',r',_,_,ready',_⟩ := changed.moved activable same
      exact ⟨_,ready'⟩
    · exact ⟨q,(changed.still activable).2.2⟩

end Psys.Priorities
