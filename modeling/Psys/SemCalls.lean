import Psys.Semaphore
import Psys.Waiting

/-!
The semaphore calls keep the invariants of the processes and of the waiting
lists. Each call is first reduced to its cases.
-/
namespace Psys.SemCalls
open Psys.State Psys.Context Psys.Semaphore Psys.ProcQueue Psys.Family Psys.Processes Psys.Calls Psys.Waiting

variable {lost : Prop} {gone : Int → Nat → Prop} {k : Kernel}

theorem short_eq {x : Int} (low : SHRT_MIN ≤ x) (high : x ≤ SHRT_MAX) : short x = x := by
  simp only [SHRT_MIN,SHRT_MAX] at low high
  simp only [short]; omega

theorem short_range (x : Int) : SHRT_MIN ≤ short x ∧ short x ≤ SHRT_MAX := by
  simp only [SHRT_MIN,SHRT_MAX,short]; omega

/-- The semaphores of a kernel are in order. -/
abbrev Counted (k : Kernel) : Prop := Sems k.semaphores k.sidLibres k.tabProc

/-- The invariant between two steps. -/
structure Good (lost : Prop) (gone : Int → Nat → Prop) (k : Kernel) : Prop where
  stable : Stable lost gone k
  counted : Counted k

/-- What semaphore code keeps before it leaves the kernel. -/
structure Served (lost : Prop) (gone : Int → Nat → Prop) (k k' : Kernel) : Prop where
  inside : Inside lost gone k'.toProcs
  going : Going k'.toProcs
  counted : Counted k'
  cour : k'.pidCour = k.pidCour

theorem callScheduler_counted (inside : Inside lost gone k.toProcs) (counted : Counted k) (frame : Frame) :
    Counted (callScheduler k frame) := by
  obtain ⟨q,ready⟩ := inside.ready
  have done := scheduler_scheduled (ready.setProc k.pidCour (f := fun c => { c with frame := frame }) (fun _ => rfl)
    (fun _ => rfl) (fun _ => rfl))
  have blocked : ∀ p s, Blocked (k.toProcs.setProc k.pidCour (fun c => { c with frame := frame })).tabProc p s ↔
      Blocked k.tabProc p s := fun p s => by simp [Blocked,InUse]
  have dispatched := (Dispatched.unconcerned done.dispatched).blocked
  exact
    { counted with
      waiting := fun s used p => (counted.waiting s used p).trans ((dispatched p s).trans (blocked p s)).symm
      valid := fun p s waits => counted.valid p s ((blocked p s).mp ((dispatched p s).mp waits)) }

theorem sysret_counted (counted : Counted k) (ret : Option Int) : Counted (sysret k ret) :=
  counted.unconcerned (sysret_untouched k ret).processes

/-! ### One semaphore changes -/

/-- One semaphore and the processes that wait on it change. -/
theorem Sems.change {sems sems' : Int → Semaphore} {libres : List Int} {t t' : Int → Context}
    (ok : Sems sems libres t) (sid : Int) (others : ∀ s, s ≠ sid → sems' s = sems s)
    (valide : (sems' sid).valide = (sems sid).valide)
    (blocked : ∀ p s, s ≠ sid → (Blocked t' p s ↔ Blocked t p s)) (used : SemInUse sems sid)
    (nodup : (sems' sid).procWait.Nodup) (waiting : ∀ p, p ∈ (sems' sid).procWait ↔ Blocked t' p sid)
    (length : ((sems' sid).procWait.length : Int) = max 0 (-(sems' sid).c))
    (range : SHRT_MIN ≤ (sems' sid).c ∧ (sems' sid).c ≤ SHRT_MAX) : Sems sems' libres t' := by
  have inUse : ∀ s, SemInUse sems' s ↔ SemInUse sems s := by
    intro s
    by_cases same : s = sid
    · subst same; simp only [SemInUse,valide]
    · simp only [SemInUse,others s same]
  refine ⟨fun s usedS => ?_,fun s usedS p => ?_,fun s usedS => ?_,fun s usedS => ?_,fun p s waits => ?_,ok.distinct,
    fun s member => ?_⟩
  · by_cases same : s = sid
    · exact same ▸ nodup
    · rw [others s same]; exact ok.nodup s ((inUse s).mp usedS)
  · by_cases same : s = sid
    · subst same; exact waiting p
    · rw [others s same,blocked p s same]; exact ok.waiting s ((inUse s).mp usedS) p
  · by_cases same : s = sid
    · subst same; exact length
    · rw [others s same]; exact ok.length s ((inUse s).mp usedS)
  · by_cases same : s = sid
    · subst same; exact range
    · rw [others s same]; exact ok.range s ((inUse s).mp usedS)
  · by_cases same : s = sid
    · subst same; exact (inUse s).mpr used
    · exact (inUse s).mpr (ok.valid p s ((blocked p s same).mp waits))
  · by_cases same : s = sid
    · subst same; rw [valide]; exact ok.free s member
    · rw [others s same]; exact ok.free s member

/-- A new counter that fits the waiting list. -/
theorem Sems.setCounter (counted : Counted k) {sid : Int} (used : SemInUse k.semaphores sid) {c : Int}
    (fits : ((k.semaphores sid).procWait.length : Int) = max 0 (-c)) (range : SHRT_MIN ≤ c ∧ c ≤ SHRT_MAX) :
    Counted (k.setSem sid (fun s => { s with c := c })) := by
  refine Sems.change counted sid (fun s other => by simp [other]) (by simp) (fun p s _ => Iff.rfl) used ?_ ?_ ?_ ?_
  · simpa using counted.nodup sid used
  · simpa using counted.waiting sid used
  · simpa using fits
  · simpa using range

theorem setSem_congr (k : Kernel) {sid : Int} {f g : Semaphore → Semaphore}
    (same : f (k.semaphores sid) = g (k.semaphores sid)) : k.setSem sid f = k.setSem sid g := by
  simp only [Kernel.setSem]
  refine congrArg (fun sems => { k with semaphores := sems }) (funext fun s => ?_)
  by_cases equal : s = sid
  · subst equal; simp [same]
  · simp [equal]

/-! ### `wait` and `try_wait` -/

/-- A unit taken at once. -/
def taken (k : Kernel) (sid : Int) : Kernel :=
  { k.setSem sid (fun s => { s with c := s.c - 1 }) with semLog := .acquired sid k.pidCour :: k.semLog }

/-- The current process put into the waiting list. -/
def enlisted (k : Kernel) (sid : Int) : Kernel :=
  let k' := ((k.setSem sid (fun s => { s with c := s.c - 1 })).setProc k.pidCour
    (fun c => { c with state := .waitSem, sidWait := sid })).setSem sid
      (fun s => { s with procWait := k.pidCour :: s.procWait })
  { k' with semLog := .blocked sid k.pidCour :: k.semLog }

theorem wait_cases (counted : Counted k) (sid : Int) :
    (∃ r, r < 0 ∧ wait k sid = sysret k (some r)) ∨
      (SemInUse k.semaphores sid ∧ 1 ≤ (k.semaphores sid).c ∧ wait k sid = sysret (taken k sid) (some 0)) ∨
      (SemInUse k.semaphores sid ∧ SHRT_MIN < (k.semaphores sid).c ∧ (k.semaphores sid).c ≤ 0 ∧
        wait k sid = callScheduler (enlisted k sid) (.wait sid)) := by
  unfold wait
  by_cases used : SemInUse k.semaphores sid
  · have range := counted.range sid used
    simp only [used,not_true,if_false]
    by_cases least : (k.semaphores sid).c = SHRT_MIN
    · exact .inl ⟨-2,by omega,by simp [least]⟩
    · have exact : short ((k.semaphores sid).c - 1) = (k.semaphores sid).c - 1 :=
        short_eq (by simp only [SHRT_MIN] at *; omega) (by omega)
      rw [if_neg least,setSem_congr k (g := fun s => { s with c := s.c - 1 }) (by simp [exact])]
      by_cases none : (k.semaphores sid).c ≤ 0
      · refine .inr (.inr ⟨trivial,by omega,none,?_⟩)
        rw [if_pos (by simp; omega)]
        rfl
      · refine .inr (.inl ⟨trivial,by omega,?_⟩)
        rw [if_neg (by simp; omega)]
        rfl
  · exact .inl ⟨-1,by omega,by simp [used]⟩

theorem tryWait_cases (counted : Counted k) (sid : Int) :
    (∃ r, r < 0 ∧ tryWait k sid = sysret k (some r)) ∨
      (SemInUse k.semaphores sid ∧ 1 ≤ (k.semaphores sid).c ∧ tryWait k sid = sysret (taken k sid) (some 0)) := by
  unfold tryWait
  by_cases used : SemInUse k.semaphores sid
  · have range := counted.range sid used
    simp only [used,not_true,if_false]
    by_cases some : (k.semaphores sid).c > 0
    · have exact : short ((k.semaphores sid).c - 1) = (k.semaphores sid).c - 1 :=
        short_eq (by simp only [SHRT_MIN] at *; omega) (by omega)
      rw [if_pos some,setSem_congr k (g := fun s => { s with c := s.c - 1 }) (by simp [exact])]
      exact .inr ⟨trivial,some,rfl⟩
    · exact .inl ⟨-3,by omega,by simp [some]⟩
  · exact .inl ⟨-1,by omega,by simp [used]⟩

theorem taken_counted (counted : Counted k) {sid : Int} (used : SemInUse k.semaphores sid)
    (positive : 1 ≤ (k.semaphores sid).c) : Counted (taken k sid) := by
  have length := counted.length sid used
  have range := counted.range sid used
  have := Sems.setCounter counted used (c := (k.semaphores sid).c - 1) (by omega) (by simp only [SHRT_MIN]; omega)
  rwa [setSem_congr k (g := fun s => { s with c := s.c - 1 }) (by simp)] at this

theorem enlisted_blocked (going : Going k.toProcs) (sid p s : Int) :
    Blocked (enlisted k sid).tabProc p s ↔ Blocked k.tabProc p s ∨ p = k.pidCour ∧ s = sid := by
  have inTab := going.live.1.1
  have valide := going.live.1.2
  by_cases current : p = k.pidCour
  · subst current; simp [Blocked,enlisted,InUse,inTab,valide,going.active,eq_comm]
  · simp [Blocked,enlisted,InUse,current]

theorem enlisted_counted (going : Going k.toProcs) (counted : Counted k) {sid : Int} (used : SemInUse k.semaphores sid)
    (least : SHRT_MIN < (k.semaphores sid).c) (none : (k.semaphores sid).c ≤ 0) : Counted (enlisted k sid) := by
  have length := counted.length sid used
  have waiting := counted.waiting sid used
  have notIn : k.pidCour ∉ (k.semaphores sid).procWait := fun member => by
    have := ((waiting _).mp member).2.1
    simp [going.active] at this
  refine Sems.change counted sid (fun s other => by simp [enlisted,other]) (by simp [enlisted]) (fun p s other => ?_) used
    ?_ (fun p => ?_) ?_ ?_
  · simp [enlisted_blocked going,other]
  · simpa [enlisted,notIn] using counted.nodup sid used
  · rw [enlisted_blocked going,← waiting p]
    simp [enlisted,or_comm]
  · simp [enlisted]; omega
  · simp [enlisted,SHRT_MIN,SHRT_MAX] at *; omega

theorem wait_kept (inside : Inside lost gone k.toProcs) (going : Going k.toProcs) (counted : Counted k) (sid : Int) :
    Good lost gone (wait k sid) := by
  have inTab := going.live.1.1
  rcases wait_cases counted sid with ⟨r,_,same⟩ | ⟨used,positive,same⟩ | ⟨used,least,none,same⟩
  · rw [same]; exact ⟨sysret_stable inside going _,sysret_counted counted _⟩
  · rw [same]
    exact ⟨sysret_stable (k := taken k sid) inside going _,sysret_counted (taken_counted counted used positive) _⟩
  · rw [same]
    have blocked : Inside lost gone (enlisted k sid).toProcs :=
      inside.block going (blocks_waitSem sid)
    refine ⟨callScheduler_stable blocked (fun _ => ⟨fun _ => .inr ?_,fun _ mark => ?_⟩),
      callScheduler_counted blocked (enlisted_counted going counted used least none) _⟩
    · simp [enlisted,inTab]
    · simp [enlisted,going.reseted] at mark

theorem tryWait_kept (inside : Inside lost gone k.toProcs) (going : Going k.toProcs) (counted : Counted k) (sid : Int) :
    Good lost gone (tryWait k sid) := by
  rcases tryWait_cases counted sid with ⟨r,_,same⟩ | ⟨used,positive,same⟩
  · rw [same]; exact ⟨sysret_stable inside going _,sysret_counted counted _⟩
  · rw [same]
    exact ⟨sysret_stable (k := taken k sid) inside going _,sysret_counted (taken_counted counted used positive) _⟩

/-- The mark of `sreset` is taken away. -/
def unmarked (k : Kernel) : Kernel := k.setProc k.pidCour (fun c => { c with sidReseted := false })

theorem waitResume_cases (k : Kernel) :
    (k.tabProc k.pidCour).sidReseted = true ∧ waitResume k = sysret (unmarked k) (some (-4)) ∨
      (k.tabProc k.pidCour).sidReseted = false ∧
        waitResume k = sysret k (some (if (k.tabProc k.pidCour).sidDeleted then -3 else 0)) := by
  unfold waitResume
  by_cases reseted : (k.tabProc k.pidCour).sidReseted = true
  · exact .inl ⟨reseted,if_pos reseted⟩
  · refine .inr ⟨by simpa using reseted,?_⟩
    rw [if_neg reseted]
    split <;> rfl

theorem waitResume_kept (stable : Stable lost gone k) (busy : k.pidCour ≠ 0) (counted : Counted k) :
    Good lost gone (waitResume k) := by
  have live := stable.live busy
  have active := stable.running busy
  rcases waitResume_cases k with ⟨_,same⟩ | ⟨reseted,same⟩
  · rw [same]
    have inside : Inside lost gone (unmarked k).toProcs :=
      stable.toInside.write (f := fun c => { c with sidReseted := false }) (fun _ => rfl) (fun _ => rfl) (fun _ => rfl)
        (fun _ => rfl) (fun _ => rfl)
    have going : Going (unmarked k).toProcs :=
      ⟨by simpa [unmarked,Live,InUse] using live,by simpa [unmarked] using active,by simp [unmarked,live.1.1]⟩
    have blocked : ∀ p s, Blocked (unmarked k).tabProc p s ↔ Blocked k.tabProc p s := fun p s => by
      simp [unmarked,Blocked,InUse]
    have counted' : Counted (unmarked k) :=
      { counted with
        waiting := fun s used p => (counted.waiting s used p).trans (blocked p s).symm
        valid := fun p s waits => counted.valid p s ((blocked p s).mp waits) }
    exact ⟨sysret_stable inside going _,sysret_counted counted' _⟩
  · rw [same]
    exact ⟨sysret_stable stable.toInside ⟨live,active,reseted⟩ _,sysret_counted counted _⟩

/-! ### `signal` and `signaln` -/

/-- The counter goes up. -/
def raised (k : Kernel) (sid : Int) : Kernel :=
  { k.setSem sid (fun s => { s with c := s.c + 1 }) with semLog := .signalled sid :: k.semLog }

/-- The process that has waited longest is woken up. -/
def relieved (k : Kernel) (sid pid : Int) : Kernel :=
  let k' := (raised k sid).setSem sid (fun s => { s with procWait := s.procWait.dropLast })
  { k' with toProcs := wakeupProcess k.toProcs pid, semLog := .released sid pid .signal :: k'.semLog }

/-- One unit, when the counter fits the waiting list. -/
theorem signalOne_turn {sid : Int} (least : SHRT_MIN ≤ (k.semaphores sid).c) (most : (k.semaphores sid).c < SHRT_MAX)
    (length : ((k.semaphores sid).procWait.length : Int) = max 0 (-(k.semaphores sid).c)) :
    ((k.semaphores sid).procWait = [] ∧ 0 ≤ (k.semaphores sid).c ∧ signalOne k sid = raised k sid) ∨
      ∃ rest pid, (k.semaphores sid).procWait = rest ++ [pid] ∧ (k.semaphores sid).c < 0 ∧
        signalOne k sid = relieved k sid pid := by
  have exact : short ((k.semaphores sid).c + 1) = (k.semaphores sid).c + 1 :=
    short_eq (by omega) (by omega)
  unfold signalOne
  rw [setSem_congr k (g := fun s => { s with c := s.c + 1 }) (by simp [exact])]
  cases form : (k.semaphores sid).procWait using List.reverseRecOn with
  | nil =>
    simp only [form,List.length_nil] at length
    refine .inl ⟨rfl,by omega,?_⟩
    dsimp only
    rw [if_neg (by simp; omega)]
    rfl
  | append_singleton rest pid =>
    simp only [form,List.length_append,List.length_singleton] at length
    refine .inr ⟨rest,pid,rfl,by omega,?_⟩
    dsimp only
    rw [if_pos (by simp; omega)]
    simp [form,relieved,raised]

theorem signalOne_cases (counted : Counted k) {sid : Int} (used : SemInUse k.semaphores sid)
    (most : (k.semaphores sid).c < SHRT_MAX) :
    ((k.semaphores sid).procWait = [] ∧ 0 ≤ (k.semaphores sid).c ∧ signalOne k sid = raised k sid) ∨
      ∃ rest pid, (k.semaphores sid).procWait = rest ++ [pid] ∧ (k.semaphores sid).c < 0 ∧
        signalOne k sid = relieved k sid pid :=
  signalOne_turn (counted.range sid used).1 most (counted.length sid used)

theorem relieved_kept (inside : Inside lost gone k.toProcs) (going : Going k.toProcs) (counted : Counted k) {sid : Int}
    (used : SemInUse k.semaphores sid) {rest : List Int} {pid : Int}
    (form : (k.semaphores sid).procWait = rest ++ [pid]) : Served lost gone k (relieved k sid pid) := by
  have blocked := (counted.waiting sid used pid).mp (by simp [form])
  have other : pid ≠ k.pidCour := fun same => by
    have := blocked.2.1
    rw [same,going.active] at this
    simp at this
  have sleeps : Sleeps k.toProcs pid := ⟨blocked.1,other,.inl blocked.2.1⟩
  have length := counted.length sid used
  have range := counted.range sid used
  have nodup := counted.nodup sid used
  rw [form] at nodup
  simp only [form,List.length_append,List.length_singleton] at length
  have fresh : pid ∉ rest := fun member => (List.nodup_append.mp nodup).2.2 pid member pid (by simp) rfl
  have after : ∀ p s, Blocked (relieved k sid pid).tabProc p s ↔ Blocked k.tabProc p s ∧ p ≠ pid := by
    intro p s
    by_cases same : p = pid
    · subst same; simp [Blocked,relieved,InUse,blocked.1.1,blocked.1.2]
    · simp [Blocked,relieved,InUse,same]
  refine ⟨inside.wakeup (fun _ => sleeps),going.wakeup other,?_,by simp [relieved]⟩
  refine Sems.change counted sid (fun s different => by simp [relieved,raised,different]) (by simp [relieved,raised])
    (fun p s different => ?_) used ?_ (fun p => ?_) ?_ ?_
  · rw [after p s]
    refine and_iff_left_of_imp (fun waits same => different ?_)
    rw [← waits.2.2,same,blocked.2.2]
  · simp [relieved,raised,form,(List.nodup_append.mp nodup).1]
  · have member := counted.waiting sid used p
    rw [after p sid,← member,form]
    simp only [relieved,raised,Kernel.setSem_semaphores,if_true,form,List.dropLast_concat,List.mem_append,
      List.mem_singleton]
    constructor
    · exact fun inside => ⟨.inl inside,fun same => fresh (same ▸ inside)⟩
    · rintro ⟨inRest | same,different⟩
      · exact inRest
      · exact absurd same different
  · simp [relieved,raised,form]; omega
  · simp [relieved,raised,SHRT_MIN,SHRT_MAX] at *; omega

theorem signalOne_served (inside : Inside lost gone k.toProcs) (going : Going k.toProcs) (counted : Counted k) {sid : Int}
    (used : SemInUse k.semaphores sid) (most : (k.semaphores sid).c < SHRT_MAX) :
    Served lost gone k (signalOne k sid) ∧ SemInUse (signalOne k sid).semaphores sid ∧
      ((signalOne k sid).semaphores sid).c = (k.semaphores sid).c + 1 := by
  rcases signalOne_cases counted used most with ⟨_,positive,same⟩ | ⟨rest,pid,form,_,same⟩
  · have length := counted.length sid used
    have range := counted.range sid used
    have counted' := Sems.setCounter counted used (c := (k.semaphores sid).c + 1) (by omega) (by omega)
    rw [setSem_congr k (g := fun s => { s with c := s.c + 1 }) (by simp)] at counted'
    rw [same]
    exact ⟨⟨inside,going,counted',rfl⟩,by simpa [raised,SemInUse] using used,by simp [raised]⟩
  · rw [same]
    exact ⟨relieved_kept inside going counted used form,by simpa [relieved,raised,SemInUse] using used,
      by simp [relieved,raised]⟩

theorem signal_kept (inside : Inside lost gone k.toProcs) (going : Going k.toProcs) (counted : Counted k) (sid : Int) :
    Good lost gone (signal k sid) := by
  rcases signal_cases k sid with ⟨_,refused⟩ | ⟨used,notMost,ends⟩
  · rw [refused]
    exact ⟨sysret_stable inside going _,sysret_counted counted _⟩
  · have range := counted.range sid used
    obtain ⟨served,_⟩ := signalOne_served inside going counted used (by omega)
    rcases ends with ⟨_,called⟩ | ⟨_,called⟩
    · rw [called]
      exact ⟨callScheduler_stable served.inside (fun _ => Going.fits served.going (fun _ _ runs => runs)),
        callScheduler_counted served.inside served.counted _⟩
    · rw [called]
      exact ⟨sysret_stable served.inside served.going _,sysret_counted served.counted _⟩

theorem signalLoop_served {sid : Int} (count : Nat) (inside : Inside lost gone k.toProcs) (going : Going k.toProcs)
    (counted : Counted k) (used : SemInUse k.semaphores sid) (room : (k.semaphores sid).c + count ≤ SHRT_MAX) :
    Served lost gone k (signalLoop sid count k) := by
  induction count generalizing k with
  | zero => exact ⟨inside,going,counted,rfl⟩
  | succ count ih =>
    obtain ⟨served,used',raised⟩ := signalOne_served inside going counted used (by omega)
    have rest := ih served.inside served.going served.counted used' (by omega)
    exact ⟨rest.inside,rest.going,rest.counted,rest.cour.trans served.cour⟩

/-- The loop of `signaln` keeps what each turn of it keeps; the first argument
    of `P` counts the turns to come. -/
theorem signalLoop_invariant {sid : Int} {P : Nat → Kernel → Prop}
    (turn : ∀ count (k : Kernel), Inside lost gone k.toProcs → Going k.toProcs → Counted k → SemInUse k.semaphores sid →
      (k.semaphores sid).c < SHRT_MAX → P (count + 1) k → P count (signalOne k sid))
    (count : Nat) (inside : Inside lost gone k.toProcs) (going : Going k.toProcs) (counted : Counted k)
    (used : SemInUse k.semaphores sid) (room : (k.semaphores sid).c + count ≤ SHRT_MAX) (first : P count k) :
    P 0 (signalLoop sid count k) := by
  induction count generalizing k with
  | zero => exact first
  | succ count ih =>
    obtain ⟨served,used',raised⟩ := signalOne_served inside going counted used (by omega)
    exact ih served.inside served.going served.counted used' (by omega)
      (turn count k inside going counted used (by omega) first)

theorem signaln_kept (inside : Inside lost gone k.toProcs) (going : Going k.toProcs) (counted : Counted k)
    (sid count : Int) : Good lost gone (signaln k sid count) := by
  have most := (short_range count).2
  rcases signaln_cases k sid count with ⟨_,refused⟩ | ⟨used,positive,room,called⟩
  · rw [refused]
    exact ⟨sysret_stable inside going _,sysret_counted counted _⟩
  · have served := signalLoop_served (short count).toNat inside going counted used (by omega)
    rw [called]
    exact ⟨callScheduler_stable served.inside (fun _ => Going.fits served.going (fun _ _ runs => runs)),
      callScheduler_counted served.inside served.counted _⟩

/-! ### `screate` -/

/-- A new semaphore, or the identifier lost when there is no memory. -/
def opened (k : Kernel) (sid count : Int) (libres : List Int) (memory : Bool) : Kernel :=
  let k' := ({ k with sidLibres := libres }).setSem sid (fun s => { s with c := count, procWait := [] })
  if memory then { k'.setSem sid (fun s => { s with valide := true }) with semLog := .created sid count :: k.semLog }
  else k'

theorem screate_cases (counted : Counted k) (compteur : Int) (memory : Bool) :
    (∃ r, r < 0 ∧ screate k compteur memory = sysret k (some r)) ∨
      ∃ sid libres, k.sidLibres = sid :: libres ∧ 0 ≤ short compteur ∧
        ∃ r, screate k compteur memory = sysret (opened k sid (short compteur) libres memory) (some r) := by
  unfold screate
  dsimp only
  by_cases negative : short compteur < 0
  · exact .inl ⟨-1,by omega,by rw [if_pos negative]⟩
  · rw [if_neg negative]
    cases form : k.sidLibres with
    | nil => exact .inl ⟨-1,by omega,rfl⟩
    | cons sid libres =>
      have free := (counted.free sid (by simp [form])).2.2
      refine .inr ⟨sid,libres,rfl,by omega,?_⟩
      simp only [free,Bool.false_eq_true,if_false]
      cases memory with
      | false => exact ⟨-3,by simp [opened]⟩
      | true => exact ⟨sid,by simp [opened]⟩

theorem opened_counted (counted : Counted k) {sid count : Int} {libres : List Int} (form : k.sidLibres = sid :: libres)
    (positive : 0 ≤ count) (range : count ≤ SHRT_MAX) (memory : Bool) :
    Counted (opened k sid count libres memory) := by
  have free := counted.free sid (by simp [form])
  have distinct := List.nodup_cons.mp (form ▸ counted.distinct)
  have unused : ∀ p, ¬ Blocked k.tabProc p sid := fun p waits => by
    have := (counted.valid p sid waits).2.2
    simp [free.2.2] at this
  have table : (opened k sid count libres memory).tabProc = k.tabProc := by cases memory <;> rfl
  have others : ∀ s, s ≠ sid → (opened k sid count libres memory).semaphores s = k.semaphores s := fun s other => by
    cases memory <;> simp [opened,other]
  have self : (opened k sid count libres memory).semaphores sid = ⟨count,[],memory⟩ := by
    cases memory <;> simp [opened,free.2.2]
  have libres' : (opened k sid count libres memory).sidLibres = libres := by cases memory <;> rfl
  have old : ∀ s, s ≠ sid → (SemInUse (opened k sid count libres memory).semaphores s ↔ SemInUse k.semaphores s) :=
    fun s other => by simp [SemInUse,others s other]
  rw [Counted,table,libres']
  refine ⟨fun s used => ?_,fun s used p => ?_,fun s used => ?_,fun s used => ?_,fun p s waits => ?_,distinct.2,
    fun s member => ?_⟩
  · by_cases same : s = sid
    · subst same; simp [self]
    · rw [others s same]; exact counted.nodup s ((old s same).mp used)
  · by_cases same : s = sid
    · subst same; simp [self,unused p]
    · rw [others s same]; exact counted.waiting s ((old s same).mp used) p
  · by_cases same : s = sid
    · subst same; simp [self,positive]
    · rw [others s same]; exact counted.length s ((old s same).mp used)
  · by_cases same : s = sid
    · subst same; simp only [self,SHRT_MIN,SHRT_MAX] at *; omega
    · rw [others s same]; exact counted.range s ((old s same).mp used)
  · have other : s ≠ sid := fun same => unused p (same ▸ waits)
    exact (old s other).mpr (counted.valid p s waits)
  · have other : s ≠ sid := fun same => distinct.1 (same ▸ member)
    rw [others s other]
    exact counted.free s (by simp [form,member])

theorem screate_kept (inside : Inside lost gone k.toProcs) (going : Going k.toProcs) (counted : Counted k) (compteur : Int)
    (memory : Bool) : Good lost gone (screate k compteur memory) := by
  rcases screate_cases counted compteur memory with ⟨r,_,same⟩ | ⟨sid,libres,form,positive,r,same⟩
  · rw [same]; exact ⟨sysret_stable inside going _,sysret_counted counted _⟩
  · have procs : (opened k sid (short compteur) libres memory).toProcs = k.toProcs := by cases memory <;> rfl
    rw [same]
    exact ⟨sysret_stable (procs ▸ inside) (procs ▸ going) _,
      sysret_counted (opened_counted counted form positive (short_range compteur).2 memory) _⟩

/-! ### `sdelete` and `sreset` -/

/-- A mark for the processes that `sdelete` or `sreset` wakes up. -/
structure Mark (mark : Context → Context) : Prop where
  only : ∀ c, mark c = { c with sidReseted := (mark c).sidReseted, sidDeleted := (mark c).sidDeleted }

theorem markDeleted_mark : Mark markDeleted := ⟨fun c => by unfold markDeleted; split <;> rfl⟩
theorem markReseted_mark : Mark markReseted := ⟨fun _ => rfl⟩

theorem dismiss_tabProc {mark : Context → Context} (only : Mark mark) (sid : Int) (cause : Cause) {pid : Int}
    (used : InUse k.tabProc pid) (q : Int) : (dismiss sid cause mark k pid).tabProc q =
      if q = pid then { mark (k.tabProc q) with state := .activable } else k.tabProc q := by
  have valide : (mark (k.tabProc pid)).valide = (k.tabProc pid).valide :=
    (congrArg Context.valide (only.only _) :)
  by_cases same : q = pid
  · subst same
    have marked : InUse (k.toProcs.setProc q mark).tabProc q := by simpa [InUse,used.1,valide] using used.2
    simp [dismiss,marked,used.1]
  · simp [dismiss,same]

/-- The processes that the loop of `sdelete` and `sreset` has still to wake up
    wait, and the others are as they were or awake. -/
theorem dismiss_fold {mark : Context → Context} (only : Mark mark) (sid : Int) (cause : Cause) (waiting : List Int)
    (nodup : waiting.Nodup) (inside : Inside lost gone k.toProcs) (going : Going k.toProcs)
    (blocked : ∀ p ∈ waiting, Blocked k.tabProc p sid) :
    let k' := waiting.foldl (dismiss sid cause mark) k
    Inside lost gone k'.toProcs ∧ Going k'.toProcs ∧ k'.pidCour = k.pidCour ∧ k'.semaphores = k.semaphores ∧
      k'.sidLibres = k.sidLibres ∧
      k'.semLog = (waiting.reverse.map (fun p => .released sid p cause)) ++ k.semLog ∧
      ∀ q, k'.tabProc q =
        if q ∈ waiting then { mark (k.tabProc q) with state := .activable } else k.tabProc q := by
  induction waiting generalizing k with
  | nil => exact ⟨inside,going,rfl,rfl,rfl,rfl,fun q => by simp⟩
  | cons pid rest ih =>
    obtain ⟨fresh,distinct⟩ := List.nodup_cons.mp nodup
    have waits := blocked pid (by simp)
    have other : pid ≠ k.pidCour := fun same => by
      have := waits.2.1
      rw [same,going.active] at this
      simp at this
    have table := dismiss_tabProc (k := k) only sid cause waits.1
    have inside' : Inside lost gone (dismiss sid cause mark k pid).toProcs :=
      inside.wake ⟨waits.1,other,.inl waits.2.1⟩ only.only (.inr waits.2.1)
    have cour : (dismiss sid cause mark k pid).pidCour = k.pidCour := by simp [dismiss]
    have same : (dismiss sid cause mark k pid).tabProc k.pidCour = k.tabProc k.pidCour := by
      rw [table]; simp [other.symm]
    have going' : Going (dismiss sid cause mark k pid).toProcs := by
      refine ⟨?_,?_,?_⟩ <;> simp only [Live,InUse,cour,same]
      · exact going.live
      · exact going.active
      · exact going.reseted
    have blocked' : ∀ p ∈ rest, Blocked (dismiss sid cause mark k pid).tabProc p sid := fun p member => by
      have different : p ≠ pid := fun same => fresh (same ▸ member)
      simp only [Blocked,InUse,table,different,if_false]
      exact blocked p (by simp [member])
    obtain ⟨inside'',going'',cour'',sems,libres,log,table''⟩ := ih distinct inside' going' blocked'
    refine ⟨inside'',going'',cour''.trans cour,sems,libres,?_,fun q => ?_⟩
    · rw [List.foldl_cons,log]
      simp [dismiss]
    · rw [List.foldl_cons,table'' q,table q]
      by_cases isPid : q = pid
      · subst isPid; simp [fresh]
      · simp [isPid]

/-- What is left when a semaphore has been emptied. -/
structure Emptied (lost : Prop) (gone : Int → Nat → Prop) (k : Kernel) (sid : Int) (cause : Cause) (mark : Context → Context) (k' : Kernel) :
    Prop where
  inside : Inside lost gone k'.toProcs
  going : Going k'.toProcs
  cour : k'.pidCour = k.pidCour
  semaphores : ∀ s, k'.semaphores s = if s = sid then { k.semaphores s with procWait := [] } else k.semaphores s
  sidLibres : k'.sidLibres = k.sidLibres
  semLog : k'.semLog = (k.semaphores sid).procWait.reverse.map (fun p => .released sid p cause) ++ k.semLog
  tabProc : ∀ q, k'.tabProc q =
    if q ∈ (k.semaphores sid).procWait then { mark (k.tabProc q) with state := .activable } else k.tabProc q

theorem dismissAll_emptied {mark : Context → Context} (only : Mark mark) {sid : Int} (cause : Cause)
    (inside : Inside lost gone k.toProcs) (going : Going k.toProcs) (nodup : (k.semaphores sid).procWait.Nodup)
    (blocked : ∀ p ∈ (k.semaphores sid).procWait, Blocked k.tabProc p sid) :
    Emptied lost gone k sid cause mark (dismissAll k sid cause mark) := by
  obtain ⟨inside',going',cour,sems,libres,log,table⟩ := dismiss_fold
    (k := k.setSem sid (fun s => { s with procWait := [] })) only sid cause _ nodup inside going blocked
  exact ⟨inside',going',cour,fun s => by rw [dismissAll,sems]; rfl,libres,log,table⟩

theorem Emptied.blocked {mark : Context → Context} (only : Mark mark) {sid : Int} {cause : Cause} {k' : Kernel}
    (emptied : Emptied lost gone k sid cause mark k')
    (waiting : ∀ p, p ∈ (k.semaphores sid).procWait ↔ Blocked k.tabProc p sid) (p s : Int) :
    Blocked k'.tabProc p s ↔ Blocked k.tabProc p s ∧ s ≠ sid := by
  by_cases member : p ∈ (k.semaphores sid).procWait
  · have waits := (waiting p).mp member
    have valide : (mark (k.tabProc p)).valide = (k.tabProc p).valide := (congrArg Context.valide (only.only _) :)
    simp only [Blocked,InUse,emptied.tabProc p,member,if_true]
    refine iff_of_false (by simp) (fun still => still.2 ?_)
    rw [← still.1.2.2,waits.2.2]
  · simp only [Blocked,InUse,emptied.tabProc p,member,if_false]
    refine (and_iff_left_of_imp (fun waits same => member ?_)).symm
    exact (waiting p).mpr (same ▸ waits)

theorem sreset_cases (k : Kernel) (sid count : Int) :
    (¬ SemInUse k.semaphores sid ∨ short count < 0) ∧ sreset k sid count = sysret k (some (-1)) ∨
      SemInUse k.semaphores sid ∧ 0 ≤ short count ∧ sreset k sid count =
        callScheduler (dismissAll (k.setSem sid (fun s => { s with c := short count })) sid .sreset markReseted)
          (.ret 0) := by
  unfold sreset
  dsimp only
  split
  · rename_i refused; exact .inl ⟨refused,rfl⟩
  · rename_i accepted
    simp only [not_or,not_not,not_lt] at accepted
    exact .inr ⟨accepted.1,accepted.2,rfl⟩

theorem sreset_kept (inside : Inside lost gone k.toProcs) (going : Going k.toProcs) (counted : Counted k) (sid count : Int) :
    Good lost gone (sreset k sid count) := by
  rcases sreset_cases k sid count with ⟨_,same⟩ | ⟨used,positive,same⟩
  · rw [same]; exact ⟨sysret_stable inside going _,sysret_counted counted _⟩
  · have range := short_range count
    let k' := k.setSem sid (fun s => { s with c := short count })
    have list : (k'.semaphores sid).procWait = (k.semaphores sid).procWait := by simp [k']
    have waiting : ∀ p, p ∈ (k'.semaphores sid).procWait ↔ Blocked k'.tabProc p sid := fun p => by
      rw [list]; exact counted.waiting sid used p
    have emptied := dismissAll_emptied (k := k') markReseted_mark .sreset inside going
      (by rw [list]; exact counted.nodup sid used) (fun p => (waiting p).mp)
    have counted' : Counted (dismissAll k' sid .sreset markReseted) := by
      rw [Counted,emptied.sidLibres]
      refine Sems.change counted sid (fun s other => ?_) ?_ (fun p s other => ?_) used ?_ (fun p => ?_) ?_ ?_
      · rw [emptied.semaphores s]; simp [k',other]
      · rw [emptied.semaphores sid]; simp [k']
      · rw [emptied.blocked markReseted_mark waiting]; simp [k',other]
      · rw [emptied.semaphores sid]; simp
      · rw [emptied.semaphores sid,emptied.blocked markReseted_mark waiting]; simp
      · rw [emptied.semaphores sid]; simp [k',positive]
      · rw [emptied.semaphores sid]; simpa [k'] using range
    rw [same]
    exact ⟨callScheduler_stable emptied.inside (fun _ => Going.fits emptied.going (fun _ _ runs => runs)),
      callScheduler_counted emptied.inside counted' _⟩

/-- The end of `sdelete`. -/
def closed (k : Kernel) (sid : Int) : Kernel :=
  { k.setSem sid (fun s => { s with valide := false }) with sidLibres := sid :: k.sidLibres }

theorem sdelete_cases (k : Kernel) (sid : Int) :
    ¬ SemInUse k.semaphores sid ∧ sdelete k sid = sysret k (some (-1)) ∨
      SemInUse k.semaphores sid ∧
        sdelete k sid = callScheduler (closed (dismissAll k sid .sdelete markDeleted) sid) (.ret 0) := by
  unfold sdelete
  split
  · rename_i refused; exact .inl ⟨refused,rfl⟩
  · rename_i accepted; exact .inr ⟨not_not.mp accepted,rfl⟩

theorem sdelete_kept (inside : Inside lost gone k.toProcs) (going : Going k.toProcs) (counted : Counted k) (sid : Int) :
    Good lost gone (sdelete k sid) := by
  rcases sdelete_cases k sid with ⟨_,same⟩ | ⟨used,same⟩
  · rw [same]; exact ⟨sysret_stable inside going _,sysret_counted counted _⟩
  · have waiting := counted.waiting sid used
    have emptied := dismissAll_emptied markDeleted_mark .sdelete inside going (counted.nodup sid used)
      (fun p => (waiting p).mp)
    generalize dismissAll k sid .sdelete markDeleted = k' at same emptied
    have sems : ∀ s, (closed k' sid).semaphores s =
        if s = sid then { k.semaphores s with procWait := [], valide := false } else k.semaphores s := fun s => by
      by_cases equal : s = sid
      · subst equal; simp [closed,emptied.semaphores s]
      · simp [closed,emptied.semaphores s,equal]
    have old : ∀ s, SemInUse (closed k' sid).semaphores s ↔ SemInUse k.semaphores s ∧ s ≠ sid := fun s => by
      by_cases equal : s = sid
      · subst equal; simp [SemInUse,sems s]
      · simp [SemInUse,sems s,equal]
    have blocked : ∀ p s, Blocked (closed k' sid).tabProc p s ↔ Blocked k.tabProc p s ∧ s ≠ sid :=
      emptied.blocked markDeleted_mark waiting
    have counted' : Counted (closed k' sid) := by
      refine ⟨fun s usedS => ?_,fun s usedS p => ?_,fun s usedS => ?_,fun s usedS => ?_,fun p s waits => ?_,?_,
        fun s member => ?_⟩
      · obtain ⟨before,other⟩ := (old s).mp usedS
        simpa [sems s,other] using counted.nodup s before
      · obtain ⟨before,other⟩ := (old s).mp usedS
        simpa [sems s,other,blocked p s] using counted.waiting s before p
      · obtain ⟨before,other⟩ := (old s).mp usedS
        simpa [sems s,other] using counted.length s before
      · obtain ⟨before,other⟩ := (old s).mp usedS
        simpa [sems s,other] using counted.range s before
      · obtain ⟨before,other⟩ := (blocked p s).mp waits
        exact (old s).mpr ⟨counted.valid p s before,other⟩
      · have fresh : sid ∉ k.sidLibres := fun member => by simp [(counted.free sid member).2.2,SemInUse] at used
        simpa [closed,emptied.sidLibres,fresh] using counted.distinct
      · have origin : s = sid ∨ s ∈ k.sidLibres := by simpa [closed,emptied.sidLibres] using member
        rw [sems s]
        by_cases equal : s = sid
        · simp [equal,used.1,used.2.1]
        · simpa [equal] using counted.free s (origin.resolve_left equal)
    rw [same]
    have inside' : Inside lost gone (closed k' sid).toProcs := emptied.inside
    have going' : Going (closed k' sid).toProcs := emptied.going
    exact ⟨callScheduler_stable inside' (fun _ => Going.fits going' (fun _ _ runs => runs)),
      callScheduler_counted inside' counted' _⟩

end Psys.SemCalls
