import Psys.SemCalls
import Psys.System

/-!
`signaln` against `signal`: the counter cannot wrap after the one test before
the loop, the loop releases the processes that have waited longest, and it
does what as many calls of `signal` do which leave the scheduler out.
-/
namespace Psys.Signalling
open Psys.State Psys.Context Psys.Semaphore Psys.ProcQueue Psys.Waiting Psys.SemCalls Psys.System

/-- A valid semaphore whose waiting list holds distinct processes blocked on
    it, as many as a negative counter says. -/
structure Waiters (k : Kernel) (sid : Int) : Prop where
  used : SemInUse k.semaphores sid
  range : SHRT_MIN ≤ (k.semaphores sid).c ∧ (k.semaphores sid).c ≤ SHRT_MAX
  length : ((k.semaphores sid).procWait.length : Int) = max 0 (-(k.semaphores sid).c)
  nodup : (k.semaphores sid).procWait.Nodup
  blocked : ∀ p ∈ (k.semaphores sid).procWait, Blocked k.tabProc p sid

/-- The processes that have waited longest, at most `count` of them, the oldest
    first. -/
def oldest (k : Kernel) (sid : Int) (count : Nat) : List Int := (k.semaphores sid).procWait.reverse.take count

/-- What `count` units do to the semaphore and to the processes. -/
structure Released (k : Kernel) (sid : Int) (count : Nat) (k' : Kernel) : Prop where
  counter : (k'.semaphores sid).c = (k.semaphores sid).c + count
  waiting : (k'.semaphores sid).procWait = ((k.semaphores sid).procWait.reverse.drop count).reverse
  valide : (k'.semaphores sid).valide = (k.semaphores sid).valide
  others : ∀ s, s ≠ sid → k'.semaphores s = k.semaphores s
  woken : k'.toProcs = (oldest k sid count).foldl wakeupProcess k.toProcs
  tabProc : ∀ p, k'.tabProc p =
    if p ∈ oldest k sid count then { k.tabProc p with state := .activable } else k.tabProc p
  /-- A list of activable processes in order gets the released ones, one after
      the other. -/
  ready : ∀ q, Ready k.toProcs q → k'.inserted = (oldest k sid count).reverse ++ k.inserted ∧
    ∃ q', Ready k'.toProcs q' ∧ ∀ p, p ∈ q' ↔ p ∈ q ∨ p ∈ oldest k sid count

theorem oldest_length (k : Kernel) (sid : Int) (count : Nat) :
    (oldest k sid count).length = min count (k.semaphores sid).procWait.length := by
  simp [oldest]

/-! ### The loop of `signaln` -/

/-- `queue_add` on a list in order inserts. -/
theorem wakeupProcess_inserted {k : Procs} {q : List Int} (queue : Queue k q) {x : Int} (used : InUse k.tabProc x)
    (fresh : x ∉ q) : (wakeupProcess k x).inserted = x :: k.inserted := by
  obtain ⟨l,r,_,woken,_⟩ := wakeupProcess_queue queue used fresh
  have running := woken.running
  rw [wakeupProcess_used used] at running ⊢
  exact queueAdd_inserted running

/-- The semaphore keeps its form when the oldest waiter is released. -/
theorem relieved_waiters {k : Kernel} {sid : Int} (waiters : Waiters k sid) {rest : List Int} {pid : Int}
    (form : (k.semaphores sid).procWait = rest ++ [pid]) (most : (k.semaphores sid).c < SHRT_MAX) :
    Waiters (relieved k sid pid) sid := by
  have length := waiters.length
  have range := waiters.range
  have nodup := waiters.nodup
  rw [form] at nodup
  simp only [form,List.length_append,List.length_singleton] at length
  have list : ((relieved k sid pid).semaphores sid).procWait = rest := by simp [relieved,raised,form]
  have counter : ((relieved k sid pid).semaphores sid).c = (k.semaphores sid).c + 1 := by simp [relieved,raised]
  refine ⟨by simpa [relieved,raised,SemInUse] using waiters.used,?_,?_,?_,fun p member => ?_⟩
  · rw [counter]; omega
  · rw [list,counter]; omega
  · rw [list]; exact (List.nodup_append.mp nodup).1
  · rw [list] at member
    have blocked := waiters.blocked p (by simp [form,member])
    have other : p ≠ pid := (List.nodup_append.mp nodup).2.2 p member pid (by simp)
    simpa [relieved,Blocked,InUse,other] using blocked

/-- The counter goes up, and nobody waits. -/
theorem raised_waiters {k : Kernel} {sid : Int} (waiters : Waiters k sid) (none : (k.semaphores sid).procWait = [])
    (positive : 0 ≤ (k.semaphores sid).c) (most : (k.semaphores sid).c < SHRT_MAX) : Waiters (raised k sid) sid := by
  have range := waiters.range
  have counter : ((raised k sid).semaphores sid).c = (k.semaphores sid).c + 1 := by simp [raised]
  have list : ((raised k sid).semaphores sid).procWait = [] := by simp [raised,none]
  refine ⟨by simpa [raised,SemInUse] using waiters.used,?_,?_,?_,fun p member => ?_⟩
  · rw [counter]; omega
  · rw [list,counter]; simp; omega
  · rw [list]; exact List.nodup_nil
  · rw [list] at member; simp at member

/-- The oldest waiter is woken up, then the others. -/
theorem relieved_released {k k' : Kernel} {sid : Int} (waiters : Waiters k sid) {rest : List Int} {pid : Int}
    (form : (k.semaphores sid).procWait = rest ++ [pid]) {count : Nat}
    (released : Released (relieved k sid pid) sid count k') : Released k sid (count + 1) k' := by
  have nodup := waiters.nodup
  rw [form] at nodup
  have blocked := waiters.blocked pid (by simp [form])
  have list : ((relieved k sid pid).semaphores sid).procWait = rest := by simp [relieved,raised,form]
  have first : oldest k sid (count + 1) = pid :: oldest (relieved k sid pid) sid count := by
    simp [oldest,list,form]
  have later : ∀ p ∈ oldest (relieved k sid pid) sid count, p ≠ pid := fun p member => by
    have inRest : p ∈ rest := by
      rw [oldest,list] at member
      exact List.mem_reverse.mp (List.mem_of_mem_take member)
    exact (List.nodup_append.mp nodup).2.2 p inRest pid (by simp)
  refine ⟨?_,?_,?_,fun s other => ?_,?_,fun p => ?_,fun q ready => ?_⟩
  · rw [released.counter]; simp [relieved,raised]; omega
  · rw [released.waiting,list,form]; simp
  · rw [released.valide]; simp [relieved,raised]
  · rw [released.others s other]; simp [relieved,raised,other]
  · rw [released.woken,first]; rfl
  · rw [released.tabProc p,first]
    by_cases same : p = pid
    · subst same
      simp [relieved,blocked.1]
    · simp [relieved,same]
  · have out : pid ∉ q := fun member => by
      have := ((ready.member pid).mp member).2
      simp [blocked.2.1] at this
    obtain ⟨l,r,split,woken⟩ := wakeupProcess_ready (ready.but out) blocked.1
    obtain ⟨inserted,q',ready',members⟩ := released.ready _ woken
    refine ⟨?_,q',ready',fun p => ?_⟩
    · rw [inserted,first]
      simp [relieved,wakeupProcess_inserted ready.toQueue blocked.1 out]
    · rw [members p,first,split]
      simp only [List.mem_append,List.mem_cons]
      tauto

theorem raised_released {k k' : Kernel} {sid : Int} (none : (k.semaphores sid).procWait = []) {count : Nat}
    (released : Released (raised k sid) sid count k') : Released k sid (count + 1) k' := by
  have list : ((raised k sid).semaphores sid).procWait = [] := by simp [raised,none]
  have nobody : ∀ n, oldest k sid n = [] := fun n => by simp [oldest,none]
  have nobody' : ∀ n, oldest (raised k sid) sid n = [] := fun n => by simp [oldest,list]
  refine ⟨?_,?_,?_,fun s other => ?_,?_,fun p => ?_,fun q ready => ?_⟩
  · rw [released.counter]; simp [raised]; omega
  · rw [released.waiting,list,none]; simp
  · rw [released.valide]; simp [raised]
  · rw [released.others s other]; simp [raised,other]
  · rw [released.woken,nobody,nobody']; rfl
  · rw [released.tabProc p,nobody,nobody']; rfl
  · have kept := released.ready q ready
    rw [nobody'] at kept
    rw [nobody]
    exact kept

/-- The loop gives its units one by one. -/
theorem signalLoop_released {sid : Int} (count : Nat) {k : Kernel} (waiters : Waiters k sid)
    (room : (k.semaphores sid).c + count ≤ SHRT_MAX) : Released k sid count (signalLoop sid count k) := by
  induction count generalizing k with
  | zero =>
    exact ⟨by simp [signalLoop],by simp [signalLoop],rfl,fun _ _ => rfl,rfl,fun p => by simp [signalLoop,oldest],
      fun q ready => ⟨by simp [signalLoop,oldest],q,ready,by simp [oldest]⟩⟩
  | succ count ih =>
    have most : (k.semaphores sid).c < SHRT_MAX := by omega
    rw [signalLoop]
    rcases signalOne_turn waiters.range.1 most waiters.length with ⟨none,positive,same⟩ | ⟨rest,pid,form,_,same⟩
    · rw [same]
      have counter : ((raised k sid).semaphores sid).c = (k.semaphores sid).c + 1 := by simp [raised]
      exact raised_released none (ih (raised_waiters waiters none positive most) (by rw [counter]; omega))
    · rw [same]
      have counter : ((relieved k sid pid).semaphores sid).c = (k.semaphores sid).c + 1 := by simp [relieved,raised]
      exact relieved_released waiters form (ih (relieved_waiters waiters form most) (by rw [counter]; omega))

/-! ### Calls of `signal` without the scheduler -/

/-- `signal`, with what stands in the place of its call of `scheduler`. -/
def signalBy (schedule : Kernel → Frame → Kernel) (k : Kernel) (sid : Int) : Kernel :=
  if ¬ SemInUse k.semaphores sid then sysret k (some (-1))
  else if (k.semaphores sid).c = SHRT_MAX then sysret k (some (-2))
  else
    let k := signalOne k sid
    if (k.semaphores sid).c ≤ 0 then schedule k (.ret 0) else sysret k (some 0)

theorem signalBy_scheduler : signalBy callScheduler = signal := rfl

/-- A call of `scheduler` left out. -/
def leaveOut (k : Kernel) : Frame → Kernel
  | .ret value => sysret k (some value)
  | _ => k

/-- Successive calls of `signal` without the scheduler. -/
def signals (sid : Int) : Nat → Kernel → Kernel
  | 0, k => k
  | count + 1, k => signals sid count (signalBy leaveOut k sid)

/-- A write of what a process is to run. -/
abbrev framed (k : Procs) (x : Int) (frame : Frame) : Procs := k.setProc x (fun c => { c with frame := frame })

/-- `queue_add` does not read what a process is to run. -/
theorem queueAdd_framed (k : Procs) (pid x : Int) (frame : Frame) :
    queueAdd (framed k x frame) pid = framed (queueAdd k pid) x frame := by
  have stop : stopFor (framed k x frame).tabProc pid = stopFor k.tabProc pid := funext fun other => by
    simp [stopFor]
  have links : (framed k x frame).links = k.links := rfl
  unfold queueAdd
  rw [stop,links]
  cases Ring.add k.links fuel (stopFor k.tabProc pid) pid <;> rfl

theorem wakeupProcess_framed (k : Procs) (pid x : Int) (frame : Frame) :
    wakeupProcess (framed k x frame) pid = framed (wakeupProcess k pid) x frame := by
  have inUse : InUse (framed k x frame).tabProc pid ↔ InUse k.tabProc pid := by simp [InUse]
  by_cases used : InUse k.tabProc pid
  · have table : initLink ((framed k x frame).setState pid .activable) pid =
        framed (initLink (k.setState pid .activable) pid) x frame := by
      refine congrArg (fun t => { initLink k pid with tabProc := t }) (funext fun p => ?_)
      by_cases woken : p = pid <;> by_cases written : p = x <;> ext <;> simp [woken,written]
    rw [wakeupProcess_used used,wakeupProcess_used (inUse.mpr used),table,queueAdd_framed]
  · rw [wakeupProcess_unused used,wakeupProcess_unused (inUse.not.mpr used)]

/-- The way back to user mode does not disturb a unit given later. -/
theorem signalOne_sysret (k : Kernel) (sid : Int) (ret : Option Int) :
    signalOne (sysret k ret) sid = sysret (signalOne k sid) ret := by
  by_cases low : short ((k.semaphores sid).c + 1) ≤ 0
  · cases last : (k.semaphores sid).procWait.getLast? with
    | none => simp only [signalOne,sysret,Kernel.setSem_semaphores,Kernel.setProc_semaphores,if_true,low,last]; rfl
    | some pid =>
      simp only [signalOne,sysret,Kernel.setSem_semaphores,Kernel.setProc_semaphores,if_true,low,last]
      have moved := wakeupProcess_framed k.toProcs pid k.pidCour .user
      simp [Kernel.setProc,Kernel.setSem,moved]
  · simp only [signalOne,sysret,Kernel.setSem_semaphores,Kernel.setProc_semaphores,if_true,low,if_false]; rfl

theorem signalLoop_sysret (sid : Int) (count : Nat) (k : Kernel) (ret : Option Int) :
    signalLoop sid count (sysret k ret) = sysret (signalLoop sid count k) ret := by
  induction count generalizing k with
  | zero => rfl
  | succ count ih => rw [signalLoop,signalOne_sysret,ih,signalLoop]

theorem framed_framed (k : Procs) (x : Int) (first second : Frame) :
    framed (framed k x first) x second = framed k x second := by
  refine congrArg (fun t => { k with tabProc := t }) (funext fun p => ?_)
  by_cases written : p = x ∧ InTab x <;> simp [written]

theorem sysret_sysret (k : Kernel) (first second : Option Int) : sysret (sysret k first) second = sysret k second := by
  have merged := framed_framed k.toProcs k.pidCour .user .user
  simp [sysret,Kernel.setProc,merged]

/-- Nor does it disturb a later call of `scheduler`. -/
theorem callScheduler_sysret (k : Kernel) (ret : Option Int) (frame : Frame) :
    callScheduler (sysret k ret) frame = { callScheduler k frame with ret := ret } := by
  have merged := framed_framed k.toProcs k.pidCour .user frame
  simp [callScheduler,sysret,Kernel.setProc,merged]

/-- A unit changes the counter and the waiting list only. -/
theorem signalOne_semaphore (k : Kernel) (sid : Int) :
    ((signalOne k sid).semaphores sid).c = short ((k.semaphores sid).c + 1) ∧
      ((signalOne k sid).semaphores sid).valide = (k.semaphores sid).valide := by
  unfold signalOne
  dsimp only
  split
  · split <;> simp
  · simp

/-- The calls do what the loop does. -/
theorem signals_signalLoop {sid : Int} (count : Nat) {k : Kernel} (used : SemInUse k.semaphores sid)
    (least : SHRT_MIN ≤ (k.semaphores sid).c) (room : (k.semaphores sid).c + count ≤ SHRT_MAX) (ret : Option Int) :
    sysret (signals sid count k) ret = sysret (signalLoop sid count k) ret := by
  induction count generalizing k with
  | zero => rfl
  | succ count ih =>
    obtain ⟨counter,valide⟩ := signalOne_semaphore k sid
    rw [short_eq (by omega) (by omega)] at counter
    have called : signalBy leaveOut k sid = sysret (signalOne k sid) (some 0) := by
      rw [signalBy,if_neg (not_not.mpr used),if_neg (by omega)]
      dsimp only [leaveOut]
      split <;> rfl
    have used' : SemInUse (signalOne k sid).semaphores sid := by
      simpa only [SemInUse,valide] using used
    rw [signals,signalLoop,called,ih (k := sysret (signalOne k sid) (some 0)) used' ?_ ?_,signalLoop_sysret,sysret_sysret]
    · show SHRT_MIN ≤ ((signalOne k sid).semaphores sid).c
      omega
    · show ((signalOne k sid).semaphores sid).c + count ≤ SHRT_MAX
      omega

theorem signalLoop_ret (sid : Int) (count : Nat) (k : Kernel) : (signalLoop sid count k).ret = k.ret := by
  induction count generalizing k with
  | zero => rfl
  | succ count ih =>
    rw [signalLoop,ih]
    unfold signalOne
    dsimp only
    split
    · split <;> rfl
    · rfl

/-! ### `signaln` -/

/-- `signaln` refuses a negative count and one that the counter has no room
    for. Otherwise it leaves at its call of `scheduler` what that many calls of
    `signal` leave which do not call it. -/
theorem signaln_signals {k : Kernel} {sid count : Int} (waiters : Waiters k sid) (least : SHRT_MIN ≤ count)
    (most : count ≤ SHRT_MAX) :
    (count < 0 → signaln k sid count = sysret k (some (-3))) ∧
      (0 ≤ count → (k.semaphores sid).c + count > SHRT_MAX → signaln k sid count = sysret k (some (-2))) ∧
      (0 ≤ count → (k.semaphores sid).c + count ≤ SHRT_MAX → ∃ k' : Kernel,
        signaln k sid count = callScheduler k' (.ret 0) ∧ Released k sid count.toNat k' ∧
          (oldest k sid count.toNat).length = min count.toNat (k.semaphores sid).procWait.length ∧
          sysret k' (some 0) = sysret (signals sid count.toNat k) (some 0) ∧
          signaln k sid count = { callScheduler (signals sid count.toNat k) (.ret 0) with ret := k.ret }) := by
  have exact := short_eq least most
  have range := waiters.range
  refine ⟨fun negative => ?_,fun positive overflow => ?_,fun positive room => ?_⟩
  · unfold signaln
    rw [exact,if_neg (not_not.mpr waiters.used),if_pos negative]
  · unfold signaln
    rw [exact,if_neg (not_not.mpr waiters.used),if_neg (by omega),if_pos (by omega)]
  · have size : (count.toNat : Int) = count := Int.toNat_of_nonneg positive
    have called : signaln k sid count = callScheduler (signalLoop sid count.toNat k) (.ret 0) := by
      unfold signaln
      rw [exact,if_neg (not_not.mpr waiters.used),if_neg (by omega),if_neg (by omega)]
    have calls := signals_signalLoop count.toNat waiters.used range.1 (by omega) (some 0)
    refine ⟨_,called,signalLoop_released count.toNat waiters (by omega),oldest_length k sid _,calls.symm,?_⟩
    have scheduled := congrArg (fun k' => { callScheduler k' (.ret 0) with ret := k.ret }) calls
    simp only [callScheduler_sysret] at scheduled
    rw [scheduled,called]
    exact congrArg (fun r => { callScheduler (signalLoop sid count.toNat k) (.ret 0) with ret := r })
      (signalLoop_ret sid count.toNat k)

/-- Two processes wait, the second one longer; three units release both. -/
theorem signaln_signals_two : ∃ k : Kernel, (k.semaphores 0).procWait = [3,2] ∧ ∃ k' : Kernel,
    signaln k 0 3 = callScheduler k' (.ret 0) ∧ Released k 0 3 k' ∧ (oldest k 0 3).length = 2 ∧
      sysret k' (some 0) = sysret (signals 0 3 k) (some 0) ∧
      signaln k 0 3 = { callScheduler (signals 0 3 k) (.ret 0) with ret := k.ret } := by
  let k : Kernel := { zeroed with
    tabProc := fun _ => { blank with valide := true, state := .waitSem }
    semaphores := fun _ => ⟨-2,[3,2],true⟩ }
  have blocked : ∀ p ∈ (k.semaphores 0).procWait, Blocked k.tabProc p 0 := fun p member => by
    have two : p = 3 ∨ p = 2 := by simpa [k] using member
    rcases two with rfl | rfl <;> exact ⟨by decide,rfl,rfl⟩
  have waiters : Waiters k 0 := ⟨by decide,by decide,by decide,by decide,blocked⟩
  exact ⟨k,rfl,(signaln_signals waiters (by decide) (by decide)).2.2 (by decide) (by decide)⟩

end Psys.Signalling
