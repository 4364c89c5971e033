import Psys.Alarms
import Psys.Handlers

/-!
`timer.c`: the clock interrupt from the side of a process that sleeps, and the
delay that `usleep` asks for.
-/
namespace Psys.Timer
open Psys.State Psys.Context Psys.Sys Psys.Devices Psys.System Psys.ProcQueue Psys.Runs Psys.Scheduling Psys.Alarms

/-- The clock interrupt up to its call of `scheduler`. -/
def tick (k : Kernel) : Kernel := updateTimer { k with nbInterrupt := ulong (k.nbInterrupt + 1) }

theorem int32_tick (k : Kernel) : int32 k = callScheduler (tick k) .user := rfl

/-! ### The loop of `update_timer` -/

/-- A process that `update_timer` wakes when the counter is `n`. -/
def Due (n : Nat) (t : Int → Context) (p : Int) : Prop := InUse t p ∧ (t p).state = .asleep ∧ (t p).timer ≤ n
instance (n : Nat) (t : Int → Context) (p : Int) : Decidable (Due n t p) := inferInstanceAs (Decidable (_ ∧ _))

/-- One turn of the loop. -/
theorem wakeSleeper_tabProc (n : Nat) (k : Procs) (x p : Int) : (wakeSleeper n k x).tabProc p =
    { k.tabProc p with state := if p = x ∧ Due n k.tabProc p then .activable else (k.tabProc p).state } := by
  unfold wakeSleeper
  split
  · rename_i sleeper
    by_cases same : p = x
    · subst same
      simp [Due,sleeper.2]
    · simp [same]
  · rename_i other
    by_cases same : p = x
    · subst same
      have awake : ¬ Due n k.tabProc p := fun due => other ⟨due.1.2,due.2⟩
      simp [awake]
    · simp [same]

/-- The whole loop: every process that is due is woken, and no other. -/
theorem wakeSleepers_tabProc (n : Nat) (sleepers : List Int) (k : Procs) (p : Int) :
    (sleepers.foldl (wakeSleeper n) k).tabProc p =
      { k.tabProc p with state := if p ∈ sleepers ∧ Due n k.tabProc p then .activable else (k.tabProc p).state } := by
  induction sleepers generalizing k with
  | nil => simp
  | cons x rest ih =>
    rw [List.foldl_cons,ih]
    by_cases chosen : p = x ∧ Due n k.tabProc p
    · have woken : (wakeSleeper n k x).tabProc p = { k.tabProc p with state := .activable } := by
        rw [wakeSleeper_tabProc,if_pos chosen]
      have awake : ¬ Due n (wakeSleeper n k x).tabProc p := fun due => by
        have state := due.2.1
        rw [woken] at state
        cases state
      rw [if_neg (fun again => awake again.2),if_pos ⟨by simp [chosen.1],chosen.2⟩,woken]
    · have same : (wakeSleeper n k x).tabProc p = k.tabProc p := by
        rw [wakeSleeper_tabProc,if_neg chosen]
      have later : p ∈ x :: rest ∧ Due n k.tabProc p ↔ p ∈ rest ∧ Due n (wakeSleeper n k x).tabProc p := by
        simp only [Due,inUse_iff,same,List.mem_cons] at chosen ⊢
        tauto
      simp only [later,same]

theorem updateTimer_tabProc (k : Kernel) (p : Int) : (updateTimer k).tabProc p =
    { k.tabProc p with
      state := if Due k.nbInterrupt k.tabProc p then .activable else (k.tabProc p).state } := by
  have inside : Due k.nbInterrupt k.tabProc p → p ∈ pids := fun due => (mem_pids p).mpr due.1.1
  refine (wakeSleepers_tabProc k.nbInterrupt pids k.toProcs p).trans ?_
  by_cases due : Due k.nbInterrupt k.tabProc p
  · simp [due,inside due]
  · simp [due]

/-- A process that is woken enters the activable list. -/
theorem wakeSleeper_ready {k : Procs} {q : List Int} (ready : Ready k q) (n : Nat) (x : Int) :
    ∃ q', Ready (wakeSleeper n k x) q' := by
  unfold wakeSleeper
  split
  · rename_i sleeper
    by_cases used : InUse k.tabProc x
    · have out : x ∉ q := fun member => by
        have activable := ((ready.member x).mp member).2
        simp [sleeper.2.1] at activable
      obtain ⟨l,r,_,woken⟩ := wakeupProcess_ready (ready.but out) used
      exact ⟨_,woken⟩
    · rw [wakeupProcess_unused used]
      exact ⟨q,ready⟩
  · exact ⟨q,ready⟩

theorem tick_ready {k : Kernel} {q : List Int} (ready : Ready k.toProcs q) : ∃ q', Ready (tick k).toProcs q' := by
  suffices ∀ (sleepers : List Int) (n : Nat) (p : Procs) (q : List Int), Ready p q →
      ∃ q', Ready (sleepers.foldl (wakeSleeper n) p) q' from this pids _ k.toProcs q ready
  intro sleepers n
  induction sleepers with
  | nil => exact fun p q ready => ⟨q,ready⟩
  | cons x rest ih =>
    intro p q ready
    obtain ⟨q',ready'⟩ := wakeSleeper_ready ready n x
    exact ih _ q' ready'

/-! ### A process that sleeps -/

def Asleep (k : Procs) (pid : Int) : Prop := InUse k.tabProc pid ∧ (k.tabProc pid).state = .asleep

/-- From `k`, `n` ticks have left `pid` asleep, and whatever happened between
    them kept it so. -/
inductive Elapsed (pid : Int) (k : Kernel) : Nat → Kernel → Prop
  | start : Elapsed pid k 0 k
  | other {n : Nat} {l l' : Kernel} : Elapsed pid k n l → Asleep l'.toProcs pid →
      l'.nbInterrupt = l.nbInterrupt → (l'.tabProc pid).timer = (l.tabProc pid).timer → Elapsed pid k n l'
  | tick {n : Nat} {l : Kernel} : Elapsed pid k n l → Asleep (tick l).toProcs pid → Elapsed pid k (n + 1) (tick l)

/-- `update_timer` does not wake `pid` at a tick before the `d`-th, and makes it
    ready at the `d`-th. -/
def OnTime (pid : Int) (k : Kernel) (d : Nat) : Prop :=
  ∀ n l, Elapsed pid k n l →
    ((tick l).tabProc pid).state = (if n + 1 = d then .activable else .asleep) ∧
      ∀ q, Ready l.toProcs q → ∃ q', Ready (tick l).toProcs q' ∧ (pid ∈ q' ↔ n + 1 = d)

/-- One tick, for a process that sleeps. -/
theorem Asleep.tick {k : Kernel} {pid : Int} (asleep : Asleep k.toProcs pid) :
    InUse (tick k).tabProc pid ∧ ((tick k).tabProc pid).timer = (k.tabProc pid).timer ∧
      ((tick k).tabProc pid).state =
        if (k.tabProc pid).timer ≤ ulong (k.nbInterrupt + 1) then .activable else .asleep := by
  have done : (Timer.tick k).tabProc pid = _ :=
    updateTimer_tabProc { k with nbInterrupt := ulong (k.nbInterrupt + 1) } pid
  rw [inUse_iff,done]
  refine ⟨⟨asleep.1.1,asleep.1.2⟩,rfl,?_⟩
  simp only [Due,asleep.2,true_and]
  simp [asleep.1]

/-- The counter and the alarm while `pid` sleeps. -/
theorem Elapsed.clock {pid : Int} {k l : Kernel} {n : Nat} (elapsed : Elapsed pid k n l) (asleep : Asleep k.toProcs pid)
    (counter : k.nbInterrupt < 4294967296) :
    Asleep l.toProcs pid ∧ l.nbInterrupt = ulong (k.nbInterrupt + n) ∧ (l.tabProc pid).timer = (k.tabProc pid).timer := by
  induction elapsed with
  | start => exact ⟨asleep,(Nat.mod_eq_of_lt counter).symm,rfl⟩
  | other _ still same alarm ih => exact ⟨still,same.trans ih.2.1,alarm.trans ih.2.2⟩
  | @tick n l _ still ih =>
    refine ⟨still,?_,ih.1.tick.2.1.trans ih.2.2⟩
    show ulong (l.nbInterrupt + 1) = ulong (k.nbInterrupt + (n + 1))
    rw [ih.2.1]
    simp only [ulong]
    omega

/-- A delay over which the counter does not wrap before the process wakes up. -/
def Straight (now d : Nat) : Prop := now + d < 4294967296 ∨ now = 4294967295

/-- The comparison of `update_timer` at the tick `j` of a delay. -/
theorem alarm_iff {now d j : Nat} (counter : now < 4294967296) (small : d < 2147483648) (first : 0 < j) (upto : j ≤ d)
    (straight : Straight now d) : ulong (now + d) ≤ ulong (now + j) ↔ j = d := by
  simp only [ulong,Straight] at *
  omega

/-- A wrapped alarm is behind the counter at once. -/
theorem alarm_wrapped {now d : Nat} (counter : now < 4294967296) (small : d < 2147483648) (positive : 0 < d)
    (wraps : ¬ Straight now d) : ulong (now + d) ≤ ulong (now + 1) ∧ 1 ≠ d := by
  simp only [ulong,Straight] at *
  omega

section Sleeper
variable {pid : Int} {k : Kernel} {now d : Nat} (asleep : Asleep k.toProcs pid) (current : k.nbInterrupt = now)
  (alarm : (k.tabProc pid).timer = ulong (now + d)) (counter : now < 4294967296) (positive : 0 < d)
  (small : d < 2147483648)
include asleep current alarm counter positive small

/-- The process sleeps for less than its delay. -/
theorem Elapsed.lt (straight : Straight now d) {n : Nat} {l : Kernel} (elapsed : Elapsed pid k n l) : n < d := by
  induction elapsed with
  | start => exact positive
  | other _ _ _ _ ih => exact ih
  | @tick n l before still ih =>
    obtain ⟨sleeps,clock,timer⟩ := before.clock asleep (current ▸ counter)
    have state := sleeps.tick.2.2
    rw [still.2] at state
    by_contra late
    have last : n + 1 = d := by omega
    have due := (alarm_iff counter small (by omega) (by omega) straight).mpr last
    rw [if_pos (by rw [timer,alarm,clock,current]; simpa [ulong,Nat.add_assoc] using due)] at state
    cases state

/-- The delay is kept exactly when it is straight. -/
theorem onTime_iff : OnTime pid k d ↔ Straight now d := by
  constructor
  · intro right
    by_contra wraps
    obtain ⟨behind,other⟩ := alarm_wrapped counter small positive wraps
    have state := (right 0 k .start).1
    rw [asleep.tick.2.2,if_pos (by rw [alarm,current]; exact behind),if_neg (by simpa using other)] at state
    cases state
  · intro straight n l elapsed
    obtain ⟨sleeps,clock,timer⟩ := elapsed.clock asleep (current ▸ counter)
    have before := elapsed.lt asleep current alarm counter positive small straight
    have compared : (l.tabProc pid).timer ≤ ulong (l.nbInterrupt + 1) ↔ n + 1 = d := by
      rw [timer,alarm,clock,current,← alarm_iff counter small (by omega) before straight]
      simp [ulong,Nat.add_assoc]
    obtain ⟨used,_,state⟩ := sleeps.tick
    simp only [compared] at state
    refine ⟨state,fun q ready => ?_⟩
    obtain ⟨q',ready'⟩ := tick_ready ready
    refine ⟨q',ready',?_⟩
    rw [ready'.member pid,state]
    by_cases last : n + 1 = d <;> simp [last,used]

end Sleeper

/-- `scheduler` neither wakes a process up nor puts one to sleep. -/
theorem asleep_dispatched {k k' : Procs} (dispatched : Dispatched k.tabProc k'.tabProc) (pid : Int) :
    Asleep k' pid ↔ Asleep k pid := by
  constructor
  · rintro ⟨used,asleep⟩
    have state : (k.tabProc pid).state = .asleep := by
      rcases dispatched.state pid with same | ⟨_,runnable⟩
      · exact same ▸ asleep
      · simp [asleep,Runnable] at runnable
    refine ⟨⟨used.1,?_⟩,state⟩
    rcases dispatched.valide pid with same | ⟨freed,_⟩
    · exact same ▸ used.2
    · simp [used.2] at freed
  · rintro ⟨used,asleep⟩
    have state : (k'.tabProc pid).state = .asleep := by
      rcases dispatched.state pid with same | ⟨runnable,_⟩
      · rw [same,asleep]
      · simp [asleep,Runnable] at runnable
    refine ⟨⟨used.1,?_⟩,state⟩
    rcases dispatched.valide pid with same | ⟨_,dead⟩
    · rw [same,used.2]
    · simp [asleep] at dead

/-- The frame of a process does not tell whether it sleeps. -/
theorem asleep_frame (k : Procs) (x : Int) (frame : Frame) (pid : Int) :
    Asleep (k.setProc x (fun c => { c with frame := frame })) pid ↔ Asleep k pid := by
  simp only [Asleep,InUse,Procs.setProc_tabProc]
  split <;> rfl

/-- A call of `scheduler` from kernel code. -/
theorem callScheduler_asleep {k : Kernel} {q : List Int} (ready : Ready k.toProcs q) (frame : Frame) (pid : Int) :
    Asleep (callScheduler k frame).toProcs pid ↔ Asleep k.toProcs pid := by
  have framed := ready.setProc k.pidCour (f := fun c => { c with frame := frame }) (fun _ => rfl) (fun _ => rfl)
    (fun _ => rfl)
  exact (asleep_dispatched (scheduler_scheduled framed).dispatched pid).trans (asleep_frame k.toProcs _ _ pid)

/-- The current process calls `wait_clock`. -/
theorem waitClock_asleep {k : Kernel} {q : List Int} (ready : Ready k.toProcs q) (busy : k.pidCour ≠ 0)
    (active : (k.tabProc k.pidCour).state = .active) (clock : Nat) :
    Asleep (waitClock k clock).toProcs k.pidCour := by
  have used : InUse k.tabProc k.pidCour := ready.cour.resolve_left busy
  obtain ⟨q',ready'⟩ := ready.stop used (f := fun c => { c with state := .asleep, timer := ulong clock })
    (fun _ => rfl) (fun _ => rfl) (by simp [Runnable])
  rw [if_neg (by simp [active])] at ready'
  let l : Kernel := k.setProc k.pidCour (fun c => { c with state := .asleep, timer := ulong clock })
  refine (callScheduler_asleep (k := l) ready' .user k.pidCour).mpr ⟨⟨used.1,?_⟩,?_⟩
  · simp [l,used.1,used.2]
  · simp [l,used.1]

/-! ### A process that runs alone -/

/-- The current process is in user mode, and nothing else is runnable or
    sleeps. -/
structure Lone (k : Kernel) : Prop where
  ready : Ready k.toProcs []
  busy : k.pidCour ≠ 0
  active : (k.tabProc k.pidCour).state = .active
  frame : (k.tabProc k.pidCour).frame = .user
  awake : ∀ p, InUse k.tabProc p → (k.tabProc p).state ≠ .asleep
  mode : k.inKernel = false
  ret : k.ret = none

/-- Nobody is woken while a process runs alone. -/
theorem Lone.nobody_due {k : Kernel} (lone : Lone k) (m : Nat) :
    updateTimer { k with nbInterrupt := m } = { k with nbInterrupt := m } := by
  have skipped : ∀ x, wakeSleeper m k.toProcs x = k.toProcs := by
    intro x
    unfold wakeSleeper
    split
    · rename_i sleeper
      by_cases used : InUse k.tabProc x
      · exact absurd sleeper.2.1 (lone.awake x used)
      · exact wakeupProcess_unused used
    · rfl
  have still : ∀ (sleepers : List Int), sleepers.foldl (wakeSleeper m) k.toProcs = k.toProcs := by
    intro sleepers
    induction sleepers with
    | nil => rfl
    | cons x rest ih => rw [List.foldl_cons,skipped,ih]
  simp only [updateTimer,still]

/-- It stops in user mode again. -/
theorem Lone.framed {k : Kernel} (lone : Lone k) :
    k.toProcs.setProc k.pidCour (fun c => { c with frame := .user }) = k.toProcs := by
  have fields : (fun q => if q = k.pidCour ∧ InTab k.pidCour then { k.tabProc q with frame := .user } else k.tabProc q) =
      k.tabProc := by
    funext q
    split
    · rename_i current
      rw [current.1,← lone.frame]
    · rfl
  simp only [Procs.setProc,fields]

/-- The clock interrupt leaves it the current process. -/
theorem Lone.interrupted {k : Kernel} (lone : Lone k) (n : Nat) :
    int32 { k with nbInterrupt := n } = { k with nbInterrupt := ulong (n + 1), inKernel := true } :=
  calc int32 { k with nbInterrupt := n }
      = callScheduler (updateTimer { k with nbInterrupt := ulong (n + 1) }) .user := int32_tick _
    _ = callScheduler { k with nbInterrupt := ulong (n + 1) } .user := by rw [lone.nobody_due]
    _ = { k with
          toProcs := scheduler (k.toProcs.setProc k.pidCour (fun c => { c with frame := .user }))
          nbInterrupt := ulong (n + 1)
          inKernel := true } := rfl
    _ = { k with nbInterrupt := ulong (n + 1), inKernel := true } := by
      rw [lone.framed,scheduler_alone lone.ready lone.active]

theorem Lone.returned {k : Kernel} (lone : Lone k) (n : Nat) :
    sysret { k with nbInterrupt := n, inKernel := true } none = { k with nbInterrupt := n } :=
  calc sysret { k with nbInterrupt := n, inKernel := true } none
      = { k with
          toProcs := k.toProcs.setProc k.pidCour (fun c => { c with frame := .user })
          nbInterrupt := n
          inKernel := false
          ret := none } := rfl
    _ = { k with nbInterrupt := n } := by rw [lone.framed,← lone.mode,← lone.ret]

/-- The process that runs alone is interrupted by the clock and goes on. -/
theorem Lone.round {k : Kernel} (lone : Lone k) (n : Nat) :
    run step { k with nbInterrupt := n } [.tick,.resume] = some { k with nbInterrupt := ulong (n + 1) } := by
  have running := lone.ready.running
  have ticked : step { k with nbInterrupt := n } .tick =
      some { k with nbInterrupt := ulong (n + 1), inKernel := true } := by
    rw [step,if_neg (by simp [running,lone.mode]),lone.interrupted]
  have resumed : step { k with nbInterrupt := ulong (n + 1), inKernel := true } .resume =
      some { k with nbInterrupt := ulong (n + 1) } := by
    rw [step,if_neg (by simp [running]),resume,if_neg lone.busy]
    simp only [lone.frame]
    rw [lone.returned]
  simp only [run,ticked,resumed,Option.bind_some]

/-- Any number of ticks later. -/
theorem Lone.reach {k : Kernel} (lone : Lone k) {guard : Kernel → Event → Prop} (tick : ∀ l, guard l .tick)
    (resume : ∀ l, guard l .resume) (reached : Reach guard k) (counter : k.nbInterrupt < 4294967296) (n : Nat) :
    Reach guard { k with nbInterrupt := ulong (k.nbInterrupt + n) } := by
  induction n with
  | zero =>
    have start : ulong (k.nbInterrupt + 0) = k.nbInterrupt := Nat.mod_eq_of_lt counter
    rw [start]
    exact reached
  | succ n ih =>
    have allowed : ∀ e ∈ ([.tick,.resume] : List Event), ∀ l, guard l e := by
      intro e member
      rcases List.mem_cons.mp member with rfl | member
      · exact tick
      · rw [List.mem_singleton.mp member]
        exact resume
    have wrapped : ulong (ulong (k.nbInterrupt + n) + 1) = ulong (k.nbInterrupt + (n + 1)) := by
      simp only [ulong]
      omega
    have path : Leads _ guard _ _ := leads_of_run _ allowed (lone.round (ulong (k.nbInterrupt + n)))
    rw [wrapped] at path
    exact ih.leads path

/-- Init runs alone when the counter is about to wrap. -/
theorem lone_init (n : Nat) : ∃ k : Kernel, Reach (fun _ e => Plain e) k ∧ k.inKernel = false ∧ k.pidCour ≠ 0 ∧
    (k.tabProc k.pidCour).state = .active ∧ (∃ q, Ready k.toProcs q) ∧ k.nbInterrupt = ulong (1 + n) := by
  let events : List Event := [.tick,.resume]
  have seen : (run step zeroed events).map (fun k => decide (k.pidCour = 1 ∧ (k.tabProc 1).state = .active ∧
      (k.tabProc 1).frame = .user ∧ k.inKernel = false ∧ k.ret = none ∧ k.nbInterrupt = 1 ∧
      ∀ p ∈ pids, (k.tabProc p).state = .active)) = some true := by decide
  obtain ⟨k,ran,facts⟩ := Option.map_eq_some_iff.mp seen
  obtain ⟨cour,active,frame,mode,ret,clock,all⟩ := of_decide_eq_true facts
  have reached : Reach (fun _ e => Plain e) k := reach_of_run events (by simp [events,Plain]) zeroed_boot ran
  obtain ⟨q,ready⟩ := (reach_plain reached).stable.ready
  have empty : q = [] := by
    refine List.eq_nil_iff_forall_not_mem.mpr (fun p member => ?_)
    obtain ⟨used,activable⟩ := (ready.member p).mp member
    rw [all p ((mem_pids p).mpr used.1)] at activable
    cases activable
  have lone : Lone k :=
    { ready := empty ▸ ready
      busy := by simp [cour]
      active := by rw [cour]; exact active
      frame := by rw [cour]; exact frame
      awake := fun p used asleep => by
        rw [all p ((mem_pids p).mpr used.1)] at asleep
        cases asleep
      mode := mode
      ret := ret }
  have later := lone.reach (fun _ => trivial) (fun _ => trivial) reached (by omega) n
  exact ⟨_,later,mode,lone.busy,lone.active,⟨[],lone.ready.frame rfl rfl rfl rfl (fun _ => Iff.rfl) (fun _ _ => rfl)
    (fun _ _ => Iff.rfl) (fun _ _ => id)⟩,by rw [clock]⟩

/-! ### Steps of the kernel while a process sleeps -/

/-- A process that sleeps is not the current one. -/
theorem Asleep.other {k : Procs} {pid : Int} (asleep : Asleep k pid) (running : Running k) : pid ≠ k.pidCour := by
  rintro rfl
  have inside := asleep.1.1
  have active := running (fun idle => by simp [idle,InTab] at inside)
  rw [asleep.2] at active
  cases active

/-- A step between two ticks. -/
theorem Elapsed.between {pid : Int} {k l l' : Kernel} {n : Nat} {e : Event} (elapsed : Elapsed pid k n l)
    (asleep : Asleep l.toProcs pid) (running : Running l.toProcs) (stepped : step l e = some l') (other : e ≠ .tick)
    (still : Asleep l'.toProcs pid) : Elapsed pid k n l' := by
  obtain ⟨same,alarm⟩ := step_unset stepped other (asleep.other running)
  exact .other elapsed still same alarm

/-- The clock interrupt: a tick, and then `scheduler`. -/
theorem Elapsed.ticked {pid : Int} {k l l' : Kernel} {n : Nat} {q : List Int} (elapsed : Elapsed pid k n l)
    (ready : Ready l.toProcs q) (stepped : step l .tick = some l') (still : Asleep l'.toProcs pid) :
    Elapsed pid k (n + 1) l' := by
  have done : l' = callScheduler (Timer.tick l) .user := by
    rcases Invariant.step_cases stepped with ⟨_,same,_⟩ | ⟨same,_⟩ | ⟨_,_,done⟩ | ⟨_,same,_⟩ | ⟨_,same,_⟩ | ⟨same,_⟩
    · cases same
    · cases same
    · exact done
    · cases same
    · cases same
    · cases same
  subst done
  obtain ⟨q',ready'⟩ := tick_ready ready
  have woken : Asleep (Timer.tick l).toProcs pid := (callScheduler_asleep ready' .user pid).mp still
  have unset := (Unset.refl (Timer.tick l)).callScheduler .user
  exact .other (.tick elapsed woken) still unset.counter (unset.timer pid)

/-! ### Waiting for a delay -/

/-- A process that calls `wait_clock(current_clock() + d)` sleeps for `d` ticks
    exactly when the counter does not wrap before it wakes up, or is about to
    wrap at the next tick. -/
theorem waitClock_onTime_iff {k : Kernel} {q : List Int} (ready : Ready k.toProcs q) (busy : k.pidCour ≠ 0)
    (active : (k.tabProc k.pidCour).state = .active) (counter : k.nbInterrupt < 4294967296) {d : Nat}
    (positive : 0 < d) (small : d < 2147483648) :
    OnTime k.pidCour (waitClock k (ulong (k.nbInterrupt + d))) d ↔
      k.nbInterrupt + d < 4294967296 ∨ k.nbInterrupt = 4294967295 := by
  have inside := (ready.cour.resolve_left busy).1
  obtain ⟨same,timer⟩ := waitClock_timer k (ulong (k.nbInterrupt + d))
  have alarm := timer k.pidCour
  rw [if_pos ⟨rfl,inside⟩] at alarm
  have twice : ulong (ulong (k.nbInterrupt + d)) = ulong (k.nbInterrupt + d) := Nat.mod_mod _ _
  exact onTime_iff (waitClock_asleep ready busy active _) same (alarm.trans twice) counter positive small

/-- Init sleeps over three ticks, far from the wrap. -/
theorem waitClock_onTime_iff_init : ∃ (k : Kernel) (q : List Int), Reach (fun _ e => Plain e) k ∧ Ready k.toProcs q ∧
    k.nbInterrupt = 1 ∧ (OnTime k.pidCour (waitClock k (ulong (k.nbInterrupt + 3))) 3 ↔
      k.nbInterrupt + 3 < 4294967296 ∨ k.nbInterrupt = 4294967295) := by
  obtain ⟨k,reached,_,busy,active,⟨q,ready⟩,clock⟩ := lone_init 0
  have one : k.nbInterrupt = 1 := clock
  exact ⟨k,q,reached,ready,one,waitClock_onTime_iff ready busy active (by omega) (by decide) (by decide)⟩

/-- Two ticks before the wrap, a process that waits for two ticks is woken at
    the first. -/
theorem waitClock_early : ¬ ∀ k : Kernel, Reach (fun _ e => Plain e) k → k.inKernel = false → k.pidCour ≠ 0 →
    ∀ d, 0 < d → d < 2147483648 → OnTime k.pidCour (waitClock k (ulong (k.nbInterrupt + d))) d := by
  intro always
  obtain ⟨k,reached,mode,busy,active,⟨q,ready⟩,clock⟩ := lone_init 4294967293
  have late : k.nbInterrupt = 4294967294 := clock
  have right := always k reached mode busy 2 (by decide) (by decide)
  have inside := (ready.cour.resolve_left busy).1
  obtain ⟨same,timer⟩ := waitClock_timer k (ulong (k.nbInterrupt + 2))
  have alarm := timer k.pidCour
  rw [if_pos ⟨rfl,inside⟩] at alarm
  have wraps : ¬ Straight 4294967294 2 := by simp [Straight]
  refine wraps ((onTime_iff (waitClock_asleep ready busy active _) (same.trans late) ?_ (by decide) (by decide)
    (by decide)).mp right)
  rw [alarm,late]
  rfl

/-! ### `usleep` -/

section Delay
open Psys.Provenance (Pointer World bind_some)
open Psys.Handlers (TIMER_INPUT_FREQ SYSCALL_CLOCK_SETTINGS Machine)

/-- What `timer_setticks` leaves in `rate`. -/
def timerSetticks (freq : UInt32) : UInt32 := TIMER_INPUT_FREQ / freq

/-- What `timer_init` leaves in `rate`. -/
def timerInit : UInt32 := timerSetticks 1

/-- The ticks that `usleep` adds to the clock, from what `clock_settings`
    reports. -/
def usleepDelay (microseconds quartz ticks : UInt32) : UInt32 := microseconds * quartz * ticks / (1000 * 1000)

/-- `usleep`, with the value of `rate`. -/
def usleep (k : Kernel) (rate microseconds : UInt32) : Kernel :=
  waitClock k (ulong (k.nbInterrupt + (usleepDelay microseconds TIMER_INPUT_FREQ rate).toNat))

/-- Called from the kernel, `clock_settings` reports the frequency of the quartz
    and the rate. -/
theorem clockSettings_reports {s : World Machine} (quartz ticks : Pointer)
    (outside : s.state.inSyscall ≠ SYSCALL_CLOCK_SETTINGS) (first : quartz.address ≠ 0) (second : ticks.address ≠ 0) :
    Handlers.clockSettings quartz ticks s =
      (do Handlers.storeWord quartz TIMER_INPUT_FREQ; Handlers.storeWord ticks s.state.rate : Handlers.Handler Unit) s := by
  have checked : ∀ p : Pointer, Handlers.checkPointer p SYSCALL_CLOCK_SETTINGS s = ⟨[],some p,s⟩ := by
    intro p
    have other : Dispatch.isInSyscall s.state.inSyscall SYSCALL_CLOCK_SETTINGS = false := by
      simpa [Dispatch.isInSyscall] using outside
    rw [Handlers.checkPointer,bind_some (a := s.state) rfl]
    simp only [other,Bool.false_and,Bool.false_eq_true,if_false]
    rfl
  rw [Handlers.clockSettings,bind_some (a := quartz) (by rw [checked]),checked,bind_some (a := ticks) (by rw [checked]),
    checked,bind_some (a := s.state) rfl]
  simp only [first,second,ne_eq,not_false_eq_true,if_true]
  rfl

/-- The delay is the whole number of ticks in so many microseconds, when a tick
    lasts `ticks / quartz` seconds, and no product overflows. -/
structure Exact (microseconds quartz ticks : UInt32) : Prop where
  value : (usleepDelay microseconds quartz ticks).toNat =
    microseconds.toNat * quartz.toNat / (ticks.toNat * 1000000)
  first : microseconds.toNat * quartz.toNat < 4294967296
  second : microseconds.toNat * quartz.toNat * ticks.toNat < 4294967296

/-- The delays up to this one do not decrease. -/
def Monotone (microseconds quartz ticks : UInt32) : Prop :=
  ∀ a b, a ≤ b → b ≤ microseconds → usleepDelay a quartz ticks ≤ usleepDelay b quartz ticks

/-- Without overflow, the delay is too long by the square of `ticks`. -/
theorem usleepDelay_fits {microseconds quartz ticks : UInt32}
    (fits : microseconds.toNat * quartz.toNat * ticks.toNat < 4294967296) (positive : 0 < ticks.toNat) :
    (usleepDelay microseconds quartz ticks).toNat = microseconds.toNat * quartz.toNat * ticks.toNat / 1000000 := by
  have half : microseconds.toNat * quartz.toNat < 4294967296 :=
    Nat.lt_of_le_of_lt (Nat.le_mul_of_pos_right _ positive) fits
  have million : (1000 * 1000 : UInt32).toNat = 1000000 := by decide
  rw [usleepDelay,UInt32.toNat_div,million,UInt32.toNat_mul,UInt32.toNat_mul,Nat.mod_eq_of_lt half,Nat.mod_eq_of_lt fits]

/-- With the settings that `clock_settings` reports, `usleep` is right about no
    delay but the empty one. -/
theorem usleep_exact_iff (microseconds : UInt32) :
    Exact microseconds TIMER_INPUT_FREQ timerInit ∧ Monotone microseconds TIMER_INPUT_FREQ timerInit ↔
      microseconds = 0 := by
  have freq : TIMER_INPUT_FREQ.toNat = 1193181 := rfl
  have rate : timerInit.toNat = 1193181 := by decide
  constructor
  · rintro ⟨right,_⟩
    have fits := right.second
    rw [freq,rate] at fits
    exact UInt32.toNat_inj.mp (by show microseconds.toNat = 0; omega)
  · rintro rfl
    refine ⟨⟨by decide,by decide,by decide⟩,fun a b le upto => ?_⟩
    have least : ∀ c : UInt32, c ≤ 0 → c = 0 := fun c low => UInt32.toNat_inj.mp (Nat.le_zero.mp low)
    obtain rfl := least b upto
    obtain rfl := least a le
    exact UInt32.le_refl _

/-- A microsecond is served with 2046 ticks of a second, and three microseconds
    with fewer ticks than two. -/
theorem usleep_inexact : usleepDelay 1 TIMER_INPUT_FREQ timerInit = 2046 ∧
    (¬ ∀ microseconds, Exact microseconds TIMER_INPUT_FREQ timerInit) ∧
    ¬ ∀ a b, a ≤ b → usleepDelay a TIMER_INPUT_FREQ timerInit ≤ usleepDelay b TIMER_INPUT_FREQ timerInit := by
  refine ⟨by decide,fun always => ?_,fun always => ?_⟩
  · exact absurd (always 1).value (by decide)
  · exact absurd (always 2 3 (by decide)) (by decide)

end Delay

end Psys.Timer
