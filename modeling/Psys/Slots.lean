import Psys.Handover

/-!
The entries of `tab_proc` that a new process may take. `garbage_collector` runs
in `context_switch` only, so that an ended process keeps its entry until the
processor passes to another process.
-/
namespace Psys.Slots
open Psys.State Psys.Context Psys.Sys Psys.System Psys.ProcQueue
open Psys.Handover (kernelStep_passes)
open Psys.Runs (run)

/-- An entry that waits for `garbage_collector`. -/
def Uncollected (t : Int → Context) (p : Int) : Prop := InUse t p ∧ (t p).state = .dead
instance (t : Int → Context) (p : Int) : Decidable (Uncollected t p) := inferInstanceAs (Decidable (_ ∧ _))

/-! ### The kernel with the deaths since the last context switch -/

structure Machine where
  kernel : Kernel
  /-- History: a process has died since the processor last passed to another
      one, or to the idle loop. -/
  died : Bool

/-- A process dies between two states. -/
def dies (k k' : Kernel) : Bool :=
  pids.any (fun p => decide (Uncollected k'.tabProc p) && !decide (Uncollected k.tabProc p))

/-- The machine after the kernel has run on to `k`. -/
@[simps]
def advance (m : Machine) (k : Kernel) : Machine where
  kernel := k
  died := if k.pidCour = m.kernel.pidCour then m.died || dies m.kernel k else false

def step (m : Machine) (e : Event) : Option Machine := (System.step m.kernel e).map (advance m)

def Boot (m : Machine) : Prop := System.Boot m.kernel ∧ m.died = false

/-- A start in zeroed memory. -/
def zeroed : Machine := ⟨System.zeroed,false⟩

theorem zeroed_boot : Boot zeroed := ⟨System.zeroed_boot,rfl⟩

/-- The states that the machine reaches by steps that meet a guard. -/
abbrev Reach (guard : Machine → Event → Prop) : Machine → Prop := Runs.Reach Boot step guard

/-! ### Collection -/

/-- A context switch leaves no dead process in the table. -/
theorem garbageCollector_clean (k : Procs) (p : Int) : ¬ Uncollected (garbageCollector k).tabProc p := by
  rintro ⟨used,dead⟩
  rw [garbageCollector_inUse] at used
  exact used.2 (by simpa using dead)

theorem scheduler_clean (k : Procs) : (scheduler k).pidCour = k.pidCour ∨ ∀ p, ¬ Uncollected (scheduler k).tabProc p := by
  unfold scheduler
  split
  · split
    · exact .inl rfl
    · exact .inl rfl
    · exact .inr (garbageCollector_clean _)
  · split
    · exact .inl rfl
    · split
      · exact .inr (garbageCollector_clean _)
      · exact .inl rfl
    · split
      · exact .inr (garbageCollector_clean _)
      · exact .inl rfl

/-- When the processor passes on, no dead process is left in the table. -/
theorem kernelStep_clean {k k' : Kernel} {e : Event} (stepped : System.step k e = some k')
    (switched : k'.pidCour ≠ k.pidCour) (p : Int) : ¬ Uncollected k'.tabProc p := by
  rcases kernelStep_passes stepped with same | ⟨before,frame,same,rfl⟩
  · exact absurd same switched
  · rcases scheduler_clean (before.toProcs.setProc before.pidCour (fun c => { c with frame := frame })) with stays | clean
    · exact absurd (stays.trans same) switched
    · exact clean p

/-- Dead processes are in the table only when one has died since the last
    context switch. -/
def Told (m : Machine) : Prop := ∀ p, Uncollected m.kernel.tabProc p → m.died = true

theorem step_told {m m' : Machine} {e : Event} (told : Told m) (stepped : step m e = some m') : Told m' := by
  obtain ⟨k,took,rfl⟩ := Option.map_eq_some_iff.mp stepped
  intro p dead
  by_cases same : k.pidCour = m.kernel.pidCour
  · rw [advance_died,if_pos same,Bool.or_eq_true]
    by_cases before : Uncollected m.kernel.tabProc p
    · exact .inl (told p before)
    · refine .inr (List.any_eq_true.mpr ⟨p,(mem_pids p).mpr dead.1.1,?_⟩)
      simpa [before] using dead
  · exact absurd dead (kernelStep_clean took same p)

theorem boot_told {m : Machine} (boot : Boot m) : Told m := by
  rintro p ⟨used,dead⟩
  have init := (Invariant.boot_init boot.1 used).2.1
  simp [init] at dead

theorem reach_told {guard : Machine → Event → Prop} {m : Machine} (reached : Reach guard m) : Told m :=
  reached.invariant (fun _ => boot_told) (fun _ _ _ told _ => step_told told)

/-! ### `start` -/

/-- `start` finds memory, and it is not called with a full table after a death
    that no context switch has followed. -/
def Roomy (m : Machine) : Event → Prop
  | .call (.start _ _ memory) =>
    memory.stack = true ∧ memory.children = true ∧ (m.died = true → freePid m.kernel.tabProc ≠ none)
  | _ => True

instance (m : Machine) : DecidablePred (Roomy m)
  | .call (.start _ _ _) => inferInstanceAs (Decidable (_ ∧ _ ∧ (_ → _)))
  | .call (.exit _) | .call (.kill _) | .call (.getprio _) | .call (.chprio _ _) | .call .getpid | .call .getppid
  | .call (.waitpid _ _) | .call (.waitClock _) | .call .currentClock | .call (.screate _ _) | .call (.wait _)
  | .call (.tryWait _) | .call (.signal _) | .call (.signaln _ _) | .call (.scount _) | .call (.sreset _ _)
  | .call (.sdelete _) | .call (.consRead _ _) | .call (.setBuffered _) | .call (.setStdout _) | .call .sigReturn
  | .fault | .tick | .key _ | .flip _ | .resume => instDecidableTrue

theorem freePid_none {t : Int → Context} (full : freePid t = none) {p : Int} (inTab : InTab p) : InUse t p := by
  have used := List.find?_eq_none.mp full p ((mem_pids p).mpr inTab)
  exact ⟨inTab,by simpa using used⟩

/-- A page fault ends in `scheduler`. -/
theorem handlePfault_inKernel (k : Kernel) : (handlePfault k).inKernel = true := by
  unfold handlePfault
  split
  · rfl
  next alive =>
  rw [kill,if_neg alive]
  rfl

/-- With memory, `start` returns -1 only when every entry is in use. -/
theorem start_refused {k : Kernel} {ssize : Nat} {prio : Int} {memory : Memory} (small : ssize ≤ 0xffffffe7)
    (stack : memory.stack = true) (children : memory.children = true)
    (failed : (start k ssize prio memory).inKernel = false) : freePid k.tabProc = none := by
  cases found : freePid k.tabProc with
  | none => rfl
  | some pid =>
    have inTab : InTab pid := (mem_pids pid).mp (List.mem_of_find?_eq_some found)
    have created : ∀ ret, (contextCreateUser k.toProcs prio memory).2 = some ret → ret = pid := by
      intro ret value
      simp only [contextCreateUser,found,stack,children,Bool.true_eq_false,if_false] at value
      split at value
      · cases value
      · split at value
        · cases value
        · exact (Option.some.inj value).symm
    rcases start_cases k ssize prio memory with ⟨large,_⟩ | ⟨_,⟨_,_,_,called⟩ | ⟨ret,value,nothing,_⟩ | ⟨_,called⟩⟩
    · omega
    · rw [called] at failed
      simp [callScheduler] at failed
    · obtain rfl := created ret value
      have positive := inTab.1
      omega
    · rw [called,handlePfault_inKernel] at failed
      cases failed

/-- So it does. -/
theorem start_refuses {k : Kernel} (full : freePid k.tabProc = none) {ssize : Nat} (small : ssize ≤ 0xffffffe7) (prio : Int)
    (memory : Memory) : start k ssize prio memory = sysret k (some (-1)) := by
  have created : contextCreateUser k.toProcs prio memory = (k.toProcs,some (-1)) := by
    simp only [contextCreateUser,full]
  unfold start
  rw [if_neg (by omega),created]
  rfl

/-- When `start` returns -1 for want of an entry, every entry is held by a
    process that is not dead. -/
theorem start_full {m m' : Machine} (reached : Reach Roomy m) {ssize : Nat} {prio : Int} {memory : Memory}
    (small : ssize ≤ 0xffffffe7) (roomy : Roomy m (.call (.start ssize prio memory)))
    (stepped : step m (.call (.start ssize prio memory)) = some m')
    (failed : m'.kernel.inKernel = false ∧ m'.kernel.ret = some (-1)) :
    ∀ p, InTab p → InUse m.kernel.tabProc p ∧ (m.kernel.tabProc p).state ≠ .dead := by
  obtain ⟨k,took,rfl⟩ := Option.map_eq_some_iff.mp stepped
  obtain ⟨_,_,rfl⟩ := Invariant.step_called took
  have full := start_refused small roomy.1 roomy.2.1 failed.1
  have peaceful : ¬ m.died = true := fun died => roomy.2.2 died full
  intro p inTab
  have used := freePid_none full inTab
  exact ⟨used,fun dead => peaceful (reach_told reached p ⟨used,dead⟩)⟩

/-- Children of low priority, which do not run when they are created. -/
def brood (n : Nat) : List Event := (List.replicate n [Event.call (.start 512 1 .granted),.resume]).flatten

/-- Init has filled the table. -/
theorem start_full_twenty : ∃ m m' : Machine, Reach Roomy m ∧
    step m (.call (.start 512 1 .granted)) = some m' ∧ m'.kernel.inKernel = false ∧ m'.kernel.ret = some (-1) ∧
      ∀ p, InTab p → InUse m.kernel.tabProc p ∧ (m.kernel.tabProc p).state ≠ .dead := by
  have seen : (run (Runs.guarded step Roomy) zeroed (.tick :: .resume :: brood 19)).map (fun m =>
      (m.kernel.halted,m.kernel.inKernel,m.kernel.pidCour,freePid m.kernel.tabProc,m.died)) =
        some (false,false,1,none,false) := by decide +kernel
  obtain ⟨m,ran,facts⟩ := Option.map_eq_some_iff.mp seen
  simp only [Prod.mk.injEq] at facts
  obtain ⟨running,mode,cour,full,peaceful⟩ := facts
  have reached : Reach Roomy m := Runs.reach_of_guarded (.start zeroed_boot) ran
  have roomy : Roomy m (.call (.start 512 1 .granted)) := ⟨rfl,rfl,fun died => by simp [peaceful] at died⟩
  have refused := start_refuses full (by decide : 512 ≤ 0xffffffe7) 1 .granted
  have stepped : step m (.call (.start 512 1 .granted)) = some (advance m (sysret m.kernel (some (-1)))) := by
    simp [step,System.step,running,mode,cour,handle,refused]
  exact ⟨m,_,reached,stepped,rfl,rfl,start_full reached (by decide) roomy stepped ⟨rfl,rfl⟩⟩

/-- The calls on the life of processes, with memory, and what lets processes run. -/
def Life : Event → Prop
  | .call (.start _ _ memory) => memory.stack = true ∧ memory.children = true
  | .call (.exit _) | .call (.kill _) | .call (.waitpid _ _) | .tick | .resume => True
  | _ => False

/-- Process 2 kills a child and reaps it, with the table full, and starts
    another one: the dead child still holds its entry. -/
theorem start_dead : ¬ ∀ (k k' : Kernel) (ssize : Nat) (prio : Int), System.Reach (fun _ e => Life e) k →
    ssize ≤ 0xffffffe7 → System.step k (.call (.start ssize prio .granted)) = some k' →
      k'.inKernel = false → k'.ret = some (-1) →
        ∀ p, InTab p → InUse k.tabProc p ∧ (k.tabProc p).state ≠ .dead := by
  intro claim
  let events : List Event := [.tick,.resume,.call (.start 512 5 .granted),.resume] ++ brood 18 ++
    [.call (.kill 3),.resume,.call (.waitpid 3 0)]
  have seen : (run System.step System.zeroed events).map (fun k =>
      (k.halted,k.inKernel,k.pidCour,freePid k.tabProc,(k.tabProc 3).state)) = some (false,false,2,none,.dead) := by
    decide +kernel
  obtain ⟨k,ran,facts⟩ := Option.map_eq_some_iff.mp seen
  simp only [Prod.mk.injEq] at facts
  obtain ⟨running,mode,cour,full,dead⟩ := facts
  have reached : System.Reach (fun _ e => Life e) k :=
    Runs.reach_of_run events (by simp [events,brood,Life]) System.zeroed_boot ran
  have stepped : System.step k (.call (.start 512 1 .granted)) = some (sysret k (some (-1))) := by
    simp [System.step,running,mode,cour,handle,start_refuses full (by decide : 512 ≤ 0xffffffe7)]
  exact (claim k _ 512 1 reached (by decide) stepped rfl rfl 3 (by decide)).2 dead

end Psys.Slots
