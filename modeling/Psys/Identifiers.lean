import Psys.Invariant

/-!
The identifiers of semaphores: `valide` flags and `sid_libres` represent one
set. `screate` takes an identifier out of the list before it knows whether
there is memory for the waiting list, and does not put it back.
-/
namespace Psys.Identifiers
open Psys.State Psys.Context Psys.Sys Psys.Semaphore Psys.Devices Psys.System Psys.Invariant
open Psys.Calls (waitpid_cases)
open Psys.Runs (run)
open Psys.SemCalls (closed waitResume_cases sreset_cases sdelete_cases)

/-- Every identifier is valid or free: free once, and never both. -/
def Partition (k : Kernel) : Prop :=
  ∀ sid, 0 ≤ sid → sid < NBSEM →
    (k.semaphores sid).valide = true ∧ sid ∉ k.sidLibres ∨
      (k.semaphores sid).valide = false ∧ k.sidLibres.count sid = 1

/-- `sid_libres` and the flags agree. -/
structure Divided (k : Kernel) : Prop where
  exact : Partition k
  range : ∀ sid ∈ k.sidLibres, 0 ≤ sid ∧ sid < NBSEM

/-- A call of `screate` that asks for memory gets it. -/
def Affords (k : Kernel) : Event → Prop
  | .call (.screate compteur memory) => 0 ≤ short compteur → k.sidLibres ≠ [] → memory = true
  | _ => True

theorem Divided.free {k : Kernel} (divided : Divided k) {sid : Int} {libres : List Int}
    (form : k.sidLibres = sid :: libres) : (k.semaphores sid).valide = false ∧ sid ∉ libres := by
  obtain ⟨low,high⟩ := divided.range sid (by simp [form])
  rcases divided.exact sid low high with ⟨_,out⟩ | ⟨unused,once⟩
  · simp [form] at out
  · simp only [form,List.count_cons_self,Nat.add_eq_right,List.count_eq_zero] at once
    exact ⟨unused,once⟩

/-! ### Steps that create and delete nothing -/

/-- The same identifiers are valid, and the same are free. -/
structure SameSids (k k' : Kernel) : Prop where
  libres : k'.sidLibres = k.sidLibres
  valide : ∀ sid, (k'.semaphores sid).valide = (k.semaphores sid).valide

theorem SameSids.refl (k : Kernel) : SameSids k k := ⟨rfl,fun _ => rfl⟩

theorem SameSids.trans {k k' k'' : Kernel} (first : SameSids k k') (second : SameSids k' k'') : SameSids k k'' :=
  ⟨second.libres.trans first.libres,fun sid => (second.valide sid).trans (first.valide sid)⟩

theorem SameSids.divided {k k' : Kernel} (same : SameSids k k') (divided : Divided k) : Divided k' where
  exact sid low high := by
    rw [same.libres,same.valide sid]
    exact divided.exact sid low high
  range sid member := divided.range sid (same.libres ▸ member)

/-- Nothing of the semaphores is written. -/
theorem SameSids.of_eq {k k' : Kernel} (libres : k'.sidLibres = k.sidLibres) (semaphores : k'.semaphores = k.semaphores) :
    SameSids k k' := ⟨libres,fun sid => by rw [semaphores]⟩

/-- A write to the counter or the waiting list of a semaphore. -/
theorem setSem_sameSids (k : Kernel) (sid : Int) {f : Semaphore → Semaphore} (valide : ∀ s, (f s).valide = s.valide) :
    SameSids k (k.setSem sid f) := by
  refine ⟨rfl,fun other => ?_⟩
  by_cases same : other = sid <;> simp [same,valide]

theorem sysret_sameSids (k : Kernel) (ret : Option Int) : SameSids k (sysret k ret) := .of_eq rfl rfl

theorem callScheduler_sameSids (k : Kernel) (frame : Frame) : SameSids k (callScheduler k frame) := .of_eq rfl rfl

theorem kill_sameSids (k : Kernel) (pid : Int) : SameSids k (kill k pid) := by
  by_cases refused : pid ≤ 1 ∨ Ended k.tabProc pid
  · rw [kill,if_pos refused]
    exact sysret_sameSids k _
  · rw [kill,if_neg refused]
    by_cases waits : (k.tabProc pid).state = .waitSem
    · rw [if_pos waits]
      have given := setSem_sameSids k (k.tabProc pid).sidWait (f := fun s => { s with c := short (s.c + 1) }) (fun _ => rfl)
      exact given.trans (.of_eq rfl rfl)
    · rw [if_neg waits]
      exact .of_eq rfl rfl

theorem handlePfault_sameSids (k : Kernel) : SameSids k (handlePfault k) := by
  unfold handlePfault
  split
  · exact callScheduler_sameSids k _
  · exact kill_sameSids k _

theorem reap_sameSids (k : Kernel) (child : Int) (retvalp : Nat) : SameSids k (reap k child retvalp) := by
  unfold reap
  split
  · exact handlePfault_sameSids k
  · by_cases null : retvalp = 0
    · subst null; exact .of_eq rfl rfl
    · dsimp only
      rw [if_pos null]
      exact .of_eq rfl rfl

theorem waitpid_sameSids (k : Kernel) (pid : Int) (retvalp : Nat) : SameSids k (waitpid k pid retvalp) := by
  rcases waitpid_cases k pid retvalp with ⟨_,_,called⟩ | ⟨_,_,called⟩ | ⟨_,_,called⟩ | ⟨_,_,_,called⟩
  all_goals rw [called]
  · exact sysret_sameSids k _
  · exact reap_sameSids k _ _
  · exact .of_eq rfl rfl
  · exact .of_eq rfl rfl

theorem chprio_sameSids (k : Kernel) (pid newprio : Int) : SameSids k (chprio k pid newprio) := by
  rcases chprio_cases k pid newprio with ⟨_,called⟩ | ⟨_,_,_,_,⟨_,called⟩ | called⟩
  all_goals
    rw [called]
    exact .of_eq rfl rfl

theorem start_sameSids (k : Kernel) (ssize : Nat) (prio : Int) (memory : Memory) :
    SameSids k (start k ssize prio memory) := by
  rcases start_cases k ssize prio memory with ⟨_,called⟩ | ⟨_,⟨_,_,_,called⟩ | ⟨_,_,_,called⟩ | ⟨_,called⟩⟩
  all_goals rw [called]
  · exact .of_eq rfl rfl
  · exact .of_eq rfl rfl
  · exact .of_eq rfl rfl
  · refine SameSids.trans ?_ (handlePfault_sameSids _)
    exact .of_eq rfl rfl

theorem takeByte_sameSids {k : Kernel} {vc : Int} {buf len left : Nat} {loop : Kernel → Kernel}
    (rest : ∀ k, SameSids k (loop k)) : SameSids k (takeByte k vc buf len left loop) := by
  unfold takeByte
  dsimp only
  repeat' split
  · exact .of_eq rfl rfl
  · refine SameSids.trans ?_ (handlePfault_sameSids _)
    exact .of_eq rfl rfl
  · refine SameSids.trans ?_ (rest _)
    exact .of_eq rfl rfl

theorem consReadLoop_sameSids (vc : Int) (buf len left : Nat) (k : Kernel) :
    SameSids k (consReadLoop vc buf len left k) := by
  induction left generalizing k with
  | zero => exact sysret_sameSids k _
  | succ left ih =>
    rw [consReadLoop]
    split
    · exact .of_eq rfl rfl
    · exact takeByte_sameSids ih

theorem setStdout_sameSids (k : Kernel) (node : Option Int) : SameSids k (setStdout k node) := by
  cases node <;> exact .of_eq rfl rfl

theorem keyboardData_sameSids (k : Kernel) (key : UInt8) : SameSids k (keyboardData k key) := by
  unfold keyboardData bufferPush
  dsimp only
  repeat' split
  all_goals exact .of_eq rfl rfl

theorem vcFlip_sameSids (k : Kernel) (vcNumber : Int) : SameSids k (vcFlip k vcNumber) := by
  unfold vcFlip
  split <;> exact .of_eq rfl rfl

/-! ### Semaphore calls -/

theorem wait_sameSids (k : Kernel) (sid : Int) : SameSids k (wait k sid) := by
  unfold wait
  dsimp only
  split
  · exact sysret_sameSids k _
  split
  · exact sysret_sameSids k _
  have lowered := setSem_sameSids k sid (f := fun s => { s with c := short (s.c - 1) }) (fun _ => rfl)
  split
  · refine SameSids.trans (lowered.trans ?_) (callScheduler_sameSids _ _)
    refine ⟨rfl,fun other => ?_⟩
    by_cases same : other = sid <;> simp [same]
  · exact lowered.trans (.of_eq rfl rfl)

theorem waitResume_sameSids (k : Kernel) : SameSids k (waitResume k) := by
  rcases waitResume_cases k with ⟨_,called⟩ | ⟨_,called⟩
  all_goals
    rw [called]
    exact .of_eq rfl rfl

theorem tryWait_sameSids (k : Kernel) (sid : Int) : SameSids k (tryWait k sid) := by
  unfold tryWait
  dsimp only
  repeat' split
  · exact sysret_sameSids k _
  · exact (setSem_sameSids k sid (f := fun s => { s with c := short (s.c - 1) }) (fun _ => rfl)).trans (.of_eq rfl rfl)
  · exact sysret_sameSids k _

theorem signalOne_sameSids (k : Kernel) (sid : Int) : SameSids k (signalOne k sid) := by
  have raised : SameSids k { k.setSem sid (fun s => { s with c := short (s.c + 1) }) with
      semLog := .signalled sid :: k.semLog } :=
    (setSem_sameSids k sid (f := fun s => { s with c := short (s.c + 1) }) (fun _ => rfl)).trans (.of_eq rfl rfl)
  unfold signalOne
  dsimp only
  split
  · split
    · exact raised
    · refine SameSids.trans raised ⟨rfl,fun other => ?_⟩
      by_cases same : other = sid <;> simp [same]
  · exact raised

theorem signal_sameSids (k : Kernel) (sid : Int) : SameSids k (signal k sid) := by
  rcases signal_cases k sid with ⟨_,refused⟩ | ⟨_,_,⟨_,called⟩ | ⟨_,called⟩⟩
  · rw [refused]
    exact sysret_sameSids k _
  · rw [called]
    exact (signalOne_sameSids k sid).trans (callScheduler_sameSids _ _)
  · rw [called]
    exact (signalOne_sameSids k sid).trans (sysret_sameSids _ _)

theorem signalLoop_sameSids (sid : Int) (count : Nat) (k : Kernel) : SameSids k (signalLoop sid count k) := by
  induction count generalizing k with
  | zero => exact .refl k
  | succ count ih => exact (signalOne_sameSids k sid).trans (ih _)

theorem signaln_sameSids (k : Kernel) (sid count : Int) : SameSids k (signaln k sid count) := by
  rcases signaln_cases k sid count with ⟨_,refused⟩ | ⟨_,_,_,called⟩
  · rw [refused]
    exact sysret_sameSids k _
  · rw [called]
    exact (signalLoop_sameSids sid _ k).trans (callScheduler_sameSids _ _)

theorem scount_sameSids (k : Kernel) (sid : Int) : SameSids k (scount k sid) := by
  obtain ⟨_,called⟩ := scount_sysret k sid
  rw [called]
  exact sysret_sameSids k _

theorem dismissAll_sameSids (k : Kernel) (sid : Int) (cause : Cause) (mark : Context → Context) :
    SameSids k (dismissAll k sid cause mark) := by
  have fold : ∀ (waiting : List Int) (k : Kernel), SameSids k (waiting.foldl (dismiss sid cause mark) k) := by
    intro waiting
    induction waiting with
    | nil => exact SameSids.refl
    | cons pid rest ih =>
      intro k
      refine SameSids.trans ?_ (ih (dismiss sid cause mark k pid))
      exact .of_eq rfl rfl
  exact (setSem_sameSids k sid (f := fun s => { s with procWait := [] }) (fun _ => rfl)).trans (fold _ _)

theorem sreset_sameSids (k : Kernel) (sid count : Int) : SameSids k (sreset k sid count) := by
  rcases sreset_cases k sid count with ⟨_,refused⟩ | ⟨_,_,called⟩
  · rw [refused]
    exact sysret_sameSids k _
  · rw [called]
    refine SameSids.trans (SameSids.trans ?_ (dismissAll_sameSids _ _ _ _)) (callScheduler_sameSids _ _)
    exact setSem_sameSids k sid (fun _ => rfl)

/-- The calls that take or give an identifier. -/
def Allots : Event → Prop
  | .call (.screate _ _) | .call (.sdelete _) => True
  | _ => False

/-- All other steps leave the identifiers alone. -/
theorem step_sameSids {k k' : Kernel} {e : Event} (quiet : ¬ Allots e) (stepped : step k e = some k') :
    SameSids k k' := by
  rcases step_cases stepped with ⟨c,rfl,_,_,rfl⟩ | ⟨rfl,_,_,rfl⟩ | ⟨rfl,_,rfl⟩ | ⟨key,rfl,_,rfl⟩ | ⟨vcNumber,rfl,_,rfl⟩ |
    ⟨rfl,_,rfl⟩
  · cases c with
    | start ssize prio memory => exact start_sameSids k ssize prio memory
    | exit retval => exact .of_eq rfl rfl
    | kill pid => exact kill_sameSids k pid
    | getprio pid => simp only [handle,getprio]; split <;> exact sysret_sameSids k _
    | chprio pid newprio => exact chprio_sameSids k pid newprio
    | getpid | getppid | currentClock => exact sysret_sameSids k _
    | waitpid pid retvalp => exact waitpid_sameSids k pid retvalp
    | waitClock clock => exact .of_eq rfl rfl
    | screate compteur memory => exact absurd trivial quiet
    | wait sid => exact wait_sameSids k sid
    | tryWait sid => exact tryWait_sameSids k sid
    | signal sid => exact signal_sameSids k sid
    | signaln sid count => exact signaln_sameSids k sid count
    | scount sid => exact scount_sameSids k sid
    | sreset sid count => exact sreset_sameSids k sid count
    | sdelete sid => exact absurd trivial quiet
    | consRead buf len => exact consReadLoop_sameSids _ _ _ _ k
    | setBuffered buffered => exact .of_eq rfl rfl
    | setStdout node => exact setStdout_sameSids k node
    | sigReturn => exact .of_eq rfl rfl
  · exact handlePfault_sameSids k
  · exact .of_eq rfl rfl
  · exact keyboardData_sameSids k key
  · exact vcFlip_sameSids k vcNumber
  · unfold resume
    repeat' split
    · exact .of_eq rfl rfl
    · exact sysret_sameSids k _
    · exact sysret_sameSids k _
    · exact waitResume_sameSids k
    · exact reap_sameSids k _ _
    · exact reap_sameSids k _ _
    · exact takeByte_sameSids (consReadLoop_sameSids _ _ _ _)
    · exact .refl k
    · exact handlePfault_sameSids k

/-! ### `screate` and `sdelete` -/

/-- The outcomes of `screate` when there is memory. -/
theorem screate_outcomes {k : Kernel} (divided : Divided k) {compteur : Int} {memory : Bool}
    (affords : Affords k (.call (.screate compteur memory))) :
    screate k compteur memory = sysret k (some (-1)) ∨
      ∃ sid libres, k.sidLibres = sid :: libres ∧ memory = true ∧
        (screate k compteur memory).sidLibres = libres ∧ (screate k compteur memory).ret = some sid ∧
        ∀ s, ((screate k compteur memory).semaphores s).valide = if s = sid then true else (k.semaphores s).valide := by
  unfold screate
  dsimp only
  by_cases negative : short compteur < 0
  · exact .inl (by rw [if_pos negative])
  · rw [if_neg negative]
    cases form : k.sidLibres with
    | nil => exact .inl rfl
    | cons sid libres =>
      obtain ⟨unused,_⟩ := divided.free form
      have full : memory = true := affords (by omega) (by simp [form])
      refine .inr ⟨sid,libres,rfl,full,?_⟩
      simp only [unused,full,Bool.false_eq_true,Bool.true_eq_false,if_false]
      refine ⟨rfl,rfl,fun s => ?_⟩
      by_cases same : s = sid <;> simp [sysret,same]

theorem screate_divided {k : Kernel} (divided : Divided k) {compteur : Int} {memory : Bool}
    (affords : Affords k (.call (.screate compteur memory))) : Divided (screate k compteur memory) := by
  rcases screate_outcomes divided affords with same | ⟨sid,libres,form,_,libres',_,valide⟩
  · rw [same]
    exact (sysret_sameSids k _).divided divided
  · obtain ⟨_,out⟩ := divided.free form
    refine ⟨fun s low high => ?_,fun s member => divided.range s (by rw [form]; simp [libres' ▸ member])⟩
    rw [libres',valide s]
    by_cases new : s = sid
    · subst new
      exact .inl ⟨by simp,out⟩
    · have old := divided.exact s low high
      simpa [form,new,List.count_cons,Ne.symm new] using old

/-- A semaphore that is deleted gives its identifier back. -/
theorem sdelete_divided {k : Kernel} (divided : Divided k) (sid : Int) : Divided (sdelete k sid) := by
  rcases sdelete_cases k sid with ⟨_,refused⟩ | ⟨⟨low,high,valid⟩,called⟩
  · rw [refused]
    exact (sysret_sameSids k _).divided divided
  · rw [called,closed]
    have emptied := dismissAll_sameSids k sid .sdelete markDeleted
    have out : sid ∉ k.sidLibres := by
      rcases divided.exact sid low high with ⟨_,out⟩ | ⟨invalid,_⟩
      · exact out
      · simp [valid] at invalid
    refine ⟨fun s lowS highS => ?_,fun s member => ?_⟩
    · by_cases same : s = sid
      · subst same
        refine .inr ⟨by simp [callScheduler],?_⟩
        simp [callScheduler,emptied.libres,List.count_eq_zero.mpr out]
      · have old := divided.exact s lowS highS
        simpa [callScheduler,emptied.libres,emptied.valide s,same,Ne.symm same] using old
    · simp only [callScheduler,emptied.libres,List.mem_cons] at member
      rcases member with rfl | member
      · exact ⟨low,high⟩
      · exact divided.range s member

theorem step_divided {k k' : Kernel} {e : Event} (divided : Divided k) (affords : Affords k e)
    (stepped : step k e = some k') : Divided k' := by
  by_cases allots : Allots e
  · rcases step_cases stepped with ⟨c,rfl,_,_,rfl⟩ | ⟨rfl,_⟩ | ⟨rfl,_⟩ | ⟨key,rfl,_⟩ | ⟨vcNumber,rfl,_⟩ | ⟨rfl,_⟩
    · cases c with
      | screate compteur memory => exact screate_divided divided affords
      | sdelete sid => exact sdelete_divided divided sid
      | _ => exact allots.elim
    all_goals exact allots.elim
  · exact (step_sameSids allots stepped).divided divided

theorem boot_divided {k : Kernel} (boot : Boot k) : Divided k := by
  obtain ⟨outside,consoles,rfl⟩ := boot
  have libres : (kernelStart outside consoles).sidLibres = semInit := by rw [kernelStart]
  refine ⟨fun sid low high => .inr ⟨rfl,?_⟩,fun sid member => (mem_semInit sid).mp (libres ▸ member)⟩
  rw [libres]
  exact List.count_eq_one_of_mem semInit_nodup ((mem_semInit sid).mpr ⟨low,high⟩)

theorem reach_divided {k : Kernel} (reached : Reach Affords k) : Divided k :=
  reached.invariant (fun _ => boot_divided) (fun _ _ _ => step_divided)

/-! ### What a failure costs -/

/-- Without memory `screate` returns -3, and the identifier is neither valid nor
    free. -/
theorem screate_loses {k : Kernel} (divided : Divided k) {compteur : Int} {memory : Bool}
    (denied : ¬ Affords k (.call (.screate compteur memory))) :
    (screate k compteur memory).ret = some (-3) ∧ (screate k compteur memory).sidLibres ≠ k.sidLibres ∧
      ¬ Partition (screate k compteur memory) := by
  simp only [Affords,Classical.not_imp,Bool.not_eq_true] at denied
  obtain ⟨positive,filled,full⟩ := denied
  obtain ⟨sid,libres,form⟩ := List.exists_cons_of_ne_nil filled
  obtain ⟨unused,out⟩ := divided.free form
  obtain ⟨low,high⟩ := divided.range sid (by simp [form])
  have lost : screate k compteur memory = sysret ({ k with sidLibres := libres }.setSem sid
      (fun s => { s with c := short compteur, procWait := [] })) (some (-3)) := by
    unfold screate
    dsimp only
    rw [if_neg (by omega),form]
    dsimp only
    rw [if_neg (by simp [unused]),if_pos full]
  rw [lost]
  refine ⟨rfl,fun same => ?_,fun exact => ?_⟩
  · rw [form] at same
    exact List.cons_ne_self sid libres same.symm
  · rcases exact sid low high with ⟨valid,_⟩ | ⟨_,once⟩
    · simp [sysret,unused] at valid
    · have once' : libres.count sid = 1 := once
      exact out (List.count_pos_iff.mp (by omega))

/-- When every `screate` that asks for memory gets it, each identifier is valid
    or free, `screate` returns only a free one, and a `screate` that fails keeps
    the free ones. -/
theorem sids_partition {k : Kernel} (reached : Reach Affords k) :
    Partition k ∧ ∀ (compteur : Int) (memory : Bool) (k' : Kernel), step k (.call (.screate compteur memory)) = some k' →
      ∃ r, k'.ret = some r ∧
        (0 ≤ r → r < NBSEM ∧ (k.semaphores r).valide = false ∧ r ∈ k.sidLibres) ∧
        (r < 0 → (k'.sidLibres = k.sidLibres ↔ Affords k (.call (.screate compteur memory)))) := by
  have divided := reach_divided reached
  refine ⟨divided.exact,fun compteur memory k' stepped => ?_⟩
  obtain ⟨_,_,same⟩ := step_called stepped
  simp only [handle] at same
  subst same
  by_cases affords : Affords k (.call (.screate compteur memory))
  · rcases screate_outcomes divided affords with same | ⟨sid,libres,form,_,_,ret,_⟩
    · rw [same]
      exact ⟨-1,rfl,by omega,fun _ => iff_of_true rfl affords⟩
    · obtain ⟨low,high⟩ := divided.range sid (by simp [form])
      exact ⟨sid,ret,fun _ => ⟨high,(divided.free form).1,by simp [form]⟩,by omega⟩
  · obtain ⟨ret,changed,_⟩ := screate_loses divided affords
    exact ⟨-3,ret,by omega,fun _ => iff_of_false changed affords⟩

/-- Init at work, before any semaphore was created. -/
private theorem reach_init : ∃ k : Kernel, (∀ guard, (∀ k, guard k .tick) → (∀ k, guard k .resume) → Reach guard k) ∧
    k.sidLibres = semInit ∧ k.halted = false ∧ k.inKernel = false ∧ k.pidCour = 1 := by
  have seen : (run step zeroed [.tick,.resume]).map (fun k => (k.halted,k.inKernel,k.pidCour)) =
      some (false,false,1) := by decide
  obtain ⟨k,ran,facts⟩ := Option.map_eq_some_iff.mp seen
  simp only [Prod.mk.injEq] at facts
  have quiet : Runs.Leads step (fun _ e => ¬ Allots e) zeroed k :=
    Runs.leads_of_run [.tick,.resume] (by simp [Allots]) ran
  have libres := quiet.invariant (P := fun k => k.sidLibres = semInit) (by rw [zeroed,kernelStart])
    (fun _ _ _ known quiet stepped => (step_sameSids quiet stepped).libres.trans known)
  refine ⟨k,fun guard tick resume => Runs.reach_of_run [.tick,.resume] ?_ zeroed_boot ran,libres,facts⟩
  simp [tick,resume]

/-- Init creates a semaphore. -/
theorem sids_partition_init : ∃ k : Kernel, Reach Affords k ∧ k.pidCour = 1 ∧ Partition k ∧
    ∀ (compteur : Int) (memory : Bool) (k' : Kernel), step k (.call (.screate compteur memory)) = some k' →
      ∃ r, k'.ret = some r ∧
        (0 ≤ r → r < NBSEM ∧ (k.semaphores r).valide = false ∧ r ∈ k.sidLibres) ∧
        (r < 0 → (k'.sidLibres = k.sidLibres ↔ Affords k (.call (.screate compteur memory)))) := by
  obtain ⟨k,reach,_,_,_,cour⟩ := reach_init
  have reached : Reach Affords k := reach Affords (fun _ => trivial) (fun _ => trivial)
  exact ⟨k,reached,cour,sids_partition reached⟩

/-- The calls of `semaphore.c`, and what lets processes run. -/
def SemaphoreCall : Event → Prop
  | .call (.screate _ _) | .call (.sdelete _) | .call (.wait _) | .call (.tryWait _) | .call (.signal _)
  | .call (.signaln _ _) | .call (.scount _) | .call (.sreset _ _) | .tick | .resume => True
  | _ => False

/-- Init calls `screate(0)` and there is no memory: an identifier is lost. -/
theorem sids_lost : ¬ ∀ k : Kernel, Reach (fun _ e => SemaphoreCall e) k → Partition k := by
  intro claim
  obtain ⟨k,reach,libres,running,mode,cour⟩ := reach_init
  have divided : Divided k := reach_divided (reach Affords (fun _ => trivial) (fun _ => trivial))
  have filled : k.sidLibres ≠ [] := fun none => by
    have member := (mem_semInit 0).mpr (by decide)
    rw [← libres,none] at member
    exact List.not_mem_nil member
  have denied : ¬ Affords k (.call (.screate 0 false)) := fun affords =>
    absurd (affords (by decide) filled) (by decide)
  have stepped : step k (.call (.screate 0 false)) = some (screate k 0 false) := by
    simp [step,running,mode,cour,handle]
  refine (screate_loses divided denied).2.2 (claim _ ?_)
  exact .next (e := .call (.screate 0 false)) (reach _ (fun _ => trivial) (fun _ => trivial)) trivial stepped

/-- In such a run the condition is exact: a step meets it if and only if the
    identifiers are divided after it. -/
theorem affords_iff {k k' : Kernel} (reached : Reach Affords k) {e : Event} (stepped : step k e = some k') :
    Affords k e ↔ Partition k' := by
  have divided := reach_divided reached
  refine ⟨fun affords => (step_divided divided affords stepped).exact,fun exact => ?_⟩
  by_contra denied
  cases e with
  | call c =>
    cases c with
    | screate compteur memory =>
      obtain ⟨_,_,rfl⟩ := step_called stepped
      exact (screate_loses divided denied).2.2 exact
    | _ => exact denied trivial
  | _ => exact denied trivial

end Psys.Identifiers
