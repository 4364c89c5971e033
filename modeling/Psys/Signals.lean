import Mathlib.Logic.Function.Basic
import Psys.Runs
import Psys.State

/-!
`signals.c`: handlers, pending signals, and their delivery at context switches.
The part of the process descriptors that it uses is a machine of its own, in
which the scheduler may switch to any process at any time. History variables
record what happened to each process.
-/
namespace Psys.Signals
open Psys.State (InTab ulong)
open Psys.Runs (run reach_of_run)

def NBSIG : Int := 32
def STACK_SIZE : Nat := 1000000
/-- The size of the kernel stack that `context_create_user` allocates. -/
def KERNEL_STACK_SIZE : Nat := 40000
/-- `nb_elem` in `trt_sigs` and `sig_return`. -/
def nbElem : Nat := STACK_SIZE / 4

/-- The words of a frame that a descriptor keeps while a signal is treated. -/
structure Saved where
  edi : Nat
  esi : Nat
  ebp : Nat
  edx : Nat
  ecx : Nat
  ebx : Nat
  eax : Nat
  exEbp : Nat
  adIret : Nat
  adProc : Nat
  cs : Nat
  eflags : Nat
  esp : Nat
  ss : Nat

/-- History of a process. -/
inductive Note where
  | action (signalid : Int) (adTrt : Nat)
  | sent (signalid : Int)
  | delivered (signalid : Int)
  | returned
  deriving DecidableEq

/-- The part of a process descriptor that `signals.c` uses. -/
structure SigContext where
  valide : Bool
  /-- The words from `kernel_stack` on. -/
  kernelStack : Nat → Nat
  espUser : Nat
  sigmap : Int → Nat
  /-- The list, newest signal first; none for a pointer to anything else. -/
  sigs : Option (List Int)
  saved : Saved
  curSig : Bool
  /-- History, newest first. -/
  log : List Note

structure Machine where
  tabProc : Int → SigContext
  pidCour : Int
  /-- A failed assertion, or a list that is none. -/
  halted : Bool
  /-- Words of user memory. -/
  mem : Nat → Nat
  adSigDefault : Nat
  adSigReturn : Nat

/-- A write to the fields of `tab_proc[pid-1]`. A write outside the array is lost. -/
@[simps]
def Machine.setProc (m : Machine) (pid : Int) (f : SigContext → SigContext) : Machine :=
  { m with tabProc := fun q => if q = pid ∧ InTab pid then f (m.tabProc q) else m.tabProc q }

/-- The model stops, where the page fault of `panic` ends the current process. -/
@[simps]
def Machine.panic (m : Machine) : Machine := { m with halted := true }

/-- `sigmap[i] = adTrt`. The word behind the array is `sigs`. -/
def SigContext.setHandler (c : SigContext) (i : Int) (adTrt : Nat) : SigContext :=
  if i = NBSIG then { c with sigs := none } else { c with sigmap := Function.update c.sigmap i adTrt }

/-- `assert(signalid>=1 && signalid<=NBSIG)` -/
def IsSignal (signalid : Int) : Prop := 1 ≤ signalid ∧ signalid ≤ NBSIG
instance (signalid : Int) : Decidable (IsSignal signalid) := inferInstanceAs (Decidable (_ ∧ _))

/-- `sigaction` -/
def sigaction (m : Machine) (signalid : Int) (adTrt : Nat) : Machine :=
  if ¬ IsSignal signalid then m.panic
  else m.setProc m.pidCour (fun c => { c.setHandler signalid adTrt with log := .action signalid adTrt :: c.log })

/-- `signal_send`; `memory` tells whether `list_put_first` finds memory. If not,
    it faults before it changes the list, and the fault ends the sender. -/
def signalSend (m : Machine) (pid signalid : Int) (memory : Bool) : Machine :=
  if (m.tabProc pid).valide = false then m.panic
  else if ¬ IsSignal signalid then m.panic
  else
    match (m.tabProc pid).sigs with
    | none => m.panic
    | some sigs =>
      if memory = false then m
      else m.setProc pid (fun c => { c with sigs := some (signalid :: sigs), log := .sent signalid :: c.log })

/-- What `trt_sigs` reads from the frame. -/
def save (stack : Nat → Nat) : Saved where
  edi := stack (nbElem - 14)
  esi := stack (nbElem - 13)
  ebp := stack (nbElem - 12)
  edx := stack (nbElem - 11)
  ecx := stack (nbElem - 10)
  ebx := stack (nbElem - 9)
  eax := stack (nbElem - 7)
  exEbp := stack (nbElem - 7)
  adIret := stack (nbElem - 6)
  adProc := stack (nbElem - 5)
  cs := stack (nbElem - 4)
  eflags := stack (nbElem - 3)
  esp := stack (nbElem - 2)
  ss := stack (nbElem - 1)

/-- What `sig_return` writes back, in its order. -/
def restore (saved : Saved) (stack : Nat → Nat) : Nat → Nat :=
  let stack := Function.update stack (nbElem - 14) saved.edi
  let stack := Function.update stack (nbElem - 13) saved.esi
  let stack := Function.update stack (nbElem - 12) saved.ebp
  let stack := Function.update stack (nbElem - 11) saved.edx
  let stack := Function.update stack (nbElem - 10) saved.ecx
  let stack := Function.update stack (nbElem - 9) saved.ebx
  let stack := Function.update stack (nbElem - 7) saved.eax
  let stack := Function.update stack (nbElem - 7) saved.exEbp
  let stack := Function.update stack (nbElem - 6) saved.adIret
  let stack := Function.update stack (nbElem - 5) saved.adProc
  let stack := Function.update stack (nbElem - 4) saved.cs
  let stack := Function.update stack (nbElem - 3) saved.eflags
  let stack := Function.update stack (nbElem - 2) saved.esp
  Function.update stack (nbElem - 1) saved.ss

/-- The delivery of `signalid`, which leaves the signals `sigs` pending. -/
def SigContext.deliver (c : SigContext) (adSigDefault : Nat) (signalid : Int) (sigs : List Int) : SigContext :=
  let espUser := ulong (c.espUser + 4294967292)
  { c with
    curSig := true
    saved := save c.kernelStack
    sigs := some sigs
    kernelStack := Function.update (Function.update c.kernelStack (nbElem - 5) (c.sigmap (signalid - 1))) (nbElem - 2) espUser
    espUser := espUser
    sigmap := Function.update c.sigmap (signalid - 1) adSigDefault
    log := .delivered signalid :: c.log }

/-- `trt_sigs` -/
def trtSigs (m : Machine) : Machine :=
  if m.pidCour = 0 then m
  else
    match (m.tabProc m.pidCour).sigs with
    | none => m.panic
    | some sigs =>
      match sigs.getLast?,(m.tabProc m.pidCour).curSig with
      | some signalid,false =>
        let m := m.setProc m.pidCour (fun c => c.deliver m.adSigDefault signalid sigs.dropLast)
        { m with mem := Function.update m.mem (m.tabProc m.pidCour).espUser m.adSigReturn }
      | _,_ => m

/-- `sig_return`, up to its call of `scheduler`. -/
def sigReturn (m : Machine) : Machine :=
  m.setProc m.pidCour (fun c =>
    { c with curSig := false, kernelStack := restore c.saved c.kernelStack, log := .returned :: c.log })

/-- `context_create_user` for a descriptor; `memory` tells whether `list_new`
    finds memory for `sigs`. -/
def contextCreateUser (m : Machine) (pid : Int) (kernelStack : Nat → Nat) (espUser : Nat) (memory : Bool) : Machine :=
  m.setProc pid (fun c => { c with
    kernelStack := kernelStack
    espUser := espUser
    sigmap := fun j => if 0 ≤ j ∧ j < NBSIG then m.adSigDefault else c.sigmap j
    sigs := if memory then some [] else none
    curSig := false
    valide := true
    log := [] })

/-- `context_switch` to a process, or to the idle loop. -/
def contextSwitch (m : Machine) (pid : Int) : Machine := trtSigs { m with pidCour := pid }

/-- `garbage_collector` frees a descriptor. -/
def collect (m : Machine) (pid : Int) : Machine := m.setProc pid (fun c => { c with valide := false })

inductive Event where
  | create (pid : Int) (kernelStack : Nat → Nat) (espUser : Nat) (memory : Bool)
  | collect (pid : Int)
  | switch (pid : Int)
  | sigaction (signalid : Int) (adTrt : Nat)
  | signalSend (pid signalid : Int) (memory : Bool)
  | sigReturn

/-- One step, when the machine can take it. -/
def step (m : Machine) : Event → Option Machine
  | .create pid kernelStack espUser memory =>
    if m.halted ∨ (m.tabProc pid).valide then none else some (contextCreateUser m pid kernelStack espUser memory)
  | .collect pid => if m.halted then none else some (collect m pid)
  | .switch pid =>
    if m.halted ∨ ¬ (pid = 0 ∨ InTab pid ∧ (m.tabProc pid).valide) then none else some (contextSwitch m pid)
  | .sigaction signalid adTrt => if m.halted ∨ m.pidCour = 0 then none else some (sigaction m signalid adTrt)
  | .signalSend pid signalid memory =>
    if m.halted ∨ m.pidCour = 0 then none else some (signalSend m pid signalid memory)
  | .sigReturn => if m.halted ∨ m.pidCour = 0 then none else some (sigReturn m)

/-- The start: no process yet. -/
def Boot (m : Machine) : Prop := (∀ p, (m.tabProc p).valide = false) ∧ m.pidCour = 0 ∧ m.halted = false

/-- The states that the machine reaches. -/
abbrev Reach : Machine → Prop := Runs.Reach Boot step (fun _ _ => True)

/-- The words that are taken for the frame lie beyond the kernel stack, whose
    size is another one. -/
theorem frame_beyond : KERNEL_STACK_SIZE / 4 ≤ nbElem - 14 := by decide

/-! ### History -/

/-- The handler of the last call `sigaction(i, ·)` since the last delivery of `s`. -/
def lastAction (i s : Int) : List Note → Option Nat
  | [] => none
  | .action signalid adTrt :: log => if signalid = i then some adTrt else lastAction i s log
  | .delivered signalid :: log => if signalid = s then none else lastAction i s log
  | .sent _ :: log | .returned :: log => lastAction i s log

/-- The signals sent, oldest first. -/
def sentOf : List Note → List Int
  | [] => []
  | .sent signalid :: log => sentOf log ++ [signalid]
  | .action _ _ :: log | .delivered _ :: log | .returned :: log => sentOf log

/-- The signals delivered, oldest first. -/
def deliveredOf : List Note → List Int
  | [] => []
  | .delivered signalid :: log => deliveredOf log ++ [signalid]
  | .action _ _ :: log | .sent _ :: log | .returned :: log => deliveredOf log

/-- A delivery has no `sig_return` yet. -/
def serving : List Note → Bool
  | [] => false
  | .delivered _ :: _ => true
  | .returned :: _ => false
  | .action _ _ :: log | .sent _ :: log => serving log

/-- Between two deliveries there is a `sig_return`. -/
def Alone (log : List Note) : Prop :=
  ∀ after between before s s', log = after ++ .delivered s' :: (between ++ .delivered s :: before) → .returned ∈ between

/-- No delivery is being served, so that the last one has returned. -/
theorem returned_of_not_serving {after before : List Note} {s : Int}
    (idle : serving (after ++ .delivered s :: before) = false) : .returned ∈ after := by
  induction after with
  | nil => cases idle
  | cons note rest ih =>
    cases note with
    | returned => exact List.mem_cons_self
    | delivered s' => cases idle
    | action i h => exact List.mem_cons_of_mem _ (ih idle)
    | sent s' => exact List.mem_cons_of_mem _ (ih idle)

theorem Alone.nil : Alone [] := by
  intro after between before s s' form
  simp at form

/-- A note that delivers nothing. -/
theorem Alone.cons {log : List Note} (alone : Alone log) {note : Note} (other : ∀ s, note ≠ .delivered s) :
    Alone (note :: log) := by
  intro after between before s s' form
  cases after with
  | nil => exact absurd (List.cons_eq_cons.mp form).1 (other s')
  | cons first after => exact alone after between before s s' (List.cons_eq_cons.mp form).2

theorem Alone.deliver {log : List Note} (alone : Alone log) (idle : serving log = false) (signalid : Int) :
    Alone (.delivered signalid :: log) := by
  intro after between before s s' form
  cases after with
  | nil =>
    have same := (List.cons_eq_cons.mp form).2
    exact returned_of_not_serving (same ▸ idle)
  | cons first after => exact alone after between before s s' (List.cons_eq_cons.mp form).2

/-! ### What a step does to a process -/

/-- The changes of a live descriptor. -/
inductive Turn (adSigDefault : Nat) (c : SigContext) : SigContext → Prop
  | idle : Turn adSigDefault c c
  | action {i : Int} (adTrt : Nat) : IsSignal i →
      Turn adSigDefault c { c.setHandler i adTrt with log := .action i adTrt :: c.log }
  | sent {s : Int} {sigs : List Int} : IsSignal s → c.sigs = some sigs →
      Turn adSigDefault c { c with sigs := some (s :: sigs), log := .sent s :: c.log }
  | delivered {s : Int} {sigs : List Int} : c.sigs = some sigs → sigs.getLast? = some s → c.curSig = false →
      Turn adSigDefault c (c.deliver adSigDefault s sigs.dropLast)
  | returned (kernelStack : Nat → Nat) :
      Turn adSigDefault c { c with curSig := false, kernelStack := kernelStack, log := .returned :: c.log }

/-- A descriptor just after its creation. -/
structure Fresh (adSigDefault : Nat) (c : SigContext) : Prop where
  sigmap : ∀ j, 0 ≤ j → j < NBSIG → c.sigmap j = adSigDefault
  sigs : ∀ l, c.sigs = some l → l = []
  curSig : c.curSig = false
  log : c.log = []

theorem Turn.valide {d : Nat} {c c' : SigContext} (turn : Turn d c c') : c'.valide = c.valide := by
  cases turn with
  | @action i adTrt _ =>
    by_cases last : i = NBSIG
    · simp [SigContext.setHandler,last]
    · simp [SigContext.setHandler,last]
  | _ => rfl

variable {m m' : Machine}

/-- A write to one descriptor. -/
theorem setProc_turn {d : Nat} {pid : Int} {f : SigContext → SigContext} (turn : Turn d (m.tabProc pid) (f (m.tabProc pid)))
    (p : Int) : Turn d (m.tabProc p) ((m.setProc pid f).tabProc p) := by
  simp only [Machine.setProc_tabProc]
  split
  · rename_i here
    obtain ⟨rfl,-⟩ := here
    exact turn
  · exact .idle

theorem sigaction_turn (m : Machine) (signalid : Int) (adTrt : Nat) (p : Int) :
    Turn m.adSigDefault (m.tabProc p) ((sigaction m signalid adTrt).tabProc p) := by
  by_cases range : IsSignal signalid
  · rw [sigaction,if_neg (not_not.mpr range)]
    exact setProc_turn (.action adTrt range) p
  · rw [sigaction,if_pos range]
    exact .idle

theorem signalSend_turn (m : Machine) (pid signalid : Int) (memory : Bool) (p : Int) :
    Turn m.adSigDefault (m.tabProc p) ((signalSend m pid signalid memory).tabProc p) := by
  unfold signalSend
  split
  · exact .idle
  split
  · exact .idle
  rename_i range
  split
  · exact .idle
  · rename_i sigs list
    split
    · exact .idle
    · exact setProc_turn (.sent (not_not.mp range) list) p

theorem trtSigs_turn (m : Machine) (p : Int) :
    Turn m.adSigDefault (m.tabProc p) ((trtSigs m).tabProc p) := by
  unfold trtSigs
  split
  · exact .idle
  split
  · exact .idle
  · rename_i sigs list
    split
    · rename_i signalid last idle
      exact setProc_turn (m := m) (f := fun c => c.deliver m.adSigDefault signalid sigs.dropLast) (.delivered list last idle) p
    · exact .idle

/-- A created descriptor. -/
theorem contextCreateUser_fresh (m : Machine) {pid : Int} (inTab : InTab pid) (kernelStack : Nat → Nat) (espUser : Nat)
    (memory : Bool) : Fresh m.adSigDefault ((contextCreateUser m pid kernelStack espUser memory).tabProc pid) where
  sigmap j low high := by simp [contextCreateUser,inTab,low,high]
  sigs l list := by
    cases memory with
    | false => simp [contextCreateUser,inTab] at list
    | true => simpa [contextCreateUser,inTab] using list.symm
  curSig := by simp [contextCreateUser,inTab]
  log := by simp [contextCreateUser,inTab]

theorem step_adSigDefault {e : Event} (stepped : step m e = some m') : m'.adSigDefault = m.adSigDefault := by
  cases e with
  | create pid kernelStack espUser memory =>
    obtain ⟨-,⟨⟩⟩ := Option.ite_none_left_eq_some.mp stepped
    rfl
  | collect pid =>
    obtain ⟨-,⟨⟩⟩ := Option.ite_none_left_eq_some.mp stepped
    rfl
  | switch pid =>
    obtain ⟨-,⟨⟩⟩ := Option.ite_none_left_eq_some.mp stepped
    simp only [contextSwitch,trtSigs]
    split
    · rfl
    split
    · rfl
    split <;> rfl
  | sigaction signalid adTrt =>
    obtain ⟨-,⟨⟩⟩ := Option.ite_none_left_eq_some.mp stepped
    simp only [sigaction]
    split <;> rfl
  | signalSend pid signalid memory =>
    obtain ⟨-,⟨⟩⟩ := Option.ite_none_left_eq_some.mp stepped
    simp only [signalSend]
    split
    · rfl
    split
    · rfl
    split
    · rfl
    split <;> rfl
  | sigReturn =>
    obtain ⟨-,⟨⟩⟩ := Option.ite_none_left_eq_some.mp stepped
    rfl

/-- A live descriptor was live before the step and changed in one of these ways,
    or the step created it. -/
theorem step_turn {e : Event} (stepped : step m e = some m') {p : Int} (valid : (m'.tabProc p).valide = true) :
    (m.tabProc p).valide = true ∧ Turn m.adSigDefault (m.tabProc p) (m'.tabProc p) ∨
      (m.tabProc p).valide = false ∧ Fresh m.adSigDefault (m'.tabProc p) := by
  have live (turn : Turn m.adSigDefault (m.tabProc p) (m'.tabProc p)) :
      (m.tabProc p).valide = true ∧ Turn m.adSigDefault (m.tabProc p) (m'.tabProc p) ∨
        (m.tabProc p).valide = false ∧ Fresh m.adSigDefault (m'.tabProc p) := .inl ⟨turn.valide ▸ valid,turn⟩
  cases e with
  | create pid kernelStack espUser memory =>
    obtain ⟨enabled,⟨⟩⟩ := Option.ite_none_left_eq_some.mp stepped
    by_cases here : p = pid ∧ InTab pid
    · obtain ⟨rfl,inTab⟩ := here
      have free : (m.tabProc p).valide = false := Bool.eq_false_iff.mpr (not_or.mp enabled).2
      exact .inr ⟨free,contextCreateUser_fresh m inTab kernelStack espUser memory⟩
    · refine live ?_
      rw [contextCreateUser,Machine.setProc_tabProc,if_neg here]
      exact .idle
  | collect pid =>
    obtain ⟨-,⟨⟩⟩ := Option.ite_none_left_eq_some.mp stepped
    by_cases here : p = pid ∧ InTab pid
    · simp [collect,here] at valid
    · refine live ?_
      rw [collect,Machine.setProc_tabProc,if_neg here]
      exact .idle
  | switch pid =>
    obtain ⟨-,⟨⟩⟩ := Option.ite_none_left_eq_some.mp stepped
    exact live (trtSigs_turn { m with pidCour := pid } p)
  | sigaction signalid adTrt =>
    obtain ⟨-,⟨⟩⟩ := Option.ite_none_left_eq_some.mp stepped
    exact live (sigaction_turn m signalid adTrt p)
  | signalSend pid signalid memory =>
    obtain ⟨-,⟨⟩⟩ := Option.ite_none_left_eq_some.mp stepped
    exact live (signalSend_turn m pid signalid memory p)
  | sigReturn =>
    obtain ⟨-,⟨⟩⟩ := Option.ite_none_left_eq_some.mp stepped
    exact live (setProc_turn (.returned _) p)

/-! ### The invariant -/

/-- A descriptor agrees with its history. -/
structure Faithful (d : Nat) (c : SigContext) : Prop where
  handlers : ∀ j, 0 ≤ j → j < NBSIG → c.sigmap j = (lastAction j (j + 1) c.log).getD d
  order : ∀ l, c.sigs = some l → sentOf c.log = deliveredOf c.log ++ l.reverse
  signals : ∀ l, c.sigs = some l → ∀ s ∈ l, IsSignal s
  /-- The list gets lost through `sigaction` only. -/
  lost : c.sigs = none → sentOf c.log = [] ∧ deliveredOf c.log = [] ∨ ∃ h, .action NBSIG h ∈ c.log
  busy : c.curSig = serving c.log
  alone : Alone c.log

theorem Fresh.faithful {d : Nat} {c : SigContext} (fresh : Fresh d c) : Faithful d c where
  handlers j low high := by simp [fresh.sigmap j low high,fresh.log,lastAction]
  order l list := by simp [fresh.sigs l list,fresh.log,sentOf,deliveredOf]
  signals l list := by simp [fresh.sigs l list]
  lost _ := .inl ⟨fresh.log ▸ rfl,fresh.log ▸ rfl⟩
  busy := by rw [fresh.curSig,fresh.log]; rfl
  alone := fresh.log ▸ .nil

/-- `sigaction` of a signal that has an entry. -/
theorem setHandler_of_ne {c : SigContext} {i : Int} (other : i ≠ NBSIG) (h : Nat) :
    c.setHandler i h = { c with sigmap := Function.update c.sigmap i h } := if_neg other

theorem Faithful.action {d : Nat} {c : SigContext} (faithful : Faithful d c) (i : Int) (h : Nat) :
    Faithful d { c.setHandler i h with log := .action i h :: c.log } := by
  by_cases last : i = NBSIG
  · subst last
    exact {
      handlers := fun j low high => by
        have other : NBSIG ≠ j := by omega
        simpa [SigContext.setHandler,lastAction,other] using faithful.handlers j low high
      order := fun l list => by simp [SigContext.setHandler] at list
      signals := fun l list => by simp [SigContext.setHandler] at list
      lost := fun _ => .inr ⟨h,List.mem_cons_self⟩
      busy := faithful.busy
      alone := faithful.alone.cons (by simp) }
  · rw [setHandler_of_ne last]
    exact {
      handlers := fun j low high => by
        by_cases same : i = j
        · subst same
          simp [lastAction]
        · simpa [lastAction,same,Function.update_of_ne (Ne.symm same)] using faithful.handlers j low high
      order := faithful.order
      signals := faithful.signals
      lost := fun gone => (faithful.lost gone).imp_right (fun ⟨h',noted⟩ => ⟨h',List.mem_cons_of_mem _ noted⟩)
      busy := faithful.busy
      alone := faithful.alone.cons (by simp) }

theorem Faithful.sent {d : Nat} {c : SigContext} (faithful : Faithful d c) {s : Int} {sigs : List Int}
    (signal : IsSignal s) (list : c.sigs = some sigs) :
    Faithful d { c with sigs := some (s :: sigs), log := .sent s :: c.log } where
  handlers := faithful.handlers
  order l same := by
    cases same
    simp [sentOf,deliveredOf,faithful.order sigs list]
  signals l same := by
    cases same
    exact List.forall_mem_cons.mpr ⟨signal,faithful.signals sigs list⟩
  lost impossible := by cases impossible
  busy := faithful.busy
  alone := faithful.alone.cons (by simp)

theorem Faithful.delivered {d : Nat} {c : SigContext} (faithful : Faithful d c) {s : Int} {sigs : List Int}
    (list : c.sigs = some sigs) (last : sigs.getLast? = some s) (idle : c.curSig = false) :
    Faithful d (c.deliver d s sigs.dropLast) := by
  have form : sigs.dropLast ++ [s] = sigs := List.dropLast_append_getLast? s last
  exact {
    handlers := fun j low high => by
      by_cases same : j = s - 1
      · subst same
        simp [SigContext.deliver,lastAction]
      · have other : s ≠ j + 1 := by omega
        simpa [SigContext.deliver,lastAction,other,Function.update_of_ne same] using faithful.handlers j low high
    order := fun l same => by
      cases same
      have before := faithful.order sigs list
      rw [← form,List.reverse_append] at before
      simpa [SigContext.deliver,sentOf,deliveredOf] using before
    signals := fun l same => by
      cases same
      exact fun t member => faithful.signals sigs list t (List.dropLast_subset _ member)
    lost := fun impossible => by cases impossible
    busy := rfl
    alone := faithful.alone.deliver (faithful.busy ▸ idle) s }

theorem Turn.faithful {d : Nat} {c c' : SigContext} (turn : Turn d c c') (faithful : Faithful d c) : Faithful d c' := by
  cases turn with
  | idle => exact faithful
  | action adTrt _ => exact faithful.action _ adTrt
  | sent signal list => exact faithful.sent signal list
  | delivered list last idle => exact faithful.delivered list last idle
  | returned kernelStack =>
    exact {
      handlers := faithful.handlers
      order := faithful.order
      signals := faithful.signals
      lost := fun gone => (faithful.lost gone).imp_right (fun ⟨h,noted⟩ => ⟨h,List.mem_cons_of_mem _ noted⟩)
      busy := rfl
      alone := faithful.alone.cons (by simp) }

/-- In every run the descriptors of live processes agree with their histories. -/
theorem reach_faithful (reached : Reach m) {p : Int} (valid : (m.tabProc p).valide = true) :
    Faithful m.adSigDefault (m.tabProc p) := by
  have all : ∀ p, (m.tabProc p).valide = true → Faithful m.adSigDefault (m.tabProc p) := by
    refine Runs.Reach.invariant (P := fun m => ∀ p, (m.tabProc p).valide = true → Faithful m.adSigDefault (m.tabProc p))
      ?_ ?_ reached
    · intro m boot p valid
      simp [boot.1 p] at valid
    · intro m e m' faithful _ stepped p valid
      rw [step_adSigDefault stepped]
      rcases step_turn stepped valid with ⟨before,turn⟩ | ⟨-,fresh⟩
      · exact turn.faithful (faithful p before)
      · exact fresh.faithful
  exact all p valid

/-! ### Deliveries -/

/-- The signal that a step delivers. -/
def delivery (m : Machine) : Event → Option Int
  | .switch pid => if pid = 0 ∨ (m.tabProc pid).curSig then none else (m.tabProc pid).sigs.bind List.getLast?
  | _ => none

/-- The indices of `sigmap` that a step uses. -/
def indices (m : Machine) (e : Event) : List Int :=
  match e with
  | .create _ _ _ _ => (List.range 32).map Int.ofNat
  | .sigaction signalid _ => if IsSignal signalid then [signalid] else []
  | .switch _ => (delivery m e).toList.map (fun signalid => signalid - 1)
  | .collect _ | .signalSend _ _ _ | .sigReturn => []

/-- A process that a switch can be made to. -/
theorem process_of_switch {p : Int} (stepped : step m (.switch p) = some m') (user : p ≠ 0) :
    InTab p ∧ (m.tabProc p).valide = true := by
  obtain ⟨enabled,-⟩ := Option.ite_none_left_eq_some.mp stepped
  rcases not_not.mp (not_or.mp enabled).2 with idle | process
  · exact absurd idle user
  · exact process

theorem switch_delivers {p s : Int} (stepped : step m (.switch p) = some m') (delivers : delivery m (.switch p) = some s) :
    ∃ sigs, (m.tabProc p).sigs = some sigs ∧ sigs.getLast? = some s ∧ (m.tabProc p).curSig = false ∧
      m'.tabProc p = (m.tabProc p).deliver m.adSigDefault s sigs.dropLast := by
  obtain ⟨open',found⟩ := Option.ite_none_left_eq_some.mp delivers
  obtain ⟨user,idle⟩ := not_or.mp open'
  rw [Bool.not_eq_true] at idle
  obtain ⟨sigs,list,last⟩ := Option.bind_eq_some_iff.mp found
  have process := process_of_switch stepped user
  obtain ⟨-,⟨⟩⟩ := Option.ite_none_left_eq_some.mp stepped
  refine ⟨sigs,list,last,idle,?_⟩
  simp [contextSwitch,trtSigs,user,list,last,idle,process.1]

/-- A switch that delivers nothing leaves every descriptor as it was. -/
theorem switch_quiet {p : Int} (stepped : step m (.switch p) = some m') (quiet : delivery m (.switch p) = none) :
    m'.tabProc = m.tabProc := by
  obtain ⟨-,⟨⟩⟩ := Option.ite_none_left_eq_some.mp stepped
  unfold contextSwitch trtSigs
  split
  · rfl
  rename_i user
  split
  · rfl
  rename_i sigs list
  split
  · rename_i s last idle
    dsimp only at user list idle
    simp [delivery,user,list,last,idle] at quiet
  · rfl

/-- The handler in the frame comes from the entry before that of `sigaction`. -/
theorem deliver_handler (c : SigContext) (d : Nat) (s : Int) (sigs : List Int) :
    (c.deliver d s sigs).kernelStack (nbElem - 5) = c.sigmap (s - 1) := by
  have apart : nbElem - 5 ≠ nbElem - 2 := by decide
  simp [SigContext.deliver,Function.update_of_ne apart]

/-- What the code of `trt_sigs` does to a descriptor for the signal `s`. -/
structure Delivers (c c' : SigContext) (s : Int) : Prop where
  oldest : ∃ sigs, c.sigs = some sigs ∧ sigs.getLast? = some s ∧ c'.sigs = some sigs.dropLast
  curSig : c.curSig = false ∧ c'.curSig = true
  saved : c'.saved = save c.kernelStack
  frame : c'.kernelStack (nbElem - 5) = c.sigmap (s - 1) ∧ c'.kernelStack (nbElem - 2) = c'.espUser

theorem deliver_delivers {c : SigContext} {s : Int} {sigs : List Int} (list : c.sigs = some sigs)
    (last : sigs.getLast? = some s) (idle : c.curSig = false) (d : Nat) : Delivers c (c.deliver d s sigs.dropLast) s where
  oldest := ⟨sigs,list,last,rfl⟩
  curSig := ⟨idle,rfl⟩
  saved := rfl
  frame := ⟨deliver_handler c d s _,by simp [SigContext.deliver]⟩

/-- The history of a live process says that a signal is delivered exactly when the
    code delivers it. -/
theorem step_delivered {e : Event} (stepped : step m e = some m') {p : Int} (valid : (m.tabProc p).valide = true)
    (valid' : (m'.tabProc p).valide = true) (s : Int) :
    (m'.tabProc p).log = .delivered s :: (m.tabProc p).log ↔ Delivers (m.tabProc p) (m'.tabProc p) s := by
  obtain ⟨-,turn⟩ := (step_turn stepped valid').resolve_right (fun new => by simp [valid] at new)
  generalize m'.tabProc p = c' at turn ⊢
  generalize m.tabProc p = c at turn ⊢
  have quiet {c' : SigContext} (same : c'.curSig = c.curSig) : ¬ Delivers c c' s := fun delivers => by
    simp [delivers.curSig] at same
  cases turn with
  | idle => exact iff_of_false (by simp) (quiet rfl)
  | @action i adTrt _ =>
    refine iff_of_false (by simp) (quiet ?_)
    by_cases last : i = NBSIG
    · simp [SigContext.setHandler,last]
    · simp [SigContext.setHandler,last]
  | sent => exact iff_of_false (by simp) (quiet rfl)
  | @delivered s' sigs list last idle =>
    constructor
    · intro told
      obtain rfl : s' = s := by simpa [SigContext.deliver] using told
      exact deliver_delivers list last idle m.adSigDefault
    · intro delivers
      obtain ⟨sigs',list',last',-⟩ := delivers.oldest
      obtain rfl : sigs = sigs' := Option.some.inj (list.symm.trans list')
      obtain rfl : s' = s := Option.some.inj (last.symm.trans last')
      rfl
  | returned => exact iff_of_false (by simp) (fun delivers => absurd delivers.curSig.2 (by simp))

/-- What is asked of a step: indices within `sigmap`, the handler that was asked
    for, and no other handler changed. -/
structure Right (m : Machine) (e : Event) (m' : Machine) : Prop where
  within : ∀ i ∈ indices m e, 0 ≤ i ∧ i < NBSIG
  handler : ∀ p s, e = .switch p → delivery m e = some s →
    (m'.tabProc p).kernelStack (nbElem - 5) = (lastAction s s (m.tabProc p).log).getD m.adSigDefault
  others : ∀ p s t, e = .switch p → delivery m e = some s → IsSignal t → t ≠ s →
    (m'.tabProc p).sigmap (t - 1) = (m.tabProc p).sigmap (t - 1)

/-- The steps on which the two conventions agree: the last signal gets no
    handler, and since the last delivery of `s` the processes asked for the same
    handler for `s` and for the signal before it, or for none. -/
def Agrees (m : Machine) : Event → Prop
  | .sigaction signalid _ => signalid ≠ NBSIG
  | .switch p => ∀ s, delivery m (.switch p) = some s →
    (lastAction (s - 1) s (m.tabProc p).log).getD m.adSigDefault = (lastAction s s (m.tabProc p).log).getD m.adSigDefault
  | .create _ _ _ _ | .collect _ | .signalSend _ _ _ | .sigReturn => True

/-- The signals that are delivered have an entry before theirs. -/
theorem delivery_entry (reached : Reach m) {p s : Int} (stepped : step m (.switch p) = some m')
    (delivers : delivery m (.switch p) = some s) :
    IsSignal s ∧ (m.tabProc p).sigmap (s - 1) = (lastAction (s - 1) s (m.tabProc p).log).getD m.adSigDefault := by
  obtain ⟨sigs,list,last,-,-⟩ := switch_delivers stepped delivers
  obtain ⟨open',-⟩ := Option.ite_none_left_eq_some.mp delivers
  have faithful := reach_faithful reached (process_of_switch stepped (not_or.mp open').1).2
  have signal : IsSignal s := faithful.signals sigs list s (List.mem_of_getLast? last)
  have handler := faithful.handlers (s - 1) (by have := signal.1; omega) (by have := signal.2; omega)
  rw [Int.sub_add_cancel] at handler
  exact ⟨signal,handler⟩

/-- A step of a run is right exactly when the conventions of `sigaction` and of
    `trt_sigs` agree on it. -/
theorem right_iff_agrees (reached : Reach m) {e : Event} (stepped : step m e = some m') : Right m e m' ↔ Agrees m e := by
  cases e with
  | create pid kernelStack espUser memory =>
    refine ⟨fun _ => trivial,fun _ => ⟨?_,by simp,by simp⟩⟩
    intro i used
    obtain ⟨j,member,rfl⟩ := List.mem_map.mp used
    have below := List.mem_range.mp member
    simp only [NBSIG,Int.ofNat_eq_natCast]
    omega
  | collect pid => exact ⟨fun _ => trivial,fun _ => ⟨by simp [indices],by simp,by simp⟩⟩
  | signalSend pid signalid memory => exact ⟨fun _ => trivial,fun _ => ⟨by simp [indices],by simp,by simp⟩⟩
  | sigReturn => exact ⟨fun _ => trivial,fun _ => ⟨by simp [indices],by simp,by simp⟩⟩
  | sigaction signalid adTrt =>
    constructor
    · intro right last
      have signal : IsSignal signalid := last ▸ by decide
      have below := (right.within signalid (by simp [indices,signal])).2
      omega
    · intro other
      refine ⟨?_,by simp,by simp⟩
      intro i used
      by_cases signal : IsSignal signalid
      · simp only [indices,signal,if_true,List.mem_singleton] at used
        obtain ⟨low,high⟩ := signal
        have apart : signalid ≠ NBSIG := other
        omega
      · simp [indices,signal] at used
  | switch p =>
    constructor
    · intro right s delivers
      obtain ⟨sigs,-,-,-,after⟩ := switch_delivers stepped delivers
      rw [← (delivery_entry reached stepped delivers).2,← right.handler p s rfl delivers,after,deliver_handler]
    · intro agrees
      refine ⟨?_,?_,?_⟩
      · intro i used
        simp only [indices,List.mem_map,Option.mem_toList] at used
        obtain ⟨s,delivers,rfl⟩ := used
        have signal := (delivery_entry reached stepped delivers).1
        unfold IsSignal at signal
        omega
      · rintro _ s ⟨⟩ delivers
        obtain ⟨sigs,-,-,-,after⟩ := switch_delivers stepped delivers
        rw [← agrees s delivers,← (delivery_entry reached stepped delivers).2,after,deliver_handler]
      · rintro _ s t ⟨⟩ delivers signal other
        obtain ⟨sigs,-,-,-,after⟩ := switch_delivers stepped delivers
        have apart : t - 1 ≠ s - 1 := by omega
        simp [after,SigContext.deliver,Function.update_of_ne apart]

/-- A start, with the code of the default handler in user space. -/
def zeroed : Machine where
  tabProc _ := ⟨false,fun _ => 0,0,fun _ => 0,none,save (fun _ => 0),false,[]⟩
  pidCour := 0
  halted := false
  mem _ := 0
  adSigDefault := 0x2ff0000
  adSigReturn := 0x2ff0010

theorem zeroed_boot : Boot zeroed := ⟨fun _ => rfl,rfl,rfl⟩

theorem right_iff_agrees_default : ∃ m m' : Machine, Reach m ∧ step m (.switch 1) = some m' ∧
    delivery m (.switch 1) = some 5 ∧ Right m (.switch 1) m' := by
  let events : List Event := [.create 1 (fun _ => 0) 0x2100000 true,.switch 1,.signalSend 1 5 true,.switch 0]
  have seen : (run step zeroed events).map (fun m => ((step m (.switch 1)).isSome,delivery m (.switch 1),
      lastAction 4 5 (m.tabProc 1).log,lastAction 5 5 (m.tabProc 1).log)) = some (true,some 5,none,none) := by decide
  obtain ⟨m,ran,facts⟩ := Option.map_eq_some_iff.mp seen
  simp only [Prod.mk.injEq] at facts
  obtain ⟨enabled,delivers,before,same⟩ := facts
  obtain ⟨m',stepped⟩ := Option.isSome_iff_exists.mp enabled
  have reached : Reach m := reach_of_run events (fun _ _ _ => trivial) zeroed_boot ran
  have agrees : Agrees m (.switch 1) := by
    intro s delivered
    obtain rfl : 5 = s := Option.some.inj (delivers.symm.trans delivered)
    exact congrArg (fun h => Option.getD h m.adSigDefault) (before.trans same.symm)
  exact ⟨m,m',reached,stepped,delivers,(right_iff_agrees reached stepped).mpr agrees⟩

/-- The handler of signal 5 is not the one that gets called. -/
theorem handler_missed : ¬ ∀ (m m' : Machine) (e : Event), Reach m → step m e = some m' → Right m e m' := by
  intro all
  let events : List Event := [.create 1 (fun _ => 0) 0x2100000 true,.switch 1,.sigaction 5 0x1000040,
    .signalSend 1 5 true,.switch 0]
  have seen : (run step zeroed events).map (fun m => (delivery m (.switch 1),
      lastAction 5 5 (m.tabProc 1).log,(step m (.switch 1)).map (fun m' => (m'.tabProc 1).kernelStack (nbElem - 5)))) =
      some (some 5,some 0x1000040,some 0x2ff0000) := by decide
  obtain ⟨m,ran,facts⟩ := Option.map_eq_some_iff.mp seen
  simp only [Prod.mk.injEq] at facts
  obtain ⟨delivers,asked,placed⟩ := facts
  obtain ⟨m',stepped,frame⟩ := Option.map_eq_some_iff.mp placed
  have reached : Reach m := reach_of_run events (fun _ _ _ => trivial) zeroed_boot ran
  have handler := (all m m' (.switch 1) reached stepped).handler 1 5 rfl delivers
  rw [asked,frame] at handler
  exact absurd handler (by simp)

/-! ### The order of deliveries -/

/-- The signals in the list, newest first. -/
def SigContext.pending (c : SigContext) : List Int := c.sigs.getD []

/-- The list was not overwritten by a `sigaction` of the last signal. -/
def SigContext.Whole (c : SigContext) : Prop := ∀ h, .action NBSIG h ∉ c.log

/-- Signals are delivered in the order in which they were sent, each of them
    once, and one at a time. -/
structure Served (m : Machine) (p : Int) : Prop where
  order : sentOf (m.tabProc p).log = deliveredOf (m.tabProc p).log ++ (m.tabProc p).pending.reverse
  alone : Alone (m.tabProc p).log
  /-- A switch to a process that treats no signal delivers the oldest one. -/
  oldest : serving (m.tabProc p).log = false → ∀ s, (m.tabProc p).pending.getLast? = some s →
    ∀ m', step m (.switch p) = some m' → deliveredOf (m'.tabProc p).log = deliveredOf (m.tabProc p).log ++ [s] ∧
      (m'.tabProc p).pending = (m.tabProc p).pending.dropLast
  /-- While a signal is treated the others stay pending. -/
  waits : serving (m.tabProc p).log = true → ∀ e m', step m e = some m' → (m'.tabProc p).valide = true →
    (m'.tabProc p).Whole → deliveredOf (m'.tabProc p).log = deliveredOf (m.tabProc p).log ∧
      ∃ sent, (m'.tabProc p).pending = sent ++ (m.tabProc p).pending

/-- A change of a descriptor that is treating a signal. -/
theorem Turn.waits {d : Nat} {c c' : SigContext} (turn : Turn d c c') (busy : c.curSig = true) (whole : c'.Whole) :
    deliveredOf c'.log = deliveredOf c.log ∧ ∃ sent, c'.pending = sent ++ c.pending := by
  cases turn with
  | idle => exact ⟨rfl,[],rfl⟩
  | @action i adTrt signal =>
    have other : i ≠ NBSIG := fun last => whole adTrt (last ▸ List.mem_cons_self)
    rw [setHandler_of_ne other]
    exact ⟨rfl,[],rfl⟩
  | @sent s sigs _ list => exact ⟨rfl,[s],by simp [SigContext.pending,list]⟩
  | delivered _ _ idle => simp [idle] at busy
  | returned kernelStack => exact ⟨rfl,[],rfl⟩

/-- Pending signals are signals sent and not delivered. -/
theorem Faithful.pending {d : Nat} {c : SigContext} (faithful : Faithful d c) (whole : c.Whole) :
    sentOf c.log = deliveredOf c.log ++ c.pending.reverse := by
  unfold SigContext.pending
  cases list : c.sigs with
  | some sigs => exact faithful.order sigs list
  | none =>
    rcases faithful.lost list with ⟨sent,delivered⟩ | ⟨h,noted⟩
    · simp [sent,delivered]
    · exact absurd noted (whole h)

end Psys.Signals
