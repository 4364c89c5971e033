import Psys.Signals

/-!
The frame that `trt_sigs` changes and `sig_return` puts back, word by word: which
words of the kernel stack they access, and what a process finds after any number
of deliveries.
-/
namespace Psys.SignalFrames
open Psys.State (InTab ulong)
open Psys.Signals (Saved SigContext nbElem KERNEL_STACK_SIZE save restore)

/-! ### Translation -/

/-- The words from `kernel_stack` on, and the indices accessed so far, newest
    first. -/
structure Stack where
  words : Nat → Nat
  accessed : List Nat

/-- `kernel_stack[i]` -/
def readWord (i : Nat) : StateM Stack Nat := fun s => (s.words i,{ s with accessed := i :: s.accessed })

/-- `kernel_stack[i] = w` -/
def writeWord (i w : Nat) : StateM Stack Unit := fun s =>
  ((),⟨Function.update s.words i w,i :: s.accessed⟩)

/-- The reads of `trt_sigs`. -/
def saveFrame : StateM Stack Saved := do
  let edi ← readWord (nbElem - 14)
  let esi ← readWord (nbElem - 13)
  let ebp ← readWord (nbElem - 12)
  let edx ← readWord (nbElem - 11)
  let ecx ← readWord (nbElem - 10)
  let ebx ← readWord (nbElem - 9)
  let eax ← readWord (nbElem - 7)
  let exEbp ← readWord (nbElem - 7)
  let adIret ← readWord (nbElem - 6)
  let adProc ← readWord (nbElem - 5)
  let cs ← readWord (nbElem - 4)
  let eflags ← readWord (nbElem - 3)
  let esp ← readWord (nbElem - 2)
  let ss ← readWord (nbElem - 1)
  return ⟨edi,esi,ebp,edx,ecx,ebx,eax,exEbp,adIret,adProc,cs,eflags,esp,ss⟩

/-- All that `trt_sigs` does to the kernel stack. -/
def redirect (trtSig espUser : Nat) : StateM Stack Saved := do
  let saved ← saveFrame
  writeWord (nbElem - 5) trtSig
  writeWord (nbElem - 2) espUser
  return saved

/-- The writes of `sig_return`. -/
def restoreFrame (saved : Saved) : StateM Stack Unit := do
  writeWord (nbElem - 14) saved.edi
  writeWord (nbElem - 13) saved.esi
  writeWord (nbElem - 12) saved.ebp
  writeWord (nbElem - 11) saved.edx
  writeWord (nbElem - 10) saved.ecx
  writeWord (nbElem - 9) saved.ebx
  writeWord (nbElem - 7) saved.eax
  writeWord (nbElem - 7) saved.exEbp
  writeWord (nbElem - 6) saved.adIret
  writeWord (nbElem - 5) saved.adProc
  writeWord (nbElem - 4) saved.cs
  writeWord (nbElem - 3) saved.eflags
  writeWord (nbElem - 2) saved.esp
  writeWord (nbElem - 1) saved.ss

/-- A process in whose kernel stack a function of `signals.c` has run. -/
structure Ran where
  context : SigContext
  accessed : List Nat

/-- `trt_sigs` for the current process, less its store to the user stack. -/
def trtSigs (adSigDefault : Nat) (c : SigContext) : Ran :=
  match c.sigs.bind List.getLast?,c.curSig with
  | some signalid,false =>
    let espUser := ulong (c.espUser + 4294967292)
    let (saved,stack) := redirect (c.sigmap (signalid - 1)) espUser ⟨c.kernelStack,[]⟩
    ⟨{ c with
      curSig := true
      saved := saved
      sigs := c.sigs.map List.dropLast
      kernelStack := stack.words
      espUser := espUser
      sigmap := Function.update c.sigmap (signalid - 1) adSigDefault
      log := .delivered signalid :: c.log },stack.accessed⟩
  | _,_ => ⟨c,[]⟩

/-- `sig_return` for the current process. -/
def sigReturn (c : SigContext) : Ran :=
  let stack := (restoreFrame c.saved ⟨c.kernelStack,[]⟩).2
  ⟨{ c with curSig := false, kernelStack := stack.words, log := .returned :: c.log },stack.accessed⟩

/-! ### The words of the frame -/

/-- The words that are saved, in order. One of them is saved twice. -/
def frame : List Nat := [14,13,12,11,10,9,7,7,6,5,4,3,2,1].map (nbElem - ·)

theorem redirect_run (trtSig espUser : Nat) (words : Nat → Nat) :
    redirect trtSig espUser ⟨words,[]⟩ =
      (save words,⟨Function.update (Function.update words (nbElem - 5) trtSig) (nbElem - 2) espUser,
        (frame ++ [nbElem - 5,nbElem - 2]).reverse⟩) := rfl

theorem restoreFrame_run (saved : Saved) (words : Nat → Nat) :
    (restoreFrame saved ⟨words,[]⟩).2 = ⟨restore saved words,frame.reverse⟩ := rfl

/-- What was saved is put back, whatever was on the stack. -/
theorem restore_save (before words : Nat → Nat) : ∀ i ∈ frame, restore (save before) words i = before i := by
  intro i member
  simp only [frame,List.map_cons,List.map_nil,List.mem_cons,List.not_mem_nil,or_false] at member
  rcases member with rfl | rfl | rfl | rfl | rfl | rfl | rfl | rfl | rfl | rfl | rfl | rfl | rfl | rfl <;> rfl

/-- No word of the frame is in the kernel stack. -/
theorem frame_outside : ∀ i ∈ frame, ¬ i < KERNEL_STACK_SIZE / 4 := by decide

/-! ### One delivery -/

variable {d : Nat} {c : SigContext} {pid : Int}

/-- A signal is pending, and none is being treated. -/
def Pending (c : SigContext) : Prop := (c.sigs.bind List.getLast?).isSome = true ∧ c.curSig = false
instance : DecidablePred Pending := fun _ => inferInstanceAs (Decidable (_ ∧ _))

theorem trtSigs_idle (idle : ¬ Pending c) : trtSigs d c = ⟨c,[]⟩ := by
  unfold trtSigs
  split
  · rename_i signalid pending free
    exact absurd ⟨by rw [pending]; rfl,free⟩ idle
  · rfl

/-- `trt_sigs` delivers as the machine of the signals does. -/
theorem trtSigs_deliver {sigs : List Int} {signalid : Int} (pending : c.sigs = some sigs)
    (oldest : sigs.getLast? = some signalid) (free : c.curSig = false) :
    trtSigs d c =
      ⟨c.deliver d signalid sigs.dropLast,(redirect (c.sigmap (signalid - 1)) (ulong (c.espUser + 4294967292))
        ⟨c.kernelStack,[]⟩).2.accessed⟩ := by
  unfold trtSigs
  simp only [pending,Option.bind_some,oldest,free,redirect_run,Option.map_some]
  rfl

theorem trtSigs_machine (m : Signals.Machine) (inTab : InTab m.pidCour) (known : (m.tabProc m.pidCour).sigs ≠ none) :
    (Signals.trtSigs m).tabProc m.pidCour = (trtSigs m.adSigDefault (m.tabProc m.pidCour)).context := by
  have current : m.pidCour ≠ 0 := by
    have low := inTab.1
    omega
  unfold Signals.trtSigs
  rw [if_neg current]
  rcases pending : (m.tabProc m.pidCour).sigs with _ | sigs
  · exact absurd pending known
  · cases oldest : sigs.getLast? with
    | none =>
      rw [trtSigs_idle (fun taken => by simp [Pending,pending,oldest] at taken)]
      simp only [oldest]
    | some signalid =>
      cases treated : (m.tabProc m.pidCour).curSig with
      | true =>
        rw [trtSigs_idle (fun taken => by simp [Pending,treated] at taken)]
        simp only [oldest]
      | false =>
        rw [trtSigs_deliver pending oldest treated]
        simp only [oldest,Signals.Machine.setProc_tabProc,inTab,and_self,↓reduceIte]

theorem sigReturn_machine (m : Signals.Machine) (inTab : InTab m.pidCour) :
    (Signals.sigReturn m).tabProc m.pidCour = (sigReturn (m.tabProc m.pidCour)).context := by
  unfold Signals.sigReturn
  rw [Signals.Machine.setProc_tabProc]
  simp only [inTab,and_self,↓reduceIte]
  rfl

/-! ### Any number of deliveries -/

/-- From one context switch to the process to the next one, with what other code
    has left in its descriptor: at the switch, and when the handler calls
    `sig_return`. -/
structure Round where
  stack : Nat → Nat
  sigs : List Int
  sigmap : Int → Nat
  handlerStack : Nat → Nat
  handlerSigs : List Int
  handlerSigmap : Int → Nat

/-- The process at the context switch. -/
def Round.enter (r : Round) (c : SigContext) : SigContext :=
  { c with kernelStack := r.stack, sigs := some r.sigs, sigmap := r.sigmap }

/-- The process is switched to. -/
def Round.delivery (r : Round) (d : Nat) (c : SigContext) : Ran := trtSigs d (r.enter c)

/-- The handler has run and calls `sig_return`. -/
def Round.back (r : Round) (d : Nat) (c : SigContext) : Ran :=
  sigReturn { (r.delivery d c).context with
    kernelStack := r.handlerStack, sigs := some r.handlerSigs, sigmap := r.handlerSigmap }

/-- A round, in which `sig_return` is only called when a signal was delivered. -/
def Round.next (r : Round) (d : Nat) (c : SigContext) : SigContext :=
  if Pending (r.enter c) then (r.back d c).context else r.enter c

/-- The process after some rounds. -/
def after (d : Nat) (rounds : List Round) (c : SigContext) : SigContext := rounds.foldl (fun c r => r.next d c) c

/-- The deliveries among them. -/
def deliveries (d : Nat) : List Round → SigContext → Nat
  | [], _ => 0
  | r :: rest, c => (if Pending (r.enter c) then 1 else 0) + deliveries d rest (r.next d c)

variable {r : Round} {rounds : List Round}

/-- The accesses of a delivery, and of `sig_return`, are those to the frame. -/
theorem delivery_accessed (pending : Pending (r.enter c)) (i : Nat) : i ∈ (r.delivery d c).accessed ↔ i ∈ frame := by
  obtain ⟨some',free⟩ := pending
  obtain ⟨signalid,oldest⟩ := Option.isSome_iff_exists.mp some'
  have twice : ∀ i ∈ [nbElem - 5,nbElem - 2], i ∈ frame := by decide
  unfold Round.delivery
  rw [trtSigs_deliver (show (r.enter c).sigs = some r.sigs from rfl) oldest free,redirect_run]
  simp only [List.mem_reverse,List.mem_append]
  exact ⟨fun member => member.elim id (twice i),.inl⟩

theorem back_accessed (r : Round) (d : Nat) (c : SigContext) (i : Nat) : i ∈ (r.back d c).accessed ↔ i ∈ frame := by
  show i ∈ (restoreFrame _ ⟨_,[]⟩).2.accessed ↔ i ∈ frame
  rw [restoreFrame_run]
  exact List.mem_reverse

/-- What a delivery leaves in the descriptor. -/
theorem delivery_context (pending : Pending (r.enter c)) :
    (r.delivery d c).context.saved = save r.stack ∧
      (r.delivery d c).context.espUser = ulong (c.espUser + 4294967292) := by
  obtain ⟨some',free⟩ := pending
  obtain ⟨signalid,oldest⟩ := Option.isSome_iff_exists.mp some'
  unfold Round.delivery
  rw [trtSigs_deliver (show (r.enter c).sigs = some r.sigs from rfl) oldest free]
  exact ⟨rfl,rfl⟩

/-- The words of the frame are back, and another signal can be delivered. -/
theorem back_restores (pending : Pending (r.enter c)) :
    (∀ i ∈ frame, (r.back d c).context.kernelStack i = (r.enter c).kernelStack i) ∧
      (r.back d c).context.curSig = (r.enter c).curSig := by
  have saved := (delivery_context (d := d) pending).1
  refine ⟨?_,pending.2.symm⟩
  intro i member
  show (restoreFrame (r.delivery d c).context.saved ⟨r.handlerStack,[]⟩).2.words i = r.stack i
  rw [restoreFrame_run,saved]
  exact restore_save r.stack r.handlerStack i member

/-- The user stack of the process is not. -/
theorem back_espUser (pending : Pending (r.enter c)) :
    (r.back d c).context.espUser = ulong (c.espUser + 4294967292) := (delivery_context (d := d) pending).2

/-- Each delivery moves `esp_user` down by a word, for good. -/
theorem after_espUser (d : Nat) (rounds : List Round) (c : SigContext) :
    ((after d rounds c).espUser + 4 * deliveries d rounds c) % 4294967296 = c.espUser % 4294967296 := by
  induction rounds generalizing c with
  | nil => rfl
  | cons r rest ih =>
    have moved := ih (r.next d c)
    show ((after d rest (r.next d c)).espUser + 4 * ((if Pending (r.enter c) then 1 else 0) + deliveries d rest (r.next d c))) %
      4294967296 = _
    by_cases pending : Pending (r.enter c)
    · have down : (r.next d c).espUser = ulong (c.espUser + 4294967292) := by
        unfold Round.next
        rw [if_pos pending,back_espUser pending]
      rw [down] at moved
      rw [if_pos pending]
      unfold ulong at moved
      omega
    · have still : (r.next d c).espUser = c.espUser := by
        unfold Round.next
        rw [if_neg pending]
        rfl
      rw [still] at moved
      rw [if_neg pending]
      omega

/-! ### What a delivery promises -/

/-- A delivery and the `sig_return` of its handler keep to the kernel stack and
    put everything back. -/
structure Restores (before : SigContext) (delivery back : Ran) : Prop where
  inside : ∀ i ∈ delivery.accessed ++ back.accessed, i < KERNEL_STACK_SIZE / 4
  frame : ∀ i ∈ delivery.accessed, back.context.kernelStack i = before.kernelStack i
  espUser : back.context.espUser = before.espUser
  curSig : back.context.curSig = before.curSig

/-- All deliveries of a run do. -/
def Promised (d : Nat) : List Round → SigContext → Prop
  | [], _ => True
  | r :: rest, c =>
    (Pending (r.enter c) → Restores (r.enter c) (r.delivery d c) (r.back d c)) ∧ Promised d rest (r.next d c)

/-- No delivery does: it accesses words outside of the kernel stack. -/
theorem not_restores (pending : Pending (r.enter c)) : ¬ Restores (r.enter c) (r.delivery d c) (r.back d c) := by
  intro restores
  have first : nbElem - 14 ∈ frame := by decide
  have inside := restores.inside (nbElem - 14) (List.mem_append_left _ ((delivery_accessed pending _).mpr first))
  exact frame_outside _ first inside

/-- Whatever the rounds are, a process gets its frame back from the kernel stack only
    if no signal is delivered to it: each delivery reads and writes beyond it. -/
theorem promised_iff_undelivered (d : Nat) (rounds : List Round) (c : SigContext) :
    Promised d rounds c ↔ ∀ r ∈ rounds, r.sigs = [] ∨ c.curSig = true := by
  induction rounds generalizing c with
  | nil => exact iff_of_true trivial (fun _ member => nomatch member)
  | cons r rest ih =>
    rw [List.forall_mem_cons]
    by_cases pending : Pending (r.enter c)
    · have delivers : ¬ (r.sigs = [] ∨ c.curSig = true) := by
        obtain ⟨some',free⟩ := pending
        rintro (nothing | treated)
        · rw [show (r.enter c).sigs = some r.sigs from rfl,nothing] at some'
          cases some'
        · exact absurd (treated.symm.trans free) (by decide)
      exact iff_of_false (fun promised => not_restores pending (promised.1 pending)) (fun idle => delivers idle.1)
    · have idle : r.sigs = [] ∨ c.curSig = true := by
        by_contra delivers
        rw [not_or,Bool.not_eq_true] at delivers
        obtain ⟨signalid,oldest⟩ := Option.ne_none_iff_exists'.mp (mt List.getLast?_eq_none_iff.mp delivers.1)
        exact pending ⟨Option.isSome_iff_exists.mpr ⟨signalid,oldest⟩,delivers.2⟩
      have still : r.next d c = r.enter c := if_neg pending
      show (Pending (r.enter c) → _) ∧ Promised d rest (r.next d c) ↔ _
      rw [still,ih]
      exact ⟨fun promised => ⟨idle,promised.2⟩,fun undelivered => ⟨fun taken => absurd taken pending,undelivered.2⟩⟩

/-- One signal for a process just created. -/
theorem promised_undelivered_one : ¬ ∀ d rounds c, Promised d rounds c := by
  intro claim
  let c : SigContext := ⟨true,fun _ => 0,0x2000000,fun _ => 0,some [],⟨0,0,0,0,0,0,0,0,0,0,0,0,0,0⟩,false,[]⟩
  let r : Round := ⟨fun _ => 0,[1],fun _ => 0,fun _ => 0,[],fun _ => 0⟩
  have pending : Pending (r.enter c) := by decide
  exact not_restores pending ((claim 0 [r] c).1 pending)

end Psys.SignalFrames
