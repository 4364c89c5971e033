import Psys.Context

/-!
`semaphore.c`: counters with a list of waiting processes, put in front and
released from the back.
-/
namespace Psys.Semaphore
open Psys.State Psys.Context

/-- `screate`; `memory` tells whether `list_new` finds memory. -/
def screate (k : Kernel) (compteur : Int) (memory : Bool) : Kernel :=
  let compteur := short compteur
  if compteur < 0 then sysret k (some (-1))
  else
    match k.sidLibres with
    | [] => sysret k (some (-1))
    | i :: libres =>
      let k := { k with sidLibres := libres }
      if (k.semaphores i).valide then { k with toProcs := k.toProcs.panic }
      else
        let k := k.setSem i (fun s => { s with c := compteur, procWait := [] })
        if memory = false then sysret k (some (-3))
        else
          let k := k.setSem i (fun s => { s with valide := true })
          sysret { k with semLog := .created i compteur :: k.semLog } (some i)

/-- `wait`, up to its call of `scheduler` when the process must wait. -/
def wait (k : Kernel) (sid : Int) : Kernel :=
  if ¬ SemInUse k.semaphores sid then sysret k (some (-1))
  else if (k.semaphores sid).c = SHRT_MIN then sysret k (some (-2))
  else
    let k := k.setSem sid (fun s => { s with c := short (s.c - 1) })
    if (k.semaphores sid).c < 0 then
      let k := k.setProc k.pidCour (fun c => { c with state := .waitSem, sidWait := sid })
      let k := k.setSem sid (fun s => { s with procWait := k.pidCour :: s.procWait })
      callScheduler { k with semLog := .blocked sid k.pidCour :: k.semLog } (.wait sid)
    else sysret { k with semLog := .acquired sid k.pidCour :: k.semLog } (some 0)

/-- `wait` after its call of `scheduler`. -/
def waitResume (k : Kernel) : Kernel :=
  if (k.tabProc k.pidCour).sidReseted then
    sysret (k.setProc k.pidCour (fun c => { c with sidReseted := false })) (some (-4))
  else if (k.tabProc k.pidCour).sidDeleted then sysret k (some (-3))
  else sysret k (some 0)

/-- `try_wait` -/
def tryWait (k : Kernel) (sid : Int) : Kernel :=
  if ¬ SemInUse k.semaphores sid then sysret k (some (-1))
  else if (k.semaphores sid).c > 0 then
    let k := k.setSem sid (fun s => { s with c := short (s.c - 1) })
    sysret { k with semLog := .acquired sid k.pidCour :: k.semLog } (some 0)
  else sysret k (some (-3))

/-- One unit: the counter goes up, and the process that has waited longest is
    woken up when the counter shows that there is one. -/
def signalOne (k : Kernel) (sid : Int) : Kernel :=
  let k := k.setSem sid (fun s => { s with c := short (s.c + 1) })
  let k := { k with semLog := .signalled sid :: k.semLog }
  if (k.semaphores sid).c ≤ 0 then
    match (k.semaphores sid).procWait.getLast? with
    | none => k
    | some pid =>
      let k := k.setSem sid (fun s => { s with procWait := s.procWait.dropLast })
      { k with
        toProcs := wakeupProcess k.toProcs pid
        semLog := .released sid pid .signal :: k.semLog }
  else k

/-- `signal` -/
def signal (k : Kernel) (sid : Int) : Kernel :=
  if ¬ SemInUse k.semaphores sid then sysret k (some (-1))
  else if (k.semaphores sid).c = SHRT_MAX then sysret k (some (-2))
  else
    let k := signalOne k sid
    if (k.semaphores sid).c ≤ 0 then callScheduler k (.ret 0) else sysret k (some 0)

/-- The loop of `signaln`. -/
def signalLoop (sid : Int) : Nat → Kernel → Kernel
  | 0, k => k
  | count + 1, k => signalLoop sid count (signalOne k sid)

/-- `signaln` -/
def signaln (k : Kernel) (sid count : Int) : Kernel :=
  let count := short count
  if ¬ SemInUse k.semaphores sid then sysret k (some (-1))
  else if count < 0 then sysret k (some (-3))
  else if (k.semaphores sid).c > 0 ∧ SHRT_MAX - (k.semaphores sid).c < count then sysret k (some (-2))
  else callScheduler (signalLoop sid count.toNat k) (.ret 0)

/-- `scount`: the low byte of a negative counter below `0xFF`. -/
def scount (k : Kernel) (sid : Int) : Kernel :=
  if ¬ SemInUse k.semaphores sid then sysret k (some (-1))
  else if (k.semaphores sid).c < 0 then sysret k (some (0xFF00 + (k.semaphores sid).c % 256))
  else sysret k (some (k.semaphores sid).c)

/-- One process taken from the waiting list by `sdelete` or `sreset`, whose
    mark it gets. -/
def dismiss (sid : Int) (cause : Cause) (mark : Context → Context) (k : Kernel) (pid : Int) : Kernel :=
  let k := k.setProc pid mark
  { k with
    toProcs := wakeupProcess k.toProcs pid
    semLog := .released sid pid cause :: k.semLog }

/-- The mark of `sdelete`. -/
def markDeleted (c : Context) : Context := if c.sidReseted = false then { c with sidDeleted := true } else c
/-- The mark of `sreset`. -/
def markReseted (c : Context) : Context := { c with sidReseted := true }

/-- The loop of `sdelete` and `sreset`, which empties the waiting list from the
    front. -/
def dismissAll (k : Kernel) (sid : Int) (cause : Cause) (mark : Context → Context) : Kernel :=
  (k.semaphores sid).procWait.foldl (dismiss sid cause mark) (k.setSem sid (fun s => { s with procWait := [] }))

/-- `sdelete` -/
def sdelete (k : Kernel) (sid : Int) : Kernel :=
  if ¬ SemInUse k.semaphores sid then sysret k (some (-1))
  else
    let k := dismissAll k sid .sdelete markDeleted
    let k := k.setSem sid (fun s => { s with valide := false })
    callScheduler { k with sidLibres := sid :: k.sidLibres } (.ret 0)

/-- `sreset` -/
def sreset (k : Kernel) (sid count : Int) : Kernel :=
  let count := short count
  if ¬ SemInUse k.semaphores sid ∨ count < 0 then sysret k (some (-1))
  else
    let k := k.setSem sid (fun s => { s with c := count })
    callScheduler (dismissAll k sid .sreset markReseted) (.ret 0)

/-! ### What the calls come to -/

theorem scount_sysret (k : Kernel) (sid : Int) : ∃ r, scount k sid = sysret k (some r) := by
  rw [scount]
  split
  · exact ⟨_,rfl⟩
  split
  · exact ⟨_,rfl⟩
  · exact ⟨_,rfl⟩

theorem signal_cases (k : Kernel) (sid : Int) :
    (∃ r, signal k sid = sysret k (some r)) ∨
      SemInUse k.semaphores sid ∧ (k.semaphores sid).c ≠ SHRT_MAX ∧
        (((signalOne k sid).semaphores sid).c ≤ 0 ∧ signal k sid = callScheduler (signalOne k sid) (.ret 0) ∨
          0 < ((signalOne k sid).semaphores sid).c ∧ signal k sid = sysret (signalOne k sid) (some 0)) := by
  rw [signal]
  by_cases used : SemInUse k.semaphores sid
  · rw [if_neg (not_not.mpr used)]
    by_cases most : (k.semaphores sid).c = SHRT_MAX
    · exact .inl ⟨-2,if_pos most⟩
    · rw [if_neg most]
      refine .inr ⟨used,most,?_⟩
      by_cases waited : ((signalOne k sid).semaphores sid).c ≤ 0
      · exact .inl ⟨waited,if_pos waited⟩
      · exact .inr ⟨not_le.mp waited,if_neg waited⟩
  · exact .inl ⟨-1,if_pos used⟩

theorem signaln_cases (k : Kernel) (sid count : Int) :
    (∃ r, signaln k sid count = sysret k (some r)) ∨
      SemInUse k.semaphores sid ∧ 0 ≤ short count ∧
        ¬ ((k.semaphores sid).c > 0 ∧ SHRT_MAX - (k.semaphores sid).c < short count) ∧
        signaln k sid count = callScheduler (signalLoop sid (short count).toNat k) (.ret 0) := by
  rw [signaln]
  by_cases used : SemInUse k.semaphores sid
  · rw [if_neg (not_not.mpr used)]
    by_cases negative : short count < 0
    · exact .inl ⟨-3,if_pos negative⟩
    by_cases full : (k.semaphores sid).c > 0 ∧ SHRT_MAX - (k.semaphores sid).c < short count
    · refine .inl ⟨-2,?_⟩
      rw [if_neg negative,if_pos full]
    · rw [if_neg negative,if_neg full]
      exact .inr ⟨used,not_lt.mp negative,full,rfl⟩
  · exact .inl ⟨-1,if_pos used⟩

end Psys.Semaphore
