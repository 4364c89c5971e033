import Psys.Sys

/-!
`timer.c` and the input side of `console.c`: processes that sleep until a
tick, and processes that read a virtual console.
-/
namespace Psys.Devices
open Psys.State Psys.Context Psys.Sys
open Psys.InputBuffer (push pop unpush)

/-- `wait_clock` -/
def waitClock (k : Kernel) (clock : Nat) : Kernel :=
  callScheduler (k.setProc k.pidCour (fun c => { c with state := .asleep, timer := ulong clock })) .user

/-- One descriptor in the loop of `update_timer`. -/
def wakeSleeper (nbInterrupt : Nat) (k : Procs) (pid : Int) : Procs :=
  if (k.tabProc pid).valide ∧ (k.tabProc pid).state = .asleep ∧ (k.tabProc pid).timer ≤ nbInterrupt
  then wakeupProcess k pid else k

/-- `update_timer` -/
def updateTimer (k : Kernel) : Kernel :=
  { k with toProcs := pids.foldl (wakeSleeper k.nbInterrupt) k.toProcs }

/-- `int32`, the clock interrupt. -/
def int32 (k : Kernel) : Kernel :=
  callScheduler (updateTimer { k with nbInterrupt := ulong (k.nbInterrupt + 1) }) .user

/-- `current_clock` -/
def currentClock (k : Kernel) : Kernel := sysret k (some k.nbInterrupt)

/-- `signal_new_io` -/
def signalNewIo (k : Kernel) (pid : Int) : Kernel := { k with toProcs := wakeupProcess k.toProcs pid }

/-- A key makes `buffer_push` call `signal_new_io`. -/
def Notifies (c : VirtualConsole) (key : UInt8) : Prop :=
  c.buffered = true → key = 10 ∧ c.waitingPid ≠ -1
instance (c : VirtualConsole) (key : UInt8) : Decidable (Notifies c key) :=
  inferInstanceAs (Decidable (_ → _))

/-- `buffer_push` -/
def bufferPush (k : Kernel) (vc : Int) (key : UInt8) : Kernel :=
  let c := k.virtualConsoles vc
  let k := if Notifies c key then signalNewIo k c.waitingPid else k
  k.setConsole vc (fun c => { c with buf := push c.buf key })

/-- The byte that `keyboard_data` works with. -/
def translate (key : UInt8) : UInt8 := if key = 127 then 8 else if key = 13 then 10 else key

/-- `keyboard_data`, less the echo on the screen. -/
def keyboardData (k : Kernel) (key : UInt8) : Kernel :=
  if translate key = 8 then k.setConsole k.vcCurrent (fun c => { c with buf := (unpush c.buf).2 })
  else bufferPush k k.vcCurrent (translate key)

/-- `vc_flip`, less the drawing. -/
def vcFlip (k : Kernel) (vcNumber : Int) : Kernel :=
  if 0 ≤ vcNumber ∧ vcNumber < VIRTUAL_CONSOLES then { k with vcCurrent := vcNumber } else k

/-- `cons_ioctl(CONS_SETBUF, ..)` -/
def setBuffered (k : Kernel) (buffered : Bool) : Kernel :=
  sysret (k.setConsole k.vcCurrent (fun c => { c with buffered := buffered })) none

/-- `set_stdout`; the path resolves to a node with the given inode or to none. -/
def setStdout (k : Kernel) (node : Option Int) : Kernel :=
  match node with
  | none => sysret k (some (-1))
  | some inode => sysret (k.setProc k.pidCour (fun c => { c with stdout := inode })) (some 0)

/-- `buffer_pop` after its wait, and the turn of the loop of `cons_read` that
    called it; `left` bytes may follow this one. -/
def takeByte (k : Kernel) (vc : Int) (buf len left : Nat) (loop : Kernel → Kernel) : Kernel :=
  let byte := (pop (k.virtualConsoles vc).buf).1
  let k := k.setConsole vc (fun c => { c with buf := (pop c.buf).2 })
  let offset := len - (left + 1)
  if byte = 10 then sysret k (some offset)
  else if ¬ Mapped (buf + offset) then handlePfault k
  else loop { k with mem := Function.update k.mem (buf + offset) byte.toNat }

/-- The loop of `cons_read` on the console `vc`, with `left` bytes to read. -/
def consReadLoop (vc : Int) (buf len : Nat) : Nat → Kernel → Kernel
  | 0, k => sysret k (some len)
  | left + 1, k =>
    if (k.virtualConsoles vc).buf.inSize = 0 then
      let k := k.setConsole vc (fun c => { c with waitingPid := k.pidCour })
      let k := k.setProc k.pidCour (fun c => { c with state := .waitIo })
      callScheduler k (.consRead vc buf len left)
    else takeByte k vc buf len left (consReadLoop vc buf len left)

/-- `cons_read` on the console that descriptor 1 selects. -/
def consRead (k : Kernel) (buf len : Nat) : Kernel :=
  consReadLoop ((k.tabProc k.pidCour).stdout - 100) (checkPointer buf) len len k

end Psys.Devices
