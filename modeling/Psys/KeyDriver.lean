import Mathlib.Data.Nat.Bitwise
import Mathlib.Logic.Function.Basic
import Psys.Keymaps
import Psys.Scancodes

/-!
The keyboard driver: `keyboard.c` with the functions that `keyboard-glue.c` gives
it, from a scan code in `handle_int33` to what `keyboard_data` and `kbd_leds` are
called with. There is one console.
-/
namespace Psys.KeyDriver
open Psys.Keymaps Psys.Scancodes

def VC_XLATE : Nat := 0
def VC_MEDIUMRAW : Nat := 1
def VC_RAW : Nat := 2
def VC_UNICODE : Nat := 3

def VC_APPLIC : Nat := 0
def VC_CKMODE : Nat := 1
def VC_REPEAT : Nat := 2
def VC_CRLF : Nat := 3
def VC_META : Nat := 4

def VC_NUMLOCK : Nat := 1
def VC_CAPSLOCK : Nat := 2

/-- What the driver does to the rest of the kernel. -/
inductive Effect where
  /-- `keyboard_data` -/
  | data (str : List UInt8)
  /-- `kbd_leds` -/
  | leds (leds : Nat)
  /-- `vc_flip` -/
  | flip (vcNumber : Nat)
deriving DecidableEq

/-- The static variables of `keyboard.c`, `scancode.c` and `keyboard-glue.c`, with
    the entry of `kbd_table` for the console. -/
structure Driver where
  prevScancode : Nat := 0
  kDown : Nat → Nat := fun _ => 0
  keyDown : Nat → Bool := fun _ => false
  deadKeyNext : Bool := false
  shiftState : Nat := 0
  npadch : Int := -1
  diacr : Nat := 0
  rep : Bool := false
  lockstate : Nat := 0
  slockstate : Nat := 0
  ledflagstate : Nat := 0
  kbdmode : Nat := 0
  modeflags : Nat := 0
  stopped : Bool := false
  ledstate : Nat := 0xff
  init : Bool := false
  /-- What has been done so far. -/
  effects : List Effect := []

def start : Driver := {}

/-! ### Output -/

/-- `put_queue` with `keyboard_send_ch` -/
def putQueue (d : Driver) (ch : Nat) : Driver := { d with effects := d.effects ++ [.data [UInt8.ofNat ch]] }

/-- `puts_queue` with `keyboard_send_str` -/
def putsQueue (d : Driver) (cp : List UInt8) : Driver := { d with effects := d.effects ++ [.data cp] }

def toUtf8 (d : Driver) (c : Nat) : Driver :=
  if c < 0x80 then putQueue d c
  else if c < 0x800 then putQueue (putQueue d (0xc0 ||| c >>> 6)) (0x80 ||| c &&& 0x3f)
  else putQueue (putQueue (putQueue d (0xe0 ||| c >>> 12)) (0x80 ||| c >>> 6 &&& 0x3f)) (0x80 ||| c &&& 0x3f)

def applkey (d : Driver) (key : Nat) (mode : Bool) : Driver :=
  putsQueue d [0x1b,if mode then 79 else 91,UInt8.ofNat key]

/-! ### Flags -/

def vcKbdMode (d : Driver) (flag : Nat) : Bool := d.modeflags.testBit flag
def vcKbdLed (d : Driver) (flag : Nat) : Bool := d.ledflagstate.testBit flag
def setVcKbdLed (d : Driver) (flag : Nat) : Driver := { d with ledflagstate := d.ledflagstate ||| 1 <<< flag }
def clrVcKbdLed (d : Driver) (flag : Nat) : Driver := { d with ledflagstate := Nat.ldiff d.ledflagstate (1 <<< flag) }
def chgVcKbdLed (d : Driver) (flag : Nat) : Driver := { d with ledflagstate := d.ledflagstate ^^^ 1 <<< flag }
def chgVcKbdLock (d : Driver) (flag : Nat) : Driver := { d with lockstate := (d.lockstate ^^^ 1 <<< flag) % 256 }
def chgVcKbdSlock (d : Driver) (flag : Nat) : Driver := { d with slockstate := (d.slockstate ^^^ 1 <<< flag) % 256 }

/-! ### Modifiers -/

/-- A key of `compute_shiftstate`. -/
def countKey (m : Keymap) (d : Driver) (k : Nat) : Driver :=
  if d.keyDown k then
    let sym := U (m.plainMap k)
    if KTYP sym = KT_SHIFT ∨ KTYP sym = KT_SLOCK then
      let val := if KVAL sym = KG_CAPSSHIFT then KG_SHIFT else KVAL sym
      { d with kDown := Function.update d.kDown val ((d.kDown val + 1) % 256), shiftState := d.shiftState ||| 1 <<< val }
    else d
  else d

def computeShiftstate (m : Keymap) (d : Driver) : Driver :=
  (List.range 256).foldl (countKey m) { d with shiftState := 0, kDown := fun _ => 0 }

/-- The counter of a modifier, and its bit, when one of its keys moves. -/
def countShift (d : Driver) (value : Nat) (up : Bool) : Driver :=
  let d :=
    if up then if d.kDown value ≠ 0 then { d with kDown := Function.update d.kDown value (d.kDown value - 1) } else d
    else { d with kDown := Function.update d.kDown value ((d.kDown value + 1) % 256) }
  if d.kDown value ≠ 0 then { d with shiftState := d.shiftState ||| 1 <<< value }
  else { d with shiftState := Nat.ldiff d.shiftState (1 <<< value) }

/-- The code assembled on the pad goes out. -/
def sendPad (d : Driver) : Driver :=
  let sent := if d.kbdmode = VC_UNICODE then toUtf8 d (d.npadch % 0x10000).toNat else putQueue d (d.npadch % 0x100).toNat
  { sent with npadch := -1 }

def doShift (d : Driver) (value : Nat) (up : Bool) : Driver :=
  let oldState := d.shiftState
  if d.rep then d
  else
    let d := if value = KG_CAPSSHIFT ∧ ¬ up then clrVcKbdLed d VC_CAPSLOCK else d
    let value := if value = KG_CAPSSHIFT then KG_SHIFT else value
    let d := countShift d value up
    if up ∧ d.shiftState ≠ oldState ∧ d.npadch ≠ -1 then sendPad d else d

/-! ### Special keys -/

def enter (d : Driver) : Driver :=
  let d := if d.diacr ≠ 0 then { putQueue d d.diacr with diacr := 0 } else d
  let d := putQueue d 13
  if vcKbdMode d VC_CRLF then putQueue d 10 else d

def capsToggle (d : Driver) : Driver := if d.rep then d else chgVcKbdLed d VC_CAPSLOCK
def capsOn (d : Driver) : Driver := if d.rep then d else setVcKbdLed d VC_CAPSLOCK
def bareNum (d : Driver) : Driver := if d.rep then d else chgVcKbdLed d VC_NUMLOCK
def num (d : Driver) : Driver := if vcKbdMode d VC_APPLIC then applkey d 80 true else bareNum d

/-- `hold`, with `keyboard_start_tty` and `keyboard_stop_tty` -/
def hold (d : Driver) : Driver := if d.rep then d else { d with stopped := !d.stopped }

def compose (d : Driver) : Driver := { d with deadKeyNext := true }

/-- `spec_fn_table`. The functions of the others do nothing: there is one console,
    and the rest is empty in `keyboard-glue.c`. -/
def specFnTable (m : Keymap) (d : Driver) : Nat → Driver
  | 0 => computeShiftstate m d
  | 1 => enter d
  | 7 => capsToggle d
  | 8 => num d
  | 9 => hold d
  | 13 => capsOn d
  | 14 => compose d
  | 19 => bareNum d
  | _ => d

/-! ### Kinds of keys -/

/-- `handle_diacr`: what becomes of the character. -/
def handleDiacr (m : Keymap) (d : Driver) (ch : Nat) : Driver × Nat :=
  match m.accentTable.find? (fun a => a.diacr = d.diacr ∧ a.base = ch) with
  | some a => ({ d with diacr := 0 },a.result)
  | none =>
    if ch = 32 ∨ ch = d.diacr then ({ d with diacr := 0 },d.diacr)
    else ({ putQueue d d.diacr with diacr := 0 },ch)

def doSelf (m : Keymap) (d : Driver) (value : Nat) (up : Bool) : Driver :=
  if up then d
  else
    let (d,value) := if d.diacr ≠ 0 then handleDiacr m d value else (d,value)
    if d.deadKeyNext then { d with deadKeyNext := false, diacr := value }
    else putQueue d value

def doDead2 (m : Keymap) (d : Driver) (value : Nat) (up : Bool) : Driver :=
  if up then d
  else if d.diacr ≠ 0 then
    let (d,value) := handleDiacr m d value
    { d with diacr := value }
  else { d with diacr := value }

def retDiacr : List Nat := [96,39,94,126,34,44]
def doDead (m : Keymap) (d : Driver) (value : Nat) (up : Bool) : Driver := doDead2 m d (retDiacr.getD value 0) up

def doSpec (m : Keymap) (d : Driver) (value : Nat) (up : Bool) : Driver :=
  if up then d
  else if value ≥ 20 then d
  -- in the raw modes nothing but SAK, which does nothing
  else if (d.kbdmode = VC_RAW ∨ d.kbdmode = VC_MEDIUMRAW) ∧ value ≠ 15 then d
  else specFnTable m d value

def doFn (m : Keymap) (d : Driver) (value : Nat) (up : Bool) : Driver :=
  if up then d
  else match m.funcTable value with
    | some str => putsQueue d str
    | none => d

def curChars : List Nat := [66,68,67,65]
def doCur (d : Driver) (value : Nat) (up : Bool) : Driver :=
  if up then d else applkey d (curChars.getD value 0) (vcKbdMode d VC_CKMODE)

def padChars : List Nat := [48,49,50,51,52,53,54,55,56,57,43,45,42,47,13,44,46,63,40,41]
def appMap : List Nat := [112,113,114,115,116,117,118,119,120,121,108,83,82,81,77,110,110,109,80,81]

/-- The keys of the pad without NumLock. -/
def padCursor (m : Keymap) (d : Driver) : Nat → Option Driver
  | 15 => some (doFn m d 22 false)
  | 16 => some (doFn m d 22 false)
  | 0 => some (doFn m d 21 false)
  | 1 => some (doFn m d 23 false)
  | 2 => some (doCur d 0 false)
  | 3 => some (doFn m d 25 false)
  | 4 => some (doCur d 1 false)
  | 6 => some (doCur d 2 false)
  | 7 => some (doFn m d 20 false)
  | 8 => some (doCur d 3 false)
  | 9 => some (doFn m d 24 false)
  | 5 => some (applkey d 71 (vcKbdMode d VC_APPLIC))
  | _ => none

def doPad (m : Keymap) (d : Driver) (value : Nat) (up : Bool) : Driver :=
  if up then d
  else if vcKbdMode d VC_APPLIC ∧ d.kDown KG_SHIFT = 0 then applkey d (appMap.getD value 0) true
  else
    let cursor := if vcKbdLed d VC_NUMLOCK then none else padCursor m d value
    match cursor with
    | some d => d
    | none =>
      let d := putQueue d (padChars.getD value 0)
      if value = 14 ∧ vcKbdMode d VC_CRLF then putQueue d 10 else d

def doMeta (d : Driver) (value : Nat) (up : Bool) : Driver :=
  if up then d
  else if vcKbdMode d VC_META then putQueue (putQueue d 27) value
  else putQueue d (value ||| 0x80)

/-- What the pad has assembled once another digit comes. -/
def padCode (npadch : Int) (value : Nat) : Int :=
  let base := if value < 10 then 10 else 16
  let value := if value < 10 then value else value - 10
  if npadch = -1 then value else Int.bmod (npadch * base + value) (2 ^ 32)

def doAscii (d : Driver) (value : Nat) (up : Bool) : Driver :=
  if up then d else { d with npadch := padCode d.npadch value }

def doLock (d : Driver) (value : Nat) (up : Bool) : Driver := if up ∨ d.rep then d else chgVcKbdLock d value

def doSlock (m : Keymap) (d : Driver) (value : Nat) (up : Bool) : Driver :=
  let d := doShift d value up
  if up ∨ d.rep then d
  else
    let d := chgVcKbdSlock d value
    if (m.keyMaps (d.lockstate ^^^ d.slockstate)).isNone then chgVcKbdSlock { d with slockstate := 0 } value else d

/-- `key_handler`. The others are `do_cons`, whose consoles are not there,
    `do_lowercase` and `do_ignore`. -/
def keyHandler (m : Keymap) (type : Nat) (d : Driver) (value : Nat) (up : Bool) : Driver :=
  match type with
  | 0 => doSelf m d value up
  | 1 => doFn m d value up
  | 2 => doSpec m d value up
  | 3 => doPad m d value up
  | 4 => doDead m d value up
  | 6 => doCur d value up
  | 7 => doShift d value up
  | 8 => doMeta d value up
  | 9 => doAscii d value up
  | 10 => doLock d value up
  | 12 => doSlock m d value up
  | 13 => doDead2 m d value up
  | _ => d

/-! ### Scan codes -/

def shiftFinal (d : Driver) : Nat := (d.shiftState ||| d.slockstate) ^^^ d.lockstate

/-- The symbol of a letter, under CapsLock from the map of the other shift. -/
def letter (m : Keymap) (d : Driver) (keycode keysym : Nat) : Nat :=
  if vcKbdLed d VC_CAPSLOCK then
    match m.keyMaps (shiftFinal d ^^^ 1 <<< KG_SHIFT) with
    | some keyMap => keyMap keycode
    | none => keysym
  else keysym

/-- A key of `handle_scancode` whose map is there. -/
def useSymbol (m : Keymap) (d : Driver) (keycode keysym : Nat) (up raw : Bool) : Driver :=
  let type := KTYP keysym
  if type ≥ 0xf0 then
    let type := type - 0xf0
    if raw ∧ ¬ (type = KT_SPEC ∨ type = KT_SHIFT) then d
    else
      let keysym := if type = KT_LETTER then letter m d keycode keysym else keysym
      let type := if type = KT_LETTER then KT_LATIN else type
      let d := keyHandler m type d (keysym &&& 0xff) up
      if type ≠ KT_SLOCK then { d with slockstate := 0 } else d
  else if ¬ up ∧ ¬ raw then toUtf8 d keysym
  else d

/-- The part of `handle_scancode` that looks the key up. -/
def useKey (m : Keymap) (d : Driver) (keycode : Nat) (up raw : Bool) : Driver :=
  match m.keyMaps (shiftFinal d) with
  | some keyMap => useSymbol m d keycode (keyMap keycode) up raw
  | none => { computeShiftstate m d with slockstate := 0 }

/-- The part of `handle_scancode` that remembers which keys are down. -/
def trackKey (d : Driver) (keycode : Nat) (up : Bool) : Driver × Bool :=
  if up then
    ({ d with rep := false, keyDown := Function.update d.keyDown keycode false },
      if d.keyDown keycode then true else keyboardPckbdUnexpectedUp keycode)
  else ({ d with rep := d.keyDown keycode, keyDown := Function.update d.keyDown keycode true },false)

/-- `handle_scancode`, once there is a keycode. -/
def handleKeycode (m : Keymap) (d : Driver) (keycode : Nat) (up : Bool) : Driver :=
  let raw : Bool := d.kbdmode = VC_RAW
  let (d,up) := trackKey d keycode up
  let medium : Bool := d.kbdmode = VC_MEDIUMRAW
  let d := if medium then putQueue d (keycode + if up then 0x80 else 0) else d
  if ¬ d.rep ∨ vcKbdMode d VC_REPEAT then useKey m d keycode up (raw || medium) else d

def handleScancode (m : Keymap) (d : Driver) (scancode : Nat) (down : Bool) : Driver :=
  let d := if d.kbdmode = VC_RAW then putQueue d (scancode ||| if down then 0 else 0x80) else d
  let (prev,keycode) := keyboardPckbdTranslate d.prevScancode scancode
  let d := { d with prevScancode := prev }
  match keycode with
  | some keycode => handleKeycode m d keycode (!down)
  | none => d

/-- `kbd_bh` -/
def kbdBh (d : Driver) : Driver :=
  if d.ledflagstate ≠ d.ledstate then
    { d with ledstate := d.ledflagstate, effects := d.effects ++ [.leds d.ledflagstate] }
  else d

def KBD_DEFMODE : Nat := 1 <<< VC_REPEAT ||| 1 <<< VC_META

/-- `kbd_init` -/
def kbdInit (d : Driver) : Driver :=
  kbdBh { d with ledflagstate := 0, lockstate := 0, slockstate := 0, modeflags := KBD_DEFMODE, kbdmode := VC_XLATE }

def doScancode (m : Keymap) (d : Driver) (scancode : Nat) : Driver :=
  let d := if d.init then d else kbdInit { d with init := true }
  if scancode ≠ 0x00 ∧ scancode ≠ 0xff then kbdBh (handleScancode m d scancode (!scancode.testBit 7)) else d

def handleInt33 (m : Keymap) (d : Driver) (scan : UInt8) : Driver :=
  if 0x3b ≤ scan.toNat ∧ scan.toNat ≤ 0x3e then { d with effects := d.effects ++ [.flip (scan.toNat - 0x3b)] }
  else doScancode m d scan.toNat

/-- A row of interrupts. -/
def run (m : Keymap) (d : Driver) (scans : List UInt8) : Driver := scans.foldl (handleInt33 m) d

end Psys.KeyDriver
