import Mathlib.Algebra.Order.Ring.Int
import Mathlib.Logic.Function.Basic
import Psys.Runs

/-!
The output side of `console.c`: every virtual console has a shadow of the
screen, and the visible one is drawn into video memory as well. Drawing a byte
asks which console is visible; scrolling, clearing and moving the cursor do
not.
-/
namespace Psys.Video
open Psys.Runs (run reach_of_run)

def NB_COL : Int := 80
def NB_ROW : Int := 25
def VIRTUAL_CONSOLES : Int := 4

/-- `struct console_character` -/
structure Character where
  c : UInt8
  attr : UInt8
  deriving DecidableEq

/-- The output side of `struct virtual_console`. `mem` also covers the memory
    around the array, which a cursor before its start reaches. -/
structure Console where
  mem : Int → Character
  pos : Int
  currentAttr : UInt8

/-- The screen and the consoles. The registers of the video controller hold
    the values last written to them. -/
structure Display where
  videoMem : Int → Character
  registers : Nat → Int
  consoles : Int → Console
  vcCurrent : Int

/-- A cell of the screen. -/
def OnScreen (i : Int) : Prop := 0 ≤ i ∧ i < NB_COL * NB_ROW
instance (i : Int) : Decidable (OnScreen i) := inferInstanceAs (Decidable (_ ∧ _))

/-- The last cell of the screen. -/
def lastCell : Int := NB_COL * NB_ROW - 1

/-- An entry of `virtual_consoles`. -/
def IsConsole (n : Int) : Prop := 0 ≤ n ∧ n < VIRTUAL_CONSOLES
instance (n : Int) : Decidable (IsConsole n) := inferInstanceAs (Decidable (_ ∧ _))

/-- A write to the fields of `virtual_consoles[n]`. -/
def Display.setConsole (d : Display) (n : Int) (f : Console → Console) : Display :=
  { d with consoles := fun i => if i = n then f (d.consoles i) else d.consoles i }

/-! ### The code -/

/-- `console_write_register` -/
def consoleWriteRegister (d : Display) (reg : Nat) (value : Int) : Display :=
  { d with registers := Function.update d.registers reg value }

/-- `console_update_cursor`: the two low bytes of the position. -/
def consoleUpdateCursor (d : Display) (n : Int) : Display :=
  let d := consoleWriteRegister d 0x0f ((d.consoles n).pos % 256)
  consoleWriteRegister d 0x0e ((d.consoles n).pos / 256 % 256)

/-- `vc_draw` -/
def vcDraw (d : Display) (n : Int) : Display :=
  consoleUpdateCursor
    { d with videoMem := fun i => if OnScreen i then (d.consoles n).mem i else d.videoMem i } n

/-- `vc_init`, less the input side. -/
def vcInit (vc : Console) : Console := { vc with pos := 0, currentAttr := 0x07 }

/-- The character that `vc_flip` shows for a console. -/
def digit (n : Int) : UInt8 := 48 + UInt8.ofNat n.toNat

/-- `vc_flip` -/
def vcFlip (d : Display) (n : Int) : Display :=
  if IsConsole n then
    let d := vcDraw d n
    { d with
      videoMem := Function.update d.videoMem lastCell { d.videoMem lastCell with c := digit n }
      vcCurrent := n }
  else d

/-- `console_scroll`; its first loop reads ahead of what it has written. -/
def consoleScroll (d : Display) (n : Int) : Display :=
  vcDraw (d.setConsole n (fun vc => { vc with
    pos := vc.pos - NB_COL
    mem := fun i =>
      if 0 ≤ i ∧ i < NB_COL * (NB_ROW - 1) then vc.mem (i + NB_COL)
      else if OnScreen i then { vc.mem i with c := 32 }
      else vc.mem i })) n

/-- The default case of `console_drawbyte`. -/
def drawCell (d : Display) (n : Int) (c : UInt8) : Display :=
  let vc := d.consoles n
  let cell : Character := ⟨c,vc.currentAttr⟩
  let d := d.setConsole n (fun vc => { vc with mem := Function.update vc.mem vc.pos cell })
  if n = d.vcCurrent then { d with videoMem := Function.update d.videoMem vc.pos cell } else d

/-- `console_drawbyte`. A backspace draws a space, which is the default case. -/
def consoleDrawbyte (d : Display) (n : Int) (c : UInt8) : Display :=
  if c = 10 ∨ c = 13 ∨ c = 9 then d
  else if c = 8 then drawCell (d.setConsole n (fun vc => { vc with pos := vc.pos - 1 })) n 32
  else drawCell d n c

/-- The loop of `console_putbyte` for a tab, which runs at most 8 times. -/
def tabStop : Nat → Int → Int
  | 0, pos => pos
  | turns + 1, pos => if (pos + 1).tmod 8 ≠ 0 then tabStop turns (pos + 1) else pos + 1

/-- Where `console_putbyte` moves the cursor after drawing. -/
def advance (c : UInt8) (pos : Int) : Int :=
  if c = 10 ∨ c = 13 then pos + (NB_COL - pos.tmod NB_COL)
  else if c = 9 then tabStop 8 pos
  else if c = 8 then pos
  else pos + 1

/-- `console_putbyte` -/
def consolePutbyte (d : Display) (n : Int) (c : UInt8) : Display :=
  let d := (consoleDrawbyte d n c).setConsole n (fun vc => { vc with pos := advance c vc.pos })
  let d := if (d.consoles n).pos ≥ NB_COL * NB_ROW then consoleDrawbyte (consoleScroll d n) n c else d
  consoleUpdateCursor d n

/-- `console_clear` -/
def consoleClear (d : Display) (n : Int) : Display :=
  vcDraw (d.setConsole n (fun vc => { vc with
    pos := 0
    mem := fun i => if OnScreen i then ⟨32,vc.currentAttr⟩ else vc.mem i })) n

/-- `console_vc_write` on the node of the console `n`. -/
def consoleVcWrite (d : Display) (n : Int) (s : List UInt8) : Display := s.foldl (fun d c => consolePutbyte d n c) d

/-- `console_init`, from any contents of video memory and of the new arrays. -/
def consoleInit (d : Display) : Display :=
  { ([0,1,2,3] : List Int).foldl (fun d n => consoleClear (d.setConsole n vcInit) n) d with vcCurrent := 0 }

private theorem tabStop_within (turns : Nat) : ∀ pos : Int, (∃ n : Nat, 1 ≤ n ∧ n ≤ turns ∧ (pos + n) % 8 = 0) →
    tabStop turns pos % 8 = 0 ∧ pos < tabStop turns pos ∧ tabStop turns pos ≤ pos + turns := by
  induction turns with
  | zero =>
    rintro pos ⟨n,low,high,_⟩
    omega
  | succ turns ih =>
    rintro pos ⟨n,low,high,multiple⟩
    have zero : (pos + 1).tmod 8 = 0 ↔ (pos + 1) % 8 = 0 := by
      rw [← Int.dvd_iff_tmod_eq_zero,Int.dvd_iff_emod_eq_zero]
    unfold tabStop
    by_cases here : (pos + 1) % 8 = 0
    · rw [if_neg (not_not.mpr (zero.mpr here))]
      omega
    · rw [if_pos (mt zero.mp here)]
      have later : n ≠ 1 := by
        rintro rfl
        exact here (by simpa using multiple)
      have rest := ih (pos + 1) ⟨n - 1,by omega,by omega,by omega⟩
      omega

/-- Eight turns are enough: the loop for a tab ends at the next multiple of 8. -/
theorem tabStop_next (pos : Int) : tabStop 8 pos % 8 = 0 ∧ pos < tabStop 8 pos ∧ tabStop 8 pos ≤ pos + 8 :=
  tabStop_within 8 pos ⟨(8 - pos % 8).toNat,by omega,by omega,by omega⟩

/-! ### The machine -/

inductive Op where
  | putbyte (n : Int) (c : UInt8)
  | write (n : Int) (s : List UInt8)
  | clear (n : Int)
  | flip (n : Int)
  /-- `cons_ioctl(CONS_SETATTR, ..)` -/
  | setAttr (attr : UInt8)

/-- One operation; the first three take an entry of `virtual_consoles`. -/
def step (d : Display) : Op → Option Display
  | .putbyte n c => if IsConsole n then some (consolePutbyte d n c) else none
  | .write n s => if IsConsole n then some (consoleVcWrite d n s) else none
  | .clear n => if IsConsole n then some (consoleClear d n) else none
  | .flip n => some (vcFlip d n)
  | .setAttr attr => some (d.setConsole d.vcCurrent (fun vc => { vc with currentAttr := attr }))

/-- A state just after `console_init`. -/
def Initialised (d : Display) : Prop := ∃ before, d = consoleInit before

abbrev Reach (guard : Display → Op → Prop) : Display → Prop := Runs.Reach Initialised step guard

/-- The operations that touch no console but the visible one. -/
def Visible (d : Display) : Op → Prop
  | .putbyte n _ | .clear n => n = d.vcCurrent
  | .write n s => s = [] ∨ n = d.vcCurrent
  | .flip _ | .setAttr _ => True

/-- The console that is visible. -/
def Display.current (d : Display) : Console := d.consoles d.vcCurrent

/-- The screen shows the visible console, but perhaps for its number. -/
def Shows (d : Display) : Prop := ∀ i, OnScreen i → d.videoMem i = d.current.mem i ∨
  i = lastCell ∧ d.videoMem i = { d.current.mem i with c := digit d.vcCurrent }

/-- The cursor was last programmed to a position. -/
def CursorAt (d : Display) (pos : Int) : Prop :=
  d.registers 0x0f = pos % 256 ∧ d.registers 0x0e = pos / 256 % 256

/-- The screen is what the user should see. -/
structure Mirrors (d : Display) : Prop where
  shows : Shows d
  cursor : CursorAt d d.current.pos

/-! ### What the operations leave alone -/

section Fields
variable (d : Display) (n : Int)

@[simp] theorem setConsole_videoMem (f : Console → Console) : (d.setConsole n f).videoMem = d.videoMem := rfl
@[simp] theorem setConsole_registers (f : Console → Console) : (d.setConsole n f).registers = d.registers := rfl
@[simp] theorem setConsole_vcCurrent (f : Console → Console) : (d.setConsole n f).vcCurrent = d.vcCurrent := rfl
@[simp] theorem setConsole_self (f : Console → Console) : (d.setConsole n f).consoles n = f (d.consoles n) := by
  simp [Display.setConsole]
@[simp] theorem consoleUpdateCursor_videoMem : (consoleUpdateCursor d n).videoMem = d.videoMem := rfl
@[simp] theorem consoleUpdateCursor_consoles : (consoleUpdateCursor d n).consoles = d.consoles := rfl
@[simp] theorem consoleUpdateCursor_vcCurrent : (consoleUpdateCursor d n).vcCurrent = d.vcCurrent := rfl
@[simp] theorem vcDraw_consoles : (vcDraw d n).consoles = d.consoles := rfl
@[simp] theorem vcDraw_vcCurrent : (vcDraw d n).vcCurrent = d.vcCurrent := rfl
@[simp] theorem drawCell_vcCurrent (c : UInt8) : (drawCell d n c).vcCurrent = d.vcCurrent := by
  unfold drawCell
  dsimp only
  split <;> rfl
@[simp] theorem consoleDrawbyte_vcCurrent (c : UInt8) : (consoleDrawbyte d n c).vcCurrent = d.vcCurrent := by
  unfold consoleDrawbyte
  split
  · rfl
  · split
    · simp
    · simp
@[simp] theorem consoleScroll_vcCurrent : (consoleScroll d n).vcCurrent = d.vcCurrent := rfl
@[simp] theorem consoleClear_vcCurrent : (consoleClear d n).vcCurrent = d.vcCurrent := rfl

end Fields

theorem consoleUpdateCursor_cursor (d : Display) (n : Int) : CursorAt (consoleUpdateCursor d n) (d.consoles n).pos := by
  constructor
  · simp [consoleUpdateCursor,consoleWriteRegister]
  · simp [consoleUpdateCursor,consoleWriteRegister]

/-! ### Drawing the visible console -/

variable {d : Display}

/-- Video memory and the visible shadow have not changed. -/
theorem Shows.same {d' : Display} (shows : Shows d) (videoMem : d'.videoMem = d.videoMem)
    (mem : d'.current.mem = d.current.mem) (vcCurrent : d'.vcCurrent = d.vcCurrent) : Shows d' := by
  intro i inside
  rw [videoMem,mem,vcCurrent]
  exact shows i inside

theorem vcDraw_mirrors (d : Display) : Mirrors (vcDraw d d.vcCurrent) := by
  constructor
  · intro i inside
    exact .inl (by simp [vcDraw,inside,Display.current])
  · exact consoleUpdateCursor_cursor _ _

theorem drawCell_shows (shows : Shows d) (c : UInt8) : Shows (drawCell d d.vcCurrent c) := by
  intro i inside
  by_cases drawn : i = (d.consoles d.vcCurrent).pos
  · exact .inl (by simp [drawCell,Display.current,drawn])
  · have mem : (drawCell d d.vcCurrent c).current.mem i = d.current.mem i := by
      simp [drawCell,Display.current,drawn,Display.setConsole]
    have videoMem : (drawCell d d.vcCurrent c).videoMem i = d.videoMem i := by simp [drawCell,drawn]
    rw [mem,videoMem,drawCell_vcCurrent]
    exact shows i inside

theorem consoleDrawbyte_shows (shows : Shows d) (c : UInt8) : Shows (consoleDrawbyte d d.vcCurrent c) := by
  unfold consoleDrawbyte
  split
  · exact shows
  · split
    · have moved : Shows (d.setConsole d.vcCurrent (fun vc => { vc with pos := vc.pos - 1 })) :=
        shows.same rfl (by simp [Display.current]) rfl
      exact drawCell_shows moved 32
    · exact drawCell_shows shows c

theorem consoleScroll_mirrors (d : Display) : Mirrors (consoleScroll d d.vcCurrent) := vcDraw_mirrors _

theorem consoleClear_mirrors (d : Display) : Mirrors (consoleClear d d.vcCurrent) := vcDraw_mirrors _

/-- The cursor is moved to where the visible console is being written. -/
theorem consoleUpdateCursor_mirrors (shows : Shows d) : Mirrors (consoleUpdateCursor d d.vcCurrent) := by
  constructor
  · exact shows.same rfl rfl rfl
  · exact consoleUpdateCursor_cursor d d.vcCurrent

theorem consolePutbyte_mirrors (shows : Shows d) (c : UInt8) : Mirrors (consolePutbyte d d.vcCurrent c) := by
  have drawn := consoleDrawbyte_shows shows c
  have current : (consoleDrawbyte d d.vcCurrent c).vcCurrent = d.vcCurrent := consoleDrawbyte_vcCurrent d _ c
  unfold consolePutbyte
  generalize consoleDrawbyte d d.vcCurrent c = l at drawn current
  rw [← current]
  have moved : Shows (l.setConsole l.vcCurrent (fun vc => { vc with pos := advance c vc.pos })) :=
    drawn.same rfl (by simp [Display.current]) rfl
  dsimp only
  split
  · -- the byte is drawn again on the line that scrolling has freed
    have again := consoleDrawbyte_shows (consoleScroll_mirrors
      (l.setConsole l.vcCurrent (fun vc => { vc with pos := advance c vc.pos }))).shows c
    simpa using consoleUpdateCursor_mirrors again
  · exact consoleUpdateCursor_mirrors moved

@[simp] theorem consolePutbyte_vcCurrent (d : Display) (n : Int) (c : UInt8) :
    (consolePutbyte d n c).vcCurrent = d.vcCurrent := by
  unfold consolePutbyte
  dsimp only
  split
  · simp
  · simp

theorem consoleVcWrite_mirrors (s : List UInt8) : ∀ {d : Display}, Mirrors d → Mirrors (consoleVcWrite d d.vcCurrent s) := by
  induction s with
  | nil => exact fun mirrors => mirrors
  | cons c rest ih =>
    intro d mirrors
    have put := consolePutbyte_mirrors mirrors.shows c
    have after := ih put
    rwa [consolePutbyte_vcCurrent] at after

theorem vcFlip_mirrors (mirrors : Mirrors d) (n : Int) : Mirrors (vcFlip d n) := by
  unfold vcFlip
  split
  · constructor
    · intro i inside
      by_cases last : i = lastCell
      · refine .inr ⟨last,?_⟩
        subst last
        simp [vcDraw,inside,Display.current]
      · refine .inl ?_
        simp [vcDraw,inside,last,Display.current]
    · exact consoleUpdateCursor_cursor _ n
  · exact mirrors

theorem setAttr_mirrors (mirrors : Mirrors d) (attr : UInt8) :
    Mirrors (d.setConsole d.vcCurrent (fun vc => { vc with currentAttr := attr })) := by
  constructor
  · exact mirrors.shows.same rfl (by simp [Display.current]) rfl
  · simpa [CursorAt,Display.current] using mirrors.cursor

/-- An operation on the visible console keeps the screen right. -/
theorem step_mirrors {d' : Display} {op : Op} (mirrors : Mirrors d) (visible : Visible d op)
    (stepped : step d op = some d') : Mirrors d' := by
  cases op with
  | putbyte n c =>
    obtain rfl : n = d.vcCurrent := visible
    simp only [step,Option.ite_none_right_eq_some,Option.some.injEq] at stepped
    obtain ⟨_,rfl⟩ := stepped
    exact consolePutbyte_mirrors mirrors.shows c
  | write n s =>
    simp only [step,Option.ite_none_right_eq_some,Option.some.injEq] at stepped
    obtain ⟨_,rfl⟩ := stepped
    rcases visible with rfl | rfl
    · exact mirrors
    · exact consoleVcWrite_mirrors s mirrors
  | clear n =>
    obtain rfl : n = d.vcCurrent := visible
    simp only [step,Option.ite_none_right_eq_some,Option.some.injEq] at stepped
    obtain ⟨_,rfl⟩ := stepped
    exact consoleClear_mirrors d
  | flip n =>
    obtain rfl := Option.some.inj stepped
    exact vcFlip_mirrors mirrors n
  | setAttr attr =>
    obtain rfl := Option.some.inj stepped
    exact setAttr_mirrors mirrors attr

/-- `console_init` clears every console in turn, the last one on a screen that
    already shows the same. -/
theorem initialised_mirrors (initialised : Initialised d) : Mirrors d := by
  obtain ⟨before,rfl⟩ := initialised
  constructor
  · intro i inside
    refine .inl ?_
    simp [consoleInit,consoleClear,vcDraw,inside,Display.current,Display.setConsole,vcInit]
  · constructor
    · simp [consoleInit,consoleClear,vcDraw,consoleUpdateCursor,consoleWriteRegister,Display.current,Display.setConsole,vcInit]
    · simp [consoleInit,consoleClear,vcDraw,consoleUpdateCursor,consoleWriteRegister,Display.current,Display.setConsole,vcInit]

/-- As long as only the visible console is written and cleared, the screen and
    the cursor are those of the visible console. -/
theorem screen_mirrors (reached : Reach Visible d) : Mirrors d :=
  reached.invariant (fun _ => initialised_mirrors) (fun _ _ _ => step_mirrors)

instance (d : Display) (op : Op) : Decidable (Visible d op) := by
  unfold Visible
  split <;> infer_instance

/-- A display with nothing on it, before `console_init`. -/
def dark : Display where
  videoMem := fun _ => ⟨0,0⟩
  registers := fun _ => 0
  consoles := fun _ => ⟨fun _ => ⟨0,0⟩,0,0⟩
  vcCurrent := 0

/-- Two consoles are written while they are visible. -/
theorem screen_mirrors_flip : ∃ d : Display, Reach Visible d ∧ d.vcCurrent = 0 ∧ (d.videoMem 0).c = 97 ∧ Mirrors d := by
  let ops : List Op := [.putbyte 0 97,.flip 1,.write 1 [98,10,8],.clear 1,.flip 0]
  have seen : (run (Runs.guarded step Visible) (consoleInit dark) ops).map (fun d => (d.vcCurrent,(d.videoMem 0).c)) =
      some (0,97) := by decide
  obtain ⟨d,ran,facts⟩ := Option.map_eq_some_iff.mp seen
  simp only [Prod.mk.injEq] at facts
  have reached : Reach Visible d := Runs.reach_of_guarded (.start ⟨dark,rfl⟩) ran
  exact ⟨d,reached,facts.1,facts.2,screen_mirrors reached⟩

/-- A console that is not visible scrolls, and is drawn on the screen. -/
theorem screen_overdrawn : ¬ ∀ d : Display, Reach (fun _ _ => True) d → Mirrors d := by
  intro claim
  let ops : List Op := [.putbyte 0 97,.write 1 (List.replicate 25 10)]
  have seen : (run step (consoleInit dark) ops).map (fun d => (d.videoMem 0,d.current.mem 0)) =
      some (⟨32,7⟩,⟨97,7⟩) := by decide +kernel
  obtain ⟨d,ran,facts⟩ := Option.map_eq_some_iff.mp seen
  simp only [Prod.mk.injEq] at facts
  have reached : Reach (fun _ _ => True) d := reach_of_run ops (fun _ _ _ => trivial) ⟨dark,rfl⟩ ran
  have shown := (claim d reached).shows 0 (by decide)
  simp [facts.1,facts.2,lastCell,NB_COL,NB_ROW] at shown

end Psys.Video
