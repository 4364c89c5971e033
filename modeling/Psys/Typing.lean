import Psys.Modifiers

/-!
What is typed. A keyboard is its keys that are down, two lights and the code that is
being assembled on the pad; a key means what the map of the modifiers that are down
says. The driver does just that, scan code by scan code.
-/
namespace Psys.Typing
open Psys.Keymaps Psys.KeyDriver Psys.Scancodes Psys.Modifiers

/-- The keyboard as its user sees it. -/
structure Board where
  held : Nat → Bool := fun _ => false
  flags : Nat := 0
  pad : Int := -1

/-- The modifiers that are down, as the index of a map. -/
def mods (m : Keymap) (held : Nat → Bool) : Nat :=
  (List.range 9).foldl (fun bits v => if 0 < count m held v then bits ||| 1 <<< v else bits) 0

/-- A key of the pad: its character under NumLock, else the key that it stands for. -/
def padEffects (m : Keymap) (numLock : Bool) (value : Nat) : List Effect :=
  let string i := ((m.funcTable i).toList.map Effect.data)
  let arrow ch := [Effect.data [27,91,ch]]
  let plain := [Effect.data [UInt8.ofNat (padChars.getD value 0)]]
  if numLock then plain
  else match value with
    | 0 => string 21
    | 1 => string 23
    | 2 => arrow 66
    | 3 => string 25
    | 4 => arrow 68
    | 5 => arrow 71
    | 6 => arrow 67
    | 7 => string 20
    | 8 => arrow 65
    | 9 => string 24
    | 15 => string 22
    | 16 => string 22
    | _ => plain

/-- A symbol is struck: what is sent, and what changes. -/
def Board.strike (m : Keymap) (b : Board) (again : Bool) (keysym letter : Nat) : Board × List Effect :=
  match KTYP keysym with
  | 0xf0 => (b,[.data [UInt8.ofNat (KVAL keysym)]])
  | 0xfb => (b,[.data [UInt8.ofNat (KVAL letter)]])
  | 0xf1 => (b,(m.funcTable (KVAL keysym)).toList.map .data)
  | 0xf2 =>
    match KVAL keysym with
    | 1 => (b,[.data [13]])
    | 7 => (if again then b else { b with flags := b.flags ^^^ 4 },[])
    | 8 => (if again then b else { b with flags := b.flags ^^^ 2 },[])
    | _ => (b,[])
  | 0xf3 => (b,padEffects m (b.flags.testBit VC_NUMLOCK) (KVAL keysym))
  | 0xf6 => (b,[.data [27,91,UInt8.ofNat (curChars.getD (KVAL keysym) 0)]])
  | 0xf8 => (b,[.data [27],.data [UInt8.ofNat (KVAL keysym)]])
  | 0xf9 => ({ b with pad := padCode b.pad (KVAL keysym) },[])
  | _ => (b,[])

/-- The lights follow. -/
def lights (before after : Nat) : List Effect := if after ≠ before then [.leds after] else []

/-- The symbol of a letter: CapsLock takes the map of the other shift, if it is
    there. -/
def Board.letter (m : Keymap) (b : Board) (keycode keysym : Nat) : Nat :=
  if b.flags.testBit VC_CAPSLOCK then
    match m.keyMaps (mods m b.held ^^^ 1) with
    | some keyMap => keyMap keycode
    | none => keysym
  else keysym

def Board.press (m : Keymap) (b : Board) (keycode : Nat) : Board × List Effect :=
  let struck := match m.keyMaps (mods m b.held) with
    | some keyMap => b.strike m (b.held keycode) (keyMap keycode) (b.letter m keycode (keyMap keycode))
    | none => (b,[])
  ({ struck.1 with held := Function.update b.held keycode true },struck.2 ++ lights b.flags struck.1.flags)

/-- When a modifier comes up, the code of the pad is sent, unless there is no map
    for the modifiers. -/
def Board.release (m : Keymap) (b : Board) (keycode : Nat) : Board × List Effect :=
  let held := Function.update b.held keycode false
  if (m.keyMaps (mods m b.held)).isSome ∧ mods m held ≠ mods m b.held ∧ b.pad ≠ -1 then
    ({ b with held := held, pad := -1 },[.data [UInt8.ofNat (b.pad % 0x100).toNat]])
  else ({ b with held := held },[])

/-- The key switches consoles. -/
def switches (key : Key) : Prop := 0x3b ≤ key.code ∧ key.code ≤ 0x3e

instance (key : Key) : Decidable (switches key) := inferInstanceAs (Decidable (_ ∧ _))

def Board.event (m : Keymap) (b : Board) : Event → Board × List Effect
  | .stroke key up =>
    if switches key ∧ up = false then (b,[.flip (key.code - 0x3b)])
    else match key.keycode with
      | some c => if up then b.release m c else b.press m c
      | none => (b,[])
  | .pause =>
    let down := b.press m E1_PAUSE
    let up := down.1.release m E1_PAUSE
    (up.1,down.2 ++ up.2)

def Board.events (m : Keymap) (b : Board) : List Event → Board × List Effect
  | [] => (b,[])
  | event :: rest =>
    let first := b.event m event
    let last := first.1.events m rest
    (last.1,first.2 ++ last.2)

/-- Only keys that are down come up, or keys of the main block that the driver has
    not heard of. Keys with a prefix do not switch consoles. -/
def Board.Fair (m : Keymap) (b : Board) : Event → Prop
  | .stroke key up =>
    (key.extended = true → ¬ switches key) ∧
      ∀ c ∈ key.keycode, up = true → b.held c = true ∨ modifier (m.plainMap c) = none ∧ keyboardPckbdUnexpectedUp c = true
  | .pause => True

instance (m : Keymap) (b : Board) : (event : Event) → Decidable (b.Fair m event)
  | .stroke key up => inferInstanceAs (Decidable ((key.extended = true → ¬ switches key) ∧
      ∀ c ∈ key.keycode, up = true → b.held c = true ∨ modifier (m.plainMap c) = none ∧ keyboardPckbdUnexpectedUp c = true))
  | .pause => isTrue trivial

def Board.FairAll (m : Keymap) (b : Board) : List Event → Prop
  | [] => True
  | event :: rest => b.Fair m event ∧ (b.event m event).1.FairAll m rest

instance fairAllDecidable (m : Keymap) : (b : Board) → (events : List Event) → Decidable (b.FairAll m events)
  | _,[] => isTrue trivial
  | b,event :: rest => @instDecidableAnd _ _ _ (fairAllDecidable m (b.event m event).1 rest)

/-! ### Keymaps without dead keys and locks -/

/-- The kinds of symbols that `strike` knows. -/
def Plain (keysym : Nat) : Prop :=
  KTYP keysym ∈ [0xf0,0xf1,0xf2,0xf3,0xf5,0xf6,0xf7,0xf8,0xf9,0xfb] ∧
    (KTYP keysym = 0xf2 → KVAL keysym ∉ [13,14,19]) ∧ (KTYP keysym = 0xf7 → KVAL keysym < KG_CAPSSHIFT)

instance (keysym : Nat) : Decidable (Plain keysym) := inferInstanceAs (Decidable (_ ∧ _ ∧ _))

structure Simple (m : Keymap) : Prop where
  uniform : Keymap.Uniform m
  plain : ∀ i keyMap, m.keyMaps i = some keyMap → ∀ c < 128, Plain (keyMap c)

theorem entry_plain : ∀ map ∈ [plainMap,shiftMap,altgrMap,ctrlMap,altgrCtrlMap,altMap,ctrlAltMap], ∀ c < 128,
    Plain (entry map c) := by decide +kernel

theorem defkeymap_simple : Simple defkeymap := by
  refine ⟨defkeymap_uniform,fun i keyMap found c less => ?_⟩
  unfold Keymap.keyMaps defkeymap at found
  split at found
  · rw [← Option.some.inj found]
    exact entry_plain _ (by simp) c less
  · dsimp only at found
    split at found
    all_goals first
      | rw [← Option.some.inj found]
      | exact absurd found (by simp)
    all_goals exact entry_plain _ (by simp) c less

/-! ### The kinds of keys -/

variable {m : Keymap} {d d' : Driver} {b : Board} {c : Nat}

/-- Nothing is pending, and the modes are as `kbd_init` sets them. -/
structure Idle (d : Driver) : Prop where
  diacr : d.diacr = 0
  dead : d.deadKeyNext = false
  lock : d.lockstate = 0
  xlate : d.kbdmode = VC_XLATE
  modes : d.modeflags = KBD_DEFMODE

/-- The driver shows the lights and the code of a board. -/
structure Shows (d : Driver) (b : Board) : Prop where
  flags : d.ledflagstate = b.flags
  pad : d.npadch = b.pad

/-- From one state to another the driver sends something and shows another board. -/
structure Does (d : Driver) (b : Board) (out : List Effect) (d' : Driver) : Prop extends Idle d', Shows d' b where
  effects : d'.effects = d.effects ++ out
  ledstate : d'.ledstate = d.ledstate

theorem mode_flags (idle : Idle d) : vcKbdMode d VC_APPLIC = false ∧ vcKbdMode d VC_CKMODE = false ∧
    vcKbdMode d VC_REPEAT = true ∧ vcKbdMode d VC_CRLF = false ∧ vcKbdMode d VC_META = true := by
  simp only [vcKbdMode,idle.modes]
  decide

theorem putQueue_does (idle : Idle d) (shows : Shows d b) (ch : Nat) :
    Does d b [.data [UInt8.ofNat ch]] (putQueue d ch) :=
  ⟨⟨idle.diacr,idle.dead,idle.lock,idle.xlate,idle.modes⟩,⟨shows.flags,shows.pad⟩,rfl,rfl⟩

theorem putsQueue_does (idle : Idle d) (shows : Shows d b) (cp : List UInt8) : Does d b [.data cp] (putsQueue d cp) :=
  ⟨⟨idle.diacr,idle.dead,idle.lock,idle.xlate,idle.modes⟩,⟨shows.flags,shows.pad⟩,rfl,rfl⟩

theorem nothing_does (idle : Idle d) (shows : Shows d b) : Does d b [] d := ⟨idle,shows,(List.append_nil _).symm,rfl⟩

theorem doSelf_does (idle : Idle d) (shows : Shows d b) (value : Nat) :
    Does d b [.data [UInt8.ofNat value]] (doSelf m d value false) := by
  have plain : doSelf m d value false = putQueue d value := by
    simp [doSelf,idle.diacr,idle.dead]
  rw [plain]
  exact putQueue_does idle shows value

theorem doFn_does (idle : Idle d) (shows : Shows d b) (value : Nat) :
    Does d b ((m.funcTable value).toList.map .data) (doFn m d value false) := by
  unfold doFn
  rw [if_neg (by simp)]
  cases found : m.funcTable value with
  | none => exact nothing_does idle shows
  | some str => exact putsQueue_does idle shows str

theorem doCur_does (idle : Idle d) (shows : Shows d b) (value : Nat) :
    Does d b [.data [27,91,UInt8.ofNat (curChars.getD value 0)]] (doCur d value false) := by
  unfold doCur applkey
  rw [(mode_flags idle).2.1]
  exact putsQueue_does idle shows _

theorem doMeta_does (idle : Idle d) (shows : Shows d b) (value : Nat) :
    Does d b [.data [27],.data [UInt8.ofNat value]] (doMeta d value false) := by
  have escapes : doMeta d value false = putQueue (putQueue d 27) value := by
    simp [doMeta,(mode_flags idle).2.2.2.2]
  obtain ⟨idle',shows',first,_⟩ := putQueue_does idle shows 27
  obtain ⟨idle₂,shows₂,second,_⟩ := putQueue_does idle' shows' value
  rw [escapes]
  refine ⟨idle₂,shows₂,?_,rfl⟩
  rw [second,first,List.append_assoc]
  rfl

/-- Without NumLock most keys of the pad are cursor keys. -/
theorem padCursor_does (idle : Idle d) (shows : Shows d b) {value : Nat} (cursor : padCursor m d value = some d') :
    Does d b (padEffects m false value) d' := by
  unfold padCursor at cursor
  split at cursor
  all_goals first
    | rw [← Option.some.inj cursor]
    | exact absurd cursor (by simp)
  · exact doFn_does idle shows 22
  · exact doFn_does idle shows 22
  · exact doFn_does idle shows 21
  · exact doFn_does idle shows 23
  · exact doCur_does idle shows 0
  · exact doFn_does idle shows 25
  · exact doCur_does idle shows 1
  · exact doCur_does idle shows 2
  · exact doFn_does idle shows 20
  · exact doCur_does idle shows 3
  · exact doFn_does idle shows 24
  · rw [(mode_flags idle).1]
    exact putsQueue_does idle shows _

theorem padCursor_other {value : Nat} (none : padCursor m d value = none) :
    padEffects m false value = [.data [UInt8.ofNat (padChars.getD value 0)]] := by
  unfold padCursor at none
  split at none
  all_goals cases none
  unfold padEffects
  split <;> simp_all

theorem doPad_does (idle : Idle d) (shows : Shows d b) (value : Nat) :
    Does d b (padEffects m (b.flags.testBit VC_NUMLOCK) value) (doPad m d value false) := by
  obtain ⟨applic,_,_,crlf,_⟩ := mode_flags idle
  have crlf' : vcKbdMode (putQueue d (padChars.getD value 0)) VC_CRLF = false := crlf
  have plain := putQueue_does idle shows (padChars.getD value 0)
  unfold doPad
  rw [if_neg (by simp),applic,if_neg (by simp)]
  simp only [crlf',Bool.false_eq_true,and_false,if_false]
  have light : vcKbdLed d VC_NUMLOCK = b.flags.testBit VC_NUMLOCK := by
    rw [vcKbdLed,shows.flags]
  rw [light]
  cases lock : b.flags.testBit VC_NUMLOCK with
  | true => exact plain
  | false =>
    rw [if_neg (by simp)]
    cases found : padCursor m d value with
    | some d' => exact padCursor_does idle shows found
    | none =>
      rw [padCursor_other found]
      exact plain

theorem enter_does (idle : Idle d) (shows : Shows d b) : Does d b [.data [13]] (enter d) := by
  have returns : enter d = putQueue d 13 := by
    have crlf : vcKbdMode (putQueue d 13) VC_CRLF = false := (mode_flags idle).2.2.2.1
    simp [enter,idle.diacr,crlf]
  rw [returns]
  exact putQueue_does idle shows 13

theorem toggles_does (idle : Idle d) (shows : Shows d b) (flag : Nat) :
    Does d (if d.rep then b else { b with flags := b.flags ^^^ 1 <<< flag }) []
      (if d.rep then d else chgVcKbdLed d flag) := by
  cases d.rep with
  | true => exact nothing_does idle shows
  | false =>
    rw [if_neg (by simp),if_neg (by simp)]
    refine ⟨⟨idle.diacr,idle.dead,idle.lock,idle.xlate,idle.modes⟩,⟨?_,shows.pad⟩,(List.append_nil _).symm,rfl⟩
    exact congrArg (· ^^^ 1 <<< flag) shows.flags

theorem hold_does (idle : Idle d) (shows : Shows d b) : Does d b [] (hold d) := by
  unfold hold
  split
  · exact nothing_does idle shows
  · exact ⟨⟨idle.diacr,idle.dead,idle.lock,idle.xlate,idle.modes⟩,⟨shows.flags,shows.pad⟩,(List.append_nil _).symm,rfl⟩

/-- Counting anew changes nothing else. -/
theorem countKeys_does (idle : Idle d) (shows : Shows d b) (ks : List Nat) : Does d b [] (ks.foldl (countKey m) d) := by
  induction ks generalizing d with
  | nil => exact nothing_does idle shows
  | cons k ks hyp =>
    have first : Does d b [] (countKey m d k) := by
      rw [countKey_eq]
      split
      · split
        · exact ⟨⟨idle.diacr,idle.dead,idle.lock,idle.xlate,idle.modes⟩,⟨shows.flags,shows.pad⟩,(List.append_nil _).symm,rfl⟩
        · exact nothing_does idle shows
      · exact nothing_does idle shows
    have rest := hyp first.toIdle first.toShows
    refine ⟨rest.toIdle,rest.toShows,?_,rest.ledstate.trans first.ledstate⟩
    rw [List.foldl_cons,rest.effects,first.effects,List.append_nil,List.append_nil]

theorem computeShiftstate_does (idle : Idle d) (shows : Shows d b) : Does d b [] (computeShiftstate m d) := by
  have rest := countKeys_does (m := m) (d := { d with shiftState := 0, kDown := fun _ => 0 }) (b := b)
    ⟨idle.diacr,idle.dead,idle.lock,idle.xlate,idle.modes⟩ ⟨shows.flags,shows.pad⟩ (List.range 256)
  exact ⟨rest.toIdle,rest.toShows,rest.effects,rest.ledstate⟩

theorem clear_does {out : List Effect} (does : Does d b out d') : Does d b out { d' with slockstate := 0 } :=
  ⟨⟨does.diacr,does.dead,does.lock,does.xlate,does.modes⟩,⟨does.flags,does.pad⟩,does.effects,does.ledstate⟩

theorem doSpec_does (idle : Idle d) (shows : Shows d b) {keysym : Nat} (spec : KTYP keysym = 0xf2)
    (plain : Plain keysym) (letter : Nat) :
    Does d (b.strike m d.rep keysym letter).1 (b.strike m d.rep keysym letter).2 (doSpec m d (KVAL keysym) false) := by
  have others := plain.2.1 spec
  have raw : ¬ (VC_XLATE = VC_RAW ∨ VC_XLATE = VC_MEDIUMRAW) := by decide
  have special : doSpec m d (KVAL keysym) false = if KVAL keysym ≥ 20 then d else specFnTable m d (KVAL keysym) := by
    have modes : ¬ ((VC_XLATE = VC_RAW ∨ VC_XLATE = VC_MEDIUMRAW) ∧ KVAL keysym ≠ 15) := fun both => raw both.1
    rw [doSpec,if_neg (by simp),idle.xlate,if_neg modes]
  rw [special]
  unfold Board.strike
  simp only [spec]
  by_cases large : KVAL keysym ≥ 20
  · rw [if_pos large]
    split
    · omega
    · omega
    · omega
    · exact nothing_does idle shows
  · rw [if_neg large]
    generalize KVAL keysym = value at others
    split
    · exact enter_does idle shows
    · exact toggles_does idle shows VC_CAPSLOCK
    · have toggle : specFnTable m d 8 = bareNum d := by
        rw [specFnTable,num,(mode_flags idle).1,if_neg (by simp)]
      rw [toggle]
      exact toggles_does idle shows VC_NUMLOCK
    next enters toggles numbers =>
      unfold specFnTable
      split
      · exact computeShiftstate_does idle shows
      · exact absurd rfl enters
      · exact absurd rfl toggles
      · exact absurd rfl numbers
      · exact hold_does idle shows
      · exact absurd others (by simp)
      · exact absurd others (by simp)
      · exact absurd others (by simp)
      · exact nothing_does idle shows

/-- A symbol that is no modifier is struck. -/
theorem useSymbol_strikes (idle : Idle d) (shows : Shows d b) {keysym : Nat} (plain : Plain keysym)
    (other : KTYP keysym ≠ 0xf7) (c : Nat) :
    Does d (b.strike m d.rep keysym (letter m d c keysym)).1 (b.strike m d.rep keysym (letter m d c keysym)).2
      (useSymbol m d c keysym false false) := by
  have cleared : ∀ b' out d', Does d b' out d' → Does d b' out { d' with slockstate := 0 } := fun _ _ _ => clear_does
  have kinds := plain.1
  simp only [List.mem_cons,List.not_mem_nil,or_false,other,false_or] at kinds
  unfold useSymbol
  simp only [Bool.false_eq_true,false_and,if_false]
  rcases kinds with kind | kind | kind | kind | kind | kind | kind | kind | kind
  · simp only [kind,Board.strike]
    exact cleared _ _ _ (doSelf_does idle shows (KVAL keysym))
  · simp only [kind,Board.strike]
    exact cleared _ _ _ (doFn_does idle shows (KVAL keysym))
  · have spec := doSpec_does (m := m) idle shows kind plain (letter m d c keysym)
    rw [kind]
    exact cleared _ _ _ spec
  · simp only [kind,Board.strike]
    exact cleared _ _ _ (doPad_does idle shows (KVAL keysym))
  · simp only [kind,Board.strike]
    exact cleared _ _ _ (nothing_does idle shows)
  · simp only [kind,Board.strike]
    exact cleared _ _ _ (doCur_does idle shows (KVAL keysym))
  · simp only [kind,Board.strike]
    exact cleared _ _ _ (doMeta_does idle shows (KVAL keysym))
  · simp only [kind,Board.strike]
    refine cleared _ _ _ ⟨⟨idle.diacr,idle.dead,idle.lock,idle.xlate,idle.modes⟩,⟨shows.flags,?_⟩,(List.append_nil _).symm,rfl⟩
    exact congrArg (padCode · (KVAL keysym)) shows.pad
  · simp only [kind,Board.strike]
    exact cleared _ _ _ (doSelf_does idle shows (KVAL (letter m d c keysym)))

/-- A key that is no modifier does nothing when it comes up. -/
theorem useSymbol_up {keysym : Nat} (plain : Plain keysym) (other : KTYP keysym ≠ 0xf7) (c : Nat) :
    useSymbol m d c keysym true false = { d with slockstate := 0 } := by
  have kinds := plain.1
  simp only [List.mem_cons,List.not_mem_nil,or_false,other,false_or] at kinds
  unfold useSymbol
  simp only [Bool.false_eq_true,false_and,if_false]
  rcases kinds with kind | kind | kind | kind | kind | kind | kind | kind | kind <;> simp only [kind] <;> rfl

/-! ### Modifiers and the pad -/

theorem useSymbol_shift {keysym : Nat} (kind : KTYP keysym = 0xf7) (c : Nat) (up : Bool) :
    useSymbol m d c keysym up false = { doShift d (KVAL keysym) up with slockstate := 0 } := by
  unfold useSymbol
  simp only [Bool.false_eq_true,false_and,if_false,kind]
  rfl

theorem countShift_does (idle : Idle d) (shows : Shows d b) (value : Nat) (up : Bool) :
    Does d b [] (countShift d value up) := by
  unfold countShift
  dsimp only
  split_ifs <;>
    exact ⟨⟨idle.diacr,idle.dead,idle.lock,idle.xlate,idle.modes⟩,⟨shows.flags,shows.pad⟩,(List.append_nil _).symm,rfl⟩

/-- The shift that undoes CapsLock is on none of these maps. -/
theorem doShift_eq {value : Nat} (plain : value < KG_CAPSSHIFT) (d : Driver) (up : Bool) :
    doShift d value up = if d.rep then d
      else if up ∧ (countShift d value up).shiftState ≠ d.shiftState ∧ (countShift d value up).npadch ≠ -1
        then sendPad (countShift d value up) else countShift d value up := by
  have lone : value ≠ KG_CAPSSHIFT := by omega
  simp only [doShift,lone,false_and,if_false]

theorem doShift_down (idle : Idle d) (shows : Shows d b) {value : Nat} (plain : value < KG_CAPSSHIFT) :
    Does d b [] (doShift d value false) := by
  rw [doShift_eq plain]
  split
  · exact nothing_does idle shows
  · rw [if_neg (by simp)]
    exact countShift_does idle shows value false

/-- When a modifier comes up, the code of the pad goes out. -/
theorem doShift_up (idle : Idle d) (shows : Shows d b) {value : Nat} (plain : value < KG_CAPSSHIFT)
    (fresh : d.rep = false) :
    Does d (if (doShift d value true).shiftState ≠ d.shiftState ∧ b.pad ≠ -1 then { b with pad := -1 } else b)
      (if (doShift d value true).shiftState ≠ d.shiftState ∧ b.pad ≠ -1
        then [.data [UInt8.ofNat (b.pad % 0x100).toNat]] else []) (doShift d value true) := by
  have counted := countShift_does idle shows value true
  have shifted := doShift_eq plain d true
  rw [fresh,if_neg (by simp)] at shifted
  simp only [true_and] at shifted
  have bits : (doShift d value true).shiftState = (countShift d value true).shiftState := by
    rw [shifted]
    split
    · exact (sendPad_quiet _).shiftState
    · rfl
  rw [bits]
  rw [counted.pad] at shifted
  rw [shifted]
  split
  next sends =>
    have xlate : (countShift d value true).kbdmode ≠ VC_UNICODE := by
      rw [counted.xlate]
      decide
    unfold sendPad
    rw [if_neg xlate,counted.pad]
    obtain ⟨idle',shows',out,led⟩ := putQueue_does counted.toIdle counted.toShows (b.pad % 0x100).toNat
    refine ⟨⟨idle'.diacr,idle'.dead,idle'.lock,idle'.xlate,idle'.modes⟩,⟨shows'.flags,rfl⟩,?_,led.trans counted.ledstate⟩
    dsimp only
    rw [out,counted.effects,List.append_nil]
  next => exact counted

/-! ### Keys -/

/-- The driver plays a keyboard. -/
structure Plays (m : Keymap) (d : Driver) (b : Board) : Prop extends Idle d, Shows d b where
  accurate : Accurate m d
  held : d.keyDown = b.held
  slock : d.slockstate = 0

theorem mods_testBit (m : Keymap) (held : Nat → Bool) (v : Nat) :
    (mods m held).testBit v = decide (v < 9 ∧ 0 < count m held v) := by
  have folds : ∀ (vs : List Nat) (bits : Nat), (vs.foldl (fun bits v =>
      if 0 < count m held v then bits ||| 1 <<< v else bits) bits).testBit v =
      (bits.testBit v || decide (v ∈ vs ∧ 0 < count m held v)) := by
    intro vs
    induction vs with
    | nil => simp
    | cons w vs hyp =>
      intro bits
      rw [List.foldl_cons,hyp]
      by_cases here : v = w
      · subst here
        by_cases some : 0 < count m held v <;> simp [some]
      · have other : (if 0 < count m held w then bits ||| 1 <<< w else bits).testBit v = bits.testBit v := by
          split
          · rw [Nat.testBit_or,bit_shiftLeft]
            simp [here]
          · rfl
        rw [other]
        simp [here]
  rw [mods,folds,Nat.zero_testBit,Bool.false_or]
  simp only [List.mem_range]

theorem modifier_plain {keysym v : Nat} (plain : Plain keysym) (mods : modifier keysym = some v) :
    KTYP keysym = 0xf7 ∧ v = KVAL keysym ∧ v < KG_CAPSSHIFT := by
  have kinds := plain.1
  rw [modifier_eq] at mods
  split at mods
  next kind =>
    have shift : KTYP keysym = 0xf7 := by
      simp only [List.mem_cons,List.not_mem_nil,or_false] at kinds
      omega
    have low := plain.2.2 shift
    rw [if_neg (by omega),Option.some_inj] at mods
    exact ⟨shift,mods.symm,mods ▸ low⟩
  · exact absurd mods (by simp)

/-- The driver's modifiers are those of the keyboard. -/
theorem shiftState_mods (simple : Simple m) (accurate : Accurate m d) : d.shiftState = mods m d.keyDown := by
  have eight : KG_CAPSSHIFT = 8 := rfl
  refine Nat.eq_of_testBit_eq fun v => ?_
  rw [mods_testBit,accurate.mirror,accurate.counts,decide_eq_decide,← Nat.pos_iff_ne_zero]
  refine ⟨fun some => ⟨?_,some⟩,fun both => both.2⟩
  obtain ⟨k,_,held⟩ := List.countP_pos_iff.mp some
  rw [holds,Bool.and_eq_true,decide_eq_true_iff] at held
  have less := accurate.codes k held.1
  have := (modifier_plain (simple.plain 0 _ rfl k less) held.2).2.2
  omega

theorem useSymbol_slock {keysym : Nat} (plain : Plain keysym) (c : Nat) (up : Bool) :
    (useSymbol m d c keysym up false).slockstate = 0 := by
  have kinds := plain.1
  simp only [List.mem_cons,List.not_mem_nil,or_false] at kinds
  have typed : KTYP keysym ≥ 0xf0 := by omega
  obtain ⟨type,value,handled,type_eq⟩ := useSymbol_eq m d c up typed
  have types : KT_SLOCK = 12 ∧ KT_LATIN = 0 := ⟨rfl,rfl⟩
  rw [handled,if_pos (by omega)]

theorem handleKeycode_eq (idle : Idle d) (c : Nat) (up : Bool) :
    handleKeycode m d c up = useKey m (trackKey d c up).1 c (trackKey d c up).2 false := by
  have tracked : (trackKey d c up).1.kbdmode = VC_XLATE ∧ (trackKey d c up).1.modeflags = KBD_DEFMODE := by
    unfold trackKey
    split <;> exact ⟨idle.xlate,idle.modes⟩
  have repeats : vcKbdMode (trackKey d c up).1 VC_REPEAT = true := by
    rw [vcKbdMode,tracked.2]
    decide
  have raw : VC_XLATE ≠ VC_RAW ∧ VC_XLATE ≠ VC_MEDIUMRAW := by decide
  unfold handleKeycode
  simp only [idle.xlate,tracked.1,raw.1,raw.2,decide_false,Bool.false_eq_true,if_false,repeats,or_true,if_true,Bool.or_self]

/-- What `useKey` comes to, once the key is noted. -/
theorem useKey_does (simple : Simple m) (idle : Idle d) (shows : Shows d b)
    (final : shiftFinal d = mods m b.held) (less : c < 128) :
    Does d (match m.keyMaps (mods m b.held) with
        | some keyMap => b.strike m d.rep (keyMap c) (b.letter m c (keyMap c))
        | none => (b,[])).1
      (match m.keyMaps (mods m b.held) with
        | some keyMap => b.strike m d.rep (keyMap c) (b.letter m c (keyMap c))
        | none => (b,[])).2 (useKey m d c false false) := by
  unfold useKey
  rw [final]
  cases found : m.keyMaps (mods m b.held) with
  | none => exact clear_does (computeShiftstate_does idle shows)
  | some keyMap =>
    have plain := simple.plain _ _ found c less
    have letters : letter m d c (keyMap c) = b.letter m c (keyMap c) := by
      unfold letter Board.letter vcKbdLed
      rw [shows.flags,final]
      rfl
    by_cases shift : KTYP (keyMap c) = 0xf7
    · dsimp only
      rw [useSymbol_shift shift]
      simp only [Board.strike,shift]
      exact clear_does (doShift_down idle shows (plain.2.2 shift))
    · dsimp only
      rw [← letters]
      exact useSymbol_strikes idle shows plain shift c

theorem useKey_slock (simple : Simple m) (less : c < 128) (up : Bool) : (useKey m d c up false).slockstate = 0 := by
  unfold useKey
  split
  next keyMap found => exact useSymbol_slock (simple.plain _ _ found c less) c up
  · rfl

/-- A key goes down as on the board. -/
theorem press_plays (simple : Simple m) (plays : Plays m d b) (less : c < 128) :
    Plays m (handleKeycode m d c false) (b.press m c).1 ∧
      (handleKeycode m d c false).ledstate = d.ledstate ∧
      ∃ out, (handleKeycode m d c false).effects = d.effects ++ out ∧
        (b.press m c).2 = out ++ lights b.flags (b.press m c).1.flags := by
  have right := (handleKeycode_accurate simple.uniform plays.accurate plays.xlate less false).mpr
    (fun misread => absurd misread.1 (by simp))
  have keys := (handleKeycode_framed simple.uniform plays.accurate.codes plays.xlate less false).1
  have handled := handleKeycode_eq (m := m) plays.toIdle c false
  have final : shiftFinal (trackKey d c false).1 = mods m b.held := by
    rw [shiftFinal]
    show (d.shiftState ||| d.slockstate) ^^^ d.lockstate = _
    rw [plays.slock,plays.lock,Nat.or_zero,Nat.xor_zero,shiftState_mods simple plays.accurate,plays.held]
  have again : (trackKey d c false).1.rep = b.held c := congrFun plays.held c
  have does := useKey_does simple (d := (trackKey d c false).1) (b := b)
    ⟨plays.diacr,plays.dead,plays.lock,plays.xlate,plays.modes⟩ ⟨plays.flags,plays.pad⟩ final less
  rw [again] at does
  have slock := useKey_slock (d := (trackKey d c false).1) simple less false
  have same : (trackKey d c false).2 = false := rfl
  rw [same] at handled
  rw [← handled] at does slock
  refine ⟨⟨does.toIdle,⟨does.flags,does.pad⟩,right,?_,slock⟩,does.ledstate,_,does.effects,rfl⟩
  rw [keys,plays.held]
  rfl

/-- A key comes up as on the board. -/
theorem release_plays (simple : Simple m) (plays : Plays m d b) (less : c < 128)
    (fair : b.held c = true ∨ modifier (m.plainMap c) = none ∧ keyboardPckbdUnexpectedUp c = true) :
    Plays m (handleKeycode m d c true) (b.release m c).1 ∧
      (handleKeycode m d c true).ledstate = d.ledstate ∧
      (handleKeycode m d c true).effects = d.effects ++ (b.release m c).2 := by
  have fine : ¬ Misread m d c true := by
    rintro ⟨_,off,_,v,mods,_⟩
    rw [plays.held] at off
    rcases fair with held | ⟨plain,_⟩
    · rw [held] at off
      exact absurd off (by simp)
    · rw [plain] at mods
      exact Option.not_mem_none v mods
  have right := (handleKeycode_accurate simple.uniform plays.accurate plays.xlate less true).mpr fine
  have keys := (handleKeycode_framed simple.uniform plays.accurate.codes plays.xlate less true).1
  have handled := handleKeycode_eq (m := m) plays.toIdle c true
  have comes : (trackKey d c true).2 = true := by
    rw [(trackKey_fields d c true).2.2.2.2.2.2,plays.held]
    rcases fair with held | ⟨_,up⟩
    · rw [held]
      rfl
    · rw [up]
      cases b.held c <;> rfl
  rw [comes] at handled
  have before : (trackKey d c true).1.shiftState = mods m b.held := by
    rw [← plays.held,← shiftState_mods simple plays.accurate]
    rfl
  have after : (handleKeycode m d c true).shiftState = mods m (Function.update b.held c false) := by
    rw [shiftState_mods simple right,keys,plays.held]
    rfl
  have final : shiftFinal (trackKey d c true).1 = mods m b.held := by
    rw [shiftFinal,before]
    show (mods m b.held ||| d.slockstate) ^^^ d.lockstate = _
    rw [plays.slock,plays.lock,Nat.or_zero,Nat.xor_zero]
  have slock := useKey_slock (d := (trackKey d c true).1) simple less true
  have idle : Idle (trackKey d c true).1 := ⟨plays.diacr,plays.dead,plays.lock,plays.xlate,plays.modes⟩
  have shows : Shows (trackKey d c true).1 b := ⟨plays.flags,plays.pad⟩
  have fresh : (trackKey d c true).1.rep = false := rfl
  have does : Does (trackKey d c true).1 (b.release m c).1 (b.release m c).2 (handleKeycode m d c true) := by
    have still : ∀ {d'}, Does (trackKey d c true).1 b [] d' →
        ¬ ((m.keyMaps (mods m b.held)).isSome ∧ mods m (Function.update b.held c false) ≠ mods m b.held ∧ b.pad ≠ -1) →
        Does (trackKey d c true).1 (b.release m c).1 (b.release m c).2 d' := by
      intro d' does quiet
      rw [Board.release,if_neg quiet]
      exact ⟨does.toIdle,⟨does.flags,does.pad⟩,does.effects,does.ledstate⟩
    rw [handled] at after ⊢
    unfold useKey at after ⊢
    rw [final] at after ⊢
    cases found : m.keyMaps (mods m b.held) with
    | none =>
      exact still (clear_does (computeShiftstate_does idle shows)) (by simp [found])
    | some keyMap =>
      rw [found] at after
      dsimp only at after ⊢
      have plain := simple.plain _ _ found c less
      by_cases shift : KTYP (keyMap c) = 0xf7
      · have sends := doShift_up idle shows (plain.2.2 shift) fresh
        rw [useSymbol_shift shift] at after ⊢
        dsimp only at after
        rw [after,before] at sends
        have cleared := clear_does sends
        unfold Board.release
        simp only [found,Option.isSome_some,true_and]
        split
        next sent =>
          rw [if_pos sent,if_pos sent] at cleared
          exact ⟨cleared.toIdle,⟨cleared.flags,cleared.pad⟩,cleared.effects,cleared.ledstate⟩
        next quiet =>
          rw [if_neg quiet,if_neg quiet] at cleared
          exact ⟨cleared.toIdle,⟨cleared.flags,cleared.pad⟩,cleared.effects,cleared.ledstate⟩
      · rw [useSymbol_up plain shift] at after ⊢
        dsimp only at after
        rw [before] at after
        exact still (clear_does (nothing_does idle shows)) (fun all => all.2.1 after.symm)
  rw [← handled] at slock
  refine ⟨⟨does.toIdle,⟨does.flags,does.pad⟩,right,?_,slock⟩,does.ledstate,does.effects⟩
  rw [keys,plays.held]
  unfold Board.release
  dsimp only
  split <;> rfl

/-! ### Scan codes -/

/-- Between two bytes the lights are as the flags say. -/
structure On (m : Keymap) (d : Driver) (b : Board) : Prop extends Plays m d b where
  init : d.init = true
  lit : d.ledstate = d.ledflagstate

theorem plays_prev (plays : Plays m d b) (prev : Nat) : Plays m { d with prevScancode := prev } b :=
  ⟨⟨plays.diacr,plays.dead,plays.lock,plays.xlate,plays.modes⟩,⟨plays.flags,plays.pad⟩,
    ⟨plays.accurate.counts,plays.accurate.mirror,plays.accurate.codes⟩,plays.held,plays.slock⟩

/-- The lights are set after each key. -/
theorem kbdBh_plays (plays : Plays m d b) : Plays m (kbdBh d) b ∧ (kbdBh d).ledstate = (kbdBh d).ledflagstate ∧
    (kbdBh d).effects = d.effects ++ lights d.ledstate b.flags := by
  have quiet := kbdBh_quiet d
  have accurate := plays.accurate.of_quiet quiet
  unfold kbdBh lights at *
  rw [← plays.flags]
  split
  next changed =>
    rw [if_pos changed] at accurate
    exact ⟨⟨⟨plays.diacr,plays.dead,plays.lock,plays.xlate,plays.modes⟩,⟨plays.flags,plays.pad⟩,accurate,plays.held,plays.slock⟩,
      rfl,rfl⟩
  next same => exact ⟨plays,(not_not.mp same).symm,(List.append_nil _).symm⟩

theorem heard_byte (on : On m d b) {scan : UInt8} (hears : heard scan = true) :
    handleInt33 m d scan = kbdBh (handleScancode m d scan.toNat (!scan.toNat.testBit 7)) ∧ ¬ d.kbdmode = VC_RAW := by
  have raw : VC_XLATE ≠ VC_RAW := by decide
  rw [handleInt33_eq,if_pos hears,opened,if_pos on.init,on.xlate]
  exact ⟨rfl,raw⟩

theorem heard_none (on : On m d b) {scan : UInt8} (hears : heard scan = true) {prev : Nat}
    (reads : keyboardPckbdTranslate d.prevScancode scan.toNat = (prev,none)) :
    handleInt33 m d scan = { d with prevScancode := prev } := by
  obtain ⟨same,mode⟩ := heard_byte on hears
  rw [same,handleScancode,if_neg mode]
  dsimp only
  rw [reads,kbdBh]
  exact if_neg (not_not.mpr on.lit.symm)

theorem heard_key (on : On m d b) {scan : UInt8} (hears : heard scan = true) {prev c : Nat}
    (reads : keyboardPckbdTranslate d.prevScancode scan.toNat = (prev,some c)) :
    handleInt33 m d scan = kbdBh (handleKeycode m { d with prevScancode := prev } c (scan.toNat.testBit 7)) := by
  obtain ⟨same,mode⟩ := heard_byte on hears
  rw [same,handleScancode,if_neg mode]
  dsimp only
  rw [reads]
  simp only [Bool.not_not]

theorem silent_byte (on : On m d b) {scan : UInt8} (hears : heard scan = true) {prev : Nat}
    (reads : keyboardPckbdTranslate d.prevScancode scan.toNat = (prev,none)) :
    On m (handleInt33 m d scan) b ∧ (handleInt33 m d scan).prevScancode = prev ∧
      (handleInt33 m d scan).effects = d.effects := by
  rw [heard_none on hears reads]
  exact ⟨⟨plays_prev on.toPlays prev,on.init,on.lit⟩,rfl,rfl⟩

/-- A byte with a keycode moves its key. -/
theorem key_byte (simple : Simple m) (on : On m d b) {scan : UInt8} (hears : heard scan = true) {prev c : Nat}
    (reads : keyboardPckbdTranslate d.prevScancode scan.toNat = (prev,some c))
    (fair : scan.toNat.testBit 7 = true →
      b.held c = true ∨ modifier (m.plainMap c) = none ∧ keyboardPckbdUnexpectedUp c = true) :
    let after := if scan.toNat.testBit 7 then b.release m c else b.press m c
    On m (handleInt33 m d scan) after.1 ∧ (handleInt33 m d scan).prevScancode = prev ∧
      (handleInt33 m d scan).effects = d.effects ++ after.2 := by
  have less := keycode_less reads
  have noted := plays_prev on.toPlays prev
  obtain ⟨_,_,init,last⟩ := handleKeycode_framed simple.uniform (d := { d with prevScancode := prev }) noted.accurate.codes
    noted.xlate less (scan.toNat.testBit 7)
  rw [heard_key on hears reads]
  dsimp only
  cases up : scan.toNat.testBit 7 with
  | false =>
    rw [up] at init last
    obtain ⟨plays,led,out,effects,sent⟩ := press_plays simple noted less
    obtain ⟨plays',lit,lights⟩ := kbdBh_plays plays
    have quiet := kbdBh_quiet (handleKeycode m { d with prevScancode := prev } c false)
    have old : d.ledstate = b.flags := on.lit.trans on.flags
    refine ⟨⟨plays',(quiet.init.trans init).trans on.init,lit⟩,quiet.prevScancode.trans last,?_⟩
    rw [lights,effects,led]
    dsimp only
    rw [old,List.append_assoc,if_neg (by simp),sent]
  | true =>
    rw [up] at init last
    obtain ⟨plays,led,effects⟩ := release_plays simple noted less (fair up)
    obtain ⟨plays',lit,lights⟩ := kbdBh_plays plays
    have quiet := kbdBh_quiet (handleKeycode m { d with prevScancode := prev } c true)
    have old : d.ledstate = b.flags := on.lit.trans on.flags
    have flags : (b.release m c).1.flags = b.flags := by
      unfold Board.release
      dsimp only
      split <;> rfl
    refine ⟨⟨plays',(quiet.init.trans init).trans on.init,lit⟩,quiet.prevScancode.trans last,?_⟩
    rw [lights,effects,led,flags]
    dsimp only
    rw [old,Typing.lights,if_neg (by simp),List.append_nil,if_pos rfl]

/-! ### Events -/

theorem heard_stroke {key : Key} {up : Bool} (other : ¬ (switches key ∧ up = false)) :
    heard (UInt8.ofNat (key.code + if up then 0x80 else 0)) = true := by
  have less := key.less
  have pos := key.pos
  obtain ⟨_,_,zero,error,_,_⟩ := byte key up
  unfold switches at other
  refine decide_eq_true ⟨?_,zero,error⟩
  rw [UInt8.toNat_ofNat']
  cases up with
  | false =>
    simp only [and_true] at other
    simp only [Bool.false_eq_true,if_false]
    omega
  | true =>
    simp only [if_true]
    omega

/-- The last byte of a key. -/
theorem stroke_byte (simple : Simple m) (on : On m d b) (key : Key) (up : Bool) (fair : b.Fair m (.stroke key up))
    (reads : keyboardPckbdTranslate d.prevScancode (UInt8.ofNat (key.code + if up then 0x80 else 0)).toNat = (0,key.keycode))
    (other : ¬ (switches key ∧ up = false)) :
    On m (handleInt33 m d (UInt8.ofNat (key.code + if up then 0x80 else 0))) (b.event m (.stroke key up)).1 ∧
      (handleInt33 m d (UInt8.ofNat (key.code + if up then 0x80 else 0))).prevScancode = 0 ∧
      (handleInt33 m d (UInt8.ofNat (key.code + if up then 0x80 else 0))).effects =
        d.effects ++ (b.event m (.stroke key up)).2 := by
  have hears := heard_stroke other
  obtain ⟨_,_,_,_,_,bit⟩ := byte key up
  rw [Board.event,if_neg other]
  cases code : key.keycode with
  | none =>
    rw [code] at reads
    obtain ⟨on',prev,effects⟩ := silent_byte on hears reads
    exact ⟨on',prev,effects.trans (List.append_nil _).symm⟩
  | some c =>
    rw [code] at reads
    have moves := key_byte simple on hears reads (fun comes => fair.2 c code (bit ▸ comes))
    rw [bit] at moves
    exact moves

theorem flip_byte (on : On m d b) {scan : UInt8} (range : 0x3b ≤ scan.toNat ∧ scan.toNat ≤ 0x3e) :
    On m (handleInt33 m d scan) b ∧ (handleInt33 m d scan).prevScancode = d.prevScancode ∧
      (handleInt33 m d scan).effects = d.effects ++ [.flip (scan.toNat - 0x3b)] := by
  rw [handleInt33,if_pos range]
  exact ⟨⟨⟨⟨on.diacr,on.dead,on.lock,on.xlate,on.modes⟩,⟨on.flags,on.pad⟩,
    ⟨on.accurate.counts,on.accurate.mirror,on.accurate.codes⟩,on.held,on.slock⟩,on.init,on.lit⟩,rfl,rfl⟩

theorem press_held (m : Keymap) (b : Board) (c : Nat) : (b.press m c).1.held c = true := by
  rw [Board.press]
  exact Function.update_self c true b.held

/-- Half of the Pause key. -/
theorem pause_half (simple : Simple m) (on : On m d b) {first second : UInt8} (hears : heard first = true)
    (hears' : heard second = true) (ctrl : first.toNat &&& 0x7f = 0x1d) (numLock : second.toNat &&& 0x7f = 0x45)
    (fair : second.toNat.testBit 7 = true →
      b.held E1_PAUSE = true ∨ modifier (m.plainMap E1_PAUSE) = none ∧ keyboardPckbdUnexpectedUp E1_PAUSE = true) :
    let d' := handleInt33 m (handleInt33 m (handleInt33 m d 0xe1) first) second
    let after := if second.toNat.testBit 7 then b.release m E1_PAUSE else b.press m E1_PAUSE
    On m d' after.1 ∧ d'.prevScancode = 0 ∧ d'.effects = d.effects ++ after.2 := by
  have plain : ∀ (s : Nat), s &&& 0x7f = 0x1d ∨ s &&& 0x7f = 0x45 →
      ¬ (s = 0xe0 ∨ s = 0xe1) ∧ ¬ (s = 0x00 ∨ s = 0xff) := by
    rintro s code
    refine ⟨?_,?_⟩
    · rintro (rfl | rfl) <;> simp at code
    · rintro (rfl | rfl) <;> simp at code
  obtain ⟨on₁,prev₁,effects₁⟩ := silent_byte on (by rfl : heard 0xe1 = true)
    (by rfl : keyboardPckbdTranslate d.prevScancode (0xe1 : UInt8).toNat = (0xe1,none))
  have reads : keyboardPckbdTranslate (handleInt33 m d 0xe1).prevScancode first.toNat = (0x100,none) := by
    rw [prev₁,keyboardPckbdTranslate,if_neg (plain _ (Or.inl ctrl)).1,if_neg (plain _ (Or.inl ctrl)).2,ctrl]
    rfl
  obtain ⟨on₂,prev₂,effects₂⟩ := silent_byte on₁ hears reads
  have reads' : keyboardPckbdTranslate (handleInt33 m (handleInt33 m d 0xe1) first).prevScancode second.toNat =
      (0,some E1_PAUSE) := by
    rw [prev₂,keyboardPckbdTranslate,if_neg (plain _ (Or.inr numLock)).1,if_neg (plain _ (Or.inr numLock)).2,numLock]
    rfl
  obtain ⟨on₃,prev₃,effects₃⟩ := key_byte simple on₂ hears' reads' fair
  refine ⟨on₃,prev₃,?_⟩
  rw [effects₃,effects₂,effects₁]

theorem pause_plays (simple : Simple m) (on : On m d b) :
    On m (run m d Event.pause.bytes) (b.event m .pause).1 ∧ (run m d Event.pause.bytes).prevScancode = 0 ∧
      (run m d Event.pause.bytes).effects = d.effects ++ (b.event m .pause).2 := by
  have down : (0x45 : UInt8).toNat.testBit 7 = false := by decide
  have up : (0xc5 : UInt8).toNat.testBit 7 = true := by decide
  have first := pause_half simple on (by decide : heard 0x1d = true) (by decide : heard 0x45 = true) (by decide) (by decide)
    (fun comes => absurd (down.symm.trans comes) (by simp))
  simp only [down,Bool.false_eq_true,if_false] at first
  obtain ⟨on₁,_,effects₁⟩ := first
  have second := pause_half simple on₁ (by decide : heard 0x9d = true) (by decide : heard 0xc5 = true) (by decide) (by decide)
    (fun _ => Or.inl (press_held m b E1_PAUSE))
  simp only [up,if_true] at second
  obtain ⟨on₂,prev₂,effects₂⟩ := second
  rw [effects₁,List.append_assoc] at effects₂
  have bytes : run m d Event.pause.bytes = handleInt33 m (handleInt33 m (handleInt33 m
      (handleInt33 m (handleInt33 m (handleInt33 m d 0xe1) 0x1d) 0x45) 0xe1) 0x9d) 0xc5 := by
    simp only [run,Event.bytes,List.foldl_cons,List.foldl_nil]
  rw [bytes,Board.event]
  exact ⟨on₂,prev₂,effects₂⟩

theorem event_plays (simple : Simple m) (on : On m d b) (prev : d.prevScancode = 0) (event : Event) (fair : b.Fair m event) :
    On m (run m d event.bytes) (b.event m event).1 ∧ (run m d event.bytes).prevScancode = 0 ∧
      (run m d event.bytes).effects = d.effects ++ (b.event m event).2 := by
  cases event with
  | stroke key up =>
    cases extended : key.extended with
    | false =>
      have reads : keyboardPckbdTranslate d.prevScancode (UInt8.ofNat (key.code + if up then 0x80 else 0)).toNat =
          (0,key.keycode) := by
        rw [prev]
        exact translate_plain key up extended
      have bytes : run m d (Event.stroke key up).bytes =
          handleInt33 m d (UInt8.ofNat (key.code + if up then 0x80 else 0)) := by
        rw [Event.bytes,extended]
        rfl
      rw [bytes]
      by_cases flips : switches key ∧ up = false
      · obtain ⟨range,rfl⟩ := flips
        have code : (UInt8.ofNat (key.code + if false = true then 0x80 else 0)).toNat = key.code := by
          have less := key.less
          rw [UInt8.toNat_ofNat']
          simp only [Bool.false_eq_true,if_false]
          omega
        have flips := @flip_byte _ _ _ on (UInt8.ofNat (key.code + if false = true then 0x80 else 0)) (by rw [code]; exact range)
        rw [code,prev] at flips
        have both : switches key ∧ false = false := ⟨range,rfl⟩
        rw [Board.event,if_pos both]
        exact flips
      · exact stroke_byte simple on key up fair reads flips
    | true =>
      have marks : keyboardPckbdTranslate d.prevScancode (0xe0 : UInt8).toNat = (0xe0,none) := rfl
      obtain ⟨on',prev',effects⟩ := silent_byte on (by rfl : heard 0xe0 = true) marks
      have reads : keyboardPckbdTranslate (handleInt33 m d 0xe0).prevScancode
          (UInt8.ofNat (key.code + if up then 0x80 else 0)).toNat = (0,key.keycode) := by
        rw [prev']
        exact translate_extended key up extended
      have moves := stroke_byte simple on' key up fair reads (fun flips => fair.1 extended flips.1)
      rw [effects] at moves
      have bytes : run m d (Event.stroke key up).bytes =
          handleInt33 m (handleInt33 m d 0xe0) (UInt8.ofNat (key.code + if up then 0x80 else 0)) := by
        rw [Event.bytes,extended]
        rfl
      rw [bytes]
      exact moves
  | pause => exact pause_plays simple on

theorem events_play (simple : Simple m) (events : List Event) (on : On m d b) (prev : d.prevScancode = 0)
    (fair : b.FairAll m events) :
    On m (run m d (events.flatMap Event.bytes)) (b.events m events).1 ∧
      (run m d (events.flatMap Event.bytes)).effects = d.effects ++ (b.events m events).2 := by
  induction events generalizing d b with
  | nil => exact ⟨on,(List.append_nil _).symm⟩
  | cons event rest hyp =>
    obtain ⟨on',prev',effects⟩ := event_plays simple on prev event fair.1
    obtain ⟨last,sent⟩ := hyp on' prev' fair.2
    rw [List.flatMap_cons,run,List.foldl_append,← run,← run]
    refine ⟨last,?_⟩
    rw [sent,effects,List.append_assoc]
    rfl

/-- The driver after `keyboard_init`. -/
def ready : Driver := kbdInit { start with init := true }

theorem ready_on (m : Keymap) : On m ready {} := by
  have none : ∀ v, count m (fun _ => false) v = 0 := fun v => List.countP_eq_zero.mpr fun k _ => by simp [holds]
  refine ⟨⟨⟨rfl,rfl,rfl,rfl,rfl⟩,⟨rfl,rfl⟩,⟨fun v => (none v).symm,fun v => ?_,fun k down => ?_⟩,rfl,rfl⟩,rfl,rfl⟩
  · exact Nat.zero_testBit v
  · exact absurd (show false = true from down) (by simp)

/-- What the default keyboard types. Whatever keys go down, repeat and come up, in
    any order, the console gets just the characters and strings of the board, and
    the lights those of the board. -/
theorem typed (events : List Event) (fair : Board.FairAll defkeymap {} events) :
    (run defkeymap ready (events.flatMap Event.bytes)).effects =
        ready.effects ++ (Board.events defkeymap {} events).2 ∧
      (run defkeymap ready (events.flatMap Event.bytes)).keyDown = (Board.events defkeymap {} events).1.held ∧
      (run defkeymap ready (events.flatMap Event.bytes)).shiftState =
        mods defkeymap (Board.events defkeymap {} events).1.held ∧
      (run defkeymap ready (events.flatMap Event.bytes)).ledstate = (Board.events defkeymap {} events).1.flags := by
  obtain ⟨on,effects⟩ := events_play defkeymap_simple events (ready_on defkeymap) rfl fair
  refine ⟨effects,on.held,?_,on.lit.trans on.flags⟩
  rw [shiftState_mods defkeymap_simple on.accurate,on.held]

/-- The left shift key, a letter and one key of the pad after the other under Alt. -/
def strokes : List Event :=
  [.stroke ⟨false,0x2a,by decide,by decide,by decide⟩ false,.stroke ⟨false,0x10,by decide,by decide,by decide⟩ false,
   .stroke ⟨false,0x2a,by decide,by decide,by decide⟩ true,.stroke ⟨false,0x10,by decide,by decide,by decide⟩ true,
   .stroke ⟨false,0x38,by decide,by decide,by decide⟩ false,.stroke ⟨false,0x4d,by decide,by decide,by decide⟩ false,
   .stroke ⟨false,0x4d,by decide,by decide,by decide⟩ true,.stroke ⟨false,0x4c,by decide,by decide,by decide⟩ false,
   .stroke ⟨false,0x38,by decide,by decide,by decide⟩ true]

theorem typed_strokes : (run defkeymap ready (strokes.flatMap Event.bytes)).effects = [.leds 0,.data [65],.data [65]] := by
  obtain ⟨effects,_⟩ := typed strokes (by decide +kernel)
  rw [effects]
  decide +kernel

end Psys.Typing
