import Mathlib.Data.List.Count
import Mathlib.Data.List.Nodup
import Psys.KeyDriver

/-!
The modifiers of the keyboard driver. It counts the keys of each modifier that are
down, up and down with the keys, and keeps a bit for each count. The counts are
right as long as no modifier comes up that was not down; an unexpected release
makes a modifier stick.
-/
namespace Psys.Modifiers
open Psys.Keymaps Psys.KeyDriver Psys.Scancodes

variable {m : Keymap} {d d' d'' : Driver} {c v : Nat} {up : Bool}

/-- A key of a modifier that is down. -/
def holds (m : Keymap) (keyDown : Nat → Bool) (v k : Nat) : Bool :=
  keyDown k && decide (modifier (m.plainMap k) = some v)

/-- How many keys of a modifier are down. -/
def count (m : Keymap) (keyDown : Nat → Bool) (v : Nat) : Nat := (List.range 256).countP (holds m keyDown v)

/-- The counts and bits are those of the keys that are down. -/
structure Accurate (m : Keymap) (d : Driver) : Prop where
  counts : ∀ v, d.kDown v = count m d.keyDown v
  mirror : ∀ v, d.shiftState.testBit v = decide (d.kDown v ≠ 0)
  codes : ∀ k, d.keyDown k = true → k < 128

/-- All maps of a keymap have the same modifiers in the same places. -/
def Keymap.Uniform (m : Keymap) : Prop :=
  ∀ i keyMap, m.keyMaps i = some keyMap → ∀ c < 128, modifier (keyMap c) = modifier (m.plainMap c)

/-! ### Counting -/

theorem countP_flip {α : Type} [DecidableEq α] {l : List α} {p q : α → Bool} {x : α} (nodup : l.Nodup) (mem : x ∈ l)
    (same : ∀ y ≠ x, q y = p y) (off : p x = false) (on : q x = true) : l.countP q = l.countP p + 1 := by
  induction l with
  | nil => exact absurd mem List.not_mem_nil
  | cons y l hyp =>
    rw [List.nodup_cons] at nodup
    rw [List.countP_cons,List.countP_cons]
    by_cases here : y = x
    · subst here
      have rest : l.countP q = l.countP p :=
        List.countP_congr fun z inside => by rw [same z (fun eq => nodup.1 (eq ▸ inside))]
      simp [rest,off,on]
    · rw [same y here,hyp nodup.2 ((List.mem_cons.mp mem).resolve_left (Ne.symm here))]
      omega

theorem count_press (keyDown : Nat → Bool) (less : c < 256) (fresh : keyDown c = false) (v : Nat) :
    count m (Function.update keyDown c true) v =
      count m keyDown v + if modifier (m.plainMap c) = some v then 1 else 0 := by
  by_cases mods : modifier (m.plainMap c) = some v
  · rw [if_pos mods]
    refine countP_flip (x := c) List.nodup_range (List.mem_range.mpr less) ?_ ?_ ?_
    · intro k other
      rw [holds,holds,Function.update_of_ne other]
    · simp [holds,fresh]
    · simp [holds,mods]
  · rw [if_neg mods,Nat.add_zero]
    refine List.countP_congr fun k _ => ?_
    by_cases here : k = c
    · subst here
      simp [holds,mods]
    · rw [holds,holds,Function.update_of_ne here]

theorem count_release (keyDown : Nat → Bool) (less : c < 256) (down : keyDown c = true) (v : Nat) :
    count m keyDown v =
      count m (Function.update keyDown c false) v + if modifier (m.plainMap c) = some v then 1 else 0 := by
  have back : Function.update (Function.update keyDown c false) c true = keyDown := by
    rw [Function.update_idem,← down,Function.update_eq_self]
  rw [← count_press _ less (Function.update_self c false keyDown),back]

theorem count_low (codes : ∀ k, d.keyDown k = true → k < 128) (v : Nat) : count m d.keyDown v < 256 := by
  have split : List.range 256 = List.range 128 ++ (List.range 128).map (128 + ·) :=
    List.range_add (n := 128) (m := 128)
  have high : ((List.range 128).map (128 + ·)).countP (holds m d.keyDown v) = 0 := by
    rw [List.countP_eq_zero]
    intro k inside down
    obtain ⟨i,_,rfl⟩ := List.mem_map.mp inside
    rw [holds,Bool.and_eq_true] at down
    have := codes _ down.1
    omega
  rw [count,split,List.countP_append,high]
  have := (List.range 128).countP_le_length (p := holds m d.keyDown v)
  rw [List.length_range] at this
  omega

/-! ### Symbols -/

theorem KTYP_U (s : Nat) : KTYP (U s) = KTYP s ^^^ 0xf0 := by
  rw [KTYP,U,Nat.shiftRight_xor_distrib]
  rfl

theorem KVAL_U (s : Nat) : KVAL (U s) = KVAL s := by
  have none : 0xf000 &&& 0xff = 0 := rfl
  rw [KVAL,KVAL,U,Nat.and_xor_distrib_right,none,Nat.xor_zero]

theorem xor_eq {a b t : Nat} : t ^^^ a = b ↔ t = b ^^^ a := by
  constructor
  · rintro rfl
    rw [Nat.xor_assoc,Nat.xor_self,Nat.xor_zero]
  · rintro rfl
    rw [Nat.xor_assoc,Nat.xor_self,Nat.xor_zero]

theorem modifier_eq (s : Nat) :
    modifier s = if KTYP s = 0xf7 ∨ KTYP s = 0xfc then some (if KVAL s = KG_CAPSSHIFT then KG_SHIFT else KVAL s)
      else none := by
  have first : KT_SHIFT ^^^ 0xf0 = 0xf7 := rfl
  have second : KT_SLOCK ^^^ 0xf0 = 0xfc := rfl
  rw [modifier,KTYP_U,KVAL_U]
  simp only [xor_eq,first,second]

/-! ### What the handlers leave alone -/

/-- The keys that are down and the modes stay. -/
structure Framed (d d' : Driver) : Prop where
  keyDown : d'.keyDown = d.keyDown
  rep : d'.rep = d.rep
  kbdmode : d'.kbdmode = d.kbdmode
  modeflags : d'.modeflags = d.modeflags
  init : d'.init = d.init
  prevScancode : d'.prevScancode = d.prevScancode

/-- The counts stay as well. -/
structure Quiet (d d' : Driver) : Prop extends Framed d d' where
  kDown : d'.kDown = d.kDown
  shiftState : d'.shiftState = d.shiftState

theorem Framed.trans (first : Framed d d') (second : Framed d' d'') : Framed d d'' :=
  ⟨second.keyDown.trans first.keyDown,second.rep.trans first.rep,second.kbdmode.trans first.kbdmode,
    second.modeflags.trans first.modeflags,second.init.trans first.init,second.prevScancode.trans first.prevScancode⟩

theorem Quiet.trans (first : Quiet d d') (second : Quiet d' d'') : Quiet d d'' :=
  ⟨first.toFramed.trans second.toFramed,second.kDown.trans first.kDown,second.shiftState.trans first.shiftState⟩

theorem quiet_refl (d : Driver) : Quiet d d := ⟨⟨rfl,rfl,rfl,rfl,rfl,rfl⟩,rfl,rfl⟩

theorem Accurate.of_quiet (accurate : Accurate m d) (quiet : Quiet d d') : Accurate m d' := by
  refine ⟨?_,?_,?_⟩
  · rw [quiet.kDown,quiet.keyDown]
    exact accurate.counts
  · rw [quiet.kDown,quiet.shiftState]
    exact accurate.mirror
  · rw [quiet.keyDown]
    exact accurate.codes

theorem putQueue_quiet (d : Driver) (ch : Nat) : Quiet d (putQueue d ch) := ⟨⟨rfl,rfl,rfl,rfl,rfl,rfl⟩,rfl,rfl⟩

theorem putsQueue_quiet (d : Driver) (cp : List UInt8) : Quiet d (putsQueue d cp) := ⟨⟨rfl,rfl,rfl,rfl,rfl,rfl⟩,rfl,rfl⟩

theorem toUtf8_quiet (d : Driver) (ch : Nat) : Quiet d (toUtf8 d ch) := by
  unfold toUtf8
  split_ifs <;> exact ⟨⟨rfl,rfl,rfl,rfl,rfl,rfl⟩,rfl,rfl⟩

theorem kbdBh_quiet (d : Driver) : Quiet d (kbdBh d) := by
  unfold kbdBh
  split_ifs <;> exact ⟨⟨rfl,rfl,rfl,rfl,rfl,rfl⟩,rfl,rfl⟩

theorem enter_quiet (d : Driver) : Quiet d (enter d) := by
  unfold enter
  dsimp only
  split_ifs <;> exact ⟨⟨rfl,rfl,rfl,rfl,rfl,rfl⟩,rfl,rfl⟩

theorem capsToggle_quiet (d : Driver) : Quiet d (capsToggle d) := by
  unfold capsToggle
  split_ifs <;> exact ⟨⟨rfl,rfl,rfl,rfl,rfl,rfl⟩,rfl,rfl⟩

theorem capsOn_quiet (d : Driver) : Quiet d (capsOn d) := by
  unfold capsOn
  split_ifs <;> exact ⟨⟨rfl,rfl,rfl,rfl,rfl,rfl⟩,rfl,rfl⟩

theorem bareNum_quiet (d : Driver) : Quiet d (bareNum d) := by
  unfold bareNum
  split_ifs <;> exact ⟨⟨rfl,rfl,rfl,rfl,rfl,rfl⟩,rfl,rfl⟩

theorem num_quiet (d : Driver) : Quiet d (num d) := by
  unfold num
  split_ifs
  · exact putsQueue_quiet d _
  · exact bareNum_quiet d

theorem hold_quiet (d : Driver) : Quiet d (hold d) := by
  unfold hold
  split_ifs <;> exact ⟨⟨rfl,rfl,rfl,rfl,rfl,rfl⟩,rfl,rfl⟩

/-- The special functions but the first, which counts anew. -/
theorem specFnTable_quiet (d : Driver) (other : v ≠ 0) : Quiet d (specFnTable m d v) := by
  unfold specFnTable
  split
  · exact absurd rfl other
  · exact enter_quiet d
  · exact capsToggle_quiet d
  · exact num_quiet d
  · exact hold_quiet d
  · exact capsOn_quiet d
  · exact ⟨⟨rfl,rfl,rfl,rfl,rfl,rfl⟩,rfl,rfl⟩
  · exact bareNum_quiet d
  · exact quiet_refl d

theorem handleDiacr_quiet (d : Driver) (ch : Nat) : Quiet d (handleDiacr m d ch).1 := by
  unfold handleDiacr
  split
  · exact ⟨⟨rfl,rfl,rfl,rfl,rfl,rfl⟩,rfl,rfl⟩
  · split_ifs <;> exact ⟨⟨rfl,rfl,rfl,rfl,rfl,rfl⟩,rfl,rfl⟩

theorem doSelf_quiet (d : Driver) (value : Nat) (up : Bool) : Quiet d (doSelf m d value up) := by
  unfold doSelf
  split
  · exact quiet_refl d
  have diacritic : Quiet d (if d.diacr ≠ 0 then handleDiacr m d value else (d,value)).1 := by
    split
    · exact handleDiacr_quiet d value
    · exact quiet_refl d
  generalize (if d.diacr ≠ 0 then handleDiacr m d value else (d,value)) = pair at diacritic ⊢
  obtain ⟨d₁,value₁⟩ := pair
  dsimp only at diacritic ⊢
  split
  · exact diacritic.trans ⟨⟨rfl,rfl,rfl,rfl,rfl,rfl⟩,rfl,rfl⟩
  · exact diacritic.trans (putQueue_quiet d₁ value₁)

theorem doDead2_quiet (d : Driver) (value : Nat) (up : Bool) : Quiet d (doDead2 m d value up) := by
  unfold doDead2
  split
  · exact quiet_refl d
  split
  · exact (handleDiacr_quiet (m := m) d value).trans ⟨⟨rfl,rfl,rfl,rfl,rfl,rfl⟩,rfl,rfl⟩
  · exact ⟨⟨rfl,rfl,rfl,rfl,rfl,rfl⟩,rfl,rfl⟩

theorem doFn_quiet (d : Driver) (value : Nat) (up : Bool) : Quiet d (doFn m d value up) := by
  unfold doFn
  split
  · exact quiet_refl d
  split
  · exact putsQueue_quiet d _
  · exact quiet_refl d

theorem doCur_quiet (d : Driver) (value : Nat) (up : Bool) : Quiet d (doCur d value up) := by
  unfold doCur
  split
  · exact quiet_refl d
  · exact putsQueue_quiet d _

theorem padCursor_quiet {value : Nat} (cursor : padCursor m d value = some d') : Quiet d d' := by
  unfold padCursor at cursor
  split at cursor
  all_goals first
    | rw [← Option.some.inj cursor]
    | exact absurd cursor (by simp)
  all_goals first
    | exact doFn_quiet d _ _
    | exact doCur_quiet d _ _
    | exact putsQueue_quiet d _

theorem doPad_quiet (d : Driver) (value : Nat) (up : Bool) : Quiet d (doPad m d value up) := by
  unfold doPad
  split
  · exact quiet_refl d
  split
  · exact putsQueue_quiet d _
  dsimp only
  split
  next cursor =>
    split at cursor
    · exact absurd cursor (by simp)
    · exact padCursor_quiet cursor
  · split_ifs
    · exact (putQueue_quiet d _).trans (putQueue_quiet _ _)
    · exact putQueue_quiet d _

theorem doMeta_quiet (d : Driver) (value : Nat) (up : Bool) : Quiet d (doMeta d value up) := by
  unfold doMeta
  split_ifs <;> exact ⟨⟨rfl,rfl,rfl,rfl,rfl,rfl⟩,rfl,rfl⟩

theorem doAscii_quiet (d : Driver) (value : Nat) (up : Bool) : Quiet d (doAscii d value up) := by
  unfold doAscii
  split_ifs <;> exact ⟨⟨rfl,rfl,rfl,rfl,rfl,rfl⟩,rfl,rfl⟩

theorem doLock_quiet (d : Driver) (value : Nat) (up : Bool) : Quiet d (doLock d value up) := by
  unfold doLock
  split_ifs <;> exact ⟨⟨rfl,rfl,rfl,rfl,rfl,rfl⟩,rfl,rfl⟩

theorem sendPad_quiet (d : Driver) : Quiet d (sendPad d) := by
  have sent : Quiet d (if d.kbdmode = VC_UNICODE then toUtf8 d (d.npadch % 0x10000).toNat
      else putQueue d (d.npadch % 0x100).toNat) := by
    split
    · exact toUtf8_quiet d _
    · exact putQueue_quiet d _
  exact sent.trans ⟨⟨rfl,rfl,rfl,rfl,rfl,rfl⟩,rfl,rfl⟩

/-! ### Counting keys -/

/-- A key of the modifier `v` was counted. -/
structure Moved (d : Driver) (v : Nat) (up : Bool) (d' : Driver) : Prop extends Framed d d' where
  kDown : d'.kDown = Function.update d.kDown v (if up then d.kDown v - 1 else (d.kDown v + 1) % 256)
  bits : ∀ w, d'.shiftState.testBit w = if w = v then decide (d'.kDown v ≠ 0) else d.shiftState.testBit w

theorem Moved.quiet (moved : Moved d v up d') (quiet : Quiet d' d'') : Moved d v up d'' := by
  refine ⟨moved.toFramed.trans quiet.toFramed,quiet.kDown.trans moved.kDown,fun w => ?_⟩
  rw [quiet.shiftState,quiet.kDown]
  exact moved.bits w

theorem Quiet.moved (quiet : Quiet d d') (moved : Moved d' v up d'') : Moved d v up d'' := by
  refine ⟨quiet.toFramed.trans moved.toFramed,?_,fun w => ?_⟩
  · rw [moved.kDown,quiet.kDown]
  · rw [moved.bits,quiet.shiftState]

theorem bit_shiftLeft (v w : Nat) : (1 <<< v).testBit w = decide (w = v) := by
  rw [Nat.one_shiftLeft,Nat.testBit_two_pow,decide_eq_decide]
  exact eq_comm

/-- The second half of `countShift`. -/
theorem mark_moved {d₁ : Driver} (framed : Framed d d₁) (shiftState : d₁.shiftState = d.shiftState)
    (kDown : d₁.kDown = Function.update d.kDown v (if up then d.kDown v - 1 else (d.kDown v + 1) % 256)) :
    Moved d v up (if d₁.kDown v ≠ 0 then { d₁ with shiftState := d₁.shiftState ||| 1 <<< v }
      else { d₁ with shiftState := Nat.ldiff d₁.shiftState (1 <<< v) }) := by
  split
  next some =>
    refine ⟨framed.trans ⟨rfl,rfl,rfl,rfl,rfl,rfl⟩,kDown,fun w => ?_⟩
    dsimp only
    rw [Nat.testBit_or,bit_shiftLeft,shiftState]
    by_cases here : w = v <;> simp [here,some]
  next none =>
    refine ⟨framed.trans ⟨rfl,rfl,rfl,rfl,rfl,rfl⟩,kDown,fun w => ?_⟩
    dsimp only
    rw [Nat.testBit_ldiff,bit_shiftLeft,shiftState]
    by_cases here : w = v <;> simp [here,not_not.mp none]

theorem countShift_moved (d : Driver) (v : Nat) (up : Bool) : Moved d v up (countShift d v up) := by
  unfold countShift
  dsimp only
  refine mark_moved ?_ ?_ ?_
  · split_ifs <;> exact ⟨rfl,rfl,rfl,rfl,rfl,rfl⟩
  · split_ifs <;> rfl
  · cases up with
    | false => rfl
    | true =>
      simp only [if_true]
      split
      · rfl
      next none => rw [not_not.mp none,Nat.zero_sub,← not_not.mp none,Function.update_eq_self]

/-- The value that `do_shift` counts. -/
def shiftOf (value : Nat) : Nat := if value = KG_CAPSSHIFT then KG_SHIFT else value

theorem doShift_moved (value : Nat) (up : Bool) (fresh : d.rep = false) :
    Moved d (shiftOf value) up (doShift d value up) := by
  have lights : Quiet d (if value = KG_CAPSSHIFT ∧ ¬ up then clrVcKbdLed d VC_CAPSLOCK else d) := by
    split <;> exact ⟨⟨rfl,rfl,rfl,rfl,rfl,rfl⟩,rfl,rfl⟩
  have counted := lights.moved (countShift_moved _ (shiftOf value) up)
  unfold doShift
  rw [fresh,if_neg (by simp)]
  dsimp only
  rw [← shiftOf]
  generalize countShift _ (shiftOf value) up = d₁ at counted ⊢
  split
  · exact counted.quiet (sendPad_quiet d₁)
  · exact counted

theorem doShift_repeated (value : Nat) (up : Bool) (again : d.rep = true) : doShift d value up = d := by
  rw [doShift,if_pos again]

theorem slock_quiet (m : Keymap) (d : Driver) (value : Nat) :
    Quiet d (if (m.keyMaps (d.lockstate ^^^ d.slockstate)).isNone then chgVcKbdSlock { d with slockstate := 0 } value
      else d) := by
  split <;> exact ⟨⟨rfl,rfl,rfl,rfl,rfl,rfl⟩,rfl,rfl⟩

theorem doSlock_quiet (m : Keymap) (d : Driver) (value : Nat) (up : Bool) :
    Quiet (doShift d value up) (doSlock m d value up) := by
  unfold doSlock
  dsimp only
  split
  · exact quiet_refl _
  · have changed : Quiet (doShift d value up) (chgVcKbdSlock (doShift d value up) value) :=
      ⟨⟨rfl,rfl,rfl,rfl,rfl,rfl⟩,rfl,rfl⟩
    exact changed.trans (slock_quiet m _ value)

/-! ### Counting anew -/

theorem countKey_eq (m : Keymap) (d : Driver) (k : Nat) :
    countKey m d k = match modifier (m.plainMap k) with
      | some v => if d.keyDown k then
          { d with kDown := Function.update d.kDown v ((d.kDown v + 1) % 256), shiftState := d.shiftState ||| 1 <<< v }
        else d
      | none => d := by
  unfold countKey modifier
  dsimp only
  by_cases mods : KTYP (U (m.plainMap k)) = KT_SHIFT ∨ KTYP (U (m.plainMap k)) = KT_SLOCK
  · simp only [if_pos mods]
  · simp only [if_neg mods,ite_self]

theorem countKey_counts (m : Keymap) (d : Driver) (k : Nat) :
    Framed d (countKey m d k) ∧
      (∀ v, (holds m d.keyDown v k = true → d.kDown v < 255) →
        (countKey m d k).kDown v = d.kDown v + if holds m d.keyDown v k then 1 else 0) ∧
      ∀ v, (countKey m d k).shiftState.testBit v = (d.shiftState.testBit v || holds m d.keyDown v k) := by
  rw [countKey_eq]
  unfold holds
  cases mods : modifier (m.plainMap k) with
  | none => exact ⟨⟨rfl,rfl,rfl,rfl,rfl,rfl⟩,fun v _ => by simp,fun v => by simp⟩
  | some w =>
    dsimp only
    by_cases down : d.keyDown k = true
    · rw [if_pos down]
      refine ⟨⟨rfl,rfl,rfl,rfl,rfl,rfl⟩,fun v less => ?_,fun v => ?_⟩
      · dsimp only
        by_cases here : v = w
        · subst here
          have room := less (by simp [down])
          rw [Function.update_self,Nat.mod_eq_of_lt (by omega)]
          simp [down]
        · rw [Function.update_of_ne here]
          simp [Ne.symm here]
      · dsimp only
        rw [Nat.testBit_or,bit_shiftLeft]
        simp [down,eq_comm]
    · rw [if_neg down]
      exact ⟨⟨rfl,rfl,rfl,rfl,rfl,rfl⟩,fun v _ => by simp [down],fun v => by simp [down]⟩

theorem countKeys (m : Keymap) (ks : List Nat) (d : Driver) :
    Framed d (ks.foldl (countKey m) d) ∧
      (∀ v, d.kDown v + ks.countP (holds m d.keyDown v) < 256 →
        (ks.foldl (countKey m) d).kDown v = d.kDown v + ks.countP (holds m d.keyDown v)) ∧
      ∀ v, (ks.foldl (countKey m) d).shiftState.testBit v =
        (d.shiftState.testBit v || decide (0 < ks.countP (holds m d.keyDown v))) := by
  induction ks generalizing d with
  | nil => exact ⟨⟨rfl,rfl,rfl,rfl,rfl,rfl⟩,fun _ _ => rfl,fun v => by simp⟩
  | cons k ks hyp =>
    obtain ⟨first,count,bit⟩ := countKey_counts m d k
    obtain ⟨framed,counts,bits⟩ := hyp (countKey m d k)
    rw [first.keyDown] at counts bits
    rw [List.foldl_cons]
    refine ⟨first.trans framed,fun v less => ?_,fun v => ?_⟩
    · rw [List.countP_cons] at less ⊢
      have one := count v (fun here => by rw [if_pos here] at less; omega)
      rw [counts v (by omega),one]
      omega
    · rw [bits,bit,List.countP_cons,Bool.or_assoc]
      by_cases here : holds m d.keyDown v k = true <;> simp [here]

/-- `compute_shiftstate` puts everything right. -/
theorem computeShiftstate_accurate (m : Keymap) (codes : ∀ k, d.keyDown k = true → k < 128) :
    Framed d (computeShiftstate m d) ∧ Accurate m (computeShiftstate m d) := by
  obtain ⟨framed,counts,bits⟩ := countKeys m (List.range 256) { d with shiftState := 0, kDown := fun _ => 0 }
  have whole : Framed d (computeShiftstate m d) := ⟨framed.keyDown,framed.rep,framed.kbdmode,framed.modeflags,framed.init,
    framed.prevScancode⟩
  have counted : ∀ v, (computeShiftstate m d).kDown v = count m d.keyDown v := by
    intro v
    have less := count_low (m := m) codes v
    rw [computeShiftstate,counts v (by dsimp only; rw [Nat.zero_add]; exact less)]
    exact Nat.zero_add _
  refine ⟨whole,?_,?_,?_⟩
  · intro v
    rw [whole.keyDown]
    exact counted v
  · intro v
    rw [counted,computeShiftstate,bits]
    dsimp only
    rw [Nat.zero_testBit,Bool.false_or,count,decide_eq_decide]
    omega
  · rw [whole.keyDown]
    exact codes

/-! ### Keys -/

theorem keyHandler_quiet {type value : Nat} (shift : type ≠ KT_SHIFT) (slock : type ≠ KT_SLOCK)
    (hole : type ≠ KT_SPEC ∨ value ≠ 0) (d : Driver) (up : Bool) : Quiet d (keyHandler m type d value up) := by
  unfold keyHandler
  split
  · exact doSelf_quiet d value up
  · exact doFn_quiet d value up
  · unfold doSpec
    split_ifs
    · exact quiet_refl d
    · exact quiet_refl d
    · exact quiet_refl d
    · exact specFnTable_quiet d (hole.resolve_left (not_not.mpr rfl))
  · exact doPad_quiet d value up
  · exact doDead2_quiet d _ up
  · exact doCur_quiet d value up
  · exact absurd rfl shift
  · exact doMeta_quiet d value up
  · exact doAscii_quiet d value up
  · exact doLock_quiet d value up
  · exact absurd rfl slock
  · exact doDead2_quiet d value up
  · exact quiet_refl d

theorem slockstate_quiet (d : Driver) : Quiet d { d with slockstate := 0 } := ⟨⟨rfl,rfl,rfl,rfl,rfl,rfl⟩,rfl,rfl⟩

theorem clear_slock (type : Nat) (d : Driver) : Quiet d (if type ≠ KT_SLOCK then { d with slockstate := 0 } else d) := by
  split
  · exact slockstate_quiet d
  · exact quiet_refl d

theorem doSpec_hole (codes : ∀ k, d.keyDown k = true → k < 128) (up : Bool) :
    Quiet d (doSpec m d 0 up) ∨ Framed d (doSpec m d 0 up) ∧ Accurate m (doSpec m d 0 up) := by
  unfold doSpec
  split_ifs
  · exact Or.inl (quiet_refl d)
  · exact Or.inl (quiet_refl d)
  · exact Or.inl (quiet_refl d)
  · exact Or.inr (computeShiftstate_accurate m codes)

/-- A symbol of a key is handled by its type, letters like other characters. -/
theorem useSymbol_eq (m : Keymap) (d : Driver) (c : Nat) {keysym : Nat} (up : Bool) (typed : KTYP keysym ≥ 0xf0) :
    ∃ type value, useSymbol m d c keysym up false =
        (if type ≠ KT_SLOCK then { keyHandler m type d value up with slockstate := 0 } else keyHandler m type d value up) ∧
      (KTYP keysym = 0xfb ∧ type = KT_LATIN ∨ KTYP keysym ≠ 0xfb ∧ type = KTYP keysym - 0xf0 ∧ value = KVAL keysym) := by
  unfold useSymbol
  simp only [Bool.false_eq_true,false_and,if_false,if_pos typed]
  have types : KT_LETTER = 11 := rfl
  by_cases letter : KTYP keysym - 0xf0 = KT_LETTER
  · simp only [if_pos letter]
    exact ⟨_,_,rfl,Or.inl ⟨by omega,rfl⟩⟩
  · simp only [if_neg letter]
    exact ⟨_,_,rfl,Or.inr ⟨by omega,rfl,rfl⟩⟩

/-- A key that is no modifier leaves the counts alone or puts them right. -/
theorem useSymbol_plain {keysym : Nat} (plain : modifier keysym = none) (codes : ∀ k, d.keyDown k = true → k < 128)
    (c : Nat) (up : Bool) :
    Quiet d (useSymbol m d c keysym up false) ∨
      Framed d (useSymbol m d c keysym up false) ∧ Accurate m (useSymbol m d c keysym up false) := by
  rw [modifier_eq] at plain
  split at plain
  · exact absurd plain (by simp)
  next kinds =>
    by_cases typed : KTYP keysym ≥ 0xf0
    · obtain ⟨type,value,handled,type_eq⟩ := useSymbol_eq m d c up typed
      have types : KT_SHIFT = 7 ∧ KT_SLOCK = 12 ∧ KT_LATIN = 0 := ⟨rfl,rfl,rfl⟩
      have shift : type ≠ KT_SHIFT := by omega
      have slock : type ≠ KT_SLOCK := by omega
      rw [handled]
      by_cases hole : type ≠ KT_SPEC ∨ value ≠ 0
      · exact Or.inl ((keyHandler_quiet shift slock hole d up).trans (clear_slock type _))
      · rw [not_or,not_not,not_not] at hole
        obtain ⟨rfl,rfl⟩ := hole
        have cleared := clear_slock KT_SPEC (doSpec m d 0 up)
        rcases doSpec_hole (m := m) codes up with quiet | ⟨framed,accurate⟩
        · exact Or.inl (quiet.trans cleared)
        · exact Or.inr ⟨framed.trans cleared.toFramed,accurate.of_quiet cleared⟩
    · unfold useSymbol
      rw [if_neg typed]
      split
      · exact Or.inl (toUtf8_quiet d keysym)
      · exact Or.inl (quiet_refl d)

/-- A modifier is counted, unless its key repeats. -/
theorem useSymbol_modifier {keysym : Nat} (mods : modifier keysym = some v) (c : Nat) (up : Bool) :
    (d.rep = false → Moved d v up (useSymbol m d c keysym up false)) ∧
      (d.rep = true → Quiet d (useSymbol m d c keysym up false)) := by
  rw [modifier_eq] at mods
  split at mods
  next kinds =>
    rw [Option.some_inj,← shiftOf] at mods
    subst mods
    have typed : KTYP keysym ≥ 0xf0 := by omega
    obtain ⟨type,value,handled,type_eq⟩ := useSymbol_eq m d c up typed
    have types : KT_SHIFT = 7 ∧ KT_SLOCK = 12 := ⟨rfl,rfl⟩
    have value_eq : value = KVAL keysym := by omega
    subst value_eq
    have shifts : Quiet (doShift d (KVAL keysym) up) (useSymbol m d c keysym up false) := by
      rw [handled]
      rcases kinds with shift | slock
      · obtain rfl : type = KT_SHIFT := by omega
        exact clear_slock KT_SHIFT _
      · obtain rfl : type = KT_SLOCK := by omega
        exact (doSlock_quiet m d _ up).trans (clear_slock KT_SLOCK _)
    constructor
    · intro fresh
      exact (doShift_moved (KVAL keysym) up fresh).quiet shifts
    · intro again
      rw [doShift_repeated _ _ again] at shifts
      exact shifts
  · exact absurd mods (by simp)

/-! ### One key -/

/-- A release that the counts are not prepared for: the key was not down, and
    is taken for a press, or there is another key of the modifier to be taken for
    it. -/
def Misread (m : Keymap) (d : Driver) (c : Nat) (up : Bool) : Prop :=
  up = true ∧ d.keyDown c = false ∧ (m.keyMaps (shiftFinal d)).isSome ∧
    ∃ v ∈ modifier (m.plainMap c), keyboardPckbdUnexpectedUp c = false ∨ d.kDown v ≠ 0

instance : Decidable (Misread m d c up) :=
  inferInstanceAs (Decidable (_ ∧ _ ∧ _ ∧ ∃ v ∈ modifier (m.plainMap c), _ ∨ d.kDown v ≠ 0))

/-- The state of `handle_scancode` after the key was noted. -/
theorem trackKey_fields (d : Driver) (c : Nat) (up : Bool) :
    (trackKey d c up).1.kDown = d.kDown ∧ (trackKey d c up).1.shiftState = d.shiftState ∧
      (trackKey d c up).1.keyDown = Function.update d.keyDown c (!up) ∧
      (trackKey d c up).1.rep = (!up && d.keyDown c) ∧ (trackKey d c up).1.kbdmode = d.kbdmode ∧
      shiftFinal (trackKey d c up).1 = shiftFinal d ∧
      (trackKey d c up).2 = (up && (d.keyDown c || keyboardPckbdUnexpectedUp c)) := by
  unfold trackKey
  cases up with
  | false => exact ⟨rfl,rfl,rfl,rfl,rfl,rfl,rfl⟩
  | true =>
    refine ⟨rfl,rfl,rfl,rfl,rfl,rfl,?_⟩
    cases d.keyDown c <;> rfl

theorem Moved.accurate (moved : Moved d v up d') (mirror : ∀ w, d.shiftState.testBit w = decide (d.kDown w ≠ 0))
    (counts : ∀ w, Function.update d.kDown v (if up then d.kDown v - 1 else (d.kDown v + 1) % 256) w = count m d'.keyDown w)
    (codes : ∀ k, d'.keyDown k = true → k < 128) : Accurate m d' := by
  refine ⟨?_,?_,codes⟩
  · rw [moved.kDown]
    exact counts
  · intro w
    rw [moved.bits]
    by_cases here : w = v
    · rw [if_pos here,here]
    · rw [if_neg here,mirror,moved.kDown,Function.update_of_ne here]

theorem update_codes (codes : ∀ k, d.keyDown k = true → k < 128) (less : c < 128) (down : Bool) :
    ∀ k, Function.update d.keyDown c down k = true → k < 128 := by
  intro k held
  by_cases here : k = c
  · rw [here]
    exact less
  · rw [Function.update_of_ne here] at held
    exact codes k held

/-- One more key of a modifier counts one more, one less counts one less. -/
theorem moved_counts (accurate : Accurate m d) (less : c < 128) (mods : modifier (m.plainMap c) = some v) (up : Bool)
    (known : d.keyDown c = up) (w : Nat) :
    Function.update d.kDown v (if up then d.kDown v - 1 else (d.kDown v + 1) % 256) w =
      count m (Function.update d.keyDown c (!up)) w := by
  have codes := update_codes accurate.codes less
  cases up with
  | false =>
    have more := fun w => count_press (m := m) d.keyDown (c := c) (by omega) known w
    have low := count_low (m := m) (d := { d with keyDown := Function.update d.keyDown c true }) (codes true) v
    dsimp only at low
    rw [more,if_pos mods] at low
    rw [Bool.not_false,more,if_neg (by simp)]
    by_cases here : w = v
    · rw [here,Function.update_self,accurate.counts,if_pos mods,Nat.mod_eq_of_lt low]
    · rw [Function.update_of_ne here,accurate.counts,mods,if_neg (by simpa using Ne.symm here),Nat.add_zero]
  | true =>
    have more := fun w => count_release (m := m) d.keyDown (c := c) (by omega) known w
    rw [Bool.not_true,if_pos rfl]
    by_cases here : w = v
    · rw [here,Function.update_self,accurate.counts,more,if_pos mods,Nat.add_sub_cancel]
    · rw [Function.update_of_ne here,accurate.counts,more,mods,if_neg (by simpa using Ne.symm here),Nat.add_zero]

/-- A key that is no modifier counts for none. -/
theorem plain_counts (plain : modifier (m.plainMap c) = none) (keyDown : Nat → Bool) (down : Bool) (w : Nat) :
    count m (Function.update keyDown c down) w = count m keyDown w := by
  refine List.countP_congr fun k _ => ?_
  by_cases here : k = c
  · rw [here,holds,holds,plain]
    simp
  · rw [holds,holds,Function.update_of_ne here]

/-- What becomes of the counts when a key is used. -/
theorem useKey_cases (uniform : Keymap.Uniform m) (less : c < 128) (codes : ∀ k, d.keyDown k = true → k < 128) (up : Bool) :
    (¬ ((m.keyMaps (shiftFinal d)).isSome ∧ (modifier (m.plainMap c)).isSome) ∧
      Framed d (useKey m d c up false) ∧ Accurate m (useKey m d c up false)) ∨
      ((m.keyMaps (shiftFinal d)).isSome ∧
        ((modifier (m.plainMap c) = none ∨ d.rep = true) ∧ Quiet d (useKey m d c up false) ∨
          d.rep = false ∧ ∃ v, modifier (m.plainMap c) = some v ∧ Moved d v up (useKey m d c up false))) := by
  unfold useKey
  split
  next keyMap found =>
    have same := uniform _ _ found c less
    cases mods : modifier (keyMap c) with
    | none =>
      rcases useSymbol_plain (m := m) mods codes c up with quiet | right
      · exact Or.inr ⟨by simp [found],Or.inl ⟨Or.inl (same ▸ mods),quiet⟩⟩
      · exact Or.inl ⟨by simp [← same,mods],right⟩
    | some v =>
      obtain ⟨moved,still⟩ := useSymbol_modifier (m := m) (d := d) mods c up
      cases rep : d.rep with
      | false => exact Or.inr ⟨by simp [found],Or.inr ⟨rfl,v,same ▸ mods,moved rep⟩⟩
      | true => exact Or.inr ⟨by simp [found],Or.inl ⟨Or.inr rfl,still rep⟩⟩
  next missing =>
    obtain ⟨framed,accurate⟩ := computeShiftstate_accurate m codes
    have cleared := slockstate_quiet (computeShiftstate m d)
    exact Or.inl ⟨by simp [missing],framed.trans cleared.toFramed,accurate.of_quiet cleared⟩

/-- One key keeps the counts right exactly if it is not misread. -/
theorem handleKeycode_accurate (uniform : Keymap.Uniform m) (accurate : Accurate m d) (xlate : d.kbdmode = VC_XLATE)
    (less : c < 128) (up : Bool) : Accurate m (handleKeycode m d c up) ↔ ¬ Misread m d c up := by
  obtain ⟨kDown,shiftState,keyDown,rep,mode,final,up'⟩ := trackKey_fields d c up
  have raw : VC_RAW ≠ VC_XLATE ∧ VC_MEDIUMRAW ≠ VC_XLATE := by decide
  unfold handleKeycode
  simp only [mode,xlate,raw.1.symm,raw.2.symm,decide_false,Bool.false_eq_true,if_false,Bool.or_false]
  generalize (trackKey d c up).1 = d₁ at kDown shiftState keyDown rep mode final ⊢
  generalize (trackKey d c up).2 = moved at up' ⊢
  have codes : ∀ k, d₁.keyDown k = true → k < 128 := by
    rw [keyDown]
    exact update_codes accurate.codes less (!up)
  have mirror : ∀ w, d₁.shiftState.testBit w = decide (d₁.kDown w ≠ 0) := by
    rw [kDown,shiftState]
    exact accurate.mirror
  by_cases known : d.keyDown c = up
  · -- the key moves as the driver expects
    have quick : d₁.rep = false := by
      rw [rep,known]
      cases up <;> rfl
    have as : moved = up := by
      rw [up',known]
      cases up <;> rfl
    have fine : ¬ Misread m d c up := by
      rintro ⟨rfl,off,_⟩
      rw [known] at off
      exact absurd off (by simp)
    rw [quick,as]
    simp only [Bool.false_eq_true,not_false_eq_true,true_or,if_true]
    refine iff_of_true ?_ fine
    rcases useKey_cases uniform less codes up with ⟨_,_,right⟩ | ⟨_,⟨plain | again,quiet⟩ | ⟨_,v,mods,moves⟩⟩
    · exact right
    · refine Accurate.of_quiet ⟨fun w => ?_,mirror,codes⟩ quiet
      rw [kDown,keyDown,plain_counts plain]
      exact accurate.counts w
    · rw [quick] at again
      exact absurd again (by simp)
    · refine moves.accurate mirror (fun w => ?_) (by rw [moves.keyDown]; exact codes)
      rw [moves.keyDown,keyDown,kDown]
      exact moved_counts accurate less mods up known w
  · have still : d₁.keyDown = d.keyDown := by
      rw [keyDown,← Bool.eq_not.mpr known,Function.update_eq_self]
    have right : Accurate m d₁ := by
      refine ⟨fun w => ?_,mirror,codes⟩
      rw [kDown,still]
      exact accurate.counts w
    cases up with
    | false =>
      -- the key repeats
      have again : d₁.rep = true := by
        rw [rep]
        simpa using known
      have fine : ¬ Misread m d c false := fun misread => absurd misread.1 (by simp)
      refine iff_of_true ?_ fine
      split
      · rcases useKey_cases uniform less codes moved with ⟨_,_,right⟩ | ⟨_,⟨_,quiet⟩ | ⟨fresh,_⟩⟩
        · exact right
        · exact right.of_quiet quiet
        · rw [again] at fresh
          exact absurd fresh (by simp)
      · exact right
    | true =>
      have off : d.keyDown c = false := by simpa using known
      have quick : d₁.rep = false := by
        rw [rep]
        rfl
      rw [off,Bool.true_and,Bool.false_or] at up'
      rw [quick]
      simp only [Bool.false_eq_true,not_false_eq_true,true_or,if_true]
      rcases useKey_cases uniform less codes moved with ⟨none,_,right'⟩ | ⟨some,⟨plain | again,quiet⟩ | ⟨_,v,mods,moves⟩⟩
      · refine iff_of_true right' ?_
        rintro ⟨_,_,some,v,mods,_⟩
        rw [final] at none
        exact none ⟨some,Option.isSome_of_mem mods⟩
      · refine iff_of_true (right.of_quiet quiet) ?_
        rintro ⟨_,_,_,v,mods,_⟩
        rw [plain] at mods
        exact absurd mods (Option.not_mem_none v)
      · rw [quick] at again
        exact absurd again (by simp)
      · rw [final] at some
        have less := count_low (m := m) accurate.codes v
        rw [← accurate.counts] at less
        have counted := congrFun moves.kDown v
        rw [Function.update_self,kDown] at counted
        by_cases harmless : moved = true ∧ d.kDown v = 0
        · obtain ⟨comes,zero⟩ := harmless
          refine iff_of_true (moves.accurate mirror (fun w => ?_) (by rw [moves.keyDown]; exact codes)) ?_
          · rw [moves.keyDown,still,kDown,comes,if_pos rfl,zero,← accurate.counts,Nat.zero_sub,← zero,
              Function.update_eq_self]
          · rintro ⟨_,_,_,w,mods',wrong⟩
            obtain rfl := Option.mem_unique mods' mods
            rw [← up',comes,zero] at wrong
            simp at wrong
        · refine iff_of_false (fun wrong => ?_) (not_not.mpr ⟨rfl,off,some,v,mods,?_⟩)
          · rw [wrong.counts,moves.keyDown,still,← accurate.counts] at counted
            cases moved with
            | false =>
              rw [if_neg (by simp)] at counted
              omega
            | true =>
              rw [if_pos rfl] at counted
              simp only [true_and] at harmless
              omega
          · rw [← up']
            cases moved with
            | false => exact Or.inl rfl
            | true => exact Or.inr (fun zero => harmless ⟨rfl,zero⟩)

/-! ### Interrupts -/

/-- Between two interrupts. -/
structure Ready (d : Driver) : Prop where
  xlate : d.kbdmode = VC_XLATE
  locks : d.init = true ∨ d.lockstate = 0 ∧ d.slockstate = 0

/-- `do_scancode` hears of the byte. -/
def heard (scan : UInt8) : Bool :=
  ¬ (0x3b ≤ scan.toNat ∧ scan.toNat ≤ 0x3e) ∧ scan.toNat ≠ 0x00 ∧ scan.toNat ≠ 0xff

/-- The byte is misread. -/
def MisreadScan (m : Keymap) (d : Driver) (scan : UInt8) : Prop :=
  heard scan = true ∧ ∃ c ∈ (keyboardPckbdTranslate d.prevScancode scan.toNat).2, Misread m d c (scan.toNat.testBit 7)

instance (scan : UInt8) : Decidable (MisreadScan m d scan) :=
  inferInstanceAs (Decidable (_ ∧ ∃ c ∈ (keyboardPckbdTranslate d.prevScancode scan.toNat).2, _))

/-- None of the bytes is. -/
def ReadRight (m : Keymap) (d : Driver) : List UInt8 → Prop
  | [] => True
  | scan :: rest => ¬ MisreadScan m d scan ∧ ReadRight m (handleInt33 m d scan) rest

instance readRightDecidable : (d : Driver) → (scans : List UInt8) → Decidable (ReadRight m d scans)
  | _,[] => isTrue trivial
  | d,_ :: rest => @instDecidableAnd _ _ _ (readRightDecidable (handleInt33 m d _) rest)

theorem handleKeycode_framed (uniform : Keymap.Uniform m) (codes : ∀ k, d.keyDown k = true → k < 128)
    (xlate : d.kbdmode = VC_XLATE) (less : c < 128) (up : Bool) :
    (handleKeycode m d c up).keyDown = Function.update d.keyDown c (!up) ∧
      (handleKeycode m d c up).kbdmode = d.kbdmode ∧ (handleKeycode m d c up).init = d.init ∧
      (handleKeycode m d c up).prevScancode = d.prevScancode := by
  have raw : VC_RAW ≠ VC_XLATE ∧ VC_MEDIUMRAW ≠ VC_XLATE := by decide
  have stays : (trackKey d c up).1.init = d.init ∧ (trackKey d c up).1.prevScancode = d.prevScancode := by
    unfold trackKey
    split <;> exact ⟨rfl,rfl⟩
  obtain ⟨_,_,keyDown,_,mode,_,_⟩ := trackKey_fields d c up
  unfold handleKeycode
  simp only [mode,xlate,raw.1.symm,raw.2.symm,decide_false,Bool.false_eq_true,if_false,Bool.or_false]
  generalize (trackKey d c up).1 = d₁ at stays keyDown mode ⊢
  generalize (trackKey d c up).2 = moved
  rw [← keyDown,← stays.1,← stays.2,← xlate,← mode]
  split
  · have framed : Framed d₁ (useKey m d₁ c moved false) := by
      rcases useKey_cases uniform less (by rw [keyDown]; exact update_codes codes less (!up)) moved with
        ⟨_,framed,_⟩ | ⟨_,⟨_,quiet⟩ | ⟨_,_,_,moves⟩⟩
      · exact framed
      · exact quiet.toFramed
      · exact moves.toFramed
    exact ⟨framed.keyDown,framed.kbdmode,framed.init,framed.prevScancode⟩
  · exact ⟨rfl,rfl,rfl,rfl⟩

/-- The driver once `do_scancode` has set it up. -/
def opened (d : Driver) : Driver := if d.init then d else kbdInit { d with init := true }

theorem opened_fields (ready : Ready d) :
    (opened d).keyDown = d.keyDown ∧ (opened d).kDown = d.kDown ∧ (opened d).shiftState = d.shiftState ∧
      (opened d).prevScancode = d.prevScancode ∧ (opened d).kbdmode = VC_XLATE ∧ (opened d).init = true ∧
      shiftFinal (opened d) = shiftFinal d := by
  unfold opened
  split
  next init => exact ⟨rfl,rfl,rfl,rfl,ready.xlate,init,rfl⟩
  next fresh =>
    obtain ⟨lock,slock⟩ := ready.locks.resolve_left fresh
    have quiet := kbdBh_quiet { d with
      init := true, ledflagstate := 0, lockstate := 0, slockstate := 0, modeflags := KBD_DEFMODE, kbdmode := VC_XLATE }
    have locks : (kbdInit { d with init := true }).lockstate = 0 ∧ (kbdInit { d with init := true }).slockstate = 0 := by
      unfold kbdInit kbdBh
      dsimp only
      split <;> exact ⟨rfl,rfl⟩
    refine ⟨quiet.keyDown,quiet.kDown,quiet.shiftState,quiet.prevScancode,quiet.kbdmode,quiet.init,?_⟩
    have bits : (kbdInit { d with init := true }).shiftState = d.shiftState := quiet.shiftState
    rw [shiftFinal,shiftFinal,bits,locks.1,locks.2,lock,slock]

theorem handleInt33_eq (m : Keymap) (d : Driver) (scan : UInt8) :
    handleInt33 m d scan =
      if heard scan then kbdBh (handleScancode m (opened d) scan.toNat (!scan.toNat.testBit 7))
      else if 0x3b ≤ scan.toNat ∧ scan.toNat ≤ 0x3e then { d with effects := d.effects ++ [.flip (scan.toNat - 0x3b)] }
      else opened d := by
  unfold handleInt33 doScancode heard
  rw [← opened]
  by_cases flips : 0x3b ≤ scan.toNat ∧ scan.toNat ≤ 0x3e
  · simp [flips]
  · by_cases valid : scan.toNat ≠ 0x00 ∧ scan.toNat ≠ 0xff
    · rw [if_neg flips,if_pos valid,if_pos (decide_eq_true ⟨flips,valid⟩)]
    · rw [if_neg flips,if_neg valid,if_neg (fun both => valid (of_decide_eq_true both).2),if_neg flips]

/-- What one scan code does to the state of the keys. -/
theorem handleScancode_step (uniform : Keymap.Uniform m) (codes : ∀ k, d.keyDown k = true → k < 128)
    (xlate : d.kbdmode = VC_XLATE) (scancode : Nat) (down : Bool) :
    (handleScancode m d scancode down).kbdmode = d.kbdmode ∧ (handleScancode m d scancode down).init = d.init ∧
      (handleScancode m d scancode down).prevScancode = (keyboardPckbdTranslate d.prevScancode scancode).1 ∧
      (handleScancode m d scancode down).keyDown = (match (keyboardPckbdTranslate d.prevScancode scancode).2 with
        | some c => Function.update d.keyDown c down
        | none => d.keyDown) ∧
      (Accurate m d → (Accurate m (handleScancode m d scancode down) ↔
        ¬ ∃ c ∈ (keyboardPckbdTranslate d.prevScancode scancode).2, Misread m d c (!down))) := by
  have raw : VC_XLATE ≠ VC_RAW := by decide
  unfold handleScancode
  rw [if_neg (xlate ▸ raw)]
  dsimp only
  generalize translates : keyboardPckbdTranslate d.prevScancode scancode = result
  obtain ⟨prev,keycode⟩ := result
  cases keycode with
  | none => exact ⟨rfl,rfl,rfl,rfl,fun accurate => iff_of_true ⟨accurate.counts,accurate.mirror,accurate.codes⟩ (by simp)⟩
  | some c =>
    have less := keycode_less translates
    obtain ⟨keys,mode,init,last⟩ := handleKeycode_framed uniform (d := { d with prevScancode := prev }) codes xlate less (!down)
    rw [Bool.not_not] at keys
    refine ⟨mode,init,last,keys,fun accurate => ?_⟩
    have right : Accurate m { d with prevScancode := prev } := ⟨accurate.counts,accurate.mirror,accurate.codes⟩
    have key := handleKeycode_accurate uniform right xlate less (!down)
    dsimp only
    rw [key]
    simp only [Option.mem_def,Option.some_inj,exists_eq_left']
    rfl

/-- What one interrupt does to it. -/
theorem handleInt33_step (uniform : Keymap.Uniform m) (codes : ∀ k, d.keyDown k = true → k < 128) (ready : Ready d)
    (scan : UInt8) :
    Ready (handleInt33 m d scan) ∧
      (handleInt33 m d scan).prevScancode =
        (if heard scan then (keyboardPckbdTranslate d.prevScancode scan.toNat).1 else d.prevScancode) ∧
      (handleInt33 m d scan).keyDown =
        (match (if heard scan then (keyboardPckbdTranslate d.prevScancode scan.toNat).2 else none) with
          | some c => Function.update d.keyDown c (!scan.toNat.testBit 7)
          | none => d.keyDown) ∧
      (Accurate m d → (Accurate m (handleInt33 m d scan) ↔ ¬ MisreadScan m d scan)) := by
  obtain ⟨keyDown,kDown,shiftState,prev,mode,init,final⟩ := opened_fields ready
  have same : Accurate m d → Accurate m (opened d) := by
    intro accurate
    refine ⟨?_,?_,?_⟩
    · rw [kDown,keyDown]
      exact accurate.counts
    · rw [kDown,shiftState]
      exact accurate.mirror
    · rw [keyDown]
      exact accurate.codes
  rw [handleInt33_eq]
  cases hears : heard scan with
  | false =>
    have fine : ¬ MisreadScan m d scan := fun misread => absurd (hears ▸ misread.1) (by simp)
    simp only [Bool.false_eq_true,if_false]
    split
    · exact ⟨⟨ready.xlate,ready.locks⟩,rfl,rfl,fun accurate =>
        iff_of_true ⟨accurate.counts,accurate.mirror,accurate.codes⟩ fine⟩
    · exact ⟨⟨mode,Or.inl init⟩,prev,keyDown,fun accurate => iff_of_true (same accurate) fine⟩
  | true =>
    obtain ⟨mode',init',prev',keys,right⟩ := handleScancode_step uniform (d := opened d) (by rw [keyDown]; exact codes) mode
      scan.toNat (!scan.toNat.testBit 7)
    have quiet := kbdBh_quiet (handleScancode m (opened d) scan.toNat (!scan.toNat.testBit 7))
    have back : Quiet (kbdBh (handleScancode m (opened d) scan.toNat (!scan.toNat.testBit 7)))
        (handleScancode m (opened d) scan.toNat (!scan.toNat.testBit 7)) :=
      ⟨⟨quiet.keyDown.symm,quiet.rep.symm,quiet.kbdmode.symm,quiet.modeflags.symm,quiet.init.symm,
        quiet.prevScancode.symm⟩,quiet.kDown.symm,quiet.shiftState.symm⟩
    rw [prev] at prev' keys right
    rw [keyDown] at keys
    simp only [if_true]
    refine ⟨⟨(quiet.kbdmode.trans mode').trans mode,Or.inl ((quiet.init.trans init').trans init)⟩,
      quiet.prevScancode.trans prev',quiet.keyDown.trans keys,fun accurate => ?_⟩
    have misreads : MisreadScan m d scan ↔
        ∃ c ∈ (keyboardPckbdTranslate d.prevScancode scan.toNat).2, Misread m (opened d) c (!!scan.toNat.testBit 7) := by
      simp only [MisreadScan,hears,true_and,Misread,final,keyDown,kDown,Bool.not_not]
    rw [misreads,← right (same accurate)]
    exact ⟨fun after => after.of_quiet back,fun before => before.of_quiet quiet⟩

/-- The keys that are down after some keycodes. -/
def press (down : Nat → Bool) (events : List (Nat × Bool)) : Nat → Bool :=
  events.foldl (fun down event => Function.update down event.1 (!event.2)) down

theorem run_step (uniform : Keymap.Uniform m) (scans : List UInt8) (codes : ∀ k, d.keyDown k = true → k < 128)
    (ready : Ready d) :
    Ready (run m d scans) ∧
      (run m d scans).keyDown = press d.keyDown (translated d.prevScancode (scans.filter heard)).2 ∧
      (∀ k, (run m d scans).keyDown k = true → k < 128) ∧
      (Accurate m d → ReadRight m d scans → Accurate m (run m d scans)) := by
  induction scans generalizing d with
  | nil => exact ⟨ready,rfl,codes,fun accurate _ => accurate⟩
  | cons scan rest hyp =>
    obtain ⟨ready',prev,keys,right⟩ := handleInt33_step uniform codes ready scan
    have codes' : ∀ k, (handleInt33 m d scan).keyDown k = true → k < 128 := by
      rw [keys]
      split
      next c found =>
        split at found
        · exact update_codes codes (keycode_less (Prod.ext rfl found :
            keyboardPckbdTranslate d.prevScancode scan.toNat = (_,some c))) _
        · exact absurd found (by simp)
      · exact codes
    obtain ⟨last,down,low,rights⟩ := hyp codes' ready'
    refine ⟨last,?_,low,fun accurate reads => rights ((right accurate).mpr reads.1) reads.2⟩
    rw [run,List.foldl_cons,← run,down,prev,keys]
    cases hears : heard scan with
    | false =>
      rw [List.filter_cons_of_neg (by simp [hears])]
      rfl
    | true =>
      rw [List.filter_cons_of_pos hears]
      simp only [if_true,translated]
      cases (keyboardPckbdTranslate d.prevScancode scan.toNat).2 <;> rfl

/-- Once switched on, the driver knows which keys are down, and a modifier is
    active exactly if one of its keys is, as long as no byte is misread. A byte
    that is misread makes the counts wrong, every other one leaves them right. -/
theorem modifiers_held (uniform : Keymap.Uniform m) (scans : List UInt8) (reads : ReadRight m start scans) :
    (run m start scans).keyDown = press (fun _ => false) (translated 0 (scans.filter heard)).2 ∧
      (∀ v, (run m start scans).shiftState.testBit v = true ↔
        ∃ k, (run m start scans).keyDown k = true ∧ modifier (m.plainMap k) = some v) ∧
      ∀ scan, Accurate m (handleInt33 m (run m start scans) scan) ↔ ¬ MisreadScan m (run m start scans) scan := by
  have fresh : Accurate m start := by
    refine ⟨fun v => ?_,fun v => by simp [start],fun k down => absurd down (by simp [start])⟩
    have none : (List.range 256).countP (holds m start.keyDown v) = 0 :=
      List.countP_eq_zero.mpr fun k _ => by simp [holds,start]
    exact none.symm
  obtain ⟨ready,down,codes,right⟩ := run_step uniform scans fresh.codes ⟨rfl,Or.inr ⟨rfl,rfl⟩⟩
  have accurate := right fresh reads
  refine ⟨down,fun v => ?_,fun scan => (handleInt33_step uniform codes ready scan).2.2.2 accurate⟩
  rw [accurate.mirror,accurate.counts,decide_eq_true_iff,← Nat.pos_iff_ne_zero,count,List.countP_pos_iff]
  simp only [holds,Bool.and_eq_true,decide_eq_true_iff,List.mem_range]
  constructor
  · rintro ⟨k,_,held⟩
    exact ⟨k,held⟩
  · rintro ⟨k,held⟩
    have := accurate.codes k held.1
    exact ⟨k,by omega,held⟩

theorem defkeymap_uniform : Keymap.Uniform defkeymap := by
  have same : ∀ map ∈ [shiftMap,altgrMap,ctrlMap,altgrCtrlMap,altMap,ctrlAltMap], ∀ c < 128,
      modifier (entry map c) = modifier (entry plainMap c) := by decide +kernel
  intro i keyMap found c less
  unfold Keymap.keyMaps defkeymap at found
  split at found
  · rw [← Option.some.inj found]
    rfl
  · dsimp only at found
    split at found
    all_goals first
      | rw [← Option.some.inj found]
      | exact absurd found (by simp)
    all_goals exact same _ (by simp) c less

/-- Shift and a letter on the default map, and the right control key. -/
theorem modifiers_held_default :
    (run defkeymap start [0x2a,0x1e,0x9e,0xaa,0xe0,0x1d]).shiftState.testBit 2 = true ∧
      ¬ Accurate defkeymap (handleInt33 defkeymap (run defkeymap start [0xe0]) 0x9d) := by
  constructor
  · exact ((modifiers_held defkeymap_uniform [0x2a,0x1e,0x9e,0xaa,0xe0,0x1d] (by decide +kernel)).2.1 2).mpr
      ⟨97,by decide +kernel⟩
  · rw [(modifiers_held defkeymap_uniform [0xe0] (by decide +kernel)).2.2 0x9d]
    decide +kernel

end Psys.Modifiers
