import Mathlib.Data.List.GetD
import Mathlib.Data.UInt
import Mathlib.Tactic.IntervalCases

/-!
The scan codes of the keyboard, as `scancode.c` reads them: `keyboard_pckbd_translate`
remembers prefixes from one byte to the next. What a keyboard sends for its keys
is decoded again, and a prefix that got lost or came up spoils two keys at most.
-/
namespace Psys.Scancodes

def E1_PAUSE : Nat := 119
def SC_LIM : Nat := 89

/-- `high_keys` -/
def highKeys : List Nat :=
  [124,125,126,127,0,0,0,
   0,0,0,0,0,0,0,0,
   0,0,0,0,0,122,0,123,
   0,0,0,89,120,0,0,90,
   91,92,93,94,
   95,124,121,0]

/-- `e0_keys` -/
def e0Keys : List Nat :=
  [0,0,0,0,0,0,0,0,
   0,0,0,0,0,0,0,0,
   0,0,0,0,0,0,0,0,
   0,0,0,0,96,97,0,0,
   0,0,0,0,0,0,0,0,
   0,0,0,0,0,0,0,0,
   0,0,0,0,0,98,0,99,
   100,0,0,0,0,113,114,115,
   116,117,0,0,0,0,101,102,
   103,104,0,105,124,106,118,107,
   108,109,110,111,0,0,0,0,
   0,0,0,125,126,127,0,0,
   0,0,0,0,0,0,0,0,
   0,0,0,0,0,0,0,112,
   0,0,0,0,0,0,0,0,
   0,0,0,0,0,0,0,0]

/-- An entry of a table that knows its key. -/
def known (table : List Nat) (i : Nat) : Option Nat := if table.getD i 0 = 0 then none else some (table.getD i 0)

/-- `keyboard_pckbd_translate`: the new `prev_scancode`, and the keycode if there is
    one. -/
def keyboardPckbdTranslate (prev scancode : Nat) : Nat × Option Nat :=
  if scancode = 0xe0 ∨ scancode = 0xe1 then (scancode,none)
  else if scancode = 0x00 ∨ scancode = 0xff then (0,none)
  else
    let scancode := scancode &&& 0x7f
    if prev ≠ 0 then
      if prev ≠ 0xe0 then
        if prev = 0xe1 ∧ scancode = 0x1d then (0x100,none)
        else if prev = 0x100 ∧ scancode = 0x45 then (0,some E1_PAUSE)
        else (0,none)
      else if scancode = 0x2a ∨ scancode = 0x36 then (0,none)
      else (0,known e0Keys scancode)
    else if scancode ≥ SC_LIM then (prev,known highKeys (scancode - SC_LIM))
    else (prev,some scancode)

/-- `keyboard_pckbd_unexpected_up`, whether the key stays one that comes up. -/
def keyboardPckbdUnexpectedUp (keycode : Nat) : Bool := ¬ (keycode ≥ SC_LIM ∨ keycode = 85)

/-- The keycodes that a row of bytes gives, each with whether its key comes up. -/
def translated (prev : Nat) : List UInt8 → Nat × List (Nat × Bool)
  | [] => (prev,[])
  | scan :: rest =>
    let (prev',keycode) := keyboardPckbdTranslate prev scan.toNat
    let (last,found) := translated prev' rest
    (last,keycode.toList.map (fun c => (c,scan.toNat.testBit 7)) ++ found)

/-! ### The keyboard -/

/-- A key: its code, which is none that would be a prefix or an error when it
    comes up. -/
structure Key where
  extended : Bool
  code : Nat
  pos : 0 < code
  less : code < 0x7f
  free : code ≠ 0x60 ∧ code ≠ 0x61
deriving DecidableEq

/-- The keycode of a key. The shifts that a keyboard sends around extended keys
    have none. -/
def Key.keycode (key : Key) : Option Nat :=
  if key.extended then if key.code = 0x2a ∨ key.code = 0x36 then none else known e0Keys key.code
  else if key.code ≥ SC_LIM then known highKeys (key.code - SC_LIM) else some key.code

inductive Event where
  | stroke (key : Key) (up : Bool)
  | pause

/-- What the keyboard sends. -/
def Event.bytes : Event → List UInt8
  | .stroke key up => (if key.extended then [0xe0] else []) ++ [UInt8.ofNat (key.code + if up then 0x80 else 0)]
  | .pause => [0xe1,0x1d,0x45,0xe1,0x9d,0xc5]

/-- What it is to be read as. -/
def Event.keycodes : Event → List (Nat × Bool)
  | .stroke key up => key.keycode.toList.map (fun c => (c,up))
  | .pause => [(E1_PAUSE,false),(E1_PAUSE,true)]

/-! ### Reading -/

theorem translated_append (prev : Nat) (xs ys : List UInt8) :
    translated prev (xs ++ ys) =
      ((translated (translated prev xs).1 ys).1,(translated prev xs).2 ++ (translated (translated prev xs).1 ys).2) := by
  induction xs generalizing prev with
  | nil => rfl
  | cons x xs hyp => simp only [List.cons_append,translated,hyp,List.append_assoc]

/-- The byte of a key. -/
theorem byte (key : Key) (up : Bool) :
    let s := (UInt8.ofNat (key.code + if up then 0x80 else 0)).toNat
    s ≠ 0xe0 ∧ s ≠ 0xe1 ∧ s ≠ 0 ∧ s ≠ 0xff ∧ s &&& 0x7f = key.code ∧ s.testBit 7 = up := by
  obtain ⟨extended,code,pos,less,free⟩ := key
  dsimp only
  rw [UInt8.toNat_ofNat']
  refine ⟨?_,?_,?_,?_,?_,?_⟩
  · split <;> omega
  · split <;> omega
  · split <;> omega
  · split <;> omega
  · rw [show (0x7f : Nat) = 2 ^ 7 - 1 from rfl,Nat.and_two_pow_sub_one_eq_mod]
    split <;> omega
  · rw [Nat.testBit_eq_decide_div_mod_eq]
    cases up
    · simp only [decide_eq_false_iff_not]
      simp
      omega
    · simp only [decide_eq_true_iff]
      simp
      omega

/-- A byte that is no prefix, after none and after `0xe0`. -/
theorem translate_plain (key : Key) (up : Bool) (plain : key.extended = false) :
    keyboardPckbdTranslate 0 (UInt8.ofNat (key.code + if up then 0x80 else 0)).toNat = (0,key.keycode) := by
  obtain ⟨first,second,zero,error,code,_⟩ := byte key up
  rw [keyboardPckbdTranslate,if_neg (by tauto),if_neg (by tauto),code,Key.keycode,plain]
  simp only [ne_eq,not_true_eq_false,if_false,Bool.false_eq_true]
  split <;> rfl

theorem translate_extended (key : Key) (up : Bool) (extended : key.extended = true) :
    keyboardPckbdTranslate 0xe0 (UInt8.ofNat (key.code + if up then 0x80 else 0)).toNat = (0,key.keycode) := by
  obtain ⟨first,second,zero,error,code,_⟩ := byte key up
  rw [keyboardPckbdTranslate,if_neg (by tauto),if_neg (by tauto),code,Key.keycode,extended]
  simp only [ne_eq,not_true_eq_false,if_false,if_true]
  rw [if_pos (by decide)]
  split <;> rfl

theorem event_read (event : Event) : translated 0 event.bytes = (0,event.keycodes) := by
  cases event with
  | stroke key up =>
    obtain ⟨_,_,_,_,_,bit⟩ := byte key up
    cases extended : key.extended with
    | false =>
      simp only [Event.bytes,extended,Bool.false_eq_true,if_false,List.nil_append,translated,
        translate_plain key up extended,bit,Event.keycodes,List.append_nil]
    | true =>
      have marked : keyboardPckbdTranslate 0 (0xe0 : UInt8).toNat = (0xe0,none) := rfl
      simp only [Event.bytes,extended,if_true,List.cons_append,List.nil_append,translated,marked,
        translate_extended key up extended,bit,Event.keycodes,List.append_nil,Option.toList,List.map_nil]
  | pause => rfl

theorem events_read (events : List Event) :
    translated 0 (events.flatMap Event.bytes) = (0,events.flatMap Event.keycodes) := by
  induction events with
  | nil => rfl
  | cons event rest hyp =>
    rw [List.flatMap_cons,List.flatMap_cons,translated_append,event_read]
    simp only [hyp]

/-! ### Lost bytes -/

/-- What a byte that is no prefix leaves. -/
theorem translate_leaves (prev : Nat) (key : Key) (up : Bool) :
    (keyboardPckbdTranslate prev (UInt8.ofNat (key.code + if up then 0x80 else 0)).toNat).1 =
      if prev = 0xe1 ∧ key.code = 0x1d then 0x100 else 0 := by
  obtain ⟨first,second,zero,error,code,_⟩ := byte key up
  rw [keyboardPckbdTranslate,if_neg (by tauto),if_neg (by tauto),code]
  dsimp only
  split_ifs <;> simp_all

theorem stroke_leaves (prev : Nat) (key : Key) (up : Bool) :
    (translated prev (Event.stroke key up).bytes).1 =
      if key.extended = false ∧ prev = 0xe1 ∧ key.code = 0x1d then 0x100 else 0 := by
  cases extended : key.extended with
  | false =>
    simp only [Event.bytes,extended,Bool.false_eq_true,if_false,List.nil_append,translated,translate_leaves,true_and]
  | true =>
    have marked : keyboardPckbdTranslate prev (0xe0 : UInt8).toNat = (0xe0,none) := rfl
    simp only [Event.bytes,extended,if_true,List.cons_append,List.nil_append,translated,marked,
      translate_extended key up extended,Bool.true_eq_false,false_and,if_false]

/-- One event, whatever came before, leaves at most the first part of a Pause,
    and the next one leaves nothing. -/
theorem event_leaves (prev : Nat) (event : Event) :
    (translated prev event.bytes).1 = 0 ∨ (translated prev event.bytes).1 = 0x100 := by
  cases event with
  | stroke key up =>
    rw [stroke_leaves]
    split
    · exact Or.inr rfl
    · exact Or.inl rfl
  | pause => exact Or.inl rfl

theorem two_events (prev : Nat) (first second : Event) : (translated prev (first.bytes ++ second.bytes)).1 = 0 := by
  rw [translated_append]
  rcases event_leaves prev first with left | left
  · rw [left,event_read]
  · rw [left]
    cases second with
    | stroke key up => rw [stroke_leaves,if_neg (by omega)]
    | pause => rfl

/-! ### Keycodes -/

theorem known_mem {table : List Nat} {i c : Nat} (found : known table i = some c) : c ≠ 0 ∧ c ∈ table := by
  rw [known] at found
  split at found
  · exact absurd found (by simp)
  · next nonzero =>
    rw [Option.some_inj] at found
    subst found
    refine ⟨nonzero,?_⟩
    by_cases less : i < table.length
    · rw [List.getD_eq_getElem _ _ less]
      exact List.getElem_mem less
    · exact absurd (List.getD_eq_default _ _ (Nat.le_of_not_lt less)) nonzero

theorem keycode_less {prev scancode prev' c : Nat} (found : keyboardPckbdTranslate prev scancode = (prev',some c)) :
    c < 128 := by
  have high : ∀ c ∈ highKeys, c < 128 := List.forall_iff_forall_mem.mp (by simp [highKeys])
  have e0 : ∀ c ∈ e0Keys, c < 128 := List.forall_iff_forall_mem.mp (by simp [e0Keys])
  unfold keyboardPckbdTranslate at found
  dsimp only at found
  split_ifs at found <;> simp only [Prod.mk.injEq,Option.some_inj,reduceCtorEq,and_false] at found
  · rw [← found.2]
    decide
  · exact e0 c (known_mem found.2).2
  · exact high c (known_mem found.2).2
  · rw [← found.2]
    unfold SC_LIM at *
    omega

/-- No keycode of `e0_keys` stands there twice, and none is a plain key's or that
    of Pause. -/
theorem e0Keys_once : ∀ i < 128, e0Keys.getD i 0 = 0 ∨
    e0Keys.idxOf (e0Keys.getD i 0) = i ∧ SC_LIM ≤ e0Keys.getD i 0 ∧ e0Keys.getD i 0 ≠ E1_PAUSE := by
  decide +kernel

/-- The key is on a keyboard of at most 88 plain keys. -/
def Key.Usual (key : Key) : Prop := key.extended = true ∨ key.code < SC_LIM

theorem e0_found {i c : Nat} (less : i < 128) (found : known e0Keys i = some c) :
    c ≠ E1_PAUSE ∧ SC_LIM ≤ c ∧ e0Keys.idxOf c = i := by
  rw [known] at found
  split at found
  · exact absurd found (by simp)
  · next nonzero =>
    rw [Option.some_inj] at found
    subst found
    obtain ⟨place,range,other⟩ := (e0Keys_once i less).resolve_left nonzero
    exact ⟨other,range,place⟩

theorem keycode_cases {key : Key} {c : Nat} (usual : key.Usual) (found : key.keycode = some c) :
    c ≠ E1_PAUSE ∧ (if key.extended then SC_LIM ≤ c ∧ e0Keys.idxOf c = key.code else c < SC_LIM ∧ c = key.code) := by
  have lim : SC_LIM = 89 ∧ E1_PAUSE = 119 := ⟨rfl,rfl⟩
  have less := key.less
  unfold Key.keycode at found
  cases extended : key.extended with
  | true =>
    rw [extended,if_pos rfl] at found
    rw [if_pos rfl]
    split at found
    · exact absurd found (by simp)
    · exact e0_found (by omega) found
  | false =>
    have low := usual.resolve_left (by simp [extended])
    rw [extended,if_neg (by simp),if_neg (by omega),Option.some_inj] at found
    rw [if_neg (by simp)]
    omega

/-- Whatever keys are hit, their scan codes are read as their keycodes, in order.
    If the reader starts behind any bytes, it reads right from the third event on
    at the latest. Keys of a usual keyboard have keycodes of their own. -/
theorem decoded (events : List Event) :
    translated 0 (events.flatMap Event.bytes) = (0,events.flatMap Event.keycodes) ∧
    (∀ prev first second, ∃ spoilt,
      translated prev ((first :: second :: events).flatMap Event.bytes) = (0,spoilt ++ events.flatMap Event.keycodes)) ∧
    (∀ key key' : Key, key.Usual → key'.Usual → ∀ c, key.keycode = some c → c ≠ E1_PAUSE ∧
      (key'.keycode = some c → key = key')) := by
  refine ⟨events_read events,?_,?_⟩
  · intro prev first second
    refine ⟨(translated prev (first.bytes ++ second.bytes)).2,?_⟩
    rw [List.flatMap_cons,List.flatMap_cons,← List.append_assoc,translated_append,two_events,events_read]
  · intro key key' usual usual' c found
    obtain ⟨other,place⟩ := keycode_cases usual found
    refine ⟨other,fun found' => ?_⟩
    obtain ⟨_,place'⟩ := keycode_cases usual' found'
    obtain ⟨extended,code,_,_,_⟩ := key
    obtain ⟨extended',code',_,_,_⟩ := key'
    dsimp only at place place'
    cases extended <;> cases extended' <;> simp_all <;> omega

end Psys.Scancodes
