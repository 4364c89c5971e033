import Psys.System
import Psys.Vfs

/-!
Listing against lookup: which names `readdir` enumerates in a directory, and
which names `finddir` finds there. Each directory is described once by the list
of its entries and nodes.
-/
namespace Psys.Listing
open Psys.State Psys.Vfs

/-! ### Directories -/

/-- The directories of the mounted tree: those of `rootfs_entries`, which hold
    `/proc` and `/dev/vc`, and the directories of processes. -/
def Mounted : Node → Prop
  | .rootfs i => (rootfsEntries i).present = true ∧ (rootfsEntries i).node.type = .dir
  | .process pid => InTab pid
  | _ => False

/-- A directory of the mounted tree. -/
structure Directory where
  node : Node
  mounted : Mounted node

/-- `/dev/vc` -/
def devVc : Node := .rootfs 17

/-- Past the entries that `vfs_init` sets up, `rootfs_entries` is zero. -/
theorem rootfsEntries_past {i : Nat} (past : 17 < i) : rootfsEntries i = ⟨false,zeroNode⟩ := by
  simp only [rootfsEntries,vfsInit,consoleVfsInit,vfsNodeRegisterCallbacks,setRead,rootfsSetupNode]
  repeat rw [Function.update_of_ne (by omega)]

theorem present_below {i : Nat} (present : (rootfsEntries i).present = true) : i < 18 := by
  by_contra past
  rw [rootfsEntries_past (by omega)] at present
  cases present

/-- Apart from `/proc` and `/dev/vc`, the directories of `rootfs_entries` have
    its own callbacks. -/
theorem rootfs_callbacks : ∀ i < 18, (rootfsEntries i).present = true → (rootfsEntries i).node.type = .dir →
    i = 1 ∨ i = 17 ∨
      ((rootfsEntries i).node.finddir = .to .rootfs ∧ (rootfsEntries i).node.readdir = .to .rootfs) := by
  decide

/-- Two entries of one directory have different names. -/
theorem rootfs_names : ∀ i ∈ List.range 18, ∀ j ∈ List.range 18,
    (rootfsEntries i).present = true ∧ (rootfsEntries j).present = true ∧
      (rootfsEntries i).node.parent = (rootfsEntries j).node.parent ∧
      (rootfsEntries i).node.name = (rootfsEntries j).node.name → i = j := by
  decide

theorem rootfs_nodes : ∀ i < 18, (rootfsEntries i).present = true →
    (rootfsEntries i).node.name.length < FS_NAME_MAX ∧ (rootfsEntries i).node.inode = i := by
  decide

/-! ### Strings -/

/-- Against a name that fits into a buffer, `strncmp` compares to the end. -/
theorem sameName_iff {a b : Text} (short : a.length < FS_NAME_MAX) : sameName a b = true ↔ a = b := by
  unfold sameName
  rw [beq_iff_eq,List.take_of_length_le short.le]
  constructor
  · intro same
    by_cases fits : b.length ≤ FS_NAME_MAX
    · rwa [List.take_of_length_le fits] at same
    · have length := congrArg List.length same
      rw [List.length_take] at length
      omega
  · intro same
    rw [← same,List.take_of_length_le short.le]

theorem sameName_comm (a b : Text) : sameName a b = sameName b a := by
  unfold sameName
  exact Bool.beq_comm

/-- Reading a PID back. -/
theorem strtol_pid : ∀ pid ∈ pids, strtol (decimal pid) = pid := by decide

/-- Reading a console number back. -/
theorem strtol_console {n : Int} (low : 0 ≤ n) (high : n < VIRTUAL_CONSOLES) : strtol (decimal n) = n := by
  have all : ∀ n ∈ ([0,1,2,3] : List Int), strtol (decimal n) = n := by decide
  have among : n = 0 ∨ n = 1 ∨ n = 2 ∨ n = 3 := by
    unfold VIRTUAL_CONSOLES at high
    omega
  exact all n (by simpa using among)

/-! ### What lookup and listing should agree on -/

/-- For one name of a directory: lookup indexes no table outside of its range,
    finds a node exactly when the listing has the name, and the listing shows
    the inode of the node. -/
structure Agrees (t : Int → Context) (d : Node) (name : Text) : Prop where
  inRange : finddir t d name ≠ .stray
  listed : (∃ f, finddir t d name = .to f) ↔ ∃ n e, readdir t d n = some (.entry e) ∧ e.name = name
  inode : ∀ f n e, finddir t d name = .to f → readdir t d n = some (.entry e) → e.name = name →
    e.inode = (fsNode f).inode

/-- What a directory holds: its entries, with the nodes that they are for. -/
structure Holds (t : Int → Context) (d : Node) (entries : List (Dirent × Node)) : Prop where
  lists : ∀ e, (∃ n, readdir t d n = some (.entry e)) ↔ ∃ f, (e,f) ∈ entries
  names : ∀ x ∈ entries, ∀ y ∈ entries, x.1.name = y.1.name → x = y

/-- Lookup that follows the entries of a directory agrees with its listing. -/
theorem Holds.agrees {t : Int → Context} {d : Node} {entries : List (Dirent × Node)} (holds : Holds t d entries)
    (inodes : ∀ x ∈ entries, x.1.inode = (fsNode x.2).inode) {name : Text} (inRange : finddir t d name ≠ .stray)
    (finds : ∀ f, finddir t d name = .to f ↔ ∃ e, (e,f) ∈ entries ∧ e.name = name) : Agrees t d name := by
  refine ⟨inRange,?_,?_⟩
  · constructor
    · rintro ⟨f,found⟩
      obtain ⟨e,member,named⟩ := (finds f).mp found
      obtain ⟨n,listed⟩ := (holds.lists e).mpr ⟨f,member⟩
      exact ⟨n,e,listed,named⟩
    · rintro ⟨n,e,listed,named⟩
      obtain ⟨f,member⟩ := (holds.lists e).mp ⟨n,listed⟩
      exact ⟨f,(finds f).mpr ⟨e,member,named⟩⟩
  · intro f n e found listed named
    obtain ⟨e',member,named'⟩ := (finds f).mp found
    obtain ⟨f',member'⟩ := (holds.lists e).mp ⟨n,listed⟩
    have same := holds.names _ member' _ member (named.trans named'.symm)
    rw [Prod.mk.injEq] at same
    rw [inodes _ member',same.2]

/-- A search from the start comes to every entry. -/
theorem seekEntry_all (entries : List Dirent) (e : Dirent) :
    (∃ n : Int, ¬ n < 0 ∧ seekEntry entries n = .entry e) ↔ e ∈ entries := by
  rw [List.mem_iff_getElem?]
  constructor
  · rintro ⟨n,_,sought⟩
    refine ⟨n.toNat,?_⟩
    unfold seekEntry at sought
    split at sought
    · cases sought
      assumption
    · cases sought
  · rintro ⟨n,entry⟩
    refine ⟨n,by omega,?_⟩
    rw [seekEntry,Int.toNat_natCast,entry]

/-- A callback that searches through the entries lists them. -/
theorem Holds.of_search {t : Int → Context} {d : Node} {entries : List (Dirent × Node)}
    (search : ∀ n e, readdir t d n = some (.entry e) ↔ ¬ n < 0 ∧ seekEntry (entries.map Prod.fst) n = .entry e)
    (names : ∀ x ∈ entries, ∀ y ∈ entries, x.1.name = y.1.name → x = y) : Holds t d entries := by
  refine ⟨?_,names⟩
  intro e
  simp only [search]
  rw [seekEntry_all,List.mem_map]
  constructor
  · rintro ⟨⟨e',f⟩,member,rfl⟩
    exact ⟨f,member⟩
  · rintro ⟨f,member⟩
    exact ⟨_,member,rfl⟩

/-! ### The directories of `rootfs_entries` -/

/-- The entries of a directory in `rootfs_entries`. -/
def rootfsContents (d : Node) : List (Dirent × Node) :=
  ((List.range ROOTFS_ENTRIES).filter (fun i => decide (IsEntry d i))).map
    (fun i => (⟨(rootfsEntries i).node.name,i⟩,.rootfs i))

theorem mem_rootfsContents (d : Node) (x : Dirent × Node) :
    x ∈ rootfsContents d ↔ ∃ i, IsEntry d i ∧ x = (⟨(rootfsEntries i).node.name,i⟩,.rootfs i) := by
  simp only [rootfsContents,List.mem_map,List.mem_filter,List.mem_range,decide_eq_true_eq]
  constructor
  · rintro ⟨i,⟨_,entry⟩,rfl⟩
    exact ⟨i,entry,rfl⟩
  · rintro ⟨i,entry,rfl⟩
    exact ⟨i,⟨(present_below entry.1).trans (by decide),entry⟩,rfl⟩

theorem rootfs_holds {t : Int → Context} {d : Node} (callback : (fsNode d).readdir = .to .rootfs) :
    Holds t d (rootfsContents d) := by
  apply Holds.of_search
  · intro n e
    simp only [readdir,callback,rootfsReaddir,rootfsContents,List.map_map,Function.comp_def,Option.some.injEq]
    by_cases negative : n < 0
    · rw [if_pos negative]
      simp [negative]
    · rw [if_neg negative]
      simp [negative]
  · intro x xIn y yIn same
    obtain ⟨i,⟨presentI,parentI⟩,rfl⟩ := (mem_rootfsContents d x).mp xIn
    obtain ⟨j,⟨presentJ,parentJ⟩,rfl⟩ := (mem_rootfsContents d y).mp yIn
    have equal := rootfs_names i (List.mem_range.mpr (present_below presentI)) j
      (List.mem_range.mpr (present_below presentJ)) ⟨presentI,presentJ,parentI.trans parentJ.symm,same⟩
    rw [equal]

/-- `rootfs_finddir` finds the entries by name. -/
theorem rootfsFinddir_finds (d : Node) (name : Text) (f : Node) :
    rootfsFinddir d name = .to f ↔ ∃ e, (e,f) ∈ rootfsContents d ∧ e.name = name := by
  unfold rootfsFinddir
  constructor
  · intro found
    split at found
    case h_1 i sought =>
      cases found
      have met := List.find?_some sought
      rw [Bool.and_eq_true,decide_eq_true_eq] at met
      obtain ⟨entry,same⟩ := met
      have short := (rootfs_nodes i (present_below entry.1) entry.1).1
      exact ⟨_,(mem_rootfsContents d _).mpr ⟨i,entry,rfl⟩,(sameName_iff short).mp same⟩
    case h_2 => cases found
  · rintro ⟨e,member,rfl⟩
    obtain ⟨i,entry,same⟩ := (mem_rootfsContents d _).mp member
    cases same
    have below := present_below entry.1
    have short := (rootfs_nodes i below entry.1).1
    split
    case h_1 j sought =>
      have met := List.find?_some sought
      rw [Bool.and_eq_true,decide_eq_true_eq] at met
      obtain ⟨⟨presentJ,parentJ⟩,same⟩ := met
      have belowJ := present_below presentJ
      have equal := (sameName_iff (rootfs_nodes j belowJ presentJ).1).mp same
      rw [rootfs_names j (List.mem_range.mpr belowJ) i (List.mem_range.mpr below)
        ⟨presentJ,entry.1,parentJ.trans entry.2.symm,equal⟩]
    case h_2 missed =>
      have all := List.find?_eq_none.mp missed i (List.mem_range.mpr (below.trans (by decide)))
      refine absurd ?_ all
      rw [Bool.and_eq_true,decide_eq_true_eq]
      exact ⟨entry,(sameName_iff short).mpr rfl⟩

theorem rootfs_agrees {t : Int → Context} {d : Node} (readdirs : (fsNode d).readdir = .to .rootfs)
    (finddirs : (fsNode d).finddir = .to .rootfs) (name : Text) : Agrees t d name := by
  have lookup : finddir t d name = rootfsFinddir d name := by simp only [finddir,finddirs]
  apply (rootfs_holds readdirs).agrees
  · intro x member
    obtain ⟨i,entry,rfl⟩ := (mem_rootfsContents d x).mp member
    exact (rootfs_nodes i (present_below entry.1) entry.1).2.symm
  · rw [lookup]
    unfold rootfsFinddir
    split <;> simp
  · intro f
    rw [lookup]
    exact rootfsFinddir_finds d name f

/-! ### The directories of processes -/

/-- The entries of a directory of `/proc`. -/
def processContents (pid : Int) : List (Dirent × Node) :=
  [(⟨['s','t','a','t','e'],1200 + pid⟩,.state pid),(⟨['p','a','r','e','n','t'],2200 + pid⟩,.parent pid),
   (⟨['n','a','m','e'],3200 + pid⟩,.name pid)]

theorem process_holds (t : Int → Context) (pid : Int) : Holds t (.process pid) (processContents pid) := by
  apply Holds.of_search
  · intro n e
    have inode : (fsNode (.process pid)).inode = 200 + pid := rfl
    have callback : (fsNode (.process pid)).readdir = .to .procfsSub := rfl
    simp only [readdir,callback,procfsSubReaddir,inode,processContents,List.map_cons,List.map_nil,Option.some.injEq]
    have states : 1000 + (200 + pid) = 1200 + pid := by omega
    have parents : 2000 + (200 + pid) = 2200 + pid := by omega
    have names : 3000 + (200 + pid) = 3200 + pid := by omega
    rw [states,parents,names]
    by_cases negative : n < 0
    · rw [if_pos negative]
      simp [negative]
    rw [if_neg negative]
    by_cases past : n > 3
    · -- Past the end one answers -1, the other 0.
      have beyond : 3 ≤ n.toNat := by omega
      rw [if_pos past,seekEntry,List.getElem?_eq_none (by simpa using beyond)]
      simp
    · rw [if_neg past]
      simp [negative]
  · intro x xIn y yIn same
    simp only [processContents,List.mem_cons,List.not_mem_nil,or_false] at xIn yIn
    rcases xIn with rfl | rfl | rfl <;> rcases yIn with rfl | rfl | rfl <;> simp at same ⊢

/-- `procfs_sub_finddir` finds the three files by name. -/
theorem procfsSubFinddir_finds {pid : Int} (inTab : InTab pid) (name : Text) (f : Node) :
    procfsSubFinddir (.process pid) name = .to f ↔ ∃ e, (e,f) ∈ processContents pid ∧ e.name = name := by
  have inode : (fsNode (.process pid)).inode - 200 = pid := by
    show 200 + pid - 200 = pid
    omega
  have swap : ∀ word : Text, word.length < FS_NAME_MAX → (sameName name word = true ↔ word = name) := by
    intro word short
    rw [sameName_comm,sameName_iff short]
  unfold procfsSubFinddir
  simp only [inode,ofProcess,if_pos inTab,swap ['s','t','a','t','e'] (by decide),
    swap ['p','a','r','e','n','t'] (by decide),swap ['n','a','m','e'] (by decide)]
  simp only [processContents,List.mem_cons,List.not_mem_nil,or_false,Prod.mk.injEq]
  constructor
  · intro found
    split at found
    case isTrue same =>
      cases found
      exact ⟨_,.inl ⟨rfl,rfl⟩,same⟩
    split at found
    case isTrue same =>
      cases found
      exact ⟨_,.inr (.inl ⟨rfl,rfl⟩),same⟩
    split at found
    case isTrue same =>
      cases found
      exact ⟨_,.inr (.inr ⟨rfl,rfl⟩),same⟩
    case isFalse => cases found
  · rintro ⟨e,⟨rfl,rfl⟩ | ⟨rfl,rfl⟩ | ⟨rfl,rfl⟩,rfl⟩
    · simp
    · simp
    · simp

theorem process_agrees (t : Int → Context) {pid : Int} (inTab : InTab pid) (name : Text) :
    Agrees t (.process pid) name := by
  have lookup : finddir t (.process pid) name = procfsSubFinddir (.process pid) name := rfl
  have inode : (fsNode (.process pid)).inode - 200 = pid := by
    show 200 + pid - 200 = pid
    omega
  apply (process_holds t pid).agrees
  · intro x member
    simp only [processContents,List.mem_cons,List.not_mem_nil,or_false] at member
    rcases member with rfl | rfl | rfl <;> rfl
  · rw [lookup]
    unfold procfsSubFinddir
    simp only [inode,ofProcess,if_pos inTab]
    repeat' split
    all_goals simp
  · intro f
    rw [lookup]
    exact procfsSubFinddir_finds inTab name f

/-! ### `/dev/vc` -/

/-- The entries of `/dev/vc`. -/
def vcContents : List (Dirent × Node) := ([0,1,2,3] : List Int).map (fun n => (⟨decimal n,100 + n⟩,.console n))

theorem mem_vcContents (x : Dirent × Node) :
    x ∈ vcContents ↔ ∃ n : Int, (0 ≤ n ∧ n < VIRTUAL_CONSOLES) ∧ x = (⟨decimal n,100 + n⟩,.console n) := by
  unfold vcContents VIRTUAL_CONSOLES
  rw [List.mem_map]
  constructor
  · rintro ⟨n,member,rfl⟩
    simp only [List.mem_cons,List.not_mem_nil,or_false] at member
    exact ⟨n,by omega,rfl⟩
  · rintro ⟨n,range,rfl⟩
    refine ⟨n,?_,rfl⟩
    simp only [List.mem_cons,List.not_mem_nil,or_false]
    omega

theorem devVc_callbacks : (fsNode devVc).readdir = .to .vc ∧ (fsNode devVc).finddir = .to .vc := by decide

theorem vc_holds (t : Int → Context) : Holds t devVc vcContents := by
  constructor
  · intro e
    simp only [readdir,devVc_callbacks.1,consoleVcReaddir,mem_vcContents,Option.some.injEq,Prod.mk.injEq]
    constructor
    · rintro ⟨n,answer⟩
      split at answer
      · cases answer
      split at answer
      · cases answer
      case isFalse negative past =>
        cases answer
        exact ⟨_,n,⟨by omega,by omega⟩,rfl,rfl⟩
    · rintro ⟨f,n,⟨low,high⟩,rfl,rfl⟩
      exact ⟨n,by rw [if_neg (by omega),if_neg (by omega)]⟩
  · intro x xIn y yIn same
    obtain ⟨n,⟨low,high⟩,rfl⟩ := (mem_vcContents x).mp xIn
    obtain ⟨m,⟨low',high'⟩,rfl⟩ := (mem_vcContents y).mp yIn
    have read := congrArg strtol same
    simp only [strtol_console low high,strtol_console low' high'] at read
    rw [read]

/-- A number from 0 to 3 is spelled as `readdir` does, or the name does not
    read as such a number. -/
def ConsoleName (name : Text) : Prop :=
  0 ≤ strtol name → strtol name < VIRTUAL_CONSOLES → name = decimal (strtol name)

theorem vc_finddir_iff (t : Int → Context) (name : Text) (f : Node) :
    finddir t devVc name = .to f ↔ (0 ≤ strtol name ∧ strtol name < VIRTUAL_CONSOLES) ∧ f = .console (strtol name) := by
  simp only [finddir,devVc_callbacks.2,consoleVcFinddir]
  split
  case isTrue outside =>
    constructor
    · intro found
      cases found
    · rintro ⟨inside,_⟩
      omega
  case isFalse inside =>
    constructor
    · intro found
      cases found
      exact ⟨by omega,rfl⟩
    · rintro ⟨_,rfl⟩
      rfl

theorem vc_inRange (t : Int → Context) (name : Text) : finddir t devVc name ≠ .stray := by
  simp only [finddir,devVc_callbacks.2,consoleVcFinddir]
  split <;> simp

theorem vc_agrees_iff (t : Int → Context) (name : Text) : Agrees t devVc name ↔ ConsoleName name := by
  have holds := vc_holds t
  constructor
  · intro agrees low high
    have found := (vc_finddir_iff t name _).mpr ⟨⟨low,high⟩,rfl⟩
    obtain ⟨n,e,listed,named⟩ := agrees.listed.mp ⟨_,found⟩
    obtain ⟨f,member⟩ := (holds.lists e).mp ⟨n,listed⟩
    obtain ⟨m,⟨low',high'⟩,same⟩ := (mem_vcContents _).mp member
    rw [Prod.mk.injEq] at same
    obtain ⟨rfl,rfl⟩ := same
    have spelled : decimal m = name := named
    rw [← spelled,strtol_console low' high']
  · intro spelled
    apply holds.agrees
    · intro x member
      obtain ⟨n,_,rfl⟩ := (mem_vcContents x).mp member
      rfl
    · exact vc_inRange t name
    · intro f
      rw [vc_finddir_iff]
      simp only [mem_vcContents,Prod.mk.injEq]
      constructor
      · rintro ⟨⟨low,high⟩,rfl⟩
        exact ⟨_,⟨_,⟨low,high⟩,rfl,rfl⟩,(spelled low high).symm⟩
      · rintro ⟨e,⟨n,⟨low,high⟩,rfl,rfl⟩,rfl⟩
        simp only [strtol_console low high]
        exact ⟨⟨low,high⟩,trivial⟩

/-! ### `/proc` -/

/-- The entries of `/proc`. -/
def procContents (t : Int → Context) : List (Dirent × Node) :=
  (pids.filter (fun pid => (t pid).valide)).map (fun pid => (⟨decimal pid,pid - 1⟩,.process pid))

theorem mem_procContents (t : Int → Context) (x : Dirent × Node) :
    x ∈ procContents t ↔ ∃ pid, InUse t pid ∧ x = (⟨decimal pid,pid - 1⟩,.process pid) := by
  simp only [procContents,List.mem_map,List.mem_filter,mem_pids]
  constructor
  · rintro ⟨pid,used,rfl⟩
    exact ⟨pid,used,rfl⟩
  · rintro ⟨pid,used,rfl⟩
    exact ⟨pid,used,rfl⟩

theorem proc_callbacks : (fsNode vfsProcfsRoot).readdir = .to .procfs ∧ (fsNode vfsProcfsRoot).finddir = .to .procfs := by
  decide

theorem strtol_decimal {pid : Int} (inTab : InTab pid) : strtol (decimal pid) = pid :=
  strtol_pid pid ((mem_pids pid).mpr inTab)

theorem proc_holds (t : Int → Context) : Holds t vfsProcfsRoot (procContents t) := by
  apply Holds.of_search
  · intro n e
    simp only [readdir,proc_callbacks.1,procfsReaddir,procContents,List.map_map,Function.comp_def,Option.some.injEq]
    by_cases negative : n < 0
    · rw [if_pos negative]
      simp [negative]
    · rw [if_neg negative]
      simp [negative]
  · intro x xIn y yIn same
    obtain ⟨pid,used,rfl⟩ := (mem_procContents t x).mp xIn
    obtain ⟨other,used',rfl⟩ := (mem_procContents t y).mp yIn
    have read := congrArg strtol same
    simp only [strtol_decimal used.1,strtol_decimal used'.1] at read
    rw [read]

/-- The name reads as a PID that is not in use. -/
def FreePid (t : Int → Context) (name : Text) : Prop := InTab (strtol name) ∧ (t (strtol name)).valide = false

theorem proc_inRange_iff (t : Int → Context) (name : Text) :
    finddir t vfsProcfsRoot name ≠ .stray ↔ InTab (strtol name) := by
  simp only [finddir,proc_callbacks.2,procfsFinddir]
  by_cases inTab : InTab (strtol name)
  · rw [if_neg (not_not.mpr inTab)]
    split <;> simp [inTab]
  · rw [if_pos inTab]
    simp [inTab]

theorem proc_finddir_used (t : Int → Context) {name : Text} (used : InUse t (strtol name)) :
    finddir t vfsProcfsRoot name = .to (.process (strtol name)) := by
  simp only [finddir,proc_callbacks.2,procfsFinddir]
  rw [if_neg (not_not.mpr used.1),if_neg (by simp [used.2])]

theorem proc_finddir_free (t : Int → Context) {name : Text} (free : FreePid t name) :
    finddir t vfsProcfsRoot name = .null := by
  simp only [finddir,proc_callbacks.2,procfsFinddir]
  rw [if_neg (not_not.mpr free.1),if_pos free.2]

/-- An entry of `/proc` names a process in use. -/
theorem proc_listed {t : Int → Context} {n : Int} {e : Dirent} (listed : readdir t vfsProcfsRoot n = some (.entry e)) :
    InUse t (strtol e.name) ∧ e.inode = strtol e.name - 1 := by
  obtain ⟨f,member⟩ := ((proc_holds t).lists e).mp ⟨n,listed⟩
  obtain ⟨pid,used,same⟩ := (mem_procContents t _).mp member
  rw [Prod.mk.injEq] at same
  rw [same.1]
  simp only [strtol_decimal used.1]
  exact ⟨used,trivial⟩

/-- In `/proc` listing and lookup only agree on what neither shows: the listing
    has the wrong inodes, and a number out of range reaches out of the table. -/
theorem proc_agrees_iff (t : Int → Context) (name : Text) : Agrees t vfsProcfsRoot name ↔ FreePid t name := by
  constructor
  · intro agrees
    have inTab := (proc_inRange_iff t name).mp agrees.inRange
    refine ⟨inTab,?_⟩
    by_contra valide
    rw [Bool.not_eq_false] at valide
    have found := proc_finddir_used t ⟨inTab,valide⟩
    obtain ⟨n,e,listed,named⟩ := agrees.listed.mp ⟨_,found⟩
    have shown : e.inode = 200 + strtol name := agrees.inode _ n e found listed named
    have index := (proc_listed listed).2
    rw [named] at index
    omega
  · intro free
    have missed := proc_finddir_free t free
    refine ⟨by simp [missed],?_,?_⟩
    · constructor
      · rintro ⟨f,found⟩
        rw [missed] at found
        cases found
      · rintro ⟨n,e,listed,rfl⟩
        have valide := (proc_listed listed).1.2
        rw [free.2] at valide
        cases valide
    · intro f n e found
      rw [missed] at found
      cases found

/-! ### All directories -/

/-- The names on which lookup and listing agree. -/
def Listable (t : Int → Context) (d : Node) (name : Text) : Prop :=
  if d = vfsProcfsRoot then FreePid t name
  else if d = devVc then ConsoleName name
  else True

/-- Lookup and listing of a directory agree exactly on these names. -/
theorem finddir_agrees (t : Int → Context) (d : Directory) (name : Text) :
    Agrees t d.node name ↔ Listable t d.node name := by
  obtain ⟨node,mounted⟩ := d
  unfold Listable
  cases node with
  | rootfs i =>
    obtain ⟨present,dir⟩ := mounted
    by_cases proc : i = 1
    · subst proc
      exact proc_agrees_iff t name
    by_cases vc : i = 17
    · subst vc
      exact vc_agrees_iff t name
    have other := rootfs_callbacks i (present_below present) present dir
    obtain ⟨finddirs,readdirs⟩ := (other.resolve_left proc).resolve_left vc
    rw [if_neg (by simpa [vfsProcfsRoot] using proc),if_neg (by simpa [devVc] using vc)]
    exact iff_true_intro (rootfs_agrees (d := .rootfs i) readdirs finddirs name)
  | process pid =>
    rw [if_neg (by simp [vfsProcfsRoot]),if_neg (by simp [devVc])]
    exact iff_true_intro (process_agrees t mounted name)
  | console n => exact absurd mounted id
  | state pid => exact absurd mounted id
  | parent pid => exact absurd mounted id
  | name pid => exact absurd mounted id

/-- After the start, `/proc` lists Init with the inode 0 and finds it with the
    inode 201. -/
theorem finddir_disagrees : ¬ ∀ t (d : Directory) name, Agrees t d.node name := by
  intro claim
  have agrees := claim System.zeroed.tabProc ⟨vfsProcfsRoot,by decide,by decide⟩ ['1']
  have found : finddir System.zeroed.tabProc vfsProcfsRoot ['1'] = .to (.process 1) := by decide
  have listed : readdir System.zeroed.tabProc vfsProcfsRoot 0 = some (.entry ⟨['1'],0⟩) := by decide
  have shown := agrees.inode _ 0 _ found listed rfl
  exact absurd shown (by decide)

end Psys.Listing
