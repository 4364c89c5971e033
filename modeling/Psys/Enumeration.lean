import Mathlib.Data.List.Basic
import Mathlib.Data.List.Range
import Mathlib.Order.Basic
import Psys.Listing

/-!
`readdir` as the code computes it: at every index, the search starts again at
the front of a table and counts the entries that it passes. Over any contents of
the tables, the indices from 0 on run through the entries, and the loop of
`shell_ls` ends after the last one.
-/
namespace Psys.Enumeration
open Psys.State
open Psys.Vfs (Text FS_NAME_MAX ROOTFS_ENTRIES Node NodeType Ptr Rootfs Dirent Listing decimal vfsProcfsRoot)

/-! ### The code -/

/-- The loop of `rootfs_readdir` and of `procfs_readdir` from an index of the
    table on, with so many indices left: the index of the entry that it answers
    with. Indices that do not belong to the directory are skipped. -/
def search (listed : Nat → Bool) (n : Int) : Nat → Nat → Int → Option Nat
  | 0, _, _ => none
  | left + 1, i, found =>
    if listed i = false then search listed n left (i + 1) found
    else if n = found then some i
    else search listed n left (i + 1) (found + 1)

/-- The answer for the index that was found. -/
def answer (dirent : Nat → Dirent) : Option Nat → Listing
  | some i => .entry (dirent i)
  | none => .done

/-- The two checks of `rootfs_readdir`. -/
def rootfsListed (table : Rootfs) (node : Node) (i : Nat) : Bool :=
  (table i).present && decide ((table i).node.parent = .to node)

/-- What `rootfs_readdir` stores: `strncpy` of the name, and the index. -/
def rootfsDirent (table : Rootfs) (i : Nat) : Dirent := ⟨(table i).node.name.take FS_NAME_MAX,i⟩

/-- `rootfs_readdir` -/
def rootfsReaddir (table : Rootfs) (node : Node) (n : Int) : Listing :=
  if n < 0 then .error
  else answer (rootfsDirent table) (search (rootfsListed table node) n ROOTFS_ENTRIES 0 0)

/-- The check of `procfs_readdir`; the entry `i` of `tab_proc` is that of the
    PID `i + 1`. -/
def procfsListed (t : Int → Context) (i : Nat) : Bool := (t (i + 1)).valide

/-- What `procfs_readdir` stores: the PID in decimal, and the index. -/
def procfsDirent (i : Nat) : Dirent := ⟨decimal (i + 1),i⟩

/-- `procfs_readdir` -/
def procfsReaddir (t : Int → Context) (node : Node) (n : Int) : Listing :=
  if n < 0 then .error
  else if node ≠ vfsProcfsRoot then .error
  else answer procfsDirent (search (procfsListed t) n NBPROC.toNat 0 0)

/-- `readdir_fs` of a node of the given type, with its callback. -/
def readdirFs (type : NodeType) (callback : Option (Int → Listing)) (n : Int) : Listing :=
  match callback with
  | some readdir => if type = .dir then readdir n else .error
  | none => .error

/-- The loop of `shell_ls` from an index on: the entries that it prints, and
    whether it ends without an error. -/
def shellLs (readdir : Int → Listing) : Nat → Int → Option (List Dirent × Bool)
  | 0, _ => none
  | turns + 1, n =>
    match readdir n with
    | .done => some ([],true)
    | .error => some ([],false)
    | .entry dir => (shellLs readdir turns (n + 1)).map (fun later => (dir :: later.1,later.2))

/-! ### What a directory lists -/

/-- The indices that belong to a directory, in the order of the table. -/
def present (listed : Nat → Bool) (size : Nat) : List Nat := (List.range size).filter listed

/-- `readdir` runs through the entries of a directory: each belongs to it, each
    is named once, in the order of the table, and `shell_ls` prints them all. -/
structure Enumerates (readdir : Int → Listing) (dirent : Nat → Dirent) (listed : Nat → Bool) (size : Nat)
    (entries : List Nat) : Prop where
  members : ∀ i, i ∈ entries ↔ i < size ∧ listed i = true
  ordered : entries.Pairwise (· < ·)
  named : ∀ n (h : n < entries.length), readdir n = .entry (dirent entries[n])
  past : ∀ n : Int, entries.length ≤ n → readdir n = .done
  negative : ∀ n < 0, readdir n = .error
  printed : ∃ enough, ∀ turns ≥ enough, shellLs (readdirFs .dir (some readdir)) turns 0 = some (entries.map dirent,true)

/-! ### The search -/

/-- What is left to pass is the distance between the index and the count of
    entries found. -/
theorem search_eq (listed : Nat → Bool) (n : Int) (left i : Nat) (found : Int) (before : found ≤ n) :
    search listed n left i found = ((List.range' i left).filter listed)[(n - found).toNat]? := by
  induction left generalizing i found with
  | zero => rfl
  | succ left ih =>
    rw [search,List.range'_succ]
    cases here : listed i with
    | false =>
      rw [if_pos rfl,List.filter_cons_of_neg (by simp [here])]
      exact ih (i + 1) found before
    | true =>
      rw [if_neg (by decide),List.filter_cons_of_pos here]
      by_cases arrived : n = found
      · rw [if_pos arrived,arrived,sub_self]
        rfl
      · have next : (n - found).toNat = (n - (found + 1)).toNat + 1 := by omega
        rw [if_neg arrived,next,List.getElem?_cons_succ]
        exact ih (i + 1) (found + 1) (by omega)

/-- A whole search finds the entry at its index. -/
theorem search_present (listed : Nat → Bool) (size : Nat) {n : Int} (notNegative : 0 ≤ n) :
    search listed n size 0 0 = (present listed size)[n.toNat]? := by
  rw [search_eq listed n size 0 0 notNegative,sub_zero,present,List.range_eq_range']

theorem mem_present (listed : Nat → Bool) (size i : Nat) : i ∈ present listed size ↔ i < size ∧ listed i = true := by
  rw [present,List.mem_filter,List.mem_range]

theorem present_ordered (listed : Nat → Bool) (size : Nat) : (present listed size).Pairwise (· < ·) :=
  List.pairwise_lt_range.filter _

/-! ### The loop of the shell -/

/-- From an index on, the loop prints the entries from there on. -/
theorem shellLs_run {readdir : Int → Listing} {ds : List Dirent}
    (named : ∀ n (h : n < ds.length), readdir n = .entry ds[n]) (past : readdir ds.length = .done)
    {turns n : Nat} (inside : n ≤ ds.length) (enough : ds.length < turns + n) :
    shellLs readdir turns n = some (ds.drop n,true) := by
  induction turns generalizing n with
  | zero => omega
  | succ turns ih =>
    rw [shellLs]
    by_cases more : n < ds.length
    · have later := ih (n := n + 1) more (by omega)
      rw [Nat.cast_add,Nat.cast_one] at later
      rw [named n more]
      dsimp only
      rw [later,List.drop_eq_getElem_cons more]
      rfl
    · have last : n = ds.length := by omega
      subst last
      rw [past,List.drop_length]

/-! ### Directories -/

/-- A callback that answers by the search runs through what the search lists. -/
theorem enumerates_of_search {readdir : Int → Listing} {dirent : Nat → Dirent} {listed : Nat → Bool} {size : Nat}
    (searches : ∀ n, 0 ≤ n → readdir n = answer dirent (search listed n size 0 0)) (negative : ∀ n < 0, readdir n = .error) :
    Enumerates readdir dirent listed size (present listed size) := by
  have named : ∀ n (h : n < (present listed size).length), readdir n = .entry (dirent (present listed size)[n]) := by
    intro n h
    rw [searches n (Int.natCast_nonneg n),search_present listed size (Int.natCast_nonneg n),Int.toNat_natCast,
      List.getElem?_eq_getElem h]
    rfl
  have past : ∀ n : Int, (present listed size).length ≤ n → readdir n = .done := by
    intro n beyond
    rw [searches n (by omega),search_present listed size (by omega),List.getElem?_eq_none (by omega)]
    rfl
  refine ⟨mem_present listed size,present_ordered listed size,named,past,negative,?_⟩
  refine ⟨(present listed size).length + 1,?_⟩
  intro turns enough
  have served : readdirFs .dir (some readdir) = readdir := rfl
  rw [served]
  apply shellLs_run _ _ (Nat.zero_le _)
  · rw [List.length_map]
    omega
  · intro n h
    rw [List.length_map] at h
    rw [named n h,List.getElem_map]
  · rw [List.length_map]
    exact past _ le_rfl

/-- Both callbacks enumerate the entries of their directories, over any contents
    of the tables. -/
theorem readdir_enumerates (table : Rootfs) (t : Int → Context) (node : Node) :
    (∃ entries, Enumerates (rootfsReaddir table node) (rootfsDirent table) (rootfsListed table node) ROOTFS_ENTRIES
        entries) ∧
      ∃ entries, Enumerates (procfsReaddir t vfsProcfsRoot) procfsDirent (procfsListed t) NBPROC.toNat entries := by
  constructor
  · refine ⟨_,enumerates_of_search ?_ ?_⟩
    · intro n notNegative
      rw [rootfsReaddir,if_neg (not_lt.mpr notNegative)]
    · intro n negative
      rw [rootfsReaddir,if_pos negative]
  · refine ⟨_,enumerates_of_search ?_ ?_⟩
    · intro n notNegative
      rw [procfsReaddir,if_neg (not_lt.mpr notNegative),if_neg (not_not.mpr rfl)]
    · intro n negative
      rw [procfsReaddir,if_pos negative]

/-! ### The tables of the kernel -/

theorem answer_seek (dirent : Nat → Dirent) (entries : List Nat) (n : Int) :
    answer dirent entries[n.toNat]? = Vfs.seekEntry (entries.map dirent) n := by
  rw [Vfs.seekEntry,List.getElem?_map]
  cases entries[n.toNat]? <;> rfl

/-- With the entries that `vfs_init` sets up, the search is that of the list of
    entries. -/
theorem rootfsReaddir_eq (node : Node) (n : Int) : rootfsReaddir Vfs.rootfsEntries node n = Vfs.rootfsReaddir node n := by
  unfold rootfsReaddir Vfs.rootfsReaddir
  split
  · rfl
  · rename_i notNegative
    have same : present (rootfsListed Vfs.rootfsEntries node) ROOTFS_ENTRIES =
        (List.range ROOTFS_ENTRIES).filter (fun i => decide (Vfs.IsEntry node i)) := by
      apply List.filter_congr
      intro i _
      rw [Bool.eq_iff_iff,decide_eq_true_iff,rootfsListed,Bool.and_eq_true,decide_eq_true_iff]
      rfl
    rw [search_present _ _ (not_lt.mp notNegative),answer_seek,same]
    congr 1
    apply List.map_congr_left
    intro i member
    have entry : Vfs.IsEntry node i := by simpa using (List.mem_filter.mp member).2
    have short := (Listing.rootfs_nodes i (Listing.present_below entry.1) entry.1).1
    rw [rootfsDirent,List.take_of_length_le short.le]

theorem procfsReaddir_eq (t : Int → Context) (node : Node) (n : Int) :
    procfsReaddir t node n = Vfs.procfsReaddir t node n := by
  unfold procfsReaddir Vfs.procfsReaddir
  split
  · rfl
  · split
    · rfl
    · rename_i notNegative _
      rw [search_present _ _ (not_lt.mp notNegative),answer_seek,pids,List.filter_map,List.map_map]
      congr 1
      apply List.map_congr_left
      intro i _
      simp [procfsDirent]

end Psys.Enumeration
