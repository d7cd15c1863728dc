import NCollectd.Base.Libc

/-! `proc_pids.c`: the processes that run under the watched names, and what changes between two updates. -/

namespace NCollectd.Pids

open List

/-- The first `size` cells of the array, so that none of them lies behind what is allocated. -/
structure PidsList where
  pids : List Int
  allocated : Nat
  fits : pids.length ≤ allocated

def PidsList.empty : PidsList := ⟨[], 0, Nat.le_refl 0⟩

/-- The assignment `size = 0`, which keeps the array. -/
def PidsList.reset (list : PidsList) : PidsList := ⟨[], list.allocated, Nat.zero_le _⟩

def pidsListAddPid (list : PidsList) (pid : Int) : PidsList :=
  if full : list.allocated = list.pids.length then
    ⟨list.pids ++ [pid], list.allocated + 1 + list.allocated / 10, by
      rw [length_append, length_singleton]
      omega⟩
  else
    ⟨list.pids ++ [pid], list.allocated, by
      rw [length_append, length_singleton]
      exact Nat.lt_of_le_of_ne list.fits (Ne.symm full)⟩

def pidsListAddList (dst src : PidsList) : PidsList :=
  if small : dst.allocated < dst.pids.length + src.pids.length then
    ⟨dst.pids ++ src.pids, dst.pids.length + src.pids.length, Nat.le_of_eq length_append⟩
  else ⟨dst.pids ++ src.pids, dst.allocated, length_append ▸ Nat.le_of_not_lt small⟩

def pidsListContainsPid (list : PidsList) (pid : Int) : Bool := list.pids.contains pid

def maxProcNameLen : Nat := 16

/-- A directory of procfs: the number `get_pid_number` finds in its name, and its file `comm`. -/
structure Entry where
  pid : Option Int
  comm : Option CString

/-- `comm` has room for `maxProcNameLen` characters and ends at the first newline. -/
def readProcName (file : CString) : CString :=
  (file.take maxProcNameLen).takeWhile fun c => c ≠ '\x00' ∧ c ≠ '\n'

/-- A watched name with the processes of the last two updates; the lists are NULL at first. -/
structure ProcPids where
  processName : CString
  prev : Option PidsList
  curr : Option PidsList

def procPidsInit (names : List CString) : List ProcPids :=
  names.map fun name => ⟨sstrncpy name (maxProcNameLen + 1), none, none⟩

/-- The body of the loop of `swap_proc_pids`. -/
def swapProcPids (proc : ProcPids) : ProcPids := { proc with prev := proc.curr, curr := proc.prev }

/-- The current list gets allocated if it is NULL, and `size` becomes 0. -/
def ProcPids.restart (proc : ProcPids) : ProcPids := { proc with curr := some (proc.curr.getD .empty).reset }

/-- A file that cannot be opened or is empty names no process. -/
def Entry.called (entry : Entry) (name : CString) : Bool :=
  entry.comm.any fun file => file ≠ [] ∧ readProcName file = name

/-- What a directory adds to the list of one name. -/
def Entry.read (entry : Entry) (proc : ProcPids) : ProcPids :=
  match entry.pid with
  | none => proc
  | some pid =>
    if entry.called proc.processName then { proc with curr := proc.curr.map (pidsListAddPid · pid) } else proc

def procPidsUpdate (entries : List Entry) (procs : List ProcPids) : List ProcPids :=
  entries.foldl (fun procs entry => procs.map entry.read) ((procs.map swapProcPids).map ProcPids.restart)

def addMissing (other list : PidsList) (pid : Int) : PidsList :=
  if pidsListContainsPid other pid then list else pidsListAddPid list pid

/-- A failed assertion is `none`. -/
def pidsListDiff (proc : ProcPids) (added removed : PidsList) : Option (PidsList × PidsList) :=
  match proc.prev.filter (·.pids ≠ []) with
  | none => proc.curr.map fun curr => (pidsListAddList added.reset curr, removed.reset)
  | some prev =>
    match proc.curr.filter (·.pids ≠ []) with
    | none => some (added.reset, pidsListAddList removed.reset prev)
    | some curr =>
      some (curr.pids.foldl (addMissing prev) added.reset, prev.pids.foldl (addMissing curr) removed.reset)

structure Difference where
  added : List Int
  removed : List Int
deriving DecidableEq

/-- `pids_list_diff` for one name after the other. -/
def diffAll : List ProcPids → PidsList → PidsList → Option (List Difference × PidsList × PidsList)
  | [], added, removed => some ([], added, removed)
  | proc :: procs, added, removed => do
    let (added, removed) ← pidsListDiff proc added removed
    let (rest, lists) ← diffAll procs added removed
    return (⟨added.pids, removed.pids⟩ :: rest, lists)

/-- A process table has each PID at most once. -/
structure Table where
  entries : List Entry
  distinct : (entries.filterMap Entry.pid).Nodup

/-- An update and the differences of all names for every table, with the same two lists. -/
def rounds : List Table → List ProcPids → PidsList → PidsList → Option (List (List Difference))
  | [], _, _, _ => some []
  | table :: tables, procs, added, removed => do
    let procs := procPidsUpdate table.entries procs
    let (differences, added, removed) ← diffAll procs added removed
    return differences :: (← rounds tables procs added removed)

/-- The processes that a table has under the name. -/
def Table.running (table : Table) (name : CString) : List Int :=
  (table.entries.filter (·.called name)).filterMap Entry.pid

/-- The difference lists the new processes and the gone ones, each of them once. -/
structure Exact (before now : List Int) (difference : Difference) : Prop where
  addedOnce : difference.added.Nodup
  removedOnce : difference.removed.Nodup
  added : ∀ pid, pid ∈ difference.added ↔ pid ∈ now ∧ pid ∉ before
  removed : ∀ pid, pid ∈ difference.removed ↔ pid ∈ before ∧ pid ∉ now

def Difference.apply (pids : List Int) (difference : Difference) : List Int :=
  pids.filter (· ∉ difference.removed) ++ difference.added

section Updating

def PidsList.contents (list : Option PidsList) : List Int := list.elim [] PidsList.pids

theorem pids_pidsListAddPid (list : PidsList) (pid : Int) : (pidsListAddPid list pid).pids = list.pids ++ [pid] := by
  unfold pidsListAddPid
  split <;> rfl

theorem pids_pidsListAddList (dst src : PidsList) : (pidsListAddList dst src).pids = dst.pids ++ src.pids := by
  unfold pidsListAddList
  split <;> rfl

theorem foldl_read (entries : List Entry) (proc : ProcPids) (allocated : proc.curr = some curr) :
    ∃ curr', entries.foldl (fun proc entry => entry.read proc) proc = { proc with curr := some curr' } ∧
      curr'.pids = curr.pids ++ (entries.filter (·.called proc.processName)).filterMap Entry.pid := by
  induction entries generalizing proc curr with
  | nil => exact ⟨curr, by rw [foldl_nil, ← allocated], (append_nil _).symm⟩
  | cons entry entries ih =>
    by_cases counted : entry.called proc.processName = true ∧ entry.pid.isSome
    · obtain ⟨called, pid, number⟩ := counted.imp id Option.isSome_iff_exists.mp
      have added : entry.read proc = { proc with curr := some (pidsListAddPid curr pid) } := by
        simp [Entry.read, number, called, allocated]
      obtain ⟨curr', read, contents⟩ := ih { proc with curr := some (pidsListAddPid curr pid) } rfl
      refine ⟨curr', by rw [foldl_cons, added, read], ?_⟩
      rw [contents, pids_pidsListAddPid]
      simp [called, number]
    · have skipped : entry.read proc = proc := by
        unfold Entry.read
        split
        · rfl
        · next number => rw [if_neg fun called => counted ⟨called, by rw [number]; rfl⟩]
      obtain ⟨curr', read, contents⟩ := ih proc allocated
      refine ⟨curr', by rw [foldl_cons, skipped, read], ?_⟩
      rw [contents, filter_cons]
      split
      · next called => rw [filterMap_cons_none (by simpa [called] using counted)]
      · rfl

theorem procPidsUpdate_eq_map (entries : List Entry) (procs : List ProcPids) :
    procPidsUpdate entries procs =
      procs.map fun proc => entries.foldl (fun proc entry => entry.read proc) (swapProcPids proc).restart := by
  rw [procPidsUpdate, map_map]
  generalize defined : ProcPids.restart ∘ swapProcPids = start
  have each (entries : List Entry) (start : ProcPids → ProcPids) :
      entries.foldl (fun procs entry => procs.map entry.read) (procs.map start) =
        procs.map fun proc => entries.foldl (fun proc entry => entry.read proc) (start proc) := by
    induction entries generalizing start with
    | nil => rfl
    | cons entry entries ih =>
      rw [foldl_cons, map_map, ih]
      rfl
  rw [each, ← defined]
  rfl

end Updating

section Differences

def difference (before now : List Int) : Difference :=
  ⟨now.filter (· ∉ before), before.filter (· ∉ now)⟩

theorem exact_difference (once : before.Nodup) (once' : now.Nodup) : Exact before now (difference before now) := by
  refine ⟨once'.filter _, once.filter _, ?_, ?_⟩ <;> simp [difference]

theorem pids_foldl_addMissing (other : PidsList) (pids : List Int) (list : PidsList) :
    (pids.foldl (addMissing other) list).pids = list.pids ++ pids.filter (· ∉ other.pids) := by
  induction pids generalizing list with
  | nil => exact (append_nil _).symm
  | cons pid pids ih =>
    rw [foldl_cons, ih, addMissing, pidsListContainsPid]
    by_cases present : pid ∈ other.pids <;> simp [present, pids_pidsListAddPid]

theorem pidsListDiff_eq (proc : ProcPids) (allocated : proc.curr = some curr) (added removed : PidsList) :
    ∃ added' removed', pidsListDiff proc added removed = some (added', removed') ∧
      Difference.mk added'.pids removed'.pids = difference (PidsList.contents proc.prev) curr.pids := by
  unfold pidsListDiff
  split
  · next absent =>
    have before : PidsList.contents proc.prev = [] := by
      cases found : proc.prev <;> simp_all [PidsList.contents]
    refine ⟨_, _, by rw [allocated]; rfl, ?_⟩
    simp [pids_pidsListAddList, PidsList.reset, difference, before]
  · next prev present =>
    obtain ⟨found, _⟩ := Option.filter_eq_some_iff.mp present
    rw [found, allocated]
    split
    · next absent =>
      have now : curr.pids = [] := by simpa using absent
      refine ⟨_, _, rfl, ?_⟩
      simp [pids_pidsListAddList, PidsList.reset, PidsList.contents, difference, now]
    · next curr' kept =>
      obtain ⟨same, _⟩ := Option.filter_eq_some_iff.mp kept
      obtain rfl := Option.some.inj same
      refine ⟨_, _, rfl, ?_⟩
      rw [pids_foldl_addMissing, pids_foldl_addMissing]
      rfl

end Differences

section Runs

/-- What a name with `before` running gets told along the tables. -/
def differencesFrom (name : CString) (before : List Int) : List Table → List Difference
  | [] => []
  | table :: tables => difference before (table.running name) :: differencesFrom name (table.running name) tables

def lastRunning (name : CString) (before : List Int) (tables : List Table) : List Int :=
  tables.getLast?.elim before (·.running name)

theorem updated_proc (table : Table) (proc : ProcPids) :
    ∃ curr, table.entries.foldl (fun proc entry => entry.read proc) (swapProcPids proc).restart =
        ⟨proc.processName, proc.curr, some curr⟩ ∧ curr.pids = table.running proc.processName := by
  obtain ⟨curr, read, contents⟩ := foldl_read table.entries (swapProcPids proc).restart rfl
  exact ⟨curr, read, contents⟩

theorem diffAll_updated (table : Table) (procs : List ProcPids) (added removed : PidsList) :
    ∃ lists, diffAll (procPidsUpdate table.entries procs) added removed =
      some (procs.map fun proc => difference (PidsList.contents proc.curr) (table.running proc.processName),
        lists) := by
  rw [procPidsUpdate_eq_map]
  induction procs generalizing added removed with
  | nil => exact ⟨_, rfl⟩
  | cons proc procs ih =>
    obtain ⟨curr, read, running⟩ := updated_proc table proc
    obtain ⟨added', removed', compared, told⟩ :=
      pidsListDiff_eq ⟨proc.processName, proc.curr, some curr⟩ rfl added removed
    obtain ⟨lists, rest⟩ := ih added' removed'
    refine ⟨lists, ?_⟩
    rw [map_cons, read, diffAll, compared]
    simp only [Option.bind_eq_bind, Option.bind_some, rest, told, running]
    rfl

theorem rounds_columns (tables : List Table) (procs : List ProcPids) (added removed : PidsList) :
    ∃ output, rounds tables procs added removed = some output ∧ ∀ (j : Nat) (proc : ProcPids), procs[j]? = some proc →
      output.mapM (·[j]?) = some (differencesFrom proc.processName (PidsList.contents proc.curr) tables) := by
  induction tables generalizing procs added removed with
  | nil => exact ⟨[], rfl, fun _ _ _ => rfl⟩
  | cons table tables ih =>
    obtain ⟨⟨added', removed'⟩, told⟩ := diffAll_updated table procs added removed
    obtain ⟨output, later, columns⟩ := ih (procPidsUpdate table.entries procs) added' removed'
    refine ⟨_ :: output, by simp only [rounds, told, Option.bind_eq_bind, Option.bind_some, later]; rfl, ?_⟩
    intro j proc found
    obtain ⟨curr, read, running⟩ := updated_proc table proc
    have updated : (procPidsUpdate table.entries procs)[j]? = some ⟨proc.processName, proc.curr, some curr⟩ := by
      rw [procPidsUpdate_eq_map, getElem?_map, found, Option.map_some, read]
    rw [mapM_cons, getElem?_map, found, columns j _ updated]
    simp only [PidsList.contents, Option.elim_some, running]
    rfl

theorem differencesFrom_concat (name : CString) (before : List Int) (earlier : List Table) (table : Table) :
    differencesFrom name before (earlier ++ [table]) =
      differencesFrom name before earlier ++ [difference (lastRunning name before earlier) (table.running name)] := by
  induction earlier generalizing before with
  | nil => rfl
  | cons first rest ih =>
    rw [cons_append, differencesFrom, ih, differencesFrom, cons_append]
    congr 3
    cases rest <;> rfl

theorem mem_apply_difference (same : ∀ pid, pid ∈ pids ↔ pid ∈ before) (now : List Int) (pid : Int) :
    pid ∈ (difference before now).apply pids ↔ pid ∈ now := by
  simp only [Difference.apply, difference, mem_append, mem_filter, same, decide_eq_true_eq, not_and, not_not]
  tauto

theorem mem_replay (name : CString) (tables : List Table) (before pids : List Int)
    (same : ∀ pid, pid ∈ pids ↔ pid ∈ before) (pid : Int) :
    pid ∈ (differencesFrom name before tables).foldl Difference.apply pids ↔ pid ∈ lastRunning name before tables := by
  induction tables generalizing before pids with
  | nil => exact same pid
  | cons table tables ih =>
    rw [differencesFrom, foldl_cons, ih _ _ (mem_apply_difference same _)]
    cases tables <;> rfl

theorem nodup_running (table : Table) (name : CString) : (table.running name).Nodup :=
  table.distinct.sublist (filter_sublist.filterMap _)

/-- After any number of updates, the lists of a name are exactly what has changed since the update before,
and the differences of all updates make up the processes that run under it now. -/
theorem differences_reconstruct (names : List CString) (earlier : List Table) (table : Table)
    (added removed : PidsList) :
    ∃ output, rounds (earlier ++ [table]) (procPidsInit names) added removed = some output ∧
      ∀ (j : Nat) (proc : ProcPids), (procPidsInit names)[j]? = some proc →
        ∃ told now, output.mapM (·[j]?) = some (told ++ [now]) ∧
          Exact (lastRunning proc.processName [] earlier) (table.running proc.processName) now ∧
          ∀ pid, pid ∈ (told ++ [now]).foldl Difference.apply [] ↔ pid ∈ table.running proc.processName := by
  obtain ⟨output, returned, columns⟩ := rounds_columns (earlier ++ [table]) (procPidsInit names) added removed
  refine ⟨output, returned, fun j proc found => ?_⟩
  have fresh : PidsList.contents proc.curr = [] := by
    obtain ⟨name, _, rfl⟩ := mem_map.mp (mem_of_getElem? found)
    rfl
  have column := columns j proc found
  rw [fresh] at column
  have replayed := mem_replay proc.processName (earlier ++ [table]) [] [] fun _ => Iff.rfl
  rw [differencesFrom_concat] at column replayed
  refine ⟨_, _, column, exact_difference ?_ (nodup_running table _), fun pid => ?_⟩
  · unfold lastRunning
    cases earlier.getLast? with
    | none => exact nodup_nil
    | some last => exact nodup_running last _
  · rw [replayed, lastRunning, getLast?_append, getLast?_singleton]
    rfl

def tableOf (pid : Int) (file : CString) : Table := ⟨[⟨some pid, some file⟩], nodup_singleton pid⟩

theorem differences_reconstruct_restarted :
    rounds [tableOf 1 ['a', '\n'], tableOf 2 ['a', '\n']] (procPidsInit [['a']]) .empty .empty =
      some [[⟨[1], []⟩], [⟨[2], [1]⟩]] ∧
    ∃ told now, [[⟨[1], []⟩], [⟨[2], [1]⟩]].mapM (fun round : List Difference => round[0]?) = some (told ++ [now]) ∧
      Exact [1] [2] now ∧ ∀ pid, pid ∈ (told ++ [now]).foldl Difference.apply [] ↔ pid ∈ [(2 : Int)] := by
  obtain ⟨output, returned, columns⟩ :=
    differences_reconstruct [['a']] [tableOf 1 ['a', '\n']] (tableOf 2 ['a', '\n']) .empty .empty
  have both : rounds [tableOf 1 ['a', '\n'], tableOf 2 ['a', '\n']] (procPidsInit [['a']]) .empty .empty =
      some [[⟨[1], []⟩], [⟨[2], [1]⟩]] := by decide +kernel
  obtain rfl := Option.some.inj (returned.symm.trans both)
  exact ⟨both, columns 0 ⟨['a'], none, none⟩ rfl⟩

end Runs

end NCollectd.Pids
