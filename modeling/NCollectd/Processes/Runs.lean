import NCollectd.Processes.Accounting

namespace NCollectd.Processes

def passCycle (last : Option (List Process × Nat)) : Option (List Process) → Option (List Process × Nat)
  | none => last.map fun read => (read.1, read.2 + 1)
  | some table => some (table, 0)

def lastRead (cycles : List (Option (List Process))) : Option (List Process × Nat) := cycles.foldl passCycle none

/-- The kernel counter of a process in the previous table, of whatever name it had there, and 0 for one first seen. -/
def Process.baseline (process : Process) (previous : List Process) (counter : Counter) : Int :=
  match previous.find? (·.pid = process.pid) with
  | none => 0
  | some other => if other.start = process.start then other.kernelCounter counter else 0

def growth (ps : Procstat) (counter : Counter) (previous table : List Process) : Int :=
  ((table.filter fun process => process.memberOf ps && !process.isZombie).map fun process =>
    process.kernelCounter counter - process.baseline previous counter).sum

def increase (ps : Procstat) (counter : Counter) (last : Option (List Process × Nat)) :
    Option (List Process) → Int
  | none => 0
  | some table =>
    match last with
    | none => 0
    | some (previous, _) => growth ps counter previous table

def accounted (ps : Procstat) (counter : Counter) (cycles : List (Option (List Process))) : Nat → Int
  | 0 => 0
  | count + 1 =>
    accounted ps counter cycles count +
      (cycles[count]?.elim 0 (increase ps counter (lastRead (cycles.take count))))

/-- A property of every two tables that follow each other, and of the number of cycles between them. -/
def EachStep (property : List Process → Nat → List Process → Prop) (cycles : List (Option (List Process))) : Prop :=
  ∀ count previous failures table, lastRead (cycles.take count) = some (previous, failures) →
    cycles[count]? = some (some table) → property previous failures table

/-- Between two tables the counters of a process do not decrease, and a zombie stays one. -/
structure Evolves (counter : Counter) (previous table : List Process) : Prop where
  grows : ∀ other ∈ previous, ∀ process ∈ table, other.pid = process.pid → other.start = process.start →
    other.kernelCounter counter ≤ process.kernelCounter counter
  dead : ∀ other ∈ previous, ∀ process ∈ table, other.pid = process.pid → other.start = process.start →
    other.isZombie = true → process.isZombie = true

/-- The evolutions of the process table: no number is there twice, and the true sums fit. -/
structure Evolution (ps : Procstat) (counter : Counter) (cycles : List (Option (List Process))) : Prop where
  distinct : ∀ table, some table ∈ cycles → (table.map (·.pid)).Nodup
  nonneg : ∀ table, some table ∈ cycles → ∀ process ∈ table, 0 ≤ process.kernelCounter counter
  evolves : EachStep (fun previous _ table => Evolves counter previous table) cycles
  fits : ∀ count ≤ cycles.length, accounted ps counter cycles count < 2 ^ 63

/-- No process is taken for another one, unless its counter was 0. -/
structure Undisturbed (ps : Procstat) (counter : Counter) (previous : List Process) (failures : Nat)
    (table : List Process) : Prop where
  zombies : failures = 0 → ∀ process ∈ table, process.memberOf ps = true → process.isZombie = true →
    ∀ other ∈ previous, other.isMember ps process.pid = true → other.observed counter = 0
  reused : failures = 0 → ∀ process ∈ table, process.memberOf ps = true → process.isZombie = false →
    ∀ other ∈ previous, other.isMember ps process.pid = true → other.start ≠ process.start →
      other.observed counter = 0
  renamed : failures = 0 → ∀ process ∈ table, process.memberOf ps = true → process.isZombie = false →
    ∀ other ∈ previous, other.pid = process.pid → other.memberOf ps = false → other.start = process.start →
      other.kernelCounter counter = 0
  missed : failures ≠ 0 → ∀ process ∈ table, process.memberOf ps = true → process.isZombie = false →
    ∀ other ∈ previous, other.pid = process.pid → other.start = process.start → other.kernelCounter counter = 0

def recalled (ps : Procstat) (counter : Counter) (last : Option (List Process × Nat)) (pid : Nat) : Int :=
  match last with
  | some (previous, 0) => (previous.find? (·.isMember ps pid)).elim 0 (·.observed counter)
  | _ => 0

theorem recalled_failed (ps : Procstat) (counter : Counter) (previous : List Process) (failures pid : Nat) :
    recalled ps counter (some (previous, failures + 1)) pid = 0 := rfl

theorem isMember_pid {process : Process} (member : process.isMember ps pid = true) :
    process.memberOf ps = true ∧ process.pid = pid := by
  simpa [Process.isMember] using member

theorem find?_isMember (ps : Procstat) {previous : List Process} (distinct : (previous.map Process.pid).Nodup)
    (found : previous.find? (·.pid = pid) = some other) :
    previous.find? (·.isMember ps pid) = if other.memberOf ps then some other else none := by
  induction previous with
  | nil => cases found
  | cons first rest ih =>
    rw [List.map_cons, List.nodup_cons] at distinct
    by_cases here : first.pid = pid
    · obtain rfl : first = other := by simpa [here] using found
      cases member : first.memberOf ps with
      | true => simp [Process.isMember, member, here]
      | false =>
        have absent : rest.find? (·.isMember ps pid) = none := by
          refine List.find?_eq_none.mpr fun later inside known => distinct.1 ?_
          rw [here, ← (isMember_pid known).2]
          exact List.mem_map_of_mem inside
        have outside : first.isMember ps pid = false := by simp [Process.isMember, member]
        rw [List.find?_cons, outside, if_neg Bool.false_ne_true]
        exact absent
    · have later : rest.find? (·.pid = pid) = some other := by simpa [here] using found
      rw [List.find?_cons, ← ih distinct.2 later]
      simp [Process.isMember, here]

section

variable (evolves : Evolves counter previous table)
include evolves

theorem recalled_eq_baseline (distinct : (previous.map Process.pid).Nodup)
    (undisturbed : Undisturbed start counter previous failures table) {process : Process} (inside : process ∈ table)
    (member : process.memberOf start = true) :
    recalled start counter (some (previous, failures)) process.pid =
      if process.isZombie then 0 else process.baseline previous counter := by
  have forgotten (absent : previous.find? (·.isMember start process.pid) = none) :
      recalled start counter (some (previous, failures)) process.pid = 0 := by
    cases failures with
    | zero => rw [recalled, absent]; rfl
    | succ failures => exact recalled_failed ..
  rw [Process.baseline]
  cases found : previous.find? (·.pid = process.pid) with
  | none =>
    have absent : previous.find? (·.isMember start process.pid) = none := by
      refine List.find?_eq_none.mpr fun other before known => ?_
      simpa [(isMember_pid known).2] using List.find?_eq_none.mp found other before
    simpa using forgotten absent
  | some other =>
    have before := List.mem_of_find?_eq_some found
    have number : other.pid = process.pid := by simpa using List.find?_some found
    have known := find?_isMember start distinct found
    cases member' : other.memberOf start with
    | false =>
      rw [member', if_neg Bool.false_ne_true] at known
      rw [forgotten known]
      cases zombie : process.isZombie with
      | true => rfl
      | false =>
        by_cases same : other.start = process.start
        · have unseen : other.kernelCounter counter = 0 := by
            by_cases read : failures = 0
            · exact undisturbed.renamed read process inside member zombie other before number member' same
            · exact undisturbed.missed read process inside member zombie other before number same
          simp [unseen]
        · simp [same]
    | true =>
      rw [member', if_pos rfl] at known
      have inGroup : other.isMember start process.pid = true := by simp [Process.isMember, member', number]
      cases failures with
      | zero =>
        rw [recalled, known, Option.elim_some]
        cases zombie : process.isZombie with
        | true => exact undisturbed.zombies rfl process inside member zombie other before inGroup
        | false =>
          by_cases same : other.start = process.start
          · have alive : other.isZombie = false := by
              by_contra dead
              have again := evolves.dead other before process inside number same (by simpa using dead)
              rw [zombie] at again
              cases again
            simp [same, Process.observed, alive]
          · simpa [same] using undisturbed.reused rfl process inside member zombie other before inGroup same
      | succ failures =>
        rw [recalled_failed]
        cases zombie : process.isZombie with
        | true => rfl
        | false =>
          by_cases same : other.start = process.start
          · have missed := undisturbed.missed (Nat.succ_ne_zero failures) process inside member zombie other before
              number same
            simp [missed]
          · simp [same]

theorem baseline_le {process : Process} (inside : process ∈ table) (nonneg : 0 ≤ process.kernelCounter counter) :
    process.baseline previous counter ≤ process.kernelCounter counter := by
  rw [Process.baseline]
  split
  · exact nonneg
  · rename_i other found
    have number : other.pid = process.pid := by simpa using List.find?_some found
    split
    · rename_i same
      exact evolves.grows other (List.mem_of_find?_eq_some found) process inside number same
    · exact nonneg

theorem growth_nonneg
    (nonneg : ∀ process ∈ table, 0 ≤ process.kernelCounter counter) : 0 ≤ growth start counter previous table := by
  refine List.sum_nonneg fun term inside => ?_
  obtain ⟨process, kept, rfl⟩ := List.mem_map.mp inside
  obtain ⟨inside, _⟩ := List.mem_filter.mp kept
  exact Int.sub_nonneg.mpr (baseline_le evolves inside (nonneg process inside))

end

theorem sum_members_eq_growth (table : List Process) (base : Process → Int)
    (from_base : ∀ process ∈ table, process.memberOf start = true →
      base process = if process.isZombie then 0 else process.baseline previous counter) :
    ((table.filter (·.memberOf start)).map fun process => process.observed counter - base process).sum =
      growth start counter previous table := by
  induction table with
  | nil => rfl
  | cons process rest ih =>
    have rest_sum := ih fun other inside => from_base other (List.mem_cons_of_mem process inside)
    have here := from_base process (List.mem_cons_self ..)
    rw [growth] at rest_sum ⊢
    cases member : process.memberOf start with
    | false => simpa [member] using rest_sum
    | true =>
      cases zombie : process.isZombie with
      | true | false => simpa [member, zombie, here member, Process.observed] using rest_sum

/-- The state of a group after some cycles: its counter, and what it will remember. -/
structure Tracks (start : Procstat) (counter : Counter) (index : Nat) (last : Option (List Process × Nat))
    (total : Int) (state : PluginState) (ps : Procstat) : Prop where
  place : state.listHead[index]? = some ps
  same : SameGroup ps start
  nodup : (ps.instances.map (·.id)).Nodup
  started : state.wantInit = last.isNone
  exports : ps.counters counter = total
  kept : ∀ pid, (if fresh ps pid then memory ps counter pid else 0) = recalled start counter last pid

theorem Tracks.initial (place : groups[index]? = some start) (empty : start.instances = []) :
    Tracks start counter index none (start.counters counter) ⟨true, groups⟩ start where
  place := place
  same := .refl start
  nodup := by simp [empty]
  started := rfl
  exports := rfl
  kept pid := by simp [fresh, empty, recalled]

section

variable (tracks : Tracks start counter index last total state ps)
include tracks

theorem Tracks.fail (pagesize : Nat) :
    Tracks start counter index (passCycle last none) total (psRead pagesize state none) (resetGroup ps) where
  place := by simp [psRead, tracks.place]
  same := (resetGroup_same ps).trans tracks.same
  nodup := resetGroup_nodup tracks.nodup
  started := by
    rw [psRead, tracks.started]
    cases last <;> rfl
  exports := tracks.exports
  kept pid := by
    rw [fresh_resetGroup tracks.nodup]
    cases last <;> rfl

theorem Tracks.collect (main : counter.isMain = true)
    (placed : (psRead pagesize state (some table)).listHead[index]? = some ps')
    (collected : Collected state.wantInit table (resetGroup ps) ps') :
    Tracks start counter index (some (table, 0)) (ps'.counters counter) (psRead pagesize state (some table)) ps' where
  place := placed
  same := collected.same.trans ((resetGroup_same ps).trans tracks.same)
  nodup := collected.nodup (resetGroup_nodup tracks.nodup)
  started := rfl
  exports := rfl
  kept pid := by
    have members := ((resetGroup_same ps).trans tracks.same).isMember_eq pid
    rw [collected.seen, collected.kept counter main, fresh_resetGroup tracks.nodup, Bool.or_false, members, recalled]
    cases found : table.find? (·.isMember start pid) with
    | none =>
      have absent : table.any (·.isMember start pid) = false := by
        simpa using found
      rw [absent]
      rfl
    | some process =>
      have present : table.any (·.isMember start pid) = true :=
        List.any_eq_true.mpr ⟨process, List.mem_of_find?_eq_some found, by simpa using List.find?_some found⟩
      rw [present]
      rfl

end

theorem Tracks.read (tracks : Tracks start counter index (some (previous, failures)) total state ps)
    (main : counter.isMain = true) (earlier : (previous.map (·.pid)).Nodup) (distinct : (table.map (·.pid)).Nodup)
    (nonneg : ∀ process ∈ table, 0 ≤ process.kernelCounter counter) (evolves : Evolves counter previous table)
    (undisturbed : Undisturbed start counter previous failures table) (positive : 0 ≤ total)
    (fits : total + growth start counter previous table < 2 ^ 63) (pagesize : Nat) :
    ∃ ps', Tracks start counter index (some (table, 0)) (total + growth start counter previous table)
      (psRead pagesize state (some table)) ps' := by
  obtain ⟨ps', placed, collected⟩ := psRead_group pagesize state table index tracks.place distinct
  have members := (resetGroup_same ps).trans tracks.same
  have remembers (process : Process) (inside : process ∈ table) (member : process.memberOf start = true) :
      memory (resetGroup ps) counter process.pid =
        if process.isZombie then 0 else process.baseline previous counter :=
    (memory_resetGroup tracks.nodup counter process.pid).trans
      ((tracks.kept process.pid).trans (recalled_eq_baseline evolves earlier undisturbed inside member))
  have owed_growth : owed (resetGroup ps) counter table = growth start counter previous table := by
    have filtered : table.filter (·.memberOf (resetGroup ps)) = table.filter (·.memberOf start) :=
      List.filter_congr fun process _ => members.memberOf_eq process
    rw [owed, filtered]
    exact sum_members_eq_growth table _ remembers
  have countable : Countable (resetGroup ps) counter table := by
    intro process inside member
    rw [members.memberOf_eq] at member
    rw [remembers process inside member, Process.observed]
    split
    · exact le_refl 0
    · exact baseline_le evolves inside (nonneg process inside)
  have before : (resetGroup ps).counters counter = total := tracks.exports
  have counted := collected.counted tracks.started counter main countable (by rw [before]; exact positive)
    (by rw [before, owed_growth]; exact fits)
  rw [before, owed_growth] at counted
  have next := tracks.collect main placed collected
  rw [counted] at next
  exact ⟨ps', next⟩

theorem Tracks.read_first (tracks : Tracks start counter index none total state ps) (main : counter.isMain = true)
    (distinct : (table.map (·.pid)).Nodup) (pagesize : Nat) :
    ∃ ps', Tracks start counter index (some (table, 0)) total (psRead pagesize state (some table)) ps' := by
  obtain ⟨ps', placed, collected⟩ := psRead_group pagesize state table index tracks.place distinct
  have next := tracks.collect main placed collected
  rw [collected.first tracks.started counter main] at next
  exact ⟨ps', tracks.exports ▸ next⟩

def exported (pagesize : Nat) (groups : List Procstat) (index : Nat) (counter : Counter)
    (cycles : List (Option (List Process))) : Option Int :=
  ((cycles.foldl (psRead pagesize) ⟨true, groups⟩).listHead[index]?).map (·.counters counter)

/-- In every cycle of the run the counter of the group grows by what it has to, and never decreases. -/
def AccountsExactly (pagesize : Nat) (groups : List Procstat) (index : Nat) (ps : Procstat) (counter : Counter)
    (cycles : List (Option (List Process))) : Prop :=
  ∀ count cycle, cycles[count]? = some cycle →
    ∃ value, exported pagesize groups index counter (cycles.take count) = some value ∧
      exported pagesize groups index counter (cycles.take (count + 1)) =
        some (value + increase ps counter (lastRead (cycles.take count)) cycle) ∧
      0 ≤ increase ps counter (lastRead (cycles.take count)) cycle

theorem Tracks.exported_eq
    (tracks : Tracks start counter index last total (cycles.foldl (psRead pagesize) ⟨true, groups⟩) ps) :
    exported pagesize groups index counter cycles = some total := by
  rw [exported, tracks.place, Option.map_some, tracks.exports]

theorem lastRead_mem (last : lastRead cycles = some (previous, failures)) : some previous ∈ cycles := by
  induction cycles using List.reverseRecOn generalizing failures with
  | nil => cases last
  | append_singleton cycles cycle ih =>
    rw [lastRead, List.foldl_append] at last
    cases cycle with
    | none =>
      obtain ⟨read, before, same⟩ := Option.map_eq_some_iff.mp last
      cases same
      exact List.mem_append_left _ (ih before)
    | some table =>
      cases last
      exact List.mem_append_right _ (List.mem_singleton.mpr rfl)

section Run

variable {cycles : List (Option (List Process))}

theorem take_succ_of_cycle (at_count : cycles[count]? = some cycle) :
    cycles.take (count + 1) = cycles.take count ++ [cycle] := by
  rw [List.take_add_one, at_count]
  rfl

theorem accounted_succ (at_count : cycles[count]? = some cycle) :
    accounted start counter cycles (count + 1) =
      accounted start counter cycles count + increase start counter (lastRead (cycles.take count)) cycle := by
  rw [accounted, at_count]
  rfl

section

variable (evolution : Evolution start counter cycles)
include evolution

theorem Evolution.increase_nonneg (at_count : cycles[count]? = some cycle) :
    0 ≤ increase start counter (lastRead (cycles.take count)) cycle := by
  cases cycle with
  | none => exact le_refl 0
  | some table =>
    cases last : lastRead (cycles.take count) with
    | none => exact le_refl 0
    | some read =>
      exact growth_nonneg (evolution.evolves count read.1 read.2 table last at_count)
        (evolution.nonneg table (List.mem_of_getElem? at_count))

theorem Evolution.accounted_nonneg (count : Nat) : 0 ≤ accounted start counter cycles count := by
  induction count with
  | zero => exact le_refl 0
  | succ count ih =>
    cases at_count : cycles[count]? with
    | none => simpa [accounted, at_count] using ih
    | some cycle =>
      rw [accounted_succ at_count]
      exact Int.add_nonneg ih (evolution.increase_nonneg at_count)

/-- Every state of a run whose steps are undisturbed has counted the true sum. -/
theorem Evolution.tracks (main : counter.isMain = true)
    (undisturbed : EachStep (Undisturbed start counter) cycles) (place : groups[index]? = some start)
    (empty : start.instances = []) (zero : start.counters counter = 0) (pagesize count : Nat)
    (inside : count ≤ cycles.length) :
    ∃ ps, Tracks start counter index (lastRead (cycles.take count)) (accounted start counter cycles count)
      ((cycles.take count).foldl (psRead pagesize) ⟨true, groups⟩) ps := by
  induction count with
  | zero =>
    have initial : Tracks start counter index none (start.counters counter) ⟨true, groups⟩ start :=
      .initial place empty
    rw [zero] at initial
    exact ⟨start, initial⟩
  | succ count ih =>
    obtain ⟨ps, tracks⟩ := ih (Nat.le_of_succ_le inside)
    have at_count : cycles[count]? = some cycles[count] := List.getElem?_eq_getElem inside
    generalize cycles[count] = cycle at at_count
    have fits := evolution.fits (count + 1) inside
    rw [accounted_succ at_count] at fits ⊢
    rw [lastRead, take_succ_of_cycle at_count, List.foldl_append, List.foldl_append, List.foldl_cons, List.foldl_nil]
    cases cycle with
    | none =>
      have failed := tracks.fail pagesize
      rw [← Int.add_zero (accounted start counter cycles count)] at failed
      exact ⟨_, failed⟩
    | some table =>
      have distinct := evolution.distinct table (List.mem_of_getElem? at_count)
      have nonneg := evolution.nonneg table (List.mem_of_getElem? at_count)
      cases last : lastRead (cycles.take count) with
      | none =>
        rw [last] at tracks
        obtain ⟨ps', next⟩ := tracks.read_first main distinct pagesize
        rw [← Int.add_zero (accounted start counter cycles count)] at next
        exact ⟨ps', next⟩
      | some read =>
        have earlier := evolution.distinct read.1 (List.mem_of_mem_take (lastRead_mem last))
        rw [last] at tracks fits
        exact tracks.read main earlier distinct nonneg (evolution.evolves count read.1 read.2 table last at_count)
          (undisturbed count read.1 read.2 table last at_count) (evolution.accounted_nonneg count) fits pagesize

end

end Run

/-- The same property of the tables, cycle by cycle from a given table on. -/
def StepsFrom (property : List Process → Nat → List Process → Prop) :
    Option (List Process × Nat) → List (Option (List Process)) → Prop
  | _, [] => True
  | last, none :: rest => StepsFrom property (passCycle last none) rest
  | none, some table :: rest => StepsFrom property (some (table, 0)) rest
  | some (previous, failures), some table :: rest =>
    property previous failures table ∧ StepsFrom property (some (table, 0)) rest

theorem StepsFrom.at_count (steps : StepsFrom property last cycles) (count : Nat)
    (before : (cycles.take count).foldl passCycle last = some (previous, failures))
    (here : cycles[count]? = some (some table)) : property previous failures table := by
  induction cycles generalizing last count with
  | nil => cases here
  | cons cycle rest ih =>
    cases count with
    | zero =>
      cases here
      cases before
      exact steps.1
    | succ count =>
      refine ih ?_ count before here
      cases cycle with
      | none => exact steps
      | some table =>
        cases last with
        | none => exact steps
        | some read => exact steps.2

theorem eachStep_of_stepsFrom
    (steps : StepsFrom property none cycles) : EachStep property cycles :=
  fun count _ _ _ before here => steps.at_count count before here

def dbProcess (comm : CString) (start : Nat) (state : Char) (utime : Int) : Process where
  pid := 7
  start := start
  files :=
    { stat := some ⟨comm, state, 0, 0, utime, 0, 1, 0, 0, 0, 0⟩
      status := none
      io := none
      cswitch := none
      maps := 0
      fd := 0
      cmdline := none }

/-- Tables of one process, by its name, start time, state and user time. -/
def dbRun (readings : List (Option (CString × Nat × Char × Int))) : List (Option (List Process)) :=
  readings.map (Option.map fun reading => [dbProcess reading.1 reading.2.1 reading.2.2.1 reading.2.2.2])

def dbGroup : Procstat := .registered "db" none false false false

def dyingRun : List (Option (List Process)) :=
  dbRun [some ("db", 1, 'R', 3), some ("db", 1, 'R', 5), some ("db", 1, 'Z', 5)]

def reusingRun : List (Option (List Process)) :=
  dbRun [some ("db", 1, 'R', 3), some ("db", 1, 'R', 5), some ("db", 2, 'R', 6)]

def failingRun : List (Option (List Process)) := dbRun [some ("db", 1, 'R', 3), none, some ("db", 1, 'R', 5)]

def renamedRun : List (Option (List Process)) :=
  dbRun [some ("db", 1, 'R', 300), some ("sh", 1, 'R', 301), some ("db", 1, 'R', 302)]

def calmRun : List (Option (List Process)) :=
  dbRun [some ("db", 1, 'R', 0), some ("db", 2, 'R', 4), some ("db", 2, 'R', 9)]

theorem evolves_db {comm : CString} (lives : first = second → utime ≤ utime' ∧ (state = 'Z' → state' = 'Z')) :
    Evolves .cpuUser [dbProcess comm first state utime] [dbProcess comm' second state' utime'] where
  grows := by
    intro other before process inside _ same
    rw [List.mem_singleton.mp before, List.mem_singleton.mp inside] at same ⊢
    exact Int.tdiv_le_tdiv (by decide) (Int.mul_le_mul_of_nonneg_right (lives same).1 (by decide))
  dead := by
    intro other before process inside _ same
    rw [List.mem_singleton.mp before, List.mem_singleton.mp inside] at same ⊢
    simpa [Process.isZombie, dbProcess] using (lives same).2

theorem dbRun_evolution
    (nonneg : ∀ reading, some reading ∈ readings → 0 ≤ reading.2.2.2)
    (evolves : StepsFrom (fun previous _ table => Evolves .cpuUser previous table) none (dbRun readings))
    (fits : ∀ count ≤ (dbRun readings).length, accounted dbGroup .cpuUser (dbRun readings) count < 2 ^ 63) :
    Evolution dbGroup .cpuUser (dbRun readings) := by
  have single (table : List Process) (inside : some table ∈ dbRun readings) :
      ∃ reading, some reading ∈ readings ∧ [dbProcess reading.1 reading.2.1 reading.2.2.1 reading.2.2.2] = table := by
    simpa [dbRun] using inside
  refine ⟨fun table inside => ?_, fun table inside process member => ?_, eachStep_of_stepsFrom evolves, fits⟩
  · obtain ⟨reading, _, rfl⟩ := single table inside
    exact List.nodup_singleton _
  · obtain ⟨reading, kept, rfl⟩ := single table inside
    rw [List.mem_singleton.mp member]
    exact Int.tdiv_nonneg (Int.mul_nonneg (nonneg reading kept) (by decide)) (by decide)

theorem undisturbed_db
    (calm : state' = 'Z' ∨ first ≠ second → (dbProcess "db" first state utime).observed .cpuUser = 0) :
    Undisturbed dbGroup .cpuUser [dbProcess "db" first state utime] 0 [dbProcess "db" second state' utime'] where
  zombies := by
    intro _ process inside _ zombie other before _
    rw [List.mem_singleton.mp inside] at zombie
    rw [List.mem_singleton.mp before]
    exact calm (.inl (by simpa [Process.isZombie, dbProcess] using zombie))
  reused := by
    intro _ process inside _ _ other before _ different
    rw [List.mem_singleton.mp inside, List.mem_singleton.mp before] at different
    rw [List.mem_singleton.mp before]
    exact calm (.inr different)
  renamed := by
    intro _ process inside _ _ other before _ outside
    rw [List.mem_singleton.mp before] at outside
    cases outside
  missed failed := absurd rfl failed

theorem not_accountsExactly (count : Nat) (value : Int) (here : cycles[count]? = some cycle)
    (before : exported pagesize groups index counter (cycles.take count) = some value)
    (after : exported pagesize groups index counter (cycles.take (count + 1)) ≠
      some (value + increase ps counter (lastRead (cycles.take count)) cycle)) :
    ¬ AccountsExactly pagesize groups index ps counter cycles := by
  intro accounts
  obtain ⟨value', before', grown, _⟩ := accounts count cycle here
  cases before.symm.trans before'
  exact after grown

end NCollectd.Processes
