import NCollectd.Processes.Model

namespace NCollectd.Processes

open List Option

def Counter.isMain : Counter → Bool
  | .vmemMinflt | .vmemMajflt | .cpuUser | .cpuSystem => true
  | _ => false

namespace Process

def memberOf (process : Process) (ps : Procstat) : Bool :=
  match process.files.stat with
  | none => false
  | some stat =>
    1 ≤ process.pid ∧ psListMatch (sstrncpy stat.comm procstatNameLen) process.files.cmdline ps

def isZombie (process : Process) : Bool :=
  match process.files.stat with
  | none => false
  | some stat => stat.state = 'Z'

def isMember (process : Process) (ps : Procstat) (pid : Nat) : Bool := process.memberOf ps && process.pid = pid

def kernelCounter (process : Process) (counter : Counter) : Int :=
  match process.files.stat with
  | none => 0
  | some stat => readCounters stat counter

def observed (process : Process) (counter : Counter) : Int :=
  if process.isZombie then 0 else process.kernelCounter counter

end Process

def memory (ps : Procstat) (counter : Counter) (pid : Nat) : Int := (findInstance ps.instances pid).counters counter

def fresh (ps : Procstat) (pid : Nat) : Bool := (ps.instances.find? fun pse => pse.id = pid).any fun pse => pse.age = 0

theorem find?_putInstance (pse : ProcstatEntry) (instances : List ProcstatEntry) (id : Nat) :
    ((putInstance pse instances).find? fun other => other.id = id) =
      if pse.id = id then some pse else instances.find? fun other => other.id = id := by
  induction instances with
  | nil => by_cases same : pse.id = id <;> simp [putInstance, same]
  | cons first rest ih =>
    rw [putInstance]
    by_cases here : first.id = pse.id
    · by_cases same : pse.id = id <;> simp [here, same]
    · rw [if_neg here, find?_cons, ih, find?_cons]
      by_cases same : pse.id = id
      · have other : ¬ first.id = id := fun equal => here (equal.trans same.symm)
        simp [same, other]
      · simp [same]

theorem mem_putInstance
    (member : other ∈ putInstance pse instances) : other = pse ∨ other ∈ instances := by
  induction instances with
  | nil => exact .inl (mem_singleton.mp member)
  | cons first rest ih =>
    rw [putInstance] at member
    split at member
    · exact (mem_cons.mp member).imp id (mem_cons_of_mem first)
    · rcases mem_cons.mp member with rfl | later
      · exact .inr (mem_cons_self ..)
      · exact (ih later).imp id (mem_cons_of_mem first)

theorem putInstance_ids (pse : ProcstatEntry) (instances : List ProcstatEntry)
    (nodup : (instances.map (·.id)).Nodup) : ((putInstance pse instances).map (·.id)).Nodup := by
  induction instances with
  | nil => simp [putInstance]
  | cons first rest ih =>
    rw [map_cons, nodup_cons] at nodup
    rw [putInstance]
    split
    · rename_i same
      rw [map_cons, nodup_cons, ← same]
      exact nodup
    · rename_i other
      rw [map_cons, nodup_cons]
      refine ⟨fun member => ?_, ih nodup.2⟩
      obtain ⟨found, inside, equal⟩ := mem_map.mp member
      rcases mem_putInstance inside with rfl | older
      · exact other equal.symm
      · exact nodup.1 (mem_map.mpr ⟨found, older, equal⟩)

theorem find?_reset (instances : List ProcstatEntry) (nodup : (instances.map (·.id)).Nodup) (id : Nat) :
    (((instances.filter fun pse => pse.age = 0).map fun pse => { pse with age := 1 }).find? fun pse => pse.id = id) =
      ((instances.find? fun pse => pse.id = id).filter fun pse => pse.age = 0).map fun pse =>
        { pse with age := 1 } := by
  induction instances with
  | nil => rfl
  | cons first rest ih =>
    rw [map_cons, nodup_cons] at nodup
    have later := ih nodup.2
    by_cases same : first.id = id
    · have absent : (rest.find? fun pse => pse.id = id) = none := by
        apply find?_eq_none.mpr
        intro other member equal
        exact nodup.1 (mem_map.mpr ⟨other, member, by simpa [same] using equal⟩)
      rw [absent] at later
      by_cases young : first.age = 0
      · simp [same, young]
      · rw [filter_cons_of_neg (by simpa using young), later, find?_cons_of_pos (by simpa using same)]
        simp [Option.filter, young]
    · by_cases young : first.age = 0
      all_goals simpa [same, young] using later

/-- The configuration of a group, by which its processes are found. -/
structure SameGroup (first second : Procstat) : Prop where
  name : first.name = second.name
  re : first.re = second.re

theorem SameGroup.refl (ps : Procstat) : SameGroup ps ps := ⟨rfl, rfl⟩

theorem SameGroup.trans (first : SameGroup ps other) (second : SameGroup other third) : SameGroup ps third :=
  ⟨first.name.trans second.name, first.re.trans second.re⟩

theorem SameGroup.memberOf_eq (same : SameGroup ps other) (process : Process) :
    process.memberOf ps = process.memberOf other := by
  unfold Process.memberOf psListMatch
  rw [same.name, same.re]

theorem SameGroup.isMember_eq (same : SameGroup ps other) (pid : Nat) :
    (fun process : Process => process.isMember ps pid) = fun process => process.isMember other pid := by
  funext process
  rw [Process.isMember, Process.isMember, same.memberOf_eq]

theorem resetGroup_same (ps : Procstat) : SameGroup (resetGroup ps) ps := ⟨rfl, rfl⟩

section

variable {ps : Procstat} (nodup : (ps.instances.map (·.id)).Nodup)
include nodup

theorem resetGroup_nodup : ((resetGroup ps).instances.map (·.id)).Nodup := by
  have ids : (resetGroup ps).instances.map (·.id) = (ps.instances.filter fun pse => pse.age = 0).map (·.id) := by
    simp [resetGroup]
  rw [ids]
  exact nodup.sublist (filter_sublist.map _)

theorem memory_resetGroup (counter : Counter) (pid : Nat) :
    memory (resetGroup ps) counter pid = if fresh ps pid then memory ps counter pid else 0 := by
  rw [memory, findInstance, resetGroup, find?_reset ps.instances nodup, fresh, memory, findInstance]
  cases found : ps.instances.find? fun pse => pse.id = pid with
  | none => simp
  | some pse => by_cases young : pse.age = 0 <;> simp [Option.filter, young]

theorem fresh_resetGroup (pid : Nat) : fresh (resetGroup ps) pid = false := by
  rw [fresh, resetGroup, find?_reset ps.instances nodup]
  cases found : ps.instances.find? fun pse => pse.id = pid with
  | none => rfl
  | some pse => by_cases young : pse.age = 0 <;> simp [Option.filter, young]

end

theorem counterKnown_of_main (entry : ProcessEntry) (main : counter.isMain = true) :
    counterKnown entry counter = true := by
  cases counter <;> first | rfl | cases main

section

variable (wantInit : Bool) (ps : Procstat) (entry : ProcessEntry)

theorem memory_addToGroup (main : counter.isMain = true) (pid : Nat)
    : memory (addToGroup wantInit ps entry) counter pid =
      if entry.id = pid then entry.counters counter else memory ps counter pid := by
  have kept : (psUpdateCounter wantInit (ps.counters counter) (memory ps counter entry.id)
      (entry.counters counter)).2 = entry.counters counter := by
    rw [psUpdateCounter]
    split <;> rfl
  rw [memory, findInstance, addToGroup, find?_putInstance]
  split
  · simp only [getD_some, counterKnown_of_main entry main, if_true]
    exact kept
  · rfl

theorem fresh_addToGroup (pid : Nat) :
    fresh (addToGroup wantInit ps entry) pid = (decide (entry.id = pid) || fresh ps pid) := by
  rw [fresh, addToGroup, find?_putInstance]
  by_cases same : entry.id = pid <;> simp [same, fresh]

end

/-- Two readings of one process, with the same main counters. -/
structure SameReading (first second : ProcessEntry) : Prop where
  id : first.id = second.id
  name : first.name = second.name
  counters : ∀ counter, counter.isMain = true → first.counters counter = second.counters counter

theorem SameReading.refl (entry : ProcessEntry) : SameReading entry entry := ⟨rfl, rfl, fun _ _ => rfl⟩

theorem SameReading.trans (first : SameReading entry other) (second : SameReading other third) :
    SameReading entry third :=
  ⟨first.id.trans second.id, first.name.trans second.name, fun counter main =>
    (first.counters counter main).trans (second.counters counter main)⟩

theorem psReadIo_same (files : ProcessFiles) (entry : ProcessEntry) : SameReading (psReadIo files entry) entry := by
  rw [psReadIo]
  split
  · exact .refl entry
  · refine ⟨rfl, rfl, fun counter main => if_neg ?_⟩
    cases counter <;> first | exact Bool.false_ne_true | cases main

theorem update_cswitch_same (entry : ProcessEntry) (vol invol : Int) (known : Bool) :
    SameReading { entry with
      counters := Function.update (Function.update entry.counters .cswitchVol vol) .cswitchInvol invol
      hasCswitch := known } entry := by
  refine ⟨rfl, rfl, fun counter main => ?_⟩
  cases counter <;> first | rfl | cases main

theorem psFillDetails_same (ps : Procstat) (files : ProcessFiles) (entry : ProcessEntry) :
    SameReading (psFillDetails ps files entry) entry := by
  have io : SameReading (if entry.hasIo then entry else { psReadIo files entry with hasIo := true }) entry := by
    split
    · exact .refl entry
    · have read := psReadIo_same files entry
      exact ⟨read.id, read.name, read.counters⟩
  refine SameReading.trans ?_ io
  simp only [psFillDetails]
  generalize (if entry.hasIo then entry else { psReadIo files entry with hasIo := true }) = filled
  by_cases switches : ps.reportCtxSwitch ∧ ¬ filled.hasCswitch
  · simp only [if_pos switches]
    cases files.cswitch with
    | none => cases ps.reportMapsNum <;> cases ps.reportFdNum <;> exact ⟨rfl, rfl, fun _ _ => rfl⟩
    | some counts =>
      refine SameReading.trans ?_ (update_cswitch_same filled counts.1 counts.2 true)
      cases ps.reportMapsNum <;> cases ps.reportFdNum <;> exact ⟨rfl, rfl, fun _ _ => rfl⟩
  · simp only [if_neg switches]
    cases ps.reportMapsNum <;> cases ps.reportFdNum <;> exact ⟨rfl, rfl, fun _ _ => rfl⟩

theorem listAdd_group (wantInit : Bool) (cmdline : Option CString) (files : ProcessFiles) (entry : ProcessEntry)
    (list : List Procstat) (index : Nat) (place : list[index]? = some ps) :
    ∃ filled, SameReading filled entry ∧ (listAdd wantInit cmdline files entry list)[index]? =
      some (if psListMatch entry.name cmdline ps then addToGroup wantInit ps filled else ps) := by
  induction list generalizing entry index with
  | nil => cases place
  | cons first rest ih =>
    rw [listAdd]
    cases index with
    | zero =>
      cases place
      refine ⟨psFillDetails ps files entry, psFillDetails_same ps files entry, ?_⟩
      split <;> rfl
    | succ index =>
      split
      · have details := psFillDetails_same first files entry
        obtain ⟨filled, same, placed⟩ := ih (psFillDetails first files entry) index place
        rw [details.name] at placed
        exact ⟨filled, same.trans details, placed⟩
      · exact ih entry index place

/-- What reading a process does to a group. -/
structure Added (wantInit : Bool) (process : Process) (ps ps' : Procstat) : Prop where
  same : SameGroup ps' ps
  nodup : (ps.instances.map (·.id)).Nodup → (ps'.instances.map (·.id)).Nodup
  seen : ∀ pid, fresh ps' pid = (process.isMember ps pid || fresh ps pid)
  kept : ∀ counter, counter.isMain = true → ∀ pid, memory ps' counter pid =
    if process.isMember ps pid then process.observed counter else memory ps counter pid
  counted : ∀ counter, counter.isMain = true → ps'.counters counter =
    if process.memberOf ps then
      (psUpdateCounter wantInit (ps.counters counter) (memory ps counter process.pid) (process.observed counter)).1
    else ps.counters counter

theorem Added.of_not_member (outside : process.memberOf ps = false) : Added wantInit process ps ps where
  same := .refl ps
  nodup := id
  seen pid := by simp [Process.isMember, outside]
  kept counter _ pid := by simp [Process.isMember, outside]
  counted counter _ := by simp [outside]

theorem Added.of_member (member : process.memberOf ps = true) (number : filled.id = process.pid)
    (reading : ∀ counter, counter.isMain = true → filled.counters counter = process.observed counter) :
    Added wantInit process ps (addToGroup wantInit ps filled) where
  same := ⟨rfl, rfl⟩
  nodup := putInstance_ids _ ps.instances
  seen pid := by rw [fresh_addToGroup, Process.isMember, member, number, Bool.true_and]
  kept counter main pid := by
    rw [memory_addToGroup wantInit ps filled main, Process.isMember, member, number, reading counter main]
    simp
  counted counter main := by
    simp [addToGroup, counterKnown_of_main filled main, memory, member, number, reading counter main]

theorem psReadProcess_main (read : psReadProcess pagesize process = some entry) :
    ∃ stat, process.files.stat = some stat ∧ entry.id = process.pid ∧
      entry.name = sstrncpy stat.comm procstatNameLen ∧
      ∀ counter, counter.isMain = true → entry.counters counter = process.observed counter := by
  cases opened : process.files.stat with
  | none => simp [psReadProcess, opened] at read
  | some stat =>
    refine ⟨stat, rfl, ?_⟩
    by_cases dead : stat.state = 'Z'
    · simp only [psReadProcess, opened, bind_eq_bind, bind_some, if_pos dead, some.injEq] at read
      subst read
      refine ⟨rfl, rfl, fun counter _ => ?_⟩
      simp [Process.observed, Process.isZombie, opened, dead, ProcessEntry.zero]
    · simp only [psReadProcess, opened, bind_eq_bind, bind_some, if_neg dead, some.injEq] at read
      subst read
      refine ⟨rfl, rfl, fun counter _ => ?_⟩
      simp [Process.observed, Process.isZombie, Process.kernelCounter, opened, dead]

def addProcess (pagesize : Nat) (wantInit : Bool) (list : List Procstat) (process : Process) : List Procstat :=
  if process.pid < 1 then list
  else
    match psReadProcess pagesize process with
    | none => list
    | some entry => psListAdd wantInit process.files entry list

theorem exists_psReadProcess (pagesize : Nat) (opened : process.files.stat = some stat) :
    ∃ entry, psReadProcess pagesize process = some entry := by
  by_cases dead : stat.state = 'Z' <;> simp [psReadProcess, opened, dead]

theorem addProcess_group (pagesize : Nat) (wantInit : Bool) (list : List Procstat) (process : Process) (index : Nat)
    (place : list[index]? = some ps) :
    ∃ ps', (addProcess pagesize wantInit list process)[index]? = some ps' ∧ Added wantInit process ps ps' := by
  rw [addProcess]
  by_cases small : process.pid < 1
  · rw [if_pos small]
    refine ⟨ps, place, .of_not_member ?_⟩
    rw [Process.memberOf]
    split
    · rfl
    · simp [Nat.lt_one_iff.mp small]
  rw [if_neg small]
  cases opened : process.files.stat with
  | none =>
    simp only [psReadProcess, opened]
    exact ⟨ps, place, .of_not_member (by rw [Process.memberOf, opened])⟩
  | some stat =>
    obtain ⟨entry, read⟩ := exists_psReadProcess pagesize opened
    obtain ⟨stat', opened', number, name, reading⟩ := psReadProcess_main read
    cases opened.symm.trans opened'
    have matched : process.memberOf ps = psListMatch entry.name process.files.cmdline ps := by
      rw [Process.memberOf, opened, name]
      simp [Nat.not_lt.mp small]
    obtain ⟨filled, same, placed⟩ := listAdd_group wantInit process.files.cmdline process.files entry list index place
    rw [read]
    simp only [psListAdd, number, if_neg (Nat.lt_one_iff.not.mp small)]
    rw [← matched] at placed
    refine ⟨_, placed, ?_⟩
    cases member : process.memberOf ps with
    | false => exact .of_not_member member
    | true =>
      exact .of_member member (same.id.trans number) fun counter main =>
        (same.counters counter main).trans (reading counter main)

def owed (ps : Procstat) (counter : Counter) (table : List Process) : Int :=
  ((table.filter (·.memberOf ps)).map fun process => process.observed counter - memory ps counter process.pid).sum

/-- The counters of a table can be counted: none of them went back. -/
def Countable (ps : Procstat) (counter : Counter) (table : List Process) : Prop :=
  ∀ process ∈ table, process.memberOf ps = true → memory ps counter process.pid ≤ process.observed counter

theorem owed_nonneg (countable : Countable ps counter table) : 0 ≤ owed ps counter table := by
  refine sum_nonneg fun term inside => ?_
  obtain ⟨process, kept, rfl⟩ := mem_map.mp inside
  obtain ⟨inside, member⟩ := mem_filter.mp kept
  exact Int.sub_nonneg.mpr (countable process inside member)

theorem psUpdateCounter_exact (positive : 0 ≤ groupCounter) (grown : currCounter ≤ newCounter)
    (fits : groupCounter + (newCounter - currCounter) < 2 ^ 63) :
    (psUpdateCounter false groupCounter currCounter newCounter).1 = groupCounter + (newCounter - currCounter) := by
  have wrapped : (newCounter - currCounter) % (ulongRange : Int) = newCounter - currCounter := by
    rw [ulongRange]
    omega
  have started : groupCounter ≠ -1 := by omega
  simp only [psUpdateCounter, Bool.false_eq_true, if_false, if_neg (Int.not_lt.mpr grown), if_neg started, wrapped]
  rw [ulongRange, Int.bmod_eq_of_le] <;> omega

/-- What a cycle does to a group. -/
structure Collected (wantInit : Bool) (table : List Process) (ps ps' : Procstat) : Prop where
  same : SameGroup ps' ps
  nodup : (ps.instances.map (·.id)).Nodup → (ps'.instances.map (·.id)).Nodup
  seen : ∀ pid, fresh ps' pid = (table.any (·.isMember ps pid) || fresh ps pid)
  kept : ∀ counter, counter.isMain = true → ∀ pid, memory ps' counter pid =
    match table.find? (·.isMember ps pid) with
    | some process => process.observed counter
    | none => memory ps counter pid
  first : wantInit = true → ∀ counter, counter.isMain = true → ps'.counters counter = ps.counters counter
  counted : wantInit = false → ∀ counter, counter.isMain = true → Countable ps counter table →
    0 ≤ ps.counters counter → ps.counters counter + owed ps counter table < 2 ^ 63 →
    ps'.counters counter = ps.counters counter + owed ps counter table

theorem Collected.nil (wantInit : Bool) (ps : Procstat) : Collected wantInit [] ps ps where
  same := .refl ps
  nodup := id
  seen _ := rfl
  kept _ _ _ := rfl
  first _ _ _ := rfl
  counted _ counter _ _ _ _ := (Int.add_zero (ps.counters counter)).symm

section

variable {counter : Counter} (added : Added wantInit process ps ps') (main : counter.isMain = true)
include added main

theorem Added.memory_other (other : process.pid ≠ pid) : memory ps' counter pid = memory ps counter pid := by
  rw [added.kept counter main, if_neg]
  simp [Process.isMember, other]

theorem Added.countable
    (distinct : process.pid ∉ rest.map (·.pid)) (countable : Countable ps counter (process :: rest)) :
    Countable ps' counter rest := by
  intro other inside member
  have apart : process.pid ≠ other.pid := fun same => distinct (mem_map.mpr ⟨other, inside, same.symm⟩)
  rw [added.memory_other main apart]
  rw [added.same.memberOf_eq] at member
  exact countable other (mem_cons_of_mem process inside) member

theorem Added.owed_eq
    (distinct : process.pid ∉ rest.map (·.pid)) : owed ps' counter rest = owed ps counter rest := by
  have members : rest.filter (·.memberOf ps') = rest.filter (·.memberOf ps) :=
    filter_congr fun other _ => added.same.memberOf_eq other
  rw [owed, owed, members]
  refine congrArg sum (map_congr_left fun other kept => ?_)
  have apart : process.pid ≠ other.pid := fun same =>
    distinct (mem_map.mpr ⟨other, mem_of_mem_filter kept, same.symm⟩)
  rw [added.memory_other main apart]

end

theorem Collected.cons (added : Added wantInit process ps ps') (collected : Collected wantInit rest ps' ps'')
    (distinct : process.pid ∉ rest.map (·.pid)) : Collected wantInit (process :: rest) ps ps'' where
  same := collected.same.trans added.same
  nodup := collected.nodup ∘ added.nodup
  seen pid := by
    rw [collected.seen, added.seen, added.same.isMember_eq, any_cons]
    rw [Bool.or_assoc]
    exact Bool.or_left_comm ..
  kept counter main pid := by
    rw [collected.kept counter main, added.same.isMember_eq, find?_cons, added.kept counter main]
    cases here : process.isMember ps pid with
    | false => simp
    | true =>
      have number : process.pid = pid := by simpa using (Bool.and_eq_true_iff.mp here).2
      have later : rest.find? (·.isMember ps pid) = none := by
        refine find?_eq_none.mpr fun other inside again => distinct (mem_map.mpr ⟨other, inside, ?_⟩)
        exact (by simpa using (Bool.and_eq_true_iff.mp again).2 : other.pid = pid).trans number.symm
      rw [later]
      rfl
  first initial counter main := by
    rw [collected.first initial counter main, added.counted counter main, initial]
    simp [psUpdateCounter]
  counted later counter main countable positive fits := by
    have remaining := added.countable main distinct countable
    have nonneg := owed_nonneg remaining
    rw [added.owed_eq main distinct] at nonneg
    have counted := added.counted counter main
    have split_owed : owed ps counter (process :: rest) =
        ps'.counters counter - ps.counters counter + owed ps counter rest ∧ 0 ≤ ps'.counters counter := by
      cases member : process.memberOf ps with
      | false =>
        rw [counted, member]
        simp [owed, member, positive]
      | true =>
        have grown := countable process (mem_cons_self ..) member
        have total : owed ps counter (process :: rest) =
            process.observed counter - memory ps counter process.pid + owed ps counter rest := by
          simp [owed, member]
        rw [counted, member, if_pos rfl, later, psUpdateCounter_exact positive grown (by omega), total]
        omega
    have rest_owed := added.owed_eq main distinct
    rw [collected.counted later counter main remaining split_owed.2 (by omega), rest_owed]
    omega

theorem foldl_addProcess_group (pagesize : Nat) (wantInit : Bool) (table : List Process) (list : List Procstat)
    (index : Nat) (place : list[index]? = some ps) (distinct : (table.map (·.pid)).Nodup) :
    ∃ ps', (table.foldl (addProcess pagesize wantInit) list)[index]? = some ps' ∧
      Collected wantInit table ps ps' := by
  induction table generalizing list ps with
  | nil => exact ⟨ps, place, .nil wantInit ps⟩
  | cons process rest ih =>
    obtain ⟨apart, distinct⟩ := nodup_cons.mp distinct
    obtain ⟨next, placed, added⟩ := addProcess_group pagesize wantInit list process index place
    obtain ⟨last, found, collected⟩ := ih _ placed distinct
    exact ⟨last, found, .cons added collected apart⟩

theorem psRead_group (pagesize : Nat) (state : PluginState) (table : List Process) (index : Nat)
    (place : state.listHead[index]? = some ps) (distinct : (table.map (·.pid)).Nodup) :
    ∃ ps', (psRead pagesize state (some table)).listHead[index]? = some ps' ∧
      Collected state.wantInit table (resetGroup ps) ps' := by
  have reset : (state.listHead.map resetGroup)[index]? = some (resetGroup ps) := by
    rw [getElem?_map, place]
    rfl
  exact foldl_addProcess_group pagesize state.wantInit table _ index reset distinct

end NCollectd.Processes
