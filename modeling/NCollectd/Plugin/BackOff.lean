import NCollectd.Plugin.ReadThreads

/-! The effective interval of a read function whose callback fails. -/

namespace NCollectd.ReadFuncs

universe u

/-- One return of a callback: its status and the clock after it. -/
structure Reading where
  status : Int
  now : UInt64
deriving DecidableEq

variable {Callback : Type u} {func : ReadFunc Callback} {reading : Reading}

def ReadFunc.inserted (func : ReadFunc Callback) (now : UInt64) : ReadFunc Callback :=
  { func with nextRead := now, effectiveInterval := func.interval }

def ReadFunc.after (maxInterval : UInt64) (func : ReadFunc Callback) (readings : List Reading) : ReadFunc Callback :=
  readings.foldl (fun func reading => reschedule reading.status reading.now maxInterval func) func

theorem after_append (func : ReadFunc Callback) (before readings : List Reading) :
    func.after maxInterval (before ++ readings) = (func.after maxInterval before).after maxInterval readings :=
  List.foldl_append

theorem after_singleton (func : ReadFunc Callback) (reading : Reading) :
    func.after maxInterval [reading] = reschedule reading.status reading.now maxInterval func :=
  rfl

theorem interval_after (func : ReadFunc Callback) (readings : List Reading) :
    (func.after maxInterval readings).interval = func.interval := by
  induction readings generalizing func with
  | nil => rfl
  | cons reading readings ih => exact ih (reschedule reading.status reading.now maxInterval func)

def failures (readings : List Reading) : Nat :=
  (readings.reverse.takeWhile fun reading => reading.status ≠ 0).length

theorem failures_nil : failures [] = 0 := rfl

theorem failures_failed (failed : reading.status ≠ 0) :
    failures (before ++ [reading]) = failures before + 1 := by
  simp [failures, failed]

theorem failures_succeeded (succeeded : reading.status = 0) : failures (before ++ [reading]) = 0 := by
  simp [failures, succeeded]

/-- Neither the doubling nor the sum of the next reading passes 64 bits. -/
def ReadFunc.Fits (maxInterval : UInt64) (func : ReadFunc Callback) (reading : Reading) : Prop :=
  (reading.status ≠ 0 → func.effectiveInterval.toNat * 2 < 2 ^ 64) ∧
    func.nextRead.toNat + (reschedule reading.status reading.now maxInterval func).effectiveInterval.toNat < 2 ^ 64

/-- No reading of a sequence overflows. -/
def ReadFunc.FitsAll (maxInterval : UInt64) : ReadFunc Callback → List Reading → Prop
  | _, [] => True
  | func, reading :: readings =>
    func.Fits maxInterval reading ∧
      FitsAll maxInterval (reschedule reading.status reading.now maxInterval func) readings

theorem FitsAll.append (fits : func.FitsAll maxInterval (before ++ readings)) :
    func.FitsAll maxInterval before ∧ (func.after maxInterval before).FitsAll maxInterval readings := by
  induction before generalizing func with
  | nil => exact ⟨trivial, fits⟩
  | cons reading before ih =>
    obtain ⟨first, rest⟩ := fits
    exact ⟨⟨first, (ih rest).1⟩, (ih rest).2⟩

def backedOff (interval maximum failures : Nat) : Nat := max interval (min maximum (interval * 2 ^ failures))

theorem backedOff_zero (interval maximum : Nat) : backedOff interval maximum 0 = interval := by
  simp [backedOff]

theorem backedOff_succ (below : interval ≤ maximum) :
    backedOff interval maximum (count + 1) = min maximum (backedOff interval maximum count * 2) := by
  have power : interval ≤ interval * 2 ^ count := Nat.le_mul_of_pos_right _ (Nat.two_pow_pos count)
  simp only [backedOff, Nat.pow_succ, ← Nat.mul_assoc]
  omega

theorem effective_failed (failed : reading.status ≠ 0) (fits : func.Fits maxInterval reading) :
    (reschedule reading.status reading.now maxInterval func).effectiveInterval.toNat =
      min maxInterval.toNat (func.effectiveInterval.toNat * 2) := by
  have double : (func.effectiveInterval * 2).toNat = func.effectiveInterval.toNat * 2 := by
    rw [UInt64.toNat_mul]
    exact Nat.mod_eq_of_lt (fits.1 failed)
  simp only [reschedule, if_pos failed]
  split
  · rename_i above
    have above := UInt64.lt_iff_toNat_lt.mp above
    omega
  · rename_i below
    have below : ¬ maxInterval.toNat < (func.effectiveInterval * 2).toNat := fun above =>
      below (UInt64.lt_iff_toNat_lt.mpr above)
    omega

theorem effective_succeeded (succeeded : reading.status = 0) :
    (reschedule reading.status reading.now maxInterval func).effectiveInterval = func.interval := by
  simp [reschedule, succeeded]

theorem nextRead_reschedule (status : Int) (now maxInterval : UInt64) (func : ReadFunc Callback) :
    (reschedule status now maxInterval func).nextRead =
      if func.nextRead + (reschedule status now maxInterval func).effectiveInterval < now then now
      else func.nextRead + (reschedule status now maxInterval func).effectiveInterval :=
  rfl

theorem nextRead_le_reschedule (fits : func.Fits maxInterval reading) :
    func.nextRead ≤ (reschedule reading.status reading.now maxInterval func).nextRead := by
  have sum : func.nextRead ≤
      func.nextRead + (reschedule reading.status reading.now maxInterval func).effectiveInterval := by
    rw [UInt64.le_iff_toNat_le, UInt64.toNat_add, Nat.mod_eq_of_lt fits.2]
    omega
  rw [nextRead_reschedule]
  split
  · rename_i late
    exact UInt64.le_trans sum (UInt64.le_of_lt late)
  · exact sum

/-- The interval grows while the callback fails, is restored by a success, and no reading is moved back. -/
structure BacksOff (maxInterval : UInt64) (func : ReadFunc Callback) (readings : List Reading) : Prop where
  effective : ∀ before, before <+: readings → (func.after maxInterval before).effectiveInterval.toNat =
    backedOff func.interval.toNat maxInterval.toNat (failures before)
  spaced : ∀ before, before <+: readings → func.interval ≤ (func.after maxInterval before).effectiveInterval
  grows : ∀ before reading, before ++ [reading] <+: readings → reading.status ≠ 0 →
    (func.after maxInterval before).effectiveInterval ≤
      (func.after maxInterval (before ++ [reading])).effectiveInterval
  restores : ∀ before reading, before ++ [reading] <+: readings → reading.status = 0 →
    (func.after maxInterval (before ++ [reading])).effectiveInterval = func.interval
  ordered : ∀ before reading, before ++ [reading] <+: readings →
    (func.after maxInterval before).nextRead ≤ (func.after maxInterval (before ++ [reading])).nextRead

theorem fits_at (fits : func.FitsAll maxInterval readings) (start : before ++ [reading] <+: readings) :
    (func.after maxInterval before).Fits maxInterval reading := by
  obtain ⟨rest, rfl⟩ := start
  rw [List.append_assoc] at fits
  exact (FitsAll.append fits).2.1

theorem effective_after (fresh : func.effectiveInterval = func.interval) (fits : func.FitsAll maxInterval readings)
    (harmless : func.interval ≤ maxInterval ∨ ∀ reading ∈ readings, reading.status = 0)
    (start : before <+: readings) : (func.after maxInterval before).effectiveInterval.toNat =
      backedOff func.interval.toNat maxInterval.toNat (failures before) := by
  induction before using List.reverseRecOn with
  | nil => rw [failures_nil, backedOff_zero, ← fresh]; rfl
  | append_singleton before reading ih =>
    have earlier := ih ((List.prefix_append before [reading]).trans start)
    rw [after_append, after_singleton]
    by_cases succeeded : reading.status = 0
    · rw [effective_succeeded succeeded, failures_succeeded succeeded, backedOff_zero, interval_after]
    · have below : func.interval ≤ maxInterval := by
        refine harmless.resolve_right fun all => succeeded (all reading ?_)
        exact start.subset (List.mem_append_right before List.mem_cons_self)
      rw [effective_failed succeeded (fits_at fits start), failures_failed succeeded, earlier,
        backedOff_succ (UInt64.le_iff_toNat_le.mp below)]

/-- The configured interval is not above the maximum, or the callback never fails. -/
theorem back_off_iff (func : ReadFunc Callback) (now maxInterval : UInt64) (readings : List Reading)
    (fits : (func.inserted now).FitsAll maxInterval readings) :
    BacksOff maxInterval (func.inserted now) readings ↔
      func.interval ≤ maxInterval ∨ ∀ reading ∈ readings, reading.status = 0 := by
  constructor
  · intro law
    by_contra neither
    simp only [not_or, not_forall] at neither
    obtain ⟨above, reading, member, failed⟩ := neither
    obtain ⟨before, rest, split⟩ := List.append_of_mem member
    have start : before ++ [reading] <+: readings := ⟨rest, by rw [split, List.append_assoc]; rfl⟩
    have spaced := law.spaced _ start
    rw [after_append, after_singleton, UInt64.le_iff_toNat_le,
      effective_failed failed (fits_at fits start)] at spaced
    exact above (UInt64.le_iff_toNat_le.mpr (le_trans spaced (min_le_left _ _)))
  · intro harmless
    have effective : ∀ before, before <+: readings →
        ((func.inserted now).after maxInterval before).effectiveInterval.toNat =
          backedOff func.interval.toNat maxInterval.toNat (failures before) :=
      fun before start => effective_after rfl fits harmless start
    refine ⟨effective, fun before start => ?_, fun before reading start failed => ?_,
      fun before reading start succeeded => ?_, fun before reading start => ?_⟩
    · rw [UInt64.le_iff_toNat_le, effective before start]
      exact le_max_left _ _
    · rw [UInt64.le_iff_toNat_le, effective _ start,
        effective before ((List.prefix_append before [reading]).trans start), failures_failed failed]
      have doubled : 2 ^ failures before ≤ 2 ^ (failures before + 1) := Nat.pow_le_pow_right (by decide) (by omega)
      have scaled := Nat.mul_le_mul_left func.interval.toNat doubled
      simp only [backedOff]
      omega
    · rw [after_append, after_singleton, effective_succeeded succeeded, interval_after]
    · rw [after_append, after_singleton]
      exact nextRead_le_reschedule (fits_at fits start)

theorem back_off_twice : BacksOff 15 ((⟨(), [], ['a'], .simple, 10, 0, 0⟩ : ReadFunc Unit).inserted 0)
    [⟨-1, 0⟩, ⟨-1, 15⟩, ⟨0, 30⟩] :=
  (back_off_iff ⟨(), [], ['a'], .simple, 10, 0, 0⟩ 0 15 _ (by
    refine ⟨⟨fun _ => ?_, ?_⟩, ⟨fun _ => ?_, ?_⟩, ⟨fun _ => ?_, ?_⟩, trivial⟩ <;> decide)).mpr (.inl (by decide))

theorem failure_shortens_interval :
    let func : ReadFunc Unit := ⟨(), [], ['a'], .simple, 20, 0, 0⟩
    (func.inserted 0).FitsAll 10 [⟨-1, 0⟩] ∧
      ((func.inserted 0).after 10 [⟨-1, 0⟩]).effectiveInterval = 10 ∧
      ¬ BacksOff 10 (func.inserted 0) [⟨-1, 0⟩] := by
  refine ⟨⟨⟨fun _ => by decide, by decide⟩, trivial⟩, by decide, fun law => ?_⟩
  exact absurd (law.spaced _ (List.prefix_refl _)) (by decide)

end NCollectd.ReadFuncs
