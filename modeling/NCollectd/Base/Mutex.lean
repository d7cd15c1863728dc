import Mathlib

/-! A mutex as an explicit state, and code that works on shared data under it. -/

namespace NCollectd

universe u v

inductive MutexState where
  | free
  | held
deriving DecidableEq

inductive MutexCall where
  | lock
  | unlock
deriving DecidableEq

/-- Locking a held mutex and unlocking a free one are errors. -/
def MutexState.step : MutexState → MutexCall → Option MutexState
  | .free, .lock => some .held
  | .held, .unlock => some .free
  | _, _ => none

def MutexState.run (mutex : MutexState) (calls : List MutexCall) : Option MutexState :=
  calls.foldlM MutexState.step mutex

theorem MutexState.run_append (mutex : MutexState) (first second : List MutexCall) :
    mutex.run (first ++ second) = (mutex.run first).bind fun middle => middle.run second := by
  simp [MutexState.run, List.foldlM_append]

/-- The calls a piece of code makes, and the value and the data it ends with. -/
structure LockTrace (σ : Type u) (α : Type v) where
  calls : List MutexCall
  ended : Option (α × σ)

/-- Code on shared data of type `σ`. -/
def Locked (σ : Type u) (α : Type v) := σ → LockTrace σ α

namespace Locked

variable {σ : Type u} {α β : Type v}

protected def pure (value : α) : Locked σ α := fun shared => ⟨[], some (value, shared)⟩

protected def bind (code : Locked σ α) (next : α → Locked σ β) : Locked σ β := fun shared =>
  match (code shared).ended with
  | none => ⟨(code shared).calls, none⟩
  | some (value, changed) =>
    ⟨(code shared).calls ++ (next value changed).calls, (next value changed).ended⟩

instance : Monad (Locked σ) where
  pure := Locked.pure
  bind := Locked.bind

def lock : Locked σ Unit := fun shared => ⟨[.lock], some ((), shared)⟩

def unlock : Locked σ Unit := fun shared => ⟨[.unlock], some ((), shared)⟩

def abort : Locked σ α := fun _ => ⟨[], none⟩

def ofOption : Option α → Locked σ α
  | none => abort
  | some value => pure value

def read : Locked σ σ := fun shared => ⟨[], some (shared, shared)⟩

def write (shared : σ) : Locked σ Unit := fun _ => ⟨[], some ((), shared)⟩

variable {code : Locked σ α}

theorem read_eq : read shared = ⟨[], some (shared, shared)⟩ := rfl

theorem write_eq (changed : σ) : write changed shared = ⟨[], some ((), changed)⟩ := rfl

theorem lock_eq : (lock : Locked σ Unit) shared = ⟨[.lock], some ((), shared)⟩ := rfl

theorem bind_ended (ended : code shared = ⟨calls, some (value, changed)⟩) :
    (code >>= next) shared = ⟨calls ++ (next value changed).calls, (next value changed).ended⟩ := by
  have unfolded : (code >>= next) shared = Locked.bind code next shared := rfl
  rw [unfolded, Locked.bind, ended]

theorem bind_aborted (aborted : code shared = ⟨calls, none⟩) :
    (code >>= next) shared = ⟨calls, none⟩ := by
  have unfolded : (code >>= next) shared = Locked.bind code next shared := rfl
  rw [unfolded, Locked.bind, aborted]

/-- No call is an error, and where the code ends the value, the data and the mutex satisfy the condition. -/
def Ensures (code : Locked σ α) (shared : σ) (mutex : MutexState) (post : α → σ → MutexState → Prop) : Prop :=
  ∃ last, mutex.run (code shared).calls = some last ∧
    ∀ value changed, (code shared).ended = some (value, changed) → post value changed last

theorem ensures_still (result : σ → α × σ) :
    Ensures (fun shared => ⟨[], some (result shared)⟩) shared mutex post ↔
      post (result shared).1 (result shared).2 mutex := by
  constructor
  · rintro ⟨last, final, holds⟩
    obtain rfl : mutex = last := Option.some.inj final
    exact holds _ _ rfl
  · intro holds
    refine ⟨mutex, rfl, ?_⟩
    intro value changed ended
    obtain ⟨rfl, rfl⟩ := Prod.mk.inj (Option.some.inj ended)
    exact holds

@[simp] theorem ensures_pure (value : α) :
    Ensures (pure value) shared mutex post ↔ post value shared mutex :=
  ensures_still fun shared => (value, shared)

@[simp] theorem ensures_bind (next : α → Locked σ β) {post : β → σ → MutexState → Prop} :
    Ensures (code >>= next) shared mutex post ↔
      Ensures code shared mutex fun value changed middle => Ensures (next value) changed middle post := by
  have unfolded : (code >>= next) shared = Locked.bind code next shared := rfl
  unfold Ensures
  rw [unfolded, Locked.bind]
  cases ended : (code shared).ended with
  | none => simp
  | some result =>
    obtain ⟨value, changed⟩ := result
    simp only [MutexState.run_append, Option.bind_eq_some_iff, Option.some.injEq, Prod.mk.injEq]
    constructor
    · rintro ⟨last, ⟨middle, first, second⟩, holds⟩
      refine ⟨middle, first, ?_⟩
      rintro _ _ ⟨rfl, rfl⟩
      exact ⟨last, second, holds⟩
    · rintro ⟨middle, first, rest⟩
      obtain ⟨last, second, holds⟩ := rest value changed ⟨rfl, rfl⟩
      exact ⟨last, ⟨middle, first, second⟩, holds⟩

theorem ensures_call (call : MutexCall) {post : Unit → σ → MutexState → Prop} :
    Ensures (fun shared => ⟨[call], some ((), shared)⟩) shared mutex post ↔
      ∃ last, mutex.step call = some last ∧ post () shared last := by
  have single : mutex.run [call] = mutex.step call := by
    simp [MutexState.run]
  constructor
  · rintro ⟨last, final, holds⟩
    exact ⟨last, single.symm.trans final, holds () shared rfl⟩
  · rintro ⟨last, final, holds⟩
    refine ⟨last, single.trans final, ?_⟩
    intro value changed ended
    cases ended
    exact holds

@[simp] theorem ensures_lock {post : Unit → σ → MutexState → Prop} :
    Ensures lock shared mutex post ↔ mutex = .free ∧ post () shared .held := by
  unfold lock
  rw [ensures_call]
  cases mutex <;> simp [MutexState.step]

@[simp] theorem ensures_unlock {post : Unit → σ → MutexState → Prop} :
    Ensures unlock shared mutex post ↔ mutex = .held ∧ post () shared .free := by
  unfold unlock
  rw [ensures_call]
  cases mutex <;> simp [MutexState.step]

@[simp] theorem ensures_abort : Ensures abort shared mutex post := by
  refine ⟨mutex, rfl, ?_⟩
  intro value changed ended
  cases ended

@[simp] theorem ensures_read {post : σ → σ → MutexState → Prop} :
    Ensures read shared mutex post ↔ post shared shared mutex :=
  ensures_still fun shared => (shared, shared)

@[simp] theorem ensures_write (changed : σ) {post : Unit → σ → MutexState → Prop} :
    Ensures (write changed) shared mutex post ↔ post () changed mutex :=
  ensures_still fun _ => ((), changed)

@[simp] theorem ensures_ofOption (value : Option α) :
    Ensures (ofOption value) shared mutex post ↔ ∀ result, value = some result → post result shared mutex := by
  cases value with
  | none | some result => simp [ofOption]

theorem Ensures.imp (held : code.Ensures shared mutex post)
    (weaken : ∀ value changed last, (code shared).ended = some (value, changed) → post value changed last →
      weaker value changed last) :
    code.Ensures shared mutex weaker := by
  obtain ⟨last, final, holds⟩ := held
  exact ⟨last, final, fun value changed ended => weaken value changed last ended (holds value changed ended)⟩

end Locked

end NCollectd
