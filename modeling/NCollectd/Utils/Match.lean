import NCollectd.Utils.ParseValues

namespace NCollectd.Match

open List Common

/-- `regmatch_t`: where the text of a group begins and ends, negative if it did not participate. -/
structure Regmatch where
  rmSo : Int
  rmEo : Int
deriving DecidableEq

def Regmatch.Participates (group : Regmatch) : Prop := 0 ≤ group.rmSo

def Regmatch.text (group : Regmatch) (str : CString) : CString :=
  (str.drop group.rmSo.toNat).take (group.rmEo - group.rmSo).toNat

/-- A compiled expression of at most 31 groups: the 32 places that `regexec` writes if it matches. -/
structure Regex where
  regexec : CString → Option (List Regmatch)
  places : regexec str = some groups → groups.length = 32
  posix : regexec str = some groups → ∀ group ∈ groups,
    group = ⟨-1, -1⟩ ∨ 0 ≤ group.rmSo ∧ group.rmSo ≤ group.rmEo ∧ group.rmEo ≤ str.length

def matchSubstr (str : CString) (first last : Int) : Option CString :=
  if first < 0 ∨ last < 0 ∨ last ≤ first then none
  else if str.length + 1 < last then none
  else some (sstrncpy (str.drop first.toNat) ((last - first).toNat + 1))

def matchLoop (str : CString) : List Regmatch → Status × List CString
  | [] => (0, [])
  | group :: groups =>
    if group.rmSo < 0 ∨ group.rmEo < 0 then (0, [])
    else
      match matchSubstr str group.rmSo group.rmEo with
      | none => (-1, [])
      | some text =>
        let (status, texts) := matchLoop str groups
        (status, text :: texts)

def matchApply (regex : Regex) (excluderegex : Option Regex)
    (callback : CString → List CString → σ → Status × σ) (str : CString) (userData : σ) : Status × σ :=
  if (excluderegex.bind (·.regexec str)).isSome then (0, userData)
  else
    match regex.regexec str with
    | none => (0, userData)
    | some groups =>
      let (status, texts) := matchLoop str groups
      if status ≠ 0 then (status, userData) else callback str texts userData

/-- Whatever the callback is, it is called once with these texts, or not at all. -/
def Calls (regex : Regex) (excluderegex : Option Regex) (str : CString) (texts : Option (List CString)) : Prop :=
  ∀ (σ : Type) (callback : CString → List CString → σ → Status × σ) (userData : σ),
    (matchApply regex excluderegex callback str userData).2 =
      texts.elim userData fun texts => (callback str texts userData).2

/-- Every group that participated has its text at its place. -/
def AllGroups (str : CString) (groups : List Regmatch) (texts : List CString) : Prop :=
  ∀ (i : Nat) (group : Regmatch), groups[i]? = some group → group.Participates → texts[i]? = some (group.text str)

/-- The callback gets all groups of a line that matches and is not excluded, and is not called otherwise. -/
def Reports (regex : Regex) (excluderegex : Option Regex) (str : CString) : Prop :=
  if (excluderegex.bind (·.regexec str)).isSome then Calls regex excluderegex str none
  else
    match regex.regexec str with
    | none => Calls regex excluderegex str none
    | some groups => ∃ texts, Calls regex excluderegex str (some texts) ∧ AllGroups str groups texts

/-- No group that participated is empty or stands behind one that did not. -/
def Leading (groups : List Regmatch) : Prop :=
  (∀ group ∈ groups, group.Participates → group.rmSo < group.rmEo) ∧
    groups.Pairwise fun earlier later => later.Participates → earlier.Participates

theorem matchLoop_iff (posix : ∀ group ∈ groups, group = ⟨-1, -1⟩ ∨
    0 ≤ group.rmSo ∧ group.rmSo ≤ group.rmEo ∧ group.rmEo ≤ (str.length : Int)) :
    (matchLoop str groups).1 = 0 ∧ AllGroups str groups (matchLoop str groups).2 ↔ Leading groups := by
  induction groups with
  | nil => simp [matchLoop, Leading, AllGroups]
  | cons group groups ih =>
    obtain ⟨here, later⟩ := forall_mem_cons.mp posix
    rw [Leading, pairwise_cons, forall_mem_cons]
    rcases here with rfl | ⟨first, ordered, inside⟩
    · have absent : ¬ Regmatch.Participates ⟨-1, -1⟩ := by simp [Regmatch.Participates]
      simp only [matchLoop, AllGroups, absent, imp_false, false_imp_iff, true_and]
      constructor
      · rintro ⟨_, none⟩
        have missing (other : Regmatch) (member : other ∈ groups) : ¬ other.Participates := by
          intro present
          obtain ⟨i, found⟩ := getElem?_of_mem member
          cases none (i + 1) other found present
        exact ⟨fun other member present => absurd present (missing other member), missing,
          pairwise_iff_forall_sublist.mpr fun pair present =>
            absurd present (missing _ (pair.subset (by simp)))⟩
      · rintro ⟨_, missing, _⟩
        refine ⟨rfl, fun i other found present => ?_⟩
        cases i with
        | zero => exact absurd (Option.some.inj found ▸ present) absent
        | succ i => exact absurd present (missing other (mem_of_getElem? found))
    · have taken : ¬ (group.rmSo < 0 ∨ group.rmEo < 0) := by omega
      have present : group.Participates := first
      by_cases empty : group.rmEo ≤ group.rmSo
      · have none : matchSubstr str group.rmSo group.rmEo = none := if_pos (.inr (.inr empty))
        simp [matchLoop, taken, none, present, Int.not_lt.mpr empty]
      · have text : matchSubstr str group.rmSo group.rmEo = some (group.text str) := by
          rw [matchSubstr, if_neg (by omega), if_neg (by omega)]
          rfl
        have whole : AllGroups str (group :: groups) (group.text str :: (matchLoop str groups).2) ↔
            AllGroups str groups (matchLoop str groups).2 := by
          refine ⟨fun all i => all (i + 1), fun all i => ?_⟩
          cases i with
          | zero => rintro _ ⟨⟩ _; rfl
          | succ i => exact all i
        simp only [matchLoop, if_neg taken, text, whole, ih later, present, implies_true, true_and,
          Leading, Int.not_le.mp empty]

theorem calls_iff (kept : (excluderegex.bind (·.regexec str)).isSome = false)
    (found : regex.regexec str = some groups) :
    Calls regex excluderegex str (some texts) ↔ matchLoop str groups = (0, texts) := by
  constructor
  · intro calls
    have called := calls (List (List CString)) (fun _ texts log => (0, texts :: log)) []
    simp only [matchApply, kept, Bool.false_eq_true, if_false, found] at called
    split at called
    · cases called
    · rename_i success
      exact Prod.ext (not_not.mp success) (cons.inj called).1
  · intro looped σ callback userData
    simp [matchApply, kept, found, looped]

/-- A match is reported with all its groups exactly if they are leading, and an excluded line never. -/
theorem match_apply_reports_iff (regex : Regex) (excluderegex : Option Regex) (str : CString) :
    Reports regex excluderegex str ↔ (excluderegex.bind (·.regexec str)).isSome = true ∨
      ∀ groups, regex.regexec str = some groups → Leading groups := by
  unfold Reports
  split
  · rename_i excluded
    exact iff_of_true (fun _ _ _ => by simp [matchApply, excluded]) (.inl excluded)
  · rename_i kept
    rw [Bool.not_eq_true] at kept
    split
    · rename_i unmatched
      exact iff_of_true (fun _ _ _ => by simp [matchApply, kept, unmatched]) (.inr fun _ found => by
        rw [unmatched] at found
        cases found)
    · rename_i groups found
      simp only [calls_iff kept found, kept, found, Bool.false_eq_true, false_or, Option.some.injEq, forall_eq']
      rw [← matchLoop_iff (regex.posix found)]
      exact ⟨fun ⟨texts, looped, all⟩ => by rw [looped]; exact ⟨rfl, all⟩,
        fun ⟨success, all⟩ => ⟨_, Prod.ext success rfl, all⟩⟩

/-- What `x*` finds in a text that does not begin with it. -/
def emptyMatch : Regex where
  regexec _ := some (⟨0, 0⟩ :: replicate 31 ⟨-1, -1⟩)
  places found := by cases found; rfl
  posix found group member := by
    cases found
    rcases mem_cons.mp member with rfl | member
    · exact .inr ⟨le_rfl, le_rfl, Int.natCast_nonneg _⟩
    · exact .inl (eq_of_mem_replicate member)

theorem emptyMatch_not_reported :
    matchApply emptyMatch none (fun _ texts log => (0, texts :: log)) ['a'] [] = (-1, []) ∧
      ¬ Reports emptyMatch none ['a'] := by
  refine ⟨by decide, ?_⟩
  rintro ⟨texts, calls, _⟩
  have looped := (calls_iff rfl rfl).mp calls
  have success : (matchLoop ['a'] (⟨0, 0⟩ :: replicate 31 ⟨-1, -1⟩)).1 = 0 := congrArg Prod.fst looped
  exact absurd success (by decide)

inductive GaugeCf where
  | average | min | max | last | inc | add | persist | dist
deriving DecidableEq

inductive IntegerCf where
  | set | add | inc
deriving DecidableEq

inductive DsType where
  | gauge (cf : GaugeCf)
  | counter (cf : IntegerCf)
  | derive (cf : IntegerCf)

/-- `cu_match_value_t`; counters and derives are one word, `latency` has what was added to the counter. -/
structure MatchValue where
  dsType : DsType
  gauge : Double
  word : UInt64
  valuesNum : UInt32
  latency : List Double

def matchCreateSimple (dsType : DsType) : MatchValue := ⟨dsType, .fin 0, 0, 0, []⟩

def consolidateGauge (cf : GaugeCf) (valuesNum : UInt32) (held value : Double) : Double :=
  if valuesNum = 0 ∨ cf = .last ∨ cf = .persist then value
  else
    match cf with
    | .average =>
      let f := Double.div (.ofNat valuesNum.toNat) (.ofNat (valuesNum + 1).toNat)
      .add (.mul held f) (.mul value (.sub (.fin 1) f))
    | .min => if Double.less value held then value else held
    | .max => if Double.less held value then value else held
    | .add => .add held value
    | _ => held

def consolidateWord (cf : IntegerCf) (held value : UInt64) : UInt64 :=
  match cf with
  | .set => value
  | .add => held + value
  | .inc => held + 1

/-- The number in the first group of a line, if there is one. -/
def readGroup (convert : CString → Conversion α) : List CString → Option α
  | _ :: text :: _ => if (convert text).consumed = 0 then none else some (convert text).value
  | _ => none

def wordOf (dsType : DsType) (texts : List CString) : Option UInt64 :=
  match dsType with
  | .counter .inc | .derive .inc => some 0
  | .derive _ => (readGroup strtoll texts).map UInt64.ofInt
  | _ => readGroup strtoull texts

def wordCallback (cf : IntegerCf) (texts : List CString) (data : MatchValue) : Status × MatchValue :=
  match wordOf data.dsType texts with
  | none => (-1, data)
  | some value => (0, { data with word := consolidateWord cf data.word value, valuesNum := data.valuesNum + 1 })

def defaultCallback (platform : Platform) (texts : List CString) (data : MatchValue) : Status × MatchValue :=
  match data.dsType with
  | .gauge .inc => (0, { data with
      gauge := if data.gauge = .nan then .fin 1 else .add data.gauge (.fin 1)
      valuesNum := data.valuesNum + 1 })
  | .gauge cf =>
    match readGroup platform.strtod texts with
    | none => (-1, data)
    | some value =>
      if cf = .dist then (0, { data with latency := data.latency ++ [value], valuesNum := data.valuesNum + 1 })
      else (0, { data with
        gauge := consolidateGauge cf data.valuesNum data.gauge value
        valuesNum := data.valuesNum + 1 })
  | .counter cf | .derive cf => wordCallback cf texts data

def matchValueReset (data : MatchValue) : MatchValue :=
  match data.dsType with
  | .gauge .persist => data
  | .gauge cf => { data with gauge := if cf = .inc then .fin 0 else .nan, valuesNum := 0 }
  | _ => data

inductive MatchCall where
  | line (texts : List CString)
  | reset

def matchStep (platform : Platform) (data : MatchValue) : MatchCall → MatchValue
  | .line texts => (defaultCallback platform texts data).2
  | .reset => matchValueReset data

def matchRun (platform : Platform) (dsType : DsType) (calls : List MatchCall) : MatchValue :=
  calls.foldl (matchStep platform) (matchCreateSimple dsType)

def sinceReset (accept : List CString → Option α) (calls : List MatchCall) : List α :=
  calls.foldl (fun values call =>
    match call with
    | .line texts => values ++ (accept texts).toList
    | .reset => []) []

def wholeRun (accept : List CString → Option α) (calls : List MatchCall) : List α :=
  calls.flatMap fun
    | .line texts => (accept texts).toList
    | .reset => []

/-- What a mode makes of the values of an interval. -/
def summary (cf : GaugeCf) (values : List ℚ) : ℚ :=
  match cf with
  | .average => values.sum / values.length
  | .min => values.tail.foldl min (values.headD 0)
  | .max => values.tail.foldl max (values.headD 0)
  | .add => values.sum
  | _ => values.getLastD 0

def wordSummary (cf : IntegerCf) (values : List UInt64) : UInt64 :=
  match cf with
  | .set => values.getLastD 0
  | .add => values.sum
  | .inc => .ofNat values.length

/-- How many values of an interval a mode can take: `values_num` has 32 bits, the mean counts one further, and `LAST`
does not read it. -/
def GaugeCf.Counts (cf : GaugeCf) (number : Nat) : Prop :=
  match cf with
  | .average => number < 2 ^ 32
  | .last => True
  | _ => number ≤ 2 ^ 32

/-- The law of each mode. A gauge without a value since the last reset is NaN, unless it counts or persists. -/
def Consolidates (platform : Platform) (dsType : DsType) (calls : List MatchCall) (data : MatchValue) : Prop :=
  let values := sinceReset (readGroup platform.strtod) calls
  let words := wholeRun (wordOf dsType) calls
  match dsType with
  | .gauge .inc => data.gauge = .ofNat (sinceReset some calls).length
  | .gauge .persist => data.gauge = (wholeRun (readGroup platform.strtod) calls).getLastD (.fin 0)
  | .gauge .dist => data.latency = wholeRun (readGroup platform.strtod) calls
  | .gauge cf =>
    (∀ rationals : List ℚ, values = rationals.map .fin → rationals ≠ [] → cf.Counts rationals.length →
      data.gauge = .fin (summary cf rationals)) ∧ (values = [] → .reset ∈ calls → data.gauge = .nan)
  | .counter cf | .derive cf => data.word = wordSummary cf words

section

variable {calls : List MatchCall} {accept : List CString → Option α}

@[simp] theorem sinceReset_line :
    sinceReset accept (calls ++ [.line texts]) = sinceReset accept calls ++ (accept texts).toList := by
  simp [sinceReset]

@[simp] theorem sinceReset_reset : sinceReset accept (calls ++ [.reset]) = [] := by simp [sinceReset]

@[simp] theorem wholeRun_concat : wholeRun accept (calls ++ [call]) = wholeRun accept calls ++
    match call with
    | .line texts => (accept texts).toList
    | .reset => [] := by
  simp [wholeRun]

end

theorem matchStep_dsType : (matchStep platform data call).dsType = data.dsType := by
  cases call with
  | line texts =>
    simp only [matchStep, defaultCallback, wordCallback]
    split
    · rfl
    · split
      · rfl
      · split <;> rfl
    all_goals split <;> rfl
  | reset =>
    simp only [matchStep, matchValueReset]
    split <;> rfl

/-- The rule for runs: what every call keeps, on a record of the type, holds after every run. -/
theorem matchRun_keeps (law : List MatchCall → MatchValue → Prop) (start : law [] (matchCreateSimple dsType))
    (step : ∀ calls call data, data.dsType = dsType → law calls data →
      law (calls ++ [call]) (matchStep platform data call)) (calls : List MatchCall) :
    (matchRun platform dsType calls).dsType = dsType ∧ law calls (matchRun platform dsType calls) := by
  induction calls using List.reverseRecOn with
  | nil => exact ⟨rfl, start⟩
  | append_singleton calls call ih =>
    rw [matchRun, foldl_append]
    exact ⟨matchStep_dsType.trans ih.1, step _ _ _ ih.1 ih.2⟩

theorem count_step (type : data.dsType = .gauge .inc) (held : Consolidates platform (.gauge .inc) calls data) :
    Consolidates platform (.gauge .inc) (calls ++ [call]) (matchStep platform data call) := by
  cases call with
  | reset => simp [Consolidates, matchStep, matchValueReset, type, Double.ofNat]
  | line texts =>
    have number : data.gauge = .ofNat (sinceReset some calls).length := held
    simp [Consolidates, matchStep, defaultCallback, type, number, Double.ofNat, Double.add]

theorem last_step (mode : cf = .persist ∨ cf = .dist) (type : data.dsType = .gauge cf)
    (held : Consolidates platform (.gauge cf) calls data) :
    Consolidates platform (.gauge cf) (calls ++ [call]) (matchStep platform data call) := by
  cases call with
  | reset => rcases mode with rfl | rfl <;> simpa [Consolidates, matchStep, matchValueReset, type] using held
  | line texts =>
    cases read : readGroup platform.strtod texts <;> rcases mode with rfl | rfl <;>
      simp_all [Consolidates, matchStep, defaultCallback, consolidateGauge]

theorem consolidateWord_eq (cf : IntegerCf) (values : List UInt64) (value : UInt64) :
    consolidateWord cf (wordSummary cf values) value = wordSummary cf (values ++ [value]) := by
  cases cf <;> simp [consolidateWord, wordSummary]

theorem word_step (kind : dsType = .counter cf ∨ dsType = .derive cf) (type : data.dsType = dsType)
    (held : data.word = wordSummary cf (wholeRun (wordOf dsType) calls)) :
    (matchStep platform data call).word = wordSummary cf (wholeRun (wordOf dsType) (calls ++ [call])) := by
  subst type
  have next : matchStep platform data call = match call with
      | .line texts => (wordCallback cf texts data).2
      | .reset => data := by
    cases call <;> rcases kind with kind | kind <;> simp [matchStep, defaultCallback, matchValueReset, kind]
  rw [next, wholeRun_concat]
  cases call with
  | reset => simpa using held
  | line texts =>
    cases read : wordOf data.dsType texts with
    | none => simpa [wordCallback, read] using held
    | some value => simp [wordCallback, read, held, consolidateWord_eq]

/-- The modes that keep one number for the values of an interval. -/
def GaugeCf.Interval (cf : GaugeCf) : Prop := cf ≠ .inc ∧ cf ≠ .persist ∧ cf ≠ .dist

theorem average_step (positive : 0 < n) (sum value : ℚ) :
    sum / n * (n / (n + 1)) + value * (1 - n / (n + 1)) = (sum + value) / (n + 1 : ℚ) := by
  field_simp
  ring

theorem GaugeCf.Counts.fewer (counts : GaugeCf.Counts cf (number + 1)) : cf.Counts number := by
  cases cf <;> simp only [GaugeCf.Counts] at counts ⊢ <;> omega

theorem consolidateGauge_fin {gauge} (interval : cf.Interval) (counts : cf.Counts (values.length + 1)) (value : ℚ)
    (held : values ≠ [] → gauge = .fin (summary cf values)) :
    consolidateGauge cf (.ofNat values.length) gauge (.fin value) = .fin (summary cf (values ++ [value])) := by
  obtain ⟨notInc, notPersist, notDist⟩ := interval
  by_cases last : cf = .last
  · simp [last, consolidateGauge, summary]
  cases values with
  | nil => cases cf <;> simp_all [consolidateGauge, summary]
  | cons first values =>
    rw [held (cons_ne_nil _ _)]
    have few : values.length + 1 < 2 ^ 32 := by
      cases cf <;> simp only [GaugeCf.Counts, length_cons] at counts <;> first | omega | exact absurd rfl last
    have number : (UInt32.ofNat (first :: values).length).toNat = values.length + 1 := by
      rw [UInt32.toNat_ofNat', length_cons, Nat.mod_eq_of_lt few]
    have counted : UInt32.ofNat (first :: values).length ≠ 0 := fun zero => by
      rw [zero] at number
      cases number
    generalize UInt32.ofNat (first :: values).length = num at number counted ⊢
    have sums : (first :: values ++ [value]).sum = (first :: values).sum + value := by simp [add_assoc]
    cases cf with
    | average =>
      have later : (num + 1).toNat = values.length + 2 := by
        rw [UInt32.toNat_add, number]
        exact Nat.mod_eq_of_lt counts
      have positive : ((values.length + 2 : Nat) : ℚ) ≠ 0 := by positivity
      have steps := average_step (n := ((values.length + 1 : Nat) : ℚ)) (by positivity) (first :: values).sum value
      have one : ((values.length + 1 : Nat) : ℚ) + 1 = (values.length + 2 : Nat) := by push_cast; ring
      have more : (first :: values ++ [value]).length = values.length + 2 := by simp
      rw [one] at steps
      simp only [consolidateGauge, counted, reduceCtorEq, or_self, if_false, number, later, Double.ofNat,
        Double.div, if_neg positive, Double.mul, Double.sub, Double.neg, Double.add, summary, sums, length_cons, more]
      rw [← steps, sub_eq_add_neg]
    | min =>
      simp [consolidateGauge, counted, summary, Double.less, min_def, ← not_lt, apply_ite Double.fin]
    | max =>
      simp [consolidateGauge, counted, summary, Double.less, max_comm _ value, max_def, ← not_lt, apply_ite Double.fin]
    | add => simp only [consolidateGauge, counted, reduceCtorEq, or_self, if_false, Double.add, summary, sums]
    | last => exact absurd rfl last
    | inc => exact absurd rfl notInc
    | persist => exact absurd rfl notPersist
    | dist => exact absurd rfl notDist

/-- A gauge of an interval: the number of its values, and their summary as long as it can be counted. -/
structure Tracks (cf : GaugeCf) (data : MatchValue) (values : List Double) (reset : Prop) : Prop where
  number : data.valuesNum = .ofNat values.length
  held : ∀ rationals : List ℚ, values = rationals.map .fin → rationals ≠ [] → cf.Counts rationals.length →
    data.gauge = .fin (summary cf rationals)
  unset : values = [] → reset → data.gauge = .nan

theorem tracks_step (interval : cf.Interval) (type : data.dsType = .gauge cf)
    (tracks : Tracks cf data (sinceReset (readGroup platform.strtod) calls) (.reset ∈ calls)) :
    Tracks cf (matchStep platform data call) (sinceReset (readGroup platform.strtod) (calls ++ [call]))
      (.reset ∈ calls ++ [call]) := by
  cases call with
  | reset =>
    have next : matchStep platform data .reset = { data with gauge := .nan, valuesNum := 0 } := by
      simp only [matchStep, matchValueReset, type]
      split <;> simp_all [GaugeCf.Interval]
    rw [next, sinceReset_reset]
    exact ⟨rfl, fun rationals none some => absurd (map_eq_nil_iff.mp none.symm) some, fun _ _ => rfl⟩
  | line texts =>
    have next : matchStep platform data (.line texts) = match readGroup platform.strtod texts with
        | none => data
        | some value => { data with
            gauge := consolidateGauge cf data.valuesNum data.gauge value
            valuesNum := data.valuesNum + 1 } := by
      obtain ⟨notInc, notPersist, notDist⟩ := interval
      simp only [matchStep, defaultCallback, type]
      split <;> simp_all
    rw [next, sinceReset_line]
    cases readGroup platform.strtod texts with
    | none =>
      rw [Option.toList_none, append_nil]
      exact ⟨tracks.number, tracks.held, fun none reset => tracks.unset none (by simpa using reset)⟩
    | some value =>
      refine ⟨by simp [tracks.number], fun rationals values _ counts => ?_, fun none => by simp at none⟩
      obtain ⟨earlier, last, rfl, front, final⟩ := map_eq_append_iff.mp values.symm
      obtain ⟨rational, rfl, rfl⟩ := map_eq_singleton_iff.mp final
      have more : cf.Counts (earlier.length + 1) := by simpa using counts
      have number := tracks.number
      rw [← front, length_map] at number
      simp only [number]
      exact consolidateGauge_fin interval more rational fun some => tracks.held earlier front.symm some more.fewer

theorem tracks_run (platform : Platform) (interval : cf.Interval) (calls : List MatchCall) :
    (matchRun platform (.gauge cf) calls).dsType = .gauge cf ∧ Tracks cf (matchRun platform (.gauge cf) calls)
      (sinceReset (readGroup platform.strtod) calls) (.reset ∈ calls) :=
  matchRun_keeps (fun calls data => Tracks cf data (sinceReset (readGroup platform.strtod) calls) (.reset ∈ calls))
    ⟨rfl, fun _ none some => absurd (map_eq_nil_iff.mp none.symm) some, fun _ => (nomatch ·)⟩
    (fun _ _ _ type tracks => tracks_step interval type tracks) calls

/-- After any run of lines and resets the value is that of its mode, and a failed call changes nothing. -/
theorem match_consolidates (platform : Platform) (calls : List MatchCall) (dsType : DsType) :
    Consolidates platform dsType calls (matchRun platform dsType calls) ∧ ∀ texts data,
      (defaultCallback platform texts data).1 ≠ 0 → (defaultCallback platform texts data).2 = data := by
  constructor
  · match dsType with
    | .counter cf => exact (matchRun_keeps _ (by cases cf <;> rfl) (fun _ _ _ => word_step (.inl rfl)) calls).2
    | .derive cf => exact (matchRun_keeps _ (by cases cf <;> rfl) (fun _ _ _ => word_step (.inr rfl)) calls).2
    | .gauge .inc => exact (matchRun_keeps _ rfl (fun _ _ _ => count_step) calls).2
    | .gauge .persist => exact (matchRun_keeps _ rfl (fun _ _ _ => last_step (.inl rfl)) calls).2
    | .gauge .dist => exact (matchRun_keeps _ rfl (fun _ _ _ => last_step (.inr rfl)) calls).2
    | .gauge .average | .gauge .min | .gauge .max | .gauge .add | .gauge .last =>
      refine ⟨(tracks_run platform ?_ calls).2.held, (tracks_run platform ?_ calls).2.unset⟩ <;>
        simp [GaugeCf.Interval]
  · intro texts data failed
    unfold defaultCallback wordCallback at failed ⊢
    split at failed
    · exact absurd rfl failed
    · split at failed
      · rfl
      · split at failed <;> exact absurd rfl failed
    all_goals
      split at failed
      · rfl
      · exact absurd rfl failed

/-- A reader of the number one that refuses all other texts. -/
def onePlatform : Platform where
  strtod text := if text = "1" then ⟨.fin 1, 1, false⟩ else ⟨.fin 0, 0, false⟩
  doubleToCdtime _ := 0
  strerror _ := []

theorem sinceReset_ones (n : Nat) : sinceReset (readGroup onePlatform.strtod) (replicate n (.line ["1", "1"])) =
    (replicate n 1).map .fin := by
  induction n with
  | zero => rfl
  | succ n ih =>
    rw [replicate_succ', sinceReset_line, ih, replicate_succ', map_append]
    rfl

/-- The number of values starts again at zero, and the next value replaces the sum. -/
theorem add_wraps (n : Nat) (wrapped : UInt32.ofNat n = 0) :
    (matchRun onePlatform (.gauge .add) (replicate (n + 1) (.line ["1", "1"]))).gauge = .fin 1 := by
  obtain ⟨type, number, _, _⟩ := tracks_run onePlatform (by simp [GaugeCf.Interval] : GaugeCf.add.Interval)
    (replicate n (.line ["1", "1"]))
  rw [sinceReset_ones, length_map, length_replicate, wrapped] at number
  rw [replicate_succ', matchRun, foldl_append]
  rw [matchRun] at type number
  generalize foldl _ _ (replicate n _) = data at type number ⊢
  simp [matchStep, defaultCallback, type, number, readGroup, onePlatform, consolidateGauge]

theorem gauge_add_wraps :
    sinceReset (readGroup onePlatform.strtod) (replicate (2 ^ 32 + 1) (.line ["1", "1"])) =
        (replicate (2 ^ 32 + 1) 1).map .fin ∧ summary .add (replicate (2 ^ 32 + 1) 1) = 2 ^ 32 + 1 ∧
      (matchRun onePlatform (.gauge .add) (replicate (2 ^ 32 + 1) (.line ["1", "1"]))).gauge = .fin 1 :=
  ⟨sinceReset_ones _, by simp only [summary, sum_replicate]; norm_num, add_wraps (2 ^ 32) (by simp)⟩

end NCollectd.Match
