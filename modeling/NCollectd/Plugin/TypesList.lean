import NCollectd.Base.Terminated
import NCollectd.Utils.ParseValues

namespace NCollectd.TypesList

open List Common Terminated

structure DataSource where
  name : CString
  type : Nat
  min : Double
  max : Double
deriving DecidableEq

structure DataSetEntry where
  type : CString
  ds : List DataSource
deriving DecidableEq

def parseBound (platform : Platform) (field : CString) : Double :=
  if strcasecmp field ['U'] = 0 then .nan else (platform.strtod field).value

def parseDs (platform : Platform) (buf : CString) : Option DataSource :=
  if buf.length < 11 then none
  else
    match (strtokR [':'] (if buf.getLast? = some ',' then buf.dropLast else buf)).take 8 with
    | [name, type, min, max] =>
      let source (type : Nat) : DataSource :=
        ⟨sstrncpy name dataMaxNameLen, type, parseBound platform min, parseBound platform max⟩
      if strcasecmp type "GAUGE" = 0 then some (source DS_TYPE_GAUGE)
      else if strcasecmp type "COUNTER" = 0 then some (source DS_TYPE_COUNTER)
      else if strcasecmp type "DERIVE" = 0 then some (source DS_TYPE_DERIVE)
      else none
    | _ => none

def parseLine (platform : Platform) (buf : CString) : Option DataSetEntry :=
  match (strtokR [' ', '\t', '\r', '\n'] buf).take 64 with
  | type :: field :: fields =>
    if type.head? = some '#' then none
    else ((field :: fields).mapM (parseDs platform)).map (⟨sstrncpy type dataMaxNameLen, ·⟩)
  | _ => none

def chomp (buf : CString) : CString := (buf.reverse.dropWhile fun c => c = '\n' || c = '\r').reverse

def parseBuffer (platform : Platform) (buf : CString) : List DataSetEntry :=
  if buf = [] ∨ buf.head? = some '#' then []
  else if chomp buf = [] then [] else (parseLine platform (chomp buf)).toList

def fgetsChunk (pending : CString) : CString := takeRecord '\n' (pending.take 4095)

theorem takeRecord_length (stop : Char) (symbols : CString) :
    (takeRecord stop symbols).length ≤ symbols.length ∧ (symbols ≠ [] → 0 < (takeRecord stop symbols).length) := by
  induction symbols with
  | nil => simp [takeRecord]
  | cons symbol symbols ih =>
    rw [takeRecord]
    split <;> simp [ih.1]

theorem fgetsChunk_shorter (more : pending ≠ []) :
    (pending.drop (fgetsChunk pending).length).length < pending.length := by
  have some := (takeRecord_length '\n' (pending.take 4095)).2 (by simp [more])
  have positive := length_pos_iff.mpr more
  rw [length_drop, fgetsChunk]
  omega

/-- The inner loop of `parse_file`: what follows the chunks up to the first one that is short. -/
def skipChunks (pending : CString) : CString :=
  if pending = [] then []
  else if 4095 ≤ (fgetsChunk pending).length then skipChunks (pending.drop (fgetsChunk pending).length)
  else pending.drop (fgetsChunk pending).length
termination_by pending.length
decreasing_by exact fgetsChunk_shorter (by assumption)

theorem skipChunks_length (pending : CString) : (skipChunks pending).length ≤ pending.length := by
  fun_induction skipChunks pending with
  | case1 => exact le_rfl
  | case2 pending more long ih => exact ih.trans (fgetsChunk_shorter more).le
  | case3 pending more short => exact (fgetsChunk_shorter more).le

def parseFile (platform : Platform) (pending : CString) : List DataSetEntry :=
  if pending = [] then []
  else
    let buf := fgetsChunk pending
    if 4095 ≤ buf.length then parseFile platform (skipChunks (pending.drop buf.length))
    else parseBuffer platform buf ++ parseFile platform (pending.drop buf.length)
termination_by pending.length
decreasing_by
  · exact (skipChunks_length _).trans_lt (fgetsChunk_shorter (by assumption))
  · exact fgetsChunk_shorter (by assumption)

def fileLines (file : CString) : List CString :=
  if file = [] then []
  else takeRecord '\n' file :: fileLines (file.drop (takeRecord '\n' file).length)
termination_by file.length
decreasing_by
  rename_i more
  have some := (takeRecord_length '\n' file).2 more
  have positive := length_pos_iff.mpr more
  rw [length_drop]
  omega

def registered (platform : Platform) (lines : List CString) : List DataSetEntry :=
  lines.flatMap fun line => if line.length < 4095 then parseBuffer platform line else []

/-- The lines as the loop sees them: one that ends with a full chunk takes the next one with it. -/
def reads (platform : Platform) (skipping : Bool) : List CString → List DataSetEntry
  | [] => []
  | line :: lines =>
    (if line.length < 4095 ∧ skipping = false then parseBuffer platform line else []) ++
      reads platform (4095 ∣ line.length) lines

theorem takeRecord_take (symbols : List Char) (n : Nat) :
    takeRecord '\n' (symbols.take n) = (takeRecord '\n' symbols).take n := by
  induction symbols generalizing n with
  | nil => simp [takeRecord]
  | cons symbol symbols ih =>
    cases n with
    | zero => rfl
    | succ n =>
      rw [take_succ_cons, takeRecord, takeRecord]
      split
      · simp
      · rw [ih, take_succ_cons]

theorem takeRecord_drop (n : Nat) (symbols : List Char) (inside : n < (takeRecord '\n' symbols).length) :
    takeRecord '\n' (symbols.drop n) = (takeRecord '\n' symbols).drop n := by
  induction symbols generalizing n with
  | nil => simp [takeRecord]
  | cons symbol symbols ih =>
    cases n with
    | zero => rfl
    | succ n =>
      rw [takeRecord] at inside ⊢
      split at inside
      · simp at inside
      · rename_i other
        rw [if_neg other, drop_succ_cons, drop_succ_cons, ih n (by simpa using inside)]

theorem fgetsChunk_eq (pending : CString) : fgetsChunk pending = (takeRecord '\n' pending).take 4095 :=
  takeRecord_take pending 4095

theorem skipChunks_line (more : pending ≠ []) : skipChunks pending =
    if 4095 ∣ (takeRecord '\n' pending).length then skipChunks (pending.drop (takeRecord '\n' pending).length)
    else pending.drop (takeRecord '\n' pending).length := by
  induction size : pending.length using Nat.strong_induction_on generalizing pending with
  | _ size ih =>
    have some := (takeRecord_length '\n' pending).2 more
    have bound := (takeRecord_length '\n' pending).1
    rw [skipChunks, if_neg more, fgetsChunk_eq, length_take]
    by_cases short : (takeRecord '\n' pending).length < 4095
    · rw [if_neg (by omega), min_eq_right short.le, if_neg (Nat.not_dvd_of_pos_of_lt some short)]
    · rw [if_pos (by omega), min_eq_left (le_of_not_gt short)]
      by_cases exactly : (takeRecord '\n' pending).length = 4095
      · rw [exactly, if_pos (dvd_refl _)]
      · have rest : takeRecord '\n' (pending.drop 4095) = _ := takeRecord_drop 4095 pending (by omega)
        have left : pending.drop 4095 ≠ [] := by
          rw [ne_eq, drop_eq_nil_iff]
          omega
        have same : 4095 ∣ (takeRecord '\n' pending).length - 4095 ↔
          4095 ∣ (takeRecord '\n' pending).length := by omega
        simp only [ih _ (by rw [length_drop]; omega) left rfl, rest, length_drop, drop_drop, same,
          Nat.add_sub_cancel' (le_of_not_gt short)]

theorem parseFile_eq_reads (platform : Platform) (pending : CString) :
    parseFile platform pending = reads platform false (fileLines pending) ∧
      parseFile platform (skipChunks pending) = reads platform true (fileLines pending) := by
  induction size : pending.length using Nat.strong_induction_on generalizing pending with
  | _ size ih =>
    by_cases more : pending = []
    · subst more
      simp [parseFile, skipChunks, fileLines, reads]
    have some := (takeRecord_length '\n' pending).2 more
    have bound := (takeRecord_length '\n' pending).1
    obtain ⟨after, afterLong⟩ := ih _ (by rw [length_drop]; omega) (pending.drop (takeRecord '\n' pending).length) rfl
    have skipped : parseFile platform (skipChunks pending) = reads platform true (fileLines pending) := by
      rw [fileLines, if_neg more, reads, skipChunks_line more]
      split
      · rename_i full
        simp [full, afterLong]
      · rename_i partly
        simp [partly, after]
    refine ⟨?_, skipped⟩
    rw [parseFile, if_neg more]
    dsimp only
    split
    · rename_i long
      have same : skipChunks pending = skipChunks (pending.drop (fgetsChunk pending).length) := by
        rw [skipChunks, if_neg more, if_pos long]
      rw [fgetsChunk_eq, length_take] at long
      have tooLong : ¬ (takeRecord '\n' pending).length < 4095 := by omega
      rw [← same, skipped, fileLines, if_neg more, reads, reads]
      simp [tooLong]
    · rename_i short
      rw [fgetsChunk_eq, length_take] at short
      have fits : (takeRecord '\n' pending).length < 4095 := by omega
      rw [fileLines, if_neg more, reads, fgetsChunk_eq, take_of_length_le fits.le, after, if_pos ⟨fits, rfl⟩]
      simp [Nat.not_dvd_of_pos_of_lt some fits]

theorem reads_length_le (platform : Platform) (skipping : Bool) (lines : List CString) :
    (reads platform skipping lines).length ≤ (registered platform lines).length := by
  induction lines generalizing skipping with
  | nil => exact le_rfl
  | cons line lines ih =>
    have rest := ih (4095 ∣ line.length)
    rw [reads, registered, flatMap_cons, length_append, length_append, ← registered]
    split
    · rename_i both
      rw [if_pos both.1]
      omega
    · simp only [length_nil]
      omega

/-- A line that ends with a full chunk is followed by a line that registers nothing or is too long itself. -/
def Independent (platform : Platform) (lines : List CString) : Prop :=
  lines.IsChain fun line next => 4095 ∣ line.length → next.length < 4095 → parseBuffer platform next = []

theorem reads_eq_iff (platform : Platform) (line : CString) (lines : List CString) :
    reads platform (4095 ∣ line.length) lines = registered platform lines ↔ Independent platform (line :: lines) := by
  induction lines generalizing line with
  | nil => simp [reads, registered, Independent]
  | cons next lines ih =>
    rw [Independent, isChain_cons_cons, ← Independent, ← ih, reads, registered, flatMap_cons, ← registered]
    by_cases lost : 4095 ∣ line.length ∧ next.length < 4095
    · have length := reads_length_le platform (4095 ∣ next.length) lines
      simp only [lost, decide_true, Bool.true_eq_false, and_false, if_false, nil_append, if_true, true_imp_iff]
      constructor
      · intro same
        have empty : parseBuffer platform next = [] := by
          rw [same, length_append] at length
          exact length_eq_zero_iff.mp (by omega)
        exact ⟨empty, by rw [same, empty, nil_append]⟩
      · rintro ⟨empty, same⟩
        rw [empty, same, nil_append]
    · have kept : (next.length < 4095 ∧ decide (4095 ∣ line.length) = false) ↔ next.length < 4095 := by
        rw [decide_eq_false_iff_not]
        tauto
      simp only [kept, append_cancel_left_eq]
      tauto

/-- Every line is registered on its own exactly if no full chunk runs into a line that matters. -/
theorem types_lines_independent_iff (platform : Platform) (file : CString) :
    parseFile platform file = registered platform (fileLines file) ↔ Independent platform (fileLines file) := by
  have first : decide (4095 ∣ (['#'] : CString).length) = false := by decide
  rw [(parseFile_eq_reads platform file).1, ← first, reads_eq_iff, Independent, Independent, isChain_cons]
  simp

theorem fileLines_two {next} (clean : '\n' ∉ body) (last : '\n' ∉ next) (some : next ≠ []) :
    fileLines (body ++ '\n' :: next) = [body ++ ['\n'], next] := by
  have rest : (body ++ '\n' :: next).drop (body ++ ['\n']).length = next := by
    rw [append_cons body '\n' next, drop_left]
  rw [fileLines, if_neg (by simp), takeRecord_append clean, rest, fileLines, if_neg some, takeRecord_of_notMem last,
    drop_length, fileLines, if_pos rfl]

theorem full_line_takes_next (platform : Platform) (body next : CString) (clean : '\n' ∉ body) (last : '\n' ∉ next)
    (some : next ≠ [])
    (full : (body ++ ['\n']).length = 4095) (short : next.length < 4095) :
    parseFile platform (body ++ '\n' :: next) = [] ∧
      registered platform (fileLines (body ++ '\n' :: next)) = parseBuffer platform next := by
  rw [(parseFile_eq_reads platform _).1, fileLines_two clean last some]
  simp only [reads, registered, flatMap_cons, flatMap_nil, full, short]
  simp

def zeroPlatform : Platform := ⟨fun _ => ⟨.fin 0, 1, false⟩, fun _ => 0, fun _ => []⟩

theorem comment_takes_next :
    parseFile zeroPlatform (replicate 4094 '#' ++ '\n' :: "load value:GAUGE:0:U") = [] ∧
    registered zeroPlatform (fileLines (replicate 4094 '#' ++ '\n' :: "load value:GAUGE:0:U")) =
      [⟨"load", [⟨"value", DS_TYPE_GAUGE, .fin 0, .nan⟩]⟩] := by
  have lost := full_line_takes_next zeroPlatform (replicate 4094 '#') "load value:GAUGE:0:U"
    (fun member => by cases eq_of_mem_replicate member) (by decide) (by decide)
    (by rw [length_append, length_replicate]; rfl) (by decide)
  exact ⟨lost.1, lost.2.trans (by decide)⟩

end NCollectd.TypesList
