import NCollectd.Base.Libc
import NCollectd.Base.Terminated

/-! `tail.c`: reading the lines that are appended to a file. -/

namespace NCollectd.Tail

open Terminated

/-- The file at the path, the bytes of every file by its inode, and whether it can be opened and read. -/
structure Disk where
  named : Option Nat
  content : Nat → List Char
  opens : Nat → Bool
  reads : Nat → Bool

/-- An open `FILE`. -/
structure Stream where
  inode : Nat
  offset : Nat
deriving DecidableEq

/-- The fields of `struct stat` that are used. -/
structure Stat where
  ino : Nat
  size : Nat
deriving DecidableEq

/-- `cu_tail_t`, without the path. -/
structure CuTail where
  fh : Option Stream
  stat : Stat
deriving DecidableEq

def cuTailCreate : CuTail := ⟨none, ⟨0, 0⟩⟩

def openFile (disk : Disk) (obj : CuTail) (forceRewind : Bool) (stat : Stat) : Status × CuTail :=
  let seekEnd := if obj.stat.ino = 0 ∨ obj.stat.ino = stat.ino then !forceRewind else false
  if disk.opens stat.ino then (0, ⟨some ⟨stat.ino, if seekEnd then stat.size else 0⟩, stat⟩)
  else (-1, obj)

def cuTailReopen (disk : Disk) (obj : CuTail) (forceRewind : Bool) : Status × CuTail :=
  match disk.named with
  | none => (-1, obj)
  | some inode =>
    let stat : Stat := ⟨inode, (disk.content inode).length⟩
    match obj.fh with
    | none => openFile disk obj forceRewind stat
    | some fh =>
      if stat.ino = obj.stat.ino then
        (1, ⟨some (if stat.size < obj.stat.size then { fh with offset := 0 } else fh), stat⟩)
      else openFile disk obj forceRewind stat

/-- How a call of `fgets` ends. -/
inductive Fetched where
  | line (bytes : List Char) (fh : Stream)
  | eof
  | error

def fgets (disk : Disk) (room : Nat) (fh : Stream) : Fetched :=
  if room = 0 then .line [] fh
  else if disk.reads fh.inode = false then .error
  else
    match (disk.content fh.inode).drop fh.offset with
    | [] => .eof
    | rest =>
      let bytes := takeRecord '\n' (rest.take room)
      .line bytes { fh with offset := fh.offset + bytes.length }

def cuTailReadline (disk : Disk) (buflen : Int) (forceRewind : Bool) (obj : CuTail) :
    Option (Except Status (List Char) × CuTail) :=
  if buflen < 1 then some (.error (-1), obj)
  else
    let (status, obj) := if obj.fh = none then cuTailReopen disk obj forceRewind else (0, obj)
    if status < 0 then some (.error status, obj)
    else
      obj.fh.bind fun fh =>
        match fgets disk (buflen - 1).toNat fh with
        | .line bytes fh => some (.ok bytes, { obj with fh := some fh })
        | failed =>
          let obj := match failed with
            | .error => { obj with fh := none }
            | _ => obj
          let (status, obj) := cuTailReopen disk obj forceRewind
          if status < 0 then some (.error status, obj)
          else if status > 0 then some (.ok [], obj)
          else
            obj.fh.bind fun fh =>
              match fgets disk (buflen - 1).toNat fh with
              | .line bytes fh => some (.ok bytes, { obj with fh := some fh })
              | .error => some (.error (-1), { obj with fh := none })
              | .eof => some (.ok [], obj)

def bufferText (bytes : List Char) : CString := bytes.takeWhile (· ≠ '\x00')

def cuTailRead (disk : Disk) (buflen : Int) (forceRewind : Bool) (callback : List CString → CString → Status) :
    Nat → CuTail → List CString → Option (Status × List CString × CuTail)
  | 0, _, _ => none
  | turns + 1, obj, received =>
    (cuTailReadline disk buflen forceRewind obj).bind fun
      | (.error status, obj) => some (status, [], obj)
      | (.ok bytes, obj) =>
        if bufferText bytes = [] then some (0, [], obj)
        else
          let line := (bufferText bytes).rdropWhile (· = '\n')
          let status := callback received line
          if status ≠ 0 then some (status, [line], obj)
          else
            (cuTailRead disk buflen forceRewind callback turns obj (received ++ [line])).map
              fun (status, lines, obj) => (status, line :: lines, obj)

def turnsFor (disk : Disk) (obj : CuTail) : Nat :=
  (obj.fh.map fun fh => (disk.content fh.inode).length).getD 0 +
    (disk.named.map fun inode => (disk.content inode).length).getD 0 + 2

def tailReads (buflen : Int) (forceRewind : Bool) (callback : List CString → CString → Status) :
    CuTail → List CString → List Disk → Option (List CString × CuTail)
  | obj, received, [] => some (received, obj)
  | obj, received, disk :: disks =>
    (cuTailRead disk buflen forceRewind callback (turnsFor disk obj) obj received).bind
      fun (_, lines, obj) => tailReads buflen forceRewind callback obj (received ++ lines) disks

section Following

variable {earlier pending record rest : List Char}

def Disk.file (inode : Nat) (bytes : List Char) : Disk := ⟨some inode, fun _ => bytes, fun _ => true, fun _ => true⟩

def following (inode : Nat) (read : List Char) (size : Nat) : CuTail := ⟨some ⟨inode, read.length⟩, ⟨inode, size⟩⟩

/-- Every line of the bytes fits into the buffer, with its newline and the terminator. -/
def Fits (buflen : Int) (bytes : List Char) : Prop :=
  ∀ line, line <:+: bytes → '\n' ∉ line → (line.length : Int) + 2 ≤ buflen

theorem Fits.two_le (fits : Fits buflen pending) : 2 ≤ buflen := by
  have least := fits [] List.nil_infix List.not_mem_nil
  simpa using least

theorem Fits.part (fits : Fits buflen pending) (inside : rest <:+: pending) : Fits buflen rest :=
  fun line part clean => fits line (part.trans inside) clean

theorem bufferText_eq (clean : '\x00' ∉ bytes) : bufferText bytes = bytes := by
  rw [bufferText, List.takeWhile_eq_self_iff]
  intro byte member
  simpa using fun zero : byte = '\x00' => clean (zero ▸ member)

theorem fgets_bytes (room : 0 < count) (some : pending ≠ []) :
    fgets (.file inode (earlier ++ pending)) count ⟨inode, earlier.length⟩ =
      .line (takeRecord '\n' (pending.take count))
        ⟨inode, earlier.length + (takeRecord '\n' (pending.take count)).length⟩ := by
  obtain ⟨byte, pending, rfl⟩ := List.exists_cons_of_ne_nil some
  simp [fgets, Disk.file, ne_of_gt room]

theorem fgets_eof (room : 0 < count) : fgets (.file inode earlier) count ⟨inode, earlier.length⟩ = .eof := by
  simp [fgets, Disk.file, ne_of_gt room]

theorem readline_bytes (two : 2 ≤ buflen) (some : pending ≠ []) :
    cuTailReadline (.file inode (earlier ++ pending)) buflen forceRewind (following inode earlier size) =
      .some (.ok (takeRecord '\n' (pending.take (buflen - 1).toNat)),
        ⟨.some ⟨inode, earlier.length + (takeRecord '\n' (pending.take (buflen - 1).toNat)).length⟩,
          ⟨inode, size⟩⟩) := by
  have line : fgets (.file inode (earlier ++ pending)) (buflen - 1).toNat ⟨inode, earlier.length⟩ = _ :=
    fgets_bytes (by omega) some
  rw [cuTailReadline, if_neg (by omega)]
  simp only [following, reduceCtorEq, if_false, Option.bind_some, line]
  rfl

theorem readline_record (clean : '\n' ∉ record) (fits : (record.length : Int) + 2 ≤ buflen) :
    cuTailReadline (.file inode (earlier ++ (record ++ '\n' :: rest))) buflen forceRewind
        (following inode earlier size) =
      some (.ok (record ++ ['\n']), following inode (earlier ++ (record ++ ['\n'])) size) := by
  have taken : (record ++ '\n' :: rest).take (buflen - 1).toNat =
      record ++ '\n' :: rest.take ((buflen - 1).toNat - (record.length + 1)) := by
    rw [List.take_append, List.take_of_length_le (by omega), List.take_cons (by omega), Nat.sub_sub]
  rw [readline_bytes (by omega) (by simp), taken, takeRecord_append clean]
  simp [following]

theorem readline_rest (clean : '\n' ∉ record) (some : record ≠ []) (fits : (record.length : Int) + 2 ≤ buflen) :
    cuTailReadline (.file inode (earlier ++ record)) buflen forceRewind (following inode earlier size) =
      .some (.ok record, following inode (earlier ++ record) size) := by
  rw [readline_bytes (by omega) some, List.take_of_length_le (by omega), takeRecord_of_notMem clean]
  simp [following]

theorem readline_eof (two : 2 ≤ buflen) (grown : size ≤ earlier.length) :
    cuTailReadline (.file inode earlier) buflen forceRewind (following inode earlier size) =
      some (.ok [], following inode earlier earlier.length) := by
  have ended : fgets (.file inode earlier) (buflen - 1).toNat ⟨inode, earlier.length⟩ = .eof :=
    fgets_eof (by omega)
  have same : cuTailReopen (.file inode earlier) (following inode earlier size) forceRewind =
      (1, following inode earlier earlier.length) := by
    simp [cuTailReopen, Disk.file, following, not_lt.mpr grown]
  rw [cuTailReadline, if_neg (by omega)]
  simp only [following, reduceCtorEq, if_false, Option.bind_some, ended] at same ⊢
  rw [same]
  rfl

theorem strip_clean (clean : '\n' ∉ record) : record.rdropWhile (· = '\n') = record := by
  rw [List.rdropWhile_eq_self_iff]
  intro some last
  have newline : record.getLast some = '\n' := by simpa using last
  exact clean (newline ▸ List.getLast_mem some)

theorem cuTailRead_turn
    (accepts : ∀ received line, callback received line = 0)
    (read : cuTailReadline disk buflen forceRewind obj = some (.ok bytes, obj')) (nulFree : '\x00' ∉ bytes)
    (some : bytes ≠ []) (stripped : bytes.rdropWhile (· = '\n') = line) :
    cuTailRead disk buflen forceRewind callback (turns + 1) obj received =
      (cuTailRead disk buflen forceRewind callback turns obj' (received ++ [line])).map
        fun (status, lines, obj) => (status, line :: lines, obj) := by
  rw [cuTailRead, read, Option.bind_some]
  simp [bufferText_eq nulFree, if_neg some, stripped, accepts]

theorem cuTailRead_pieces (accepts : ∀ received line, callback received line = 0) (nulFree : '\x00' ∉ pending)
    (fits : Fits buflen pending) (grown : size ≤ (earlier ++ pending).length) (enough : pending.length < turns)
    (received : List CString) :
    cuTailRead (.file inode (earlier ++ pending)) buflen forceRewind callback turns (following inode earlier size)
        received =
      some (0, pieces '\n' pending, following inode (earlier ++ pending) (earlier ++ pending).length) := by
  induction turns generalizing earlier pending received with
  | zero => exact absurd enough (Nat.not_lt_zero _)
  | succ turns ih =>
    by_cases member : '\n' ∈ pending
    · obtain ⟨record, rest, rfl, clean⟩ := List.eq_append_cons_of_mem member
      rw [List.mem_append, List.mem_cons, not_or, not_or] at nulFree
      obtain ⟨free, _, free'⟩ := nulFree
      have whole : earlier ++ (record ++ '\n' :: rest) = (earlier ++ (record ++ ['\n'])) ++ rest := by simp
      have read : cuTailReadline (.file inode (earlier ++ (record ++ '\n' :: rest))) buflen forceRewind
          (following inode earlier size) = _ :=
        readline_record clean (fits record (List.infix_append' [] record _) clean)
      have line : (record ++ ['\n']).rdropWhile (· = '\n') = record := by
        rw [List.rdropWhile_concat_pos _ _ _ (by decide), strip_clean clean]
      have inside : rest <:+: record ++ '\n' :: rest := ⟨record ++ ['\n'], [], by simp⟩
      rw [cuTailRead_turn accepts read (by simpa using free) (by simp) line, whole,
        ih free' (fits.part inside) (whole ▸ grown) (by simp at enough; omega), pieces_append clean]
      rfl
    · cases pending with
      | nil =>
        rw [List.append_nil] at grown ⊢
        rw [cuTailRead, readline_eof fits.two_le grown]
        rfl
      | cons byte pending =>
        have read : cuTailReadline (.file inode (earlier ++ byte :: pending)) buflen forceRewind
            (following inode earlier size) = _ :=
          readline_rest member (List.cons_ne_nil byte pending) (fits _ (List.infix_refl _) member)
        have last : cuTailRead (.file inode ((earlier ++ byte :: pending) ++ [])) buflen forceRewind callback turns
            (following inode (earlier ++ byte :: pending) size) (received ++ [byte :: pending]) = _ :=
          ih List.not_mem_nil (fits.part List.nil_infix) (by simpa using grown) (by simp at enough ⊢; omega) _
        rw [List.append_nil] at last
        rw [cuTailRead_turn accepts read nulFree (List.cons_ne_nil byte pending) (strip_clean member), last,
          pieces_of_notMem member (List.cons_ne_nil byte pending)]
        rfl

def growing (inode : Nat) : List Char → List (List Char) → List Disk
  | _, [] => []
  | bytes, appended :: rest => .file inode (bytes ++ appended) :: growing inode (bytes ++ appended) rest

theorem tailReads_growing (accepts : ∀ received line, callback received line = 0)
    (nulFree : '\x00' ∉ parts.flatten) (fits : Fits buflen parts.flatten) (received : List CString) :
    ∃ obj, tailReads buflen forceRewind callback (following inode earlier earlier.length) received
      (growing inode earlier parts) = some (received ++ parts.flatMap (pieces '\n'), obj) := by
  induction parts generalizing earlier received with
  | nil => exact ⟨_, by rw [List.flatMap_nil, List.append_nil]; rfl⟩
  | cons part parts ih =>
    rw [List.flatten_cons] at nulFree fits
    rw [List.mem_append, not_or] at nulFree
    have read : cuTailRead (.file inode (earlier ++ part)) buflen forceRewind callback
        (turnsFor (.file inode (earlier ++ part)) (following inode earlier earlier.length))
        (following inode earlier earlier.length) received = _ :=
      cuTailRead_pieces accepts nulFree.1 (fits.part (List.prefix_append part _).isInfix) (by simp)
        (by simp [turnsFor, following, Disk.file]; omega) received
    obtain ⟨obj, later⟩ : ∃ obj, tailReads buflen forceRewind callback
        (following inode (earlier ++ part) (earlier ++ part).length) (received ++ pieces '\n' part)
        (growing inode (earlier ++ part) parts) = some (_, obj) :=
      ih nulFree.2 (fits.part (List.suffix_append part _).isInfix) _
    refine ⟨obj, ?_⟩
    rw [growing, tailReads, read, Option.bind_some, List.flatMap_cons, ← List.append_assoc]
    exact later

def found (forceRewind : Bool) (initial : List Char) : List Char := if forceRewind then initial else []

theorem readline_create (two : 2 ≤ buflen) (initial : List Char) :
    cuTailReadline (.file inode initial) buflen forceRewind cuTailCreate =
      cuTailReadline (.file inode initial) buflen forceRewind
        (following inode (if forceRewind then [] else initial) initial.length) := by
  have opened : cuTailReopen (.file inode initial) cuTailCreate forceRewind =
      (0, following inode (if forceRewind then [] else initial) initial.length) := by
    cases forceRewind <;> rfl
  have large : ¬ buflen < 1 := by omega
  rw [cuTailReadline, if_neg large, cuTailReadline, if_neg large]
  simp only [cuTailCreate, if_true, following, reduceCtorEq, if_false] at opened ⊢
  rw [opened]

/-- The first call delivers the pieces of what it finds. -/
theorem cuTailRead_create (accepts : ∀ received line, callback received line = 0) (initial : List Char)
    (nulFree : '\x00' ∉ found forceRewind initial) (fits : Fits buflen (found forceRewind initial)) :
    cuTailRead (.file inode initial) buflen forceRewind callback (turnsFor (.file inode initial) cuTailCreate)
        cuTailCreate [] =
      some (0, pieces '\n' (found forceRewind initial), following inode initial initial.length) := by
  have turns : turnsFor (.file inode initial) cuTailCreate = initial.length + 1 + 1 := by
    simp [turnsFor, cuTailCreate, Disk.file]
  have same : cuTailRead (.file inode initial) buflen forceRewind callback (initial.length + 1 + 1) cuTailCreate [] =
      cuTailRead (.file inode initial) buflen forceRewind callback (initial.length + 1 + 1)
        (following inode (if forceRewind then [] else initial) initial.length) [] := by
    rw [cuTailRead, cuTailRead, readline_create fits.two_le]
  have split : (if forceRewind then [] else initial) ++ found forceRewind initial = initial := by
    cases forceRewind <;> simp [found]
  have short : (found forceRewind initial).length ≤ initial.length := by
    have length := congrArg List.length split
    rw [List.length_append] at length
    omega
  have read : cuTailRead (.file inode ((if forceRewind then [] else initial) ++ found forceRewind initial)) buflen
      forceRewind callback (initial.length + 1 + 1)
      (following inode (if forceRewind then [] else initial) initial.length) [] = _ :=
    cuTailRead_pieces accepts nulFree fits (by rw [split]) (by omega) []
  rw [split] at read
  rw [turns, same, read]

/-- Each line is delivered once and in order exactly if every call finds the last line terminated. -/
theorem tail_delivers_lines_iff (inode : Nat) (initial : List Char) (parts : List (List Char)) (buflen : Int)
    (forceRewind : Bool) (callback : List CString → CString → Status)
    (accepts : ∀ received line, callback received line = 0)
    (nulFree : '\x00' ∉ found forceRewind initial ++ parts.flatten)
    (fits : Fits buflen (found forceRewind initial ++ parts.flatten)) :
    ∃ lines obj, tailReads buflen forceRewind callback cuTailCreate []
        (.file inode initial :: growing inode initial parts) = some (lines, obj) ∧
      (lines = finished '\n' (found forceRewind initial ++ parts.flatten) ↔
        ∀ part ∈ found forceRewind initial :: parts, unfinished '\n' part = []) := by
  rw [List.mem_append, not_or] at nulFree
  have first : cuTailRead (.file inode initial) buflen forceRewind callback
      (turnsFor (.file inode initial) cuTailCreate) cuTailCreate [] = _ :=
    cuTailRead_create accepts initial nulFree.1 (fits.part (List.prefix_append _ _).isInfix)
  obtain ⟨obj, later⟩ : ∃ obj, tailReads buflen forceRewind callback (following inode initial initial.length)
      (pieces '\n' (found forceRewind initial)) (growing inode initial parts) = some (_, obj) :=
    tailReads_growing accepts nulFree.2 (fits.part (List.suffix_append _ _).isInfix) _
  refine ⟨(found forceRewind initial :: parts).flatMap (pieces '\n'), obj, ?_, ?_⟩
  · rw [tailReads, first, Option.bind_some, List.flatMap_cons]
    exact later
  · rw [← List.flatten_cons]
    exact flatMap_pieces_iff _

end Following

theorem tail_delivers_lines_whole : ∃ lines obj, tailReads 8 false (fun _ _ => 0) cuTailCreate []
      (.file 1 "old" :: growing 1 "old" ["a\nb\n", "c\n"]) = some (lines, obj) ∧
    lines = finished '\n' "a\nb\nc\n" := by
  obtain ⟨lines, obj, read, law⟩ := tail_delivers_lines_iff 1 "old" ["a\nb\n", "c\n"] 8 false
    (fun _ _ => 0) (fun _ _ => rfl) (by decide) (fun line inside _ => by
      have short : line.length ≤ 6 := inside.length_le
      omega)
  exact ⟨lines, obj, read, law.mpr (by decide)⟩

theorem tail_splits_line : ∃ obj, tailReads 8 false (fun _ _ => 0) cuTailCreate []
      (.file 1 [] :: growing 1 [] ["ab".toList, "c\n".toList]) = some (["ab".toList, "c".toList], obj) ∧
    finished '\n' "abc\n".toList = ["abc".toList] :=
  ⟨⟨some ⟨1, 4⟩, ⟨1, 4⟩⟩, by decide +kernel, by decide⟩

end NCollectd.Tail
