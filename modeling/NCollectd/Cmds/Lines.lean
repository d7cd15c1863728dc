import NCollectd.Cmds.Quoting
import NCollectd.Utils.PrintedValues

namespace NCollectd.Cmds

open List

/-- A text between quotation marks, and what it stands for. -/
inductive Quoted : CString → CString → Prop where
  | nil : Quoted [] []
  | plain (other : c ≠ '"') (plain : c ≠ '\\') (rest : Quoted raw text) : Quoted (c :: raw) (c :: text)
  | escaped (rest : Quoted raw text) : Quoted ('\\' :: c :: raw) (c :: text)

theorem quoted_escapeText (s : CString) : Quoted (escapeText s) s := by
  induction s with
  | nil => exact .nil
  | cons c s ih =>
    have split : escapeText (c :: s) = (if c = '"' || c = '\\' then ['\\', c] else [c]) ++ escapeText s := rfl
    rw [split]
    by_cases special : (c = '"' || c = '\\') = true
    · rw [if_pos special]
      exact .escaped ih
    · rw [if_neg special]
      obtain ⟨other, plain⟩ : c ≠ '"' ∧ c ≠ '\\' := by simpa using special
      exact .plain other plain ih

theorem Quoted.scan_some (quoted : Quoted raw text) (current rest : CString) :
    scan (some current) true (raw ++ '"' :: rest) = (scan none false rest).after [current ++ text] := by
  induction quoted generalizing current with
  | nil =>
    rw [append_nil]
    exact scan_close
  | plain other plain _ ih =>
    rw [cons_append, scan_quoted other plain, ih]
    simp
  | escaped _ ih =>
    rw [cons_append, cons_append, scan_escape, ih]
    simp

theorem Quoted.scan_none (quoted : Quoted raw text) (filled : text ≠ []) (rest : CString) :
    scan none true (raw ++ '"' :: rest) = (scan none false rest).after [text] := by
  cases quoted with
  | nil => exact (filled rfl).elim
  | plain other plain quoted =>
    rw [cons_append, scan_quoted other plain, quoted.scan_some]
    rfl
  | escaped quoted =>
    rw [cons_append, cons_append, scan_escape, quoted.scan_some]
    rfl

/-- The text ends here or goes on with a blank. -/
def Separated (rest : CString) : Prop := ∀ c, rest.head? = some c → isspace c = true

def isPlain (c : Char) : Bool := !isspace c && c ≠ '"' && c ≠ NUL

theorem isPlain_iff : isPlain c = true ↔ isspace c = false ∧ c ≠ '"' ∧ c ≠ NUL := by
  simp [isPlain, and_assoc]

theorem isPlain_digit (digit : c.isDigit = true) : isPlain c = true := by
  have different (other : Char) (no : other.isDigit = false) : c ≠ other := by
    rintro rfl
    rw [no] at digit
    cases digit
  exact isPlain_iff.mpr ⟨Common.isspace_digit digit, different _ (by decide), different _ (by decide)⟩

theorem scan_plain (plain : isPlain c = true) (current : Option CString) (rest : CString) :
    scan current false (c :: rest) = scan (some (current.getD [] ++ [c])) false rest := by
  obtain ⟨visible, other, -⟩ := isPlain_iff.mp plain
  rw [scan.eq_def]
  simp [visible, other]

theorem scan_word (plain : ∀ c ∈ word, isPlain c = true) (text rest : CString) :
    scan (some text) false (word ++ rest) = scan (some (text ++ word)) false rest := by
  induction word generalizing text with
  | nil => rw [append_nil, nil_append]
  | cons c word ih =>
    rw [cons_append, scan_plain (plain c mem_cons_self),
      ih fun d member => plain d (mem_cons_of_mem c member)]
    simp

theorem scan_separated (separated : Separated rest) (text : CString) :
    scan (some text) false rest = (scan none false rest).after [text] := by
  cases rest with
  | nil => rfl
  | cons c rest =>
    have blank := separated c rfl
    rw [scan.eq_def, scan.eq_def]
    simp [blank, Scan.after]

theorem scan_mark (text : CString) : scan (some text) false ('"' :: rest) = scan (some text) true rest := by
  rw [scan.eq_def]
  rfl

/-- A piece of a line as it stands there, the field it makes, and what the splitter needs. -/
structure Piece where
  raw : CString
  text : CString
  clean : NUL ∉ raw
  visible : ∃ c rest, raw = c :: rest ∧ isspace c = false
  reads : ∀ rest, Separated rest → scan none false (raw ++ rest) = (scan none false rest).after [text]

def Piece.word (word : CString) (filled : word ≠ []) (plain : ∀ c ∈ word, isPlain c = true) : Piece where
  raw := word
  text := word
  clean member := (isPlain_iff.mp (plain NUL member)).2.2 rfl
  visible := by
    obtain ⟨c, word, rfl⟩ := exists_cons_of_ne_nil filled
    exact ⟨c, word, rfl, (isPlain_iff.mp (plain c mem_cons_self)).1⟩
  reads := by
    intro rest separated
    obtain ⟨c, word, rfl⟩ := exists_cons_of_ne_nil filled
    rw [cons_append, scan_plain (plain c mem_cons_self),
      scan_word fun d member => plain d (mem_cons_of_mem c member)]
    exact scan_separated separated _

theorem nul_notMem_between (clean : NUL ∉ raw) : NUL ∉ '"' :: raw ++ ['"'] := by
  have different : NUL ≠ '"' := by decide
  simp [different, clean]

def Piece.quoted (raw text : CString) (quoted : Quoted raw text) (clean : NUL ∉ raw) (filled : text ≠ []) : Piece where
  raw := '"' :: raw ++ ['"']
  text := text
  clean := nul_notMem_between clean
  visible := ⟨'"', raw ++ ['"'], rfl, by decide⟩
  reads := by
    intro rest _
    have shape : '"' :: raw ++ ['"'] ++ rest = '"' :: (raw ++ '"' :: rest) := by simp
    rw [shape, scan_open]
    exact quoted.scan_none filled rest

def Piece.marked (word raw text : CString) (filled : word ≠ []) (plain : ∀ c ∈ word, isPlain c = true)
    (quoted : Quoted raw text) (clean : NUL ∉ raw) : Piece where
  raw := word ++ ('"' :: raw ++ ['"'])
  text := word ++ text
  clean member := by
    rcases mem_append.mp member with front | back
    · exact (isPlain_iff.mp (plain NUL front)).2.2 rfl
    · exact nul_notMem_between clean back
  visible := by
    obtain ⟨c, word, rfl⟩ := exists_cons_of_ne_nil filled
    exact ⟨c, word ++ ('"' :: raw ++ ['"']), rfl, (isPlain_iff.mp (plain c mem_cons_self)).1⟩
  reads := by
    intro rest _
    obtain ⟨c, word, rfl⟩ := exists_cons_of_ne_nil filled
    have shape : c :: word ++ ('"' :: raw ++ ['"']) ++ rest = c :: (word ++ '"' :: (raw ++ '"' :: rest)) := by simp
    rw [shape, scan_plain (plain c mem_cons_self),
      scan_word fun d member => plain d (mem_cons_of_mem c member), scan_mark]
    exact quoted.scan_some _ rest

def spacedPieces (pieces : List Piece) : CString := pieces.flatMap fun piece => ' ' :: piece.raw

def lineOf (first : Piece) (pieces : List Piece) (ending : CString) : CString :=
  first.raw ++ spacedPieces pieces ++ ending

theorem spacedPieces_cons (piece : Piece) (pieces : List Piece) (ending : CString) :
    spacedPieces (piece :: pieces) ++ ending = ' ' :: lineOf piece pieces ending := rfl

theorem separated_spacedPieces (pieces : List Piece) (separated : Separated ending) :
    Separated (spacedPieces pieces ++ ending) := by
  cases pieces with
  | nil => exact separated
  | cons piece pieces =>
    intro c first
    obtain rfl : ' ' = c := Option.some.inj first
    decide

section

variable {ending : CString} (blank : ∀ c ∈ ending, isspace c = true)
include blank

theorem separated_of_blank : Separated ending := by
  intro c first
  exact blank c (mem_of_mem_head? first)

theorem scan_blank : scan none false ending = ⟨[], .finished⟩ := by
  induction ending with
  | nil => rfl
  | cons c ending ih =>
    rw [scan.eq_def]
    simp only [blank c mem_cons_self, Bool.not_false, Bool.and_self, ↓reduceIte]
    rw [ih fun d member => blank d (mem_cons_of_mem c member)]
    rfl

theorem scan_spacedPieces (pieces : List Piece) :
    scan none false (spacedPieces pieces ++ ending) = ⟨pieces.map Piece.text, .finished⟩ := by
  induction pieces with
  | nil => exact scan_blank blank
  | cons piece pieces ih =>
    rw [spacedPieces_cons, scan_separator, lineOf, append_assoc,
      piece.reads _ (separated_spacedPieces pieces (separated_of_blank blank)), ih]
    rfl

end

theorem length_le_estimate_pieces (pieces : List Piece) (ending : CString) (inWord : Bool) :
    pieces.length ≤ estimate inWord (spacedPieces pieces ++ ending) := by
  induction pieces generalizing inWord with
  | nil => exact Nat.zero_le _
  | cons piece pieces ih =>
    obtain ⟨c, raw, shape, visible⟩ := piece.visible
    have clean := piece.clean
    rw [shape] at clean
    obtain ⟨ordinary, others⟩ := clean_cons clean
    obtain ⟨after, fewer⟩ := estimate_skip others true (spacedPieces pieces ++ ending)
    have tail := ih after
    rw [spacedPieces_cons, lineOf, shape, estimate_blank (by decide) (by decide), append_assoc, cons_append,
      estimate_word ordinary visible, length_cons]
    simp only [Bool.not_false, count_true]
    omega

theorem nul_notMem_spacedPieces (pieces : List Piece) : NUL ∉ spacedPieces pieces := by
  intro member
  obtain ⟨piece, -, found⟩ := mem_flatMap.mp member
  rcases mem_cons.mp found with space | inside
  · revert space
    decide
  · exact piece.clean inside

theorem cmdSplit_lineOf (first : Piece) (pieces : List Piece) (blank : ∀ c ∈ ending, isspace c = true) :
    cmdSplit (lineOf first pieces ending) = .ok ((first :: pieces).map Piece.text) := by
  have scanned := scan_spacedPieces blank (first :: pieces)
  have enough := length_le_estimate_pieces (first :: pieces) ending false
  have untouched : NUL ∉ spacedPieces (first :: pieces) ++ ending := by
    intro member
    rcases mem_append.mp member with inside | behind
    · exact nul_notMem_spacedPieces _ inside
    · have spaced := blank NUL behind
      revert spaced
      decide
  rw [spacedPieces_cons] at scanned enough untouched
  rw [scan_separator] at scanned
  rw [estimate_blank (by decide) (by decide)] at enough
  rw [cmdSplit_eq fun member => untouched (mem_cons_of_mem _ member), scanned,
    if_neg (not_lt.mpr (by simpa using enough))]

/-- A text made of pieces behind single spaces, and their fields. -/
def Spells (text : CString) (fields : List CString) : Prop :=
  ∃ pieces, spacedPieces pieces = text ∧ pieces.map Piece.text = fields

theorem Spells.nil : Spells [] [] := ⟨[], rfl, rfl⟩

theorem Spells.append (front : Spells text fields) (back : Spells more others) :
    Spells (text ++ more) (fields ++ others) := by
  obtain ⟨pieces, rfl, rfl⟩ := front
  obtain ⟨rest, rfl, rfl⟩ := back
  exact ⟨pieces ++ rest, flatMap_append, map_append⟩

theorem Spells.piece (piece : Piece) : Spells (' ' :: piece.raw) [piece.text] :=
  ⟨[piece], append_nil _, rfl⟩

theorem Spells.word {word : CString} (filled : word ≠ []) (plain : ∀ c ∈ word, isPlain c = true) :
    Spells (' ' :: word) [word] := .piece (.word word filled plain)

theorem Spells.clean (spells : Spells text fields) : NUL ∉ text := by
  obtain ⟨pieces, rfl, -⟩ := spells
  exact nul_notMem_spacedPieces pieces

theorem Spells.cmdSplit {word : CString} (spells : Spells text fields) (filled : word ≠ [])
    (plain : ∀ c ∈ word, isPlain c = true) : cmdSplit (word ++ text) = .ok (word :: fields) := by
  obtain ⟨pieces, rfl, rfl⟩ := spells
  have split : NCollectd.Cmds.cmdSplit (lineOf (.word word filled plain) pieces []) = .ok _ :=
    cmdSplit_lineOf (.word word filled plain) pieces nofun
  rw [lineOf, append_nil] at split
  exact split

end NCollectd.Cmds
