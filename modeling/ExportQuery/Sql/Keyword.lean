/-
  ExportQuery.Sql.Keyword — keywords of the outer query, line comments and parentheses.

  A keyword is written in any case and stands apart from word characters; two words of one
  keyword have blanks between them. The long s and the Kelvin sign count as cases of S and K.

  A `--` outside single quotes starts a comment that runs to the end of its line. Quotes are
  paired from the start of the line, whatever the lines before hold.

  Parentheses are counted as characters, in comments and literals too.

  - `dropWord?_length`: a word read is as long as the keyword.
-/

import ExportQuery.Text.Search

namespace ExportQuery.Sql

open ExportQuery.Text

/-! ## Words -/

/-- Whether `c` is the upper-case character `k` in some case. -/
def sameLetter (k c : Char) : Bool :=
  c == k || c == k.toLower || (k == 'S' && c == 'ſ') || (k == 'K' && c == '\u212A')

/-- What is left after the upper-case `word`, read in any case. -/
def dropWord? : Text → Text → Option Text
  | [], s => some s
  | _ :: _, [] => none
  | k :: word, c :: s => if sameLetter k c then dropWord? word s else none

def dropBlanks? : Text → Option Text
  | [] => none
  | c :: s => if isBlank c then some (trimStart s) else none

/-- What is left after the words, blanks between them, and no word character behind them. -/
def dropPhrase? : List Text → Text → Option Text
  | [], s => some s
  | [word], s => (dropWord? word s).filter (!startsInWord ·)
  | word :: more, s => (dropWord? word s).bind fun r => (dropBlanks? r).bind (dropPhrase? more)

theorem dropWord?_length {word s r : Text} (h : dropWord? word s = some r) : s.length = word.length + r.length := by
  induction word generalizing s with
  | nil => simp_all [dropWord?]
  | cons k word ih =>
    cases s with
    | nil => simp [dropWord?] at h
    | cons c s =>
      simp only [dropWord?] at h
      split at h
      · simp only [List.length_cons, ih h]; omega
      · cases h

def sameAscii (a b : Text) : Bool := a.map Char.toLower == b.map Char.toLower

/-! ## Clauses -/

inductive Clause where
  | filter
  | grouping
  | ordering
  | limit
  deriving DecidableEq, Repr

def Clause.words : Clause → List Text
  | .filter => ["WHERE".toList]
  | .grouping => ["GROUP".toList, "BY".toList]
  | .ordering => ["ORDER".toList, "BY".toList]
  | .limit => ["LIMIT".toList]

def Clause.after? (k : Clause) (read left : Text) : Option Text :=
  if startsInWord read then none else dropPhrase? k.words left

/-! ## Comments -/

/-- Whether a comment starts in a piece of one line, `quoted` telling whether the piece starts
    inside single quotes. -/
def opensComment : Bool → Text → Bool
  | _, [] => false
  | quoted, '\'' :: s => opensComment (!quoted) s
  | false, '-' :: '-' :: _ => true
  | quoted, _ :: s => opensComment quoted s

def inComment (read : Text) : Bool := opensComment false (lineSoFar read)

/-! ## Places of clauses -/

/-- Parentheses opened and not closed in a piece of text, below zero when more are closed. -/
def depth (s : Text) : Int := (s.count '(' : Int) - (s.count ')' : Int)

/-- Whether one of the clauses opens at a place, outside comments. -/
def opensClause (ks : List Clause) (read left : Text) : Bool :=
  ks.any (fun k => (k.after? read left).isSome) && !inComment read

def findClause (ks : List Clause) (head rest : Text) : Option (Text × Text) :=
  seek (opensClause ks) head.reverse rest

/-- The first place after `head` where one of the clauses opens outside the parentheses opened
    after `head`. -/
def findOuterClause (ks : List Clause) (head rest : Text) : Option (Text × Text) :=
  seek (fun read left => opensClause ks read left && depth (read.take (read.length - head.length)) == 0)
    head.reverse rest

end ExportQuery.Sql
