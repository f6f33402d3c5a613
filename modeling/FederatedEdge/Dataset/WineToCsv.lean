import FederatedEdge.Library.CText

/-!
# Conversion of the wine data

`winetocsv` writes a header and then, for each line of `wine.data` with enough
columns and a valid class, an index, the features and the class as three
columns.  The messages about the other lines are left out.
-/

namespace FederatedEdge.Dataset

open FederatedEdge.Library

def MAX_LINE_LEN : ℕ :=
  1024

def EXPECTED_TOKENS : ℕ :=
  14

/-- `%d` of an index. -/
def decimal (number : ℕ) : List Char :=
  Nat.toDigits 10 number

def trim_inplace (s : List Char) : List Char :=
  ((s.dropWhile isspace).reverse.dropWhile isspace).reverse

/-- The class and the features of a line. -/
structure WineLine where
  classe : ℤ
  features : List (List Char)
  deriving DecidableEq

/-- What is taken from a buffer, if its line is not ignored. -/
def wineLine (buffer : List Char) : Option WineLine :=
  let line := cutLine buffer
  if line.all isspace then none
  else
    let tokens := ((strtok line).take 20).map trim_inplace
    if tokens.length < EXPECTED_TOKENS then none
    else
      let classe := atoi (tokens.headD [])
      if classe < 1 ∨ 3 < classe then none
      else some { classe := classe, features := (tokens.drop 1).take 13 }

/-- The class as three columns. -/
def oneHot (classe : ℤ) : List Char :=
  if classe = 1 then ",1,0,0".toList
  else if classe = 2 then ",0,1,0".toList
  else ",0,0,1".toList

def csvLine (index : ℕ) (line : WineLine) : List Char :=
  decimal index ++ [','] ++ [','].intercalate line.features ++
    oneHot line.classe

/-- The first line of `wine.csv`. -/
def header : List Char :=
  "index,".toList ++
    (List.range' 1 13).flatMap
      (fun i => "feature".toList ++ decimal i ++ [',']) ++
    "class1,class2,class3".toList

/-- The lines after the header, when `total` have been processed. -/
def csvLines (total : ℕ) : List (List Char) → List (List Char)
  | [] => []
  | buffer :: rest =>
      match wineLine buffer with
      | none => csvLines total rest
      | some line => csvLine (total + 1) line :: csvLines (total + 1) rest

/-- The content of `wine.csv` for a content of `wine.data`. -/
def winetocsv (data : List Char) : List Char :=
  writeLines (header :: csvLines 0 (buffers MAX_LINE_LEN data))

end FederatedEdge.Dataset
