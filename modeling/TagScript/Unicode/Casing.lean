import TagScript.Unicode.CaseData

/-! Full case mapping of words, without regard to language. Upper case works
character by character. Lower case does too, except for sigma, whose form
depends on the word around it: at the end of a word it is `ς`. -/
namespace TagScript.Unicode

/-- The image of a code point by the runs and expansions of one direction; a
code point in neither is its own image. -/
def image (runs : List CaseRun) (expansions : List (Nat × List Nat)) (n : Nat) : List Nat :=
  match expansions.lookup n with
  | some letters => letters
  | none => [((runs.findSome? fun run => run.image? n).getD n)]

def upper (c : Char) : List Char :=
  if c.toNat < 128 then [c.toUpper]
  else (image upperRuns upperExpansions c.toNat).map Char.ofNat

def lower (c : Char) : List Char :=
  if c.toNat < 128 then [c.toLower]
  else (image lowerRuns lowerExpansions c.toNat).map Char.ofNat

def isCased (c : Char) : Bool :=
  if c.toNat < 128 then c.isAlpha else inRanges casedRanges c.toNat

def isCaseIgnorable (c : Char) : Bool :=
  if c.toNat < 128 then ['\'', '.', ':', '^', '`'].contains c
  else inRanges caseIgnorableRanges c.toNat

/-- The first character that counts for the form of a sigma is cased. -/
def opensCased (letters : List Char) : Bool :=
  match letters.dropWhile isCaseIgnorable with
  | [] => false
  | c :: _ => isCased c

/-- A sigma ends its word: a cased letter comes before it and none after it.
The letters before it are given nearest first. -/
def endsWord (before after : List Char) : Bool :=
  opensCased before && !opensCased after

def uppercase (word : List Char) : List Char :=
  word.flatMap upper

def lowercaseAfter (before : List Char) : List Char → List Char
  | [] => []
  | c :: after =>
    (if c = 'Σ' then [if endsWord before after then 'ς' else 'σ'] else lower c) ++
      lowercaseAfter (c :: before) after

def lowercase (word : List Char) : List Char :=
  lowercaseAfter [] word

end TagScript.Unicode
