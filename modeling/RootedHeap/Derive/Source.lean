import RootedHeap.Derive.Token
import RootedHeap.Text.Identifier
import RootedHeap.Text.Quoted

/-! # Reading tokens from source text

Blanks and comments separate tokens; a documentation comment stands for a `doc` attribute. Words,
numbers and quoted literals are maximal runs, every other token is one character.
-/

namespace RootedHeap.Derive.Source

open RootedHeap.Text (isIdentStart isIdentContinue inRanges)

/-- The inclusive ranges of blanks, ascending. -/
def blankRanges : List (Nat × Nat) := [
  (0x9, 0xd), (0x20, 0x20), (0x85, 0x85), (0xa0, 0xa0), (0x1680, 0x1680), (0x2000, 0x200a),
  (0x200e, 0x200f), (0x2028, 0x2029), (0x202f, 0x202f), (0x205f, 0x205f), (0x3000, 0x3000)]

def isBlank (c : Char) : Bool := inRanges c.toNat blankRanges

/-- The rest after a block comment of which `depth` levels are open, with the text passed over. -/
def blockComment : Nat → List Char → Option (List Char × List Char)
  | _, [] => none
  | depth, '*' :: '/' :: rest =>
    if depth ≤ 1 then some (['*', '/'], rest)
    else (blockComment (depth - 1) rest).map fun (s, r) => ('*' :: '/' :: s, r)
  | depth, '/' :: '*' :: rest =>
    (blockComment (depth + 1) rest).map fun (s, r) => ('/' :: '*' :: s, r)
  | depth, c :: rest => (blockComment depth rest).map fun (s, r) => (c :: s, r)

/-- The current line and what follows it. -/
def line (cs : List Char) : List Char × List Char := cs.span (· ≠ '\n')

/-- The attribute that a documentation comment stands for; an inner one has an exclamation mark. -/
def docAttribute (inner : Bool) (text : List Char) : List Token :=
  .mark '#' false :: (if inner then [.mark '!' false] else []) ++
    Token.group .bracket
      [.word "doc", .mark '=' false, .literal (Text.debugQuoted (String.ofList text))]

/-- A comment at the start of a text: the tokens it stands for and what follows it. -/
def comment : List Char → Option (List Token × List Char)
  | '/' :: '/' :: '/' :: '/' :: rest => some ([], (line rest).2)
  | '/' :: '/' :: '/' :: rest => some (docAttribute false (line rest).1, (line rest).2)
  | '/' :: '/' :: '!' :: rest => some (docAttribute true (line rest).1, (line rest).2)
  | '/' :: '/' :: rest => some ([], (line rest).2)
  | '/' :: '*' :: '*' :: '/' :: rest => some ([], rest)
  | '/' :: '*' :: '*' :: '*' :: rest => (blockComment 1 ('*' :: '*' :: rest)).map fun (_, r) => ([], r)
  | '/' :: '*' :: '*' :: rest =>
    (blockComment 1 rest).map fun (s, r) => (docAttribute false (s.take (s.length - 2)), r)
  | '/' :: '*' :: '!' :: rest =>
    (blockComment 1 rest).map fun (s, r) => (docAttribute true (s.take (s.length - 2)), r)
  | '/' :: '*' :: rest => (blockComment 1 rest).map fun (_, r) => ([], r)
  | _ => none

def startsComment : List Char → Bool
  | '/' :: '/' :: _ | '/' :: '*' :: _ => true
  | _ => false

/-- Characters of operators. -/
def isMark (c : Char) : Bool := "~!@#$%^&*-=+|;:,<.>/?'".toList.contains c

/-- The word that continues a literal as its suffix, and what follows it. -/
def suffix (cs : List Char) : List Char × List Char :=
  match cs with
  | c :: _ => if isIdentStart c then cs.span isIdentContinue else ([], cs)
  | [] => ([], [])

/-- Up to the closing quote of a text with escapes. -/
def quoted : List Char → Option (List Char × List Char)
  | [] => none
  | '"' :: rest => some (['"'], rest)
  | '\\' :: c :: rest =>
    if "nrt\\'\"0xu\n\r".toList.contains c then
      (quoted rest).map fun (s, r) => ('\\' :: c :: s, r)
    else none
  | c :: rest => (quoted rest).map fun (s, r) => (c :: s, r)

/-- Up to the closing quote of a raw text, which a number of hash marks follows. -/
def rawQuoted (hashes : List Char) : List Char → Option (List Char × List Char)
  | [] => none
  | c :: rest =>
    if c = '"' ∧ hashes.isPrefixOf rest then some ('"' :: hashes, rest.drop hashes.length)
    else (rawQuoted hashes rest).map fun (s, r) => (c :: s, r)

/-- A raw text from its hash marks on. -/
def raw (cs : List Char) : Option (List Char × List Char) :=
  let (hashes, rest) := cs.span (· = '#')
  match rest with
  | '"' :: rest => (rawQuoted hashes rest).map fun (s, r) => (hashes ++ '"' :: s, r)
  | _ => none

/-- A quoted character from after its opening quote on. -/
def character : List Char → Option (List Char × List Char)
  | '\\' :: c :: rest =>
    let (body, rest) := rest.span (· ≠ '\'')
    match rest with
    | '\'' :: rest =>
      if "nrt\\'\"0".toList.contains c ∧ body = [] ∨ (c = 'x' ∨ c = 'u') ∧ body ≠ [] then
        some ('\\' :: c :: body ++ ['\''], rest)
      else none
    | _ => none
  | c :: '\'' :: rest => some ([c, '\''], rest)
  | _ => none

def isDigit (c : Char) : Bool := '0' ≤ c && c ≤ '9'

/-- Digits and the underscores between them. -/
def digits (cs : List Char) : List Char × List Char := cs.span fun c => isDigit c || c = '_'

/-- A fraction, if one follows: a point before another point or a name belongs to no number. -/
def fraction : List Char → List Char × List Char
  | '.' :: rest =>
    match rest with
    | c :: _ =>
      if c = '.' || isIdentStart c then ([], '.' :: rest)
      else ('.' :: (digits rest).1, (digits rest).2)
    | [] => (['.'], [])
  | cs => ([], cs)

/-- The sign of an exponent with its mark, if digits follow. -/
def exponent : List Char → List Char × List Char
  | e :: sign :: d :: rest =>
    if (e = 'e' || e = 'E') && (sign = '+' || sign = '-') && isDigit d then ([e, sign], d :: rest)
    else ([], e :: sign :: d :: rest)
  | cs => ([], cs)

/-- A number, which starts with a digit, up to the end of its suffix. -/
def number (cs : List Char) : List Char × List Char :=
  let (whole, rest) := digits cs
  let (part, rest) := fraction rest
  let (scale, rest) := exponent rest
  let (tail, rest) := rest.span isIdentContinue
  (whole ++ part ++ scale ++ tail, rest)

/-- A word at the start of a text; a raw one must be able to name something. -/
def word : List Char → Option (List Char × List Char)
  | 'r' :: '#' :: c :: rest =>
    if isIdentStart c then
      let (name, after) := (c :: rest).span isIdentContinue
      if "_" = String.ofList name ∨ String.ofList name ∈ pathWords then none
      else some ('r' :: '#' :: name, after)
    else none
  | c :: rest => if isIdentStart c then some ((c :: rest).span isIdentContinue) else none
  | [] => none

/-- A lifetime, from after its quote on. -/
def lifetime (cs : List Char) : Option (List Char × List Char) :=
  match word cs with
  | some (name, rest) =>
    match rest with
    | '\'' :: _ => none
    | '#' :: _ => if ['r', '#'].isPrefixOf cs then some (name, rest) else none
    | _ => some (name, rest)
  | none => none

/-- A literal made of the given characters and the suffix that follows them. -/
def literal (opened : List Char) : Option (List Char × List Char) → Option (Token × List Char)
  | some (body, rest) =>
    let (tail, rest) := suffix rest
    some (.literal (String.ofList (opened ++ body ++ tail)), rest)
  | none => none

/-- The token at the start of a text that starts with no blank, comment or delimiter. -/
def leaf : List Char → Option (Token × List Char)
  | '"' :: rest => literal ['"'] (quoted rest)
  | 'b' :: '"' :: rest => literal ['b', '"'] (quoted rest)
  | 'c' :: '"' :: rest => literal ['c', '"'] (quoted rest)
  | 'b' :: '\'' :: rest => literal ['b', '\''] (character rest)
  | 'r' :: '"' :: rest => literal ['r'] (raw ('"' :: rest))
  | 'b' :: 'r' :: '"' :: rest => literal ['b', 'r'] (raw ('"' :: rest))
  | 'c' :: 'r' :: '"' :: rest => literal ['c', 'r'] (raw ('"' :: rest))
  | 'r' :: '#' :: '"' :: rest => literal ['r'] (raw ('#' :: '"' :: rest))
  | 'r' :: '#' :: '#' :: rest => literal ['r'] (raw ('#' :: '#' :: rest))
  | 'b' :: 'r' :: '#' :: rest => literal ['b', 'r'] (raw ('#' :: rest))
  | 'c' :: 'r' :: '#' :: rest => literal ['c', 'r'] (raw ('#' :: rest))
  | '\'' :: rest =>
    match character rest with
    | some body => literal ['\''] (some body)
    | none => (lifetime rest).map fun (name, r) => (.lifetime (String.ofList name), r)
  | c :: rest =>
    if isDigit c then
      let (s, r) := number (c :: rest)
      some (.literal (String.ofList s), r)
    else if isMark c then
      let joint := (rest.head?.any isMark) && !startsComment rest
      some (.mark c joint, rest)
    else (word (c :: rest)).map fun (s, r) => (.word (String.ofList s), r)
  | [] => none

/-- The tokens that the start of a text stands for, none for a blank or a comment, and what follows
them. -/
def next : List Char → Option (List Token × List Char)
  | [] => none
  | '(' :: rest => some ([.opening .paren], rest)
  | '[' :: rest => some ([.opening .bracket], rest)
  | '\x7b' :: rest => some ([.opening .brace], rest)
  | ')' :: rest => some ([.closing .paren], rest)
  | ']' :: rest => some ([.closing .bracket], rest)
  | '\x7d' :: rest => some ([.closing .brace], rest)
  | c :: rest =>
    if isBlank c then some ([], rest)
    else if startsComment (c :: rest) then comment (c :: rest)
    else (leaf (c :: rest)).map fun (t, r) => ([t], r)

/-- All tokens of a text. -/
def scan (cs : List Char) : Option (List Token) :=
  match cs with
  | [] => some []
  | c :: cs =>
    match next (c :: cs) with
    | some (ts, rest) =>
      if rest.length < (c :: cs).length then (scan rest).map (ts ++ ·) else none
    | none => none
termination_by cs.length
decreasing_by assumption

/-- The tokens of a text whose delimiters match. -/
def tokens? (s : String) : Option (List Token) :=
  (scan s.toList).bind fun ts => if Token.balanced [] ts then some ts else none

end RootedHeap.Derive.Source
