/-! # Tokens of item definitions

A definition is a list of tokens in which delimiters stand in matching pairs. An operator is written
with one mark for each of its characters; all marks but the last are joint, that is, glued to the
one that follows. Printing puts one space between tokens, except after a joint mark and inside
parentheses and brackets.
-/

namespace RootedHeap.Derive

inductive Delimiter where
  | paren
  | bracket
  | brace
  deriving DecidableEq, Repr

inductive Token where
  /-- An identifier or a keyword; a raw identifier keeps its `r#`. -/
  | word (text : String)
  /-- The name of a lifetime, without its quote. -/
  | lifetime (name : String)
  | literal (text : String)
  /-- One character of an operator. -/
  | mark (char : Char) (joint : Bool)
  | opening (d : Delimiter)
  | closing (d : Delimiter)
  deriving DecidableEq, Repr

namespace Token

def text : Token → String
  | word s | literal s => s
  | lifetime s => "'" ++ s
  | mark c _ => String.ofList [c]
  | opening .paren => "("
  | opening .bracket => "["
  | opening .brace => "\x7b"
  | closing .paren => ")"
  | closing .bracket => "]"
  | closing .brace => "\x7d"

/-- Whether no space stands between a token and the one that follows it. -/
def glued : Token → Token → Bool
  | _, closing .paren | _, closing .bracket => true
  | _, closing .brace => false
  | opening .paren, _ | opening .bracket, _ => true
  | mark _ joint, _ => joint
  | _, _ => false

/-- The printed form of a token list. -/
def print : List Token → String
  | [] => ""
  | [t] => t.text
  | a :: b :: rest => a.text ++ (if glued a b then "" else " ") ++ print (b :: rest)

/-- The marks of an operator. -/
def operator : List Char → List Token
  | [] => []
  | [c] => [.mark c false]
  | c :: rest => .mark c true :: operator rest

/-- A token list between delimiters. -/
def group (d : Delimiter) (content : List Token) : List Token :=
  opening d :: content ++ [closing d]

def comma : Token := .mark ',' false

/-- The separator of path segments. -/
def pathSep : List Token := operator [':', ':']

/-- Whether every delimiter meets its partner, where `pending` are still open. -/
def balanced : List Delimiter → List Token → Bool
  | pending, [] => pending.isEmpty
  | pending, opening d :: rest => balanced (d :: pending) rest
  | d :: pending, closing e :: rest => d = e && balanced pending rest
  | [], closing _ :: _ => false
  | pending, _ :: rest => balanced pending rest

end Token

/-- Words that name nothing unless they are written raw. -/
def reserved : List String := [
  "_", "abstract", "as", "async", "await", "become", "box", "break", "const", "continue", "crate",
  "do", "dyn", "else", "enum", "extern", "false", "final", "fn", "for", "if", "impl", "in", "let",
  "loop", "macro", "match", "mod", "move", "mut", "override", "priv", "pub", "ref", "return",
  "Self", "self", "static", "struct", "super", "trait", "true", "try", "type", "typeof", "unsafe",
  "unsized", "use", "virtual", "where", "while", "yield"]

/-- Reserved words that may stand for a segment of a path. -/
def pathWords : List String := ["super", "self", "Self", "crate"]

end RootedHeap.Derive
