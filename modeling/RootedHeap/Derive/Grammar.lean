import RootedHeap.Derive.Token

/-! # Paths, types, bounds and expressions

Readers for the parts of a definition that the expansion only passes on. A reader takes tokens off
the front of a list and gives back how they are printed: operators in their plain form, and the
lifetimes of an argument list before its other arguments. Nesting is bounded by a number of levels,
each of which reads what is inside with the level below.
-/

namespace RootedHeap.Derive

/-- Takes tokens off the front of a list, or refuses. -/
abbrev Reader := StateT (List Token) Option

namespace Grammar

/-- What a reader leaves of a token list. -/
abbrev Written := Reader (List Token)

/-! ## What comes next -/

def atMark (c : Char) : List Token → Bool
  | .mark d _ :: _ => c = d
  | _ => false

def atWord (w : String) : List Token → Bool
  | .word v :: _ => w = v
  | _ => false

def atLifetime : List Token → Bool
  | .lifetime _ :: _ => true
  | _ => false

def atOpening (d : Delimiter) : List Token → Bool
  | .opening e :: _ => d = e
  | _ => false

def atOperator : List Char → List Token → Bool
  | [], _ => true
  | [c], ts => atMark c ts
  | c :: cs, .mark d joint :: ts => c = d && joint && atOperator cs ts
  | _, _ => false

def atPathSep : List Token → Bool := atOperator [':', ':']

/-- A colon that does not start a path separator. -/
def atColon (ts : List Token) : Bool := atMark ':' ts && !atPathSep ts

/-- A word that can name something. -/
def atIdent : List Token → Bool
  | .word w :: _ => w ∉ reserved
  | _ => false

def isNumber (text : String) : Bool := text.toList.head?.any fun c => '0' ≤ c && c ≤ '9'

/-- A literal: a truth value, a quoted text or character, or a number with or without a sign. -/
def atLiteral : List Token → Bool
  | .literal _ :: _ => true
  | .word w :: _ => w = "true" || w = "false"
  | .mark '-' _ :: .literal s :: _ => isNumber s
  | _ => false

def next (test : List Token → Bool) : Reader Bool := return test (← get)

/-! ## Single tokens -/

def token (accept : Token → Bool) : Written := fun ts =>
  match ts with
  | t :: rest => if accept t then some ([t], rest) else none
  | [] => none

def mark (c : Char) : Written := fun ts =>
  match ts with
  | .mark d _ :: rest => if c = d then some ([.mark c false], rest) else none
  | _ => none

def operator (cs : List Char) : Written := fun ts =>
  if atOperator cs ts then some (Token.operator cs, ts.drop cs.length) else none

def pathSep : Written := operator [':', ':']

def keyword (w : String) : Written := token (· = .word w)

def anyWord : Written := token fun
  | .word _ => true
  | _ => false

def ident : Written := fun ts => if atIdent ts then anyWord ts else none

def lifetime : Written := token fun
  | .lifetime _ => true
  | _ => false

def literal : Written := fun ts =>
  match ts with
  | .mark '-' _ :: .literal s :: rest =>
    if isNumber s then some ([.mark '-' false, .literal s], rest) else none
  | t :: rest => if atLiteral (t :: rest) then some ([t], rest) else none
  | [] => none

/-! ## Sequences -/

/-- Read only where a test holds. -/
def optional (test : List Token → Bool) (r : Written) : Written := do
  if ← next test then r else return []

/-- Between delimiters. -/
def group (d : Delimiter) (content : Written) : Written := do
  let opened ← token (· = .opening d)
  let inner ← content
  let closed ← token (· = .closing d)
  return opened ++ inner ++ closed

/-- Up to the delimiter that closes the innermost of the `depth` levels open. -/
def skipTo : Nat → List Token → Option (List Token × List Token)
  | _, [] => none
  | depth, .opening d :: rest => (skipTo (depth + 1) rest).map fun (s, r) => (.opening d :: s, r)
  | 0, .closing d :: rest => some ([], .closing d :: rest)
  | depth + 1, .closing d :: rest => (skipTo depth rest).map fun (s, r) => (.closing d :: s, r)
  | depth, t :: rest => (skipTo depth rest).map fun (s, r) => (t :: s, r)

/-- Delimiters around any tokens. -/
def anyGroup (d : Delimiter) : Written := group d (skipTo 0)

/-- Some delimiters around any tokens. -/
def someGroup : Written := fun ts =>
  match ts with
  | .opening d :: _ => anyGroup d ts
  | _ => none

/-- Items up to a place where `stop` holds, each but the last followed by a separator; the flag says
whether one follows. At most `limit` items are read. -/
def entries {α : Type} (stop : List Token → Bool) (sep : Char) (item : Reader α) :
    Nat → Reader (List (α × Bool))
  | 0 => failure
  | limit + 1 => do
    if ← next stop then return []
    let a ← item
    if ← next (atMark sep) then
      let _ ← mark sep
      let rest ← entries stop sep item limit
      return (a, true) :: rest
    return [(a, false)]

/-- Separated items, as many as the tokens left can hold. -/
def separated {α : Type} (stop : List Token → Bool) (sep : Char) (item : Reader α) :
    Reader (List (α × Bool)) := do
  entries stop sep item ((← get).length + 1)

/-- How separated items are printed. -/
def joined (sep : Char) (items : List (List Token × Bool)) : List Token :=
  items.flatMap fun (ts, more) => if more then ts ++ [.mark sep false] else ts

/-- Separated items in the order they are written. -/
def list (stop : List Token → Bool) (sep : Char) (item : Written) : Written :=
  return joined sep (← separated stop sep item)

/-- Lifetimes before all else; where the last of them had no comma of its own, one is put in. -/
def lifetimesFirst (items : List (Bool × List Token × Bool)) : List Token :=
  let front := (items.filter (·.1)).map (·.2)
  let back := (items.filter (!·.1)).map (·.2)
  let split := !back.isEmpty && front.getLast?.any (!·.2)
  joined ',' front ++ (if split then [Token.comma] else []) ++ joined ',' back

def atClosing : List Token → Bool
  | .closing _ :: _ => true
  | _ => false

/-! ## Levels -/

/-- Readers for what is nested. The flag of `type` says whether it may be a sum of bounds. -/
structure Level where
  type : Bool → Written
  bound : Written
  expr : Written

namespace Level

variable (l : Level)

/-- The value of a constant parameter. -/
def constant : Written := do
  if ← next atLiteral then literal
  else if ← next atIdent then ident
  else anyGroup .brace

/-- Bounds joined by `+`, up to a place where `stop` holds. -/
def bounds (stop : List Token → Bool) : Written := list stop '+' l.bound

/-- What can go on a sum of bounds after a `+`. -/
def atBound (ts : List Token) : Bool :=
  (match ts with
    | .word _ :: _ => true
    | _ => false) ||
  atPathSep ts || atMark '?' ts || atMark '~' ts || atLifetime ts || atOpening .paren ts

/-- Further bounds after a sign. -/
def summands (plus : Bool) : Reader (List (List Token)) := do
  if plus && (← next (atMark '+')) then
    let sign ← mark '+'
    let rest ← separated (!atBound ·) '+' l.bound
    return sign :: rest.map fun item => joined '+' [item]
  return []

/-- Bounds of which at least one is a trait, more than one only where a sum is allowed. -/
def sum (plus : Bool) : Written := do
  let first ← l.bound
  let all := first :: (← l.summands plus)
  if all.any fun item => !atLifetime item && !atMark '+' item then return all.flatten
  failure

/-- A lifetime with the lifetimes it outlives. -/
def lifetimeParam : Written := do
  let name ← lifetime
  if ← next (atMark ':') then
    let colon ← mark ':'
    let outlived ← list (fun ts => atMark ',' ts || atMark '>' ts) '+' lifetime
    return if outlived.isEmpty then name else name ++ colon ++ outlived
  return name

/-- The lifetimes a bound or a function type is generic in. -/
def binder : Written := do
  let start ← keyword "for"
  let low ← mark '<'
  let names ← list (atMark '>') ',' lifetimeParam
  let high ← mark '>'
  return start ++ low ++ names ++ high

/-- One argument of a generic path: a lifetime, a constant, a type, or a constraint on an associated
type. The flag marks lifetimes. -/
def argument (segment : Written) : Reader (Bool × List Token) := do
  let ts ← get
  if atLifetime ts && !atMark '+' (ts.drop 1) then return (true, ← lifetime)
  if atLiteral ts || atOpening .brace ts then return (false, ← constant)
  match segment ts with
  | some (name, rest) =>
    if atMark '=' rest then
      set rest
      let sign ← mark '='
      let value ← if ← next (fun ts => atLiteral ts || atOpening .brace ts) then constant
        else l.type true
      return (false, name ++ sign ++ value)
    if atColon rest then
      set rest
      let sign ← mark ':'
      let limits ← l.bounds fun ts => atMark ',' ts || atMark '>' ts
      return (false, name ++ sign ++ limits)
    return (false, ← l.type true)
  | none => return (false, ← l.type true)

/-- The arguments of a generic path, given how a path segment is read inside them. -/
def argumentsWith (segment : Written) : Written := do
  let lead ← optional atPathSep pathSep
  let low ← mark '<'
  let items ← separated (atMark '>') ',' (l.argument segment)
  let high ← mark '>'
  return lead ++ low ++ lifetimesFirst (items.map fun ((b, ts), more) => (b, ts, more)) ++ high

/-- Where generic arguments start: inside an expression only after a path separator. -/
def atArguments (inExpr : Bool) (ts : List Token) : Bool :=
  !inExpr && atMark '<' ts && !atOperator ['<', '='] ts || atPathSep ts && atMark '<' (ts.drop 2)

/-- A segment of a path, given how its arguments are read. -/
def segmentWith (inExpr : Bool) (arguments : Written) : Written := do
  if ← next fun ts => ["super", "self", "crate", "try"].any (atWord · ts) then anyWord
  else
    let name ← if ← next (atWord "Self") then anyWord else ident
    let args ← optional (atArguments inExpr) arguments
    return name ++ args

/-- A segment whose arguments may in turn start with segments, to a bounded depth. -/
def segmentAt (inExpr : Bool) : Nat → Written
  | 0 => failure
  | depth + 1 => segmentWith inExpr (l.argumentsWith (segmentAt false depth))

def segment (inExpr : Bool) : Written := do
  l.segmentAt inExpr ((← get).length + 1)

/-- Further segments; a separator before a parenthesis starts no segment. -/
def segments (inExpr : Bool) : Nat → Written
  | 0 => failure
  | limit + 1 => do
    if ← next fun ts => atPathSep ts && !atOpening .paren (ts.drop 2) then
      let sep ← pathSep
      let first ← l.segment inExpr
      let rest ← segments inExpr limit
      return sep ++ first ++ rest
    return []

def path (inExpr : Bool) : Written := do
  let lead ← optional atPathSep pathSep
  let first ← l.segment inExpr
  let rest ← l.segments inExpr ((← get).length + 1)
  return lead ++ first ++ rest

/-- The result type of a function, if one is given. -/
def result : Written :=
  optional (atOperator ['-', '>']) do
    let arrow ← operator ['-', '>']
    let type ← l.type false
    return arrow ++ type

/-- The parameter types and the result of a function trait; a separator before them is left out. -/
def signature : Written := do
  let _ ← optional atPathSep pathSep
  let params ← group .paren (list atClosing ',' (l.type true))
  let type ← l.result
  return params ++ type

/-- A path that may name a function trait; generic arguments and a signature exclude each other. -/
def traitPath : Written := do
  let p ← l.path false
  let plain := p.getLast?.any fun
    | .word _ => true
    | _ => false
  let args ← optional (fun ts => plain &&
    (atOpening .paren ts || atPathSep ts && atOpening .paren (ts.drop 2))) l.signature
  return p ++ args

/-- A trait, possibly generic in lifetimes or relaxed by a question mark. -/
def trait : Written := do
  let conditional ← optional (fun ts => atMark '~' ts && atWord "const" (ts.drop 1)) do
    return (← mark '~') ++ (← keyword "const")
  let early ← optional (atWord "for") binder
  let relaxed ← optional (atMark '?') (mark '?')
  let late ← optional (fun ts => early.isEmpty && atWord "for" ts) binder
  let p ← l.traitPath
  return conditional ++ early ++ relaxed ++ late ++ p

/-- A lifetime, or a trait with or without parentheses. -/
def boundHere : Written := do
  if ← next atLifetime then lifetime
  else if ← next (atOpening .paren) then group .paren l.trait
  else l.trait

/-- A path that starts at a type: `<T as Trait>::Name`. -/
def qualified : Written := do
  let low ← mark '<'
  let type ← l.type true
  let cast ← optional (atWord "as") do
    return (← keyword "as") ++ (← l.path false)
  let high ← mark '>'
  let sep ← pathSep
  let first ← l.segment false
  let rest ← l.segments false ((← get).length + 1)
  return low ++ type ++ cast ++ high ++ sep ++ first ++ rest

/-- A path as a type: a call of a code generator, a sum of traits, or the type it names. -/
def pathType (plus : Bool) (lifetimes : List Token) : Written := do
  let p ← l.traitPath
  if ← next fun ts => atMark '!' ts && !atOperator ['!', '='] ts then
    let bang ← mark '!'
    let args ← someGroup
    return lifetimes ++ p ++ bang ++ args
  let more ← l.summands plus
  return lifetimes ++ p ++ more.flatten

/-- One parameter of a function type, named or not. -/
def param : Written := do
  let name ← optional (fun ts => (atIdent ts || atWord "_" ts || atWord "self" ts) &&
      atColon (ts.drop 1)) do
    return (← anyWord) ++ (← mark ':')
  if ← next (atOperator ['.', '.', '.']) then
    return name ++ (← operator ['.', '.', '.'])
  return name ++ (← l.type true)

def functionType (lifetimes : List Token) : Written := do
  let danger ← optional (atWord "unsafe") (keyword "unsafe")
  let abi ← optional (atWord "extern") do
    let start ← keyword "extern"
    let name ← optional (fun ts => match ts with
      | .literal s :: _ => !isNumber s
      | _ => false) literal
    return start ++ name
  let start ← keyword "fn"
  let params ← group .paren (list atClosing ',' l.param)
  let type ← l.result
  return lifetimes ++ danger ++ abi ++ start ++ params ++ type

/-- A type in parentheses, a tuple, or a sum that starts with a bound in parentheses. -/
def parenType (plus : Bool) : Written := do
  let inside := (← get).drop 1
  let inner ← group .paren (list atClosing ',' (if atMark '?' inside then l.bound else l.type true))
  let summand := atIdent inside || atPathSep inside || atMark '?' inside
  let more ← l.summands (plus && summand)
  return inner ++ more.flatten

/-- Any type. -/
def typeHere (plus : Bool) : Written := do
  let ts ← get
  match ts with
  | .opening .paren :: _ => l.parenType plus
  | .opening .bracket :: _ => group .bracket do
    let item ← l.type true
    let length ← optional (atMark ';') do
      return (← mark ';') ++ (← l.expr)
    return item ++ length
  | .mark '*' _ :: _ => do
    let star ← mark '*'
    let kind ← if ← next (atWord "const") then keyword "const" else keyword "mut"
    return star ++ kind ++ (← l.type false)
  | .mark '&' _ :: _ => do
    let sign ← mark '&'
    let life ← optional atLifetime lifetime
    let mutable ← optional (atWord "mut") (keyword "mut")
    return sign ++ life ++ mutable ++ (← l.type false)
  | .mark '!' _ :: _ => mark '!'
  | .mark '<' _ :: _ => l.qualified
  | .mark ':' _ :: _ => l.pathType plus []
  | .lifetime _ :: _ => l.sum plus
  | .word "for" :: _ => do
    let lifetimes ← binder
    if ← next fun ts => ["fn", "unsafe", "extern"].any (atWord · ts) then l.functionType lifetimes
    else l.pathType plus lifetimes
  | .word "dyn" :: _ => return (← keyword "dyn") ++ (← l.sum plus)
  | .word "impl" :: _ => return (← keyword "impl") ++ (← l.sum plus)
  | .word "_" :: _ => keyword "_"
  | .word "fn" :: _ | .word "unsafe" :: _ | .word "extern" :: _ => l.functionType []
  | .word _ :: _ => l.pathType plus []
  | _ => failure

/-! ## Expressions -/

/-- The operators between operands, longer ones before those they start with. -/
def infixes : List (List Char) :=
  ["..=", "<<", ">>", "&&", "||", "==", "!=", "<=", ">=", "..", "+", "-", "*", "/", "%", "^", "&",
    "|", "<", ">"].map (·.toList)

/-- A literal, a group or a path. -/
def atom : Written := do
  let ts ← get
  if atLiteral ts then literal
  else if atOpening .paren ts then group .paren (list atClosing ',' l.expr)
  else if atOpening .bracket ts then group .bracket (list atClosing ',' do
    let item ← l.expr
    let count ← optional (atMark ';') do
      return (← mark ';') ++ (← l.expr)
    return item ++ count)
  else if atOpening .brace ts then anyGroup .brace
  else
    let p ← if atMark '<' ts then l.qualified else l.path true
    let call ← optional (fun ts => atMark '!' ts && !atOperator ['!', '='] ts) do
      return (← mark '!') ++ (← someGroup)
    return p ++ call

/-- What may follow an operand: a call, an index, a member, a cast or a question mark. -/
def trailer : Written := do
  let ts ← get
  match ts with
  | .opening .paren :: _ => group .paren (list atClosing ',' l.expr)
  | .opening .bracket :: _ => group .bracket l.expr
  | .mark '?' _ :: _ => mark '?'
  | .word "as" :: _ => return (← keyword "as") ++ (← l.type false)
  | .mark '.' _ :: _ => do
    let dot ← mark '.'
    let member ← if ← next atLiteral then literal else l.segment true
    return dot ++ member
  | _ => failure

/-- Readings of a reader one after the other, as many as there are up to a limit. -/
def repeated (r : Written) : Nat → Written
  | 0 => return []
  | limit + 1 => fun ts =>
    match r ts with
    | some (first, rest) => (repeated r limit rest).map fun (s, left) => (first ++ s, left)
    | none => some ([], ts)

/-- A sign in front of an operand. -/
def sign : Written := do
  let ts ← get
  if atLiteral ts then failure
  else if atMark '-' ts then mark '-'
  else if atMark '!' ts then mark '!'
  else if atMark '*' ts then mark '*'
  else return (← mark '&') ++ (← optional (atWord "mut") (keyword "mut"))

def operand : Written := do
  let limit := (← get).length
  let signs ← repeated sign limit
  let base ← l.atom
  let rest ← repeated l.trailer limit
  return signs ++ base ++ rest

/-- An operator with the operand that follows it. -/
def further : Written := do
  let ts ← get
  match infixes.find? (atOperator · ts) with
  | some cs => return (← operator cs) ++ (← l.operand)
  | none => failure

def exprHere : Written := do
  let first ← l.operand
  let rest ← repeated l.further (← get).length
  return first ++ rest

/-- The readers of a given depth of nesting. -/
def ofDepth : Nat → Level
  | 0 => ⟨fun _ => failure, failure, failure⟩
  | depth + 1 =>
    let below := ofDepth depth
    ⟨below.typeHere, below.boundHere, below.exprHere⟩

end Level

end Grammar

end RootedHeap.Derive
