import RootedHeap.Derive.Attribute

/-! # Generic parameters

The parameters of a definition and the predicates on them. The expansion states them twice: in full,
without defaults and with every type parameter bounded by the trait, and by name only. Both times the
lifetimes come first.
-/

namespace RootedHeap.Derive

/-- A generic parameter, without its default. -/
inductive Param where
  | lifetime (name : String) (bounds : List Token)
  | type (name : String) (bounds : List Token)
  | const (name : String) (type : List Token)
  deriving DecidableEq, Repr

namespace Param

def isLifetime : Param → Bool
  | lifetime .. => true
  | _ => false

def name : Param → List Token
  | lifetime n _ => [.lifetime n]
  | type n _ | const n _ => [.word n]

/-- One more bound at the end of a sum, which may end with a sign of its own. -/
def addBound (bounds bound : List Token) : List Token :=
  if bounds.isEmpty || bounds.getLast? = some (.mark '+' false) then bounds ++ bound
  else bounds ++ .mark '+' false :: bound

/-- A type parameter with one more bound; other parameters stay as they are. -/
def bounded (bound : List Token) : Param → Param
  | type n bounds => type n (addBound bounds bound)
  | p => p

/-- The parameter with its bounds or its type. -/
def tokens : Param → List Token
  | lifetime n bounds => .lifetime n :: if bounds.isEmpty then [] else .mark ':' false :: bounds
  | type n bounds => .word n :: if bounds.isEmpty then [] else .mark ':' false :: bounds
  | const n ty => .word "const" :: .word n :: .mark ':' false :: ty

end Param

/-- The parameters with the attributes in front of them and whether a comma follows, and the
predicates as they are printed. -/
structure Generics where
  params : List ((List Attribute × Param) × Bool) := []
  predicates : List Token := []
  deriving DecidableEq, Repr

namespace Generics

/-- A parameter list in angle brackets, nothing if it is empty. -/
def angled (g : Generics) (form : List Attribute → Param → List Token) : List Token :=
  if g.params.isEmpty then []
  else .mark '<' false ::
    Grammar.lifetimesFirst (g.params.map fun ((as, p), more) => (p.isLifetime, form as p, more)) ++
    [.mark '>' false]

/-- The parameters in full, each type parameter with one more bound. -/
def declared (g : Generics) (bound : List Token) : List Token :=
  g.angled fun as p => as.flatMap (·.tokens) ++ (p.bounded bound).tokens

/-- The parameters by name. -/
def applied (g : Generics) : List Token := g.angled fun _ p => p.name

/-- The clause of predicates, nothing if there are none. -/
def clause (g : Generics) : List Token :=
  if g.predicates.isEmpty then [] else .word "where" :: g.predicates

end Generics

/-! ## Reading parameters -/

namespace Grammar

/-- The word or name that a reader took. -/
def nameOf (r : Written) : Reader String := do
  match ← r with
  | [.word s] | [.lifetime s] => return s
  | _ => failure

def lifetimeGeneric : Reader Param := do
  let name ← nameOf lifetime
  let colon ← optional (atMark ':') (mark ':')
  let outlived ← if colon.isEmpty then pure []
    else list (fun ts => atMark ',' ts || atMark '>' ts) '+' lifetime
  return .lifetime name outlived

def typeGeneric (l : Level) : Reader Param := do
  let name ← nameOf ident
  let colon ← optional (atMark ':') (mark ':')
  let bounds ← if colon.isEmpty then pure []
    else l.bounds fun ts => atMark ',' ts || atMark '>' ts || atMark '=' ts
  let _ ← optional (atMark '=') do
    return (← mark '=') ++ (← l.type true)
  return .type name bounds

def constGeneric (l : Level) : Reader Param := do
  let _ ← keyword "const"
  let name ← nameOf ident
  let _ ← mark ':'
  let ty ← l.type true
  let _ ← optional (atMark '=') do
    return (← mark '=') ++ (← Level.constant)
  return .const name ty

def generic (l : Level) : Reader (List Attribute × Param) := do
  let before ← attributes l
  let ts ← get
  let p ← if atLifetime ts then lifetimeGeneric
    else if atWord "const" ts then constGeneric l
    else if atWord "_" ts then do
      let _ ← keyword "_"
      pure (.type "_" [])
    else typeGeneric l
  return (before, p)

/-- The parameter list of a definition, if it has one. -/
def generics (l : Level) : Reader (List ((List Attribute × Param) × Bool)) := do
  if ← next (atMark '<') then
    let _ ← mark '<'
    let params ← separated (atMark '>') ',' (generic l)
    let _ ← mark '>'
    return params
  return []

/-- Where a list of predicates or of their bounds ends. -/
def atClauseEnd (ts : List Token) : Bool :=
  ts.isEmpty || atOpening .brace ts || atMark ',' ts || atMark ';' ts || atColon ts || atMark '=' ts

/-- One predicate: what a lifetime outlives, or what bounds a type. -/
def predicate (l : Level) : Written := do
  if ← next fun ts => atLifetime ts && atMark ':' (ts.drop 1) then
    let name ← lifetime
    let colon ← mark ':'
    return name ++ colon ++ (← list atClauseEnd '+' lifetime)
  let binder ← optional (atWord "for") Level.binder
  let ty ← l.type true
  let colon ← mark ':'
  return binder ++ ty ++ colon ++ (← l.bounds atClauseEnd)

/-- The predicates of a definition, if it has a clause of them. -/
def clause (l : Level) : Written := do
  if ← next (atWord "where") then
    let _ ← keyword "where"
    return ← list atClauseEnd ',' (predicate l)
  return []

end Grammar

end RootedHeap.Derive
