import RootedHeap.Derive.Expansion

/-! # Tokens of an expansion

How an expansion is written. Names of the library that the expansion refers to are absolute, so they
do not depend on what is in scope at the definition.
-/

namespace RootedHeap.Derive

/-- The absolute path of something in the library. -/
def library (names : List String) : List Token :=
  ("gcptr" :: names).flatMap fun w => Token.pathSep ++ [.word w]

/-- Items with commas between them. -/
def commaSeparated : List (List Token) → List Token
  | [] => []
  | [item] => item
  | item :: rest => item ++ Token.comma :: commaSeparated rest

/-- A name with its type. -/
def typed (name : String) (type : List Token) : List Token :=
  .word name :: .mark ':' false :: type

def traverse : List Token := library ["Traverse"]

namespace Half

def name : Half → String
  | connect => "connect"
  | disconnect => "disconnect"

/-- The parameters after the receiver, with their types. -/
def params : Half → List (String × List Token)
  | connect => [root, pass]
  | disconnect => [("is_root", [.word "bool"]), root, pass]
where
  root := ("root", library ["RootId"])
  pass := ("pass", .mark '&' false :: .word "mut" :: library ["Pass"])

end Half

/-- The name of a binding. -/
def bindingName (index : Nat) : String := "__gc_" ++ Nat.repr index

def Access.tokens : Access → List Token
  | field name => [.mark '&' false, .word "self", .mark '.' false, .word name]
  | position index => [.mark '&' false, .word "self", .mark '.' false, .literal (Nat.repr index)]
  | binding index => [.word (bindingName index)]

def Call.tokens (c : Call) : List Token :=
  library ["Traverse", c.half.name] ++
    Token.group .paren
      (commaSeparated (c.target.tokens :: c.half.params.map fun p => [.word p.1])) ++
    [.mark ';' false]

/-- The fields a pattern binds; a pattern of named fields ends with the rest it leaves out. -/
def Pattern.tokens : Pattern → List Token
  | named bindings => Token.group .brace
    (bindings.flatMap (fun b => typed b.1 [.word (bindingName b.2)] ++ [Token.comma]) ++
      Token.operator ['.', '.'])
  | tuple places => Token.group .paren
    (commaSeparated (places.map fun
      | some index => [.word (bindingName index)]
      | none => [.word "_"]))
  | unit => []

def Arm.tokens (a : Arm) : List Token :=
  .word "Self" :: Token.pathSep ++ .word a.variant :: a.pattern.tokens ++
    Token.operator ['=', '>'] ++ Token.group .brace (a.calls.flatMap (·.tokens))

/-- A choice without arms is on the value itself, which cannot exist. -/
def Body.tokens : Body → List Token
  | calls cs => cs.flatMap (·.tokens)
  | choice [] => .word "match" :: .mark '*' false :: .word "self" :: Token.group .brace []
  | choice arms =>
    .word "match" :: .word "self" :: Token.group .brace (arms.flatMap (·.tokens))

/-- The function for one half. -/
def Half.function (half : Half) (body : Body) : List Token :=
  .mark '#' false ::
    Token.group .bracket (.word "allow" :: Token.group .paren [.word "unused_variables"]) ++
    .word "fn" :: .word half.name ::
    Token.group .paren (commaSeparated
      ([.mark '&' false, .word "self"] :: half.params.map fun p => typed p.1 p.2)) ++
    Token.group .brace body.tokens

namespace Expansion

def tokens (e : Expansion) : List Token :=
  .word "impl" :: e.generics.declared traverse ++ traverse ++ .word "for" :: .word e.name ::
    e.generics.applied ++ e.generics.clause ++
    Token.group .brace (Half.connect.function e.connect ++ Half.disconnect.function e.disconnect)

/-- The printed form of an expansion. -/
def print (e : Expansion) : String := Token.print e.tokens

end Expansion

end RootedHeap.Derive
