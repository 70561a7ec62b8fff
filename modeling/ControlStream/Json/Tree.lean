import ControlStream.Json.Token

/-!
# JSON trees

The second step of reading JSON: tokens are put together to a tree. A text that is not JSON gives a
tree too, one that has the fault in the place where it was found. So what a tree is read as decides
whether something else is wrong before the fault is met.

## Main definitions

* `Tree`: a value, or what there is of it.
* `Builder`, `Builder.step`: put tokens together, with the open arrays and objects on a stack.
* `JsonText.read`: the tree of a text, and whether something follows it.
-/

namespace ControlStream

/-- A JSON value, or what there is of it in a text that is not JSON. -/
inductive Tree
  | absent (f : Fault)
  | scalar (s : Scalar)
  /-- An array, and the fault that ends it if it is not closed. -/
  | list (items : List Tree) (fault : Option Fault)
  /-- An object, and the fault that ends it if it is not closed. -/
  | object (members : List (Quoted × Tree)) (fault : Option Fault)
  deriving Repr

/-- An array or object that is not closed yet, with what it has so far, latest first. -/
inductive Frame
  | list (items : List Tree)
  /-- An object between members. -/
  | object (members : List (Quoted × Tree))
  /-- An object after the name of a member. -/
  | member (members : List (Quoted × Tree)) (name : Quoted)
  deriving Repr

namespace Frame

/-- The innermost open array or object, ended by a fault or, without one, closed. -/
def close (frame : Frame) (fault : Option Fault) : Tree :=
  match frame with
  | list items => .list items.reverse fault
  | object members => .object members.reverse fault
  | member members name =>
    let value : Tree := .absent (fault.getD .expectedColon)
    .object ((name, value) :: members).reverse none

/-- An open array or object around a value in which the text went wrong. -/
def wrap (frame : Frame) (inner : Tree) : Tree :=
  match frame with
  | list items => .list (inner :: items).reverse none
  | object members => .object members.reverse none
  | member members name => .object ((name, inner) :: members).reverse none

end Frame

/-- What may follow. -/
inductive Builder.Expect
  | value
  /-- An item, or the end of an array without items. -/
  | firstItem
  /-- An item, after a comma. -/
  | nextItem
  /-- A name, or the end of an object without members. -/
  | firstName
  /-- A name, after a comma. -/
  | nextName
  | colon
  /-- A comma or the end of the array or object. -/
  | separator
  deriving DecidableEq, Repr

inductive Builder
  /-- The tree is not complete: the open arrays and objects, innermost first. -/
  | building (expect : Builder.Expect) (stack : List Frame)
  /-- The tree is complete. There may be more tokens after it. -/
  | built (tree : Tree) (trailing : Bool)

namespace Builder

def start : Builder := building .value []

def spoil (tree : Tree) (stack : List Frame) : Builder :=
  built (stack.foldl (fun inner frame => frame.wrap inner) tree) false

def complete (tree : Tree) : List Frame → Builder
  | [] => built tree false
  | .list items :: stack => building .separator (.list (tree :: items) :: stack)
  | .object members :: stack => building .separator (.object members :: stack)
  | .member members name :: stack =>
    building .separator (.object ((name, tree) :: members) :: stack)

def fail (fault : Fault) : List Frame → Builder
  | [] => built (.absent fault) false
  | frame :: stack => spoil (frame.close (some fault)) stack

def close : List Frame → Builder
  | [] => built (.absent .expectedValue) false
  | frame :: stack => complete (frame.close none) stack

def value (stack : List Frame) : Token → Builder
  | .scalar s => complete (.scalar s) stack
  | .openList => building .firstItem (.list [] :: stack)
  | .openObject => building .firstName (.object [] :: stack)
  | _ => spoil (.absent .expectedValue) stack

def name (q : Quoted) : List Frame → Builder
  | .object members :: stack => building .colon (.member members q :: stack)
  | stack => fail .keyMustBeString stack

/-- What a separator has to be, in the innermost open array or object. -/
def separator (t : Token) : List Frame → Builder
  | .list items :: stack =>
    match t with
    | .comma => building .nextItem (.list items :: stack)
    | .closeList => close (.list items :: stack)
    | _ => fail .expectedListEnd (.list items :: stack)
  | stack =>
    match t with
    | .comma => building .nextName stack
    | .closeObject => close stack
    | _ => fail .expectedObjectEnd stack

def step (b : Builder) (t : Token) : Builder :=
  match b with
  | built tree _ => built tree true
  | building expect stack =>
    match expect with
    | .value => value stack t
    | .firstItem => if t = .closeList then close stack else value stack t
    | .nextItem => if t = .closeList then fail .trailingComma stack else value stack t
    | .firstName =>
      match t with
      | .scalar (.string q) => name q stack
      | .closeObject => close stack
      | _ => fail .keyMustBeString stack
    | .nextName =>
      match t with
      | .scalar (.string q) => name q stack
      | .closeObject => fail .trailingComma stack
      | _ => fail .keyMustBeString stack
    | .colon =>
      if t = .colon then building .value stack
      else fail .expectedColon stack
    | .separator => separator t stack

def eofFault (expect : Expect) (stack : List Frame) : Fault :=
  match expect, stack with
  | .value, _ | .nextItem, _ | .nextName, _ => .eofInValue
  | .firstItem, _ => .eofInList
  | .separator, .list _ :: _ => .eofInList
  | _, _ => .eofInObject

def finish : Builder → Tree × Bool
  | built tree trailing => (tree, trailing)
  | building expect stack =>
    let tree :=
      match expect with
      | .value => spoil (.absent .eofInValue) stack
      | expect => fail (eofFault expect stack) stack
    match tree with
    | built tree trailing => (tree, trailing)
    | building _ _ => (.absent .eofInValue, false)

end Builder

structure JsonText where
  tree : Tree
  trailing : Bool

def JsonText.read (s : List Char) : JsonText :=
  let result := ((tokensOf s).foldl Builder.step .start).finish
  ⟨result.1, result.2⟩

end ControlStream
