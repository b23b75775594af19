import MiniLua.Value.Basic

/-! # Scopes

A frame binds names to values; frames live in a store and are shared by everything that was created
while they were in scope. A scope is the list of frames a name is looked up in, innermost first; its
last frame is the global one. -/

namespace MiniLua

/-- The bindings of a frame in the order of their first appearance. -/
abbrev Bindings := List (String × Value)

namespace Bindings

/-- Binds a name; a name that is bound already keeps its place. -/
def bind (name : String) (value : Value) : Bindings → Bindings
  | [] => [(name, value)]
  | b :: bs => if b.1 = name then (name, value) :: bs else b :: bind name value bs

/-- Names bound to values in turn; the last of equal names decides. -/
def ofLists (names : List String) (values : List Value) : Bindings :=
  (names.zip values).foldl (fun bs b => bind b.1 b.2 bs) []

def binds (bs : Bindings) (name : String) : Bool := bs.any (·.1 = name)

end Bindings

abbrev FrameId := Nat

abbrev Scope := List FrameId

/-- The store of frames; a frame's id is its index. -/
abbrev Frames := Array Bindings

namespace Frames

def bindings (fs : Frames) (id : FrameId) : Bindings := fs.getD id []

/-- A new innermost frame. -/
def push (fs : Frames) (scope : Scope) (bs : Bindings) : Frames × Scope :=
  let id := fs.size
  (Array.push fs bs, id :: scope)

/-- The innermost frame of a scope that binds a name. -/
def resolve? (fs : Frames) (scope : Scope) (name : String) : Option FrameId :=
  scope.find? fun id => (fs.bindings id).binds name

/-- The value of a name; a name that no frame binds reads as nil. -/
def lookup (fs : Frames) (scope : Scope) (name : String) : Value :=
  match fs.resolve? scope name with
  | none => .nil
  | some id => ((fs.bindings id).lookup name).getD .nil

/-- Binds a name in one frame. -/
def define (fs : Frames) (id : FrameId) (name : String) (value : Value) : Frames :=
  Array.modify fs id (Bindings.bind name value)

/-- The outermost frame. -/
def root (scope : Scope) : FrameId := scope.getLast?.getD 0

/-- Stores into the frame that binds a name, or makes a global of it. -/
def assign (fs : Frames) (scope : Scope) (name : String) (value : Value) : Frames :=
  fs.define ((fs.resolve? scope name).getD (root scope)) name value

/-- Whether a name is read from the outermost frame, or from none. -/
def isGlobal (fs : Frames) (scope : Scope) (name : String) : Bool :=
  (fs.resolve? scope name).all (· = root scope)

end Frames

end MiniLua
