import SmallLisp.Fault

/-!
# Frames and scopes

A frame holds the variables that one construct owns, in the order of their declaration. A scope is a
frame with the frames around it, innermost first. A name means the variable of the nearest frame
that holds it. A frame holds no name twice, but may hide what an outer frame holds.

A variable is found as a number of frames to go outward, and is written there.
-/

set_option autoImplicit false

namespace SmallLisp

/-- A variable and its value. -/
structure Binding where
  name : String
  value : Value

/-- What a binding looks like when shown. -/
def Binding.describe (b : Binding) : Text :=
  Text.ofString ("<" ++ b.name ++ "=") ++ b.value.describe ++ Text.ofString ">"

/-- The variables that one construct owns, oldest first. -/
structure Frame where
  bindings : List Binding

namespace Frame

def empty : Frame := ⟨[]⟩

def names (f : Frame) : List String := f.bindings.map (·.name)

/-- The value of a variable of this frame. -/
def get? (f : Frame) (x : String) : Option Value := (f.bindings.find? (·.name == x)).map (·.value)

def holds (f : Frame) (x : String) : Bool := (f.get? x).isSome

/-- The frame with one more variable. -/
def bind (f : Frame) (x : String) (v : Value) : Frame := ⟨f.bindings ++ [⟨x, v⟩]⟩

/-- The frame with another value for a variable. -/
def set (f : Frame) (x : String) (v : Value) : Frame :=
  ⟨f.bindings.map fun b => if b.name == x then ⟨b.name, v⟩ else b⟩

/-- The outermost frame of a program: the native functions, in the order of the library. -/
def library : Frame := ⟨Native.all.map fun f => ⟨f.name, .native f⟩⟩

end Frame

/-- A frame and the frames around it, the innermost first. -/
structure Scope where
  frame : Frame
  outer : List Frame

namespace Scope

def root (f : Frame) : Scope := ⟨f, []⟩

/-- All frames, the innermost first. -/
def frames (s : Scope) : List Frame := s.frame :: s.outer

/-- The number of frames around the innermost one. -/
def depth (s : Scope) : Nat := s.outer.length

/-- A fresh frame within the scope. -/
def child (s : Scope) : Scope := ⟨.empty, s.frames⟩

/-- The scope around the innermost frame; the outermost frame stays. -/
def enclosing (s : Scope) : Scope :=
  match s.outer with
  | [] => s
  | f :: outer => ⟨f, outer⟩

/-- How far out the frame is that the forms with a name reach: that of the enclosing construct. Every
expression has a frame of its own, which is not the one that its declarations are for. -/
def home (s : Scope) : Nat := if s.outer.isEmpty then 0 else 1

/-- The nearest of some frames that holds a name: how far out it is, and the value there. -/
def findIn (x : String) : List Frame → Option (Nat × Value)
  | [] => none
  | f :: outer =>
    match f.get? x with
    | some v => some (0, v)
    | none => (findIn x outer).map fun (hops, v) => (hops + 1, v)

/-- What a name means in the scope. -/
def find? (s : Scope) (x : String) : Option (Nat × Value) := findIn x s.frames

/-- The value that a name stands for. -/
def lookup (s : Scope) (x : String) : Except Fault Value :=
  match s.find? x with
  | some (_, v) => .ok v
  | none => .error (.noVariable x)

/-- The scope with the frame so far out changed. -/
def modify (s : Scope) (hops : Nat) (change : Frame → Frame) : Scope :=
  match hops with
  | 0 => ⟨change s.frame, s.outer⟩
  | hops + 1 => ⟨s.frame, s.outer.modify hops change⟩

/-- A new variable in the frame so far out. -/
def declare (s : Scope) (hops : Nat) (x : String) (v : Value) : Except Fault Scope :=
  if s.frames[hops]?.any (·.holds x) then .error (.redeclared x)
  else .ok (s.modify hops (·.bind x v))

/-- How far out the variable is that an assignment changes, which looks for it from the frame so far
out on. -/
def assignable (s : Scope) (hops : Nat) (x : String) : Except Fault Nat :=
  match findIn x (s.frames.drop hops) with
  | none => .error (.noTarget x)
  | some (further, v) => if v.immutable then .error (.immutable x) else .ok (hops + further)

/-- The scope with another value for the variable of the frame so far out. -/
def write (s : Scope) (hops : Nat) (x : String) (v : Value) : Scope := s.modify hops (·.set x v)

/-- An assignment in the innermost frame. -/
def assign (s : Scope) (x : String) (v : Value) : Except Fault Scope :=
  (s.assignable 0 x).map fun hops => s.write hops x v

end Scope

end SmallLisp
