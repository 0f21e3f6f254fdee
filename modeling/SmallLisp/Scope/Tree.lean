import SmallLisp.Scope

/-!
# Trees of frames

Frames that share the frames around them form a tree. A tree only grows: frames are numbered in the
order of their making, each made after the one around it. The scope of a frame is its path to the
root, and a change within that scope is seen by all frames that share the changed part.
-/

set_option autoImplicit false

namespace SmallLisp

/-- A frame, and the number of the frame around it. -/
structure TreeFrame where
  frame : Frame
  parent : Option Nat

/-- Frames by their numbers. -/
structure ScopeTree where
  frames : List TreeFrame

namespace ScopeTree

/-- The tree of one frame. -/
def root (f : Frame) : ScopeTree := ⟨[⟨f, none⟩]⟩

/-- The numbers of a frame and of those around it, in at most so many steps. -/
def pathWithin (t : ScopeTree) : Nat → Nat → List Nat
  | 0, _ => []
  | steps + 1, i =>
    match t.frames[i]? with
    | none => []
    | some node => i :: (node.parent.map (t.pathWithin steps)).getD []

/-- The numbers of a frame and of those around it, the innermost first. -/
def path (t : ScopeTree) (i : Nat) : List Nat := t.pathWithin t.frames.length i

/-- The scope of a frame. -/
def scope? (t : ScopeTree) (i : Nat) : Option Scope :=
  match (t.path i).filterMap fun j => t.frames[j]?.map (·.frame) with
  | [] => none
  | f :: outer => some ⟨f, outer⟩

/-- The tree after the scope of a frame has become this one. -/
def restore (t : ScopeTree) (i : Nat) (s : Scope) : ScopeTree :=
  ⟨((t.path i).zip s.frames).foldl (fun frames (j, f) => frames.modify j ({ · with frame := f }))
    t.frames⟩

/-- A new frame within a frame; its number is the number of frames before. -/
def child (t : ScopeTree) (i : Nat) : ScopeTree := ⟨t.frames ++ [⟨.empty, some i⟩]⟩

end ScopeTree

end SmallLisp
