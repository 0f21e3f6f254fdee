import SmallLisp.Text.Decimal

/-!
# Native functions

The functions that the language comes with: their names and how many arguments each accepts. What
they do is said where calls are evaluated.
-/

set_option autoImplicit false

namespace SmallLisp

/-- How many arguments a call may have; without an upper bound if `most` is none. -/
structure Arity where
  least : Nat
  most : Option Nat
deriving DecidableEq, Repr

namespace Arity

def exactly (n : Nat) : Arity := ⟨n, some n⟩

def atLeast (n : Nat) : Arity := ⟨n, none⟩

def accepts (a : Arity) (count : Nat) : Bool :=
  a.least ≤ count && a.most.all (count ≤ ·)

/-- The numbers in words. -/
def describe (a : Arity) : String :=
  match a.most with
  | none => "at least " ++ decimal a.least
  | some most =>
    if most = a.least then decimal a.least else decimal a.least ++ " to " ++ decimal most

theorem accepts_iff {a : Arity} {count : Nat} :
    a.accepts count = true ↔ a.least ≤ count ∧ ∀ most, a.most = some most → count ≤ most := by
  rw [accepts, Bool.and_eq_true, decide_eq_true_eq]
  cases a.most <;> simp

@[simp] theorem accepts_exactly {n count : Nat} :
    (exactly n).accepts count = true ↔ count = n := by
  rw [accepts_iff]
  simp only [exactly, Option.some.injEq, forall_eq']
  omega

@[simp] theorem accepts_atLeast {n count : Nat} :
    (atLeast n).accepts count = true ↔ n ≤ count := by
  rw [accepts_iff]
  simp [atLeast]

end Arity

/-- The native functions. -/
inductive Native
  | print | println | readline | parseint | append | length | map | int | char | string | bool
deriving DecidableEq, Repr

namespace Native

/-- All native functions, in the order in which the library lists them. -/
def all : List Native :=
  [print, println, readline, parseint, append, length, map, int, char, string, bool]

def name : Native → String
  | print => "print"
  | println => "println"
  | readline => "readline"
  | parseint => "parseint"
  | append => "append"
  | length => "length"
  | map => "map"
  | int => "int"
  | char => "char"
  | string => "string"
  | bool => "bool"

def arity : Native → Arity
  | print | println => .atLeast 0
  | readline => .exactly 0
  | append => .atLeast 2
  | map => .exactly 2
  | parseint | length | int | char | string | bool => .exactly 1

/-- The native function of this name. -/
def ofName? (name : String) : Option Native := all.find? (·.name == name)

/-- What a native function of some name looks like when printed. -/
def display (name : String) : String := "<native function '" ++ name ++ "'>"

end Native

end SmallLisp
