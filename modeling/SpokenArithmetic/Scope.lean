import Std.Data.ExtTreeMap

/-!
# Scopes

A scope holds the names that are defined and, for each of them, the position
of the token that defined it last.  Names are in the order of their code
points.  Two scopes are equal exactly if they define the same names at the
same positions.
-/

namespace SpokenArithmetic

/-- The defined names and where they were defined. -/
structure Scope where
  definitions : Std.ExtTreeMap String Nat

namespace Scope

/-- The scope without names. -/
def empty : Scope := ⟨∅⟩

/-- The scope in which `name` is defined at `position`, in place of any
definition before. -/
def define (scope : Scope) (name : String) (position : Nat) : Scope :=
  ⟨scope.definitions.insert name position⟩

/-- The position at which a name was defined. -/
def definition? (scope : Scope) (name : String) : Option Nat :=
  scope.definitions[name]?

/-- Whether a name is defined. -/
def isDefined (scope : Scope) (name : String) : Bool :=
  scope.definitions.contains name

/-- The number of defined names. -/
def size (scope : Scope) : Nat :=
  scope.definitions.size

/-- Whether no name is defined. -/
def isEmpty (scope : Scope) : Bool :=
  scope.definitions.isEmpty

/-- The defined names in ascending order. -/
def names (scope : Scope) : List String :=
  scope.definitions.keys

/-- The defined names and their positions, in ascending order of the names. -/
def toList (scope : Scope) : List (String × Nat) :=
  scope.definitions.toList

/-- The scope after a list of definitions, later ones in place of
earlier ones. -/
def ofList (definitions : List (String × Nat)) : Scope :=
  definitions.foldl (fun scope entry => scope.define entry.1 entry.2) empty

@[simp] theorem definition?_empty (name : String) : empty.definition? name = none := by
  simp [empty, definition?]

@[simp] theorem definition?_define (scope : Scope) (name name' : String) (position : Nat) :
    (scope.define name position).definition? name' =
      if name = name' then some position else scope.definition? name' := by
  simp [define, definition?, Std.ExtTreeMap.getElem?_insert]

theorem isDefined_eq_isSome (scope : Scope) (name : String) :
    scope.isDefined name = (scope.definition? name).isSome :=
  Std.ExtTreeMap.contains_eq_isSome_getElem?

@[simp] theorem isDefined_empty (name : String) : empty.isDefined name = false := by
  simp [isDefined_eq_isSome]

@[simp] theorem isDefined_define (scope : Scope) (name name' : String) (position : Nat) :
    (scope.define name position).isDefined name' = (name == name' || scope.isDefined name') := by
  by_cases h : name = name' <;> simp [isDefined_eq_isSome, h]

/-- The list of a scope holds its definitions and nothing else. -/
theorem mem_toList_iff (scope : Scope) (name : String) (position : Nat) :
    (name, position) ∈ scope.toList ↔ scope.definition? name = some position :=
  Std.ExtTreeMap.mem_toList_iff_getElem?_eq_some

theorem mem_names_iff (scope : Scope) (name : String) :
    name ∈ scope.names ↔ scope.isDefined name = true := by
  simp [names, isDefined]

/-- A scope is no more than what it says of each name. -/
@[ext] theorem ext {scope scope' : Scope}
    (h : ∀ name, scope.definition? name = scope'.definition? name) : scope = scope' := by
  cases scope
  cases scope'
  congr
  exact Std.ExtTreeMap.ext_getElem? fun name => h name

end Scope
end SpokenArithmetic
