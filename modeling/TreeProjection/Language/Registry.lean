import TreeProjection.Language.Basic

/-! # The registry of languages

Languages registered under names.  An entry is never replaced: whoever registers a taken name gets
the entry that is there.  A registration first reads, and only if the name is free does it write, so
between its two steps another registration may come in; the second step looks again.

* `Registry.find?` — the reading step.
* `Registry.claim` — the writing step, which builds the language only if the name is still free.
* `Registry.registerWith` — both steps on end.
* `Registry.registered` — the names, sorted. -/

namespace TreeProjection

/-- Languages under distinct names, in the order of their registration.  An entry is identified by
its place. -/
structure Registry where
  /-- The entries. -/
  entries : Array (String × Language)
  deriving Repr

namespace Registry

/-- A language found under a name, with the place of its entry. -/
structure Entry where
  /-- The place of the entry, which tells entries apart. -/
  place : Nat
  /-- The language. -/
  language : Language

/-- The registry without entries. -/
def empty : Registry := ⟨#[]⟩

instance : Inhabited Registry := ⟨empty⟩

/-- The entry under a name, if there is one. -/
def find? (g : Registry) (name : String) : Option Entry := do
  let place ← g.entries.findIdx? (·.1 == name)
  let entry ← g.entries[place]?
  return ⟨place, entry.2⟩

/-- Enter the language that `build` gives under a name, unless the name is taken.  The answer tells
whether `build` was run. -/
def claim (g : Registry) (name : String) (build : Unit → Language) : Bool × Entry × Registry :=
  match g.find? name with
  | some entry => (false, entry, g)
  | none =>
    let language := build ()
    (true, ⟨g.entries.size, language⟩, ⟨g.entries.push (name, language)⟩)

/-- Register the language that `build` gives under a name: read, then write if the name is free. -/
def registerWith (g : Registry) (name : String) (build : Unit → Language) :
    Bool × Entry × Registry :=
  match g.find? name with
  | some entry => (false, entry, g)
  | none => g.claim name build

/-- Register a language under its own name. -/
def register (g : Registry) (language : Language) : Entry × Registry :=
  (g.registerWith language.name fun _ => language).2

/-- The language under a name. -/
def lookup (g : Registry) (name : String) : Except Error Entry :=
  match g.find? name with
  | some entry => .ok entry
  | none => .error (.unknownLanguage name)

/-- The text of a failed look-up, where the registry itself reports it. -/
def lookupMessage (name : String) : String := s!"language `{name}` is not registered"

/-- The registered names in ascending order. -/
def registered (g : Registry) : List String :=
  (g.entries.toList.map (·.1)).mergeSort fun a b => decide (a ≤ b)

end Registry

end TreeProjection
