/-
# RestCase.Context — the variables of one test case

A `Context` maps names to values.  A value that was read from a response also has an `Origin`: the
step that read it and the path it was read from.  Both maps change together in `Context.set`: a
value set without an origin loses the origin that its name had.  `get?_set` and `tracked?_set` say
what setting one variable does to every look-up.
-/
import RestCase.Json.Coercion

namespace RestCase

/-- Where a variable came from: a step and a path. -/
structure Origin where
  step : String
  path : String
  deriving DecidableEq

/-- A variable together with its origin, as `Context.tracked?` shows it. -/
structure Tracked where
  value : Json
  origin : Origin

/-- The variables of one test case: `values` holds what they stand for, `tracking` those that a
step has extracted, each with its `Origin`. -/
structure Context where
  values : Table Json
  tracking : Table Tracked

namespace Context

/-- No variables. -/
def empty : Context := ⟨.empty, .empty⟩

instance : Inhabited Context := ⟨empty⟩

/-- Give `name` a value and, with it, an origin or none: an earlier origin goes with the earlier
value. -/
def set (ctx : Context) (name : String) (value : Json) (origin : Option Origin) : Context where
  values := ctx.values.insert name value
  tracking := match origin with
    | some o => ctx.tracking.insert name ⟨value, o⟩
    | none => ctx.tracking.erase name

/-- The value of a variable. -/
def get? (ctx : Context) (name : String) : Option Json := ctx.values.find? name

/-- The string form of a variable. -/
def getString? (ctx : Context) (name : String) : Option String :=
  (ctx.get? name).map Json.stringForm

/-- The variable has a value. -/
def contains (ctx : Context) (name : String) : Bool := ctx.values.contains name

/-- The value of a variable with its origin, if it has one: only `set` with an origin gives it
one. -/
def tracked? (ctx : Context) (name : String) : Option Tracked := ctx.tracking.find? name

/-- The number of variables. -/
def size (ctx : Context) : Nat := ctx.values.size

/-- There are no variables. -/
def isEmpty (ctx : Context) : Bool := ctx.values.isEmpty

@[simp] theorem get?_set (ctx : Context) (name : String) (value : Json) (origin : Option Origin)
    (k : String) :
    (ctx.set name value origin).get? k = if k = name then some value else ctx.get? k := by
  simp [get?, set]

@[simp] theorem tracked?_set (ctx : Context) (name : String) (value : Json)
    (origin : Option Origin) (k : String) :
    (ctx.set name value origin).tracked? k =
      if k = name then origin.map (fun o => ⟨value, o⟩) else ctx.tracked? k := by
  cases origin <;> simp [tracked?, set]

/-- Contexts with the same look-ups are the same. -/
theorem ext_lookup {c d : Context} (hv : ∀ k, c.get? k = d.get? k)
    (ht : ∀ k, c.tracked? k = d.tracked? k) : c = d := by
  obtain ⟨cv, ct⟩ := c
  obtain ⟨dv, dt⟩ := d
  obtain rfl : cv = dv := Table.ext_find? hv
  obtain rfl : ct = dt := Table.ext_find? ht
  rfl

end Context

end RestCase
