/-!
# Imports

The names of the components that a file refers to, in the order of their first use.
-/

namespace DesignComponents

structure Imports where
  names : List String
  nodup : names.Nodup

namespace Imports

def empty : Imports := ⟨[], List.nodup_nil⟩

def contains (imports : Imports) (name : String) : Bool := imports.names.contains name

def size (imports : Imports) : Nat := imports.names.length

def isEmpty (imports : Imports) : Bool := imports.names.isEmpty

/-- Puts a name last unless it is there. -/
def insert (imports : Imports) (name : String) : Imports :=
  if h : name ∈ imports.names then imports
  else
    { names := imports.names ++ [name]
      nodup := by
        rw [List.nodup_append]
        refine ⟨imports.nodup, by simp, ?_⟩
        intro a ha b hb heq
        rw [List.mem_singleton.mp hb] at heq
        exact h (heq ▸ ha) }

theorem names_insert (imports : Imports) (name : String) :
    (imports.insert name).names =
      if name ∈ imports.names then imports.names else imports.names ++ [name] := by
  unfold insert; split <;> simp_all

end Imports

end DesignComponents
