/-!
# Lists of classes

An element's classes in order, none of them empty and none twice.
-/

namespace DesignComponents

structure ClassList where
  tokens : List String
  nodup : tokens.Nodup
  no_empty : "" ∉ tokens

namespace ClassList

def empty : ClassList := ⟨[], List.nodup_nil, List.not_mem_nil⟩

instance : Inhabited ClassList := ⟨empty⟩

@[ext] theorem ext {c d : ClassList} (h : c.tokens = d.tokens) : c = d := by
  cases c; cases d; simp_all

instance : DecidableEq ClassList := fun c d =>
  decidable_of_iff (c.tokens = d.tokens) ⟨ext, fun h => h ▸ rfl⟩

/-- Puts a token last unless it is empty or there already. -/
def push (c : ClassList) (token : String) : ClassList :=
  if h : token = "" ∨ token ∈ c.tokens then c
  else
    { tokens := c.tokens ++ [token]
      nodup := by
        rw [not_or] at h
        rw [List.nodup_append]
        refine ⟨c.nodup, by simp, ?_⟩
        intro a ha b hb heq
        rw [List.mem_singleton.mp hb] at heq
        exact h.2 (heq ▸ ha)
      no_empty := by
        rw [not_or] at h
        simp only [List.mem_append, List.mem_singleton, not_or]
        exact ⟨c.no_empty, fun e => h.1 e.symm⟩ }

theorem tokens_push (c : ClassList) (token : String) :
    (c.push token).tokens =
      if token = "" ∨ token ∈ c.tokens then c.tokens else c.tokens ++ [token] := by
  unfold push; split <;> rfl

def pushAll (c : ClassList) (tokens : List String) : ClassList := tokens.foldl push c

def ofList (tokens : List String) : ClassList := empty.pushAll tokens

def append (c d : ClassList) : ClassList := c.pushAll d.tokens

instance : Append ClassList := ⟨append⟩

def contains (c : ClassList) (token : String) : Bool := c.tokens.contains token

def isEmpty (c : ClassList) : Bool := c.tokens.isEmpty

def text (c : ClassList) : String := " ".intercalate c.tokens

end ClassList

end DesignComponents
