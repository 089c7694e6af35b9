import DesignComponents.Conversion.Ledger

/-!
# What a ledger knows

Answers are kept: a ledger only grows behind what it holds, and a name that was asked for has one
answer from then on. What stands for a layer can therefore be read from any later ledger.
-/

namespace DesignComponents

def Call.lookedUp? : Call → Option String
  | .lookup name _ => some name
  | _ => none

def Call.lookedUp (calls : List Call) : List String := calls.filterMap Call.lookedUp?

namespace Ledger

theorem bind_eq {α β : Type} {x : StateM Ledger α} {a : α} {l l' : Ledger} (h : x l = (a, l'))
    (f : α → StateM Ledger β) : (x >>= f) l = f a l' := by
  change (f (x l).1) (x l).2 = _
  rw [h]

theorem known?_append (name : String) (xs ys : List (String × Bool)) :
    known? name (xs ++ ys) = (known? name xs).or (known? name ys) := by
  induction xs with
  | nil => rfl
  | cons entry xs ih =>
    obtain ⟨asked, answer⟩ := entry
    rw [List.cons_append, known?, known?]
    split
    · rfl
    · exact ih

theorem known?_of_later {name : String} {xs ys : List (String × Bool)} {answer : Bool}
    (hgrows : xs <+: ys) (h : known? name xs = some answer) : known? name ys = some answer := by
  obtain ⟨more, rfl⟩ := hgrows
  rw [known?_append, h]
  rfl

theorem exists?_known {r : Reuse} {name : String} {l : Ledger} {answer : Bool}
    (h : known? name l.answers = some answer) : exists? r name l = (answer, l) := by
  rw [exists?, h]

theorem exists?_unknown {r : Reuse} {name : String} {l : Ledger}
    (h : known? name l.answers = none) :
    exists? r name l =
      (r.catalogue (l.answers.map (·.1)) name,
        { l with
          answers := l.answers ++ [(name, r.catalogue (l.answers.map (·.1)) name)]
          calls := l.calls ++ [.lookup name r.extension] }) := by
  rw [exists?, h]

theorem known?_exists? (r : Reuse) (name : String) (l : Ledger) :
    known? name (exists? r name l).2.answers = some (exists? r name l).1 := by
  cases h : known? name l.answers with
  | some answer => rw [exists?_known h, h]
  | none =>
    rw [exists?_unknown h]
    simp [known?_append, h, known?]

theorem answers_exists? (r : Reuse) (name : String) (l : Ledger) :
    l.answers <+: (exists? r name l).2.answers := by
  cases h : known? name l.answers with
  | some answer =>
    have hsame : (exists? r name l).2 = l := congrArg Prod.snd (exists?_known h)
    exact hsame.symm ▸ List.prefix_refl l.answers
  | none =>
    rw [exists?_unknown h]
    exact List.prefix_append _ _

theorem imports_exists? (r : Reuse) (name : String) (l : Ledger) :
    (exists? r name l).2.imports = l.imports := by
  cases h : known? name l.answers with
  | some answer => rw [exists?_known h]
  | none => rw [exists?_unknown h]

end Ledger

namespace Reuse

/-- What stands for a layer if `has` tells which components there are. -/
def named? (reuse : Option Reuse) (has : Reuse → String → Bool) (layer : Layer) : Option String :=
  match reuse with
  | none => none
  | some r =>
    let name := componentName layer.displayName
    if name ≠ r.rootName ∧ has r name = true then some name else none

variable {r : Reuse} {has : Reuse → String → Bool} {layer : Layer}

theorem named?_yes (hroot : componentName layer.displayName ≠ r.rootName)
    (hyes : has r (componentName layer.displayName) = true) :
    named? (some r) has layer = some (componentName layer.displayName) := by
  simp only [named?]
  rw [if_pos ⟨hroot, hyes⟩]

theorem named?_root (h : componentName layer.displayName = r.rootName) :
    named? (some r) has layer = none := by
  simp only [named?]
  rw [if_neg fun hnamed => hnamed.1 h]

theorem named?_no (h : has r (componentName layer.displayName) = false) :
    named? (some r) has layer = none := by
  simp only [named?]
  rw [if_neg fun hnamed => absurd hnamed.2 (ne_true_of_eq_false h)]

end Reuse

namespace Ledger

def reference? (reuse : Option Reuse) (answers : List (String × Bool)) (layer : Layer) :
    Option String :=
  Reuse.named? reuse (fun _ name => known? name answers == some true) layer

/-- A layer named like the root is not looked up, and any other one is; on a yes the component is
imported. -/
theorem componentFor_cases (r : Reuse) (layer : Layer) (l : Ledger) :
    (componentName layer.displayName = r.rootName ∧
        componentFor (some r) layer l = (none, l)) ∨
      componentName layer.displayName ≠ r.rootName ∧
        ∃ l', (exists? r (componentName layer.displayName) l = (false, l') ∧
            componentFor (some r) layer l = (none, l')) ∨
          exists? r (componentName layer.displayName) l = (true, l') ∧
            componentFor (some r) layer l =
              (some (componentName layer.displayName),
                { l' with imports := l'.imports.insert (componentName layer.displayName) }) := by
  by_cases hroot : componentName layer.displayName = r.rootName
  · left
    refine ⟨hroot, ?_⟩
    simp only [componentFor, if_pos hroot]
  · right
    rcases hfound : exists? r (componentName layer.displayName) l with ⟨_ | _, l'⟩
    · refine ⟨hroot, l', .inl ⟨rfl, ?_⟩⟩
      simp only [componentFor, if_neg hroot, hfound]
    · refine ⟨hroot, l', .inr ⟨rfl, ?_⟩⟩
      simp only [componentFor, if_neg hroot, hfound]

/-- A component is referred to if and only if the answer for its name is yes, now and later. -/
theorem componentFor_spec (reuse : Option Reuse) (layer : Layer) (l : Ledger) :
    l.answers <+: (componentFor reuse layer l).2.answers ∧
      (∀ answers, (componentFor reuse layer l).2.answers <+: answers →
        reference? reuse answers layer = (componentFor reuse layer l).1) ∧
      (componentFor reuse layer l).2.imports =
        (componentFor reuse layer l).1.toList.foldl Imports.insert l.imports := by
  cases reuse with
  | none => exact ⟨List.prefix_refl _, fun _ _ => rfl, rfl⟩
  | some r =>
    have hknown := known?_exists? r (componentName layer.displayName) l
    have hgrows := answers_exists? r (componentName layer.displayName) l
    have himports := imports_exists? r (componentName layer.displayName) l
    rcases componentFor_cases r layer l with
      ⟨hroot, hnone⟩ | ⟨hroot, l', ⟨hno, hnone⟩ | ⟨hyes, hsome⟩⟩
    · rw [hnone]
      exact ⟨List.prefix_refl _, fun _ _ => Reuse.named?_root hroot, rfl⟩
    · rw [hno] at hknown hgrows himports
      rw [hnone]
      refine ⟨hgrows, fun answers hanswers => ?_, himports⟩
      apply Reuse.named?_no
      rw [known?_of_later hanswers hknown]
      rfl
    · rw [hyes] at hknown hgrows himports
      rw [hsome]
      refine ⟨hgrows, fun answers hanswers => ?_, ?_⟩
      · apply Reuse.named?_yes hroot
        rw [known?_of_later hanswers hknown]
        rfl
      · exact congrArg (Imports.insert · _) himports

/-! ## Catalogues that do not change -/

end Ledger

/-- Every name has the same answer whenever it is asked for. -/
def Reuse.Steady (r : Reuse) : Prop :=
  ∀ earlier name, r.catalogue earlier name = r.catalogue [] name

/-- What stands for a layer by the catalogue as it is at first. -/
def Reuse.standing? (reuse : Option Reuse) (layer : Layer) : Option String :=
  Reuse.named? reuse (fun r => r.catalogue []) layer

namespace Ledger

/-- The answers are those of the catalogue. -/
def Truthful (reuse : Option Reuse) (l : Ledger) : Prop :=
  ∀ r ∈ reuse, ∀ name answer, known? name l.answers = some answer → answer = r.catalogue [] name

theorem Truthful.exists? {r : Reuse} (hsteady : r.Steady) {l : Ledger}
    (h : l.Truthful (some r)) (name : String) :
    (exists? r name l).1 = r.catalogue [] name ∧ (exists? r name l).2.Truthful (some r) := by
  cases hknown : known? name l.answers with
  | some answer =>
    rw [exists?_known hknown]
    exact ⟨h r rfl name answer hknown, h⟩
  | none =>
    rw [exists?_unknown hknown]
    refine ⟨hsteady _ name, ?_⟩
    intro r' hr' other answer hanswer
    obtain rfl := Option.some.inj hr'
    rw [known?_append] at hanswer
    cases hother : known? other l.answers with
    | some known =>
      rw [hother] at hanswer
      exact h r rfl other answer (hother.trans hanswer)
    | none =>
      rw [hother, Option.none_or, known?] at hanswer
      split at hanswer
      · rename_i hname
        rw [← Option.some.inj hanswer, ← hname]
        exact hsteady _ name
      · cases hanswer

theorem Truthful.componentFor {reuse : Option Reuse} (hsteady : ∀ r ∈ reuse, r.Steady)
    {l : Ledger} (h : l.Truthful reuse) (layer : Layer) :
    (componentFor reuse layer l).1 = Reuse.standing? reuse layer ∧
      (componentFor reuse layer l).2.Truthful reuse := by
  cases reuse with
  | none => exact ⟨rfl, h⟩
  | some r =>
    obtain ⟨hanswer, hafter⟩ := h.exists? (hsteady r rfl) (componentName layer.displayName)
    rcases componentFor_cases r layer l with
      ⟨hroot, hnone⟩ | ⟨hroot, l', ⟨hno, hnone⟩ | ⟨hyes, hsome⟩⟩
    · rw [hnone]
      exact ⟨(Reuse.named?_root hroot).symm, h⟩
    · rw [hno] at hanswer hafter
      rw [hnone]
      exact ⟨(Reuse.named?_no hanswer.symm).symm, hafter⟩
    · rw [hyes] at hanswer hafter
      rw [hsome]
      exact ⟨(Reuse.named?_yes hroot hanswer.symm).symm, hafter⟩

/-! ## What stands in a ledger for a reason -/

/-- The answers are to the calls, in order; a yes is what the catalogue said when it was asked;
and a component is imported only on a yes, never the root's. -/
structure Accounted (r : Reuse) (l : Ledger) : Prop where
  asked : l.answers.map (·.1) = Call.lookedUp l.calls
  answered : ∀ name, known? name l.answers = some true →
    ∃ before after, l.calls = before ++ .lookup name r.extension :: after ∧
      r.catalogue (Call.lookedUp before) name = true
  imported : ∀ name ∈ l.imports.names, name ≠ r.rootName ∧ known? name l.answers = some true

theorem accounted_empty (r : Reuse) : Accounted r empty where
  asked := rfl
  answered _ h := absurd h (Option.not_mem_none _)
  imported _ h := absurd h List.not_mem_nil

theorem Accounted.record {r : Reuse} {l : Ledger} (h : l.Accounted r) (fileKey id : String) :
    (l.record (.image fileKey id)).Accounted r where
  asked := by
    rw [Ledger.record, Call.lookedUp, List.filterMap_append]
    exact h.asked.trans (List.append_nil _).symm
  answered name hyes := by
    obtain ⟨before, after, hcalls, hcatalogue⟩ := h.answered name hyes
    refine ⟨before, after ++ [.image fileKey id], ?_, hcatalogue⟩
    rw [Ledger.record, hcalls, List.append_assoc]
    rfl
  imported := h.imported

theorem Accounted.exists? {r : Reuse} {l : Ledger} (h : l.Accounted r) (name : String) :
    (exists? r name l).2.Accounted r := by
  cases hknown : known? name l.answers with
  | some answer =>
    rw [exists?_known hknown]
    exact h
  | none =>
    rw [exists?_unknown hknown]
    refine ⟨?_, ?_, ?_⟩
    · simp [Call.lookedUp, h.asked, Call.lookedUp?]
    · intro other hyes
      rw [known?_append] at hyes
      cases hother : known? other l.answers with
      | some answer =>
        rw [hother] at hyes
        obtain ⟨before, after, hcalls, hcatalogue⟩ := h.answered other (hother.trans hyes)
        refine ⟨before, after ++ [.lookup name r.extension], ?_, hcatalogue⟩
        change l.calls ++ _ = _
        rw [hcalls, List.append_assoc]
        rfl
      | none =>
        rw [hother, Option.none_or, known?] at hyes
        split at hyes
        · rename_i hname
          refine ⟨l.calls, [], by rw [hname], ?_⟩
          rw [← h.asked, ← hname]
          exact Option.some.inj hyes
        · cases hyes
    · intro imported himported
      obtain ⟨hroot, hyes⟩ := h.imported imported himported
      exact ⟨hroot, known?_of_later (List.prefix_append _ _) hyes⟩

theorem Accounted.insert {r : Reuse} {l : Ledger} (h : l.Accounted r) {name : String}
    (hroot : name ≠ r.rootName) (hyes : known? name l.answers = some true) :
    ({ l with imports := l.imports.insert name } : Ledger).Accounted r where
  asked := h.asked
  answered := h.answered
  imported other hother := by
    change other ∈ (l.imports.insert name).names at hother
    rw [Imports.names_insert] at hother
    split at hother
    · exact h.imported other hother
    · rcases List.mem_append.mp hother with hother | hother
      · exact h.imported other hother
      · rw [List.mem_singleton.mp hother]
        exact ⟨hroot, hyes⟩

theorem Accounted.componentFor {r : Reuse} {l : Ledger} (h : l.Accounted r) (layer : Layer) :
    (componentFor (some r) layer l).2.Accounted r := by
  have hknown := known?_exists? r (componentName layer.displayName) l
  have hafter := h.exists? (componentName layer.displayName)
  rcases componentFor_cases r layer l with
    ⟨_, hnone⟩ | ⟨hroot, l', ⟨hno, hnone⟩ | ⟨hyes, hsome⟩⟩
  · rw [hnone]
    exact h
  · rw [hno] at hafter
    rw [hnone]
    exact hafter
  · rw [hyes] at hafter hknown
    rw [hsome]
    exact hafter.insert hroot hknown

def Independent (l : Ledger) : Prop := l.imports.names = [] ∧ Call.lookedUp l.calls = []

theorem Independent.record {l : Ledger} (h : l.Independent) (fileKey id : String) :
    (l.record (.image fileKey id)).Independent := by
  refine ⟨h.1, ?_⟩
  rw [Ledger.record, Call.lookedUp, List.filterMap_append]
  exact (List.append_nil _).trans h.2

end Ledger

end DesignComponents
