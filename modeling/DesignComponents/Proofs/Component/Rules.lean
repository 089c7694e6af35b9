import DesignComponents.Component.Role
import DesignComponents.Proofs.Conversion.Visibility
import DesignComponents.Proofs.Text.LowerCase

/-!
# The rules for roles

The rules by which a layer gets its role, each with its own condition on what can be seen of the
layer. Several may fit one layer; the first in the list that does decides, and where none fits the
layer becomes nothing. The names that the rules look for are found in any spelling of the layer's
name in lower case.
-/

namespace DesignComponents

/-- What the rules look at: whether the layer is visible, the component that it is said to have, its
kind, and its name in lower case. -/
structure Traits where
  visible : Bool
  component? : Option String
  kind : LayerKind
  name : List Char

structure Rule where
  fits : Traits → Bool
  role : Traits → Role

namespace Rule

def invisible : Rule := ⟨fun t => !t.visible, fun _ => .empty⟩

def ofComponent : Rule :=
  ⟨fun t => t.component?.isSome, fun t => .reference (t.component?.getD "")⟩

def ofImage : Rule :=
  ⟨fun t => t.kind = .vector ∨ t.kind = .componentInstance ∨ t.name = "logo".toList,
    fun _ => .image⟩

def ofKinds (kinds : List LayerKind) (role : Role) : Rule := ⟨fun t => t.kind ∈ kinds, fun _ => role⟩

/-- The part of the name before its first hyphen is the word. -/
def ofLeadingPart (word : String) (role : Role) : Rule :=
  ⟨fun t => t.name.takeWhile (· ≠ '-') = word.toList, fun _ => role⟩

def ofPart (word : String) (role : Role) : Rule := ⟨fun t => word.toList <:+: t.name, fun _ => role⟩

def ofName (word : String) (role : Role) : Rule := ⟨fun t => t.name = word.toList, fun _ => role⟩

def all : List Rule :=
  [invisible, ofComponent, ofImage, ofKinds [.rectangle] .imageContainer, ofKinds [.text] .text,
    ofLeadingPart "label" .label, ofLeadingPart "input" .input, ofPart "table" .table,
    ofName "heading-content" .headingCell, ofName "data-content" .dataCell,
    ofKinds [.frame, .group] .container]

/-- The role by the first rule that fits. -/
def decided (rules : List Rule) (t : Traits) : Role :=
  ((rules.find? (·.fits t)).map (·.role t)).getD .empty

@[simp] theorem decided_nil (t : Traits) : decided [] t = .empty := rfl

theorem decided_cons (r : Rule) (rules : List Rule) (t : Traits) :
    decided (r :: rules) t = if r.fits t = true then r.role t else decided rules t := by
  rw [decided, List.find?_cons]
  cases r.fits t with
  | true => rfl
  | false => rfl

theorem decided_hidden (t : Traits) (h : t.visible = false) : decided all t = .empty := by
  rw [all, decided_cons, if_pos]
  · rfl
  · simp [invisible, h]

theorem decided_component (t : Traits) (h : t.visible = true) {name : String}
    (hname : t.component? = some name) : decided all t = .reference name := by
  rw [all, decided_cons, if_neg, decided_cons, if_pos]
  · simp [ofComponent, hname]
  · simp [ofComponent, hname]
  · simp [invisible, h]

theorem decided_own (t : Traits) (h : t.visible = true) (hnone : t.component? = none) :
    decided all t =
      if t.kind = .vector ∨ t.kind = .componentInstance ∨ t.name = "logo".toList then .image
      else if t.kind = .rectangle then .imageContainer
      else if t.kind = .text then .text
      else if t.name.takeWhile (· ≠ '-') = "label".toList then .label
      else if t.name.takeWhile (· ≠ '-') = "input".toList then .input
      else if "table".toList <:+: t.name then .table
      else if t.name = "heading-content".toList then .headingCell
      else if t.name = "data-content".toList then .dataCell
      else if t.kind = .frame ∨ t.kind = .group then .container
      else .empty := by
  simp only [all, decided_cons, decided_nil, invisible, ofComponent, ofImage, ofKinds,
    ofLeadingPart, ofPart, ofName, h, hnone, Bool.not_true, Option.isSome_none,
    Bool.false_eq_true, if_false, decide_eq_true_eq, List.mem_cons, List.not_mem_nil, or_false]

/-- A reference comes of the one rule for layers with a component, and of no other. -/
theorem decided_eq_reference_iff (t : Traits) (name : String) :
    decided all t = .reference name ↔ t.visible = true ∧ t.component? = some name := by
  cases hvisible : t.visible with
  | false => simp [decided_hidden t hvisible]
  | true =>
    cases hcomponent : t.component? with
    | some other => simp [decided_component t hvisible hcomponent]
    | none =>
      rw [decided_own t hvisible hcomponent]
      repeat' split
      all_goals simp

end Rule

namespace Layer

/-! ## The rules for a layer of its own -/

/-- The words that the rules look for in a name. -/
def ruleWords : List String :=
  ["logo", "label", "input", "table", "heading-content", "data-content"]

theorem isSettled_of_mem (word : String) (h : word ∈ ruleWords) : IsSettled word.toList := by
  have hall : ∀ w ∈ ruleWords, IsSettled w.toList := by
    simp [ruleWords, IsSettled, isForeign]
  exact hall word h

/-- What the rules look at in a layer whose name is spelled so in lower case. -/
def traits (l : Layer) (component? : Option String) (name : List Char) : Traits :=
  ⟨l.visible, component?, l.kind, name⟩

theorem ownRole_eq_decided {l : Layer} (h : l.visible = true) {name : List Char}
    (hname : LowersTo l.displayName.toList name) :
    l.ownRole = Rule.decided Rule.all (l.traits none name) := by
  have heq : ∀ word : String, IsSettled word.toList →
      (name = word.toList ↔ l.keyword = word.toList) :=
    fun word hword => hname.eq_iff hword
  have hleading : ∀ word : String, IsSettled word.toList → '-' ∉ word.toList →
      (name.takeWhile (· ≠ '-') = word.toList ↔ leadingPart l.keyword = word.toList) :=
    fun word hword hhyphen => hname.takeWhile_iff hword hhyphen
  have htable : "table".toList <:+: name ↔ occursIn "table".toList l.keyword = true := by
    rw [occursIn_iff]
    exact hname.infix_iff (isSettled_of_mem "table" (by decide)) (by decide)
  rw [Rule.decided_own (l.traits none name) h rfl, ownRole]
  simp only [traits, heq _ (isSettled_of_mem "logo" (by decide)),
    hleading _ (isSettled_of_mem "label" (by decide)) (by decide),
    hleading _ (isSettled_of_mem "input" (by decide)) (by decide), htable,
    heq _ (isSettled_of_mem "heading-content" (by decide)),
    heq _ (isSettled_of_mem "data-content" (by decide))]
  by_cases himage : l.kind = .vector ∨ l.kind = .componentInstance
  · rw [if_pos himage, if_pos (or_assoc.mp (.inl himage))]
  · by_cases hlogo : l.keyword = "logo".toList
    · rw [if_neg himage, if_pos hlogo, if_pos (.inr (.inr hlogo))]
    · have hneither := not_or.mpr ⟨himage, hlogo⟩
      rw [if_neg himage, if_neg hlogo, if_neg (mt or_assoc.mpr hneither)]
      rfl

/-! ## Classification -/

section Classify

variable {m : Type → Type} [Monad m] (component? : Layer → m (Option String)) (l : Layer)

/-- Asks for the component of a layer and notes that it was asked. -/
def noting (asked : Layer) : StateT (List Layer) m (Option String) := do
  modify (· ++ [asked])
  component? asked

theorem classify_of_visible (h : l.visible = true) :
    l.classify component? =
      component? l >>= fun answer => pure ((answer.map Role.reference).getD l.ownRole) := by
  rw [classify, if_pos h]
  apply bind_congr
  intro answer
  cases answer with
  | none => rfl
  | some name => rfl

theorem classify_of_hidden (h : l.visible = false) : l.classify component? = pure .empty := by
  rw [classify, if_neg (by rw [h]; exact Bool.false_ne_true)]

variable [LawfulMonad m]

/-- The role of a layer is that by the first rule that fits. Whether it has a component is asked
once if the layer is visible and else not at all, and it becomes a reference if and only if it is
visible and has one. -/
theorem classify_follows_rules {name : List Char} (hname : LowersTo l.displayName.toList name) :
    (l.classify component? = do
        let answer ← (if l.visible then component? l else pure none)
        pure (Rule.decided Rule.all (l.traits answer name))) ∧
      (∀ asked, (l.classify (noting component?)).run asked = do
        let role ← l.classify component?
        pure (role, if l.visible then asked ++ [l] else asked)) ∧
      ∀ answer c, Rule.decided Rule.all (l.traits answer name) = .reference c ↔
        l.visible = true ∧ answer = some c := by
  refine ⟨?_, ?_, fun answer c => Rule.decided_eq_reference_iff (l.traits answer name) c⟩
  · cases hvisible : l.visible with
    | false =>
      rw [classify_of_hidden component? l hvisible, if_neg Bool.false_ne_true, pure_bind]
      rw [Rule.decided_hidden (l.traits none name) hvisible]
    | true =>
      rw [classify_of_visible component? l hvisible, if_pos rfl]
      apply bind_congr
      intro answer
      cases answer with
      | none =>
        rw [ownRole_eq_decided hvisible hname]
        rfl
      | some c =>
        rw [Rule.decided_component (l.traits (some c) name) hvisible rfl]
        rfl
  · intro asked
    cases hvisible : l.visible with
    | false =>
      rw [classify_of_hidden _ l hvisible, classify_of_hidden _ l hvisible]
      simp
    | true =>
      rw [classify_of_visible _ l hvisible, classify_of_visible _ l hvisible]
      simp [noting]

end Classify

def captionLayer : Layer := Conversion.bareLayer "1:1" "LABEL-Ü" .frame true

theorem captionLayer_lowersTo : LowersTo captionLayer.displayName.toList "label-ü".toList := by
  have hname : captionLayer.displayName.toList = ['L', 'A', 'B', 'E', 'L', '-', 'Ü'] := by
    simp [captionLayer, Conversion.bareLayer, displayName]
  have hlower : "label-ü".toList = ['l', 'a', 'b', 'e', 'l', '-', 'ü'] := by simp
  have hforeign : IsLowered 'Ü' ['ü'] := by
    rw [IsLowered, if_neg (by decide), if_neg (by decide)]
    simp [isForeign]
  have hlast : LowersTo ['Ü'] ['ü'] := .foreign (by simp [isForeign]) hforeign .nil
  rw [hname, hlower]
  refine .ascii ?_ (.ascii ?_ (.ascii ?_ (.ascii ?_ (.ascii ?_ (.ascii ?_ hlast)))))
  all_goals simp [isForeign]

theorem captionLayer_decided :
    Rule.decided Rule.all (captionLayer.traits none "label-ü".toList) = .label := by
  rw [Rule.decided_own (captionLayer.traits none "label-ü".toList) rfl rfl]
  simp [traits, captionLayer, Conversion.bareLayer]

theorem classify_follows_rules_caption :
    LowersTo captionLayer.displayName.toList "label-ü".toList ∧
      captionLayer.classify (fun _ => (pure none : Id (Option String))) = pure .label ∧
      (captionLayer.classify (noting fun _ => (pure none : Id (Option String)))).run [] =
        pure (.label, [captionLayer]) := by
  obtain ⟨hrole, hasked, _⟩ := classify_follows_rules (fun _ => (pure none : Id (Option String)))
    captionLayer captionLayer_lowersTo
  have hlabel : captionLayer.classify (fun _ => (pure none : Id (Option String))) =
      pure .label := by
    rw [hrole, if_pos (show captionLayer.visible = true from rfl), pure_bind,
      captionLayer_decided]
  refine ⟨captionLayer_lowersTo, hlabel, ?_⟩
  rw [hasked, hlabel, pure_bind, if_pos (show captionLayer.visible = true from rfl)]
  rfl

end Layer

end DesignComponents
