import DesignComponents.Proofs.Style.ClassText
import DesignComponents.Style.Classes

/-!
# How classes are spelled

The classes of a layer come in ten families. Each class is one of a few fixed words of its family
or one of its stems before a size or the name of a color, whatever the numbers of the layer are.
-/

namespace DesignComponents

/-- The families of classes in the order in which a layer's classes are put together. -/
inductive StyleFamily
  | size
  | padding
  | font
  | background
  | border
  | radius
  | shadow
  | layout
  | textColor
  | gap
  deriving DecidableEq

namespace StyleFamily

def classes : StyleFamily → Layer → ClassList
  | size => Layer.sizeClasses
  | padding => Layer.paddingClasses
  | font => Layer.fontClasses
  | background => Layer.backgroundClasses
  | border => Layer.borderClasses
  | radius => Layer.radiusClasses
  | shadow => Layer.shadowClasses
  | layout => Layer.layoutClasses
  | textColor => Layer.textColorClasses
  | gap => Layer.gapClasses

def all : List StyleFamily :=
  [size, padding, font, background, border, radius, shadow, layout, textColor, gap]

theorem mem_all (family : StyleFamily) : family ∈ all := by
  cases family <;> decide

theorem nodup_all : all.Nodup := by decide

end StyleFamily

theorem Layer.families_eq : Layer.families = StyleFamily.all.map StyleFamily.classes := rfl

/-! ## Words and stems -/

def paddingStems : List String := ["p-", "py-", "px-", "pt-", "pb-", "pl-", "pr-"]

def shadowSizes : List String :=
  ["shadow-sm", "shadow", "shadow-md", "shadow-lg", "shadow-xl", "shadow-2xl"]

def layoutWords : List String :=
  ["flex", "flex-row", "flex-col", "flex-wrap", "justify-center", "justify-start", "justify-end",
    "justify-between", "justify-around", "justify-evenly", "items-center", "items-start",
    "items-end"]

/-- The token is one that the family can give to a layer. -/
inductive Spelled : StyleFamily → String → Prop
  | width (x : Double) : Spelled .size ("w-" ++ spacingSuffix x)
  | height (x : Double) : Spelled .size ("h-" ++ spacingSuffix x)
  | padding {stem : String} (hstem : stem ∈ paddingStems) (x : Double) :
      Spelled .padding (stem ++ spacingSuffix x)
  | fontSize (x : Double) : Spelled .font ("text-" ++ fontSizeSuffix x)
  | fontWeight {x : Double} {weight : String} (hweight : fontWeightSuffix? x = some weight) :
      Spelled .font ("font-" ++ weight)
  | background (c : Color) : Spelled .background ("bg-" ++ c.paletteName 1)
  | border : Spelled .border "border"
  | borderColor (c : Color) (opacity : Double) :
      Spelled .border ("border-" ++ c.paletteName opacity)
  | rounded : Spelled .radius "rounded"
  | radius (x : Double) : Spelled .radius ("rounded-" ++ radiusSuffix x)
  | shadow {token : String} (htoken : token ∈ shadowSizes) : Spelled .shadow token
  | shadowColor (c : Color) : Spelled .shadow ("shadow-" ++ c.paletteName 1)
  | layout {token : String} (htoken : token ∈ layoutWords) : Spelled .layout token
  | textColor (c : Color) : Spelled .textColor ("text-" ++ c.paletteName 1)
  | gap (x : Double) : Spelled .gap ("gap-" ++ spacingSuffix x)

namespace Layer

theorem mem_suffixed {stem t : String} {suffix : Option String} (h : t ∈ suffixed stem suffix) :
    ∃ s ∈ suffix, stem ++ s = t := by
  cases suffix with
  | none => cases h
  | some s => exact ⟨s, rfl, (List.mem_singleton.mp h).symm⟩

theorem mem_suffixed_map {α : Type} {g : α → String} {x : Option α} {stem t : String}
    (h : t ∈ suffixed stem (x.map g)) : ∃ a ∈ x, stem ++ g a = t := by
  obtain ⟨s, hs, rfl⟩ := mem_suffixed h
  obtain ⟨a, ha, rfl⟩ := Option.map_eq_some_iff.mp hs
  exact ⟨a, ha, rfl⟩

theorem spelled_sizeClasses {l : Layer} {t : String} (h : t ∈ l.sizeClasses.tokens) :
    Spelled .size t := by
  have hlisted := ClassList.mem_tokens_ofList h
  have hmem : t ∈ suffixed "w-" ((nonzero (l.box.map (·.width))).map spacingSuffix) ∨
      t ∈ suffixed "h-" ((nonzero (l.box.map (·.height))).map spacingSuffix) := by
    split at hlisted
    · exact List.mem_append.mp hlisted
    · exact .inl hlisted
  rcases hmem with hwidth | hheight
  · obtain ⟨x, _, rfl⟩ := mem_suffixed_map hwidth
    exact .width x
  · obtain ⟨x, _, rfl⟩ := mem_suffixed_map hheight
    exact .height x

/-- However the sides are taken together, each class is a stem and the suffix of a side. -/
theorem mem_paddingTokens {top bottom left right : Option String} {t : String}
    (h : t ∈ paddingTokens top bottom left right) :
    ∃ stem ∈ paddingStems, ∃ side ∈ [top, bottom, left, right], ∃ s ∈ side, stem ++ s = t := by
  unfold paddingTokens at h
  split at h
  · rename_i a b c d
    split at h
    · rw [List.mem_singleton.mp h]
      exact ⟨"p-", by decide, some a, by simp, a, rfl, rfl⟩
    · split at h
      · rcases List.mem_cons.mp h with rfl | h
        · exact ⟨"py-", by decide, some a, by simp, a, rfl, rfl⟩
        · rw [List.mem_singleton.mp h]
          exact ⟨"px-", by decide, some c, by simp, c, rfl, rfl⟩
      · rcases List.mem_cons.mp h with rfl | h
        · exact ⟨"pt-", by decide, some a, by simp, a, rfl, rfl⟩
        · rcases List.mem_cons.mp h with rfl | h
          · exact ⟨"pb-", by decide, some b, by simp, b, rfl, rfl⟩
          · rcases List.mem_cons.mp h with rfl | h
            · exact ⟨"pl-", by decide, some c, by simp, c, rfl, rfl⟩
            · rw [List.mem_singleton.mp h]
              exact ⟨"pr-", by decide, some d, by simp, d, rfl, rfl⟩
  · rcases List.mem_append.mp h with h | hright
    · rcases List.mem_append.mp h with h | hleft
      · rcases List.mem_append.mp h with htop | hbottom
        · exact ⟨"pt-", by decide, top, by simp, mem_suffixed htop⟩
        · exact ⟨"pb-", by decide, bottom, by simp, mem_suffixed hbottom⟩
      · exact ⟨"pl-", by decide, left, by simp, mem_suffixed hleft⟩
    · exact ⟨"pr-", by decide, right, by simp, mem_suffixed hright⟩

theorem spelled_paddingClasses {l : Layer} {t : String} (h : t ∈ l.paddingClasses.tokens) :
    Spelled .padding t := by
  obtain ⟨stem, hstem, side, hside, s, hs, rfl⟩ :=
    mem_paddingTokens (ClassList.mem_tokens_ofList h)
  have hlength : ∃ x, spacingSuffix x = s := by
    have hsides : ∀ side ∈ [l.paddingTop, l.paddingBottom, l.paddingLeft, l.paddingRight].map
        (·.map spacingSuffix), s ∈ side → ∃ x, spacingSuffix x = s := by
      intro side hmem hs
      obtain ⟨x?, _, rfl⟩ := List.mem_map.mp hmem
      obtain ⟨x, _, rfl⟩ := Option.map_eq_some_iff.mp hs
      exact ⟨x, rfl⟩
    exact hsides side hside hs
  obtain ⟨x, rfl⟩ := hlength
  exact .padding hstem x

theorem spelled_fontClasses {l : Layer} {t : String} (h : t ∈ l.fontClasses.tokens) :
    Spelled .font t := by
  rcases List.mem_append.mp (ClassList.mem_tokens_ofList h) with hsize | hweight
  · obtain ⟨x, _, rfl⟩ := mem_suffixed_map hsize
    exact .fontSize x
  · obtain ⟨weight, hmem, rfl⟩ := mem_suffixed hweight
    obtain ⟨x, _, hx⟩ := Option.bind_eq_some_iff.mp hmem
    exact .fontWeight hx

theorem spelled_backgroundClasses {l : Layer} {t : String} (h : t ∈ l.backgroundClasses.tokens) :
    Spelled .background t := by
  obtain ⟨c, _, rfl⟩ := mem_suffixed_map (ClassList.mem_tokens_ofList h)
  exact .background c

theorem spelled_borderClasses {l : Layer} {t : String} (h : t ∈ l.borderClasses.tokens) :
    Spelled .border t := by
  unfold borderClasses at h
  split at h
  · cases h
  · split at h
    · rename_i color opacity _
      rcases List.mem_cons.mp (ClassList.mem_tokens_ofList h) with rfl | hcolor
      · exact .border
      · rw [List.mem_singleton.mp hcolor]
        exact .borderColor color (opacity.getD 1)
    · cases h

theorem spelled_radiusToken (x : Double) : Spelled .radius (radiusToken x) := by
  unfold radiusToken
  split
  · exact .rounded
  · exact .radius x

theorem spelled_radiusClasses {l : Layer} {t : String} (h : t ∈ l.radiusClasses.tokens) :
    Spelled .radius t := by
  have hlisted := Option.mem_toList.mp (ClassList.mem_tokens_ofList h)
  obtain ⟨x, _, rfl⟩ := Option.map_eq_some_iff.mp hlisted
  exact spelled_radiusToken x

theorem shadowToken_mem (extent : Double) : shadowToken extent ∈ shadowSizes := by
  unfold shadowToken
  repeat (split; · decide)
  decide

theorem spelled_shadowTokens {e : Effect} {t : String} (h : t ∈ shadowTokens e) :
    Spelled .shadow t := by
  unfold shadowTokens at h
  split at h
  · rcases List.mem_cons.mp h with rfl | hcolor
    · exact .shadow (shadowToken_mem (extent e))
    · obtain ⟨c, _, rfl⟩ := mem_suffixed_map hcolor
      exact .shadowColor c
  · cases h

theorem spelled_shadowClasses {l : Layer} {t : String} (h : t ∈ l.shadowClasses.tokens) :
    Spelled .shadow t := by
  obtain ⟨e, _, he⟩ := List.mem_flatMap.mp (ClassList.mem_tokens_ofList h)
  exact spelled_shadowTokens he

theorem mem_layoutWords (mode : Option LayoutMode) (main : Option MainAlignment)
    (cross : Option CrossAlignment) (wrap : Option LayoutWrap) {t : String}
    (h : t ∈ directionTokens mode ++ mainTokens main ++ crossTokens cross ++ wrapTokens wrap) :
    t ∈ layoutWords := by
  have hdirection : ∀ t ∈ directionTokens mode, t ∈ layoutWords := by
    unfold directionTokens
    split <;> decide
  have hmain : ∀ t ∈ mainTokens main, t ∈ layoutWords := by
    unfold mainTokens
    split <;> decide
  have hcross : ∀ t ∈ crossTokens cross, t ∈ layoutWords := by
    unfold crossTokens
    split <;> decide
  have hwrap : ∀ t ∈ wrapTokens wrap, t ∈ layoutWords := by
    unfold wrapTokens
    split <;> decide
  simp only [List.mem_append] at h
  rcases h with ((h | h) | h) | h
  · exact hdirection t h
  · exact hmain t h
  · exact hcross t h
  · exact hwrap t h

theorem spelled_layoutClasses {l : Layer} {t : String} (h : t ∈ l.layoutClasses.tokens) :
    Spelled .layout t :=
  .layout (mem_layoutWords _ _ _ _ (ClassList.mem_tokens_ofList h))

theorem spelled_textColorClasses {l : Layer} {t : String} (h : t ∈ l.textColorClasses.tokens) :
    Spelled .textColor t := by
  unfold textColorClasses at h
  split at h
  · obtain ⟨c, _, rfl⟩ := mem_suffixed_map (ClassList.mem_tokens_ofList h)
    exact .textColor c
  · cases h

theorem spelled_gapClasses {l : Layer} {t : String} (h : t ∈ l.gapClasses.tokens) :
    Spelled .gap t := by
  obtain ⟨x, _, rfl⟩ := mem_suffixed_map (ClassList.mem_tokens_ofList h)
  exact .gap x

end Layer

/-- Every class that a family gives to a layer is spelled in the way of that family. -/
theorem StyleFamily.spelled {family : StyleFamily} {l : Layer} {t : String}
    (h : t ∈ (family.classes l).tokens) : Spelled family t := by
  cases family with
  | size => exact Layer.spelled_sizeClasses h
  | padding => exact Layer.spelled_paddingClasses h
  | font => exact Layer.spelled_fontClasses h
  | background => exact Layer.spelled_backgroundClasses h
  | border => exact Layer.spelled_borderClasses h
  | radius => exact Layer.spelled_radiusClasses h
  | shadow => exact Layer.spelled_shadowClasses h
  | layout => exact Layer.spelled_layoutClasses h
  | textColor => exact Layer.spelled_textColorClasses h
  | gap => exact Layer.spelled_gapClasses h

end DesignComponents
