import DesignComponents.Link
import DesignComponents.Proofs.Url.Pairs

/-!
# Names of paths

No name of a path holds a question mark or a number sign: where it was written, one of them would
have ended the path, and whatever else is put into a path is escaped. So the key of a file that a
link names can be put into the path of another address.
-/

namespace DesignComponents

namespace Url

/-- Texts that do not end a path. -/
def IsPathPart (cs : List Char) : Prop := ∀ c ∈ cs, isBeforeQuery c = true

instance (cs : List Char) : Decidable (IsPathPart cs) :=
  decidable_of_iff (cs.all isBeforeQuery = true) List.all_eq_true

def ArePathParts (names : List (List Char)) : Prop := ∀ name ∈ names, IsPathPart name

theorem IsPathPart.nil : IsPathPart [] := List.forall_mem_nil _

theorem isPathPart_takeWhile (cs : List Char) : IsPathPart (cs.takeWhile isBeforeQuery) :=
  fun _ hc => List.mem_takeWhile_imp hc

theorem isPathPart_percentEncode (segment : List Char) :
    IsPathPart (percentEncode outsidePath segment) := by
  intro d hd
  obtain ⟨c, _, hd⟩ := List.mem_flatMap.mp hd
  have hne : ∀ m, isMark m = true → outsidePath m = true → d ≠ m := by
    intro m hmark hout
    split at hd
    · obtain ⟨b, _, hb⟩ := List.mem_flatMap.mp hd
      exact fun heq => not_mem_percentByte hmark b (heq ▸ hb)
    · rename_i hinside
      rw [List.mem_singleton.mp hd]
      exact fun heq => hinside (heq ▸ hout)
  simp [isBeforeQuery, hne '?' (by decide) (by decide), hne '#' (by decide) (by decide)]

theorem mem_of_mem_splitBy {p : Char → Bool} {cs part : List Char} (h : part ∈ splitBy p cs) :
    ∀ c ∈ part, c ∈ cs := by
  induction cs generalizing part with
  | nil =>
    rw [splitBy, List.mem_singleton] at h
    rw [h]
    exact List.forall_mem_nil _
  | cons d cs ih =>
    rw [splitBy] at h
    split at h
    · rcases List.mem_cons.mp h with rfl | h
      · exact List.forall_mem_nil _
      · exact fun c hc => List.mem_cons_of_mem d (ih h c hc)
    · obtain ⟨first, parts, hparts⟩ := List.exists_cons_of_ne_nil (splitBy_ne_nil p cs)
      rw [hparts, extendFirst] at h
      rw [hparts] at ih
      rcases List.mem_cons.mp h with rfl | h
      · exact List.forall_mem_cons.mpr ⟨List.mem_cons_self,
          fun c hc => List.mem_cons_of_mem d (ih List.mem_cons_self c hc)⟩
      · exact fun c hc => List.mem_cons_of_mem d (ih (List.mem_cons_of_mem _ h) c hc)

theorem ArePathParts.step {names : Names} (h : ArePathParts names) (kind : SchemeKind)
    {segment : List Char} (hsegment : IsPathPart segment) (last : Bool) :
    ArePathParts (step kind names segment last) := by
  have hfolder : ∀ ns : Names, ArePathParts ns → ArePathParts (if last then [] :: ns else ns) := by
    intro ns hns
    split
    · exact List.forall_mem_cons.mpr ⟨.nil, hns⟩
    · exact hns
  unfold Url.step
  dsimp only
  split
  · split
    · refine hfolder _ ?_
      split
      · exact h
      · exact List.forall_mem_nil _
    · exact hfolder _ fun name hname => h name (List.mem_of_mem_tail hname)
  · split
    · exact hfolder names h
    · split
      · refine List.forall_mem_singleton.mpr fun c hc => ?_
        rcases List.mem_append.mp hc with hc | hc
        · exact hsegment c (List.mem_of_mem_take hc)
        · rw [List.mem_singleton.mp hc]
          decide
      · exact List.forall_mem_cons.mpr ⟨isPathPart_percentEncode segment, h⟩

theorem ArePathParts.steps {names : Names} (h : ArePathParts names) (kind : SchemeKind)
    {segments : List (List Char)} (hsegments : ArePathParts segments) :
    ArePathParts (steps kind names segments) := by
  induction segments generalizing names with
  | nil => exact h
  | cons segment segments ih =>
    obtain ⟨hsegment, hrest⟩ := List.forall_mem_cons.mp hsegments
    cases segments with
    | nil => exact h.step kind hsegment true
    | cons next rest => exact ih (h.step kind hsegment false) hrest

theorem arePathParts_readNames (kind : SchemeKind) (cs : List Char) :
    ArePathParts (readNames kind [] cs).1 := by
  have hsplit : ArePathParts (splitBy (isSlash kind) (cs.takeWhile isBeforeQuery)) :=
    fun part hpart c hc => isPathPart_takeWhile cs c (mem_of_mem_splitBy hpart c hc)
  have hnames : ArePathParts (Url.steps kind [] (splitBy (isSlash kind)
      (cs.takeWhile isBeforeQuery))).reverse := fun name hname =>
    ArePathParts.steps (List.forall_mem_nil _) kind hsplit name (List.mem_reverse.mp hname)
  change ArePathParts (trimNames kind _)
  unfold trimNames
  split
  · split
    · exact List.forall_mem_singleton.mpr .nil
    · exact fun name hname => hnames name ((List.dropWhile_sublist _).subset hname)
  · exact hnames

theorem arePathParts_readPath (kind : SchemeKind) (cs : List Char) :
    ArePathParts (readPath kind cs).1 := by
  cases cs with
  | nil =>
    rw [readPath]
    split
    · exact List.forall_mem_nil _
    · exact List.forall_mem_singleton.mpr .nil
  | cons c cs =>
    rw [readPath]
    split
    · exact arePathParts_readNames kind cs
    · split
      · exact List.forall_mem_nil _
      · exact arePathParts_readNames kind (c :: cs)

/-! ## Whole addresses -/

def HasPathParts (url : Url) : Prop := ∀ name ∈ url.pathNames, IsPathPart name.toList

theorem hasPathParts_of_path {url : Url} {names : List (List Char)}
    (hpath : url.path = pathOf names) (h : ArePathParts names) : url.HasPathParts := by
  intro name hname
  rw [pathNames, hpath] at hname
  obtain ⟨cs, hcs, rfl⟩ := List.mem_map.mp hname
  rw [String.toList_ofList]
  exact h cs hcs

theorem hasPathParts_of_readFromAuthority {scheme : String} {cs : List Char} {url : Url}
    (h : readFromAuthority scheme cs = .ok url) : url.HasPathParts := by
  obtain ⟨⟨host, port, rest⟩, _, h⟩ := bind_eq_ok_iff.mp h
  cases h
  exact hasPathParts_of_path rfl (arePathParts_readPath (schemeKind scheme) rest)

theorem hasPathParts_readPlain (scheme : String) (cs : List Char) :
    (readPlain scheme cs).HasPathParts := by
  unfold readPlain
  split
  · exact hasPathParts_of_path rfl (arePathParts_readNames .other _)
  · exact List.forall_mem_nil _

theorem hasPathParts_of_readFile {cs : List Char} {url : Url} (h : readFile cs = .ok url) :
    url.HasPathParts := by
  unfold readFile at h
  dsimp only at h
  split at h
  · split at h
    · obtain ⟨⟨host, rest⟩, _, h⟩ := bind_eq_ok_iff.mp h
      cases h
      exact hasPathParts_of_path rfl (arePathParts_readPath .file rest)
    · cases h
      exact hasPathParts_of_path rfl (arePathParts_readPath .file _)
  · cases h
    exact hasPathParts_of_path rfl (arePathParts_readPath .file _)

theorem hasPathParts_of_read {text : String} {url : Url} (h : read text = .ok url) :
    url.HasPathParts := by
  unfold read at h
  split at h
  · rename_i scheme rest _
    unfold readBehindScheme at h
    split at h
    · exact hasPathParts_of_readFromAuthority h
    · exact hasPathParts_of_readFile h
    · split at h
      · exact hasPathParts_of_readFromAuthority h
      · cases h
        exact hasPathParts_readPlain scheme _
  · cases h

end Url

/-- The key of a file that a link names does not end a path. -/
theorem Link.isPathPart_fileKey {text : String} {link : Link} (h : Link.read text = .ok link) :
    Url.IsPathPart link.fileKey.toList := by
  unfold Link.read at h
  split at h
  · cases h
  · rename_i url hread
    split at h
    · split at h
      · cases h
      · rename_i fileKey hkey
        split at h
        · cases h
        · cases h
          rw [fileKey?, Option.filter_eq_some_iff] at hkey
          exact Url.hasPathParts_of_read hread fileKey
            ((List.dropWhile_sublist _).subset (List.mem_of_getElem? hkey.1))
    · cases h

end DesignComponents
