import DesignComponents.Proofs.Project.FileTrees

/-!
# Files below a root

A relative path joined to a root has the parts of the root and behind them its own. A plain name
is the last part then, so that the path of a file leads where the root leads and then to the name.
-/

namespace DesignComponents

/-! ## Parts of a text -/

theorem splitBy_ne_nil (p : Char → Bool) (cs : List Char) : splitBy p cs ≠ [] := by
  cases cs with
  | nil => simp [splitBy]
  | cons c cs =>
    rw [splitBy]
    split
    · simp
    · unfold extendFirst
      split <;> simp

theorem extendFirst_append (c : Char) {parts : List (List Char)} (h : parts ≠ [])
    (more : List (List Char)) :
    extendFirst c (parts ++ more) = extendFirst c parts ++ more := by
  cases parts with
  | nil => exact absurd rfl h
  | cons part parts => rfl

theorem splitBy_append {p : Char → Bool} {c : Char} (hc : p c = true) (cs ds : List Char) :
    splitBy p (cs ++ c :: ds) = splitBy p cs ++ splitBy p ds := by
  induction cs with
  | nil => simp [splitBy, hc]
  | cons d cs ih =>
    rw [List.cons_append, splitBy, splitBy, ih]
    split
    · rfl
    · exact extendFirst_append d (splitBy_ne_nil p cs) _

theorem splitBy_append_of_forall {p : Char → Bool} {cs : List Char} (h : ∀ c ∈ cs, p c = false)
    {ds part : List Char} {parts : List (List Char)} (hds : splitBy p ds = part :: parts) :
    splitBy p (cs ++ ds) = (cs ++ part) :: parts := by
  induction cs with
  | nil => exact hds
  | cons c cs ih =>
    obtain ⟨hc, hcs⟩ := List.forall_mem_cons.mp h
    rw [List.cons_append, splitBy, ih hcs, hc]
    rfl

theorem splitBy_eq_singleton {p : Char → Bool} {cs : List Char} (h : ∀ c ∈ cs, p c = false) :
    splitBy p cs = [cs] := by
  have happend := splitBy_append_of_forall h (show splitBy p [] = [[]] from rfl)
  rwa [List.append_nil] at happend

namespace Path

/-! ## Plain names -/

/-- A name that one entry of a directory can have and that does not stand for a directory. -/
structure IsPlainName (name : String) : Prop where
  no_slash : '/' ∉ name.toList
  ne_empty : name.toList ≠ []
  not_dots : FileTree.isDots name = false

namespace IsPlainName

variable {name : String}

theorem ne_dot (h : IsPlainName name) : name ≠ "." := by
  rintro rfl
  exact absurd h.not_dots (by decide)

theorem ne_dots (h : IsPlainName name) : name ≠ ".." := by
  rintro rfl
  exact absurd h.not_dots (by decide)

theorem splitBy_eq (h : IsPlainName name) :
    splitBy (· == '/') name.toList = [name.toList] := by
  apply splitBy_eq_singleton
  intro c hc
  rw [beq_eq_false_iff_ne]
  rintro rfl
  exact h.no_slash hc

theorem isAbsolute_eq (h : IsPlainName name) : isAbsolute name = false := by
  rw [isAbsolute, beq_eq_false_iff_ne]
  intro hhead
  exact h.no_slash (List.mem_of_head? hhead)

theorem last_ne_slash (h : IsPlainName name) : name.toList.getLast? ≠ some '/' := by
  intro hlast
  exact h.no_slash (List.mem_of_getLast? hlast)

end IsPlainName

theorem isDots_of_head? {name : String} {c : Char} (hhead : name.toList.head? = some c)
    (hdot : c ≠ '.') : FileTree.isDots name = false := by
  rw [FileTree.isDots, Bool.or_eq_false_iff, beq_eq_false_iff_ne, beq_eq_false_iff_ne]
  constructor
  · rintro rfl
    exact hdot (Option.some.inj hhead).symm
  · rintro rfl
    exact hdot (Option.some.inj hhead).symm

/-- A name without slashes that begins with anything but a dot is plain. -/
theorem isPlainName_of_head? {name : String} {c : Char} (hslash : '/' ∉ name.toList)
    (hhead : name.toList.head? = some c) (hdot : c ≠ '.') : IsPlainName name where
  no_slash := hslash
  ne_empty hempty := by
    rw [hempty] at hhead
    cases hhead
  not_dots := isDots_of_head? hhead hdot

theorem IsPlainName.parts_eq {name : String} (h : IsPlainName name) : parts name = [name] := by
  rw [parts, h.splitBy_eq, List.filter_cons_of_pos (by simp [h.ne_empty]), List.filter_nil,
    List.map_singleton, String.ofList_toList]

/-! ## Joining a relative path -/

section Join

variable {root path : String} (hpath : isAbsolute path = false)
include hpath

/-- Joined to a root a path stands alone, or what stands before it ends with a slash. -/
theorem join_cases :
    root.toList = [] ∧ join root path = path ∨
      ∃ front, (root.toList = front ∨ root.toList = front ++ ['/']) ∧ root.toList ≠ [] ∧
        (join root path).toList = front ++ '/' :: path.toList := by
  unfold join
  by_cases hempty : root.toList = []
  · left
    refine ⟨hempty, if_pos ?_⟩
    rw [hpath, String.toList_eq_nil_iff.mp hempty]
    rfl
  · right
    have hsome : (isAbsolute path || root.isEmpty) = false := by
      rw [hpath, Bool.false_or, ← Bool.not_eq_true, String.isEmpty_iff]
      intro hroot
      exact hempty (String.toList_eq_nil_iff.mpr hroot)
    rw [if_neg (by rw [hsome]; exact Bool.false_ne_true)]
    by_cases hslash : root.toList.getLast? = some '/'
    · obtain ⟨front, hfront⟩ := List.getLast?_eq_some_iff.mp hslash
      refine ⟨front, .inr hfront, hempty, ?_⟩
      rw [if_pos (beq_iff_eq.mpr hslash), String.toList_append, hfront, List.append_assoc]
      rfl
    · refine ⟨root.toList, .inl rfl, hempty, ?_⟩
      rw [if_neg (fun h => hslash (beq_iff_eq.mp h)), String.toList_append, String.toList_append,
        List.append_assoc]
      rfl

theorem parts_join : parts (join root path) = parts root ++ parts path := by
  rcases @join_cases root path hpath with ⟨hempty, hjoin⟩ | ⟨front, hroot, _, hjoin⟩
  · have hnone : parts root = [] := by
      rw [parts, hempty]
      rfl
    rw [hjoin, hnone, List.nil_append]
  · have hfront : (splitBy (· == '/') root.toList).filter (· ≠ []) =
        (splitBy (· == '/') front).filter (· ≠ []) := by
      rcases hroot with hroot | hroot
      · rw [hroot]
      · rw [hroot, splitBy_append (by decide), List.filter_append]
        simp [splitBy]
    rw [parts, parts, parts, hjoin, splitBy_append (by decide), List.filter_append,
      List.map_append, hfront]

theorem isAbsolute_join : isAbsolute (join root path) = isAbsolute root := by
  rcases @join_cases root path hpath with ⟨hempty, hjoin⟩ | ⟨front, hroot, hsome, hjoin⟩
  · rw [hjoin, hpath, isAbsolute, hempty]
    rfl
  · rw [isAbsolute, isAbsolute, hjoin]
    cases front with
    | nil =>
      rcases hroot with hroot | hroot
      · exact absurd hroot hsome
      · rw [hroot]
        rfl
    | cons c front => rcases hroot with hroot | hroot <;> rw [hroot] <;> rfl

end Join

theorem join_of_isPlainName {base path : String} (hbase : IsPlainName base)
    (hpath : isAbsolute path = false) : join base path = base ++ "/" ++ path := by
  have hsome : base.isEmpty = false := by
    rw [← Bool.not_eq_true, String.isEmpty_iff]
    rintro rfl
    exact hbase.ne_empty rfl
  have hlast : (base.toList.getLast? == some '/') = false :=
    beq_eq_false_iff_ne.mpr hbase.last_ne_slash
  rw [join, hpath, hsome, hlast]
  rfl

/-! ## Joining a plain name -/

section JoinName

variable {root name : String} (hname : IsPlainName name)
include hname

theorem parts_join_name : parts (join root name) = parts root ++ [name] := by
  rw [parts_join hname.isAbsolute_eq, hname.parts_eq]

theorem asksForDirectory_join : FileTree.asksForDirectory (join root name) = false := by
  have hlast : (join root name).toList.getLast? = name.toList.getLast? := by
    rcases @join_cases root name hname.isAbsolute_eq with ⟨_, hjoin⟩ | ⟨front, _, _, hjoin⟩
    · rw [hjoin]
    · rw [hjoin, List.getLast?_append, List.getLast?_cons]
      cases hend : name.toList.getLast? with
      | none => exact absurd (List.getLast?_eq_none_iff.mp hend) hname.ne_empty
      | some c => rfl
  rw [FileTree.asksForDirectory, hlast, beq_eq_false_iff_ne]
  exact hname.last_ne_slash

end JoinName

end Path

end DesignComponents
