import DesignComponents.Proofs.Url.Pairs

/-!
# Addresses at a host

A secure address whose authority is just the name of a host, as it is at the sites that the program
knows. Such an address can always be read, and its path and query are what stands behind the name.
-/

namespace DesignComponents.Url

/-- Characters that are kept in an address and end neither a host nor the userinfo before it. -/
def isHostChar (c : Char) : Bool :=
  !endsAuthority .web c && !isTabOrBreak c && !List.contains [':', '@', '[', ']'] c

/-- A name that is a host as it stands. -/
structure IsHostName (name : String) : Prop where
  ne_empty : name.toList ≠ []
  plain : ∀ c ∈ name.toList, isHostChar c = true
  host : (webHost name.toList).toOption = some (.name name)

theorem isHostChar_iff {c : Char} : isHostChar c = true ↔ endsAuthority .web c = false ∧
    isTabOrBreak c = false ∧ c ≠ ':' ∧ c ≠ '@' ∧ c ≠ '[' ∧ c ≠ ']' := by
  simp [isHostChar, and_assoc]

theorem hostText_append {cs : List Char} (h : ∀ c ∈ cs, isHostChar c = true) (rest : List Char) :
    hostText .web false (cs ++ '/' :: rest) = (cs, '/' :: rest) := by
  induction cs with
  | nil => rfl
  | cons c cs ih =>
    obtain ⟨hc, hcs⟩ := List.forall_mem_cons.mp h
    obtain ⟨hends, _, hcolon, _, hopen, hclose⟩ := isHostChar_iff.mp hc
    have hstop : (endsAuthority .web c || (c == ':' && !false)) = false := by simp [hends, hcolon]
    rw [List.cons_append, hostText, hstop, if_neg Bool.false_ne_true, if_neg hopen, if_neg hclose]
    dsimp only
    rw [ih hcs]

/-- What is read of an address behind the name of its host. -/
def urlAt (name : String) (rest : List Char) : Url :=
  ⟨"https", .name name, none, pathOf (readNames .web [] rest).1,
    readQuery .web (readNames .web [] rest).2⟩

namespace IsHostName

variable {name : String} (h : IsHostName name)
include h

theorem webHost_eq : webHost name.toList = .ok (.name name) := by
  have hhost := h.host
  cases hread : webHost name.toList with
  | error e =>
    rw [hread] at hhost
    cases hhost
  | ok host =>
    rw [hread] at hhost
    exact congrArg Except.ok (Option.some.inj hhost)

theorem skipUserinfo_eq (rest : List Char) :
    skipUserinfo .web (name.toList ++ '/' :: rest) = .ok (false, name.toList ++ '/' :: rest) := by
  have hpos : ∀ c ∈ name.toList, (!endsAuthority .web c) = true := by
    intro c hc
    rw [(isHostChar_iff.mp (h.plain c hc)).1, Bool.not_false]
  have hsign : atLastSign? name.toList = none := by
    have hnot : '@' ∉ name.toList := fun hmem => (isHostChar_iff.mp (h.plain _ hmem)).2.2.2.1 rfl
    rw [atLastSign?, if_neg (mt List.contains_iff_mem.mp hnot)]
  unfold skipUserinfo
  dsimp only
  rw [List.takeWhile_append_of_pos hpos, List.takeWhile_cons_of_neg (by decide), List.append_nil,
    hsign]

theorem readHost_eq (rest : List Char) :
    readHost .web (name.toList ++ '/' :: rest) = .ok (.name name, '/' :: rest) := by
  have hne : ¬name.toList.isEmpty = true := mt List.isEmpty_iff.mp h.ne_empty
  unfold readHost
  rw [hostText_append h.plain]
  dsimp only
  rw [if_neg hne, h.webHost_eq]
  rfl

/-- The authority ends before the first slash behind it. -/
theorem readAuthority_eq (rest : List Char) :
    readAuthority "https" (name.toList ++ '/' :: rest) = .ok (.name name, none, '/' :: rest) := by
  change (skipUserinfo .web (name.toList ++ '/' :: rest) >>= _) = _
  rw [h.skipUserinfo_eq]
  change (readHost .web (name.toList ++ '/' :: rest) >>= _) = _
  rw [h.readHost_eq]
  rfl

theorem readBehindScheme_eq (rest : List Char) :
    readBehindScheme "https" ("//".toList ++ (name.toList ++ '/' :: rest)) =
      readFromAuthority "https" (name.toList ++ '/' :: rest) := by
  obtain ⟨c, cs, hname⟩ := List.exists_cons_of_ne_nil h.ne_empty
  have hc : ¬isSlash .web c = true := by
    have hends := (isHostChar_iff.mp (h.plain c (hname ▸ List.mem_cons_self))).1
    rw [endsAuthority, Bool.or_eq_false_iff, Bool.or_eq_false_iff] at hends
    exact Bool.eq_false_iff.mp hends.1.1
  have hdrop : ("//".toList ++ (name.toList ++ '/' :: rest)).dropWhile (isSlash .web) =
      name.toList ++ '/' :: rest := by
    rw [hname]
    exact List.dropWhile_cons_of_neg hc
  change readFromAuthority "https" (List.dropWhile (isSlash .web) _) = _
  rw [hdrop]

theorem readFromAuthority_eq (rest : List Char) :
    readFromAuthority "https" (name.toList ++ '/' :: rest) = .ok (urlAt name rest) := by
  unfold readFromAuthority
  rw [h.readAuthority_eq]
  rfl

/-- Every address at the host can be read. -/
theorem read_eq {address : String} {rest : List Char}
    (haddress : address.toList = "https://".toList ++ (name.toList ++ '/' :: rest)) :
    Url.read address =
      .ok (urlAt name ((dropEnd isEndBlank rest).filter (!isTabOrBreak ·))) := by
  have hkept : name.toList.filter (!isTabOrBreak ·) = name.toList :=
    List.filter_eq_self.mpr fun c hc => by
      rw [(isHostChar_iff.mp (h.plain c hc)).2.1, Bool.not_false]
  have hcleaned : cleaned address.toList = "https:".toList ++ ("//".toList ++
      (name.toList ++ '/' :: (dropEnd isEndBlank rest).filter (!isTabOrBreak ·))) := by
    rw [haddress, ← List.append_assoc, cleaned_append_cons (by decide),
      List.filter_cons_of_pos (by decide)]
    change ("https://".toList ++ name.toList).filter _ ++ _ = _
    rw [List.filter_append, hkept]
    simp [isTabOrBreak]
  rw [Url.read, hcleaned, ← h.readFromAuthority_eq]
  exact h.readBehindScheme_eq _

end IsHostName

end DesignComponents.Url
