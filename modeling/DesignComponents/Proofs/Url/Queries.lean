import Mathlib.Data.List.TakeWhile
import DesignComponents.Proofs.Project.Paths
import DesignComponents.Url.Query
import DesignComponents.Url.Read

/-!
# Queries of addresses

However an address is read, its query begins behind the first question mark, unless there is a
number sign before it: no scheme, no authority and no path reaches beyond either of them.
-/

namespace DesignComponents.Url

def isBeforeQuery (c : Char) : Bool := c ≠ '?' && c ≠ '#'

/-- What follows scheme, authority and path. -/
def behindPath (cs : List Char) : List Char := cs.dropWhile isBeforeQuery

theorem behindPath_append {cs : List Char} (h : ∀ c ∈ cs, isBeforeQuery c = true)
    (more : List Char) : behindPath (cs ++ more) = behindPath more :=
  List.dropWhile_append_of_pos h

theorem behindPath_cons {c : Char} (h : isBeforeQuery c = true) (cs : List Char) :
    behindPath (c :: cs) = behindPath cs :=
  List.dropWhile_cons_of_pos h

theorem behindPath_dropWhile {p : Char → Bool} (h : ∀ c, p c = true → isBeforeQuery c = true)
    (cs : List Char) : behindPath (cs.dropWhile p) = behindPath cs := by
  have htake : ∀ c ∈ cs.takeWhile p, isBeforeQuery c = true :=
    fun c hc => h c (List.mem_takeWhile_imp hc)
  rw [← behindPath_append htake, List.takeWhile_append_dropWhile]

theorem isBeforeQuery_of {p : Char → Bool} (hquestion : p '?' = false) (hnumber : p '#' = false)
    {c : Char} (h : p c = true) : isBeforeQuery c = true := by
  have hne : c ≠ '?' ∧ c ≠ '#' := by
    constructor <;> rintro rfl
    · exact Bool.noConfusion (hquestion.symm.trans h)
    · exact Bool.noConfusion (hnumber.symm.trans h)
  simp [isBeforeQuery, hne]

theorem exists_of_map_eq_ok {ε α β : Type} {x : Except ε α} {f : α → β} {b : β}
    (h : x.map f = .ok b) : ∃ a, x = .ok a ∧ f a = b := by
  cases x with
  | error e => cases h
  | ok a =>
    cases h
    exact ⟨a, rfl, rfl⟩

/-! ## Authority -/

theorem isBeforeQuery_of_not_endsAuthority (kind : SchemeKind) {c : Char}
    (h : (!endsAuthority kind c) = true) : isBeforeQuery c = true := by
  refine isBeforeQuery_of (p := fun c => !endsAuthority kind c) ?_ ?_ h <;> cases kind <;> decide

theorem isBeforeQuery_of_isSlash (kind : SchemeKind) {c : Char} (h : isSlash kind c = true) :
    isBeforeQuery c = true := by
  refine isBeforeQuery_of (p := isSlash kind) ?_ ?_ h <;> cases kind <;> decide

theorem behindPath_hostText (kind : SchemeKind) (inBrackets : Bool) (cs : List Char) :
    behindPath (hostText kind inBrackets cs).2 = behindPath cs := by
  induction cs generalizing inBrackets with
  | nil => rfl
  | cons c cs ih =>
    rw [hostText]
    split
    · rfl
    · rename_i hends
      have hc : (!endsAuthority kind c) = true := by
        rw [Bool.or_eq_true, not_or] at hends
        rw [Bool.not_eq_true', Bool.eq_false_iff.mpr hends.1]
      exact (ih _).trans (behindPath_cons (isBeforeQuery_of_not_endsAuthority kind hc) cs).symm

theorem behindPath_readHost {kind : SchemeKind} {cs rest : List Char} {host : Host}
    (h : readHost kind cs = .ok (host, rest)) : behindPath rest = behindPath cs := by
  rw [← behindPath_hostText kind false cs]
  unfold readHost at h
  dsimp only at h
  split at h
  · obtain ⟨_, _, heq⟩ := exists_of_map_eq_ok h
    rw [← (Prod.mk.inj heq).2]
  · split at h
    · cases h
    · obtain ⟨_, _, heq⟩ := exists_of_map_eq_ok h
      rw [← (Prod.mk.inj heq).2]

theorem mem_of_atLastSign? {cs user host : List Char} (h : atLastSign? cs = some (user, host)) :
    ∀ c ∈ host, c ∈ cs := by
  intro c hc
  unfold atLastSign? at h
  split at h
  · obtain ⟨_, rfl⟩ := Prod.mk.inj (Option.some.inj h)
    exact List.mem_reverse.mp ((List.takeWhile_sublist _).subset (List.mem_reverse.mp hc))
  · cases h

theorem behindPath_skipUserinfo {kind : SchemeKind} {cs rest : List Char} {named : Bool}
    (h : skipUserinfo kind cs = .ok (named, rest)) : behindPath rest = behindPath cs := by
  have hdrop := behindPath_dropWhile (fun _ => isBeforeQuery_of_not_endsAuthority kind) cs
  unfold skipUserinfo at h
  dsimp only at h
  split at h
  · cases h
    rfl
  · split at h
    · cases h
      exact hdrop
    · cases h
  · rename_i user host _ hsign
    cases h
    rw [behindPath_append, hdrop]
    intro c hc
    have hends : (!endsAuthority kind c) = true :=
      List.mem_takeWhile_imp (p := (!endsAuthority kind ·)) (mem_of_atLastSign? hsign c hc)
    exact isBeforeQuery_of_not_endsAuthority kind hends

theorem behindPath_readPort {sum : Nat} {any : Bool} {cs rest : List Char} {port : Option Nat}
    (h : readPort sum any cs = .ok (port, rest)) : behindPath rest = behindPath cs := by
  induction cs generalizing sum any with
  | nil =>
    rw [readPort] at h
    cases h
    rfl
  | cons c cs ih =>
    rw [readPort] at h
    split at h
    · rename_i hdigit
      have hc : isBeforeQuery c = true := isBeforeQuery_of (by decide) (by decide) hdigit
      rw [behindPath_cons hc]
      dsimp only at h
      split at h
      · cases h
      · exact ih h
    · split at h
      · cases h
        rfl
      · cases h

theorem behindPath_readAuthority {scheme : String} {cs rest : List Char} {host : Host}
    {port : Option Nat} (h : readAuthority scheme cs = .ok (host, port, rest)) :
    behindPath rest = behindPath cs := by
  obtain ⟨⟨named, cs'⟩, huser, h⟩ := bind_eq_ok_iff.mp h
  obtain ⟨⟨host', rest'⟩, hhost, h⟩ := bind_eq_ok_iff.mp h
  rw [← behindPath_skipUserinfo huser, ← behindPath_readHost hhost]
  dsimp only at h
  split at h
  · rename_i digits
    split at h
    · cases h
    · obtain ⟨⟨port', rest'⟩, hport, h⟩ := bind_eq_ok_iff.mp h
      split at h
      · cases h
      · cases h
        rw [behindPath_readPort hport, behindPath_cons (by decide)]
  · split at h
    · cases h
    · cases h
      rfl

/-! ## Path -/

theorem behindPath_readNames (kind : SchemeKind) (before : Names) (cs : List Char) :
    (readNames kind before cs).2 = behindPath cs := rfl

theorem behindPath_readPath (kind : SchemeKind) (cs : List Char) :
    (readPath kind cs).2 = behindPath cs := by
  cases cs with
  | nil =>
    rw [readPath]
    split <;> rfl
  | cons c cs =>
    rw [readPath]
    split
    · rename_i hslash
      rw [behindPath_readNames, behindPath_cons (isBeforeQuery_of_isSlash kind hslash)]
    · split
      · rename_i hmark
        have hc : isBeforeQuery c = false := by
          rw [Bool.and_eq_true, Bool.or_eq_true, beq_iff_eq, beq_iff_eq, beq_iff_eq] at hmark
          rcases hmark.2 with rfl | rfl <;> decide
        exact (List.dropWhile_cons_of_neg (by rw [hc]; decide)).symm
      · rfl

/-! ## Whole addresses -/

theorem query_of_readFromAuthority {scheme : String} {cs : List Char} {url : Url}
    (h : readFromAuthority scheme cs = .ok url) :
    url.query = readQuery (schemeKind scheme) (behindPath cs) := by
  obtain ⟨⟨host, port, rest⟩, hauthority, h⟩ := bind_eq_ok_iff.mp h
  cases h
  rw [← behindPath_readAuthority hauthority, ← behindPath_readPath (schemeKind scheme) rest]
  rfl

theorem query_readPlain (scheme : String) (cs : List Char) :
    (readPlain scheme cs).query = readQuery .other (behindPath cs) := by
  unfold readPlain
  split
  · rw [behindPath_cons (by decide)]
    rfl
  · rfl

theorem behindPath_fileHost {cs rest : List Char} {host : Host}
    (h : fileHost cs = .ok (host, rest)) : behindPath rest = behindPath cs := by
  have hdrop := behindPath_dropWhile (fun _ => isBeforeQuery_of_not_endsAuthority .file) cs
  unfold fileHost at h
  dsimp only at h
  split at h
  · cases h
    rfl
  · split at h
    · cases h
      exact hdrop
    · obtain ⟨_, _, heq⟩ := exists_of_map_eq_ok h
      rw [← (Prod.mk.inj heq).2, hdrop]

theorem query_of_readFile {cs : List Char} {url : Url} (h : readFile cs = .ok url) :
    url.query = readQuery .file (behindPath cs) := by
  unfold readFile at h
  dsimp only at h
  split at h
  · rename_i a b rest
    split at h
    · rename_i hslashes
      obtain ⟨ha, hb⟩ := Bool.and_eq_true_iff.mp hslashes
      obtain ⟨⟨host, rest'⟩, hhost, h⟩ := bind_eq_ok_iff.mp h
      cases h
      rw [behindPath_cons (isBeforeQuery_of_isSlash .file ha),
        behindPath_cons (isBeforeQuery_of_isSlash .file hb), ← behindPath_fileHost hhost,
        ← behindPath_readPath .file rest']
    · cases h
      rw [← behindPath_readPath .file]
  · cases h
    rw [← behindPath_readPath .file]

theorem behindPath_scheme {cs rest : List Char} {scheme : String}
    (h : scheme? cs = some (scheme, rest)) : behindPath rest = behindPath cs := by
  have hdrop := behindPath_dropWhile
    (fun _ => isBeforeQuery_of (p := isSchemeChar) (by decide) (by decide)) cs
  unfold scheme? at h
  split at h
  · split at h
    · rename_i hcolon
      cases h
      rw [← hdrop, hcolon, behindPath_cons (by decide)]
    · cases h
  · cases h

theorem query_of_readBehindScheme {scheme : String} {cs : List Char} {url : Url}
    (h : readBehindScheme scheme cs = .ok url) :
    ∃ kind, url.query = readQuery kind (behindPath cs) := by
  unfold readBehindScheme at h
  split at h
  · have hdrop := behindPath_dropWhile (fun _ => isBeforeQuery_of_isSlash .web) cs
    exact ⟨_, hdrop ▸ query_of_readFromAuthority h⟩
  · exact ⟨_, query_of_readFile h⟩
  · split at h
    · rw [behindPath_cons (by decide), behindPath_cons (by decide)]
      exact ⟨_, query_of_readFromAuthority h⟩
    · cases h
      exact ⟨_, query_readPlain scheme cs⟩

/-- However an address is read, its query begins at one place of the text. -/
theorem query_of_read {text : String} {url : Url} (h : read text = .ok url) :
    ∃ kind, url.query = readQuery kind (behindPath (cleaned text.toList)) := by
  unfold read at h
  split at h
  · rename_i scheme rest hscheme
    rw [← behindPath_scheme hscheme]
    exact query_of_readBehindScheme h
  · cases h

end DesignComponents.Url
