import DesignComponents.Conversion.Component
import DesignComponents.Proofs.Design.NodeIds
import DesignComponents.Proofs.Text.LowerCase
import DesignComponents.Proofs.Url.Hosts
import DesignComponents.Proofs.Url.PathNames
import DesignComponents.Proofs.Url.Written

/-!
# Links that are shared

What a link is read from, and the links that are read as they are meant. A link that is accepted
is at the site or below it, and the ids that are taken from it are complete. A link to a file and
a node in it gives both back, whatever else its query says and whatever the writer escaped.
-/

namespace DesignComponents

open Url

/-! ## Names that are kept in a path -/

def isUnreserved (c : Char) : Bool := c.isAlphanum || ['-', '.', '_', '~'].contains c

/-- A name that stands in a path as it is and does not climb. -/
structure IsSegment (name : String) : Prop where
  unreserved : ∀ c ∈ name.toList, isUnreserved c = true
  ne_dot : name ≠ "."
  ne_dots : name ≠ ".."

theorem ne_of_isUnreserved {c d : Char} (hc : isUnreserved c = true)
    (hd : isUnreserved d = false) : c ≠ d := by
  rintro rfl
  exact Bool.noConfusion (hd.symm.trans hc)

theorem bounds_of_isUnreserved {c : Char} (h : isUnreserved c = true) :
    0x20 ≤ c.toNat ∧ c.toNat ≤ 0x7E := by
  rw [isUnreserved, Bool.or_eq_true] at h
  rcases h with h | h
  · rw [isAlphanum_iff_toNat] at h
    omega
  · have hmarks : ∀ d ∈ ['-', '.', '_', '~'], 0x20 ≤ d.toNat ∧ d.toNat ≤ 0x7E := by
      simp
    exact hmarks c (List.contains_iff_mem.mp h)

theorem outsidePath_of_isUnreserved {c : Char} (h : isUnreserved c = true) :
    outsidePath c = false := by
  have hrare : isRare c = false := by
    have hbounds := bounds_of_isUnreserved h
    simp [isRare, hbounds]
  have hmarks : ∀ d ∈ [' ', '"', '<', '>', '`', '#', '?', '\x7b', '\x7d'],
      isUnreserved d = false := by simp [isUnreserved]
  rw [outsidePath, hrare, Bool.false_or, Bool.eq_false_iff]
  intro hmem
  exact ne_of_isUnreserved h (hmarks c (List.contains_iff_mem.mp hmem)) rfl

namespace IsSegment

variable {name : String} (h : IsSegment name)
include h

theorem not_mem {d : Char} (hd : isUnreserved d = false) : d ∉ name.toList :=
  fun hmem => ne_of_isUnreserved (h.unreserved d hmem) hd rfl

theorem percentEncode_eq : percentEncode outsidePath name.toList = name.toList :=
  percentEncode_of_inside fun c hc => outsidePath_of_isUnreserved (h.unreserved c hc)

theorem isDot_eq : isDot name.toList = false := by
  have hcases : ∀ dot ∈ dots, dot = ['.'] ∨ '%' ∈ dot := by decide
  rw [Bool.eq_false_iff]
  intro hdot
  rcases hcases _ (List.contains_iff_mem.mp hdot) with heq | hsign
  · exact h.ne_dot (String.toList_inj.mp heq)
  · exact h.not_mem (by decide) hsign

theorem isTwoDots_eq : isTwoDots name.toList = false := by
  have hcases : ∀ first ∈ dots, ∀ second ∈ dots,
      first ++ second = ['.', '.'] ∨ '%' ∈ first ++ second := by decide
  rw [Bool.eq_false_iff]
  intro hdots
  obtain ⟨first, hfirst, hdots⟩ := List.any_eq_true.mp hdots
  obtain ⟨second, hsecond, hdots⟩ := List.any_eq_true.mp hdots
  have hname := hcases first hfirst second hsecond
  rw [beq_iff_eq.mp hdots] at hname
  rcases hname with heq | hsign
  · exact h.ne_dots (String.toList_inj.mp heq)
  · exact h.not_mem (by decide) hsign

theorem step_eq (names : Names) (last : Bool) :
    step .web names name.toList last = name.toList :: names := by
  unfold step
  dsimp only
  rw [h.isTwoDots_eq, if_neg Bool.false_ne_true, h.isDot_eq, if_neg Bool.false_ne_true,
    h.percentEncode_eq]
  rfl

theorem isSlash_eq : ∀ c ∈ name.toList, isSlash .web c = false := by
  intro c hc
  have hslash := ne_of_isUnreserved (h.unreserved c hc) (show isUnreserved '/' = false by decide)
  have hback := ne_of_isUnreserved (h.unreserved c hc) (show isUnreserved '\\' = false by decide)
  simp [isSlash, hslash, hback]

end IsSegment

theorem isSegment_of_mem_fileKinds {kind : String} (h : kind ∈ Link.fileKinds) :
    IsSegment kind := by
  have hall : ∀ kind ∈ Link.fileKinds, (kind.toList.all isUnreserved && kind != "." &&
      kind != "..") = true := by decide
  have hkind := hall kind h
  rw [Bool.and_eq_true, Bool.and_eq_true, bne_iff_ne, bne_iff_ne] at hkind
  exact ⟨List.all_eq_true.mp hkind.1.1, hkind.1.2, hkind.2⟩

/-! ## Addresses at the site -/

theorem isHostName_site : IsHostName "www.figma.com" where
  ne_empty := by decide
  plain := List.all_eq_true.mp (by decide)
  host := by decide +kernel

/-- The path of a link to a file. -/
def pathText (kind key title : String) : List Char :=
  kind.toList ++ '/' :: (key.toList ++ '/' :: title.toList)

section Path

variable {kind key title : String} (hkind : IsSegment kind) (hkey : IsSegment key)
  (htitle : IsSegment title)
include hkind hkey htitle

theorem mem_pathText {c : Char} (hc : c ∈ pathText kind key title) :
    c = '/' ∨ isUnreserved c = true := by
  rcases List.mem_append.mp hc with hc | hc
  · exact .inr (hkind.unreserved c hc)
  rcases List.mem_cons.mp hc with hc | hc
  · exact .inl hc
  rcases List.mem_append.mp hc with hc | hc
  · exact .inr (hkey.unreserved c hc)
  rcases List.mem_cons.mp hc with hc | hc
  · exact .inl hc
  · exact .inr (htitle.unreserved c hc)

theorem not_mem_pathText {d : Char} (hslash : d ≠ '/') (hd : isUnreserved d = false) :
    ∀ c ∈ pathText kind key title, c ≠ d := by
  intro c hc
  rcases mem_pathText hkind hkey htitle hc with rfl | hc
  · exact hslash.symm
  · exact ne_of_isUnreserved hc hd

theorem steps_pathText :
    steps .web [] (splitBy (isSlash .web) (pathText kind key title)) =
      [title.toList, key.toList, kind.toList] := by
  have hsplit : splitBy (isSlash .web) (pathText kind key title) =
      [kind.toList, key.toList, title.toList] := by
    rw [pathText, splitBy_append (by decide), splitBy_append (by decide),
      splitBy_eq_singleton hkind.isSlash_eq, splitBy_eq_singleton hkey.isSlash_eq,
      splitBy_eq_singleton htitle.isSlash_eq]
    rfl
  rw [hsplit, steps, steps, steps, hkind.step_eq, hkey.step_eq, htitle.step_eq]
  · simp
  · simp

theorem readNames_pathText (query : List Char) :
    readNames .web [] (pathText kind key title ++ '?' :: query) =
      ([kind.toList, key.toList, title.toList], '?' :: query) := by
  have hbefore : ∀ c ∈ pathText kind key title, (decide (c ≠ '?') && decide (c ≠ '#')) = true := by
    intro c hc
    have hquestion := not_mem_pathText hkind hkey htitle (d := '?') (by decide) (by decide) c hc
    have hsign := not_mem_pathText hkind hkey htitle (d := '#') (by decide) (by decide) c hc
    simp [hquestion, hsign]
  rw [readNames, List.takeWhile_append_of_pos hbefore, List.dropWhile_append_of_pos hbefore,
    List.takeWhile_cons_of_neg (by decide), List.dropWhile_cons_of_neg (by decide),
    List.append_nil, steps_pathText hkind hkey htitle]
  rfl

/-- An address of a file at the site has its path as it was written. -/
theorem exists_read_site {address : String} {query : List Char}
    (haddress : address.toList = "https://".toList ++
      ("www.figma.com".toList ++ '/' :: (pathText kind key title ++ '?' :: query))) :
    ∃ url, Url.read address = .ok url ∧ url.host = .name "www.figma.com" ∧
      url.pathNames = [kind, key, title] := by
  have hpath : (pathText kind key title).filter (!isTabOrBreak ·) = pathText kind key title := by
    refine List.filter_eq_self.mpr fun c hc => ?_
    have htab := not_mem_pathText hkind hkey htitle (d := '\t') (by decide) (by decide) c hc
    have hline := not_mem_pathText hkind hkey htitle (d := '\n') (by decide) (by decide) c hc
    have hreturn := not_mem_pathText hkind hkey htitle (d := '\r') (by decide) (by decide) c hc
    simp [isTabOrBreak, htab, hline, hreturn]
  refine ⟨_, isHostName_site.read_eq haddress, rfl, ?_⟩
  change (readNames .web [] _).1.map String.ofList = _
  rw [dropEnd_append_cons (by decide), List.filter_append, hpath,
    List.filter_cons_of_pos (by decide), readNames_pathText hkind hkey htitle]
  simp

end Path

/-! ## What a link is read from -/

namespace Link

theorem read_eq_ok_iff {text : String} {link : Link} :
    Link.read text = .ok link ↔ ∃ url, Url.read (trimmed text) = .ok url ∧
      isSite url.host = true ∧ fileKey? url.pathNames = some link.fileKey ∧
      nodeId? url.query = some link.nodeId := by
  rw [Link.read]
  cases Url.read (trimmed text) with
  | error cause => simp
  | ok url =>
    dsimp only
    cases hsite : isSite url.host with
    | false => simp [hsite]
    | true =>
      rw [if_pos rfl]
      cases hkey : fileKey? url.pathNames with
      | none => simp [hkey]
      | some fileKey =>
        cases hid : nodeId? url.query with
        | none => simp [hid]
        | some nodeId =>
          cases link
          simp [hsite, hkey, hid]

theorem isSite_iff {host : Host} : isSite host = true ↔
    ∃ name, host = .name name ∧ (name = site ∨ '.' :: site.toList <:+ name.toList) := by
  cases host with
  | name text => simp [isSite]
  | none => simp [isSite]
  | address4 number => simp [isSite]
  | address6 pieces => simp [isSite]

theorem dropWhile_eq_cons_iff {p : String → Bool} {names rest : List String} {name : String} :
    names.dropWhile p = name :: rest ↔
      ∃ front, names = front ++ name :: rest ∧ (∀ n ∈ front, p n = true) ∧ p name = false := by
  constructor
  · intro h
    refine ⟨names.takeWhile p, ?_, fun n hn => List.mem_takeWhile_imp hn, ?_⟩
    · rw [← h, List.takeWhile_append_dropWhile]
    · have hhead := List.head?_dropWhile_not p names
      rw [h] at hhead
      simpa using hhead
  · rintro ⟨front, rfl, hfront, hname⟩
    rw [List.dropWhile_append_of_pos hfront, List.dropWhile_cons_of_neg (by simp [hname])]

/-- The key of a file is the name behind the first kind of file in the path. -/
theorem fileKey?_eq_some_iff {names : List String} {key : String} :
    fileKey? names = some key ↔ key ≠ "" ∧ ∃ front kind rest,
      names = front ++ kind :: key :: rest ∧ (∀ name ∈ front, name ∉ fileKinds) ∧
      kind ∈ fileKinds := by
  rw [fileKey?, Option.filter_eq_some_iff]
  constructor
  · rintro ⟨hkey, hne⟩
    refine ⟨of_decide_eq_true hne, ?_⟩
    cases hdrop : names.dropWhile (!fileKinds.contains ·) with
    | nil => rw [hdrop] at hkey; cases hkey
    | cons kind behind =>
      rw [hdrop] at hkey
      cases behind with
      | nil => cases hkey
      | cons first rest =>
        obtain rfl : first = key := Option.some.inj hkey
        obtain ⟨front, hnames, hfront, hkind⟩ := dropWhile_eq_cons_iff.mp hdrop
        exact ⟨front, kind, rest, hnames, fun name hname => by simpa using hfront name hname,
          by simpa using hkind⟩
  · rintro ⟨hne, front, kind, rest, hnames, hfront, hkind⟩
    have hdrop : names.dropWhile (!fileKinds.contains ·) = kind :: key :: rest :=
      dropWhile_eq_cons_iff.mpr ⟨front, hnames, fun name hname => by simpa using hfront name hname,
        by simpa using hkind⟩
    rw [hdrop]
    exact ⟨rfl, decide_eq_true hne⟩

/-- The pairs of a query, or none if there is no query. -/
def pairsOf (query : Option String) : List (String × String) := (query.map queryPairs).getD []

/-- The id of a node is that of the first pair with its name. -/
theorem nodeId?_eq_some_iff {query : Option String} {id : String} :
    nodeId? query = some id ↔ id ≠ "" ∧ ∃ value,
      (pairsOf query).find? (·.1 == nodeIdName) = some (nodeIdName, value) ∧
      DesignComponents.nodeId value = id := by
  rw [nodeId?, Option.filter_eq_some_iff]
  change (((pairsOf query).find? (·.1 == nodeIdName)).map _ = some id ∧ _) ↔ _
  cases hfind : (pairsOf query).find? (·.1 == nodeIdName) with
  | none => simp
  | some pair =>
    obtain ⟨name, value⟩ := pair
    have hname : name = nodeIdName := by simpa using List.find?_some hfind
    rw [hname]
    constructor
    · rintro ⟨hid, hne⟩
      exact ⟨of_decide_eq_true hne, value, rfl, Option.some.inj hid⟩
    · rintro ⟨hne, value', hvalue, hid⟩
      obtain rfl : value = value' := (Prod.mk.inj (Option.some.inj hvalue)).2
      exact ⟨congrArg some hid, decide_eq_true hne⟩

/-- What can be said of an address that a link is read from. -/
structure IsReadFrom (link : Link) (url : Url) : Prop where
  host : ∃ name, url.host = .name name ∧ (name = site ∨ '.' :: site.toList <:+ name.toList)
  fileKey_ne : link.fileKey ≠ ""
  fileKey : ∃ front kind rest, url.pathNames = front ++ kind :: link.fileKey :: rest ∧
    (∀ name ∈ front, name ∉ fileKinds) ∧ kind ∈ fileKinds
  nodeId : IsNodeId link.nodeId
  value : ∃ value, (pairsOf url.query).find? (·.1 == nodeIdName) = some (nodeIdName, value) ∧
    DesignComponents.nodeId value = link.nodeId

/-- Only links of the site are accepted, and the ids in them need no more reading. -/
theorem exists_isReadFrom {text : String} {link : Link} (h : Link.read text = .ok link) :
    ∃ url, Url.read (trimmed text) = .ok url ∧ link.IsReadFrom url := by
  obtain ⟨url, hread, hsite, hkey, hid⟩ := read_eq_ok_iff.mp h
  obtain ⟨hne, hnames⟩ := fileKey?_eq_some_iff.mp hkey
  obtain ⟨hid, value, hfind, hvalue⟩ := nodeId?_eq_some_iff.mp hid
  refine ⟨url, hread, isSite_iff.mp hsite, hne, hnames, ?_, value, hfind, hvalue⟩
  rw [← hvalue] at hid ⊢
  exact isNodeId_nodeId hid

/-! ## Links that are written -/

/-- A text that may stand before the id in the query of a link: it does not end the query, and
without the tabs and line breaks that are dropped from it it is read as nothing that has the name
of the id. -/
structure IsOther (parameter : String) : Prop where
  inQuery : '#' ∉ parameter.toList
  unnamed : ∀ pair ∈ queryPairs (String.ofList (parameter.toList.filter (!isTabOrBreak ·))),
    pair.1 ≠ nodeIdName

/-- Whether a text ends the value before it: if there is any, by an ampersand or a number sign. -/
def endsValue (behind : List Char) : Bool := behind.head?.all fun c => c == '&' || c == '#'

end Link

/-- A link to a node of a file. -/
structure SharedLink where
  kind : String
  key : String
  title : String
  others : List String
  id : String
  outside : Char → Bool
  behind : String
  kind_mem : kind ∈ Link.fileKinds
  key_ne : key ≠ ""
  isSegment_key : IsSegment key
  isSegment_title : IsSegment title
  isOther : ∀ parameter ∈ others, Link.IsOther parameter
  isNodeId : IsNodeId id
  protects : Protects outside
  ends : Link.endsValue behind.toList = true

namespace SharedLink

open Link

/-- The id with hyphens for its colons, escaped by the writer of the link. -/
def value (s : SharedLink) : String :=
  String.ofList (percentEncode s.outside (writtenId s.id).toList)

def text (s : SharedLink) : String :=
  "https://www.figma.com/" ++ s.kind ++ "/" ++ s.key ++ "/" ++ s.title ++ "?" ++
    String.join (s.others.map (· ++ "&")) ++ nodeIdName ++ "=" ++ s.value ++ s.behind

/-- The query up to the end of the id. -/
def query (s : SharedLink) : List Char :=
  (s.others.flatMap fun parameter => parameter.toList ++ ['&']) ++
    (nodeIdName.toList ++ '=' :: s.value.toList)

theorem toList_text (s : SharedLink) : s.text.toList =
    ("https://www.figma.com/".toList ++ pathText s.kind s.key s.title ++ '?' :: s.query) ++
      s.behind.toList := by
  unfold text query pathText
  simp [List.flatMap_map]

/-! ### The text -/

theorem toList_value (s : SharedLink) :
    s.value.toList = percentEncode s.outside (writtenId s.id).toList := by
  rw [value, String.toList_ofList]

theorem kept_value (s : SharedLink) :
    ∀ c ∈ s.value.toList, c ≠ '&' ∧ c ≠ '#' ∧ isEndBlank c = false := by
  rw [toList_value]
  exact kept_percentEncode s.protects _

theorem value_ne_nil (s : SharedLink) : s.value.toList ≠ [] := by
  rw [toList_value]
  exact mt percentEncode_eq_nil_iff.mp s.isNodeId.toList_writtenId_ne_nil

theorem last_value (s : SharedLink) : s.value.toList.getLast?.all (!isBlank ·) = true := by
  rw [toList_value]
  exact last_percentEncode (dropEnd_eq_self_iff.mp s.isNodeId.dropEnd_writtenId)

/-- Blanks are trimmed only from what stands behind the id. -/
theorem toList_trimmed (s : SharedLink) : (trimmed s.text).toList =
    ("https://www.figma.com/".toList ++ pathText s.kind s.key s.title ++ '?' :: s.query) ++
      dropEnd isBlank s.behind.toList := by
  have hlast : ("https://www.figma.com/".toList ++ pathText s.kind s.key s.title ++
      '?' :: s.query).getLast?.all (!isBlank ·) = true := by
    have hquery : '?' :: s.query = ('?' :: (s.others.flatMap fun parameter =>
        parameter.toList ++ ['&']) ++ (nodeIdName.toList ++ ['='])) ++ s.value.toList := by
      simp [query]
    rw [hquery, ← List.append_assoc]
    exact all_getLast?_append s.value_ne_nil s.last_value _
  rw [trimmed, String.toList_ofList, toList_text]
  exact trimBlanks_append (by simp) (by simp [isBlank]) hlast _

/-! ### The query -/

theorem endsValue_dropEnd {p : Char → Bool} {behind : List Char} (h : endsValue behind = true) :
    endsValue (dropEnd p behind) = true := by
  obtain ⟨rest, hrest⟩ : dropEnd p behind <+: behind := List.rdropWhile_prefix p behind
  cases hkept : dropEnd p behind with
  | nil => rfl
  | cons c cs =>
    rw [hkept] at hrest
    rw [← hrest] at h
    exact h

/-- Of what stands behind a value nothing is added to it. -/
theorem takeWhile_sentQuery {behind : List Char} (h : endsValue behind = true) :
    (sentQuery behind).takeWhile (· ≠ '&') = [] := by
  cases behind with
  | nil => rfl
  | cons c behind =>
    have hc : c = '&' ∨ c = '#' := by simpa [endsValue] using h
    rcases hc with rfl | rfl
    · have hkept : ∀ c ∈ ['&'], c ≠ '#' ∧ isEndBlank c = false :=
        List.forall_mem_singleton.mpr (by decide)
      have hsent := sentQuery_append_of_kept hkept behind
      rw [List.singleton_append] at hsent
      rw [hsent]
      rfl
    · have hdrop : dropEnd isEndBlank ('#' :: behind) = '#' :: dropEnd isEndBlank behind :=
        dropEnd_append_cons (by decide) [] behind
      rw [sentQuery, hdrop, List.filter_cons_of_pos (by decide),
        List.takeWhile_cons_of_neg (by decide)]
      rfl

theorem find?_others {others : List String} (h : ∀ parameter ∈ others, IsOther parameter)
    (rest : List Char) :
    (spokenPairs (sentQuery ((others.flatMap fun parameter => parameter.toList ++ ['&']) ++
      rest))).find? (·.1 == nodeIdName) =
      (spokenPairs (sentQuery rest)).find? (·.1 == nodeIdName) := by
  induction others with
  | nil => rfl
  | cons parameter others ih =>
    obtain ⟨hparameter, hothers⟩ := List.forall_mem_cons.mp h
    have hsign : '#' ∉ parameter.toList ++ ['&'] := by simp [hparameter.inQuery]
    have hlast : (parameter.toList ++ ['&']).getLast?.all (!isEndBlank ·) = true :=
      all_getLast?_append (by simp) (by decide) _
    have hkept : sentValue false (parameter.toList ++ ['&']) =
        sentValue false parameter.toList ++ ['&'] := by
      simp [sentValue, isTabOrBreak]
    have hnone : (spokenPairs (sentValue false parameter.toList)).find? (·.1 == nodeIdName) =
        none := by
      rw [List.find?_eq_none]
      intro pair hpair
      rw [sentValue, ← queryPairs_ofList] at hpair
      simpa using hparameter.unnamed pair hpair
    rw [List.flatMap_cons, List.append_assoc, sentQuery_append hsign hlast, hkept,
      List.append_assoc, List.singleton_append, spokenPairs_append, List.find?_append, hnone,
      Option.none_or, ih hothers]

/-- The first id in the query is the one that was written. -/
theorem find?_query (s : SharedLink) {behind : List Char} (h : endsValue behind = true) :
    (spokenPairs (sentQuery (s.query ++ behind))).find? (·.1 == nodeIdName) =
      some (nodeIdName, writtenId s.id) := by
  have hname : IsToken nodeIdName := by decide
  have hkept : ∀ c ∈ nodeIdName.toList ++ '=' :: s.value.toList,
      c ≠ '#' ∧ isEndBlank c = false := by
    intro c hc
    rcases List.mem_append.mp hc with hc | hc
    · exact ⟨ne_of_isTokenChar (hname c hc) (by decide), isEndBlank_of_isTokenChar (hname c hc)⟩
    rcases List.mem_cons.mp hc with rfl | hc
    · decide
    · exact (s.kept_value c hc).2
  have hvalue : (s.value.toList ++ sentQuery behind).takeWhile (· ≠ '&') = s.value.toList := by
    have hpos : ∀ c ∈ s.value.toList, decide (c ≠ '&') = true := fun c hc =>
      decide_eq_true (s.kept_value c hc).1
    rw [List.takeWhile_append_of_pos hpos, takeWhile_sentQuery h, List.append_nil]
  obtain ⟨pairs, hpairs⟩ := exists_spokenPairs hname (s.value.toList ++ sentQuery behind)
  rw [query, List.append_assoc, find?_others s.isOther, sentQuery_append_of_kept hkept,
    List.append_assoc, List.cons_append, hpairs, hvalue, toList_value,
    spoken_percentEncode s.protects, String.ofList_toList]
  rfl

/-- A link that is shared is read as what it was written for. -/
theorem read_text (s : SharedLink) : Link.read s.text = .ok ⟨s.key, s.id⟩ := by
  have hkind := isSegment_of_mem_fileKinds s.kind_mem
  have htext : (trimmed s.text).toList = ("https://www.figma.com/".toList ++
      pathText s.kind s.key s.title) ++ '?' :: (s.query ++ dropEnd isBlank s.behind.toList) := by
    rw [toList_trimmed, List.append_assoc, List.cons_append]
  have hfront : ∀ c ∈ "https://www.figma.com/".toList ++ pathText s.kind s.key s.title,
      isBeforeQuery c = true := by
    intro c hc
    rcases List.mem_append.mp hc with hc | hc
    · have hall : ∀ d ∈ "https://www.figma.com/".toList, isBeforeQuery d = true :=
        List.all_eq_true.mp (by decide)
      exact hall c hc
    · have hquestion := not_mem_pathText hkind s.isSegment_key s.isSegment_title
        (d := '?') (by decide) (by decide) c hc
      have hsign := not_mem_pathText hkind s.isSegment_key s.isSegment_title
        (d := '#') (by decide) (by decide) c hc
      simp [isBeforeQuery, hquestion, hsign]
  obtain ⟨url, hread, hhost, hnames⟩ := exists_read_site hkind s.isSegment_key s.isSegment_title
    (htext.trans (List.append_assoc ..))
  have hpairs := pairs_of_read hread htext hfront
  refine read_eq_ok_iff.mpr ⟨url, hread, ?_, ?_, ?_⟩
  · rw [hhost]
    decide
  · refine fileKey?_eq_some_iff.mpr ⟨s.key_ne, [], s.kind, [s.title], hnames, ?_, s.kind_mem⟩
    exact List.forall_mem_nil _
  · refine nodeId?_eq_some_iff.mpr ⟨s.isNodeId.ne_empty, writtenId s.id, ?_,
      s.isNodeId.nodeId_writtenId⟩
    rw [pairsOf, hpairs]
    exact s.find?_query (endsValue_dropEnd s.ends)

end SharedLink

/-! ## There and back -/

/-- A link that is accepted is of the site, its key stands behind the first kind of file in the
path, and its id is complete: it is fetched as it is. A link that is shared gives back the key and
the id that it was written for. -/
theorem Link.reads_shared_links :
    (∀ text link, Link.read text = .ok link → ∃ url, Url.read (trimmed text) = .ok url ∧
      link.IsReadFrom url ∧ DesignComponents.nodeId link.nodeId = link.nodeId ∧
      ∀ source o catalogue,
        (Conversion.ofLink source o catalogue link.fileKey link.nodeId).2.head? =
          some (.document link.fileKey link.nodeId)) ∧
    ∀ s : SharedLink, Link.read s.text = .ok ⟨s.key, s.id⟩ := by
  refine ⟨fun text link hlink => ?_, SharedLink.read_text⟩
  obtain ⟨url, hread, hfrom⟩ := exists_isReadFrom hlink
  have hfixed := hfrom.nodeId.nodeId_eq
  refine ⟨url, hread, hfrom, hfixed, fun source o catalogue => ?_⟩
  rw [Conversion.ofLink, hfixed]
  cases source.document link.fileKey link.nodeId with
  | error e => rfl
  | ok root => rfl

/-- A link whose key is a word for a kind of file, with another id behind the one that counts. -/
def SharedLink.card : SharedLink where
  kind := "design"
  key := "file"
  title := "Card-1.0"
  others := ["t=a%20b", "mode=dev"]
  id := "1:2&3"
  outside := isTouchy
  behind := "&node-id=9-9#top"
  kind_mem := by decide
  key_ne := by decide
  isSegment_key := ⟨List.all_eq_true.mp (by decide), by decide, by decide⟩
  isSegment_title := ⟨List.all_eq_true.mp (by decide), by decide, by decide⟩
  isOther := List.forall_mem_cons.mpr ⟨⟨by decide, by decide +kernel⟩,
    List.forall_mem_singleton.mpr ⟨by decide, by decide +kernel⟩⟩
  isNodeId := ⟨by decide, by decide, by decide⟩
  protects := protects_isTouchy
  ends := by decide

theorem Link.reads_card : Link.read SharedLink.card.text = .ok ⟨"file", "1:2&3"⟩ ∧
    ∃ url, Url.read (trimmed SharedLink.card.text) = .ok url ∧
      (⟨"file", "1:2&3"⟩ : Link).IsReadFrom url := by
  have hread := reads_shared_links.2 SharedLink.card
  obtain ⟨url, hurl, hfrom, _⟩ := reads_shared_links.1 SharedLink.card.text _ hread
  exact ⟨hread, url, hurl, hfrom⟩

end DesignComponents
