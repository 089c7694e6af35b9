import DesignComponents.Api.Client
import DesignComponents.Config
import DesignComponents.Proofs.Style.PlainClasses
import DesignComponents.Proofs.Url.Carrying
import DesignComponents.Proofs.Url.Hosts
import DesignComponents.Proofs.Url.PathNames

/-!
# What the service is asked for

The client puts the id of a node into the query of an address as it is. The service decodes the
query and sees that id if and only if the query carries it, and else it is asked for something
different.
-/

namespace DesignComponents

open Url

/-! ## Requests -/

def Request.pairs (r : Request) : Option (List (String × String)) := r.url.query.map queryPairs

theorem Request.url_of_follow {web : Web} {header : Header} {left : Nat} {url : Url}
    {request : Request} (h : (follow web header left url).2.head? = some request) :
    request.url = url := by
  cases left with
  | zero => cases h
  | succ left =>
    rw [follow] at h
    dsimp only at h
    split at h
    · cases h
    · split at h
      · split at h
        · cases h
          rfl
        · cases h
          rfl
      · cases h
        rfl

/-- The first request goes to the address that was given. -/
theorem Request.read_of_send {web : Web} {header : Header} {address : String} {request : Request}
    (h : (send web header address).2.head? = some request) :
    Url.read address = .ok request.url := by
  unfold send at h
  split at h
  · cases h
  · rename_i url hread
    rw [hread, url_of_follow h]

namespace Client

theorem requests_ask {α : Type} (c : Client) (web : Web) (address : String)
    (ofJson? : Json → Option α) :
    (c.ask web address ofJson?).2 = (Request.send web c.credential.header address).2 := by
  rw [ask]
  cases Request.send web c.credential.header address with
  | mk answer requests =>
    cases answer <;> rfl

theorem requests_imageUrl (c : Client) (web : Web) (fileKey id : String) :
    (c.imageUrl web fileKey id).2 =
      (c.ask web (c.imageAddress fileKey id) ImagesAnswer.ofJson?).2 := by
  rw [imageUrl]

/-! ## Addresses -/

theorem isPathPart_append {s t : String} (hs : IsPathPart s.toList) (ht : IsPathPart t.toList) :
    IsPathPart (s ++ t).toList := by
  rw [String.toList_append]
  exact fun c hc => (List.mem_append.mp hc).elim (hs c) (ht c)

def idsName : String := "ids"

theorem isToken_idsName : IsToken idsName := by decide

/-- How an image is to be rendered, as fields of the query. -/
def imageFields (options : ImageOptions) : List (String × String) :=
  [("format", options.format.word), ("scale", options.scale.plain)]

theorem isTokenChar_of_isClassChar {c : Char} (h : isClassChar c = true) :
    isTokenChar c = true := by
  have hne : ∀ d, isClassChar d = false → c ≠ d := by
    rintro d hd rfl
    exact Bool.noConfusion (hd.symm.trans h)
  have hblank : isEndBlank c = false := by
    have hblanks : ∀ n < 0x21, isClassChar (Char.ofNat n) = false := by decide
    rw [Bool.eq_false_iff]
    intro hblank
    have hlt : c.toNat < 0x21 := Nat.lt_succ_of_le (of_decide_eq_true hblank)
    have hc := char_of_forall_lt (P := fun c => isClassChar c = false) hblanks hlt
    exact hne c hc rfl
  have htab : isTabOrBreak c = false :=
    Bool.eq_false_iff.mpr fun htab =>
      Bool.noConfusion (hblank.symm.trans (isEndBlank_of_isTabOrBreak htab))
  have hcarried : isCarried c = true :=
    isCarried_iff.mpr ⟨hne '&' (by decide), hne '#' (by decide), hne '+' (by decide), htab⟩
  rw [isTokenChar, hcarried, hblank, bne_iff_ne.mpr (hne '%' (by decide)),
    bne_iff_ne.mpr (hne '=' (by decide))]
  rfl

theorem areTokens_imageFields (options : ImageOptions) : AreTokens (imageFields options) := by
  have hformat : IsToken options.format.word := by cases options.format <;> decide
  have hscale : IsToken options.scale.plain := fun c hc =>
    isTokenChar_of_isClassChar (options.scale.plainText_plain c hc)
  exact List.forall_mem_cons.mpr ⟨⟨(by decide : IsToken "format"), hformat⟩,
    List.forall_mem_singleton.mpr ⟨(by decide : IsToken "scale"), hscale⟩⟩

theorem toList_nodesAddress (c : Client) (fileKey id : String) :
    (c.nodesAddress fileKey [id]).toList =
      (c.baseUrl ++ "/files/" ++ fileKey ++ "/nodes").toList ++
        '?' :: (fieldText (idsName, id) ++ moreText []) := by
  simp [nodesAddress, idsName, fieldText, moreText]

theorem toList_imageAddress (c : Client) (fileKey id : String) :
    (c.imageAddress fileKey id).toList = (c.baseUrl ++ "/images/" ++ fileKey).toList ++
      '?' :: (fieldText (idsName, id) ++ moreText (imageFields c.image)) := by
  simp [imageAddress, imageFields, idsName, fieldText, moreText]

/-- A request to an address with fields behind a path has those fields as pairs if and only if
the first one is carried. -/
theorem pairs_eq_iff {address path id : String} {fields : List (String × String)}
    {request : Request} (hread : Url.read address = .ok request.url)
    (haddress : address.toList =
      path.toList ++ '?' :: (fieldText (idsName, id) ++ moreText fields))
    (hpath : IsPathPart path.toList) (hfields : AreTokens fields) :
    request.pairs = some ((idsName, id) :: fields) ↔
      isTextCarried id = true ∧ (fields.isEmpty = true → endsPlainly id = true) := by
  rw [Request.pairs, pairs_of_read hread haddress hpath, Option.some_inj]
  exact spokenPairs_eq_iff isToken_idsName id hfields

/-! ## The service's own address -/

theorem isHostName_service : IsHostName "api.figma.com" where
  ne_empty := by decide
  plain := List.all_eq_true.mp (by decide)
  host := by decide +kernel

theorem head?_follow {web : Web} (hweb : ∀ request, (web request).isSome = true)
    (header : Header) (left : Nat) (url : Url) :
    (Request.follow web header (left + 1) url).2.head? = some ⟨url, header⟩ := by
  rw [Request.follow]
  dsimp only
  split
  · rename_i hnone
    have hsome := hweb ⟨url, header⟩
    rw [hnone] at hsome
    cases hsome
  · split
    · split <;> rfl
    · rfl

/-- Every question to the service is sent. -/
theorem exists_request_service {c : Client} (hservice : c.baseUrl = Config.standard.apiBaseUrl)
    {web : Web} (hweb : ∀ request, (web request).isSome = true) {α : Type} {address : String}
    (haddress : c.baseUrl.toList <+: address.toList) (ofJson? : Json → Option α) :
    (c.ask web address ofJson?).2.head?.isSome = true := by
  obtain ⟨rest, hrest⟩ := haddress
  have hbase : c.baseUrl.toList =
      "https://".toList ++ ("api.figma.com".toList ++ '/' :: "v1".toList) := by
    rw [hservice]
    decide
  rw [hbase, List.append_assoc, List.append_assoc] at hrest
  rw [requests_ask, Request.send, isHostName_service.read_eq hrest.symm]
  dsimp only
  rw [Request.mostRequests, head?_follow hweb]
  rfl

/-! ## Questions -/

/-- The service is asked for the node with the id that was given, and for nothing else, if and
only if the query carries the id; where the id ends the address, it must not end in a blank or a
control, either. At its own address the service is always asked. The key of a file may be any that
does not end a path, such as all keys that links name. -/
theorem asks_for_node_iff (c : Client) (web : Web) {fileKey : String} (id : String)
    (hbase : IsPathPart c.baseUrl.toList) (hkey : IsPathPart fileKey.toList) :
    (∀ request, (c.nodes web fileKey [id]).2.head? = some request →
      (request.pairs = some [("ids", id)] ↔
        isTextCarried id = true ∧ endsPlainly id = true)) ∧
    (∀ request, (c.imageUrl web fileKey id).2.head? = some request →
      (request.pairs = some [("ids", id), ("format", c.image.format.word),
        ("scale", c.image.scale.plain)] ↔ isTextCarried id = true)) ∧
    (c.baseUrl = Config.standard.apiBaseUrl → (∀ request, (web request).isSome = true) →
      (c.nodes web fileKey [id]).2.head?.isSome = true ∧
        (c.imageUrl web fileKey id).2.head?.isSome = true) ∧
    ∀ text link, Link.read text = .ok link → IsPathPart link.fileKey.toList := by
  have hfiles : IsPathPart (c.baseUrl ++ "/files/" ++ fileKey ++ "/nodes").toList :=
    isPathPart_append (isPathPart_append (isPathPart_append hbase (by decide)) hkey) (by decide)
  have himages : IsPathPart (c.baseUrl ++ "/images/" ++ fileKey).toList :=
    isPathPart_append (isPathPart_append hbase (by decide)) hkey
  refine ⟨fun request hrequest => ?_, fun request hrequest => ?_, fun hservice hweb => ⟨?_, ?_⟩,
    fun _ _ hread => Link.isPathPart_fileKey hread⟩
  · rw [nodes, requests_ask] at hrequest
    have hpairs := pairs_eq_iff (Request.read_of_send hrequest)
      (toList_nodesAddress c fileKey id) hfiles (List.forall_mem_nil _)
    exact hpairs.trans (and_congr_right fun _ => ⟨fun h => h rfl, fun h _ => h⟩)
  · rw [requests_imageUrl, requests_ask] at hrequest
    have hpairs := pairs_eq_iff (Request.read_of_send hrequest)
      (toList_imageAddress c fileKey id) himages (areTokens_imageFields c.image)
    exact hpairs.trans (and_iff_left fun h => nomatch h)
  · refine exists_request_service hservice hweb ?_ _
    rw [toList_nodesAddress, String.toList_append, String.toList_append, String.toList_append,
      List.append_assoc, List.append_assoc, List.append_assoc]
    exact List.prefix_append ..
  · rw [requests_imageUrl]
    refine exists_request_service hservice hweb ?_ _
    rw [toList_imageAddress, String.toList_append, String.toList_append, List.append_assoc,
      List.append_assoc]
    exact List.prefix_append ..

def atService : Client := ⟨.personal "token", Config.standard.apiBaseUrl, .standard⟩

def emptyAnswers : Web := fun _ => some ⟨200, [], "\x7b\x7d"⟩

theorem card_is_asked_for : IsPathPart atService.baseUrl.toList ∧ IsPathPart "KEY".toList ∧
    ∃ request, (atService.nodes emptyAnswers "KEY" ["1:2"]).2.head? = some request ∧
      request.pairs = some [("ids", "1:2")] := by
  have hbase : IsPathPart atService.baseUrl.toList := by decide
  have hkey : IsPathPart "KEY".toList := by decide
  obtain ⟨hnodes, _, hservice, _⟩ := asks_for_node_iff atService emptyAnswers "1:2" hbase hkey
  obtain ⟨request, hrequest⟩ := Option.isSome_iff_exists.mp (hservice rfl fun _ => rfl).1
  exact ⟨hbase, hkey, request, hrequest, (hnodes request hrequest).mpr (by decide)⟩

/-- A link may name a node whose id has an ampersand. The service is asked for what stands before
it. -/
theorem ampersand_cuts_id :
    (Link.read "https://www.figma.com/design/KEY/Card?node-id=1%262").toOption =
        some ⟨"KEY", "1&2"⟩ ∧
      (atService.nodes emptyAnswers "KEY" ["1&2"]).2.map Request.pairs =
        [some [("ids", "1"), ("2", "")]] := by
  decide +kernel

end Client

end DesignComponents
