import DesignComponents.Api.Credential
import DesignComponents.Api.Error
import DesignComponents.Text.Blank
import DesignComponents.Url.Read

/-!
# Exchanges

A request is sent to an address, and as long as the response only points to another address, it
is sent there, a limited number of times. An exchange is the list of the requests that reached
the service and the last response.
-/

namespace DesignComponents

structure Request where
  url : Url
  header : Header
  deriving DecidableEq, Repr

structure Response where
  status : Nat
  headers : List Header
  body : String
  deriving DecidableEq, Repr

/-- What answers requests. An address that is not reached has no response. -/
abbrev Web := Request → Option Response

namespace Response

def header? (r : Response) (name : String) : Option String :=
  (r.headers.find? fun h => h.name.toLower == name).map fun h =>
    String.ofList (trimEnds (fun c => c == ' ' || c == '\t') h.value.toList)

def isSuccess (r : Response) : Bool := 200 ≤ r.status && r.status ≤ 299

/-- Whether a response answers its request. A status has three digits, and those of the first
hundred only announce another response, but for the change of protocols. -/
def isFinal (r : Response) : Bool := r.status == 101 || (200 ≤ r.status && r.status ≤ 999)

def bodiless : List Nat := [101, 204, 304]

def content (r : Response) : String := if bodiless.contains r.status then "" else r.body

def pointing : List Nat := [301, 302, 303, 307, 308]

def next? (r : Response) (here : Url) : Option Url :=
  if pointing.contains r.status then
    (r.header? "location").bind fun text =>
      match Url.resolve here text with
      | .ok url => some url
      | .error _ => none
  else none

end Response

namespace Request

def mostRequests : Nat := 10

def follow (web : Web) (header : Header) :
    (left : Nat) → Url → Except RequestError Response × List Request
  | 0, _ => (.error .unanswered, [])
  | left + 1, url =>
    let request : Request := ⟨url, header⟩
    match web request with
    | none => (.error .unanswered, [])
    | some response =>
      if response.isFinal then
        match response.next? url with
        | none => (.ok response, [request])
        | some next =>
          let (last, requests) := follow web header left next
          (last, request :: requests)
      else (.error .unanswered, [request])

def send (web : Web) (header : Header) (address : String) :
    Except RequestError Response × List Request :=
  match Url.read address with
  | .error _ => (.error .unanswered, [])
  | .ok url => follow web header mostRequests url

end Request

end DesignComponents
