import DesignComponents.Api.Exchange
import DesignComponents.Api.Image
import DesignComponents.Conversion.Component
import DesignComponents.Design.Decode
import DesignComponents.Json.Reader

/-!
# Client of the design service

Asks for the nodes of a file and for images of them. The ids stand in the query of an address as
they are.
-/

namespace DesignComponents

structure Client where
  credential : Credential
  baseUrl : String
  image : ImageOptions
  deriving DecidableEq

namespace Client

def make (credential : Credential) (baseUrl : String) (image : ImageOptions) :
    Except ApiError Client :=
  if credential.isSendable then
    .ok ⟨credential, String.ofList (dropEnd (· == '/') baseUrl.toList), image⟩
  else .error .missingToken

/-! ## Addresses -/

def nodesAddress (c : Client) (fileKey : String) (ids : List String) : String :=
  c.baseUrl ++ "/files/" ++ fileKey ++ "/nodes?ids=" ++ ",".intercalate ids

def imageAddress (c : Client) (fileKey id : String) : String :=
  c.baseUrl ++ "/images/" ++ fileKey ++ "?ids=" ++ id ++ "&format=" ++ c.image.format.word ++
    "&scale=" ++ c.image.scale.plain

/-! ## Responses -/

def usualWait : Nat := 60

def seconds? (text : String) : Option Nat :=
  let digits :=
    match text.toList with
    | '+' :: cs => cs
    | cs => cs
  if digits.isEmpty || !digits.all Char.isDigit then none
  else
    let n := Json.decimalValue digits
    if n ≤ Json.greatestInteger then some n else none

def wait (r : Response) : Nat := ((r.header? "retry-after").bind seconds?).getD usualWait

def bodyText (body : String) : String :=
  match body.toList with
  | '\uFEFF' :: cs => String.ofList cs
  | _ => body

def tooManyRequests : Nat := 429

def decode {α : Type} (ofJson? : Json → Option α) (r : Response) : Except ApiError α :=
  if r.status = tooManyRequests then .error (.rateLimited (wait r))
  else if !r.isSuccess then .error (.refused r.status (bodyText r.content))
  else
    match (Json.read? r.content).bind ofJson? with
    | some a => .ok a
    | none => .error (.request .undecodable)

def ask {α : Type} (c : Client) (web : Web) (address : String) (ofJson? : Json → Option α) :
    Except ApiError α × List Request :=
  match Request.send web c.credential.header address with
  | (.error cause, requests) => (.error (.request cause), requests)
  | (.ok response, requests) => (decode ofJson? response, requests)

/-! ## Questions -/

def nodes (c : Client) (web : Web) (fileKey : String) (ids : List String) :
    Except ApiError NodesAnswer × List Request :=
  c.ask web (c.nodesAddress fileKey ids) NodesAnswer.ofJson?

def nodeOf (answer : NodesAnswer) (id : String) : Except ApiError Node :=
  match valueOf? id answer.nodes with
  | some (some node) => .ok node
  | _ => .error (.nodeNotFound id)

def document (c : Client) (web : Web) (fileKey id : String) :
    Except ApiError Node × List Request :=
  let (answer, requests) := c.nodes web fileKey [id]
  (answer.bind (nodeOf · id), requests)

/-- The address of an image in an answer; an answer may be an error in spite of its status. -/
def imageOf (answer : ImagesAnswer) (id : String) : Except ApiError (Option String) :=
  match answer.error with
  | some text => .error (.refused 200 text)
  | none =>
    match valueOf? id answer.images with
    | some address => .ok address
    | none => .ok none

def imageUrl (c : Client) (web : Web) (fileKey id : String) :
    Except ApiError (Option String) × List Request :=
  let (answer, requests) := c.ask web (c.imageAddress fileKey id) ImagesAnswer.ofJson?
  (answer.bind (imageOf · id), requests)

/-- The service as a source of designs. Its images come as soon as they are waited for. -/
def source (c : Client) (web : Web) : Source where
  document fileKey id := (c.document web fileKey id).1.mapError ApiError.failure
  image fileKey id := ⟨0, (c.imageUrl web fileKey id).1.mapError ApiError.failure⟩

def requestsOf (c : Client) (web : Web) : Call → List Request
  | .document fileKey id => (c.document web fileKey id).2
  | .image fileKey id => (c.imageUrl web fileKey id).2
  | .lookup .. | .write .. => []

end Client

end DesignComponents
