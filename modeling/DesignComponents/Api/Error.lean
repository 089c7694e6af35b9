import DesignComponents.Failure

/-!
# Errors of the design service

Why a question to the design service has no usable answer, and which failure that is for a
command.
-/

namespace DesignComponents

inductive RequestError where
  | undecodable | unanswered
  deriving DecidableEq, Repr

def RequestError.message : RequestError → String
  | undecodable => "error decoding response body"
  | unanswered => "error sending request"

inductive ApiError where
  | request (cause : RequestError)
  | refused (status : Nat) (text : String)
  | missingToken
  | nodeNotFound (id : String)
  | rateLimited (seconds : Nat)
  deriving DecidableEq, Repr

namespace ApiError

def message : ApiError → String
  | request cause => "HTTP request failed: " ++ cause.message
  | refused status text => "Figma API error (" ++ toString status ++ "): " ++ text
  | missingToken => "Missing access token"
  | nodeNotFound id => "Node not found: " ++ id
  | rateLimited seconds => "Rate limited, retry after " ++ toString seconds ++ " seconds"

def isStatus (n : Nat) : Bool := 100 ≤ n && n ≤ 999

/-- The status that stands for a number which is none. -/
def strangeStatus : Nat := 500

def failure : ApiError → Failure
  | request cause => .network cause.message
  | refused status text =>
    .service (some (if isStatus status then status else strangeStatus)) text
  | missingToken =>
    .configuration "Missing Figma token; set FIGMA_TOKEN or FIGMA_OAUTH_TOKEN"
  | nodeNotFound id => .nodeNotFound id
  | rateLimited seconds => .rateLimited seconds

end ApiError

end DesignComponents
