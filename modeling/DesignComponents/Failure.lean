import DesignComponents.Text.Blank

/-!
# Failures

Why a command did not produce a component: one case for each cause, with its message, the
category under which it is reported, and advice.
-/

namespace DesignComponents

inductive Failure where
  | files (text : String)
  | network (text : String)
  | invalidLink (text : String)
  | service (status : Option Nat) (text : String)
  | rateLimited (seconds : Nat)
  | nodeNotFound (id : String)
  | unknownFramework (text : String)
  | scaffold (command text : String)
  | configuration (text : String)
  | unexpected (text : String)
  deriving DecidableEq, Repr

inductive FailureCategory where
  | input | network | figma | framework | config | unknown
  deriving DecidableEq, Repr

namespace FailureCategory

def word : FailureCategory → String
  | input => "input"
  | network => "network"
  | figma => "figma"
  | framework => "framework"
  | config => "config"
  | unknown => "unknown"

def all : List FailureCategory := [input, network, figma, framework, config, unknown]

end FailureCategory

namespace Failure

def statusText : Option Nat → String
  | some status => "Some(" ++ toString status ++ ")"
  | none => "None"

def message : Failure → String
  | files text => "IO error: " ++ text
  | network text => "Network error: " ++ text
  | invalidLink text => "Invalid Figma link: " ++ text
  | service status text => "Figma API error (status: " ++ statusText status ++ "): " ++ text
  | rateLimited seconds =>
    "Rate limited by Figma API, retry after " ++ toString seconds ++ " seconds"
  | nodeNotFound id => "Node " ++ id ++ " not found in Figma response"
  | unknownFramework text => "Unsupported framework: " ++ text
  | scaffold command text => "Scaffolding command `" ++ command ++ "` failed: " ++ text
  | configuration text => "Configuration error: " ++ text
  | unexpected text => "Unexpected error: " ++ text

def category : Failure → FailureCategory
  | invalidLink _ => .input
  | network _ => .network
  | service .. | rateLimited _ | nodeNotFound _ => .figma
  | unknownFramework _ | scaffold .. => .framework
  | files _ | configuration _ => .config
  | unexpected _ => .unknown

def statusRemedy : Option Nat → String
  | some 401 | some 403 =>
    "Check FIGMA_TOKEN (or FIGMA_OAUTH_TOKEN) and that it can read this file."
  | some 404 => "Verify the file key in the link and that the file is shared with your account."
  | _ => "Check FIGMA_TOKEN/link and rate limits; retry after waiting."

/-- Whether a text speaks of something, the case of its letters aside. -/
def mentions (text topic : String) : Bool :=
  occursIn topic.toList (text.toList.map Char.toLower)

def configurationRemedy (text : String) : String :=
  if mentions text "figma_token" || mentions text "figma token" then
    "Set FIGMA_TOKEN (or FIGMA_OAUTH_TOKEN) or pass --token."
  else if mentions text "scale" then
    "Use an image scale greater than zero in the [image] config section."
  else "Check flags/config file values (see --help)."

def remedy : Failure → String
  | files _ => "Check the project directory path and write permissions."
  | network _ => "Check connectivity/proxy/VPN and retry."
  | invalidLink _ =>
    "Pass a Figma link like https://www.figma.com/design/<FILE_KEY>/Name?node-id=12-34."
  | service status _ => statusRemedy status
  | rateLimited _ => "Wait for the rate limit window to pass and retry."
  | nodeNotFound _ =>
    "Copy the link again with the frame selected so it carries the right node-id."
  | unknownFramework _ =>
    "Run inside a project whose package.json depends on react, vue or @angular/core, or pass " ++
      "--framework."
  | scaffold .. =>
    "Install the Angular CLI (`npm i -g @angular/cli`) and run figcomp from the workspace root."
  | configuration text => configurationRemedy text
  | unexpected _ => "Re-run with --verbose; file an issue if persistent."

end Failure

end DesignComponents
