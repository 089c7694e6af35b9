import DesignComponents.Component.Role
import DesignComponents.Conversion.Ledger
import DesignComponents.Design.Node
import DesignComponents.Failure
import DesignComponents.Markup.Element
import DesignComponents.Style.Classes

/-!
# Tasks

A walk over a design starts all its nodes before it waits for anything: a task is what then is
left to do, an element whose images are still on their way. Every round of polling brings each
image one step nearer. Which components are referred to and in which order things are asked for
is settled by the start alone.
-/

namespace DesignComponents

structure Fetch where
  delay : Nat
  outcome : Except Failure (Option String)

namespace Fetch

/-- The address of the image; a failure and the lack of an image come to the same. -/
def address? (f : Fetch) : Option String :=
  match f.outcome with
  | .ok address => address
  | .error _ => none

end Fetch

/-- How an image is shown: by itself, or in a container that has its classes. -/
inductive ImageForm where
  | plain | contained
  deriving DecidableEq, Repr

namespace ImageForm

def element (form : ImageForm) (address : String) (classes : ClassList) : Element :=
  match form with
  | plain => .image address classes
  | contained => .imageContainer address classes

end ImageForm

inductive Task where
  | done (element : Option Element)
  | image (fetch : Fetch) (form : ImageForm) (classes : ClassList)
  | table (heads cells : List Task)
  | headingCell (content : List Task) (classes : ClassList)
  | dataCell (content : List Task) (classes : ClassList)
  | container (content : List Task) (classes : ClassList)

namespace Task

def shown (e : Element) : Task := done (some e)

mutual

def poll : Task → Task
  | done e => done e
  | image ⟨0, outcome⟩ form classes =>
    done ((Fetch.address? ⟨0, outcome⟩).map (form.element · classes))
  | image ⟨delay + 1, outcome⟩ form classes => image ⟨delay, outcome⟩ form classes
  | table heads cells => table (pollAll heads) (pollAll cells)
  | headingCell content classes => headingCell (pollAll content) classes
  | dataCell content classes => dataCell (pollAll content) classes
  | container content classes => container (pollAll content) classes

def pollAll : List Task → List Task
  | [] => []
  | t :: rest => poll t :: pollAll rest

end

mutual

def rounds : Task → Nat
  | done _ => 0
  | image fetch _ _ => fetch.delay + 1
  | table heads cells => max (roundsOf heads) (roundsOf cells)
  | headingCell content _ => roundsOf content
  | dataCell content _ => roundsOf content
  | container content _ => roundsOf content

def roundsOf : List Task → Nat
  | [] => 0
  | t :: rest => max (rounds t) (roundsOf rest)

end

mutual

/-- The element as far as it is there. -/
def element? : Task → Option Element
  | done e => e
  | image .. => none
  | table heads cells => some (.table (elements heads) (elements cells))
  | headingCell content classes => some (.headingCell (elements content) classes)
  | dataCell content classes => some (.dataCell (elements content) classes)
  | container content classes => some (.container (elements content) classes)

def elements : List Task → List Element
  | [] => []
  | t :: rest => (element? t).toList ++ elements rest

end

def pollTimes : Nat → Task → Task
  | 0, t => t
  | n + 1, t => pollTimes n (poll t)

def finish (t : Task) : Option Element := (pollTimes t.rounds t).element?

end Task

end DesignComponents
