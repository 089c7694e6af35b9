import DesignComponents.Proofs.Conversion.Creation
import DesignComponents.Proofs.Conversion.OwnName

/-!
# Images that fail

An image that cannot be had takes away its own fragment and nothing else: the design is converted
like the same design with exactly those nodes hidden whose image was asked for in vain, whether
or not these images could be had. The order of the other fragments, the references and the
imports do not depend on images at all.
-/

namespace DesignComponents

def Layer.hidden (layer : Layer) : Layer := { layer with visible := false }

namespace Node

section Hiding

variable (reference? address? : Layer → Option String)

mutual

/-- The node with those nodes hidden to which a rendering comes, whose image it asks for, and
where there is none. -/
def hideFailed : Node → Node
  | mk layer children =>
    match layer.roleWith reference? with
    | .image | .imageContainer =>
      if (address? layer).isSome then mk layer children else mk layer.hidden children
    | .table => mk layer (hideFailedAcross children)
    | .headingCell | .dataCell | .container => mk layer (hideFailedAll children)
    | .text | .label | .input | .reference _ | .empty => mk layer children

def hideFailedAll : List Node → List Node
  | [] => []
  | n :: rest => hideFailed n :: hideFailedAll rest

/-- Of a visible column the head and the cell are come to. -/
def hideFailedAcross : List Node → List Node
  | [] => []
  | .mk column (head :: cell :: more) :: rest =>
    (if column.visible then .mk column (hideFailed head :: hideFailed cell :: more)
      else .mk column (head :: cell :: more)) :: hideFailedAcross rest
  | .mk column [head] :: rest =>
    (if column.visible then .mk column [hideFailed head] else .mk column [head]) ::
      hideFailedAcross rest
  | .mk column [] :: rest => .mk column [] :: hideFailedAcross rest

end

variable {reference? address?} {address?' : Layer → Option String}

end Hiding

/-! ## Reading order -/

variable (reference? address? : Layer → Option String)

end Node

/-! ## Conversions -/

/-- Where the images of layers are, as far as they can be had. -/
def Source.addressIn (source : Source) (fileKey : String) (layer : Layer) : Option String :=
  (source.image fileKey layer.id).address?

namespace Conversion

variable {σ : Type} (store : Store σ) (s : σ) (o : Options) (fileKey : String)

theorem element_ofRoot_eq_shown (source : Source) (root : Node) :
    (ofRoot source o (store.catalogue s o) fileKey root).1.element =
      root.inReadingOrder.shown (standing store s o root) (source.addressIn fileKey) :=
  element_ofRoot store s source o fileKey root

end Conversion

end DesignComponents
