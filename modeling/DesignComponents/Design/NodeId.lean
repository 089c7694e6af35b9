import DesignComponents.Text.Blank

/-!
# Ids of nodes

A link writes the parts of a node's id with hyphens between them, the design service with colons.
-/

namespace DesignComponents

def colonFor (c : Char) : Char := if c = '-' then ':' else c

def nodeId (written : String) : String :=
  String.ofList ((trimBlanks written.toList).map colonFor)

end DesignComponents
