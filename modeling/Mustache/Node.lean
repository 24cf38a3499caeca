import Mustache.Path
import Mustache.Tag

/-!
# Nodes

A template means a list of nodes, and a section is a node with a list of nodes
inside it. What a node means depends on the template in one respect only: a
literal is a span of the template's text. So the nodes of a template are read
together with that text, and two templates that differ in nothing but where
their literals stand have nodes that differ only in spans.
-/

namespace Mustache

/-- A piece of the meaning of a template. -/
inductive Node
  /-- Writes a piece of the template as it is. -/
  | literal (span : Span)
  /-- Writes what a path finds. -/
  | interpolation (path : Path) (escaped : Bool)
  /-- Renders its children for what a path finds, or for lack of it. -/
  | block (kind : SectionKind) (path : Path) (children : List Node)
  /-- Renders a partial, every line of it indented. -/
  | inclusion (name indent : Text)
deriving Repr

end Mustache
