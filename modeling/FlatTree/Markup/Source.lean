/-!
# Source trees

What a document says, before it becomes nodes of a store.  The content of a template is kept apart from
its children and belongs to no tree of its own.  Document types and processing instructions become no nodes
and are left out.
-/

namespace FlatTree.Markup

/-- What a start tag says of its element. -/
structure ElementHead where
  space : String
  name : String
  attributes : List (String × String)
deriving DecidableEq

inductive Source where
  | element (head : ElementHead) (children contents : List Source)
  | text (content : String)
  | comment (content : String)

end FlatTree.Markup
