import FlatTree.Selector.Attribute

/-!
# Writing selector lists

Every selector list has one written form.  Names are escaped where they would not read back as written,
and a comma or a combinator stands between single blanks, so that reading the form gives the list again.
-/

namespace FlatTree.Selector

def Combinator.render : Combinator → List Char
  | descendant => [' ']
  | child => [' ', '>', ' ']
  | adjacent => [' ', '+', ' ']
  | general => [' ', '~', ' ']

def Feature.render : Feature → List Char
  | type name => renderIdentifier name.toList
  | universal => ['*']
  | hasId name => '#' :: renderIdentifier name.toList
  | hasClass name => '.' :: renderIdentifier name.toList
  | hasAttribute test => test.render
  | nthChild nth => ":nth-child(".toList ++ nth.render ++ [')']
  | nthLastChild nth => ":nth-last-child(".toList ++ nth.render ++ [')']
  | firstChild => ":first-child".toList
  | lastChild => ":last-child".toList
  | onlyChild => ":only-child".toList

mutual

def renderSimple : Simple → List Char
  | .feature feature => feature.render
  | .not alternatives => ":not(".toList ++ renderAlternatives alternatives ++ [')']
termination_by structural simple => simple

def renderCompound : List Simple → List Char
  | [] => []
  | simple :: simples => renderSimple simple ++ renderCompound simples
termination_by structural compound => compound

def renderChain : Chain Simple → List Char
  | .last compound => renderCompound compound
  | .link compound combinator rest =>
    renderCompound compound ++ combinator.render ++ renderChain rest
termination_by structural chain => chain

def renderAlternatives : List (Chain Simple) → List Char
  | [] => []
  | [chain] => renderChain chain
  | chain :: chains => renderChain chain ++ ',' :: ' ' :: renderAlternatives chains
termination_by structural alternatives => alternatives

end

def SelectorList.toText (alternatives : SelectorList) : String :=
  String.ofList (renderAlternatives alternatives)

end FlatTree.Selector
