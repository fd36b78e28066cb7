import FlatTree.Selector.PseudoClass

/-!
# Reading selector lists

The reader follows the grammar from the inside out: simple selectors, compounds, chains, lists.  The
selector list of a `:not()` is read by a reader that is given one level of nesting less, so the number of
levels bounds the nesting.
-/

namespace FlatTree.Selector

/-- The characters that open a simple selector behind the first one of a compound. -/
def opensSimple (c : Char) : Bool :=
  c = '.' || c = '#' || c = '[' || c = ':'

/-- Reads a simple selector that is neither a type nor universal. -/
def readSimple (nested : Reader SelectorList) (text : List Char) : Reading Simple :=
  match text with
  | '.' :: rest =>
    (expectIdentifier rest).map fun name => (.feature (.hasClass (String.ofList name.1)), name.2)
  | '#' :: rest =>
    (expectIdentifier rest).map fun name => (.feature (.hasId (String.ofList name.1)), name.2)
  | '[' :: rest =>
    (AttributeTest.readInside text rest).map fun test => (.feature (.hasAttribute test.1), test.2)
  | ':' :: rest => readPseudoClass nested rest
  | _ => .error (unexpectedAt text)

theorem readSimple_follows {nested : Reader SelectorList} {text rest : List Char} {simple : Simple}
    (result : readSimple nested text = .ok (simple, rest)) : Follows rest text := by
  unfold readSimple at result
  split at result
  · obtain ⟨_, _, found, equal⟩ := ok_of_map_eq_ok result
    cases equal
    exact .cons (expectIdentifier_follows found).suffix
  · obtain ⟨_, _, found, equal⟩ := ok_of_map_eq_ok result
    cases equal
    exact .cons (expectIdentifier_follows found).suffix
  · obtain ⟨_, _, found, equal⟩ := ok_of_map_eq_ok result
    cases equal
    exact .cons (AttributeTest.readInside_suffix found)
  · exact .cons (readPseudoClass_suffix result)
  · cases result

def simpleReader (nested : Reader SelectorList) : Reader Simple :=
  ⟨readSimple nested, readSimple_follows⟩

/-- Reads the simple selectors that stand together at the front of a text, possibly none.  A type or
the universal selector can only be the first of them. -/
def readSimples (nested : Reader SelectorList) (text : List Char) : Reading Compound :=
  let others := (simpleReader nested).many opensSimple
  match text with
  | [] => .ok ([], [])
  | c :: rest =>
    if c = '*' then
      (others rest).map fun found => (.feature .universal :: found.1, found.2)
    else if isNameStart c then
      let name := readIdentifier text
      (others name.2).map fun found =>
        (.feature (.type (String.ofList name.1)) :: found.1, found.2)
    else
      others text

/-- The failure where a compound should stand. -/
def noCompound : List Char → Fault (List Char)
  | [] => .missingCompound []
  | c :: rest =>
    if c = '>' || c = '+' || c = '~' || c = ',' || c = ')' then
      .missingCompound (c :: rest)
    else
      .unexpected c (c :: rest)

def readCompound (nested : Reader SelectorList) (text : List Char) : Reading Compound :=
  match readSimples nested text with
  | .error error => .error error
  | .ok ([], _) => .error (noCompound text)
  | .ok (simple :: simples, rest) => .ok (simple :: simples, rest)

theorem readSimples_follows {nested : Reader SelectorList} {text rest : List Char} {simple : Simple}
    {simples : Compound} (result : readSimples nested text = .ok (simple :: simples, rest)) :
    Follows rest text := by
  unfold readSimples at result
  simp only at result
  split at result
  · cases result
  · rename_i c more
    split at result
    · obtain ⟨_, _, found, equal⟩ := ok_of_map_eq_ok result
      cases equal
      exact .cons (Reader.many_suffix _ _ found)
    · split at result
      · rename_i starts
        obtain ⟨_, _, found, equal⟩ := ok_of_map_eq_ok result
        cases equal
        exact .of_suffix (Reader.many_suffix _ _ found) (readIdentifier_follows starts more)
      · rw [Reader.many] at result
        split at result
        · split at result
          · cases result
          · rename_i taken
            split at result
            · cases result
            · rename_i found
              cases result
              exact .of_suffix (Reader.many_suffix _ _ found) ((simpleReader nested).follows taken)
        · cases result

theorem readCompound_follows {nested : Reader SelectorList} {text rest : List Char}
    {compound : Compound} (result : readCompound nested text = .ok (compound, rest)) :
    Follows rest text := by
  unfold readCompound at result
  split at result
  · cases result
  · cases result
  · rename_i found
    cases result
    exact readSimples_follows found

/-- What joins a compound to the next one, or nothing at the end of a chain.  Blanks alone join as
descendants. -/
def readCombinator (text : List Char) : Reading (Option Combinator) :=
  match Text.trimAsciiStart text with
  | [] => .ok (none, [])
  | c :: rest =>
    if c = ',' || c = ')' then .ok (none, c :: rest)
    else if c = '>' then .ok (some .child, Text.trimAsciiStart rest)
    else if c = '+' then .ok (some .adjacent, Text.trimAsciiStart rest)
    else if c = '~' then .ok (some .general, Text.trimAsciiStart rest)
    else if text.head?.any Text.isAsciiBlank then .ok (some .descendant, c :: rest)
    else .error (.unexpected c (c :: rest))

theorem readCombinator_suffix {text rest : List Char} {combinator : Option Combinator}
    (result : readCombinator text = .ok (combinator, rest)) : rest <:+ text := by
  have trimmed := trimAsciiStart_suffix text
  unfold readCombinator at result
  split at result
  · cases result
    exact List.nil_suffix
  · rename_i c more equal
    rw [equal] at trimmed
    have behind := (trimAsciiStart_suffix more).trans ((List.suffix_cons c more).trans trimmed)
    repeat' split at result
    all_goals first
      | cases result; exact trimmed
      | cases result; exact behind
      | cases result

def compoundReader (nested : Reader SelectorList) : Reader Compound :=
  ⟨readCompound nested, readCompound_follows⟩

def readChain (compound : Reader Compound) (text : List Char) : Reading Complex :=
  match _first : compound.read text with
  | .error error => .error error
  | .ok (first, behind) =>
    match _joined : readCombinator behind with
    | .error error => .error error
    | .ok (none, rest) => .ok (.last first, rest)
    | .ok (some combinator, next) =>
      match readChain compound next with
      | .error error => .error error
      | .ok (others, rest) => .ok (.link first combinator others, rest)
termination_by text.length
decreasing_by
  exact ((compound.follows _first).of_suffix (readCombinator_suffix _joined)).length_lt

theorem readChain_follows {compound : Reader Compound} {text rest : List Char} {chain : Complex}
    (result : readChain compound text = .ok (chain, rest)) : Follows rest text := by
  fun_induction readChain compound text generalizing chain rest with
  | case1 => simp at result
  | case2 => simp at result
  | case3 text first behind taken rest' joined =>
    cases result
    exact (compound.follows taken).of_suffix (readCombinator_suffix joined)
  | case4 => simp at result
  | case5 text first behind taken combinator next joined others rest' found ih =>
    cases result
    exact (compound.follows taken).of_suffix
      ((ih found).suffix.trans (readCombinator_suffix joined))

def chainReader (compound : Reader Compound) : Reader Complex :=
  ⟨readChain compound, readChain_follows⟩

/-- Reads the alternatives of a list, up to what follows the last one. -/
def readAlternatives (chain : Reader Complex) (text : List Char) : Reading SelectorList :=
  match _first : chain.read (Text.trimAsciiStart text) with
  | .error error => .error error
  | .ok (first, behind) =>
    match _separated : Text.trimAsciiStart behind with
    | ',' :: next =>
      match readAlternatives chain next with
      | .error error => .error error
      | .ok (others, rest) => .ok (first :: others, rest)
    | rest => .ok ([first], rest)
termination_by text.length
decreasing_by
  have trimmed := trimAsciiStart_suffix behind
  rw [_separated] at trimmed
  exact (((chain.follows _first).of_follows (trimAsciiStart_suffix text)).of_suffix
    ((List.suffix_cons _ _).trans trimmed)).length_lt

theorem readAlternatives_follows {chain : Reader Complex} {text rest : List Char}
    {alternatives : SelectorList}
    (result : readAlternatives chain text = .ok (alternatives, rest)) : Follows rest text := by
  fun_induction readAlternatives chain text generalizing alternatives rest with
  | case1 => simp at result
  | case2 => simp at result
  | case3 text first behind taken next separated others rest' found ih =>
    cases result
    have trimmed := trimAsciiStart_suffix behind
    rw [separated] at trimmed
    exact ((chain.follows taken).of_follows (trimAsciiStart_suffix text)).of_suffix
      ((ih found).suffix.trans ((List.suffix_cons _ _).trans trimmed))
  | case4 text first behind taken =>
    cases result
    exact ((chain.follows taken).of_follows (trimAsciiStart_suffix text)).of_suffix
      (trimAsciiStart_suffix behind)

def alternativesReader (chain : Reader Complex) : Reader SelectorList :=
  ⟨readAlternatives chain, readAlternatives_follows⟩

/-- Reads a selector list on one of so many levels.  Below the last level nothing can be read. -/
def listReader (limit : Nat) : (levels : Nat) → Reader SelectorList
  | 0 => .fail (.tooDeep limit)
  | levels + 1 => alternativesReader (chainReader (compoundReader (listReader limit levels)))

namespace SelectorList

/-- The nesting of `:not()` that is allowed where no other limit is given. -/
def defaultLimit : Nat := 32

/-- The nesting of `:not()` that no limit exceeds. -/
def greatestLimit : Nat := 256

/-- Reads a whole text as a selector list with at most `limit` levels of `:not()`. -/
def ofChars (limit : Nat) (text : List Char) : Except (Fault (List Char)) SelectorList :=
  if text.all Text.isAsciiBlank then
    .error .blank
  else
    match (listReader limit (limit + 1)).read text with
    | .error error => .error error
    | .ok (alternatives, []) => .ok alternatives
    | .ok (_, rest) => .error (.unbalanced rest)

/-- The number of bytes that a text takes in UTF-8. -/
def byteLength (text : List Char) : Nat :=
  text.foldl (fun length c => length + c.utf8Size) 0

/-- The failure with the offsets of its places in the text. -/
def located (text : List Char) : Fault (List Char) → Fault Nat :=
  Fault.map fun rest => byteLength text - byteLength rest

def parseWithin (limit : Nat) (text : String) : Except (Fault Nat) SelectorList :=
  (ofChars (min limit greatestLimit) text.toList).mapError (located text.toList)

def parse (text : String) : Except (Fault Nat) SelectorList :=
  parseWithin defaultLimit text

end SelectorList

end FlatTree.Selector
