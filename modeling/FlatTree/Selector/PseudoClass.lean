import FlatTree.Selector.Attribute
import FlatTree.Text.Blank

/-!
# Pseudo-classes

A pseudo-class is a name behind a colon, and for some of them an argument between parentheses: a position
or an excluded selector list.  Reading an excluded list is left to a given reader.
-/

namespace FlatTree.Selector

/-- The failure where a selector should go on with what is not there. -/
def unexpectedAt : List Char → Fault (List Char)
  | [] => .missingCompound []
  | c :: rest => .unexpected c (c :: rest)

inductive PseudoClass where
  | not
  | nthChild
  | nthLastChild
  | simple (feature : Feature)

def PseudoClass.named? : String → Option PseudoClass
  | "not" => some not
  | "nth-child" => some nthChild
  | "nth-last-child" => some nthLastChild
  | "first-child" => some (simple .firstChild)
  | "last-child" => some (simple .lastChild)
  | "only-child" => some (simple .onlyChild)
  | _ => none

/-- Reads the argument of a position that stands without its parentheses. -/
def Nth.ofChars {place : Type} (argument : List Char) : Except (Fault place) Nth :=
  match Nth.read? argument with
  | some nth => .ok nth
  | none => .error (.invalidNth (Text.trim argument))

def isParenthesis (c : Char) : Bool :=
  c = '(' || c = ')'

/-- Reads a position with its parentheses, the first of them at the front of the text. -/
def readPosition (text : List Char) : Reading Nth :=
  match text with
  | '(' :: inside =>
    let argument := inside.takeWhile (!isParenthesis ·)
    match inside.dropWhile (!isParenthesis ·) with
    | [] => .error (.unbalanced text)
    | ')' :: rest => (Nth.ofChars argument).map fun nth => (nth, rest)
    | _ => .error (.invalidNth (Text.trim argument))
  | _ => .error (unexpectedAt text)

/-- Reads an excluded selector list, the text starting with its parenthesis. -/
def readExclusion (nested : Reader SelectorList) (text : List Char) : Reading SelectorList :=
  match text with
  | '(' :: inside =>
    match nested.read inside with
    | .error error => .error error
    | .ok (alternatives, ')' :: rest) => .ok (alternatives, rest)
    | .ok (_, rest) => .error (.unbalanced rest)
  | _ => .error (unexpectedAt text)

/-- Reads a pseudo-class whose colon has been taken. -/
def readPseudoClass (nested : Reader SelectorList) (text : List Char) : Reading Simple :=
  match expectIdentifier text with
  | .error error => .error error
  | .ok (name, rest) =>
    let lowered := String.ofList (Text.asciiLower name)
    match PseudoClass.named? lowered with
    | none => .error (.unknownPseudoClass lowered (':' :: text))
    | some .not => (readExclusion nested rest).map fun found => (.not found.1, found.2)
    | some .nthChild => (readPosition rest).map fun found => (.feature (.nthChild found.1), found.2)
    | some .nthLastChild =>
      (readPosition rest).map fun found => (.feature (.nthLastChild found.1), found.2)
    | some (.simple feature) =>
      match rest with
      | '(' :: _ => .error (unexpectedAt rest)
      | _ => .ok (.feature feature, rest)

variable {text rest : List Char}

theorem ok_of_map_eq_ok {α β : Type} {reading : Reading α} {f : α × List Char → β × List Char}
    {found : β × List Char} (result : reading.map f = .ok found) :
    ∃ value rest, reading = .ok (value, rest) ∧ f (value, rest) = found := by
  cases reading with
  | error error => simp [Except.map] at result
  | ok pair => exact ⟨pair.1, pair.2, rfl, by simpa [Except.map] using result⟩

theorem readPosition_suffix {nth : Nth} (result : readPosition text = .ok (nth, rest)) :
    rest <:+ text := by
  unfold readPosition at result
  split at result
  · rename_i inside
    dsimp only at result
    split at result
    · cases result
    · rename_i equal
      cases found : (Nth.ofChars (inside.takeWhile (!isParenthesis ·)) :
          Except (Fault (List Char)) Nth) with
      | error error => simp [found, Except.map] at result
      | ok value =>
        simp only [found, Except.map] at result
        cases result
        have behind : ')' :: rest <:+ inside := equal ▸ List.dropWhile_suffix _
        exact (List.suffix_cons _ _).trans (behind.trans (List.suffix_cons _ _))
    · cases result
  · cases result

theorem readExclusion_suffix {nested : Reader SelectorList} {alternatives : SelectorList}
    (result : readExclusion nested text = .ok (alternatives, rest)) : rest <:+ text := by
  unfold readExclusion at result
  split at result
  · split at result
    · cases result
    · rename_i found
      cases result
      exact (List.suffix_cons _ _).trans ((nested.follows found).suffix.trans (List.suffix_cons _ _))
    · cases result
  · cases result

theorem readPseudoClass_suffix {nested : Reader SelectorList} {simple : Simple}
    (result : readPseudoClass nested text = .ok (simple, rest)) : rest <:+ text := by
  unfold readPseudoClass at result
  split at result
  · cases result
  · rename_i named
    have name_suffix := (expectIdentifier_follows named).suffix
    dsimp only at result
    split at result
    · cases result
    · obtain ⟨_, _, found, equal⟩ := ok_of_map_eq_ok result
      cases equal
      exact (readExclusion_suffix found).trans name_suffix
    · obtain ⟨_, _, found, equal⟩ := ok_of_map_eq_ok result
      cases equal
      exact (readPosition_suffix found).trans name_suffix
    · obtain ⟨_, _, found, equal⟩ := ok_of_map_eq_ok result
      cases equal
      exact (readPosition_suffix found).trans name_suffix
    · split at result <;> cases result
      exact name_suffix

end FlatTree.Selector
