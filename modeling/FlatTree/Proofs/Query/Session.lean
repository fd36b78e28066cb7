import FlatTree.Proofs.Selector.Memo
import FlatTree.Proofs.Selector.NestingLimit
import FlatTree.Query.Session
import FlatTree.Store.Slots

/-!
# Sessions answer from the selector alone

The memo of a session is faithful: it keeps nothing but what its texts parse to.  So the answers of a session
do not depend on what it was asked earlier.  They differ from the answers that are given without a session
only where one of the two limits on nesting is exceeded.
-/

namespace FlatTree

namespace Query

open Selector

variable {ν : Type} [DecidableEq ν]

theorem Settings.depth_new_le (depth capacity : Nat) :
    (new depth capacity).depth ≤ SelectorList.greatestLimit :=
  Nat.max_le.mpr ⟨by decide, Nat.min_le_right _ _⟩

/-! ## Answers at a limit -/

/-- The answer without a session, where selectors nest no deeper than a limit. -/
def Question.answerWithin (tree : NodeTree ν) (limit : Nat) :
    Question ν → Except (Fault Nat) (Answer ν)
  | select selector selection =>
    (SelectorList.parseWithin limit selector).map (selection.answer tree)
  | find lookup => .ok (lookup.answer tree)

theorem Question.answer_eq_answerWithin (tree : NodeTree ν) (question : Question ν) :
    question.answer tree = question.answerWithin tree SelectorList.defaultLimit := by
  cases question <;> rfl

theorem Question.answerWithin_sameUnlessDeep (tree : NodeTree ν) {limit other : Nat}
    (hle : limit ≤ other) (question : Question ν) :
    SameUnlessDeep (min limit SelectorList.greatestLimit) (question.answerWithin tree limit)
      (question.answerWithin tree other) := by
  cases question with
  | select selector selection =>
      exact (SelectorList.parseWithin_sameUnlessDeep hle selector).map (selection.answer tree)
  | find lookup => exact .refl _ _

namespace Session

/-- The answers to questions that are asked one after the other. -/
def answers (session : Session ν) : List (Question ν) → List (Except (Fault Nat) (Answer ν))
  | [] => []
  | question :: questions =>
    (session.answer question).1 :: answers (session.answer question).2 questions

/-- A session about a tree whose memo is faithful at a limit. -/
structure Sound (tree : NodeTree ν) (limit : Nat) (session : Session ν) : Prop where
  tree_eq : session.tree = tree
  limit_eq : session.memo.limit = limit
  faithful : session.memo.Faithful

variable {tree : NodeTree ν} {limit : Nat}

theorem Sound.answer {session : Session ν} (hsound : session.Sound tree limit)
    (question : Question ν) :
    (session.answer question).1 = question.answerWithin tree limit ∧
      (session.answer question).2.Sound tree limit := by
  obtain ⟨rfl, rfl, hfaithful⟩ := hsound
  cases question with
  | find lookup => exact ⟨rfl, rfl, rfl, hfaithful⟩
  | select selector selection =>
      have hlist := hfaithful.map_list_parse selector
      rw [Session.answer, Question.answerWithin, ← hlist]
      obtain ⟨hnext, hlimit⟩ := hfaithful.parse selector
      generalize session.memo.parse selector = outcome at hnext hlimit ⊢
      rcases outcome with ⟨fault | parsed, memo⟩
      · exact ⟨rfl, rfl, hlimit, hnext⟩
      · exact ⟨rfl, rfl, hlimit, hnext⟩

theorem Sound.answers {session : Session ν} (hsound : session.Sound tree limit)
    (questions : List (Question ν)) :
    session.answers questions = questions.map (Question.answerWithin tree limit) := by
  induction questions generalizing session with
  | nil => rfl
  | cons question questions ih =>
      obtain ⟨hanswer, hnext⟩ := hsound.answer question
      rw [Session.answers, List.map_cons, hanswer, ih hnext]

omit [DecidableEq ν] in
theorem sound_withSettings (tree : NodeTree ν) (settings : Settings) :
    (withSettings tree settings).Sound tree (min settings.depth SelectorList.greatestLimit) :=
  ⟨rfl, rfl, Memo.faithful_new settings.capacity settings.depth⟩

/-- Whatever a session is asked and in which order, failing selectors and repetitions included, it gives
each answer as if it had been asked nothing before.  The answer is the one that is given without a session,
unless the selector nests too deeply for the session or for the default limit; where the two limits are
the same there is no exception. -/
theorem answers_eq_map (tree : NodeTree ν) (depth capacity : Nat) (questions : List (Question ν)) :
    let settings := Settings.new depth capacity
    let fresh := withSettings tree settings
    fresh.answers questions = questions.map (fun question => (fresh.answer question).1) ∧
    (∀ question, (fresh.answer question).1 = question.answer tree ∨
      (fresh.answer question).1 = .error (.tooDeep settings.depth) ∨
      question.answer tree = .error (.tooDeep SelectorList.defaultLimit)) ∧
    (settings.depth = SelectorList.defaultLimit →
      ∀ question, (fresh.answer question).1 = question.answer tree) := by
  intro settings fresh
  have hgreatest : min settings.depth SelectorList.greatestLimit = settings.depth :=
    Nat.min_eq_left (Settings.depth_new_le depth capacity)
  have hsound : fresh.Sound tree settings.depth := hgreatest ▸ sound_withSettings tree settings
  have hanswer (question : Question ν) :
      (fresh.answer question).1 = question.answerWithin tree settings.depth :=
    (hsound.answer question).1
  refine ⟨?_, ?_, ?_⟩
  · calc
      fresh.answers questions = questions.map (Question.answerWithin tree settings.depth) :=
        hsound.answers questions
      _ = questions.map fun question => (fresh.answer question).1 := by
        rw [funext hanswer]
  · intro question
    rw [hanswer, Question.answer_eq_answerWithin]
    rcases Nat.le_total settings.depth SelectorList.defaultLimit with hle | hle
    · rcases question.answerWithin_sameUnlessDeep tree hle with hsame | hdeep
      · exact Or.inl hsame
      · rw [hgreatest] at hdeep
        exact Or.inr (Or.inl hdeep)
    · rcases question.answerWithin_sameUnlessDeep tree hle with hsame | hdeep
      · exact Or.inl hsame.symm
      · exact Or.inr (Or.inr hdeep)
  · intro hdepth question
    calc
      (fresh.answer question).1 = question.answerWithin tree settings.depth := hanswer question
      _ = question.answerWithin tree SelectorList.defaultLimit := by rw [hdepth]
      _ = question.answer tree := (question.answer_eq_answerWithin tree).symm

/-- A document with the paragraphs 1 and 2. -/
def paragraphs : NodeTree Nat :=
  (Store.ofEdits [.createElement (some htmlNamespace) "p", .append 0 1,
    .createElement (some htmlNamespace) "p", .append 0 2]).toTree

theorem flatDescendants_paragraphs : paragraphs.flatDescendants 0 = [1, 2] := by
  have hdocument : paragraphs.flatChildren 0 = [1, 2] := by decide +kernel
  have hfirst : paragraphs.flatChildren 1 = [] := by decide +kernel
  have hsecond : paragraphs.flatChildren 2 = [] := by decide +kernel
  have hnodes : paragraphs.nodes = [0, 1, 2] := by decide +kernel
  simp [NodeTree.flatDescendants, NodeTree.listBelow, NodeTree.without, hdocument, hfirst, hsecond,
    hnodes]

/-- With room for one selector, each of two selectors drives the other one out and is parsed anew, and
between them one is refused. -/
theorem answers_eq_map_evicting :
    let settings := Settings.new SelectorList.defaultLimit 1
    settings.depth = SelectorList.defaultLimit ∧
      (withSettings paragraphs settings).answers
          [.select "p" (.all none), .select "b, :not(:first-child)" (.all none),
            .select "p >" (.all none), .select "p" (.all none)] =
        [.ok (.nodes [1, 2]), .ok (.nodes [2]), .error (.missingCompound 3), .ok (.nodes [1, 2])] := by
  intro settings
  have hdepth : settings.depth = SelectorList.defaultLimit := by decide
  obtain ⟨hrun, -, hsame⟩ := answers_eq_map paragraphs SelectorList.defaultLimit 1
    [.select "p" (.all none), .select "b, :not(:first-child)" (.all none), .select "p >" (.all none),
      .select "p" (.all none)]
  have hall (selector : String) : (Question.select selector (.all none)).answer paragraphs =
      (SelectorList.parse selector).map fun list =>
        .nodes (([1, 2].filter paragraphs.isElement).filter (paragraphs.flatView.acceptsList · list)) := by
    rw [← flatDescendants_paragraphs]
    rfl
  have hmatch : (Question.select "p" (.all none)).answer paragraphs = .ok (.nodes [1, 2]) := by
    rw [hall]
    decide +kernel
  have hother : (Question.select "b, :not(:first-child)" (.all none)).answer paragraphs =
      .ok (.nodes [2]) := by
    rw [hall]
    decide +kernel
  have hrefused : (Question.select "p >" (.all none)).answer paragraphs =
      .error (.missingCompound 3) := by
    rw [hall]
    decide +kernel
  refine ⟨hdepth, hrun.trans ?_⟩
  simp only [List.map_cons, List.map_nil, hsame hdepth, hmatch, hother, hrefused]

end Session

end Query

end FlatTree
