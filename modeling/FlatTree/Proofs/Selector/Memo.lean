import FlatTree.Selector.Memo
import Mathlib.Data.List.DropRight
import Mathlib.Data.List.Nodup

/-!
# What a memo keeps

A memo keeps nothing but what its texts parse to, whichever texts it has kept, dropped or refused before.
Its table and its queue always speak of the same texts: of those that were inserted last, as many as there is
room for, oldest first.  An insertion is a call that parses a text which is not kept at that time; no other
call changes what is kept, but that all of it can be forgotten at once.
-/

namespace FlatTree.Selector.Memo

/-! ## Faithful memos -/

/-- Every text is kept with the list that it parses to. -/
def Faithful (memo : Memo) : Prop :=
  ∀ entry ∈ memo.store, SelectorList.parseWithin memo.limit entry.1 = .ok entry.2.list

theorem faithful_new (capacity limit : Nat) : (new capacity limit).Faithful := by
  intro entry hentry
  contradiction

theorem mem_store_of_remembered? {memo : Memo} {text : String} {parsed : Parsed}
    (hkept : memo.remembered? text = some parsed) : (text, parsed) ∈ memo.store := by
  obtain ⟨before, behind, hstore, -⟩ := List.lookup_eq_some_iff.mp hkept
  rw [hstore]
  exact List.mem_append_right before List.mem_cons_self

theorem settings_dropOldest (memo : Memo) :
    memo.dropOldest.capacity = memo.capacity ∧ memo.dropOldest.limit = memo.limit ∧
      memo.dropOldest.parses = memo.parses := by
  rw [dropOldest]
  split <;> exact ⟨rfl, rfl, rfl⟩

/-- Keeping a list changes the table and the queue, and counts one parse. -/
theorem settings_keep (memo : Memo) (text : String) (list : SelectorList) :
    (memo.keep text list).capacity = memo.capacity ∧ (memo.keep text list).limit = memo.limit ∧
      (memo.keep text list).parses = memo.parses + 1 := by
  simp only [keep]
  split
  · exact ⟨rfl, rfl, rfl⟩
  · split
    · exact settings_dropOldest _
    · exact ⟨rfl, rfl, rfl⟩

section Faithful

variable {memo : Memo} (hfaithful : memo.Faithful)

include hfaithful

theorem Faithful.dropOldest : memo.dropOldest.Faithful := by
  rw [Memo.dropOldest]
  split
  · exact hfaithful
  · intro entry hentry
    exact hfaithful entry (List.mem_filter.mp hentry).1

theorem Faithful.insert {text : String} {parsed : Parsed}
    (hparse : SelectorList.parseWithin memo.limit text = .ok parsed.list) :
    (memo.insert text parsed).Faithful := by
  intro entry hentry
  rcases List.mem_cons.mp hentry with rfl | hother
  · exact hparse
  · exact hfaithful entry (List.mem_filter.mp hother).1

theorem Faithful.keep {text : String} {list : SelectorList}
    (hparse : SelectorList.parseWithin memo.limit text = .ok list) :
    (memo.keep text list).Faithful := by
  have hcounted : Faithful { memo with parses := memo.parses + 1 } := hfaithful
  simp only [Memo.keep]
  split
  · exact hcounted
  · split
    · apply hcounted.dropOldest.insert
      rw [(settings_dropOldest _).2.1]
      exact hparse
    · exact hcounted.insert hparse

/-- Whether a list was kept or is made now, it is what the text parses to, and failures are the same. -/
theorem Faithful.map_list_parse (text : String) :
    (memo.parse text).1.map Parsed.list = SelectorList.parseWithin memo.limit text := by
  rw [Memo.parse]
  split
  · rename_i parsed hkept
    exact (hfaithful (text, parsed) (mem_store_of_remembered? hkept)).symm
  · split
    · rename_i hparse
      rw [hparse]
      rfl
    · rename_i hparse
      rw [hparse]
      rfl

theorem Faithful.parse (text : String) :
    (memo.parse text).2.Faithful ∧ (memo.parse text).2.limit = memo.limit := by
  rw [Memo.parse]
  split
  · exact ⟨hfaithful, rfl⟩
  · split
    · exact ⟨hfaithful, rfl⟩
    · rename_i hlist
      exact ⟨hfaithful.keep hlist, (settings_keep memo text _).2.1⟩

end Faithful

/-! ## The table and the queue -/

/-- The table and the queue of the memo both hold the entries, and no text stands in two of them. -/
structure Holds (memo : Memo) (entries : List (String × Parsed)) : Prop where
  store_perm : memo.store.Perm entries
  order_eq : memo.order = entries.map Prod.fst
  nodup : memo.order.Nodup

section Holds

variable {memo : Memo} {entries : List (String × Parsed)} (hholds : memo.Holds entries)

include hholds

theorem Holds.length_order : memo.order.length = entries.length := by
  rw [hholds.order_eq, List.length_map]

theorem Holds.size_eq : memo.size = entries.length :=
  hholds.store_perm.length_eq

theorem Holds.mem_order_iff {text : String} :
    text ∈ memo.order ↔ ∃ parsed, (text, parsed) ∈ memo.store := by
  rw [hholds.order_eq, List.mem_map]
  constructor
  · rintro ⟨⟨_, parsed⟩, hentry, rfl⟩
    exact ⟨parsed, hholds.store_perm.mem_iff.mpr hentry⟩
  · rintro ⟨parsed, hentry⟩
    exact ⟨(text, parsed), hholds.store_perm.mem_iff.mp hentry, rfl⟩

theorem Holds.remembered?_eq_none_iff {text : String} :
    memo.remembered? text = none ↔ text ∉ memo.order := by
  rw [hholds.mem_order_iff, remembered?, List.lookup_eq_none_iff]
  constructor
  · rintro hnone ⟨parsed, hentry⟩
    simpa using hnone (text, parsed) hentry
  · rintro hnone ⟨other, parsed⟩ hentry
    rw [bne_iff_ne]
    rintro rfl
    exact hnone ⟨parsed, hentry⟩

theorem Holds.dropOldest : memo.dropOldest.Holds entries.tail := by
  have hnodup := hholds.nodup
  rw [Memo.dropOldest]
  cases entries with
  | nil =>
      rw [hholds.order_eq]
      exact hholds
  | cons oldest later =>
      rw [hholds.order_eq, List.map_cons] at hnodup ⊢
      obtain ⟨hnot, hlater⟩ := List.nodup_cons.mp hnodup
      refine ⟨?_, rfl, hlater⟩
      have hothers : later.filter (fun entry => entry.1 ≠ oldest.1) = later := by
        rw [List.filter_eq_self]
        intro entry hentry
        rw [decide_eq_true_eq]
        exact ne_of_mem_of_not_mem (List.mem_map_of_mem hentry) hnot
      have hstore := hholds.store_perm.filter fun entry => entry.1 ≠ oldest.1
      rw [List.filter_cons_of_neg (by simp), hothers] at hstore
      exact hstore

theorem Holds.insert {text : String} (hnew : text ∉ memo.order) (parsed : Parsed) :
    (memo.insert text parsed).Holds (entries ++ [(text, parsed)]) := by
  have hothers : memo.store.filter (fun entry => entry.1 ≠ text) = memo.store := by
    rw [List.filter_eq_self]
    rintro ⟨other, kept⟩ hentry
    rw [decide_eq_true_eq]
    exact ne_of_mem_of_not_mem (hholds.mem_order_iff.mpr ⟨kept, hentry⟩) hnew
  refine ⟨?_, ?_, ?_⟩
  · rw [Memo.insert, hothers]
    exact (hholds.store_perm.cons _).trans (List.perm_append_singleton _ _).symm
  · rw [Memo.insert, hholds.order_eq, List.map_append]
    rfl
  · rw [Memo.insert, List.nodup_append_comm]
    exact List.nodup_cons.mpr ⟨hnew, hholds.nodup⟩

end Holds

/-! ## Calls and insertions -/

inductive Call where
  | parse (text : String)
  | forget

/-- The memo that a call leaves. -/
def after (memo : Memo) : Call → Memo
  | .parse text => (memo.parse text).2
  | .forget => memo.forget

def afterAll (memo : Memo) (calls : List Call) : Memo :=
  calls.foldl after memo

/-- The insertions since all was forgotten last, oldest first and with the lists that they made, when one
more call comes. -/
def record (memo : Memo) (inserted : List (String × Parsed)) : Call → List (String × Parsed)
  | .parse text =>
    match memo.remembered? text, (memo.parse text).1 with
    | none, .ok parsed => inserted ++ [(text, parsed)]
    | _, _ => inserted
  | .forget => []

/-- The insertions since all was forgotten last, when all the calls have come. -/
def recordAll (memo : Memo) (inserted : List (String × Parsed)) : List Call → List (String × Parsed)
  | [] => inserted
  | call :: calls => (memo.after call).recordAll (memo.record inserted call) calls

/-- The memo keeps the last insertions that it has room for, and numbers its next parse behind theirs. -/
structure KeepsLast (capacity limit : Nat) (memo : Memo) (inserted : List (String × Parsed)) : Prop where
  capacity_eq : memo.capacity = capacity
  limit_eq : memo.limit = limit
  faithful : memo.Faithful
  holds : memo.Holds (inserted.rtake capacity)
  serial_lt : ∀ entry ∈ inserted, entry.2.serial < memo.parses

/-- One more entry behind the last ones drives out the first of them, unless there is room for it. -/
theorem rtake_concat {α : Type} (entries : List α) (entry : α) {count : Nat} (hcount : count ≠ 0) :
    (entries ++ [entry]).rtake count =
      (if count ≤ (entries.rtake count).length then (entries.rtake count).tail
        else entries.rtake count) ++ [entry] := by
  obtain ⟨count, rfl⟩ := Nat.exists_eq_succ_of_ne_zero hcount
  rw [List.rtake_concat_succ]
  congr 1
  simp only [List.rtake, List.tail_drop, List.length_drop]
  split
  · congr 1
    omega
  · rw [Nat.sub_eq_zero_of_le (by omega), Nat.sub_eq_zero_of_le (by omega)]

theorem keepsLast_new (capacity limit : Nat) :
    (new capacity limit).KeepsLast capacity (min limit SelectorList.greatestLimit) [] := by
  refine ⟨rfl, rfl, faithful_new capacity limit, ?_, nofun⟩
  rw [List.rtake_nil]
  exact ⟨.nil, rfl, List.nodup_nil⟩

section KeepsLast

variable {capacity limit : Nat} {memo : Memo} {inserted : List (String × Parsed)}
  (hkeeps : memo.KeepsLast capacity limit inserted)

include hkeeps

theorem KeepsLast.keep {text : String} {list : SelectorList}
    (hparse : SelectorList.parseWithin memo.limit text = .ok list) (hnew : text ∉ memo.order) :
    (memo.keep text list).KeepsLast capacity limit (inserted ++ [(text, ⟨list, memo.parses⟩)]) := by
  obtain ⟨rfl, rfl, hfaithful, hholds, hserial⟩ := hkeeps
  obtain ⟨hcapacity, hlimit, hparses⟩ := settings_keep memo text list
  refine ⟨hcapacity, hlimit, hfaithful.keep hparse, ?_, ?_⟩
  · have hcounted : Holds { memo with parses := memo.parses + 1 } (inserted.rtake memo.capacity) :=
      ⟨hholds.store_perm, hholds.order_eq, hholds.nodup⟩
    simp only [Memo.keep]
    split
    · rename_i hzero
      rw [hzero, List.rtake_zero] at hcounted ⊢
      exact hcounted
    · rename_i hroom
      rw [rtake_concat _ _ hroom, ← hholds.length_order]
      split
      · apply hcounted.dropOldest.insert
        rw [hcounted.dropOldest.order_eq, List.map_tail, ← hcounted.order_eq]
        exact mt List.mem_of_mem_tail hnew
      · exact hcounted.insert hnew _
  · rw [hparses, List.forall_mem_append, List.forall_mem_singleton]
    exact ⟨fun entry hentry => Nat.lt_succ_of_lt (hserial entry hentry), Nat.lt_succ_self _⟩

theorem KeepsLast.forget : memo.forget.KeepsLast capacity limit [] := by
  refine ⟨hkeeps.capacity_eq, hkeeps.limit_eq, nofun, ?_, nofun⟩
  rw [List.rtake_nil]
  exact ⟨.nil, rfl, List.nodup_nil⟩

theorem KeepsLast.after (call : Call) :
    (memo.after call).KeepsLast capacity limit (memo.record inserted call) := by
  cases call with
  | forget => exact hkeeps.forget
  | parse text =>
      rw [Memo.after, Memo.record, Memo.parse]
      cases hkept : memo.remembered? text with
      | some parsed => exact hkeeps
      | none =>
          cases hparse : SelectorList.parseWithin memo.limit text with
          | error fault => exact hkeeps
          | ok list => exact hkeeps.keep hparse (hkeeps.holds.remembered?_eq_none_iff.mp hkept)

theorem KeepsLast.afterAll (calls : List Call) :
    (memo.afterAll calls).KeepsLast capacity limit (memo.recordAll inserted calls) := by
  induction calls generalizing memo inserted with
  | nil => exact hkeeps
  | cons call calls ih => exact ih (hkeeps.after call)

/-- A parsed text that is kept is answered with what is kept for it, and any other one with a list that is
made now. -/
theorem KeepsLast.of_parse {text : String} {parsed : Parsed} {next : Memo}
    (hparse : memo.parse text = (.ok parsed, next)) :
    text ∈ memo.order ∧ (text, parsed) ∈ memo.store ∧ next = memo ∨
      text ∉ memo.order ∧ ∀ entry ∈ inserted, entry.2 ≠ parsed := by
  rw [Memo.parse] at hparse
  split at hparse
  · rename_i hkept
    cases hparse
    have hstored := mem_store_of_remembered? hkept
    exact .inl ⟨hkeeps.holds.mem_order_iff.mpr ⟨parsed, hstored⟩, hstored, rfl⟩
  · rename_i hkept
    split at hparse
    · cases hparse
    · cases hparse
      refine .inr ⟨hkeeps.holds.remembered?_eq_none_iff.mp hkept, ?_⟩
      rintro ⟨other, made⟩ hentry rfl
      exact Nat.lt_irrefl _ (hkeeps.serial_lt _ hentry)

end KeepsLast

/-- A text that does not parse leaves everything as it was. -/
theorem eq_of_parse_eq_error {memo next : Memo} {text : String} {fault : Fault Nat}
    (hparse : memo.parse text = (.error fault, next)) : next = memo := by
  rw [parse] at hparse
  split at hparse
  · cases hparse
  · split at hparse
    · cases hparse
      rfl
    · cases hparse

/-- Whatever has been parsed and forgotten before, a memo keeps exactly the last insertions since all was
forgotten, as many as it has room for: its table holds their texts and lists, and its queue holds the texts
in order and none of them twice.  A text is answered as if there were no memo.  The list is one that was
inserted before exactly if the text is still kept, and then nothing changes; nothing changes either where a
text does not parse.  Without room nothing is kept at all. -/
theorem keeps_last_insertions (capacity limit : Nat) (calls : List Call) :
    let memo := (new capacity limit).afterAll calls
    let inserted := (new capacity limit).recordAll [] calls
    memo.store.Perm (inserted.rtake capacity) ∧
      memo.order = (inserted.rtake capacity).map Prod.fst ∧ memo.order.Nodup ∧
      memo.size = memo.order.length ∧ memo.size ≤ capacity ∧
      ∀ text, (memo.parse text).1.map Parsed.list = SelectorList.parseWithin limit text ∧
        (∀ parsed next, memo.parse text = (.ok parsed, next) →
          ((text, parsed) ∈ memo.store ↔ text ∈ memo.order) ∧
          ((∃ entry ∈ inserted, entry.2 = parsed) ↔ text ∈ memo.order) ∧
          (text ∈ memo.order → next = memo)) ∧
        ∀ fault next, memo.parse text = (.error fault, next) → next = memo := by
  intro memo inserted
  have hkeeps := (keepsLast_new capacity limit).afterAll calls
  have hholds := hkeeps.holds
  refine ⟨hholds.store_perm, hholds.order_eq, hholds.nodup, ?_, ?_, ?_⟩
  · rw [hholds.size_eq, hholds.length_order]
  · rw [hholds.size_eq, List.rtake, List.length_drop]
    omega
  intro text
  refine ⟨?_, ?_, fun _ _ => eq_of_parse_eq_error⟩
  · rw [hkeeps.faithful.map_list_parse, hkeeps.limit_eq, SelectorList.parseWithin,
      SelectorList.parseWithin, Nat.min_assoc, Nat.min_self]
  · intro parsed next hparse
    rcases hkeeps.of_parse hparse with ⟨hkept, hstored, rfl⟩ | ⟨hnew, hmade⟩
    · have hentry := List.mem_of_mem_drop (hholds.store_perm.mem_iff.mp hstored)
      exact ⟨iff_of_true hstored hkept, iff_of_true ⟨_, hentry, rfl⟩ hkept, fun _ => rfl⟩
    · refine ⟨iff_of_false ?_ hnew, iff_of_false ?_ hnew, fun hkept => absurd hkept hnew⟩
      · exact fun hstored => hnew (hholds.mem_order_iff.mpr ⟨parsed, hstored⟩)
      · rintro ⟨entry, hentry, hsame⟩
        exact hmade entry hentry hsame

/-- A hit and a failure leave the queue alone, and a text that was driven out comes in again at its end. -/
example :
    ((new 2 1).afterAll [.parse "p", .forget, .parse "a", .parse "b", .parse "a", .parse "b >",
      .parse ":not(c)", .parse "a"]).order = [":not(c)", "a"] := by
  decide +kernel

end FlatTree.Selector.Memo
