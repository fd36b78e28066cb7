import FlatTree.Proofs.Store.Integrity
import FlatTree.Proofs.Store.Ancestry

/-!
# The shadow-including order and the outline

A node can be listed with all that is below it over a stack, on which a shadow root lies above the other
children of its host, and the outline is printed by a recursion that looks at the kind of each node.  Both
are told here without a bound on their steps, as runs that remember nothing of the nodes behind them.  In an
acyclic store they end, the one with the recursive listing and the other with lines that open the nodes in
the order of that listing, each as far in as it stands below the document.  A line is printed as two blanks for
each step of its depth and then the opening text of its node, or the closing tag of an element.
-/

namespace FlatTree.Store

open Relation

/-- The run over a stack of nodes, the next one on top.  When a node is taken, its children are put on the
stack, and its shadow root above them. -/
inductive Unstacks (store : Store) : (stack result : List Nat) → Prop where
  | finished : Unstacks store [] []
  | taken {node : Nat} {stack result : List Nat}
      (rest : Unstacks store ((store.shadowRoot node).toList ++ (store.children node ++ stack)) result) :
      Unstacks store (node :: stack) (node :: result)

/-- What is printed one step further in than a node.  Only an element has its shadow root there, in front
of its children, and text and comments have nothing. -/
def printedBelow (stored : StoredNode) : List Nat :=
  match stored.content with
  | .document | .shadowRoot _ => stored.children
  | .element _ => stored.shadowRoot.toList ++ stored.children
  | .text _ | .comment _ => []

/-- The line behind all that is printed below a node. -/
def closingLines (depth node : Nat) : Content → List Line
  | .element element => [⟨depth, node, false, closingTag element⟩]
  | _ => []

/-- The run that prints nodes of one depth, each with what is printed below it. -/
inductive Prints (store : Store) : (depth : Nat) → (nodes : List Nat) → (lines : List Line) → Prop where
  | finished {depth : Nat} : Prints store depth [] []
  | missing {depth node : Nat} {nodes : List Nat} {later : List Line}
      (not_found : store.node? node = none) (rest : Prints store depth nodes later) :
      Prints store depth (node :: nodes) later
  | opened {depth node : Nat} {nodes : List Nat} {stored : StoredNode} {inner later : List Line}
      (found : store.node? node = some stored)
      (below : Prints store (depth + 1) (printedBelow stored) inner)
      (rest : Prints store depth nodes later) :
      Prints store depth (node :: nodes) (⟨depth, node, true, openingLine stored.content⟩ :: inner ++
        closingLines depth node stored.content ++ later)

/-- What is printed in a line, two blanks further in for each step of its depth.  The line that opens a node
has the opening text of the node's content, and any other line the closing tag of an element. -/
structure Shows (store : Store) (line : Line) : Prop where
  opening : line.opens = true → ∃ stored, store.node? line.node = some stored ∧
    line.text = String.ofList (List.replicate (2 * line.depth) ' ') ++ openingLine stored.content ++ "\n"
  closing : line.opens = false → ∃ element, store.element? line.node = some element ∧
    line.text = String.ofList (List.replicate (2 * line.depth) ' ') ++ ("</" ++ element.name ++ ">") ++ "\n"

variable {store : Store}

/-! ## Runs have one result -/

theorem Unstacks.unique {stack result other : List Nat} (hunstacks : store.Unstacks stack result)
    (hother : store.Unstacks stack other) : result = other := by
  induction hunstacks generalizing other with
  | finished =>
      cases hother
      rfl
  | taken _ ih =>
      cases hother with
      | taken hrest => rw [ih hrest]

theorem Prints.unique {depth : Nat} {nodes : List Nat} {lines other : List Line}
    (hprints : store.Prints depth nodes lines) (hother : store.Prints depth nodes other) :
    lines = other := by
  induction hprints generalizing other with
  | finished =>
      cases hother
      rfl
  | missing hnone _ ih =>
      cases hother with
      | missing _ hrest => exact ih hrest
      | opened hfound _ _ => simp [hnone] at hfound
  | opened hfound _ _ ihBelow ihRest =>
      cases hother with
      | missing hnone _ => simp [hnone] at hfound
      | opened hsame hbelow hrest =>
          obtain rfl := Option.some.inj (hfound.symm.trans hsame)
          rw [ihBelow hbelow, ihRest hrest]

/-! ## The stack holds what is left to the recursion -/

theorem unstacks_append {levels : Nat} {nodes stack rest : List Nat}
    (hspans : ∀ node ∈ nodes, SpansWithin store.shownBelow levels node)
    (hrest : store.Unstacks stack rest) :
    store.Unstacks (nodes ++ stack) (nodes.flatMap (store.listIncluding levels) ++ rest) := by
  -- What is below the nodes spans a level less, whatever stands behind it on the stack.
  induction levels generalizing nodes stack rest with
  | zero =>
      cases nodes with
      | nil => exact hrest
      | cons node nodes => exact absurd (hspans node List.mem_cons_self) not_false
  | succ levels ih =>
      induction nodes with
      | nil => exact hrest
      | cons node nodes ihNodes =>
          rw [List.forall_mem_cons] at hspans
          have hbelow := ih hspans.1 (ihNodes hspans.2)
          rw [shownBelow, List.append_assoc] at hbelow
          rw [List.flatMap_cons, listIncluding, List.cons_append, List.cons_append, List.cons_append,
            List.append_assoc]
          exact .taken hbelow

theorem Consistent.unstacks_shadowIncluding (hconsistent : store.Consistent)
    (hacyclic : store.Acyclic) (node : Nat) : store.Unstacks [node] (store.shadowIncluding node) := by
  have hspans : ∀ other ∈ [node], SpansWithin store.shownBelow store.size other := by
    intro other _
    exact hconsistent.spansWithin hacyclic other
  have hrun := unstacks_append hspans .finished
  rwa [List.flatMap_singleton, List.append_nil, List.append_nil] at hrun

/-- The listing without a bound on its levels. -/
theorem Consistent.shadowIncluding_eq (hconsistent : store.Consistent) (hacyclic : store.Acyclic)
    (node : Nat) :
    store.shadowIncluding node =
      node :: ((store.shadowRoot node).toList.flatMap store.shadowIncluding ++
        (store.children node).flatMap store.shadowIncluding) := by
  have hspans := hconsistent.spansWithin hacyclic node
  have hlevels : store.shadowIncluding node = store.listIncluding (store.size + 1) node := by
    rw [shadowIncluding, listIncluding_eq_preorder, listIncluding_eq_preorder,
      preorder_of_spansWithin hspans store.size.le_succ]
  rw [hlevels, listIncluding, shownBelow, List.flatMap_append]
  rfl

/-! ## The lines of the outline -/

/-- Only elements host shadow roots, and text and comments have no children. -/
theorem Intact.printedBelow_eq (hintact : store.Intact) {node : Nat} {stored : StoredNode}
    (hstored : store.node? node = some stored) : printedBelow stored = store.shownBelow node := by
  have hchildren : store.children node = stored.children := by
    rw [children, hstored]
    rfl
  have hroot : store.shadowRoot node = stored.shadowRoot := by
    rw [Store.shadowRoot, hstored]
    rfl
  have hkind : store.nodeType node = stored.content.nodeType := by
    rw [nodeType, hstored]
    rfl
  have hnone (hne : stored.content.nodeType ≠ .element) : stored.shadowRoot = none := by
    rw [← hroot, Option.eq_none_iff_forall_ne_some]
    rintro root hhosts
    exact hne (hkind ▸ hintact.nodeType_host node root hhosts)
  have hempty (hleaf : stored.content.nodeType = .text ∨ stored.content.nodeType = .comment) :
      stored.children = [] := by
    rw [← hchildren]
    exact hintact.children_eq_nil node (hkind ▸ hleaf)
  rw [shownBelow, hchildren, hroot, printedBelow]
  cases hcontent : stored.content with
  | element element => rfl
  | document => rw [hnone (by rw [hcontent]; rintro ⟨⟩), Option.toList_none, List.nil_append]
  | shadowRoot mode => rw [hnone (by rw [hcontent]; rintro ⟨⟩), Option.toList_none, List.nil_append]
  | text text =>
      rw [hnone (by rw [hcontent]; rintro ⟨⟩), hempty (.inl (by rw [hcontent]; rfl)), Option.toList_none,
        List.append_nil]
  | comment text =>
      rw [hnone (by rw [hcontent]; rintro ⟨⟩), hempty (.inr (by rw [hcontent]; rfl)), Option.toList_none,
        List.append_nil]

theorem outlineLines_eq {levels depth node : Nat} {stored : StoredNode}
    (hstored : store.node? node = some stored) :
    store.outlineLines (levels + 1) depth node = ⟨depth, node, true, openingLine stored.content⟩ ::
      (store.shownBelow node).flatMap (store.outlineLines levels (depth + 1)) ++
        closingLines depth node stored.content := by
  rw [outlineLines, hstored]
  rfl

theorem Intact.prints_outlineLines (hintact : store.Intact) {levels depth : Nat} {nodes : List Nat}
    (hspans : ∀ node ∈ nodes, SpansWithin store.shownBelow levels node) :
    store.Prints depth nodes (nodes.flatMap (store.outlineLines levels depth)) := by
  induction levels generalizing depth nodes with
  | zero =>
      cases nodes with
      | nil => exact .finished
      | cons node nodes => exact absurd (hspans node List.mem_cons_self) not_false
  | succ levels ih =>
      induction nodes with
      | nil => exact .finished
      | cons node nodes ihNodes =>
          rw [List.forall_mem_cons] at hspans
          rw [List.flatMap_cons]
          cases hstored : store.node? node with
          | none =>
              rw [outlineLines, hstored, List.nil_append]
              exact .missing hstored (ihNodes hspans.2)
          | some stored =>
              rw [outlineLines_eq hstored]
              refine .opened hstored ?_ (ihNodes hspans.2)
              rw [hintact.printedBelow_eq hstored]
              exact ih hspans.1

/-- Behind what is printed below a node only its closing tag is printed. -/
theorem shows_of_mem_closingLines {depth node : Nat} {stored : StoredNode} {line : Line}
    (hstored : store.node? node = some stored) (hline : line ∈ closingLines depth node stored.content) :
    store.Shows line := by
  obtain ⟨content, _, _, _, _⟩ := stored
  cases content with
  | element element =>
      rw [closingLines, List.mem_singleton] at hline
      subst hline
      refine ⟨by rintro ⟨⟩, fun _ => ⟨element, ?_, rfl⟩⟩
      rw [element?, hstored]
  | _ => cases hline

/-- The nodes that are opened are those that are listed, in the same order. -/
theorem Consistent.map_node_filter_opens (hconsistent : store.Consistent) {levels depth node : Nat}
    (hnode : node < store.size) :
    ((store.outlineLines levels depth node).filter Line.opens).map Line.node =
      store.listIncluding levels node := by
  induction levels generalizing depth node with
  | zero => rfl
  | succ levels ih =>
      obtain ⟨stored, hstored⟩ := exists_node? hnode
      have hclosing : (closingLines depth node stored.content).filter Line.opens = [] := by
        cases stored.content <;> rfl
      rw [outlineLines_eq hstored, listIncluding, List.cons_append, List.filter_cons_of_pos rfl,
        List.filter_append, hclosing, List.append_nil, List.map_cons, List.filter_flatMap,
        List.map_flatMap]
      congr 1
      apply List.flatMap_congr
      intro next hnext
      exact ih (hconsistent.lt_size_of_above (hconsistent.mem_shownBelow_iff.mp hnext)).1

/-- A line stands as many steps further in as lead up from its node. -/
theorem Consistent.exists_steps_of_mem_outlineLines (hconsistent : store.Consistent)
    {levels depth node : Nat} {line : Line} (hline : line ∈ store.outlineLines levels depth node) :
    ∃ steps, line.depth = depth + steps ∧
      (fun current => current.bind store.above)^[steps] (some line.node) = some node := by
  induction levels generalizing depth node with
  | zero => cases hline
  | succ levels ih =>
      cases hstored : store.node? node with
      | none =>
          rw [outlineLines, hstored] at hline
          cases hline
      | some stored =>
          have hclosing : ∀ closing ∈ closingLines depth node stored.content,
              closing.depth = depth ∧ closing.node = node := by
            cases stored.content <;> simp [closingLines]
          rw [outlineLines_eq hstored, List.mem_append, List.mem_cons, List.mem_flatMap] at hline
          rcases hline with (rfl | ⟨next, hnext, hline⟩) | hline
          · exact ⟨0, rfl, rfl⟩
          · obtain ⟨steps, hdepth, hsteps⟩ := ih hline
            refine ⟨steps + 1, by omega, ?_⟩
            rw [Function.iterate_succ_apply', hsteps]
            exact hconsistent.mem_shownBelow_iff.mp hnext
          · obtain ⟨hdepth, hsame⟩ := hclosing line hline
            exact ⟨0, hdepth, congrArg some hsame⟩

/-- Only elements have a second line. -/
theorem Shows.text_of_not_element {line : Line} {content : Content} (hshows : store.Shows line)
    (hcontent : (store.node? line.node).map StoredNode.content = some content)
    (hkind : content.nodeType ≠ .element) :
    line.text = String.ofList (List.replicate (2 * line.depth) ' ') ++ openingLine content ++ "\n" := by
  obtain ⟨stored, hstored, rfl⟩ := Option.map_eq_some_iff.mp hcontent
  cases hopens : line.opens with
  | true =>
      obtain ⟨other, hother, htext⟩ := hshows.opening hopens
      obtain rfl := Option.some.inj (hstored.symm.trans hother)
      exact htext
  | false =>
      obtain ⟨element, helement, -⟩ := hshows.closing hopens
      rw [element?_eq_none (by rwa [nodeType, hstored])] at helement
      contradiction

theorem shows_of_mem_outlineLines {levels depth node : Nat} {line : Line}
    (hline : line ∈ store.outlineLines levels depth node) : store.Shows line := by
  induction levels generalizing depth node with
  | zero => cases hline
  | succ levels ih =>
      cases hstored : store.node? node with
      | none =>
          rw [outlineLines, hstored] at hline
          cases hline
      | some stored =>
          rw [outlineLines_eq hstored, List.mem_append, List.mem_cons, List.mem_flatMap] at hline
          rcases hline with (rfl | ⟨next, -, hline⟩) | hline
          · exact ⟨fun _ => ⟨stored, hstored, rfl⟩, by rintro ⟨⟩⟩
          · exact ih hline
          · exact shows_of_mem_closingLines hstored hline

/-- In an acyclic store the run over a stack that starts with a node ends and lists the node, then what its
shadow root lists, then what its children list in their order.  It lists the nodes that lead up to the node,
each once.  The run that prints the document ends with the lines of the outline.  These open the nodes in the
order in which they are listed from the document, each as far in as steps lead up to the document, and each
with the text of its content. -/
theorem shadowIncluding_in_outline (edits : List Edit) (hacyclic : (ofEdits edits).Acyclic) :
    let store := ofEdits edits
    (∀ node result, store.Unstacks [node] result ↔ result = store.shadowIncluding node) ∧
    (∀ node, store.shadowIncluding node =
      node :: ((store.shadowRoot node).toList.flatMap store.shadowIncluding ++
        (store.children node).flatMap store.shadowIncluding)) ∧
    (∀ node other, other ∈ store.shadowIncluding node ↔ ReflTransGen (Leads store.above) other node) ∧
    (∀ node, (store.shadowIncluding node).Nodup) ∧
    ∃ lines, (∀ printed, store.Prints 0 [0] printed ↔ printed = lines) ∧
      store.outline = "Dom\n" ++ String.join (lines.map Line.text) ∧
      (lines.filter Line.opens).map Line.node = store.shadowIncluding 0 ∧
      (∀ line ∈ lines, store.Shows line) ∧
      ∀ line ∈ lines, ∀ steps,
        (fun current => current.bind store.above)^[steps] (some line.node) = some 0 ↔
          steps = line.depth := by
  intro store
  have hintact : store.Intact := intact_ofEdits edits
  have hconsistent := hintact.toConsistent
  refine ⟨?_, hconsistent.shadowIncluding_eq hacyclic,
    fun _ _ => hconsistent.mem_shadowIncluding_iff hacyclic, hconsistent.nodup_shadowIncluding hacyclic,
    store.outlineLines store.size 0 0, ?_, rfl, hconsistent.map_node_filter_opens hconsistent.size_pos,
    fun _ => shows_of_mem_outlineLines, ?_⟩
  · intro node result
    have hrun := hconsistent.unstacks_shadowIncluding hacyclic node
    constructor
    · exact fun hresult => hresult.unique hrun
    · rintro rfl
      exact hrun
  · intro printed
    have hspans : ∀ node ∈ [0], SpansWithin store.shownBelow store.size node := by
      intro node _
      exact hconsistent.spansWithin hacyclic node
    have hrun : store.Prints 0 [0] (store.outlineLines store.size 0 0) := by
      simpa only [List.flatMap_singleton] using hintact.prints_outlineLines hspans
    constructor
    · exact fun hprinted => hprinted.unique hrun
    · rintro rfl
      exact hrun
  · intro line hline steps
    obtain ⟨found, hdepth, hfound⟩ := hconsistent.exists_steps_of_mem_outlineLines hline
    rw [Nat.zero_add] at hdepth
    constructor
    · intro hsteps
      rw [hdepth]
      exact eq_of_iterate_bind_eq_some hacyclic hsteps hfound
    · rintro rfl
      rw [hdepth, hfound]

/-- Node 1 hosts the shadow root 2 and has the child 6.  In the shadow tree node 3 hosts the shadow root 4
and has the child 5. -/
def hostInShadow : List Edit :=
  [.createElement (some htmlNamespace) "div", .append 0 1, .attachShadow 1 .opened,
    .createElement (some htmlNamespace) "main", .append 2 3, .attachShadow 3 .closed,
    .createElement (some htmlNamespace) "slot", .append 3 5, .createText "say \"hi\"\n", .append 1 6,
    .setAttribute 3 "Title" "a\tb"]

/-- The inner shadow root is listed in front of the child of its host, and printed four steps further in than
the document. -/
theorem shadowIncluding_in_outline_hostInShadow :
    (ofEdits hostInShadow).Acyclic ∧
      (ofEdits hostInShadow).shadowIncluding 0 = [0, 1, 2, 3, 4, 5, 6] ∧
      ∃ lines, (ofEdits hostInShadow).Prints 0 [0] lines ∧
        "Dom\n" ++ String.join (lines.map Line.text) =
          "Dom\n#document\n  <div>\n    #shadow-root (Open)\n      <main title=\"a\\tb\">\n" ++
            "        #shadow-root (Closed)\n" ++
            "        <slot>\n        </slot>\n      </main>\n    \"say \\\"hi\\\"\\n\"\n  </div>\n" ∧
        (lines.filter Line.opens).map Line.node = [0, 1, 2, 3, 4, 5, 6] ∧
        ∀ line ∈ lines, line.node = 4 → line.depth = 4 ∧ line.text = "        #shadow-root (Closed)\n" := by
  have hacyclic : (ofEdits hostInShadow).Acyclic :=
    (consistent_ofEdits hostInShadow).acyclic_of_iterate (by decide +kernel)
  obtain ⟨-, -, -, -, lines, hprints, houtline, hopens, hshows, hdepth⟩ :=
    shadowIncluding_in_outline hostInShadow hacyclic
  have hlisted : (ofEdits hostInShadow).shadowIncluding 0 = [0, 1, 2, 3, 4, 5, 6] := by
    decide +kernel
  refine ⟨hacyclic, hlisted, lines, (hprints lines).mpr rfl, houtline ▸ ?_, hopens.trans hlisted, ?_⟩
  · decide +kernel
  · intro line hline hnode
    have hfour : line.depth = 4 := by
      refine ((hdepth line hline 4).mp ?_).symm
      rw [hnode]
      decide +kernel
    have hcontent : ((ofEdits hostInShadow).node? line.node).map StoredNode.content =
        some (.shadowRoot .closed) := by
      rw [hnode]
      decide +kernel
    refine ⟨hfour, ?_⟩
    rw [(hshows line hline).text_of_not_element hcontent (by decide), hfour]
    decide +kernel

end FlatTree.Store
