import FlatTree.Proofs.Markup.Placements
import FlatTree.Proofs.Store.Entries

/-!
# What loading makes of sources

No edit that loading makes can fail: a new node stands alone until it is appended, an element is new when
its attributes are set, and a shadow root is hung only on an element without one.  So every list of sources
is loaded, and the entries behind that of the document are the placements of the sources.
-/

namespace FlatTree

namespace Store

variable {store : Store}

/-- Whether a shadow root can be hung on a node. -/
def canHost (store : Store) (node : Nat) : Bool :=
  (store.element? node).isSome && (store.shadowRoot node).isNone

theorem canHost_eq_true_iff {node : Nat} :
    store.canHost node = true ↔ store.nodeType node = .element ∧ store.shadowRoot node = none := by
  rw [canHost, isSome_element?, Bool.and_eq_true, decide_eq_true_eq, Option.isNone_iff_eq_none]

theorem Consistent.host_eq_some_iff (hconsistent : store.Consistent) {host root : Nat} :
    store.host root = some host ↔ store.nodeType root = .shadowRoot ∧ store.above root = some host := by
  constructor
  · intro hhost
    exact ⟨(hconsistent.nodeType_iff root).mpr ⟨host, hhost⟩, hconsistent.above_of_host hhost⟩
  · rintro ⟨htype, habove⟩
    rwa [above, if_pos htype] at habove

/-- The store grew by the placed nodes, and of the older nodes only one may have got a shadow root. -/
structure Adds (store next : Store) (above : Nat) (nodes : List Markup.Placement) : Prop where
  grown : next.Grown
  entries : next.entries = store.entries ++ nodes.map Markup.Placement.entry
  shadowRoot : ∀ node < store.size, node ≠ above → next.shadowRoot node = store.shadowRoot node

namespace Adds

variable {mid next : Store} {above other : Nat} {nodes others : List Markup.Placement}

theorem refl (hgrown : store.Grown) (above : Nat) : store.Adds store above [] where
  grown := hgrown
  entries := (List.append_nil _).symm
  shadowRoot := fun _ _ _ => rfl

theorem size (hadds : store.Adds next above nodes) : next.size = store.size + nodes.length := by
  rw [← length_entries, hadds.entries, List.length_append, List.length_map, length_entries]

theorem nodeType (hadds : store.Adds next above nodes) {node : Nat} (hnode : node < store.size) :
    next.nodeType node = store.nodeType node := by
  rw [← length_entries] at hnode
  rw [nodeType_eq_of_entries, hadds.entries, List.getElem?_append_left hnode,
    ← nodeType_eq_of_entries]

theorem canHold (hadds : store.Adds next above nodes) {node : Nat} (hnode : store.CanHold node) :
    next.CanHold node where
  lt_size := by
    rw [hadds.size]
    exact Nat.lt_add_right _ hnode.lt_size
  not_text := by
    rw [hadds.nodeType hnode.lt_size]
    exact hnode.not_text
  not_comment := by
    rw [hadds.nodeType hnode.lt_size]
    exact hnode.not_comment

theorem canHost (hadds : store.Adds next above nodes) {node : Nat} (hnode : node < store.size)
    (hsame : next.shadowRoot node = store.shadowRoot node) :
    next.canHost node = store.canHost node := by
  rw [Store.canHost, Store.canHost, isSome_element?, isSome_element?, hadds.nodeType hnode, hsame]

/-- What is added below a new node is added below the older one. -/
theorem trans (hadds : store.Adds mid above nodes) (hother : mid.Adds next other others)
    (hnew : other = above ∨ store.size ≤ other) : store.Adds next above (nodes ++ others) where
  grown := hother.grown
  entries := by
    rw [hother.entries, hadds.entries, List.map_append, List.append_assoc]
  shadowRoot := by
    intro node hnode hne
    have hmid : node < mid.size := by
      rw [hadds.size]
      exact Nat.lt_add_right _ hnode
    have hneOther : node ≠ other := by
      rcases hnew with rfl | hge
      · exact hne
      · exact Nat.ne_of_lt (Nat.lt_of_lt_of_le hnode hge)
    rw [hother.shadowRoot node hmid hneOther, hadds.shadowRoot node hnode hne]

end Adds

end Store

namespace Markup

variable {store : Store} {above : Nat}

/-! ## Single nodes -/

theorem exists_placeContent (hgrown : store.Grown) (hhold : store.CanHold above) {content : Content}
    (hroot : content.nodeType ≠ .shadowRoot)
    (hwell : ∀ element, content = .element element → element.WellFormed) :
    ∃ next, placeContent store above content = .ok next ∧ next.Grown ∧
      next.entries = store.entries ++ [(content, some above)] ∧
      ∀ node, next.shadowRoot node = store.shadowRoot node := by
  have hmade := hgrown.toIntact.addsLone_create hroot hwell
  obtain ⟨next, hnext⟩ := hmade.exists_append hroot hhold
  exact ⟨next, congrArg ifDone hnext, hmade.grown_append hgrown hnext, hmade.entries_append hnext,
    hmade.shadowRoot_append hnext⟩

theorem exists_setAttributes {made : Store} {element : Element}
    (hmade : store.AddsLone made (.element element)) (attributes : List (String × String)) :
    ∃ next, attributes.foldlM
        (fun store' pair => ifDone (store'.setAttribute store.size pair.1 pair.2)) made = .ok next ∧
      store.AddsLone next (.element (attributes.foldl
        (fun element pair =>
          { element with attributes := Store.setPair (Text.lowered pair.1) pair.2 element.attributes })
        element)) := by
  induction attributes generalizing made element with
  | nil => exact ⟨made, rfl, hmade⟩
  | cons pair attributes ih =>
      obtain ⟨mid, hmid, hset⟩ := hmade.exists_setAttribute pair.1 pair.2
      obtain ⟨next, hnext, hadds⟩ := ih hset
      refine ⟨next, ?_, hadds⟩
      rw [List.foldlM_cons, hmid]
      exact hnext

theorem exists_placeElement (hgrown : store.Grown) (hhold : store.CanHold above) (head : ElementHead) :
    ∃ next, placeElement store above head = .ok (store.size, next) ∧ next.Grown ∧
      next.entries = store.entries ++ [(.element head.element, some above)] ∧
      ∀ node, next.shadowRoot node = store.shadowRoot node := by
  have hroot (element : Element) : (Content.element element).nodeType ≠ .shadowRoot := by
    rw [Content.nodeType]
    decide
  have hcreated : store.AddsLone (store.createElement (some head.space) head.name).2
      (.element (Store.newElement (some head.space) head.name)) := by
    apply hgrown.toIntact.addsLone_create (hroot _)
    intro element helement
    cases helement
    exact Store.newElement_wellFormed _ _
  obtain ⟨made, hset, hmade⟩ := exists_setAttributes hcreated head.attributes
  obtain ⟨next, hnext⟩ := hmade.exists_append (hroot _) hhold
  refine ⟨next, ?_, hmade.grown_append hgrown hnext, hmade.entries_append hnext,
    hmade.shadowRoot_append hnext⟩
  have hnumber : (store.createElement (some head.space) head.name).1 = store.size := rfl
  simp only [placeElement, hnumber]
  rw [hset]
  exact congrArg (fun placed => Except.map (Prod.mk store.size) (ifDone placed)) hnext

/-! ## Lists of sources -/

/-- A source that does not become a shadow root leaves its parent as it was. -/
theorem adds_of_plain {source : Source} (habove : above < store.size)
    (hplain : (source.placement above (store.canHost above)).root = none) {mid : Store}
    (hgrown : mid.Grown)
    (hentries : mid.entries = store.entries ++ [(Placement.content ⟨source, above, none⟩, some above)])
    (hsame : ∀ node, mid.shadowRoot node = store.shadowRoot node) :
    store.Adds mid above [source.placement above (store.canHost above)] ∧
      mid.canHost above = (store.canHost above && source.declaredMode.isNone) := by
  have hadds : store.Adds mid above [source.placement above (store.canHost above)] := by
    refine ⟨hgrown, ?_, fun node _ _ => hsame node⟩
    rw [hentries, Source.placement]
    rw [Source.placement] at hplain
    rw [show (if store.canHost above then source.declaredMode else none) = none from hplain]
    rfl
  refine ⟨hadds, ?_⟩
  rw [hadds.canHost habove (hsame above)]
  cases hfree : store.canHost above with
  | false => rfl
  | true =>
      rw [hfree] at hplain
      rw [show source.declaredMode = none from hplain]
      rfl

/-- A text or a comment is placed, and nothing below it. -/
theorem exists_load_leaf {source : Source} {content : Content} (hgrown : store.Grown)
    (hhold : store.CanHold above) (hload : load store above source = placeContent store above content)
    (hcontent : Placement.content ⟨source, above, none⟩ = content)
    (hmode : source.declaredMode = none) (hchildren : source.children = [])
    (htype : content.nodeType = .text ∨ content.nodeType = .comment) :
    let placement := source.placement above (store.canHost above)
    ∃ mid, load store above source = loadAll mid store.size placement.sources ∧
      store.Adds mid above [placement] ∧
      mid.canHost above = (store.canHost above && source.declaredMode.isNone) ∧
      placement.sources = [] := by
  intro placement
  have hplain : placement.root = none := by
    change (if store.canHost above then source.declaredMode else none) = none
    rw [hmode, ite_self]
  have hsources : placement.sources = [] := by
    rw [Placement.sources, hplain]
    exact hchildren
  have hroot : content.nodeType ≠ .shadowRoot := by
    rcases htype with htext | hcomment
    · simp [htext]
    · simp [hcomment]
  have hwell : ∀ element, content = .element element → element.WellFormed := by
    rintro element rfl
    rcases htype with htext | hcomment
    · contradiction
    · contradiction
  obtain ⟨mid, hmid, hgrown, hentries, hsame⟩ := exists_placeContent hgrown hhold hroot hwell
  rw [← hcontent] at hentries
  obtain ⟨hadds, hfree⟩ := adds_of_plain hhold.lt_size hplain hgrown hentries hsame
  refine ⟨mid, ?_, hadds, hfree, hsources⟩
  rw [hload, hmid, hsources, loadAll]

/-- What hangs a new node on another one makes it the last one. -/
theorem nodeType_last {mid : Store} {entry : Content × Option Nat}
    (hentries : mid.entries = store.entries ++ [entry]) :
    store.size < mid.size ∧ mid.nodeType store.size = entry.1.nodeType := by
  have hnode := eq_concat_iff.mp hentries store.size
  rw [Store.length_entries, if_pos rfl] at hnode
  constructor
  · rw [← Store.length_entries mid]
    exact (List.getElem?_eq_some_iff.mp hnode).1
  · rw [Store.nodeType_eq_of_entries, hnode]
    rfl

/-- A template that declares a shadow root becomes it, and its parent hosts it from then on. -/
theorem exists_load_root {head : ElementHead} {children contents : List Source} {mode : ShadowMode}
    (hgrown : store.Grown) (hhost : store.canHost above = true)
    (hmode : head.declaredMode = some mode) :
    ∃ mid, load store above (.element head children contents) = loadAll mid store.size contents ∧
      store.Adds mid above [⟨.element head children contents, above, some mode⟩] ∧
      mid.canHost above = false ∧ mid.CanHold store.size ∧ mid.canHost store.size = false := by
  obtain ⟨htype, hhosts⟩ := Store.canHost_eq_true_iff.mp hhost
  obtain ⟨mid, hnext, hgrown, hentries⟩ := hgrown.exists_attachShadow htype hhosts mode
  have hshadow : shadowFor store above head = some mode := by
    rw [← hmode]
    exact if_pos hhost
  obtain ⟨hsize, hlast⟩ := nodeType_last hentries
  refine ⟨mid, ?_, ⟨hgrown, hentries, ?_⟩, ?_, ⟨hsize, ?_, ?_⟩, ?_⟩
  · rw [load, hshadow]
    simp only [hnext]
  · intro node _ hne
    rw [Store.shadowRoot_attachShadow hnext, if_neg hne]
  · rw [Bool.eq_false_iff, ne_eq, Store.canHost_eq_true_iff]
    rintro ⟨-, hnone⟩
    rw [Store.shadowRoot_attachShadow hnext, if_pos rfl] at hnone
    contradiction
  · simp [hlast, Content.nodeType]
  · simp [hlast, Content.nodeType]
  · rw [Bool.eq_false_iff, ne_eq, Store.canHost_eq_true_iff, hlast]
    rintro ⟨hroot, -⟩
    contradiction

theorem exists_load_element {head : ElementHead} {children contents : List Source}
    (hgrown : store.Grown) (hhold : store.CanHold above)
    (hplain : ((Source.element head children contents).placement above (store.canHost above)).root = none) :
    ∃ mid, load store above (.element head children contents) = loadAll mid store.size children ∧
      store.Adds mid above
        [(Source.element head children contents).placement above (store.canHost above)] ∧
      mid.canHost above = (store.canHost above && head.declaredMode.isNone) ∧
      mid.CanHold store.size ∧ mid.canHost store.size = true := by
  have hshadow : shadowFor store above head = none := hplain
  obtain ⟨mid, hmid, hgrown, hentries, hsame⟩ := exists_placeElement hgrown hhold head
  obtain ⟨hadds, hfree⟩ := adds_of_plain hhold.lt_size hplain hgrown hentries hsame
  obtain ⟨hsize, hlast⟩ := nodeType_last hentries
  refine ⟨mid, ?_, hadds, hfree, ⟨hsize, ?_, ?_⟩, ?_⟩
  · rw [load, hshadow]
    simp only [hmid]
  · simp [hlast, Content.nodeType]
  · simp [hlast, Content.nodeType]
  · rw [Store.canHost_eq_true_iff, hlast, hsame, Store.shadowRoot, Store.node?_size]
    exact ⟨rfl, rfl⟩

/-- A source is placed, and then what is placed below it. -/
theorem exists_load_eq {source : Source} (hshown : source.isLeftOut = false) (hgrown : store.Grown)
    (hhold : store.CanHold above) :
    let placement := source.placement above (store.canHost above)
    ∃ mid, load store above source = loadAll mid store.size placement.sources ∧
      store.Adds mid above [placement] ∧
      mid.canHost above = (store.canHost above && source.declaredMode.isNone) ∧
      (placement.sources = [] ∨
        mid.CanHold store.size ∧ mid.canHost store.size = placement.root.isNone) := by
  intro placement
  cases source with
  | text content =>
      have hload : load store above (.text content) = placeContent store above (.text content) :=
        if_neg (Bool.eq_false_iff.mp hshown)
      obtain ⟨mid, hmid, hadds, hfree, hsources⟩ :=
        exists_load_leaf hgrown hhold hload rfl rfl rfl (.inl rfl)
      exact ⟨mid, hmid, hadds, hfree, .inl hsources⟩
  | comment content =>
      have hload : load store above (.comment content) = placeContent store above (.comment content) :=
        rfl
      obtain ⟨mid, hmid, hadds, hfree, hsources⟩ :=
        exists_load_leaf hgrown hhold hload rfl rfl rfl (.inr rfl)
      exact ⟨mid, hmid, hadds, hfree, .inl hsources⟩
  | element head children contents =>
      cases hroot : placement.root with
      | none =>
          obtain ⟨mid, hload, hadds, hfree, hnew, hhost⟩ := exists_load_element hgrown hhold hroot
          refine ⟨mid, ?_, hadds, hfree, .inr ⟨hnew, hhost⟩⟩
          rw [hload, Placement.sources, hroot]
          rfl
      | some mode =>
          obtain ⟨hfree, hmode⟩ : store.canHost above = true ∧ head.declaredMode = some mode := by
            change (if store.canHost above then head.declaredMode else none) = some mode at hroot
            split at hroot
            · rename_i hfree
              exact ⟨hfree, hroot⟩
            · contradiction
          obtain ⟨mid, hload, hadds, hhosts, hnew, hhost⟩ := exists_load_root hgrown hfree hmode
          have hplacement : placement = ⟨.element head children contents, above, some mode⟩ := by
            rw [← hroot]
            rfl
          refine ⟨mid, ?_, ?_, ?_, .inr ⟨hnew, hhost⟩⟩
          · rw [hload, hplacement]
            rfl
          · rw [hplacement]
            exact hadds
          · rw [hhosts, Source.declaredMode, hmode, Option.isNone_some, Bool.and_false]

theorem exists_loadAll (sources : List Source) (hgrown : store.Grown)
    (hhold : sources = [] ∨ store.CanHold above) :
    ∃ next, loadAll store above sources = .ok next ∧
      store.Adds next above (placedAll store.size above (store.canHost above) sources) := by
  induction sources using Source.list_induction generalizing store above with
  | nil => exact ⟨store, rfl, .refl hgrown above⟩
  | cons source sources hinner ih =>
      obtain hhold : store.CanHold above := hhold.resolve_left (List.cons_ne_nil _ _)
      cases hshown : source.isLeftOut with
      | true =>
          have hskip : load store above source = .ok store := by
            cases source with
            | text content => exact if_pos hshown
            | comment | element => cases hshown
          rw [loadAll, hskip, placedAll_cons_of_isLeftOut _ _ _ hshown]
          exact ih hgrown (.inr hhold)
      | false =>
          obtain ⟨mid, hload, hfirst, hfree, hbelow⟩ := exists_load_eq hshown hgrown hhold
          have hsize : mid.size = store.size + 1 := hfirst.size
          have habove : above < mid.size := by
            rw [hsize]
            exact Nat.lt_succ_of_lt hhold.lt_size
          obtain ⟨loaded, hloaded, hplaced⟩ := hinner _ rfl hfirst.grown (hbelow.imp_right And.left)
          have hinnerPlaced : placedAll mid.size store.size (mid.canHost store.size)
              (source.placement above (store.canHost above)).sources =
              placedAll (store.size + 1) store.size
                (source.placement above (store.canHost above)).root.isNone
                (source.placement above (store.canHost above)).sources := by
            rcases hbelow with hnil | ⟨-, hhost⟩
            · rw [hnil, placedAll, placedAll]
            · rw [hsize, hhost]
          rw [hinnerPlaced] at hplaced
          have hthere := hfirst.trans hplaced (.inr (Nat.le_refl _))
          obtain ⟨next, hnext, hrest⟩ := ih hplaced.grown (.inr (hthere.canHold hhold))
          refine ⟨next, ?_, ?_⟩
          · rw [loadAll, hload, hloaded]
            exact hnext
          · have hne : above ≠ store.size := Nat.ne_of_lt hhold.lt_size
            rw [placedAll_cons _ _ _ hshown]
            have hfreeThere : loaded.canHost above =
                (store.canHost above && source.declaredMode.isNone) := by
              rw [hplaced.canHost habove (hplaced.shadowRoot above habove hne), hfree]
            rw [hplaced.size, hsize, hfreeThere] at hrest
            exact hthere.trans hrest (.inl rfl)

/-! ## Documents -/

theorem grown_new : Store.new.Grown where
  toIntact := Store.intact_new
  pairwise_children := by simp

theorem exists_loadAll_new (sources : List Source) :
    ∃ store, loadAll .new 0 sources = .ok store ∧ store.Grown ∧
      store.entries = (.document, none) :: (placements sources).map Placement.entry := by
  have hhold : Store.new.CanHold 0 := by
    refine ⟨Nat.zero_lt_one, ?_, ?_⟩
    · simp
    · simp
  have hhost : Store.new.canHost 0 = false := rfl
  obtain ⟨store, hstore, hadds⟩ := exists_loadAll sources grown_new (.inr hhold)
  refine ⟨store, hstore, hadds.grown, ?_⟩
  rw [hadds.entries, Store.entries_new, hhost]
  rfl

/-- What loading makes of an element and of the templates right below it: the first template that declares
a shadow root becomes it, and all else is placed as it is. -/
structure HostsDeclared (store : Store) (nodes : List Placement) (node : Nat) (children : List Source) :
    Prop where
  isSome_iff : (store.shadowRoot node).isSome = true ↔
    ∃ child ∈ children, child.declaredMode.isSome = true
  first : ∀ front child back mode, children = front ++ child :: back →
    (∀ other ∈ front, other.declaredMode = none) → child.declaredMode = some mode →
      (∃ index, store.shadowRoot node = some (index + 1) ∧
        nodes[index]? = some ⟨child, node, some mode⟩) ∧
      nodes.filter (·.above = node) =
        plainSiblings node front ++ ⟨child, node, some mode⟩ :: plainSiblings node back

/-- A node hosts a shadow root exactly if one of the templates right below it declares a mode. -/
theorem HostsDeclared.isSome_iff_declares {nodes : List Placement} {node : Nat} {children : List Source}
    (hhosts : HostsDeclared store nodes node children) :
    (store.shadowRoot node).isSome = true ↔ ∃ child ∈ children, ∃ mode, child.Declares mode := by
  simp only [hhosts.isSome_iff, Option.isSome_iff_exists, Source.declaredMode_eq_some_iff]

section Entries

variable {sources : List Source}
  (hentries : store.entries = (.document, none) :: (placements sources).map Placement.entry)

include hentries

theorem entry_of_placements (index : Nat) :
    store.entries[index + 1]? = (placements sources)[index]?.map Placement.entry := by
  rw [hentries, List.getElem?_cons_succ, List.getElem?_map]

theorem exists_placement {node : Nat} (hnode : 0 < node) (hlt : node < store.size) :
    ∃ index placement, node = index + 1 ∧ (placements sources)[index]? = some placement ∧
      store.entries[node]? = some placement.entry := by
  obtain ⟨index, rfl⟩ := Nat.exists_eq_succ_of_ne_zero (Nat.ne_of_gt hnode)
  have hentry := entry_of_placements hentries index
  rw [← Store.length_entries, hentries, List.length_cons, List.length_map] at hlt
  have hindex := List.getElem?_eq_getElem (Nat.lt_of_succ_lt_succ hlt)
  refine ⟨index, _, rfl, hindex, ?_⟩
  rw [hentry, hindex]
  rfl

theorem above_document : store.above 0 = none := by
  rw [Store.above_eq_of_entries, hentries]
  rfl

theorem descends : store.Descends := by
  intro node hpos hlt
  obtain ⟨index, placement, rfl, hindex, hentry⟩ := exists_placement hentries hpos hlt
  refine ⟨placement.above, ?_, ?_⟩
  · rw [Store.above_eq_of_entries, hentry]
    rfl
  · rcases above_of_getElem? hindex with habove | habove
    · omega
    · omega

/-- A node that is not the document was placed. -/
theorem exists_placement_of_content {node : Nat} {stored : StoredNode}
    (hstored : store.node? node = some stored) (hcontent : stored.content ≠ .document) :
    ∃ index placement, node = index + 1 ∧ (placements sources)[index]? = some placement ∧
      placement.content = stored.content := by
  have hentry : store.entries[node]? = some stored.entry := by
    rw [Store.getElem?_entries, hstored]
    rfl
  cases node with
  | zero =>
      rw [hentries] at hentry
      exact absurd (congrArg Prod.fst (Option.some.inj hentry)).symm hcontent
  | succ index =>
      rw [entry_of_placements hentries, Option.map_eq_some_iff] at hentry
      obtain ⟨placement, hplacement, hsame⟩ := hentry
      exact ⟨index, placement, rfl, hplacement, congrArg Prod.fst hsame⟩

theorem not_blank_of_text {node : Nat} {stored : StoredNode} {text : String}
    (hstored : store.node? node = some stored) (htext : stored.content = .text text) :
    ∃ c ∈ text.toList, Text.isBlank c = false := by
  have hcontent : stored.content ≠ .document := by simp [htext]
  obtain ⟨index, placement, -, hplacement, hsame⟩ :=
    exists_placement_of_content hentries hstored hcontent
  have hsource := Placement.of_content_eq_text (hsame.trans htext)
  have hshown := isLeftOut_of_mem (List.mem_of_getElem? hplacement)
  rw [hsource, Source.isLeftOut, List.all_eq_false] at hshown
  obtain ⟨c, hc, hblank⟩ := hshown
  exact ⟨c, hc, Bool.eq_false_iff.mpr hblank⟩

/-- The shadow root of a node is the one that was placed on it. -/
theorem shadowRoot_eq_some_iff (hgrown : store.Grown) {node root : Nat} :
    store.shadowRoot node = some root ↔ ∃ index placement, root = index + 1 ∧
      (placements sources)[index]? = some placement ∧ placement.root.isSome = true ∧
        placement.above = node := by
  rw [hgrown.shadowRoot_iff, hgrown.host_eq_some_iff, Store.nodeType_eq_of_entries,
    Store.above_eq_of_entries]
  cases root with
  | zero =>
      rw [hentries]
      refine iff_of_false ?_ ?_
      · rintro ⟨htype, -⟩
        contradiction
      · rintro ⟨index, placement, hzero, -⟩
        contradiction
  | succ index =>
      rw [entry_of_placements hentries]
      constructor
      · rintro ⟨htype, habove⟩
        rw [Option.bind_map, Option.bind_eq_some_iff] at habove
        obtain ⟨placement, hplacement, hsame⟩ := habove
        rw [hplacement] at htype
        exact ⟨index, placement, rfl, hplacement, Placement.nodeType_content_iff.mp htype,
          Option.some.inj hsame⟩
      · rintro ⟨other, placement, hother, hplacement, hroot, rfl⟩
        obtain rfl : index = other := Nat.succ.inj hother
        rw [hplacement]
        exact ⟨Placement.nodeType_content_iff.mpr hroot, rfl⟩

theorem hostsDeclared (hgrown : store.Grown) {index above : Nat} {head : ElementHead}
    {children contents : List Source}
    (helement : (placements sources)[index]? = some ⟨.element head children contents, above, none⟩) :
    HostsDeclared store (placements sources) (index + 1) children := by
  have hbelow : (placements sources).filter (·.above = index + 1) = siblings (index + 1) true children :=
    filter_placements helement
  have hfirst : ∀ front child back mode, children = front ++ child :: back →
      (∀ other ∈ front, other.declaredMode = none) → child.declaredMode = some mode →
        (∃ root, store.shadowRoot (index + 1) = some (root + 1) ∧
          (placements sources)[root]? = some ⟨child, index + 1, some mode⟩) ∧
        (placements sources).filter (·.above = index + 1) = plainSiblings (index + 1) front ++
          ⟨child, index + 1, some mode⟩ :: plainSiblings (index + 1) back := by
    rintro front child back mode rfl hfront hmode
    rw [siblings_append_cons (index + 1) hfront hmode] at hbelow
    refine ⟨?_, hbelow⟩
    have hmem : ⟨child, index + 1, some mode⟩ ∈
        (placements sources).filter (·.above = index + 1) := by
      rw [hbelow]
      exact List.mem_append_right _ List.mem_cons_self
    obtain ⟨root, hroot⟩ := List.mem_iff_getElem?.mp (List.mem_of_mem_filter hmem)
    exact ⟨root, (shadowRoot_eq_some_iff hentries hgrown).mpr ⟨root, _, rfl, hroot, rfl, rfl⟩, hroot⟩
  refine ⟨?_, hfirst⟩
  constructor
  · intro hsome
    obtain ⟨root, hroot⟩ := Option.isSome_iff_exists.mp hsome
    obtain ⟨other, placement, -, hplacement, hmode, habove⟩ :=
      (shadowRoot_eq_some_iff hentries hgrown).mp hroot
    by_contra hnone
    have hplain : ∀ source ∈ children, source.declaredMode = none := by
      intro source hsource
      rw [← Option.not_isSome_iff_eq_none]
      intro hdeclared
      exact hnone ⟨source, hsource, hdeclared⟩
    have hmem : placement ∈ plainSiblings (index + 1) children := by
      rw [← siblings_eq_plainSiblings (index + 1) fun _ => hplain, ← hbelow, List.mem_filter]
      exact ⟨List.mem_of_getElem? hplacement, decide_eq_true habove⟩
    obtain ⟨source, -, rfl⟩ := List.mem_map.mp hmem
    contradiction
  · rintro ⟨child, hchild, hdeclared⟩
    have hsome : (children.find? fun child => child.declaredMode.isSome).isSome = true :=
      List.find?_isSome.mpr ⟨child, hchild, hdeclared⟩
    obtain ⟨first, hfound⟩ := Option.isSome_iff_exists.mp hsome
    obtain ⟨hfirstDeclared, front, back, hsplit, hfront⟩ := List.find?_eq_some_iff_append.mp hfound
    obtain ⟨mode, hmode⟩ := Option.isSome_iff_exists.mp hfirstDeclared
    have hundeclared : ∀ other ∈ front, other.declaredMode = none := by
      intro other hother
      simpa using hfront other hother
    obtain ⟨⟨root, hroot, -⟩, -⟩ := hfirst front first back mode hsplit hundeclared hmode
    rw [hroot]
    rfl

end Entries

/-- Every list of sources is loaded, and every text with it.  The nodes are made depth first in document
order, a shadow root where its template stands, and children stand in the order in which they are made.
Every node is shown once below the document, none stands above itself, and no text is blank.  An element
hosts a shadow root exactly if a template right below it declares one. -/
theorem loadAll_sound (sources : List Source) :
    ∃ store, loadAll .new 0 sources = .ok store ∧
      (∀ text, documentOf text = sources → storeOf text = .ok store) ∧
      store.entries = (.document, none) :: (placements sources).map Placement.entry ∧
      (∀ node, (store.children node).Pairwise (· < ·)) ∧
      (∀ node < store.size, (store.shadowIncluding 0).count node = 1) ∧
      store.Acyclic ∧
      (∀ node stored text, store.node? node = some stored → stored.content = .text text →
        ∃ c ∈ text.toList, Text.isBlank c = false) ∧
      ∀ node element, store.element? node = some element →
        ∃ index head children contents above, node = index + 1 ∧
          (placements sources)[index]? = some ⟨.element head children contents, above, none⟩ ∧
          head.element = element ∧ HostsDeclared store (placements sources) node children := by
  obtain ⟨store, hstore, hgrown, hentries⟩ := exists_loadAll_new sources
  have hdescends := descends hentries
  have hdocument := above_document hentries
  refine ⟨store, hstore, ?_, hentries, hgrown.pairwise_children, ?_,
    hdescends.acyclic hgrown.toConsistent hdocument, ?_, ?_⟩
  · rintro text rfl
    exact hstore
  · intro node hnode
    exact hdescends.count_shadowIncluding hgrown.toConsistent hdocument hnode
  · intro node stored text hstored htext
    exact not_blank_of_text hentries hstored htext
  · intro node element helement
    rw [Store.element?_eq_bind, Option.bind_eq_some_iff] at helement
    obtain ⟨stored, hstored, hcontent⟩ := helement
    have helement : stored.content = .element element := by
      cases hkind : stored.content <;> rw [hkind] at hcontent <;> cases hcontent
      rfl
    obtain ⟨index, ⟨source, above, root⟩, rfl, hplacement, hsame⟩ :=
      exists_placement_of_content hentries hstored (by simp [helement])
    obtain ⟨hroot, head, children, contents, hsource, hhead⟩ :=
      Placement.of_content_eq_element (hsame.trans helement)
    obtain rfl : root = none := hroot
    obtain rfl : source = .element head children contents := hsource
    exact ⟨index, head, children, contents, above, rfl, hplacement, hhead,
      hostsDeclared hentries hgrown hplacement⟩

end Markup

end FlatTree
