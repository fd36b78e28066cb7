import FlatTree.Proofs.Markup.Addresses
import FlatTree.Proofs.Markup.Documents
import FlatTree.Proofs.Markup.Loading
import Mathlib.Data.Set.Function

/-!
# What loading keeps

The addresses that are loaded are counted through in document order, and the node with the number of an
address holds what stands there.  Nodes stand in one list of children exactly if their sources do.  What a
template that becomes a shadow root has as children is lost.  Templates of HTML have none, but those of
other vocabularies do.
-/

namespace FlatTree

/-! ## Attributes -/

namespace Store

/-- Sets the values of several names, one after the other. -/
def setPairs (others pairs : List (String × String)) : List (String × String) :=
  others.foldl (fun pairs pair => setPair pair.1 pair.2 pairs) pairs

/-- The last value counts. -/
theorem lookup_setPairs (name : String) (others pairs : List (String × String)) :
    (setPairs others pairs).lookup name = (others.reverse ++ pairs).lookup name := by
  induction others generalizing pairs with
  | nil => rfl
  | cons other others ih =>
      calc (setPairs (other :: others) pairs).lookup name
          = (setPairs others (setPair other.1 other.2 pairs)).lookup name := rfl
        _ = (others.reverse ++ setPair other.1 other.2 pairs).lookup name := ih _
        _ = (others.reverse ++ other :: pairs).lookup name := by
            rw [List.lookup_append, List.lookup_append, lookup_setPair, lookup_cons_eq_ite]
        _ = ((other :: others).reverse ++ pairs).lookup name := by
            rw [List.reverse_cons, List.append_assoc, List.singleton_append]

theorem setPairs_of_nodup {others pairs : List (String × String)}
    (hnodup : ((pairs ++ others).map Prod.fst).Nodup) : setPairs others pairs = pairs ++ others := by
  induction others generalizing pairs with
  | nil => exact (List.append_nil pairs).symm
  | cons other others ih =>
      have hname : other.1 ∉ pairs.map Prod.fst := by
        intro hmem
        rw [List.map_append, List.nodup_append] at hnodup
        exact hnodup.2.2 other.1 hmem other.1 List.mem_cons_self rfl
      calc setPairs (other :: others) pairs
          = setPairs others (setPair other.1 other.2 pairs) := rfl
        _ = setPairs others (pairs ++ [other]) := by rw [setPair_of_not_mem other.2 hname]
        _ = pairs ++ [other] ++ others := ih (by rwa [List.append_assoc, List.singleton_append])
        _ = pairs ++ other :: others := by rw [List.append_assoc, List.singleton_append]

end Store

namespace Markup

namespace ElementHead

/-- The attributes under the lower-case forms of their names. -/
def lowerAttributes (head : ElementHead) : List (String × String) :=
  head.attributes.map fun pair => (Text.lowered pair.1, pair.2)

theorem element_eq (head : ElementHead) :
    head.element =
      { Store.newElement (some head.space) head.name with
        attributes := Store.setPairs head.lowerAttributes [] } := by
  have hset (attributes : List (String × String)) (element : Element) :
      attributes.foldl
          (fun element pair =>
            { element with attributes := Store.setPair (Text.lowered pair.1) pair.2 element.attributes })
          element =
        { element with
          attributes := Store.setPairs (attributes.map fun pair => (Text.lowered pair.1, pair.2))
            element.attributes } := by
    induction attributes generalizing element with
    | nil => rfl
    | cons pair attributes ih => exact ih _
  exact hset head.attributes _

/-- The element has the name, the namespace and the attributes of its source.  An attribute is known by the
lower-case form of its name, and of several with one such name the last value counts. -/
structure StoredAs (head : ElementHead) (element : Element) : Prop where
  name : element.name = head.name
  space : element.space = some head.space
  lookup : ∀ name, element.attributes.lookup name = head.lowerAttributes.reverse.lookup name
  attributes : (head.lowerAttributes.map Prod.fst).Nodup → element.attributes = head.lowerAttributes
  html : head.space = htmlNamespace → element.attributes = head.attributes

theorem Proper.storedAs {head : ElementHead} (hproper : head.Proper) : head.StoredAs head.element := by
  have hspace : (Store.newElement (some head.space) head.name).space = some head.space := by
    rw [Store.newElement, Option.filter_some, if_pos (decide_eq_true hproper.space_ne_empty)]
  have hdistinct (hnodup : (head.lowerAttributes.map Prod.fst).Nodup) :
      head.element.attributes = head.lowerAttributes := by
    rw [element_eq]
    exact Store.setPairs_of_nodup hnodup
  refine ⟨?_, ?_, ?_, hdistinct, ?_⟩
  · rw [element_eq]
    change (if (Store.newElement (some head.space) head.name).space = some htmlNamespace
      then Text.lowered head.name else head.name) = head.name
    rw [hspace]
    split
    · rename_i hhtml
      exact hproper.name (Option.some.inj hhtml)
    · rfl
  · rw [element_eq]
    exact hspace
  · intro name
    rw [element_eq, ← List.append_nil head.lowerAttributes.reverse]
    exact Store.lookup_setPairs name head.lowerAttributes []
  · intro hhtml
    have hnamed := hproper.attributes hhtml
    have hsame : head.lowerAttributes = head.attributes := by
      rw [lowerAttributes, ← List.map_id head.attributes, List.map_map]
      apply List.map_congr_left
      intro pair hpair
      exact Prod.ext (hnamed.lower pair hpair) rfl
    rw [hdistinct (by rw [hsame]; exact hnamed.nodup), hsame]

end ElementHead

/-- The content is what the source says. -/
def Source.StoredAs (stored : Content) : Source → Prop
  | .element head _ _ => ∃ made, stored = .element made ∧ head.StoredAs made
  | .text content => stored = .text content
  | .comment content => stored = .comment content

theorem Placement.storedAs_content {placement : Placement} (hroot : placement.root = none)
    (hproper : placement.source.Proper) : placement.source.StoredAs placement.content := by
  obtain ⟨source, above, root⟩ := placement
  obtain rfl : root = none := hroot
  cases hproper with
  | element head children contents hhead => exact ⟨head.element, rfl, hhead.storedAs⟩
  | text content => exact rfl
  | comment content => exact rfl

/-! ## Addresses of a tree -/

section Addresses

variable {sources : List Source}

/-- Everything that a proper tree holds is proper. -/
theorem proper_sourcesBelow (hproper : ∀ source ∈ sources, source.Proper) (address : Address)
    (branch : Branch) : ∀ source ∈ sourcesBelow sources address branch, source.Proper := by
  induction address generalizing branch with
  | nil =>
      cases branch with
      | children => exact hproper
      | contents => simp [sourcesBelow]
  | cons step above ih =>
      intro source hsource
      rw [sourcesBelow] at hsource
      cases hother : (sourcesBelow sources above step.branch)[step.index]? with
      | none => simp [hother] at hsource
      | some other =>
          rw [hother] at hsource
          have hsource : source ∈ other.sourcesIn branch := hsource
          cases ih step.branch other (List.mem_of_getElem? hother) with
          | element head children contents _ hchildren hcontents =>
              cases branch with
              | children => exact hchildren source hsource
              | contents => exact hcontents source hsource
          | text | comment => cases branch <;> contradiction

theorem proper_of_source?_eq_some (hproper : ∀ source ∈ sources, source.Proper) {address : Address}
    {source : Source} (hsource : source? sources address = some source) : source.Proper := by
  cases address with
  | nil => contradiction
  | cons step above =>
      exact proper_sourcesBelow hproper above step.branch source (List.mem_of_getElem? hsource)

/-- What becomes a shadow root declares its mode. -/
theorem declaredMode_of_root? {address : Address} {source : Source} {mode : ShadowMode}
    (hsource : source? sources address = some source) (hroot : root? sources address = some mode) :
    source.declaredMode = some mode := by
  cases address with
  | nil => contradiction
  | cons step above =>
      rw [root?] at hroot
      split at hroot
      · rename_i hcases
        rw [source?, hcases.2.1] at hsource
        rw [Source.firstMode, hsource] at hroot
        split at hroot
        · exact hroot
        · contradiction
      · contradiction

/-- The address lies in the contents of a template of HTML that stays an element. -/
def InKeptTemplate (sources : List Source) (address : Address) : Prop :=
  ∃ index above head children contents, ⟨.contents, index⟩ :: above <:+ address ∧
    source? sources above = some (.element head children contents) ∧ head.IsHtmlTemplate ∧
    root? sources above = none

/-- The address lies among the children of a template of another vocabulary that becomes a shadow root. -/
def BelowForeignRoot (sources : List Source) (address : Address) : Prop :=
  ∃ index above head children contents mode, ⟨.children, index⟩ :: above <:+ address ∧
    source? sources above = some (.element head children contents) ∧ head.name = "template" ∧
    head.space ≠ htmlNamespace ∧ root? sources above = some mode

theorem InKeptTemplate.cons {address : Address} (hkept : InKeptTemplate sources address) (step : Step) :
    InKeptTemplate sources (step :: address) := by
  obtain ⟨index, above, head, children, contents, hsuffix, hrest⟩ := hkept
  exact ⟨index, above, head, children, contents, hsuffix.trans (List.suffix_cons step address), hrest⟩

theorem BelowForeignRoot.cons {address : Address} (hforeign : BelowForeignRoot sources address)
    (step : Step) : BelowForeignRoot sources (step :: address) := by
  obtain ⟨index, above, head, children, contents, mode, hsuffix, hrest⟩ := hforeign
  exact ⟨index, above, head, children, contents, mode, hsuffix.trans (List.suffix_cons step address), hrest⟩

theorem name_of_declaredMode {head : ElementHead} {mode : ShadowMode}
    (hmode : head.declaredMode = some mode) : head.name = "template" := by
  by_contra hname
  rw [ElementHead.declaredMode, if_neg hname] at hmode
  contradiction

/-- A step from an element that is reached takes the list that is placed, or one that only templates have. -/
theorem reached_cons_or_cut {step : Step} {above : Address} {head : ElementHead}
    {children contents : List Source} (hreached : Reached sources above)
    (habove : source? sources above = some (.element head children contents))
    (hproper : (Source.element head children contents).Proper)
    (hne : (Source.element head children contents).sourcesIn step.branch ≠ []) :
    Reached sources (step :: above) ∨ InKeptTemplate sources (step :: above) ∨
      BelowForeignRoot sources (step :: above) := by
  obtain ⟨branch, index⟩ := step
  cases hproper with
  | element _ _ _ _ _ _ htemplate hplain =>
  cases hroot : root? sources above with
  | none =>
      cases branch with
      | children => exact .inl (reached_cons_iff.mpr ⟨hreached, by rw [hroot]; rfl⟩)
      | contents =>
          have htemplate : head.IsHtmlTemplate := by_contra fun hnone => hne (hplain hnone)
          exact .inr (.inl ⟨index, above, head, children, contents, List.suffix_rfl, habove, htemplate, hroot⟩)
  | some mode =>
      cases branch with
      | contents => exact .inl (reached_cons_iff.mpr ⟨hreached, by rw [hroot]; rfl⟩)
      | children =>
          have hname := name_of_declaredMode (declaredMode_of_root? habove hroot)
          have hspace : head.space ≠ htmlNamespace := fun hhtml => hne (htemplate ⟨hhtml, hname⟩)
          exact .inr (.inr ⟨index, above, head, children, contents, mode, List.suffix_rfl, habove, hname,
            hspace, hroot⟩)

/-- In a proper tree only contents of templates and children of templates of other vocabularies are not
reached. -/
theorem reached_or_cut (hproper : ∀ source ∈ sources, source.Proper) {address : Address} {source : Source}
    (hsource : source? sources address = some source) :
    Reached sources address ∨ InKeptTemplate sources address ∨ BelowForeignRoot sources address := by
  induction address generalizing source with
  | nil => contradiction
  | cons step above ih =>
      rcases exists_of_source?_cons hsource with ⟨rfl, hbranch⟩ | ⟨head, children, contents, habove, hne⟩
      · exact .inl (reached_cons_iff.mpr ⟨⟨not_false, not_false⟩, hbranch⟩)
      · rcases ih habove with hreached | hkept | hforeign
        · exact reached_cons_or_cut hreached habove (proper_of_source?_eq_some hproper habove) hne
        · exact .inr (.inl (hkept.cons step))
        · exact .inr (.inr (hforeign.cons step))

/-! ## Numbers of nodes -/

/-- The node that is made at an address, the document at the address without steps. -/
def nodeOf (sources : List Source) (address : Address) : Nat :=
  ([] :: addresses sources).idxOf address

theorem nodup_addresses : ([] :: addresses sources).Nodup := by
  refine List.nodup_cons.mpr ⟨?_, nodup_addressesFrom ..⟩
  intro hmem
  obtain ⟨source, hsource, -⟩ := (mem_addresses_iff.mp hmem).source
  contradiction

theorem nodeOf_eq_of_getElem? {place : Nat} {address : Address}
    (haddress : ([] :: addresses sources)[place]? = some address) : nodeOf sources address = place := by
  obtain ⟨hlt, rfl⟩ := List.getElem?_eq_some_iff.mp haddress
  exact nodup_addresses.idxOf_getElem place hlt

theorem length_addresses (sources : List Source) :
    (addresses sources).length = (placements sources).length :=
  length_addressesFrom ..

/-- The placement is the one that is counted at the address.  It hangs on the node at the address above. -/
structure PlacedAt (sources : List Source) (address : Address) (place : Nat) (placement : Placement) :
    Prop extends Places sources address placement where
  number : nodeOf sources address = place + 1
  placement_eq : (placements sources)[place]? = some placement
  above : placement.above = nodeOf sources address.tail
  tail_mem : address.tail ∈ [] :: addresses sources

theorem Loaded.exists_placedAt {address : Address} (hloaded : Loaded sources address) :
    ∃ place placement, PlacedAt sources address place placement := by
  obtain ⟨place, hplace⟩ := List.mem_iff_getElem?.mp (mem_addresses_iff.mpr hloaded)
  have hlt := (List.getElem?_eq_some_iff.mp hplace).1
  rw [length_addresses] at hlt
  have hplacement := List.getElem?_eq_getElem hlt
  obtain ⟨other, hother, hplaces, habove⟩ := exists_address (locates_document sources) hplacement
  obtain rfl : address = other := Option.some.inj (hplace.symm.trans hother)
  have hnumber : nodeOf sources address = place + 1 := nodeOf_eq_of_getElem? hplace
  refine ⟨place, _, ⟨hplaces, hnumber, hplacement, ?_, ?_⟩⟩
  · rcases habove with ⟨habove, htail⟩ | ⟨older, -, habove, htail⟩
    · rw [habove, htail]
      rfl
    · rw [habove, Nat.add_comm]
      exact (nodeOf_eq_of_getElem? htail).symm
  · rcases habove with ⟨-, htail⟩ | ⟨older, -, -, htail⟩
    · rw [htail]
      exact List.mem_cons_self
    · exact List.mem_cons_of_mem _ (List.mem_of_getElem? htail)

theorem bijOn_nodeOf (sources : List Source) :
    Set.BijOn (nodeOf sources) {address | Loaded sources address}
      {node | 0 < node ∧ node < (placements sources).length + 1} := by
  refine ⟨?_, ?_, ?_⟩
  · intro address hloaded
    obtain ⟨place, placement, hplaced⟩ := hloaded.exists_placedAt
    have hlt := (List.getElem?_eq_some_iff.mp hplaced.placement_eq).1
    rw [Set.mem_ofPred_eq, hplaced.number]
    exact ⟨Nat.succ_pos place, Nat.succ_lt_succ hlt⟩
  · intro left hleft right _ hsame
    have hmem := List.mem_cons_of_mem [] (mem_addresses_iff.mpr hleft)
    exact (List.idxOf_inj hmem).mp hsame
  · rintro node ⟨hpos, hlt⟩
    rw [← length_addresses] at hlt
    obtain ⟨place, rfl⟩ := Nat.exists_eq_succ_of_ne_zero (Nat.ne_of_gt hpos)
    have hplace := List.getElem?_eq_getElem (Nat.lt_of_succ_lt_succ hlt)
    refine ⟨_, mem_addresses_iff.mp (List.mem_of_getElem? hplace), ?_⟩
    exact nodeOf_eq_of_getElem? hplace

/-- The addresses lead to sources in one list. -/
def Siblings (left right : Address) : Prop :=
  ∃ above branch leftIndex rightIndex,
    left = ⟨branch, leftIndex⟩ :: above ∧ right = ⟨branch, rightIndex⟩ :: above

theorem siblings_iff_tail_eq {left right : Address} (hleft : Loaded sources left)
    (hright : Loaded sources right) : Siblings left right ↔ left.tail = right.tail := by
  constructor
  · rintro ⟨above, branch, leftIndex, rightIndex, rfl, rfl⟩
    rfl
  · intro htail
    obtain ⟨⟨leftSource, hleftSource, -⟩, hleft⟩ := loaded_iff_reached.mp hleft
    obtain ⟨⟨rightSource, hrightSource, -⟩, hright⟩ := loaded_iff_reached.mp hright
    match left, right, htail with
    | [], _, _ => contradiction
    | _ :: _, [], _ => contradiction
    | ⟨leftBranch, leftIndex⟩ :: above, ⟨rightBranch, rightIndex⟩ :: other, htail =>
        obtain rfl : above = other := htail
        obtain rfl : leftBranch = _ := (reached_cons_iff.mp hleft).2
        obtain rfl : rightBranch = _ := (reached_cons_iff.mp hright).2
        exact ⟨above, _, leftIndex, rightIndex, rfl, rfl⟩

end Addresses

/-! ## Stores -/

/-- The node at an address holds what its source says.  A template that becomes a shadow root declares the
mode that the root has. -/
def StoredAt (store : Store) (sources : List Source) (address : Address) : Prop :=
  ∃ source stored, source? sources address = some source ∧
    store.node? (nodeOf sources address) = some stored ∧
    match root? sources address with
    | some mode => source.declaredMode = some mode ∧ stored.content = .shadowRoot mode
    | none => source.StoredAs stored.content

section Entries

variable {store : Store} {sources : List Source}
  (hentries : store.entries = (.document, none) :: (placements sources).map Placement.entry)

include hentries

theorem storedAt (hproper : ∀ source ∈ sources, source.Proper) {address : Address}
    (hloaded : Loaded sources address) : StoredAt store sources address := by
  obtain ⟨place, placement, hplaced⟩ := hloaded.exists_placedAt
  have hentry := entry_of_placements hentries place
  rw [hplaced.placement_eq, Store.getElem?_entries, Option.map_some, Option.map_eq_some_iff] at hentry
  obtain ⟨stored, hstored, hentry⟩ := hentry
  have hcontent : stored.content = placement.content := congrArg Prod.fst hentry
  refine ⟨placement.source, stored, hplaced.source, by rw [hplaced.number]; exact hstored, ?_⟩
  rw [hcontent]
  cases hroot : root? sources address with
  | some mode =>
      refine ⟨declaredMode_of_root? hplaced.source hroot, ?_⟩
      rw [Placement.content, ← hplaced.root, hroot]
  | none =>
      exact Placement.storedAs_content (hplaced.root.symm.trans hroot)
        (proper_of_source?_eq_some hproper hplaced.source)

/-- A source that does not become a shadow root is a child of the node at the address above. -/
theorem mem_children_nodeOf_iff (hgrown : store.Grown) {address : Address} (hloaded : Loaded sources address)
    (hroot : root? sources address = none) {node : Nat} :
    nodeOf sources address ∈ store.children node ↔ node = nodeOf sources address.tail := by
  obtain ⟨place, placement, hplaced⟩ := hloaded.exists_placedAt
  have hentry := entry_of_placements hentries place
  rw [hplaced.placement_eq, Option.map_some] at hentry
  have hkind : store.nodeType (place + 1) ≠ .shadowRoot := by
    rw [Store.nodeType_eq_of_entries, hentry]
    change placement.content.nodeType ≠ .shadowRoot
    rw [ne_eq, Placement.nodeType_content_iff, ← hplaced.root, hroot]
    exact Bool.false_ne_true
  have hparent : store.parent (place + 1) = some placement.above := by
    have habove : store.above (place + 1) = some placement.above := by
      rw [Store.above_eq_of_entries, hentry]
      rfl
    rwa [Store.above, if_neg hkind] at habove
  rw [hgrown.mem_children_iff, hplaced.number, hparent, hplaced.above, Option.some.injEq, eq_comm]

theorem share_children_iff (hgrown : store.Grown) {left right : Address} (hleft : Loaded sources left)
    (hright : Loaded sources right) (hleftKept : root? sources left = none)
    (hrightKept : root? sources right = none) :
    (∃ node, nodeOf sources left ∈ store.children node ∧ nodeOf sources right ∈ store.children node) ↔
      Siblings left right := by
  obtain ⟨place, placement, hplaced⟩ := hleft.exists_placedAt
  simp only [mem_children_nodeOf_iff hentries hgrown hleft hleftKept,
    mem_children_nodeOf_iff hentries hgrown hright hrightKept]
  calc (∃ node, node = nodeOf sources left.tail ∧ node = nodeOf sources right.tail)
      ↔ nodeOf sources left.tail = nodeOf sources right.tail := exists_eq_left
    _ ↔ left.tail = right.tail := List.idxOf_inj hplaced.tail_mem
    _ ↔ Siblings left right := (siblings_iff_tail_eq hleft hright).symm

end Entries

/-- Every proper tree is loaded, and with it every text.  The nodes behind the document are in bijection with
the sources that are loaded, each of which is stored as it is or is the template of a shadow root, and the
lists of children are those of the source.  What is not blank is loaded, unless it lies in the contents of
a template that stays an element, or below a template of another vocabulary that becomes a shadow root. -/
theorem loadAll_preserves (tree : SourceTree) :
    ∃ store, loadAll .new 0 tree.sources = .ok store ∧
      (∀ text, SourceTree.ofText text = tree → storeOf text = .ok store) ∧
      Set.BijOn (nodeOf tree.sources) {address | Loaded tree.sources address}
        {node | 0 < node ∧ node < store.size} ∧
      (∀ address, Loaded tree.sources address → StoredAt store tree.sources address) ∧
      (∀ left right, Loaded tree.sources left → Loaded tree.sources right →
        root? tree.sources left = none → root? tree.sources right = none →
          ((∃ node, nodeOf tree.sources left ∈ store.children node ∧
            nodeOf tree.sources right ∈ store.children node) ↔ Siblings left right)) ∧
      ∀ address source, source? tree.sources address = some source → source.isLeftOut = false →
        Loaded tree.sources address ∨ InKeptTemplate tree.sources address ∨
          BelowForeignRoot tree.sources address := by
  obtain ⟨store, hstore, hgrown, hentries⟩ := exists_loadAll_new tree.sources
  have hsize : store.size = (placements tree.sources).length + 1 := by
    rw [← Store.length_entries, hentries, List.length_cons, List.length_map]
  refine ⟨store, hstore, ?_, ?_, ?_, ?_, ?_⟩
  · rintro text rfl
    exact hstore
  · rw [hsize]
    exact bijOn_nodeOf tree.sources
  · intro address hloaded
    exact storedAt hentries tree.proper hloaded
  · intro left right hleft hright hleftKept hrightKept
    exact share_children_iff hentries hgrown hleft hright hleftKept hrightKept
  · intro address source hsource hshown
    rcases reached_or_cut tree.proper hsource with hreached | hcut
    · exact .inl (loaded_iff_reached.mpr ⟨⟨source, hsource, hshown⟩, hreached⟩)
    · exact .inr hcut

/-- What the start tag of an element says. -/
def Source.head? : Source → Option ElementHead
  | .element head _ _ => some head
  | _ => none

/-- A template of SVG that declares a shadow root. -/
def svgTemplate : String :=
  "<svg><g><template shadowrootmode=\"open\"><rect></rect></template></g></svg>"

/-- What stands in a template of SVG are its children.  They are lost when it becomes a shadow root, though
they lie in the contents of no template. -/
theorem svgTemplate_loses_children :
    ∃ store address, storeOf svgTemplate = .ok store ∧
      (source? (documentOf svgTemplate) address).bind Source.head? = some ⟨svgNamespace, "rect", []⟩ ∧
      ¬ InKeptTemplate (documentOf svgTemplate) address ∧
      ∀ node element, store.element? node = some element → element.name ≠ "rect" := by
  let address : Address := [0, 0, 0, 0, 1, 0].map (Step.mk .children)
  have hnames : (storeOf svgTemplate).toOption.all (fun store => store.nodes.toList.all fun stored =>
      stored.content.element?.all fun element => decide (element.name ≠ "rect")) = true := by
    decide +kernel
  obtain ⟨store, hstore, -⟩ := exists_loadAll_new (documentOf svgTemplate)
  have hstore : storeOf svgTemplate = .ok store := hstore
  refine ⟨store, address, hstore, by decide +kernel, ?_, ?_⟩
  · rintro ⟨index, above, -, -, -, hsuffix, -⟩
    have hstep := hsuffix.subset List.mem_cons_self
    simp [address] at hstep
  · intro node element helement
    rw [Store.element?_eq_bind, Option.bind_eq_some_iff] at helement
    obtain ⟨stored, hstored, helement⟩ := helement
    rw [hstore] at hnames
    have hname := List.all_eq_true.mp hnames stored
      (Array.mem_toList_iff.mpr (Array.mem_of_getElem? hstored))
    rw [helement] at hname
    exact of_decide_eq_true hname

end Markup

end FlatTree
