import HostSubnets.Node.Annotations
import HostSubnets.Proofs.Cidr.Text
import HostSubnets.Proofs.Json.RoundTrip
import HostSubnets.Proofs.Text.Numeral

/-!
# Declarations read back

What a node declares after its annotations were changed: the subnets and the id that were set (`subnets?_setSubnets`,
`networkId?_setNetworkId`, together in `declares_what_was_set`), and what it declared before where another annotation
was changed (`subnets?_setNetworkId`). All come from `member?_changeMembers`: the members of an annotation read after a
change are the changed ones, since their values are read as they are written (`Recovers`).
-/

namespace HostSubnets

theorem AnnotationKey.text_injective : Function.Injective AnnotationKey.text := by
  intro a b h
  cases a <;> cases b <;> first | rfl | exact absurd h (by decide)

/-- An id that 32 bits can tell. -/
def Network.IsId (id : Int) : Prop := -2 ^ 31 ≤ id ∧ id < 2 ^ 31

instance (id : Int) : Decidable (Network.IsId id) := inferInstanceAs (Decidable (_ ∧ _))

/-! ## Members -/

/-- Values that are found again in the text of an annotation of which they are members. -/
structure Recovers {α : Type} (value? : Json → Option α) (value : α → Json) : Prop where
  decode : ∀ v, value? (value v) = some v
  reads : ∀ v, Json.Reads 126 (value v)

theorem recovers_texts : Recovers Json.texts? Json.ofTexts where
  decode := Json.texts?_ofTexts
  reads := Json.reads_ofTexts 125

theorem recovers_text : Recovers Json.text? Json.string where
  decode := fun _ => rfl
  reads := Json.reads_string 126

theorem Recovers.decodeMembers_toString {α : Type} {value? : Json → Option α} {value : α → Json}
    (h : Recovers value? value) (m : SortedMap String α) :
    decodeMembers value? (Json.ofMap value m).toString = some m := by
  have hread : Json.read? (Json.ofMap value m).write = some (Json.ofMap value m) :=
    Json.read?_write (Json.reads_ofMap h.reads m)
  unfold decodeMembers Json.toString
  rw [String.toList_ofList, hread]
  exact Json.members?_ofMap h.decode m

namespace TextMap

variable {α : Type} {key : AnnotationKey} {value? : Json → Option α} {value : α → Json}
  {change : SortedMap String α → SortedMap String α}

def members (key : AnnotationKey) (value? : Json → Option α) (annotations : TextMap) : SortedMap String α :=
  ((annotations.find? key.text).bind (decodeMembers value?)).getD .empty

theorem find?_changeMembers (annotations : TextMap) :
    (changeMembers key value? value change annotations).find? key.text =
      if (change (members key value? annotations)).isEmpty then none
      else some (Json.ofMap value (change (members key value? annotations))).toString := by
  show SortedMap.find? (if (change (members key value? annotations)).isEmpty then _ else _) _ = _
  split
  · rw [SortedMap.find?_erase, if_pos rfl]
  · rw [SortedMap.find?_insert, if_pos rfl]
    rfl

theorem find?_changeMembers_of_ne {other : String} (h : other ≠ key.text) (annotations : TextMap) :
    (changeMembers key value? value change annotations).find? other = annotations.find? other := by
  show SortedMap.find? (if (change (members key value? annotations)).isEmpty then _ else _) _ = _
  split
  · rw [SortedMap.find?_erase, if_neg h]
  · rw [SortedMap.find?_insert, if_neg h]

theorem find?_setSubnets_of_ne {other : String} (h : other ≠ AnnotationKey.subnets.text) {network : String}
    {subnets : List Cidr} (a : TextMap) : (setSubnets network subnets a).find? other = a.find? other :=
  find?_changeMembers_of_ne h a

theorem find?_setNetworkId_of_ne {other : String} (h : other ≠ AnnotationKey.networkIds.text) {network : String}
    {id : Int} (a : TextMap) : (setNetworkId network id a).find? other = a.find? other :=
  find?_changeMembers_of_ne h a

theorem find?_setOverlaySubnet_of_ne {other : String} (h : other ≠ AnnotationKey.overlaySubnet.text) {subnet : Cidr}
    (a : TextMap) : (setOverlaySubnet subnet a).find? other = a.find? other :=
  (SortedMap.find?_insert a _ _ other).trans (if_neg h)

end TextMap

namespace Node

variable {α : Type} {key : AnnotationKey} {value? : Json → Option α} {value : α → Json}

theorem annotationAt?_changeAnnotations (change : TextMap → TextMap) (n : Node) (name : String) :
    (n.changeAnnotations change).annotationAt? name = (change (n.annotations.getD .empty)).find? name := rfl

theorem annotationAt?_eq (n : Node) (name : String) :
    n.annotationAt? name = (n.annotations.getD .empty).find? name := by
  unfold annotationAt?
  cases n.annotations <;> rfl

/-- An annotation that a change leaves, whatever the others are, is as it was. -/
theorem annotationAt?_changeAnnotations_of_find? {change : TextMap → TextMap} {name : String}
    (h : ∀ a, (change a).find? name = a.find? name) (n : Node) :
    (n.changeAnnotations change).annotationAt? name = n.annotationAt? name := by
  rw [annotationAt?_changeAnnotations, annotationAt?_eq, h]

theorem member?_changeMembers (h : Recovers value? value) (change : SortedMap String α → SortedMap String α)
    (network : String) (n : Node) :
    (n.changeAnnotations (TextMap.changeMembers key value? value change)).member? key value? network =
      .ok ((change (TextMap.members key value? (n.annotations.getD .empty))).find? network) := by
  unfold member?
  rw [annotationAt?_changeAnnotations, TextMap.find?_changeMembers]
  generalize change (TextMap.members key value? (n.annotations.getD .empty)) = changed
  split
  · rename_i hnone
    split at hnone
    · rename_i hempty
      rw [SortedMap.eq_empty_of_isEmpty hempty, SortedMap.find?_empty]
    · cases hnone
  · rename_i text hsome
    split at hsome
    · cases hsome
    · obtain rfl := Option.some.inj hsome
      rw [h.decodeMembers_toString]

theorem member?_congr {n m : Node} (h : n.annotationAt? key.text = m.annotationAt? key.text)
    (network : String) : n.member? key value? network = m.member? key value? network := by
  unfold member?
  rw [h]

/-! ## Subnets -/

theorem readSubnet_toString (key : AnnotationKey) (c : Cidr) : readSubnet key c.toString = .ok c := by
  unfold readSubnet Cidr.toString
  rw [String.toList_ofList, Cidr.trim_write]
  dsimp only
  rw [Cidr.read_write]

theorem readSubnets_map_toString (key : AnnotationKey) (l : List Cidr) :
    readSubnets key (l.map Cidr.toString) = .ok l := by
  induction l with
  | nil => rfl
  | cons c l ih => rw [List.map_cons, readSubnets, readSubnet_toString, ih]

theorem subnets?_congr {n m : Node}
    (h : n.annotationAt? AnnotationKey.subnets.text = m.annotationAt? AnnotationKey.subnets.text)
    (network : String) : n.subnets? network = m.subnets? network := by
  unfold subnets?
  rw [member?_congr h]

/-- **Subnets that were set are what the node declares**, none of them being no declaration. -/
theorem subnets?_setSubnets (network : String) (l : List Cidr) (n : Node) :
    (n.changeAnnotations (TextMap.setSubnets network l)).subnets? network =
      .ok (if l = [] then none else some l) := by
  unfold subnets? TextMap.setSubnets
  rw [member?_changeMembers recovers_texts]
  by_cases hl : l = []
  · rw [if_pos hl, if_pos hl, SortedMap.find?_erase, if_pos rfl]
  · rw [if_neg hl, if_neg hl, SortedMap.find?_insert, if_pos rfl]
    dsimp only
    rw [readSubnets_map_toString]

theorem subnets?_setNetworkId (network other : String) (id : Int) (n : Node) :
    (n.changeAnnotations (TextMap.setNetworkId other id)).subnets? network = n.subnets? network := by
  refine subnets?_congr (annotationAt?_changeAnnotations_of_find? ?_ n) network
  exact TextMap.find?_setNetworkId_of_ne (by decide)

theorem subnets?_setOverlaySubnet (network : String) (subnet : Cidr) (n : Node) :
    (n.changeAnnotations (TextMap.setOverlaySubnet subnet)).subnets? network = n.subnets? network := by
  refine subnets?_congr (annotationAt?_changeAnnotations_of_find? ?_ n) network
  exact TextMap.find?_setOverlaySubnet_of_ne (by decide)

/-! ## Network ids -/

/-- **An id that was set is what the node declares**, the reserved one being no declaration. -/
theorem networkId?_setNetworkId (network : String) {id : Int} (hid : Network.IsId id) (n : Node) :
    (n.changeAnnotations (TextMap.setNetworkId network id)).networkId? network =
      .ok (if id = Network.reservedId then none else some id) := by
  unfold networkId? TextMap.setNetworkId
  rw [member?_changeMembers recovers_text]
  by_cases hreserved : id = Network.reservedId
  · rw [if_pos hreserved, if_pos hreserved, SortedMap.find?_erase, if_pos rfl]
  · rw [if_neg hreserved, if_neg hreserved, SortedMap.find?_insert, if_pos rfl]
    dsimp only
    rw [String.toList_ofList, Text.readInt_showInt hid.1 hid.2]

/-! ## The subnet of the overlay -/

theorem overlaySubnet?_setOverlaySubnet (subnet : Cidr) (n : Node) :
    (n.changeAnnotations (TextMap.setOverlaySubnet subnet)).overlaySubnet? = .ok (some subnet) := by
  unfold overlaySubnet? TextMap.setOverlaySubnet
  rw [annotationAt?_changeAnnotations, SortedMap.find?_insert, if_pos rfl]
  dsimp only
  rw [readSubnet_toString]

/-! ## All declarations -/

/-- **A node declares what was set**, whatever its annotations were before; no subnets and the reserved id are no
declaration. -/
theorem declares_what_was_set (network : String) (n : Node) :
    (∀ subnets, (n.changeAnnotations (TextMap.setSubnets network subnets)).subnets? network =
        .ok (if subnets = [] then none else some subnets)) ∧
      (∀ id, Network.IsId id → (n.changeAnnotations (TextMap.setNetworkId network id)).networkId? network =
        .ok (if id = Network.reservedId then none else some id)) ∧
      ∀ subnet, (n.changeAnnotations (TextMap.setOverlaySubnet subnet)).overlaySubnet? = .ok (some subnet) :=
  ⟨fun subnets => subnets?_setSubnets network subnets n, fun _ hid => networkId?_setNetworkId network hid n,
    fun subnet => overlaySubnet?_setOverlaySubnet subnet n⟩

/-- A node with annotations that cannot be decoded. -/
def scribbled : Node :=
  { Node.named "a" with annotations := some (SortedMap.ofList
      [(AnnotationKey.subnets.text, "[1,2"), (AnnotationKey.networkIds.text, "\x7b\x22default\x22:0\x7d")]) }

/-- A network with quotes and a line feed in its name, the smallest id, and an IPv4-mapped subnet twice. -/
theorem scribbled_declares :
    let network := "\x22blue\x22\n"
    let mapped : Cidr := ⟨.v6, 0xffff0a000001, 120, by decide, by decide⟩
    Network.IsId (-2 ^ 31) ∧
      (scribbled.changeAnnotations (TextMap.setNetworkId network (-2 ^ 31))).networkId? network =
        .ok (some (-2 ^ 31)) ∧
      (scribbled.changeAnnotations (TextMap.setSubnets network [mapped, mapped])).subnets? network =
        .ok (some [mapped, mapped]) := by
  intro network mapped
  obtain ⟨hsubnets, hids, -⟩ := declares_what_was_set network scribbled
  refine ⟨by decide, ?_, ?_⟩
  · rw [hids (-2 ^ 31) (by decide), if_neg (by decide)]
  · rw [hsubnets, if_neg (by simp)]

end Node

end HostSubnets
