import HostSubnets.Proofs.Node.Annotations

/-!
# Networks side by side

All networks of a node share its annotations. Setting what the node declares for one of them writes a whole annotation
anew: the others read the same afterwards, only that an annotation that could not be decoded is gone
(`other_networks_undisturbed`, `Node.renewed`). In which order networks are set makes no difference to the text, and of
two settings for one network the later counts (`settings_commute`).

A change of an annotation is a change of its members (`members_changeMembers`), so changes compose as those of the
members do, each of which settles what is at one network (`assigns_subnets`, `assigns_networkId`).
-/

namespace HostSubnets

open SortedMap (Assigns)

variable {α β : Type} {key key' : AnnotationKey} {value? : Json → Option α} {value : α → Json}
  {value?' : Json → Option β} {value' : β → Json}

/-! ## Changes of annotations -/

namespace TextMap

theorem members_congr {a b : TextMap} (h : a.find? key.text = b.find? key.text) :
    members key value? a = members key value? b := by
  unfold members
  rw [h]

theorem members_changeMembers (h : Recovers value? value) (change : SortedMap String α → SortedMap String α)
    (a : TextMap) :
    members key value? (changeMembers key value? value change a) = change (members key value? a) := by
  rw [members, find?_changeMembers]
  generalize change (members key value? a) = changed
  split
  · rename_i hempty
    exact (SortedMap.eq_empty_of_isEmpty hempty).symm
  · rw [Option.bind_some, h.decodeMembers_toString, Option.getD_some]

/-- Two changes of one annotation are one change of its members. -/
theorem changeMembers_changeMembers (h : Recovers value? value)
    (change change' : SortedMap String α → SortedMap String α) (a : TextMap) :
    changeMembers key value? value change' (changeMembers key value? value change a) =
      changeMembers key value? value (change' ∘ change) a := by
  refine SortedMap.ext_find? fun name => ?_
  by_cases hname : name = key.text
  · subst hname
    rw [find?_changeMembers, find?_changeMembers, members_changeMembers h, Function.comp_apply]
  · rw [find?_changeMembers_of_ne hname, find?_changeMembers_of_ne hname, find?_changeMembers_of_ne hname]

theorem changeMembers_comm (h : key ≠ key') (change : SortedMap String α → SortedMap String α)
    (change' : SortedMap String β → SortedMap String β) (a : TextMap) :
    changeMembers key' value?' value' change' (changeMembers key value? value change a) =
      changeMembers key value? value change (changeMembers key' value?' value' change' a) := by
  have hne : key.text ≠ key'.text := fun heq => h (AnnotationKey.text_injective heq)
  have hleft : members key' value?' (changeMembers key value? value change a) = members key' value?' a :=
    members_congr (find?_changeMembers_of_ne hne.symm a)
  have hright : members key value? (changeMembers key' value?' value' change' a) = members key value? a :=
    members_congr (find?_changeMembers_of_ne hne a)
  refine SortedMap.ext_find? fun name => ?_
  by_cases hname : name = key.text
  · subst hname
    rw [find?_changeMembers_of_ne hne, find?_changeMembers, find?_changeMembers, hright]
  · rw [find?_changeMembers_of_ne hname]
    by_cases hname' : name = key'.text
    · subst hname'
      rw [find?_changeMembers, find?_changeMembers, hleft]
    · rw [find?_changeMembers_of_ne hname', find?_changeMembers_of_ne hname', find?_changeMembers_of_ne hname]

section Assigns

variable {network other : String} {setting setting' : Option α}
  {change change' : SortedMap String α → SortedMap String α}

theorem changeMembers_comm_of_assigns (h : Recovers value? value) (hchange : Assigns network setting change)
    (hchange' : Assigns other setting' change') (hne : network ≠ other) (a : TextMap) :
    changeMembers key value? value change' (changeMembers key value? value change a) =
      changeMembers key value? value change (changeMembers key value? value change' a) := by
  rw [changeMembers_changeMembers h, changeMembers_changeMembers h, hchange.comm hchange' hne]

theorem changeMembers_absorb (h : Recovers value? value) (hchange : Assigns network setting change)
    (hchange' : Assigns network setting' change') (a : TextMap) :
    changeMembers key value? value change' (changeMembers key value? value change a) =
      changeMembers key value? value change' a := by
  rw [changeMembers_changeMembers h, hchange.comp_eq hchange']

end Assigns

/-! ## What is set -/

theorem assigns_subnets (network : String) (subnets : List Cidr) :
    Assigns network (if subnets = [] then none else some (subnets.map Cidr.toString))
      fun members : SortedMap String (List String) =>
        if subnets = [] then members.erase network else members.insert network (subnets.map Cidr.toString) := by
  by_cases h : subnets = []
  · simp only [if_pos h]
    exact SortedMap.assigns_erase network
  · simp only [if_neg h]
    exact SortedMap.assigns_insert network _

theorem assigns_networkId (network : String) (id : Int) :
    Assigns network (if id = Network.reservedId then none else some (String.ofList (Text.showInt id)))
      fun members : SortedMap String String =>
        if id = Network.reservedId then members.erase network
        else members.insert network (String.ofList (Text.showInt id)) := by
  by_cases h : id = Network.reservedId
  · simp only [if_pos h]
    exact SortedMap.assigns_erase network
  · simp only [if_neg h]
    exact SortedMap.assigns_insert network _

/-- **Networks may be set in any order**, with the same text in the end, and subnets before or after ids; for one
network the last setting counts. -/
theorem settings_commute (network other : String) (subnets subnets' : List Cidr) (id id' : Int) (a : TextMap) :
    (network ≠ other →
        setSubnets other subnets' (setSubnets network subnets a) =
            setSubnets network subnets (setSubnets other subnets' a) ∧
          setNetworkId other id' (setNetworkId network id a) = setNetworkId network id (setNetworkId other id' a)) ∧
      setSubnets network subnets' (setSubnets network subnets a) = setSubnets network subnets' a ∧
      setNetworkId network id' (setNetworkId network id a) = setNetworkId network id' a ∧
      setNetworkId other id (setSubnets network subnets a) = setSubnets network subnets (setNetworkId other id a) := by
  have hsubnets := assigns_subnets network subnets
  have hid := assigns_networkId network id
  refine ⟨fun hne => ⟨?_, ?_⟩, ?_, ?_, ?_⟩
  · exact changeMembers_comm_of_assigns recovers_texts hsubnets (assigns_subnets other subnets') hne a
  · exact changeMembers_comm_of_assigns recovers_text hid (assigns_networkId other id') hne a
  · exact changeMembers_absorb recovers_texts hsubnets (assigns_subnets network subnets') a
  · exact changeMembers_absorb recovers_text hid (assigns_networkId network id') a
  · exact changeMembers_comm (by decide) _ _ a

/-- A text that cannot be decoded is replaced by one network and removed by another, in either order. -/
theorem scribble_replaced :
    let a : TextMap := SortedMap.ofList [(AnnotationKey.subnets.text, "garbage")]
    let subnet : Cidr := ⟨.v4, 167772160, 24, by decide, by decide⟩
    "blue" ≠ "red" ∧ setSubnets "red" [subnet] (setSubnets "blue" [] a) =
      setSubnets "blue" [] (setSubnets "red" [subnet] a) := by
  intro a subnet
  have hne : "blue" ≠ "red" := by decide
  exact ⟨hne, ((settings_commute "blue" "red" [] [subnet] 0 0 a).1 hne).1⟩

end TextMap

/-! ## What is read of other networks -/

namespace Node

/-- What is read after the annotation was written anew: one that could not be decoded is none any more. -/
def renewed {α : Type} : Except AnnotationError (Option α) → Except AnnotationError (Option α)
  | .error (.undecodable _) => .ok none
  | declared => declared

theorem renewed_member? (network : String) (n : Node) :
    renewed (n.member? key value? network) =
      .ok ((TextMap.members key value? (n.annotations.getD .empty)).find? network) := by
  unfold member? TextMap.members
  rw [annotationAt?_eq]
  cases (n.annotations.getD .empty).find? key.text with
  | none => rfl
  | some text =>
    rw [Option.bind_some]
    dsimp only
    cases decodeMembers value? text with
    | none => rfl
    | some members => rfl

theorem member?_changeMembers_of_ne (h : Recovers value? value) {network other : String} {setting : Option α}
    {change : SortedMap String α → SortedMap String α} (hchange : Assigns network setting change)
    (hne : other ≠ network) (n : Node) :
    (n.changeAnnotations (TextMap.changeMembers key value? value change)).member? key value? other =
      renewed (n.member? key value? other) := by
  rw [member?_changeMembers h, hchange.find?_of_ne _ hne, renewed_member?]

theorem readSubnets_ne_undecodable (key key' : AnnotationKey) (texts : List String) :
    readSubnets key texts ≠ .error (.undecodable key') := by
  induction texts with
  | nil => exact fun h => by cases h
  | cons text rest ih =>
    unfold readSubnets readSubnet
    dsimp only
    cases Cidr.read (Text.trim text.toList) with
    | none => exact fun h => by cases h
    | some subnet =>
      cases hrest : readSubnets key rest with
      | error e =>
        intro h
        obtain rfl := Except.error.inj h
        exact ih hrest
      | ok subnets => exact fun h => by cases h

theorem subnets?_renewed {m n : Node} {network : String}
    (h : m.member? .subnets Json.texts? network = renewed (n.member? .subnets Json.texts? network)) :
    m.subnets? network = renewed (n.subnets? network) := by
  unfold subnets?
  rw [h]
  rcases n.member? .subnets Json.texts? network with e | texts?
  · cases e <;> rfl
  · cases texts? with
    | none => rfl
    | some texts =>
      dsimp only [renewed]
      cases hread : readSubnets .subnets texts with
      | error e =>
        cases e with
        | undecodable key => exact absurd hread (readSubnets_ne_undecodable _ key texts)
        | invalid => rfl
      | ok subnets => rfl

theorem networkId?_renewed {m n : Node} {network : String}
    (h : m.member? .networkIds Json.text? network = renewed (n.member? .networkIds Json.text? network)) :
    m.networkId? network = renewed (n.networkId? network) := by
  unfold networkId?
  rw [h]
  rcases n.member? .networkIds Json.text? network with e | text?
  · cases e <;> rfl
  · cases text? with
    | none => rfl
    | some text =>
      dsimp only [renewed]
      cases Text.readInt 32 text.toList <;> rfl

theorem subnets?_setSubnets_of_ne {network other : String} (h : other ≠ network) (subnets : List Cidr) (n : Node) :
    (n.changeAnnotations (TextMap.setSubnets network subnets)).subnets? other = renewed (n.subnets? other) :=
  subnets?_renewed (member?_changeMembers_of_ne recovers_texts (TextMap.assigns_subnets network subnets) h n)

theorem networkId?_setNetworkId_of_ne {network other : String} (h : other ≠ network) (id : Int) (n : Node) :
    (n.changeAnnotations (TextMap.setNetworkId network id)).networkId? other = renewed (n.networkId? other) :=
  networkId?_renewed (member?_changeMembers_of_ne recovers_text (TextMap.assigns_networkId network id) h n)

theorem networkId?_setSubnets (network other : String) (subnets : List Cidr) (n : Node) :
    (n.changeAnnotations (TextMap.setSubnets other subnets)).networkId? network = n.networkId? network := by
  unfold networkId?
  rw [member?_congr (annotationAt?_changeAnnotations_of_find? (TextMap.find?_setSubnets_of_ne (by decide)) n)]

/-- **Setting what a node declares for one network does not disturb the others.** Their subnets and ids, and what is
wrong with them, are read as before, and every annotation but the one that is set keeps its text. -/
theorem other_networks_undisturbed {network other : String} (h : other ≠ network) (n : Node) :
    (∀ subnets, (n.changeAnnotations (TextMap.setSubnets network subnets)).subnets? other =
        renewed (n.subnets? other)) ∧
      (∀ id, (n.changeAnnotations (TextMap.setNetworkId network id)).networkId? other =
        renewed (n.networkId? other)) ∧
      (∀ subnets name, name ≠ AnnotationKey.subnets.text →
        (n.changeAnnotations (TextMap.setSubnets network subnets)).annotationAt? name = n.annotationAt? name) ∧
      (∀ id name, name ≠ AnnotationKey.networkIds.text →
        (n.changeAnnotations (TextMap.setNetworkId network id)).annotationAt? name = n.annotationAt? name) ∧
      ∀ subnet name, name ≠ AnnotationKey.overlaySubnet.text →
        (n.changeAnnotations (TextMap.setOverlaySubnet subnet)).annotationAt? name = n.annotationAt? name := by
  refine ⟨fun subnets => subnets?_renewed ?_, fun id => networkId?_renewed ?_, fun subnets name hname => ?_,
    fun id name hname => ?_, fun subnet name hname => ?_⟩
  · exact member?_changeMembers_of_ne recovers_texts (TextMap.assigns_subnets network subnets) h n
  · exact member?_changeMembers_of_ne recovers_text (TextMap.assigns_networkId network id) h n
  · exact annotationAt?_changeAnnotations_of_find? (TextMap.find?_setSubnets_of_ne hname) n
  · exact annotationAt?_changeAnnotations_of_find? (TextMap.find?_setNetworkId_of_ne hname) n
  · exact annotationAt?_changeAnnotations_of_find? (TextMap.find?_setOverlaySubnet_of_ne hname) n

/-- A node with a single subnet where a list is usual, and with a text that is no subnet. -/
def handwritten : Node :=
  { Node.named "a" with annotations := some (SortedMap.ofList [(AnnotationKey.subnets.text,
      " \x7b\x22red\x22: [\x22x \x22], \x22blue\x22: \x2210.0.1.0/24\x22\x7d")]) }

/-- A third network makes a list of the one, and leaves the error of the other. -/
theorem handwritten_undisturbed :
    let subnet : Cidr := ⟨.v4, 167772160, 24, by decide, by decide⟩
    let after := handwritten.changeAnnotations (TextMap.setSubnets "default" [subnet])
    "blue" ≠ "default" ∧ "red" ≠ "default" ∧
      after.subnets? "blue" = .ok (some [⟨.v4, 167772416, 24, by decide, by decide⟩]) ∧
      after.subnets? "red" = .error (.invalid .subnets "x " "invalid address: x") := by
  intro subnet after
  have hblue : "blue" ≠ "default" := by decide
  have hred : "red" ≠ "default" := by decide
  refine ⟨hblue, hred, ?_, ?_⟩
  · exact ((other_networks_undisturbed hblue handwritten).1 [subnet]).trans (by decide +kernel)
  · exact ((other_networks_undisturbed hred handwritten).1 [subnet]).trans (by decide +kernel)

end Node

end HostSubnets
