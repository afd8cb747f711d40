import CertificateAudit.Der.Element
import CertificateAudit.Proofs.Traversal

/-!
Kinds and tags of decoded elements. Looking into an element chooses the kind of every leaf by its
tag, so whoever finds a leaf of a kind with a number of its own, however deep inside, knows the tag
it stood under (`isTagged_of_read`).
-/

namespace CertificateAudit.Der

/-- The universal tag number of a kind of leaf, where there is only one. -/
def Leaf.number? : Leaf → Option Nat
  | .integer _ => some 2
  | .bitString _ _ => some 3
  | .octetString _ => some 4
  | .objectId _ => some 6
  | .enumerated _ => some 10
  | .relativeObjectId _ => some 13
  | .characters _ | .raw _ | .other => none

/-- The tag is one that a leaf of this kind may have. -/
def Leaf.Fits (tag : Tag) (content : Leaf) : Prop :=
  ∀ number, content.number? = some number → tag = ⟨.universal, number⟩

theorem number?_of_leafOf {number : Nat} {constructed : Bool} {bytes : List UInt8}
    {content : Leaf} (chosen : leafOf number constructed bytes = some content) :
    content.number? = none ∨ content.number? = some number := by
  unfold leafOf at chosen
  split at chosen
  all_goals grind [Leaf.number?, Option.map_eq_some_iff]

namespace Element

/-- Every leaf of the element, at any depth, has a tag of its kind. -/
inductive IsTagged : Element → Prop where
  | leaf {tag content} : content.Fits tag → IsTagged (.leaf tag content)
  | sequence {items} : (∀ item ∈ items, IsTagged item) → IsTagged (.sequence items)
  | set {items} : (∀ item ∈ items, IsTagged item) → IsTagged (.set items)

theorem isTagged_of_ofItem {depth : Nat} {item : Item} {element : Element}
    (looked : ofItem depth item = some element) : element.IsTagged := by
  induction depth generalizing item element with
  | zero => cases looked
  | succ depth inductionHypothesis =>
      unfold ofItem at looked
      split at looked
      case isTrue otherwise =>
        obtain rfl := Option.some.inj looked
        exact .leaf fun number known => nomatch known
      case isFalse universal =>
        split at looked
        case isTrue collection =>
          split at looked
          case isTrue constructed =>
            obtain ⟨inner, _, looked⟩ := Option.bind_eq_some_iff.mp looked
            obtain ⟨items, each, looked⟩ := Option.bind_eq_some_iff.mp looked
            have tagged : ∀ item ∈ items, item.IsTagged := by
              intro item membership
              obtain ⟨source, _, read⟩ := exists_of_mem_mapM each membership
              exact inductionHypothesis read
            obtain rfl := Option.some.inj looked
            split
            case isTrue => exact .sequence tagged
            case isFalse => exact .set tagged
          case isFalse => cases looked
        case isFalse =>
          obtain ⟨content, chosen, rfl⟩ := Option.map_eq_some_iff.mp looked
          refine .leaf fun number known => ?_
          rcases number?_of_leafOf chosen with unknown | same
          · cases unknown.symm.trans known
          · cases same.symm.trans known
            have cls : item.tag.cls = .universal := of_not_not universal
            rw [← cls]

theorem isTagged_of_read {bytes rest : List UInt8} {element : Element}
    (reads : read bytes = some (element, rest)) : element.IsTagged := by
  obtain ⟨⟨item, behind⟩, _, reads⟩ := Option.bind_eq_some_iff.mp reads
  dsimp only at reads
  split at reads
  case isTrue =>
    obtain ⟨found, looked, reads⟩ := Option.bind_eq_some_iff.mp reads
    cases reads
    exact isTagged_of_ofItem looked
  case isFalse => cases reads

theorem IsTagged.fits {tag : Tag} {content : Leaf} (tagged : IsTagged (.leaf tag content)) :
    content.Fits tag := by
  cases tagged with
  | leaf fits => exact fits

theorem IsTagged.item {items : List Element} (tagged : IsTagged (.sequence items))
    {item : Element} (membership : item ∈ items) : item.IsTagged := by
  cases tagged with
  | sequence each => exact each item membership

end Element

end CertificateAudit.Der
