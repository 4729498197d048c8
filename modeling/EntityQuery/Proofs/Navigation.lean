import EntityQuery.Resolved.Tree

/-!
# Ways to attributes

An attribute is taken from a from element, from another attribute or from an element of an indexed
collection. The way to it ends with the attribute itself; what lies before are the attributes that
it is taken from and the collections that an index selects in.

* `AttributeReference.indices`, `Expression.indices`: the indices on the way.
* `AttributeReference.throughComposites`: everything on the way is a composite.
* `PathSource.InPlace`: a way is one through composites where it has no index.
-/

namespace EntityQuery.Resolved

mutual

/-- The indices of the collection elements that an attribute is reached from. -/
def AttributeReference.indices : AttributeReference → List Expression
  | .mk source _ _ => source.indices

def PathSource.indices : PathSource → List Expression
  | .element _ => []
  | .indexed attained => attained.indices
  | .reference attained => attained.indices

def IndexedReference.indices : IndexedReference → List Expression
  | .mk collection index _ => collection.indices ++ [index]

end

/-- The indices in the source of a path. -/
def Expression.indices : Expression → List Expression
  | .reference attained => attained.indices
  | .indexed attained => attained.indices
  | _ => []

end EntityQuery.Resolved

namespace EntityQuery

/-- The values are composites, whose attributes are stored with what holds them. -/
def TypeDescriptor.isComposite : TypeDescriptor → Bool
  | composite _ => true
  | _ => false

/-- What has an index is a collection and no composite. -/
theorem TypeDescriptor.isComposite_of_index? {type : TypeDescriptor} (h : type.index?.isSome) :
    type.isComposite = false := by
  cases type <;> first | rfl | cases h

namespace Resolved

mutual

/-- Every attribute that lies on the way to the attribute is composite-valued. -/
def AttributeReference.throughComposites : AttributeReference → Bool
  | .mk source _ _ => source.throughComposites

def PathSource.throughComposites : PathSource → Bool
  | .element _ => true
  | .indexed attained => attained.throughComposites
  | .reference attained => attained.type.isComposite && attained.throughComposites

def IndexedReference.throughComposites : IndexedReference → Bool
  | .mk collection _ _ => collection.type.isComposite && collection.throughComposites

end

/-- The way to what is taken from the source leads through composites exactly where no index is on
it. -/
def PathSource.InPlace (source : PathSource) : Prop :=
  source.throughComposites = true ↔ source.indices = []

def AttributeReference.InPlace (attained : AttributeReference) : Prop := attained.source.InPlace

theorem PathSource.InPlace.element (bound : FromElement) : (PathSource.element bound).InPlace :=
  iff_of_true rfl rfl

/-- An element of a collection is behind an index. -/
theorem PathSource.InPlace.indexed {collection : AttributeReference} {index : Expression}
    {type : TypeDescriptor} (h : collection.type.index?.isSome) :
    (PathSource.indexed (.mk collection index type)).InPlace := by
  have hcollection := TypeDescriptor.isComposite_of_index? h
  simp [InPlace, throughComposites, IndexedReference.throughComposites, indices,
    IndexedReference.indices, hcollection]

/-- An attribute that is taken in place may be gone on from where it is a composite, or behind an
index. -/
theorem AttributeReference.InPlace.next {attained : AttributeReference} (h : attained.InPlace)
    (hnext : attained.type.isComposite = true ∨ attained.indices ≠ []) :
    (PathSource.reference attained).InPlace := by
  cases attained with
  | mk source declared type =>
    have hsource : source.throughComposites = true ↔ source.indices = [] := h
    have hways : type.isComposite = true ∨ source.indices ≠ [] := hnext
    change (type.isComposite && source.throughComposites) = true ↔ source.indices = []
    rw [Bool.and_eq_true, hsource]
    exact and_iff_right_of_imp fun hnone => hways.resolve_right fun hsome => hsome hnone

end Resolved
end EntityQuery
