import Mathlib.Data.Set.Prod
import Mathlib.Order.WellFounded

/-!
# Trees of derived keys

A key schedule derives keys from keys under labels, starting from a root. Whether two keys of it can
coincide is a question about its single steps: if no two of the steps taken have one result, and a
label tells whether the step starts from the root, then a key determines its root and its use
(`injOn_key`).

The condition on the labels excludes a root that is itself a derived key. The condition on the steps
is about the steps that are taken and not about all: a derivation into a finite type cannot be
injective on every label.
-/

/-- The uses keys are put to: what the key of a use is derived from, and under which label. -/
structure KeyTree (U L : Type*) where
  /-- The use whose key this one's is derived from; none if it is the root. -/
  parent : U → Option U
  label : U → L
  depth : U → ℕ
  depth_lt : ∀ {u p}, parent u = some p → depth p < depth u
  eq_of_step : ∀ {u u'}, parent u = parent u' → label u = label u' → u = u'
  isSome_of_label : ∀ {u u'}, label u = label u' → (parent u).isSome = (parent u').isSome

namespace KeyTree

variable {U L V : Type*} (t : KeyTree U L)

/-- What a step starts from. -/
def source (key : V → U → V) (root : V) (u : U) : V := (t.parent u).elim root (key root)

/-- Every key is derived as the tree says. -/
def Derives (f : V → L → V) (key : V → U → V) : Prop :=
  ∀ root u, key root u = f (t.source key root u) (t.label u)

/-- No two steps to these keys have one result. -/
def Separates (f : V → L → V) (key : V → U → V) (roots : Set V) (uses : Set U) : Prop :=
  Set.InjOn (fun step : V × L ↦ f step.1 step.2)
    ((fun i : V × U ↦ (t.source key i.1 i.2, t.label i.2)) '' (roots ×ˢ uses))

variable {t} {f : V → L → V} {key : V → U → V} {roots : Set V} {uses : Set U}

/-- **A key determines its root and its use**, if a step is determined by its result. -/
theorem injOn_key (hkey : t.Derives f key)
    (hclosed : ∀ {u p}, u ∈ uses → t.parent u = some p → p ∈ uses)
    (hseparates : t.Separates f key roots uses) :
    Set.InjOn (fun i : V × U ↦ key i.1 i.2) (roots ×ˢ uses) := by
  rintro ⟨root, u⟩ ⟨hroot, hu⟩ ⟨root', u'⟩ ⟨hroot', hu'⟩ hsame
  simp only at hroot hu hroot' hu' hsame
  induction hdepth : t.depth u using Nat.strong_induction_on generalizing u u' with
  | _ n ih =>
    rw [hkey, hkey] at hsame
    obtain ⟨hsource, hlabel⟩ : t.source key root u = t.source key root' u' ∧
        t.label u = t.label u' :=
      Prod.ext_iff.mp (hseparates ⟨(root, u), ⟨hroot, hu⟩, rfl⟩ ⟨(root', u'), ⟨hroot', hu'⟩, rfl⟩
        hsame)
    have hisSome := t.isSome_of_label hlabel
    rcases hparent : t.parent u with - | p <;> rcases hparent' : t.parent u' with - | p' <;>
      rw [hparent, hparent'] at hisSome
    · rw [source, source, hparent, hparent'] at hsource
      exact Prod.ext hsource (t.eq_of_step (hparent.trans hparent'.symm) hlabel)
    · cases hisSome
    · cases hisSome
    · rw [source, source, hparent, hparent'] at hsource
      have hbefore := ih _ (hdepth ▸ t.depth_lt hparent) p (hclosed hu hparent) p'
        (hclosed hu' hparent') hsource rfl
      obtain ⟨rfl, rfl⟩ := Prod.ext_iff.mp hbefore
      exact Prod.ext rfl (t.eq_of_step (hparent.trans hparent'.symm) hlabel)

end KeyTree
