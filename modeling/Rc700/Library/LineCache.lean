import Mathlib.Data.Option.Basic
import Mathlib.Logic.Function.Basic

/-!
# A one-line write-back cache

This module is about a cache that holds one line of a backing store, over
arbitrary types of line names, positions inside a line and values.  What the
cache has to present is a *demand*: a partial function from line and position
to the value a reader must find there.  Positions on which the demand is
undefined are unconstrained.

* `Coherent` says that the cached line, when it is valid, and the backing
  store, outside the dirty line, present the demand;
* every operation of such a cache (write back, invalidate, fetch, claim a line
  without fetching it, put a value) keeps coherence under the side condition
  stated in its lemma.

The side condition of `Coherent.claim` is the interesting one: a line may be
taken over without reading it from the store exactly when the buffer already
presents everything that is demanded of that line.
-/

namespace Rc700
namespace Library

/-- One cached line over a backing store. -/
structure LineCache (Line Pos Val : Type*) where
  valid : Bool
  dirty : Bool
  tag : Line
  line : Pos → Val
  store : Line → Pos → Val

namespace LineCache

variable {Line Pos Val : Type*} {demand demand' : Line → Pos → Option Val}
  {cache cache' : LineCache Line Pos Val}

/-- The cache presents `demand`: in the line while it is valid or still has to
be written back, in the backing store everywhere but in a line whose newest
contents are only in the cache. -/
structure Coherent (demand : Line → Pos → Option Val)
    (cache : LineCache Line Pos Val) : Prop where
  line_eq : cache.valid = true ∨ cache.dirty = true → ∀ pos value,
    demand cache.tag pos = some value → cache.line pos = value
  store_eq : ∀ line pos value, demand line pos = some value →
    ¬ (cache.valid = true ∧ cache.dirty = true ∧ line = cache.tag) →
    cache.store line pos = value

/-- Nothing is demanded: every cache is coherent. -/
theorem Coherent.of_none (cache : LineCache Line Pos Val) :
    Coherent (fun _ _ => none) cache := by
  constructor
  · intro _ pos value hdemand
    exact absurd hdemand (by simp)
  · intro line pos value hdemand
    exact absurd hdemand (by simp)

/-- Asking for less keeps coherence. -/
theorem Coherent.weaken (hcache : Coherent demand cache)
    (hle : ∀ line pos value, demand' line pos = some value →
      demand line pos = some value) :
    Coherent demand' cache :=
  ⟨fun hline pos value hdemand =>
      hcache.line_eq hline pos value (hle cache.tag pos value hdemand),
    fun line pos value hdemand =>
      hcache.store_eq line pos value (hle line pos value hdemand)⟩

/-- After writing the line back the whole demand is in the backing store. -/
theorem Coherent.store_of_writeBack (hcache : Coherent demand cache)
    (hwas : cache.valid = true ∨ cache.dirty = true)
    (hhit : ∀ pos, demand cache.tag pos ≠ none →
      cache'.store cache.tag pos = cache.line pos)
    (hmiss : ∀ line pos, line ≠ cache.tag → demand line pos ≠ none →
      cache'.store line pos = cache.store line pos)
    (line : Line) (pos : Pos) (value : Val)
    (hdemand : demand line pos = some value) :
    cache'.store line pos = value := by
  have hsome : demand line pos ≠ none := by
    rw [hdemand]
    exact Option.some_ne_none value
  by_cases hsame : line = cache.tag
  · subst hsame
    rw [hhit pos hsome]
    exact hcache.line_eq hwas pos value hdemand
  · rw [hmiss line pos hsame hsome]
    exact hcache.store_eq line pos value hdemand (fun h => hsame h.2.2)

/-- A line that is not both valid and dirty leaves the whole demand in the
backing store. -/
theorem Coherent.store_of_clean (hcache : Coherent demand cache)
    (hclean : ¬ (cache.valid = true ∧ cache.dirty = true))
    (line : Line) (pos : Pos) (value : Val)
    (hdemand : demand line pos = some value) :
    cache.store line pos = value :=
  hcache.store_eq line pos value hdemand (fun h => hclean ⟨h.1, h.2.1⟩)

/-- A new line may be claimed over a backing store that presents the demand,
as long as the buffer presents what is demanded of the new line: because it
was just fetched, because nothing is demanded there, or because the buffer
still holds it. -/
theorem Coherent.claim
    (hall : ∀ line pos value, demand line pos = some value →
      cache'.store line pos = value)
    (hline : ∀ pos value, demand cache'.tag pos = some value →
      cache'.line pos = value) :
    Coherent demand cache' := by
  constructor
  · intro _ pos value hdemand
    exact hline pos value hdemand
  · intro line pos value hdemand _
    exact hall line pos value hdemand

/-- Putting a value into the valid line makes it dirty and changes the demand
at that position only. -/
theorem Coherent.put (hcache : Coherent demand cache) (hwas : cache.valid = true)
    (position : Pos) (hvalid : cache'.valid = true) (hdirty : cache'.dirty = true)
    (htag : cache'.tag = cache.tag) (hstore : cache'.store = cache.store)
    (hother : ∀ pos, pos ≠ position → cache'.line pos = cache.line pos)
    (hdemand : ∀ line pos value, demand' line pos = some value →
      (line = cache.tag ∧ pos = position ∧ cache'.line position = value) ∨
        ((line ≠ cache.tag ∨ pos ≠ position) ∧ demand line pos = some value)) :
    Coherent demand' cache' := by
  constructor
  · intro _ pos value hwant
    rw [htag] at hwant
    rcases hdemand cache.tag pos value hwant with ⟨_, hpos, hnew⟩ | ⟨hne, hold⟩
    · rw [hpos]
      exact hnew
    · have hpos : pos ≠ position := by
        rcases hne with hline | hpos
        · exact absurd rfl hline
        · exact hpos
      rw [hother pos hpos]
      exact hcache.line_eq (Or.inl hwas) pos value hold
  · intro line pos value hwant hclean
    rw [hvalid, hdirty, htag] at hclean
    have hmiss : line ≠ cache.tag := fun h => hclean ⟨rfl, rfl, h⟩
    rcases hdemand line pos value hwant with ⟨hline, _, _⟩ | ⟨_, hold⟩
    · exact absurd hline hmiss
    · rw [hstore]
      exact hcache.store_eq line pos value hold (fun h => hmiss h.2.2)

end LineCache

end Library
end Rc700
