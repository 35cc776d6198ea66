import Quorum.Object.Parked
import Mathlib.Data.List.Flatten
import Quorum.SortedMap

namespace Quorum

/-- The notifications of a kind are those that objects give: in the same order at every object, and
    no others. -/
structure Relayed (kind : String) (given : String → List Notification)
    (notes : List Notification) : Prop where
  sublist : ∀ name, (given name).Sublist notes
  exists_mem : ∀ note ∈ notes, note.kind = kind → ∃ name, note ∈ given name

namespace Relayed

variable {kind : String} {given : String → List Notification}

/-- Where no object gives anything, only calls of other kinds are answered. -/
theorem of_nothing {notes : List Notification} (hgiven : ∀ name, given name = [])
    (hnotes : ∀ note ∈ notes, note.kind ≠ kind) : Relayed kind given notes where
  sublist name := by
    rw [hgiven]
    exact List.nil_sublist _
  exists_mem note hmem hkind := absurd hkind (hnotes note hmem)

/-- Where no object gives notifications, none are relayed. -/
theorem of_silence (hgiven : ∀ name, given name = []) : Relayed kind given [] :=
  .of_nothing hgiven fun _ hmem => absurd hmem List.not_mem_nil

/-- Where only one object gives something, that is all there is. -/
theorem of_one (name : String) (hothers : ∀ other, name ≠ other → given other = []) :
    Relayed kind given (given name) where
  sublist other := by
    by_cases heq : name = other
    · exact heq ▸ List.Sublist.refl _
    · rw [hothers other heq]
      exact List.nil_sublist _
  exists_mem note hmem _ := ⟨name, hmem⟩

/-- A sweep over all objects, in the order of names, between calls of other kinds and before what
    comes later. -/
theorem sweep {α : Type} {objects : SortedMap String α} {f : String → α → List Notification}
    {earlier others later : List Notification} {givenLater : String → List Notification}
    (hgiven : ∀ name, given name = ((objects.get? name).map (f name)).getD [] ++ givenLater name)
    (hearlier : ∀ note ∈ earlier, note.kind ≠ kind) (hothers : ∀ note ∈ others, note.kind ≠ kind)
    (hlater : Relayed kind givenLater later) :
    Relayed kind given
      (earlier ++ (objects.entries.flatMap fun entry => f entry.1 entry.2) ++ others ++ later) := by
  constructor
  · intro name
    rw [hgiven]
    refine List.Sublist.append ?_ (hlater.sublist name)
    refine List.Sublist.trans ?_ (List.sublist_append_left _ others)
    refine List.Sublist.trans ?_ (List.sublist_append_right earlier _)
    cases hget : objects.get? name with
    | none => exact List.nil_sublist _
    | some object =>
      have hmem : (name, object) ∈ objects.entries := SortedMap.mem_of_get? hget
      have hsub := (List.singleton_sublist.mpr hmem).flatMap fun entry => f entry.1 entry.2
      rwa [List.flatMap_singleton] at hsub
  · intro note hmem hkind
    simp only [List.mem_append, or_assoc] at hmem
    rcases hmem with hbefore | hswept | hother | hlast
    · exact absurd hkind (hearlier note hbefore)
    · obtain ⟨⟨name, object⟩, hentry, hnote⟩ := List.mem_flatMap.mp hswept
      refine ⟨name, ?_⟩
      rw [hgiven, SortedMap.get?_of_mem hentry]
      exact List.mem_append_left _ hnote
    · exact absurd hkind (hothers note hother)
    · obtain ⟨name, hnote⟩ := hlater.exists_mem note hlast hkind
      refine ⟨name, ?_⟩
      rw [hgiven]
      exact List.mem_append_right _ hnote

end Relayed

end Quorum
