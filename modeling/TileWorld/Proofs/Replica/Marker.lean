import TileWorld.Proofs.Text.Naming
import TileWorld.Proofs.World.Made
import TileWorld.Replica

/-! # Markers and their ids -/

namespace TileWorld

/-! ## Ids -/

/-- The ids that are kept for markers. -/
def Reserved (id : String) : Prop := "gfx-".toList <+: id.toList

instance : DecidablePred Reserved := fun id =>
  inferInstanceAs (Decidable ("gfx-".toList <+: id.toList))

theorem Reserved.head? {id : String} (h : Reserved id) : id.toList.head? = some 'g' := by
  obtain ⟨rest, hrest⟩ := h
  have hfirst : "gfx-".toList.head? = some 'g' := by decide
  rw [← hrest, List.head?_append, hfirst, Option.some_or]

namespace Replica

theorem reserved_markerId (kind : String) (number : Nat) : Reserved (markerId kind number) := by
  simp [Reserved, markerId]

/-- The word is read off up to the hyphen, and the number behind it. -/
theorem markerId_inj {word word' : String} {n n' : Nat} (hword : '-' ∉ word.toList)
    (h : markerId word n = markerId word' n') : word = word' ∧ n = n' := by
  obtain ⟨hwords, hnumbers⟩ := hyphenated_inj hword (hyphen_not_mem_toString n) h
  exact ⟨hwords, toString_inj hnumbers⟩

/-- The ids of the first `n` markers. -/
def Numbered (n : Nat) (id : String) : Prop :=
  ∃ word number, '-' ∉ word.toList ∧ number ≤ n ∧ id = markerId word number

theorem Numbered.mono {m n : Nat} {id : String} (h : Numbered m id) (hle : m ≤ n) :
    Numbered n id := by
  obtain ⟨word, number, hword, hnumber, rfl⟩ := h
  exact ⟨word, number, hword, hnumber.trans hle, rfl⟩

theorem not_numbered_markerId {n number : Nat} (hlt : n < number) (word : String) :
    ¬ Numbered n (markerId word number) := by
  rintro ⟨word', number', hword', hle, heq⟩
  have := (markerId_inj hword' heq.symm).2
  omega

/-! ## Placing markers -/

/-- The marker that an id is made for. -/
def marker (kind : Kind) (word : String) (number : Nat) (p : Point) (decay : Float) : Object :=
  { Object.ofKind kind (markerId word number) p with persistent := false, decay := some decay }

/-- The markers of a route that is told after `n` others. -/
def pathMarkers (n : Nat) (path : List Point) (now : Float) : List Object :=
  path.mapIdx fun i p => marker .pathPoint "path" (n + i + 1) p (now + pathDecay)

def clickMarker (n : Nat) (p : Point) (now : Float) : Object :=
  marker .clickPointer "click" (n + 1) p (now + clickDecay)

variable {r : Replica}

theorem addMarker_eq (r : Replica) (kind : Kind) (hkind : kind ≠ .wall) (word : String) (p : Point)
    (decay : Float) :
    r.addMarker kind word p decay =
      { r with
        world := r.world.insert (marker kind word (r.markers + 1) p decay)
        markers := r.markers + 1 } := by
  have hmade : Object.ephemeral kind (markerId word (r.markers + 1)) p decay =
      .ok (marker kind word (r.markers + 1) p decay) :=
    Object.ephemeral_eq_ok_iff.mpr ⟨beq_eq_false_iff_ne.mpr hkind, rfl⟩
  rw [addMarker]
  simp only [hmade]

theorem addPathMarkers_eq (r : Replica) (path : List Point) (now : Float) :
    r.addPathMarkers path now =
      { r with
        world := (pathMarkers r.markers path now).foldl World.insert r.world
        markers := r.markers + path.length } := by
  induction path generalizing r with
  | nil => rfl
  | cons p path ih =>
      have hrest : pathMarkers r.markers (p :: path) now =
          marker .pathPoint "path" (r.markers + 1) p (now + pathDecay) ::
            pathMarkers (r.markers + 1) path now := by
        simp only [pathMarkers, List.mapIdx_cons, Nat.add_assoc, Nat.add_comm 1]
      have hstep : r.addPathMarkers (p :: path) now =
          (r.addMarker .pathPoint "path" p (now + pathDecay)).addPathMarkers path now := rfl
      rw [hstep, ih, addMarker_eq r _ (by decide), hrest, List.foldl_cons, List.length_cons]
      simp only [Nat.add_assoc, Nat.add_comm 1]

theorem id_of_getElem?_pathMarkers {n i : Nat} {path : List Point} {now : Float} {x : Object}
    (h : (pathMarkers n path now)[i]? = some x) : x.id = markerId "path" (n + i + 1) := by
  rw [pathMarkers, List.getElem?_mapIdx] at h
  obtain ⟨p, -, rfl⟩ := Option.map_eq_some_iff.mp h
  rfl

end Replica

end TileWorld
