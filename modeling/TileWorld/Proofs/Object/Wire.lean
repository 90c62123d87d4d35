import TileWorld.Proofs.Number.Widen
import TileWorld.Proofs.Object.WellFormed
import TileWorld.World.Reconcile

/-! What is told about an object is enough to make it again, its wandering apart, as long as its
numbers are finite. -/

namespace TileWorld

/-! ## Fields -/

namespace Json

theorem single?_ofSingle (x : Float32) :
    single? (ofSingle x) = if x.isFinite then some x else none := by
  rw [ofSingle, ofReal, Number.isFinite_widen]
  split
  · rename_i hx
    exact congrArg some (Number.narrow_widen hx)
  · rfl

theorem byte?_toNat (n : UInt8) : byte? (.int n.toNat) = some n := by
  have hn : n.toNat ≤ 255 := Nat.le_of_lt_succ n.toNat_lt
  simp [byte?, natUpTo?, hn]

theorem count?_ofNat {n : Nat} (hn : n < 2 ^ 64) : count? (.int n) = some n := by
  have hle : n ≤ 2 ^ 64 - 1 := Nat.le_sub_one_of_lt hn
  simp [count?, natUpTo?]
  omega

theorem list?_map {α : Type} {read : Json → Option α} {write : α → Json} {items : List α}
    (h : ∀ x ∈ items, read (write x) = some x) :
    list? read (.array (items.map write)) = some items := by
  rw [list?]
  induction items with
  | nil => rfl
  | cons x items ih =>
      rw [List.map_cons, List.mapM_cons, h x List.mem_cons_self,
        ih fun y hy => h y (List.mem_cons_of_mem x hy)]
      rfl

theorem optional_decay {decay : Option Float} (h : ∀ t ∈ decay, t.isFinite = true) :
    optional real? (decay.map ofReal) = some decay := by
  cases decay with
  | none => rfl
  | some t =>
      rw [Option.map_some, ofReal, if_pos (h t rfl)]
      rfl

end Json

theorem Point.ofJson?_toJson (p : Point) :
    Point.ofJson? p.toJson = if p.isFinite then some p else none := by
  have hfields : p.toJson.record? ["X", "Y"] =
      some [some (.ofSingle p.x), some (.ofSingle p.y)] := rfl
  rw [Point.ofJson?, hfields]
  cases hx : p.x.isFinite <;> cases hy : p.y.isFinite <;>
    simp [Json.required, Json.single?_ofSingle, Point.isFinite, hx, hy]

/-! ## Records -/

/-- A record whose numbers can be told, its place apart. -/
structure Record.Tellable (r : Record) : Prop where
  speed : r.speed.isFinite = true
  path : ∀ p ∈ r.path, p.isFinite = true
  cursor : r.cursor < 2 ^ 64
  decay : ∀ t ∈ r.decay, t.isFinite = true

theorem Record.record?_toJson (r : Record) :
    r.toJson.record? fieldNames = some [some (.string r.id), some (.ofSingle r.x),
      some (.ofSingle r.y), some (.int r.color.red.toNat), some (.int r.color.green.toNat),
      some (.int r.color.blue.toNat), some (.int r.color.alpha.toNat), some (.bool r.obstacle),
      some (.ofSingle r.speed), some (.string r.kind), some (.array (r.layers.map .string)),
      some (.array (r.path.map Point.toJson)), some (.int r.cursor), r.decay.map Json.ofReal,
      some (.bool r.persistent)] := by
  rw [Record.toJson]
  cases r.decay <;> simp [Json.record?, fieldNames, List.lookup]

theorem Record.ofJson?_toJson {r : Record} (h : r.Tellable) :
    Record.ofJson? r.toJson = if r.x.isFinite && r.y.isFinite then some r else none := by
  have hplace : ∀ x, Json.required Json.single? (some (.ofSingle x)) =
      if x.isFinite then some x else none := Json.single?_ofSingle
  have hspeed : Json.withDefault Json.single? 0 (some (.ofSingle r.speed)) = some r.speed :=
    (Json.single?_ofSingle _).trans (if_pos h.speed)
  have hbyte : ∀ n : UInt8, Json.withDefault Json.byte? 255 (some (.int n.toNat)) = some n :=
    Json.byte?_toNat
  have hcursor : Json.withDefault Json.count? 0 (some (.int r.cursor)) = some r.cursor :=
    Json.count?_ofNat h.cursor
  have hpath : Json.withDefault (Json.list? Point.ofJson?) []
      (some (.array (r.path.map Point.toJson))) = some r.path :=
    Json.list?_map fun p hp => by rw [Point.ofJson?_toJson, if_pos (h.path p hp)]
  have hlayers : Json.withDefault (Json.list? Json.string?) []
      (some (.array (r.layers.map .string))) = some r.layers :=
    Json.list?_map fun _ _ => rfl
  rw [Record.ofJson?, Record.record?_toJson]
  dsimp only [Option.bind_eq_bind, Option.bind_some]
  rw [hplace, hplace, hspeed, hbyte, hbyte, hbyte, hbyte, hcursor, hpath, hlayers,
    Json.optional_decay h.decay]
  cases hx : r.x.isFinite with
  | false => rfl
  | true => cases hy : r.y.isFinite <;> rfl

/-! ## Objects -/

theorem Kind.defaultLayers_ne_nil (k : Kind) : k.defaultLayers ≠ [] := by
  cases k <;> decide

namespace Object

variable {o : Object}

/-- An object that can be told, its place apart: all its numbers are finite, it is no obstacle that
decays, and it does not stand at the end of a path. -/
structure Tellable (o : Object) : Prop where
  speed : o.speed.isFinite = true
  path : ∀ p ∈ o.path, p.isFinite = true
  length : o.path.length ≤ 2 ^ 64
  decay : ∀ t ∈ o.decay, t.isFinite = true
  obstacle : o.obstacle = true → o.persistent = true
  cursor : o.cursor < o.path.length ∨ (o.path = [] ∧ o.cursor = 0)

theorem Tellable.record (h : o.Tellable) : o.toRecord.Tellable := by
  refine ⟨h.speed, h.path, ?_, h.decay⟩
  have hlength := h.length
  rcases h.cursor with hcursor | ⟨-, hzero⟩
  · exact Nat.lt_of_lt_of_le hcursor hlength
  · exact Nat.lt_of_le_of_lt hzero.le (Nat.two_pow_pos 64)

theorem Tellable.wellFormed (h : o.Tellable) : o.WellFormed :=
  ⟨h.obstacle, h.cursor.symm⟩

theorem Tellable.setPath (h : o.Tellable) {path : List Point}
    (hpath : ∀ p ∈ path, p.isFinite = true) (hlength : path.length ≤ 2 ^ 64) :
    (o.setPath path).Tellable := by
  have hset := h.wellFormed.setPath path
  exact ⟨h.speed, hpath, hlength, h.decay, hset.obstacle, hset.cursor.symm⟩

/-- Time passes, and what there was to tell can still be told. -/
theorem Tellable.step (h : o.Tellable) (dt : Float32) (now : Float) :
    (o.step dt now).1.Tellable := by
  have hstep := h.wellFormed.step dt now
  obtain ⟨position, path, cursor, wander, hmoved, hpath⟩ := o.exists_step dt now
  rw [hmoved] at hstep ⊢
  refine ⟨h.speed, ?_, ?_, h.decay, hstep.obstacle, hstep.cursor.symm⟩
  · rcases hpath with rfl | rfl
    · exact h.path
    · exact List.forall_mem_nil _
  · rcases hpath with rfl | rfl
    · exact h.length
    · exact Nat.zero_le _

/-- The object that is made from what is told about `o`, under the id `id`. -/
def retold (o : Object) (id : String) : Object :=
  { o with
    id
    wander := none
    layers := if o.layers.isEmpty then o.kind.defaultLayers else o.layers }

/-- The object that a record describes, as it stands on its path. -/
def ofFields (r : Record) (kind : Kind) : Object where
  id := r.id
  position := ⟨r.x, r.y⟩
  color := r.color
  kind := kind
  speed := r.speed
  layers := if r.layers.isEmpty then kind.defaultLayers else r.layers
  decay := r.decay
  wander := none
  path := r.path
  cursor := r.cursor
  obstacle := r.obstacle
  persistent := r.persistent

theorem ofRecord_of_kind {r : Record} {kind : Kind} (hkind : Kind.ofName? r.kind = some kind) :
    ofRecord r =
      if r.obstacle && !r.persistent then .error (.fleetingObstacle r.id)
      else if r.path.length < r.cursor then .error (.cursorOutOfRange r.cursor r.path.length)
      else if !(r.x.isFinite && r.y.isFinite) then .error (.notFinite r.id)
      else .ok (if (ofFields r kind).isPathComplete then (ofFields r kind).clearPath
        else ofFields r kind) := by
  rw [ofRecord, hkind]
  dsimp only
  split
  · rfl
  · split
    · rfl
    · split <;> rfl

/-- Which records are objects, and what becomes of them. -/
theorem ofRecord_eq_ok_iff {r : Record} :
    ofRecord r = .ok o ↔ ∃ kind, Kind.ofName? r.kind = some kind ∧
      (r.obstacle = true → r.persistent = true) ∧ r.cursor ≤ r.path.length ∧
      (r.x.isFinite = true ∧ r.y.isFinite = true) ∧
      o = if (ofFields r kind).isPathComplete then (ofFields r kind).clearPath
        else ofFields r kind := by
  cases hkind : Kind.ofName? r.kind with
  | none =>
      have herror : ofRecord r = .error (.unknownKind r.kind) := by
        rw [ofRecord, hkind]
        rfl
      simp [herror]
  | some kind =>
      rw [ofRecord_of_kind hkind]
      constructor
      · intro h
        split at h
        · cases h
        · rename_i hflags
          split at h
          · cases h
          · rename_i hcursor
            split at h
            · cases h
            · rename_i hplace
              refine ⟨kind, rfl, ?_, Nat.not_lt.mp hcursor, ?_, (Except.ok.inj h).symm⟩
              · simpa using hflags
              · simpa using hplace
      · rintro ⟨kind', hkind', hflags, hcursor, ⟨hx, hy⟩, rfl⟩
        obtain rfl := Option.some_inj.mp hkind'
        have hfleeting : ¬ (r.obstacle && !r.persistent) = true := by simpa using hflags
        have hplace : ¬ (!(r.x.isFinite && r.y.isFinite)) = true := by simp [hx, hy]
        rw [if_neg hfleeting, if_neg (Nat.not_lt.mpr hcursor), if_neg hplace]

/-- An object of a record always has layers, if need be those of its kind. -/
theorem layers_ne_nil_of_ofRecord {r : Record} (h : ofRecord r = .ok o) : o.layers ≠ [] := by
  obtain ⟨kind, -, -, -, -, rfl⟩ := ofRecord_eq_ok_iff.mp h
  have hlayers : (ofFields r kind).layers ≠ [] := by
    rw [ofFields]
    split
    · exact kind.defaultLayers_ne_nil
    · rename_i hlayers
      simpa using hlayers
  split <;> exact hlayers

/-- The copy of `o` that is made from what is told about it: it does not wander, it has no path whose
waypoints are all reached, and without layers it gets those of its kind. -/
def restored (o : Object) : Object :=
  { o with
    wander := none
    layers := if o.layers.isEmpty then o.kind.defaultLayers else o.layers
    path := if o.isPathComplete then [] else o.path
    cursor := if o.isPathComplete then 0 else o.cursor }

theorem restored_eq_retold (hcomplete : o.isPathComplete = false) :
    o.restored = o.retold o.id := by
  rw [restored, retold, hcomplete]
  rfl

/-- Only an object that is nowhere does not come out of its own record. -/
theorem ofRecord_toRecord (hcursor : o.cursor ≤ o.path.length)
    (hobstacle : o.obstacle = true → o.persistent = true) :
    ofRecord o.toRecord =
      if o.position.isFinite then .ok o.restored else .error (.notFinite o.id) := by
  have hkind : Kind.ofName? o.toRecord.kind = some o.kind := Kind.ofName?_name o.kind
  have hflags : ¬ (o.toRecord.obstacle && !o.toRecord.persistent) = true := by
    simpa [toRecord] using hobstacle
  have hpath : ¬ o.toRecord.path.length < o.toRecord.cursor := Nat.not_lt.mpr hcursor
  have hposition : (o.toRecord.x.isFinite && o.toRecord.y.isFinite) = o.position.isFinite := rfl
  have hcomplete : (ofFields o.toRecord o.kind).isPathComplete = o.isPathComplete := rfl
  have hrestored : (if o.isPathComplete then (ofFields o.toRecord o.kind).clearPath
      else ofFields o.toRecord o.kind) = o.restored := by
    rw [restored]
    cases o.isPathComplete <;> rfl
  rw [ofRecord_of_kind hkind, if_neg hflags, if_neg hpath, hposition, hcomplete, hrestored]
  cases o.position.isFinite <;> rfl

theorem Tellable.cursor_le (h : o.Tellable) : o.cursor ≤ o.path.length := by
  rcases h.cursor with hcursor | ⟨-, hzero⟩
  · exact hcursor.le
  · exact hzero.le.trans (Nat.zero_le _)

theorem Tellable.ofRecord_toRecord (h : o.Tellable) (hposition : o.position.isFinite = true) :
    ofRecord o.toRecord = .ok (o.retold o.id) := by
  rw [Object.ofRecord_toRecord h.cursor_le h.obstacle, if_pos hposition,
    restored_eq_retold h.wellFormed.isPathComplete]

/-- What a consumer makes of an entry that was written for `o`. -/
theorem Tellable.ofEntry?_toJson (h : o.Tellable) (id : String) :
    Object.ofEntry? id o.toJson = if o.position.isFinite then some (o.retold id) else none := by
  rw [Object.ofEntry?, toJson, Record.ofJson?_toJson h.record]
  by_cases hposition : o.position.isFinite = true
  · have hplace : (o.toRecord.x.isFinite && o.toRecord.y.isFinite) = true := hposition
    rw [if_pos hplace, if_pos hposition]
    simp only [Option.bind_eq_bind, Option.bind_some, h.ofRecord_toRecord hposition]
    rfl
  · have hplace : ¬ (o.toRecord.x.isFinite && o.toRecord.y.isFinite) = true := hposition
    rw [if_neg hplace, if_neg hposition]
    rfl

end Object

end TileWorld
