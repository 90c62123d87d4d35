import TileWorld.Message.Codec
import TileWorld.Proofs.Json.RoundTrip
import TileWorld.Proofs.Number.Widen

/-! The frame of a message is read as that message, unless a coordinate is not finite or the body
nests too deep. -/

namespace TileWorld

open Json

/-! ## Drafts -/

/-- A text, the value that it stands for, and how many arrays and objects are inside each other in
it. -/
structure Json.Draft where
  onto : List Char → List Char
  value : Json
  nesting : Nat

namespace Json

/-- What the text of a number, by itself, is read as. -/
def singleValue (x : Float32) : Json :=
  match scalar (singleOnto x []) with
  | some (j, _) => j
  | none => .null

/-- The text of the number, by itself, is read as a number that narrows to it. -/
def SingleReadsBack (x : Float32) : Prop :=
  ∃ r, scalar (singleOnto x []) = some (ofReading r, []) ∧ single? (ofReading r) = some x

namespace Draft

def Sound (d : Draft) : Prop := Writes d.onto d.value d.nesting

def tree (j : Json) : Draft := ⟨j.onto, j, j.nesting⟩

def string (s : String) : Draft := ⟨stringOnto s, .string s, 0⟩

def single (x : Float32) : Draft := ⟨singleOnto x, singleValue x, 0⟩

def array (items : List Draft) : Draft :=
  ⟨arrayOnto (items.map (·.onto)), .array (items.map (·.value)),
    1 + deepest (items.map (·.nesting))⟩

def record (fields : List (String × Draft)) : Draft :=
  ⟨recordOnto (fields.map fun f => (f.1, f.2.onto)),
    ofFields (fields.map fun f => (f.1, f.2.value)), 1 + deepest (fields.map (·.2.nesting))⟩

@[simp]
theorem sound_string (s : String) : (string s).Sound := writes_string s

theorem sound_tree {j : Json} (h : j.Proper) : (tree j).Sound := h.writes

theorem Sound.array {items : List Draft} (h : ∀ d ∈ items, d.Sound) : (array items).Sound :=
  writes_array h

theorem Sound.record {fields : List (String × Draft)} (h : ∀ f ∈ fields, f.2.Sound) :
    (record fields).Sound :=
  writes_record Prod.fst h

end Draft

theorem Draft.record?_record {fields : List (String × Draft)} (h : (fields.map Prod.fst).Nodup)
    (names : List String) :
    (record fields).value.record? names =
      some (names.map fun name => (fields.lookup name).map (·.value)) := by
  have hnodup : ((fields.map fun f => (f.1, f.2.value)).map Prod.fst).Nodup := by
    simpa [List.map_map, Function.comp_def] using h
  rw [record, ofFields, record?]
  refine congrArg some (List.map_congr_left fun name _ => ?_)
  rw [Entries.lookup_ofList hnodup]
  clear h hnodup
  induction fields with
  | nil => rfl
  | cons f fields ih =>
      rw [List.map_cons, List.lookup_cons, List.lookup_cons]
      cases name == f.1
      · exact ih
      · rfl

theorem singleChars?_eq_none {x : Float32} (h : x.isFinite = false) :
    Number.singleChars? x = none := by
  have hword : Number.Format.single.infinityWord ≤
      x.toBits.toNat % Number.Format.single.signWord := by
    rw [← Nat.not_lt, ← Number.isFinite_single_iff, h]
    exact Bool.false_ne_true
  rw [Number.singleChars?, Number.Exact.ofSingle, Number.Format.decode]
  split
  · rfl
  · rw [if_pos (Nat.lt_of_le_of_ne hword (Ne.symm ‹_›))]
    rfl

/-- A number that is not finite is written as null, which is no number. -/
theorem sound_single {x : Float32} (h : x.isFinite = true → SingleReadsBack x) :
    (Draft.single x).Sound ∧ single? (singleValue x) = if x.isFinite then some x else none := by
  cases hx : x.isFinite with
  | true =>
      obtain ⟨r, hr, hnarrow⟩ := h hx
      have honto : singleOnto x = (singleOnto x [] ++ ·) := by
        funext rest
        simp [singleOnto]
      have hvalue : singleValue x = ofReading r := by rw [singleValue, hr]
      refine ⟨?_, by rw [hvalue, hnarrow]; rfl⟩
      rw [Draft.Sound, Draft.single, hvalue, honto]
      exact (isNumeral_of_scalar hr).writes
  | false =>
      have honto : singleOnto x = onto .null := by
        funext rest
        rw [singleOnto, singleChars?_eq_none hx]
        rfl
      have hvalue : singleValue x = .null := by rw [singleValue, honto]; rfl
      refine ⟨?_, by rw [hvalue]; rfl⟩
      rw [Draft.Sound, Draft.single, hvalue, honto]
      exact writes_null

end Json

/-! ## Envelopes -/

namespace Envelope

theorem reads_part_type (bound : Nat) (type : String) :
    Reads bound (part bound) (fieldOnto ("type", stringOnto type)) (some (.type type)) := by
  have hstring : Reads bound stringValue (stringOnto type) (some type) := by
    refine ⟨fun rest => ⟨'"', _, rfl, by decide, length_le_escape type.toList rest⟩,
      fun rest _ _ => ?_⟩
    simp only [stringValue, stringOnto, skipBlanks_cons (show isBlank '"' = false from rfl),
      stringBody_escape, Option.map_some, String.ofList_toList]
  refine reads_field Part.type hstring fun rest => ?_
  rw [part, fieldName_fieldOnto]
  simp only [Option.bind_eq_bind, Option.bind_some, if_true]
  cases stringValue (stringOnto type rest) <;> rfl

variable {name : String} {d : Draft}

theorem reads_part_body (hname : isBodyName name = true) (hd : d.Sound) (bound : Nat) :
    Reads bound (part bound) (fieldOnto (name, d.onto))
      (if d.nesting ≤ maxDepth - 1 then some (.body d.value) else none) := by
  have htype : name ≠ "type" := by
    rintro rfl
    cases hname
  have hbody : Reads bound (part bound) (fieldOnto (name, d.onto))
      ((if d.nesting ≤ maxDepth - 1 then some d.value else none).map .body) := by
    refine reads_field _ (hd bound (maxDepth - 1)) fun rest => ?_
    rw [part, fieldName_fieldOnto]
    simp only [Option.bind_eq_bind, Option.bind_some, if_neg htype, if_pos hname]
    rw [bodyValue]
    cases value bound (maxDepth - 1) (d.onto rest) <;> rfl
  rwa [apply_ite (Option.map _)] at hbody

/-- A frame is read as its type and its body, which may nest one level less than the frame. -/
theorem parse?_encodeFrame (hname : isBodyName name = true) (hd : d.Sound) (type : String) :
    parse? (encodeFrame type name d.onto) =
      if d.nesting ≤ maxDepth - 1 then some ⟨type, d.value⟩ else none := by
  let parts := [(fieldOnto ("type", stringOnto type), some (Part.type type)),
    (fieldOnto (name, d.onto),
      if d.nesting ≤ maxDepth - 1 then some (Part.body d.value) else none)]
  have htext : (encodeFrame type name d.onto).toList =
      '\x7b' :: listOnto '\x7d' (parts.map Prod.fst) [] := String.toList_ofList
  have hparts : ∀ bound, (listOnto '\x7d' (parts.map Prod.fst) []).length ≤ bound →
      sequence '\x7d' (part bound) bound (listOnto '\x7d' (parts.map Prod.fst) []) =
        (parts.mapM Prod.snd).map (·, []) := fun bound hbound =>
    sequence_listOnto (.inr rfl) (List.forall_mem_cons.mpr ⟨reads_part_type bound type,
      List.forall_mem_singleton.mpr (reads_part_body hname hd bound)⟩) [] hbound
  rw [parse?, htext, read, skipBlanks_cons (by rfl)]
  simp only
  rw [hparts _ (Nat.le_of_lt (by simp))]
  -- The type is read in any case, so that the body decides.
  by_cases hdepth : d.nesting ≤ maxDepth - 1
  · simp only [parts, if_pos hdepth]
    rfl
  · simp only [parts, if_neg hdepth]
    rfl

end Envelope

/-- What a frame is read as, if its body stands for a message under a condition. -/
theorem decodeFrame_encodeFrame {α : Type} {types : List String}
    {ofBody? : String → Json → Option α} {type : String} (name : String) {d : Draft} {message : α}
    {P : Prop} [Decidable P] (htype : type ∈ types) (hname : Envelope.isBodyName name = true)
    (hd : d.Sound) (hbody : ofBody? type d.value = if P then some message else none) :
    decodeFrame types ofBody? (encodeFrame type name d.onto) =
      if maxDepth - 1 < d.nesting then .error .invalidJson
      else if P then .ok message else .error (.malformedPayload type) := by
  rw [decodeFrame, Envelope.parse?_encodeFrame hname hd]
  by_cases hdepth : d.nesting ≤ maxDepth - 1
  · simp only [if_pos hdepth, if_pos htype, hbody, if_neg (Nat.not_lt.mpr hdepth)]
    by_cases hP : P
    · simp only [if_pos hP]
    · simp only [if_neg hP]
  · simp only [if_neg hdepth, if_pos (Nat.not_le.mp hdepth)]

/-- The finite ones among the coordinates read back. -/
structure Point.ReadsBack (p : Point) : Prop where
  x : p.x.isFinite = true → SingleReadsBack p.x
  y : p.y.isFinite = true → SingleReadsBack p.y

def Point.draft (p : Point) (xName yName : String) : Draft :=
  .record [(xName, .single p.x), (yName, .single p.y)]

theorem Point.record?_draft (p : Point) {xName yName : String} (h : xName ≠ yName) :
    (p.draft xName yName).value.record? [xName, yName] =
      some [some (singleValue p.x), some (singleValue p.y)] := by
  rw [Point.draft, Draft.record?_record (by simp [h])]
  simp [List.lookup_cons, beq_false_of_ne h.symm, Draft.single]

theorem Point.ReadsBack.sound {p : Point} (h : p.ReadsBack) (xName yName : String) :
    (p.draft xName yName).Sound :=
  .record (by simp [(sound_single h.x).1, (sound_single h.y).1])

/-! ## Messages of clients -/

namespace ClientMessage

def points : ClientMessage → List Point
  | move target => [target]
  | _ => []

/-- The body of a message. -/
def draft : ClientMessage → Draft
  | move target => target.draft "targetX" "targetY"
  | chat room text => .record [("roomId", .string room), ("text", .string text)]
  | activate item active => .record [("itemId", .string item), ("active", .tree (.bool active))]
  | changeChannel channel => .record [("channelId", .string channel)]

theorem onto_draft (m : ClientMessage) : m.draft.onto = m.bodyOnto := by cases m <;> rfl

theorem nesting_draft (m : ClientMessage) : m.draft.nesting = 1 := by cases m <;> rfl

variable {m : ClientMessage} (h : ∀ p ∈ m.points, p.ReadsBack)

include h

theorem sound_draft : m.draft.Sound := by
  cases m with
  | move target =>
      have htarget := List.forall_mem_singleton.mp h
      exact htarget.sound "targetX" "targetY"
  | chat room text => exact .record (by simp)
  | activate item active => exact .record (by simp [Draft.sound_tree (.bool active)])
  | changeChannel channel => exact .record (by simp)

theorem ofBody?_draft :
    ofBody? m.typeName m.draft.value =
      if ∀ p ∈ m.points, p.isFinite = true then some m else none := by
  cases m with
  | move target =>
      have htarget := List.forall_mem_singleton.mp h
      rw [typeName, ofBody?, draft, target.record?_draft (by decide)]
      cases hx : target.x.isFinite <;> cases hy : target.y.isFinite <;>
        simp [points, required, (sound_single htarget.x).2, (sound_single htarget.y).2,
          Point.isFinite, hx, hy]
  | chat room text =>
      rw [typeName, ofBody?, draft, Draft.record?_record (by simp)]
      exact (if_pos (List.forall_mem_nil _)).symm
  | activate item active =>
      rw [typeName, ofBody?, draft, Draft.record?_record (by simp)]
      exact (if_pos (List.forall_mem_nil _)).symm
  | changeChannel channel =>
      rw [typeName, ofBody?, draft, Draft.record?_record (by simp)]
      exact (if_pos (List.forall_mem_nil _)).symm

theorem decode_encode :
    decode m.encode = if ∀ p ∈ m.points, p.isFinite = true then .ok m
      else .error (.malformedPayload m.typeName) := by
  have hframe := decodeFrame_encodeFrame "payload" m.typeName_mem_typeNames rfl (sound_draft h)
    (ofBody?_draft h)
  rw [onto_draft, nesting_draft, if_neg (by decide)] at hframe
  rwa [encode, tag_eq_typeName]

end ClientMessage

/-! ## Messages of servers -/

theorem Point.ReadsBack.ofJson? {p : Point} (h : p.ReadsBack) :
    Point.ofJson? (p.draft "X" "Y").value = if p.isFinite then some p else none := by
  rw [Point.ofJson?, p.record?_draft (by decide)]
  cases hx : p.x.isFinite <;> cases hy : p.y.isFinite <;>
    simp [required, (sound_single h.x).2, (sound_single h.y).2, Point.isFinite, hx, hy]

namespace ServerMessage

def points : ServerMessage → List Point
  | route _ path => path
  | _ => []

/-- The free values of a message are such that texts can stand for them. -/
def Proper : ServerMessage → Prop
  | state objects _ => ∀ entry ∈ objects.entries, entry.2.Proper
  | message body | chat body => body.Proper
  | _ => True

/-- The body of a message. -/
def draft : ServerMessage → Draft
  | state objects channel =>
    .record <| ("networkObjects", .tree (.ofTable objects)) ::
      (channel.map fun c => ("channelId", .string c)).toList
  | assigned player => .record [("playerId", .string player)]
  | route mover path =>
    .record [("playerId", .string mover),
      ("path", .array (path.map (·.draft "X" "Y")))]
  | message body => .tree body
  | chat body => .tree body
  | removed id layer => .record [("objId", .string id), ("objectLayerId", .string layer)]

/-- How many arrays and objects are inside each other in the frame of a message. -/
def nesting (m : ServerMessage) : Nat := 1 + m.draft.nesting

theorem onto_draft (m : ServerMessage) : m.draft.onto = m.bodyOnto := by
  cases m with
  | state objects channel => cases channel <;> rfl
  | route mover path =>
      simp only [draft, Draft.record, Draft.array, bodyOnto, List.map_cons, List.map_nil,
        List.map_map]
      rfl
  | assigned | message | chat | removed => rfl

variable {m : ServerMessage} (hproper : m.Proper) (h : ∀ p ∈ m.points, p.ReadsBack)

include hproper h

theorem sound_draft : m.draft.Sound := by
  cases m with
  | state objects channel =>
      have hobjects : (Draft.tree (.ofTable objects)).Sound :=
        Draft.sound_tree (.object objects.ascending hproper)
      cases channel with
      | none => exact .record (by simp [hobjects])
      | some c => exact .record (by simp [hobjects])
  | route mover path =>
      have hpath : ∀ d ∈ path.map (·.draft "X" "Y"), d.Sound :=
        List.forall_mem_map.mpr fun p hp => (h p hp).sound "X" "Y"
      exact .record (by simp [Draft.Sound.array hpath])
  | message body => exact Draft.sound_tree hproper
  | chat body => exact Draft.sound_tree hproper
  | assigned player => exact .record (by simp)
  | removed id layer => exact .record (by simp)

omit hproper in
theorem ofBody?_draft :
    ofBody? m.typeName m.draft.value =
      if ∀ p ∈ m.points, p.isFinite = true then some m else none := by
  cases m with
  | state objects channel =>
      have hobjects : required table? (some (.ofTable objects)) = some objects :=
        congrArg some objects.ofList_entries
      cases channel with
      | none =>
          have hfields : (draft (state objects none)).value.record?
              ["networkObjects", "channelId"] = some [some (.ofTable objects), none] :=
            Draft.record?_record (by simp) _
          rw [typeName, ofBody?, hfields]
          dsimp only [Option.bind_eq_bind, Option.bind_some]
          rw [hobjects]
          exact (if_pos (List.forall_mem_nil _)).symm
      | some c =>
          have hfields : (draft (state objects (some c))).value.record?
              ["networkObjects", "channelId"] =
                some [some (.ofTable objects), some (.string c)] :=
            Draft.record?_record (by simp) _
          rw [typeName, ofBody?, hfields]
          dsimp only [Option.bind_eq_bind, Option.bind_some]
          rw [hobjects]
          exact (if_pos (List.forall_mem_nil _)).symm
  | route mover path =>
      let points := Json.array ((path.map (·.draft "X" "Y")).map (·.value))
      have hpoints : list? Point.ofJson? points =
          if ∀ p ∈ path, p.isFinite = true then some path else none := by
        have hread : (path.mapM fun p => Point.ofJson? (p.draft "X" "Y").value) =
            if ∀ p ∈ path, p.isFinite = true then some (path.map fun p => p) else none :=
          mapM_eq_ite fun p hp => (h p hp).ofJson?
        rw [List.map_id'] at hread
        rw [list?, List.map_map, List.mapM_map]
        exact hread
      -- A frame names the mover once, so that the other name stays free.
      have hrecord : (draft (route mover path)).value.record? ["playerId", "entityId", "path"] =
          some [some (.string mover), none, some points] := Draft.record?_record (by simp) _
      have hfields : routeFields? (draft (route mover path)).value =
          some [some (.string mover), some points] := by
        obtain ⟨fields, hobject⟩ : ∃ fields, (draft (route mover path)).value = .object fields :=
          ⟨_, rfl⟩
        rw [hobject] at hrecord ⊢
        rw [routeFields?, hrecord]
        rfl
      rw [typeName, ofBody?, hfields]
      dsimp only [Option.bind_eq_bind, Option.bind_some, required]
      rw [hpoints]
      by_cases hfinite : ∀ p ∈ path, p.isFinite = true
      · rw [if_pos hfinite]
        exact (if_pos hfinite).symm
      · rw [if_neg hfinite]
        exact (if_neg hfinite).symm
  | message body => exact (if_pos (List.forall_mem_nil _)).symm
  | chat body => exact (if_pos (List.forall_mem_nil _)).symm
  | assigned player =>
      rw [typeName, ofBody?, draft, Draft.record?_record (by simp)]
      exact (if_pos (List.forall_mem_nil _)).symm
  | removed id layer =>
      rw [typeName, ofBody?, draft, Draft.record?_record (by simp)]
      exact (if_pos (List.forall_mem_nil _)).symm

theorem decode_encode :
    decode m.encode =
      if maxDepth < m.nesting then .error .invalidJson
      else if ∀ p ∈ m.points, p.isFinite = true then .ok m
      else .error (.malformedPayload m.typeName) := by
  have hframe := decodeFrame_encodeFrame "data" m.typeName_mem_typeNames rfl
    (sound_draft hproper h) (ofBody?_draft h)
  have hnesting : maxDepth - 1 < m.draft.nesting ↔ maxDepth < m.nesting := by
    rw [nesting, maxDepth]
    omega
  rw [onto_draft, if_congr hnesting rfl rfl] at hframe
  rwa [encode, tag_eq_typeName]

end ServerMessage

theorem ite_ok_eq_ok_iff {α : Type} {P : Prop} [Decidable P] {message : α} {e : FrameError} :
    (if P then Except.ok message else .error e) = .ok message ↔ P := by
  by_cases hP : P
  · rw [if_pos hP]
    exact iff_of_true rfl hP
  · rw [if_neg hP]
    exact iff_of_false nofun hP

/-- As far as the texts of numbers read back, a message of a client survives the wire exactly if its
coordinates are finite, and a message of a server exactly if they are and its frame does not nest
too deep. -/
theorem decode_encode_iff :
    (∀ m : ClientMessage, (∀ p ∈ m.points, p.ReadsBack) →
      (ClientMessage.decode m.encode = .ok m ↔ ∀ p ∈ m.points, p.isFinite = true)) ∧
    ∀ m : ServerMessage, m.Proper → (∀ p ∈ m.points, p.ReadsBack) →
      (ServerMessage.decode m.encode = .ok m ↔
        (∀ p ∈ m.points, p.isFinite = true) ∧ m.nesting ≤ 127) := by
  refine ⟨fun m h => ?_, fun m hproper h => ?_⟩
  · rw [ClientMessage.decode_encode h, ite_ok_eq_ok_iff]
  · rw [ServerMessage.decode_encode hproper h]
    by_cases hdeep : maxDepth < m.nesting
    · rw [if_pos hdeep]
      exact iff_of_false nofun fun hm => Nat.not_le.mpr hdeep hm.2
    · rw [if_neg hdeep, ite_ok_eq_ok_iff]
      exact ⟨fun hfinite => ⟨hfinite, Nat.not_lt.mp hdeep⟩, And.left⟩

/-- Names and texts that need escapes, the extreme integers, a real and empty brackets. -/
def awkwardObjects : Table Json :=
  .ofList [("a \"b\" \\ \n \x01", .array [.null, .int (-2 ^ 63), .int (2 ^ 64 - 1), .real 0.1]),
    ("", .string "\x7f é 😀"), ("z", .object [("empty", .array [])])]

def awkwardTarget : Point := ⟨12.5, -0.1⟩

theorem decode_encode_awkward :
    awkwardTarget.ReadsBack ∧ awkwardTarget.isFinite = true ∧
      (ServerMessage.state awkwardObjects (some "")).Proper ∧
      (ServerMessage.state awkwardObjects (some "")).nesting = 5 ∧
      ClientMessage.decode (ClientMessage.move awkwardTarget).encode = .ok (.move awkwardTarget) ∧
      ServerMessage.decode (ServerMessage.route "" [awkwardTarget]).encode =
        .ok (.route "" [awkwardTarget]) ∧
      ServerMessage.decode (ServerMessage.state awkwardObjects (some "")).encode =
        .ok (.state awkwardObjects (some "")) := by
  have hreads : awkwardTarget.ReadsBack :=
    ⟨fun _ => ⟨.real 12.5, by rfl, by rfl⟩, fun _ => ⟨.real (-0.1), by rfl, by rfl⟩⟩
  have hfinite : awkwardTarget.isFinite = true := by decide +kernel
  have hproper : (ServerMessage.state awkwardObjects (some "")).Proper := by
    have hentries : awkwardObjects.entries =
        [("", .string "\x7f é 😀"),
          ("a \"b\" \\ \n \x01", .array [.null, .int (-2 ^ 63), .int (2 ^ 64 - 1), .real 0.1]),
          ("z", .object [("empty", .array [])])] := by rfl
    have hreal : Json.Proper (.real 0.1) := .real (by rw [ReadsBack]; rfl)
    rw [ServerMessage.Proper, hentries]
    simp only [List.forall_mem_cons, List.not_mem_nil, false_imp_iff, implies_true, and_true]
    exact ⟨.string _, .array (by simp [Json.Proper.null, Json.Proper.int, hreal]),
      .object (List.pairwise_singleton ..) (by simp [Json.Proper.array])⟩
  have hnesting : (ServerMessage.state awkwardObjects (some "")).nesting = 5 := by decide +kernel
  refine ⟨hreads, hfinite, hproper, hnesting, ?_, ?_, ?_⟩
  · exact (decode_encode_iff.1 (.move awkwardTarget) (List.forall_mem_singleton.mpr hreads)).mpr
      (List.forall_mem_singleton.mpr hfinite)
  · exact (decode_encode_iff.2 (.route "" [awkwardTarget]) trivial
      (List.forall_mem_singleton.mpr hreads)).mpr
      ⟨List.forall_mem_singleton.mpr hfinite, by decide +kernel⟩
  · exact (decode_encode_iff.2 _ hproper (List.forall_mem_nil _)).mpr
      ⟨List.forall_mem_nil _, by omega⟩

end TileWorld
