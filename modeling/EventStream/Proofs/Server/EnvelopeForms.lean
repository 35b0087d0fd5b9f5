import EventStream.Event.Decode
import EventStream.Proofs.Entries
import EventStream.Proofs.Json.Parsed
import EventStream.Proofs.Json.Skipping
import EventStream.Proofs.Server.Decoding

namespace EventStream

namespace CloudEvent

/-- The text that a place has, or null. -/
def textOf? : Json → Option (Option String)
  | .null => some none
  | .string s => some (some s)
  | _ => none

/-- What the value of a place is taken for, if it fits there. -/
def Field.of? (name : String) (j : Json) : Option Field :=
  if name = "data" then some (.data j)
  else if fieldNames.contains name then (textOf? j).map .text
  else some .unread

def fieldOf? (m : String × Json) : Option (String × Field) :=
  (Field.of? m.1 m.2).map fun x => (m.1, x)

section
variable {n fuel : Nat} {s t : Bytes} {j : Json}

theorem scalar_of_null (h : Json.scalar s = some (.null, t)) : ∃ r, s = 0x6E :: r := by
  unfold Json.scalar at h
  split at h
  next =>
    obtain ⟨_, _, h⟩ := Option.map_eq_some_iff.mp h
    cases h
  next => exact ⟨_, rfl⟩
  next => exact nomatch (Json.named_eq_some h).2
  next => exact nomatch (Json.named_eq_some h).2
  next =>
    obtain ⟨⟨m, _⟩, _, h⟩ := Option.bind_eq_some_iff.mp h
    obtain ⟨_, hj, h⟩ := Option.map_eq_some_iff.mp h
    cases h
    obtain ⟨_, hj⟩ | ⟨_, hj⟩ := Json.number_of_json? hj <;> cases hj

theorem scalar_of_string {x : String} (h : Json.quotedText s = some (x, t)) :
    Json.scalar s = some (.string x, t) := by
  have hquote : ∃ u, s = 0x22 :: u := by
    unfold Json.quotedText at h
    split at h
    · exact ⟨_, rfl⟩
    · cases h
  obtain ⟨u, rfl⟩ := hquote
  exact Option.map_eq_some_iff.mpr ⟨_, h, rfl⟩

theorem textOrNull_of_scalar (h : Json.scalar s = some (j, t)) :
    textOrNull s = (textOf? j).map fun x => (x, t) := by
  unfold textOrNull
  split
  next =>
    rw [h, (Json.named_eq_some h).2]
    rfl
  next hnull =>
    cases hq : Json.quotedText s with
    | some p =>
      obtain ⟨x, r⟩ := p
      rw [scalar_of_string hq] at h
      cases h
      rfl
    | none =>
      cases j with
      | null =>
        obtain ⟨r, hr⟩ := scalar_of_null h
        exact absurd hr (hnull r)
      | string x => exact nomatch hq.symm.trans (Json.quotedText_of_scalar h)
      | _ => rfl

/-- A text is read as one, null as none, and anything else not at all. -/
theorem textOrNull_of_nested {depth : Nat} (h : Json.data.nested fuel depth s = some (j, t)) :
    textOrNull s = (textOf? j).map fun x => (x, t) := by
  cases depth with
  | zero => exact textOrNull_of_scalar h
  | succ depth =>
    obtain ⟨r, ms, rfl, rfl, _⟩ | ⟨r, xs, rfl, rfl, _⟩ | ⟨_, _, h⟩ := Json.Contents.nested_cases h
    · rfl
    · rfl
    · exact textOrNull_of_scalar h

/-- The value of a place is read as what it is taken for. -/
theorem field_eq {name : String} (h : Json.data.IsValue n s j) (hn : n ≤ Json.depthLimit - 1)
    (hf : s.length ≤ fuel) (ht : Json.Ends t) :
    field fuel name (s ++ t) = (Field.of? name j).map fun x => (x, t) := by
  unfold field Field.of?
  by_cases hdata : name = "data"
  · have hread : Json.value fuel (Json.depthLimit - 1) (s ++ t) = some (j, t) :=
      h.reads fuel _ t hf hn ht
    simp [hdata, hread]
  · by_cases hname : fieldNames.contains name = true
    · simp only [hdata, hname, if_false, if_true, textOrNull_of_nested (h.reads fuel _ t hf hn ht)]
      cases textOf? j <;> rfl
    · have hlength := h.nests.le_length
      have hread := (Json.isValue_skipped h).reads fuel fuel t hf (by omega) ht
      simp only [hdata, hname, if_false, hread]
      rfl

/-- The members of an object are read one by one as what they are taken for. -/
theorem members_eq {ms : List (String × Json)} (h : Json.Enclosed 0x7D Json.data.IsMember n s ms)
    (hn : n ≤ Json.depthLimit - 1) (hf : s.length ≤ fuel) :
    Json.members Json.quotedText (field fuel) fuel (s ++ t) =
      (ms.mapM fieldOf?).map fun fs => (fs, t) := by
  refine h.maps (.inr rfl) (fun _ _ _ hx => hx.begins) (fun m s' x t hm hl hx ht => ?_) hf t
  obtain @⟨ks, k, w, v, _, s', x, hk, hw, hv, hx⟩ := hx
  have hlen : s'.length ≤ fuel := by
    simp only [List.length_append, List.length_cons] at hl
    omega
  have hkey : Json.IsAtom Json.quotedText ks k := hk
  rw [Json.member_eq hkey hw hv hx.begins, field_eq hx (by omega) hlen ht, fieldOf?]
  cases Field.of? k x <;> rfl

/-- The items of a list are read as the members with the names of their places, if there are places
enough. -/
theorem fieldsInPlace_eq {xs : List Json} (h : Json.Listed 0x5D Json.data.IsValue n s xs)
    (hn : n ≤ Json.depthLimit - 1) (hf : s.length ≤ fuel) (done : List (String × Field))
    (names : List String) :
    fieldsInPlace fuel done names (s ++ t) =
      if xs.length ≤ names.length then
        ((names.zip xs).mapM fieldOf?).map fun fs => (done.reverse ++ fs, t)
      else none := by
  induction h generalizing done names with
  | @last w s v n x hw hx hv =>
    obtain _ | ⟨name, names⟩ := names
    · rfl
    obtain ⟨c, u, hs, hc, _⟩ := hx.begins
    have hskip : Json.skipSpace (w ++ (s ++ (v ++ [0x5D])) ++ t) = s ++ (v ++ 0x5D :: t) := by
      simp only [List.append_assoc, Json.skipSpace_append hw, List.singleton_append]
      rw [hs]
      exact Json.skipSpace_cons hc
    rw [fieldsInPlace, hskip, field_eq hx hn (by simp at hf; omega) (hv.ends (Json.ends_cons rfl))]
    cases hfield : Field.of? name x with
    | none => simp [fieldOf?, hfield]
    | some y =>
      simp only [Option.map_some, Json.skipSpace_append hv,
        Json.skipSpace_cons (show Json.isSpace 0x5D = false from rfl)]
      simp [fieldOf?, hfield]
  | @more w s v n x m rest xs hw hx hv hrest ih =>
    obtain _ | ⟨name, names⟩ := names
    · rfl
    obtain ⟨c, u, hs, hc, _⟩ := hx.begins
    have hskip : Json.skipSpace (w ++ (s ++ (v ++ 0x2C :: rest)) ++ t) =
        s ++ (v ++ 0x2C :: (rest ++ t)) := by
      simp only [List.append_assoc, Json.skipSpace_append hw, List.cons_append]
      rw [hs]
      exact Json.skipSpace_cons hc
    rw [fieldsInPlace, hskip,
      field_eq hx (by omega) (by simp at hf; omega) (hv.ends (Json.ends_cons rfl))]
    cases hfield : Field.of? name x with
    | none => simp [fieldOf?, hfield]
    | some y =>
      simp only [Option.map_some, Json.skipSpace_append hv,
        Json.skipSpace_cons (show Json.isSpace 0x2C = false from rfl)]
      rw [ih (by omega) (by simp at hf; omega)]
      have hlength : (x :: xs).length ≤ (name :: names).length ↔ xs.length ≤ names.length := by simp
      simp only [hlength]
      split_ifs
      · cases hfs : (names.zip xs).mapM fieldOf? <;> simp [fieldOf?, hfield, hfs]
      · rfl

theorem list_eq {xs : List Json} (h : Json.Enclosed 0x5D Json.data.IsValue n s xs)
    (hn : n ≤ Json.depthLimit - 1) (hf : s.length ≤ fuel) :
    fields fuel (0x5B :: (s ++ t)) =
      if xs.length ≤ fieldNames.length then
        ((fieldNames.zip xs).mapM fieldOf?).map fun fs => (fs, t)
      else none := by
  cases h with
  | @empty w hw =>
    have hskip : Json.skipSpace (w ++ [0x5D] ++ t) = 0x5D :: t := by
      rw [List.append_assoc, Json.skipSpace_append hw]
      exact Json.skipSpace_cons rfl
    rw [fields, hskip]
    rfl
  | listed h =>
    have hplaces := fieldsInPlace_eq (t := t) h hn hf [] fieldNames
    obtain ⟨w, c, u, hs, hw, hc, hbracket, _⟩ := h.begins fun _ _ _ hx => hx.begins
    have hskip : Json.skipSpace (s ++ t) = c :: (u ++ t) := by
      rw [hs, List.append_assoc, Json.skipSpace_append hw, List.cons_append, Json.skipSpace_cons hc]
    have hfirst : fields fuel (0x5B :: (s ++ t)) = fieldsInPlace fuel [] fieldNames (s ++ t) := by
      rw [fields]
      split
      next r hr =>
        rw [hskip] at hr
        exact absurd (List.cons.inj hr).1 hbracket
      next =>
        rw [fieldNames, fieldsInPlace, fieldsInPlace, Json.skipSpace_skipSpace]
    rw [hfirst, hplaces]
    rfl

end

/-- The members that a document has as an envelope: an object those of its text, a list its items
under the names of their places. -/
inductive HasMembers (b : Bytes) : List (String × Json) → Prop
  | object {ms} : Json.memberList? b = some ms → HasMembers b ms
  | list {xs} : Json.parse? b = some (.array xs) → xs.length ≤ fieldNames.length →
      HasMembers b (fieldNames.zip xs)

section
variable {b : Bytes} {ms : List (String × Json)} {j : Json}

theorem fields_of_list {xs : List Json} (h : Json.parse? b = some (.array xs)) :
    Json.whole (fields (b.length + 1)) b =
      if xs.length ≤ fieldNames.length then (fieldNames.zip xs).mapM fieldOf? else none := by
  obtain ⟨rest, hread, hrest⟩ := Json.whole_eq_some.mp h
  refine Json.whole_of_map rest ?_ hrest
  obtain ⟨r, ms, _, hj, _⟩ | ⟨r, ys, hs, hj, hitems⟩ | ⟨_, _, hj⟩ := Json.Contents.nested_cases hread
  · cases hj
  · cases hj
    have hlength := Json.length_skipSpace_le b
    obtain ⟨s, n, rfl, hn, hx⟩ := Json.bounded_of_items
      (fun _ _ _ h => Json.data.nested_local Json.data_lawful h) hitems
    rw [hs] at hlength ⊢
    rw [List.length_cons, List.length_append] at hlength
    rw [list_eq hx hn (by omega)]
    split <;> rfl
  · exact absurd rfl ((Json.scalar_not_nested hj).1 xs)

theorem fields_of_hasMembers (h : HasMembers b ms) :
    Json.whole (fields (b.length + 1)) b = ms.mapM fieldOf? := by
  cases h with
  | object h =>
    obtain ⟨rest, hread, hrest⟩ := Json.whole_eq_some.mp h
    refine Json.whole_of_map rest ?_ hrest
    unfold Json.objectMembers at hread
    split at hread
    next r hs =>
      have hlength := Json.length_skipSpace_le b
      obtain ⟨s, n, rfl, hn, hx⟩ := Json.bounded_of_items
        (fun _ _ _ h => Json.Contents.IsMember.of_member Json.data_lawful.key
          (fun _ _ _ h => Json.data.nested_local Json.data_lawful h) h) hread
      rw [hs] at hlength ⊢
      rw [List.length_cons, List.length_append] at hlength
      exact members_eq hx hn (by omega)
    next => cases hread
  | list h hlen => rw [fields_of_list h, if_pos hlen]

/-- A document without members is not read as an envelope. -/
theorem fields_eq_none (h : Json.parse? b = some j) (hno : ∀ ms, ¬HasMembers b ms) :
    Json.whole (fields (b.length + 1)) b = none := by
  obtain ⟨rest, hread, hrest⟩ := Json.whole_eq_some.mp h
  obtain ⟨r, ms, _, rfl, _⟩ | ⟨r, xs, _, rfl, _⟩ | ⟨hobject, hlist, _⟩ := Json.Contents.nested_cases hread
  · obtain ⟨ms, hms, _⟩ := Json.parse?_eq_object_iff.mp h
    exact absurd (.object hms) (hno ms)
  · rw [fields_of_list h, if_neg fun hlen => hno _ (.list h hlen)]
  · refine Json.whole_of_map (o := none) [] ?_ rfl
    unfold fields
    split
    next r hr => exact absurd hr (hobject r)
    next r hr => exact absurd hr (hlist r)
    next => rfl

end

/-- No place comes twice, and each, that of the data apart, has null or a text. -/
structure IsEnvelope (ms : List (String × Json)) : Prop where
  once : ∀ name ∈ fieldNames, (keys ms).count name ≤ 1
  texts : ∀ m ∈ ms, m.1 ∈ fieldNames → m.1 ≠ "data" → m.2 = .null ∨ ∃ s, m.2 = .string s

def textUnder (ms : List (String × Json)) (name : String) : Option String :=
  (lookup? ms name).bind fun j => (textOf? j).join

def dataUnder (ms : List (String × Json)) : Option Json :=
  match lookup? ms "data" with
  | some .null => none
  | j => j

def ofMembers (ms : List (String × Json)) : CloudEvent where
  id := textUnder ms "id"
  topic := textUnder ms "topic"
  pubsubname := textUnder ms "pubsubname"
  datacontenttype := textUnder ms "datacontenttype"
  data := dataUnder ms
  dataBase64 := textUnder ms "data_base64"

section
variable {b : Bytes} {ms : List (String × Json)} {fs : List (String × Field)} {j : Json}

theorem textOf?_isSome : (textOf? j).isSome ↔ j = .null ∨ ∃ s, j = .string s := by
  cases j <;> simp [textOf?]

theorem fieldOf?_isSome {m : String × Json} : (fieldOf? m).isSome ↔
    (m.1 ∈ fieldNames → m.1 ≠ "data" → m.2 = .null ∨ ∃ s, m.2 = .string s) := by
  rw [fieldOf?, Option.isSome_map, Field.of?, ← textOf?_isSome]
  by_cases hdata : m.1 = "data"
  · simp [hdata]
  · by_cases hname : m.1 ∈ fieldNames <;> simp [hdata, hname]

theorem keys_of_fields (h : ms.mapM fieldOf? = some fs) : keys fs = keys ms := by
  have hrel := mapM_eq_some.mp h
  refine (keys_eq_of_forall₂ (hrel.imp fun m f hf => ?_)).symm
  obtain ⟨x, _, rfl⟩ := Option.map_eq_some_iff.mp hf
  rfl

theorem lookup?_fields (h : ms.mapM fieldOf? = some fs) (name : String) :
    lookup? fs name = (lookup? ms name).bind (Field.of? name) := by
  have hrel := mapM_eq_some.mp h
  clear h
  induction hrel with
  | nil => rfl
  | @cons m f ms fs hf _ ih =>
    obtain ⟨k, j⟩ := m
    obtain ⟨x, hx, rfl⟩ := Option.map_eq_some_iff.mp hf
    by_cases hk : k = name
    · subst hk
      simp [lookup?, hx]
    · simp [lookup?, hk, ih]

theorem textAt_fields (h : ms.mapM fieldOf? = some fs) {name : String} (hname : name ∈ fieldNames)
    (hdata : name ≠ "data") : textAt fs name = textUnder ms name := by
  have hof (j : Json) : Field.of? name j = (textOf? j).map .text := by
    simp [Field.of?, hdata, hname]
  rw [textAt, textUnder, lookup?_fields h]
  cases lookup? ms name with
  | none => rfl
  | some j =>
    rw [Option.bind_some, Option.bind_some, hof]
    cases textOf? j <;> rfl

theorem dataAt_fields (h : ms.mapM fieldOf? = some fs) : dataAt fs = dataUnder ms := by
  rw [dataAt, dataUnder, lookup?_fields h]
  cases lookup? ms "data" with
  | none => rfl
  | some j => cases j <;> rfl

theorem ofFields_eq (h : ms.mapM fieldOf? = some fs) : ofFields fs = ofMembers ms := by
  simp (disch := decide) only [ofFields, ofMembers, textAt_fields h, dataAt_fields h]

theorem placesOnce_iff (h : ms.mapM fieldOf? = some fs) :
    placesOnce fs = true ↔ ∀ name ∈ fieldNames, (keys ms).count name ≤ 1 := by
  rw [← keys_of_fields h]
  simp [placesOnce, keys]

/-- A document with members is an envelope exactly when they are those of one. -/
theorem parse_of_hasMembers (h : HasMembers b ms) (e : CloudEvent) :
    parse b = .ok e ↔ IsEnvelope ms ∧ e = ofMembers ms := by
  have htexts : (ms.mapM fieldOf?).isSome ↔
      ∀ m ∈ ms, m.1 ∈ fieldNames → m.1 ≠ "data" → m.2 = .null ∨ ∃ s, m.2 = .string s := by
    simp only [isSome_mapM, fieldOf?_isSome]
  rw [parse, fields_of_hasMembers h]
  cases hfs : ms.mapM fieldOf? with
  | none =>
    rw [hfs] at htexts
    constructor
    · intro he
      cases he
    · rintro ⟨henvelope, _⟩
      cases htexts.mpr henvelope.texts
  | some fs =>
    rw [hfs] at htexts
    simp only [placesOnce_iff hfs, ofFields_eq hfs]
    split
    next honce =>
      constructor
      · intro he
        cases he
        exact ⟨⟨honce, htexts.mp rfl⟩, rfl⟩
      · rintro ⟨_, rfl⟩
        rfl
    next honce =>
      constructor
      · intro he
        cases he
      · rintro ⟨henvelope, _⟩
        exact absurd henvelope.once honce

end

end CloudEvent

/-- What comes as an envelope is decoded to its payload. -/
theorem Event.payload_of_decode {topic contentType : String} {b : Bytes} {event : Event}
    (htype : mediaType contentType = cloudEventsType)
    (h : Event.decode topic contentType b = .ok event) :
    ∃ c, CloudEvent.parse b = .ok c ∧ c.payload = .ok event.payload := by
  cases Event.decode_iff_brings.mp h with
  | plain hjson _ => exact absurd (hjson.symm.trans htype) (by decide)
  | enveloped _ hc hp _ => exact ⟨_, hc, hp⟩

/-- Of the documents that can be read, envelopes are the objects in which no place comes twice and
each, that of the data apart, has null or a text, and the lists of as many items as there are places
at most, which follow the same rule in their order; nothing else is decoded where an envelope is
due. -/
theorem envelopes_are_objects_or_lists (b : Bytes) (j : Json) (h : Json.parse? b = some j) :
    (∀ e, CloudEvent.parse b = .ok e ↔ ∃ ms, CloudEvent.HasMembers b ms ∧
      CloudEvent.IsEnvelope ms ∧ e = CloudEvent.ofMembers ms) ∧
    (∀ e, CloudEvent.parse b = .error e → e = .invalidEnvelope) ∧
    ∀ topic contentType event, mediaType contentType = cloudEventsType →
      Event.decode topic contentType b = .ok event → ∃ ms, CloudEvent.HasMembers b ms ∧
        CloudEvent.IsEnvelope ms ∧ (CloudEvent.ofMembers ms).payload = .ok event.payload := by
  have hparse : ∀ e, CloudEvent.parse b = .ok e ↔ ∃ ms, CloudEvent.HasMembers b ms ∧
      CloudEvent.IsEnvelope ms ∧ e = CloudEvent.ofMembers ms := by
    intro e
    constructor
    · intro he
      by_cases hno : ∀ ms, ¬CloudEvent.HasMembers b ms
      · rw [CloudEvent.parse, CloudEvent.fields_eq_none h hno] at he
        cases he
      · obtain ⟨ms, hms⟩ := not_forall_not.mp hno
        exact ⟨ms, hms, (CloudEvent.parse_of_hasMembers hms e).mp he⟩
    · rintro ⟨ms, hms, henvelope⟩
      exact (CloudEvent.parse_of_hasMembers hms e).mpr henvelope
  refine ⟨hparse, fun e he => CloudEvent.parse_error he, fun topic contentType event htype he => ?_⟩
  obtain ⟨c, hc, hp⟩ := Event.payload_of_decode htype he
  obtain ⟨ms, hms, henvelope, rfl⟩ := (hparse c).mp hc
  exact ⟨ms, hms, henvelope, hp⟩

/-- An object with null in a place and a member that has none. -/
theorem envelopes_are_objects_or_lists_with_null :
    let ms : List (String × Json) :=
      [("id", .null), ("other", .array [.integer 1]), ("data", .object [("x", .integer 1)])]
    ∃ b, Json.memberList? b = some ms ∧ Json.parse? b = some (.object (sortedEntries ms)) ∧
      CloudEvent.IsEnvelope ms ∧ CloudEvent.parse b = .ok (CloudEvent.ofMembers ms) ∧
      CloudEvent.ofMembers ms =
        ⟨none, none, none, none, some (.object [("x", .integer 1)]), none⟩ := by
  intro ms
  have hmembers : Json.memberList? (Bytes.ofString
      "\x7b\"id\": null, \"other\": [1], \"data\": \x7b\"x\": 1\x7d\x7d") = some ms := by
    cbv
  have hread := Json.parse?_eq_object_iff.mpr ⟨ms, hmembers, rfl⟩
  have henvelope : CloudEvent.IsEnvelope ms := ⟨by decide, by simp [ms, CloudEvent.fieldNames]⟩
  exact ⟨_, hmembers, hread, henvelope,
    ((envelopes_are_objects_or_lists _ _ hread).1 _).mpr ⟨ms, .object hmembers, henvelope, rfl⟩, rfl⟩

/-- A list is decoded to an event where an envelope is due. -/
theorem list_decoded_as_envelope :
    Json.parse? (Bytes.ofString "[\"e1\",null,null,null,\x7b\"x\":1\x7d]") =
        some (.array [.string "e1", .null, .null, .null, .object [("x", .integer 1)]]) ∧
      CloudEvent.parse (Bytes.ofString "[\"e1\",null,null,null,\x7b\"x\":1\x7d]") =
        .ok ⟨some "e1", none, none, none, some (.object [("x", .integer 1)]), none⟩ ∧
      Event.decode "orders" cloudEventsType
          (Bytes.ofString "[\"e1\",null,null,null,\x7b\"x\":1\x7d]") =
        .ok ⟨some "e1", "orders", jsonType, (Json.object [("x", .integer 1)]).write⟩ := by
  refine ⟨?_, ?_, ?_⟩ <;> cbv

end EventStream
