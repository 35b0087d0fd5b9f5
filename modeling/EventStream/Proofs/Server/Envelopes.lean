import EventStream.Event.Decode
import EventStream.Proofs.Json.Parsed
import EventStream.Proofs.Json.Skipping
import EventStream.Proofs.Server.Decoding
import EventStream.Proofs.Text.Base64

namespace EventStream

/-- A content type by its name, in large or small letters, with blanks around it and perhaps
parameters after it. -/
inductive IsNamed (type : String) : String → Prop
  | intro {w name v params : List Char} : (∀ c ∈ w, isBlank c = true) →
      name.map Char.toLower = type.toList → (∀ c ∈ v, isBlank c = true) →
      (∀ c ∈ params.head?, c = ';') → IsNamed type (String.ofList (w ++ (name ++ (v ++ params))))

theorem toLower_of_isBlank {c : Char} (h : isBlank c = true) : c.toLower = c := by
  unfold Char.toLower
  rw [dif_neg]
  rintro ⟨hlow, hhigh⟩
  have hlow : 65 ≤ c.toNat := hlow
  have hhigh : c.toNat ≤ 90 := hhigh
  simp only [isBlank, Bool.or_eq_true, Bool.and_eq_true, decide_eq_true_eq, beq_iff_eq] at h
  omega

theorem ne_of_isBlank {c : Char} (h : isBlank c = true) : c ≠ ';' := by
  rintro rfl
  cases h

theorem takeWhile_before_mark {s params : List Char} (hs : ∀ c ∈ s, c ≠ ';')
    (hparams : ∀ c ∈ params.head?, c = ';') : (s ++ params).takeWhile (· ≠ ';') = s := by
  have hnone : params.takeWhile (· ≠ ';') = [] := by
    cases params with
    | nil => rfl
    | cons c params => simp [hparams c rfl]
  rw [List.takeWhile_append_of_pos fun c hc => decide_eq_true (hs c hc), hnone, List.append_nil]

theorem mediaType_of_isNamed {type contentType : String} (h : IsNamed type contentType)
    (htype : ∀ c ∈ type.toList, c ≠ ';' ∧ isBlank c = false) : mediaType contentType = type := by
  obtain @⟨w, name, v, params, hw, hname, hv, hparams⟩ := h
  have hmem : ∀ c ∈ name, c ≠ ';' ∧ isBlank c = false := by
    intro c hc
    obtain ⟨hmark, hblank⟩ := htype c.toLower (hname ▸ List.mem_map_of_mem hc)
    refine ⟨?_, ?_⟩
    · rintro rfl
      exact hmark rfl
    · refine Bool.eq_false_iff.mpr fun hb => ?_
      rw [toLower_of_isBlank hb, hb] at hblank
      cases hblank
  have hbefore : ∀ c ∈ w ++ (name ++ v), c ≠ ';' := by
    simp only [List.forall_mem_append]
    exact ⟨fun c hc => ne_of_isBlank (hw c hc), fun c hc => (hmem c hc).1,
      fun c hc => ne_of_isBlank (hv c hc)⟩
  have hcut : (w ++ (name ++ (v ++ params))).takeWhile (· ≠ ';') = w ++ (name ++ v) := by
    rw [← takeWhile_before_mark hbefore hparams]
    simp only [List.append_assoc]
  have htrim : trim (w ++ (name ++ v)) = name :=
    trim_append hw hv (fun c hc => (hmem c (List.mem_of_mem_head? hc)).2)
      fun c hc => (hmem c (List.mem_of_getLast? hc)).2
  rw [mediaType, String.toList_ofList, hcut, htrim, hname, String.ofList_toList]

namespace CloudEvent

/-- A text that is taken for a field of this name; the number is how deep it is nested where nobody
reads it. -/
structure IsFieldText (name : String) (n : Nat) (s : Bytes) (x : Field) : Prop where
  begins : Json.Begins s
  reads : ∀ fuel t, s.length ≤ fuel → n ≤ fuel → Json.Ends t →
    field fuel name (s ++ t) = some (x, t)

/-- A name, a colon and a field. -/
inductive IsField : Nat → Bytes → String × Field → Prop
  | intro {ks k w v n s x} : Json.IsAtom Json.quotedText ks k → Json.Spaces w → Json.Spaces v →
      IsFieldText k n s x → IsField n (ks ++ (w ++ 0x3A :: (v ++ s))) (k, x)

section
variable {n d : Nat} {s : Bytes} {k : String} {x : Field}

theorem IsField.begins {e : String × Field} (h : IsField n s e) : Json.Begins s := by
  obtain ⟨hk, _, _, _⟩ := h
  obtain ⟨b, r, rfl, hs, hb⟩ := hk.begins
  exact Json.begins_of_isBracket hs hb

theorem IsField.reads {e : String × Field} (h : IsField n s e) {fuel : Nat} {t : Bytes}
    (hf : s.length ≤ fuel) (hn : n ≤ fuel) (ht : Json.Ends t) :
    Json.member Json.quotedText (field fuel) (s ++ t) = some (e, t) := by
  obtain @⟨ks, k, w, v, n, s, x, hk, hw, hv, hx⟩ := h
  have hlen : s.length ≤ fuel := by
    simp only [List.length_append, List.length_cons] at hf
    omega
  exact Json.member_reads hk hw hv hx.begins (hx.reads fuel t hlen hn ht)

theorem spaced_field (k : String) (h : ∃ n ≤ d, Json.Spaced (IsFieldText k) n s x) :
    ∃ n ≤ d, Json.Spaced IsField n (Json.quoted k ++ 0x3A :: s) (k, x) := by
  obtain ⟨n, hn, @⟨w, s, v, _, hw, hx, hv⟩⟩ := h
  have hnone : Json.Spaces [] := fun _ hb => nomatch hb
  have hfield := IsField.intro (Json.quoted_atom k) hnone hw hx
  refine ⟨n, hn, ?_⟩
  simpa using Json.Spaced.intro hnone hfield hv

theorem isFieldText_data {j : Json} (h : Json.data.IsValue n s j) (hn : n ≤ 126) :
    IsFieldText "data" 0 s (.data j) where
  begins := h.begins
  reads fuel t hf _ ht := by
    have hread : Json.value fuel (Json.depthLimit - 1) (s ++ t) = some (j, t) :=
      h.reads fuel 126 t hf hn ht
    rw [field, if_pos rfl, hread]
    rfl

theorem isFieldText_base64 {text : String} (h : Json.IsAtom Json.quotedText s text) :
    IsFieldText "data_base64" 0 s (.text (some text)) where
  begins := by
    obtain ⟨b, r, rfl, hs, hb⟩ := h.begins
    exact Json.begins_of_isBracket hs hb
  reads fuel t _ _ ht := by
    have hread := h.reads t ht
    have htext : textOrNull (s ++ t) = some (some text, t) := by
      unfold textOrNull
      split
      next r hb =>
        rw [hb] at hread
        cases hread
      next => rw [hread]; rfl
    rw [field, if_neg (by decide), if_pos (by decide), htext]
    rfl

theorem isFieldText_unread (h : Json.skipped.IsValue n s ()) (hk : k ∉ fieldNames) :
    IsFieldText k n s .unread where
  begins := h.begins
  reads fuel t hf hn ht := by
    have hne : k ≠ "data" := by
      rintro rfl
      exact hk (by decide)
    rw [field, if_neg hne, if_neg (by simpa using hk), h.reads fuel fuel t hf hn ht]
    rfl

end

/-- A name and the text of its value. -/
def memberText (m : String × Bytes) : Bytes :=
  Json.quoted m.1 ++ 0x3A :: m.2

def text (members : List (String × Bytes)) : Bytes :=
  0x7B :: Json.commaSeparated (members.map memberText) ++ [0x7D]

/-- A member of which neither name nor value has a meaning. -/
def IsUnread (m : String × Bytes) : Prop :=
  m.1 ∉ fieldNames ∧ Json.IsText m.2

/-- The fields of an envelope with one member that is read. -/
def fieldsAround (before : List (String × Bytes)) (name : String) (x : Field)
    (after : List (String × Bytes)) : List (String × Field) :=
  before.map (fun m => (m.1, .unread)) ++ (name, x) :: after.map fun m => (m.1, .unread)

section
variable {members before after : List (String × Bytes)} {m : String × Bytes} {value : Bytes}
  {name : String} {x : Field}

theorem length_le_commaSeparated {bs : List Bytes} {b : Bytes} (h : b ∈ bs) :
    b.length ≤ (Json.commaSeparated bs).length := by
  fun_induction Json.commaSeparated bs with
  | case1 => cases h
  | case2 b' =>
    rw [List.mem_singleton.mp h]
  | case3 b' r _ ih =>
    rw [List.length_append, List.length_cons]
    rcases List.mem_cons.mp h with rfl | h
    · omega
    · have := ih h
      omega

theorem length_le_text (h : m ∈ members) : m.2.length ≤ (text members).length := by
  have hmember : (memberText m).length ≤ (Json.commaSeparated (members.map memberText)).length :=
    length_le_commaSeparated (List.mem_map_of_mem h)
  simp only [memberText, List.length_append, List.length_cons] at hmember
  simp only [text, List.length_append, List.length_cons]
  omega

/-- An envelope is read as the fields that its members are taken for. -/
theorem fields_text {fs : List (String × Field)}
    (h : List.Forall₂ (fun m f => m.1 = f.1 ∧
      ∃ n ≤ (text members).length, Json.Spaced (IsFieldText f.1) n m.2 f.2) members fs) :
    Json.whole (fields ((text members).length + 1)) (text members) = some fs := by
  obtain ⟨fuel, hfuel⟩ : ∃ fuel, fuel = (text members).length + 1 := ⟨_, rfl⟩
  have hmembers : List.Forall₂ (fun b f => ∃ n ≤ fuel, Json.Spaced IsField n b f)
      (members.map memberText) fs := by
    rw [List.forall₂_map_left_iff]
    refine h.imp fun m f hf => ?_
    obtain ⟨hname, n, hn, hf⟩ := hf
    rw [memberText, hname]
    exact spaced_field f.1 ⟨n, by omega, hf⟩
  obtain ⟨n, hn, henclosed⟩ : ∃ n ≤ fuel, Json.Enclosed 0x7D IsField n
      (Json.commaSeparated (members.map memberText) ++ [0x7D]) fs :=
    Json.enclosed_commaSeparated hmembers
  have hlength : (Json.commaSeparated (members.map memberText) ++ [0x7D]).length ≤ fuel := by
    simp only [hfuel, text, List.length_append, List.length_cons]
    omega
  have hitems := henclosed.reads (r := Json.member Json.quotedText (field fuel)) (.inr rfl)
    (fun _ _ _ hf => hf.begins)
    (fun m s f hm hs hf => ⟨hf.begins, fun t ht => hf.reads (by omega) (by omega) ht⟩) hlength []
  rw [List.append_nil] at hitems
  have hfields : fields fuel (text members) = some (fs, []) := hitems
  rw [Json.whole, show Json.skipSpace (text members) = text members from Json.skipSpace_cons rfl,
    ← hfuel, hfields]
  rfl

theorem not_mem_keys_unread (hunread : ∀ m ∈ members, IsUnread m) {k : String}
    (hk : k ∈ fieldNames) : k ∉ keys (members.map fun m => (m.1, Field.unread)) := by
  rw [keys, List.map_map]
  intro hmem
  obtain ⟨m, hm, rfl⟩ := List.mem_map.mp hmem
  exact (hunread m hm).1 hk

theorem lookup?_fieldsAround (hunread : ∀ m ∈ before ++ after, IsUnread m) {k : String}
    (hk : k ∈ fieldNames) :
    lookup? (fieldsAround before name x after) k = if name = k then some x else none := by
  obtain ⟨hbefore, hafter⟩ := List.forall_mem_append.mp hunread
  rw [fieldsAround, lookup?_append _ _ (not_mem_keys_unread hbefore hk), lookup?,
    lookup?_eq_none.mpr (not_mem_keys_unread hafter hk)]

theorem placesOnce_fieldsAround (hunread : ∀ m ∈ before ++ after, IsUnread m) :
    placesOnce (fieldsAround before name x after) = true := by
  obtain ⟨hbefore, hafter⟩ := List.forall_mem_append.mp hunread
  refine List.all_eq_true.mpr fun k hk => decide_eq_true ?_
  have hfirst := List.count_eq_zero_of_not_mem (not_mem_keys_unread hbefore hk)
  have hlast := List.count_eq_zero_of_not_mem (not_mem_keys_unread hafter hk)
  rw [keys] at hfirst hlast
  rw [fieldsAround, List.map_append, List.count_append, List.map_cons, List.count_cons, hfirst,
    hlast]
  split <;> omega

theorem spaced_unread (hname : name ∉ fieldNames) (h : Json.IsText value) :
    ∃ n ≤ value.length, Json.Spaced (IsFieldText name) n value .unread := by
  obtain ⟨n, h⟩ := h
  have hn := (h.nests fun _ _ _ hx => hx.nests).le_length
  obtain ⟨hw, hx, hv⟩ := h
  exact ⟨n, hn, .intro hw (isFieldText_unread hx hname) hv⟩

/-- An envelope with one member that is read. -/
theorem parse_text (hunread : ∀ m ∈ before ++ after, IsUnread m)
    (hx : Json.Spaced (IsFieldText name) 0 value x) :
    parse (text (before ++ (name, value) :: after)) =
      .ok (ofFields (fieldsAround before name x after)) := by
  obtain ⟨all, hall⟩ : ∃ all, all = before ++ (name, value) :: after := ⟨_, rfl⟩
  have hskipped {ms : List (String × Bytes)} (hms : ms ⊆ all) (hu : ∀ m ∈ ms, IsUnread m) :
      List.Forall₂ (fun m f => m.1 = f.1 ∧
        ∃ n ≤ (text all).length, Json.Spaced (IsFieldText f.1) n m.2 f.2) ms
        (ms.map fun m => (m.1, .unread)) := by
    rw [List.forall₂_map_right_iff, List.forall₂_same]
    intro m hm
    obtain ⟨n, hn, hspaced⟩ := spaced_unread (hu m hm).1 (hu m hm).2
    exact ⟨rfl, n, hn.trans (length_le_text (hms hm)), hspaced⟩
  obtain ⟨hbefore, hafter⟩ := List.forall_mem_append.mp hunread
  have hmembers : List.Forall₂ (fun m f => m.1 = f.1 ∧
      ∃ n ≤ (text all).length, Json.Spaced (IsFieldText f.1) n m.2 f.2) all
      (fieldsAround before name x after) := by
    conv => arg 2; rw [hall]
    exact List.rel_append (hskipped (by simp [hall]) hbefore)
      (.cons ⟨rfl, 0, Nat.zero_le _, hx⟩ (hskipped (by simp [hall]) hafter))
  have hfields := fields_text hmembers
  rw [parse, ← hall, hfields]
  simp only [placesOnce_fieldsAround hunread, if_true]

theorem textAt_fieldsAround (hunread : ∀ m ∈ before ++ after, IsUnread m) {k : String}
    (hk : k ∈ fieldNames) (hne : name ≠ k) :
    textAt (fieldsAround before name x after) k = none := by
  rw [textAt, lookup?_fieldsAround hunread hk, if_neg hne]

theorem ofFields_data (hunread : ∀ m ∈ before ++ after, IsUnread m) {j : Json} (hj : j ≠ .null) :
    ofFields (fieldsAround before "data" (.data j) after) =
      ⟨none, none, none, none, some j, none⟩ := by
  have hdata : dataAt (fieldsAround before "data" (.data j) after) = some j := by
    unfold dataAt
    rw [lookup?_fieldsAround hunread (by decide), if_pos rfl]
    cases j <;> first | rfl | exact absurd rfl hj
  rw [ofFields, hdata]
  simp (disch := decide) only [textAt_fieldsAround hunread]

theorem ofFields_base64 (hunread : ∀ m ∈ before ++ after, IsUnread m) (encoded : String) :
    ofFields (fieldsAround before "data_base64" (.text (some encoded)) after) =
      ⟨none, none, none, none, none, some encoded⟩ := by
  have hencoded : textAt (fieldsAround before "data_base64" (.text (some encoded)) after)
      "data_base64" = some encoded := by
    rw [textAt, lookup?_fieldsAround hunread (by decide), if_pos rfl]
  have hdata : dataAt (fieldsAround before "data_base64" (.text (some encoded)) after) = none := by
    rw [dataAt, lookup?_fieldsAround hunread (by decide), if_neg (by decide)]
  rw [ofFields, hdata, hencoded]
  simp (disch := decide) only [textAt_fieldsAround hunread]

theorem payload_base64 (b : Bytes) :
    payload ⟨none, none, none, none, none, some (Base64.text b)⟩ = .ok b := by
  simp only [payload, Base64.decode_text]
  rfl

end

end CloudEvent

section
variable {topic plain cloud : String} {body payload : Bytes} {entries : List (String × Json)}

theorem decode_plain (htype : IsNamed jsonType plain)
    (h : Json.parse? body = some (.object entries)) :
    Event.decode topic plain body = .ok ⟨none, topic, jsonType, body⟩ := by
  have hmedia := mediaType_of_isNamed htype (by simp [jsonType, isBlank])
  exact Event.decode_iff_brings.mpr (.plain hmedia h)

theorem decode_envelope (htype : IsNamed cloudEventsType cloud) {c : CloudEvent}
    (hc : CloudEvent.parse body = .ok c) (hid : c.id = none) (hp : c.payload = .ok payload)
    (h : Json.parse? payload = some (.object entries)) :
    Event.decode topic cloud body = .ok ⟨none, topic, jsonType, payload⟩ := by
  have hmedia := mediaType_of_isNamed htype (by simp [cloudEventsType, isBlank])
  have hdecoded : Event.decode topic cloud body = .ok _ :=
    Event.decode_iff_brings.mpr (.enveloped hmedia hc hp h)
  rwa [hid] at hdecoded

/-- A value of JSON in the place of data. -/
theorem spaced_data {n : Nat} {j : Json} (h : Json.Spaced Json.data.IsValue n body j)
    (hn : n ≤ 126) : Json.Spaced (CloudEvent.IsFieldText "data") 0 body (.data j) := by
  obtain ⟨hw, hx, hv⟩ := h
  exact .intro hw (CloudEvent.isFieldText_data hx hn) hv

theorem atom_of_spaced_string {n : Nat} {x : String}
    (h : Json.Spaced Json.data.IsValue n body (.string x)) :
    n = 0 ∧ Json.Spaced (CloudEvent.IsFieldText "data_base64") 0 body (.text (some x)) := by
  obtain ⟨hw, hx, hv⟩ := h
  have hatom := Json.atom_of_string hx
  refine ⟨?_, .intro hw (CloudEvent.isFieldText_base64 hatom) hv⟩
  rw [← Json.nesting_eq hx.nests, Json.nesting_eq hatom.nests]

end

/-- An object as text may be delivered by itself, or in an envelope as an object, as a string or in
base 64. However the content type is written and whatever else is in the envelope, the events have
the same entries, and the text as it was for a payload where it was not read on the way. -/
theorem deliveries_carry_same_event (t : String) (entries : List (String × Json)) (topic : String)
    (plain cloud : String) (before after : List (String × Bytes))
    (hread : Json.parse? (Bytes.ofString t) = some (.object entries))
    (hnesting : Json.nesting (Bytes.ofString t) ≤ 126) (hplain : IsNamed jsonType plain)
    (hcloud : IsNamed cloudEventsType cloud)
    (hunread : ∀ m ∈ before ++ after, CloudEvent.IsUnread m) :
    let event (payload : Bytes) : Event := ⟨none, topic, jsonType, payload⟩
    let envelope (name : String) (value : Bytes) :=
      CloudEvent.text (before ++ (name, value) :: after)
    Event.decode topic plain (Bytes.ofString t) = .ok (event (Bytes.ofString t)) ∧
    Event.decode topic cloud (envelope "data" (Bytes.ofString t)) =
      .ok (event (Json.object entries).write) ∧
    (∀ q, Json.parse? q = some (.string t) →
      Event.decode topic cloud (envelope "data" q) = .ok (event (Bytes.ofString t))) ∧
    (∀ q, Json.parse? q = some (.string (Base64.text (Bytes.ofString t))) →
      Event.decode topic cloud (envelope "data_base64" q) = .ok (event (Bytes.ofString t))) ∧
    (event (Bytes.ofString t)).entries = .ok entries ∧
    (event (Json.object entries).write).entries = .ok entries := by
  intro event envelope
  have hspaced := Json.spaced_of_parse? hread
  have hwritten := Json.parse?_write (Json.writable_of_parse? hread)
  refine ⟨decode_plain hplain hread, ?_, fun q hq => ?_, fun q hq => ?_,
    Event.entries_eq_ok.mpr hread, Event.entries_eq_ok.mpr hwritten⟩
  · refine decode_envelope hcloud (CloudEvent.parse_text hunread (spaced_data hspaced hnesting))
      ?_ ?_ hwritten
    all_goals rw [CloudEvent.ofFields_data hunread (by simp)]
    rfl
  · have hstring := Json.spaced_of_parse? hq
    have hdepth := (atom_of_spaced_string hstring).1
    refine decode_envelope hcloud
      (CloudEvent.parse_text hunread (spaced_data hstring (by omega))) ?_ ?_ hread
    all_goals rw [CloudEvent.ofFields_data hunread (by simp)]
    rfl
  · have hstring := (atom_of_spaced_string (Json.spaced_of_parse? hq)).2
    refine decode_envelope hcloud (CloudEvent.parse_text hunread hstring) ?_ ?_ hread
    all_goals rw [CloudEvent.ofFields_base64 hunread]
    exact CloudEvent.payload_base64 _

/-- A key that comes twice and a field that nobody reads. -/
theorem deliveries_carry_same_event_with_key_twice :
    let t := "\x7b\"a\": 1, \"a\": 2\x7d"
    let version : String × Bytes := ("specversion", Json.quoted "1.0")
    let event (payload : Bytes) : Event := ⟨none, "in", jsonType, payload⟩
    let entries : List (String × Json) := [("a", .integer 2)]
    let encoded := Json.quoted (Base64.text (Bytes.ofString t))
    Event.decode "in" "Application/JSON; charset=utf-8" (Bytes.ofString t) =
      .ok (event (Bytes.ofString t)) ∧
    Event.decode "in" "application/CloudEvents+json"
      (CloudEvent.text [version, ("data", Bytes.ofString t)]) =
        .ok (event (Json.object entries).write) ∧
    Event.decode "in" "application/CloudEvents+json"
      (CloudEvent.text [version, ("data", Json.quoted t)]) = .ok (event (Bytes.ofString t)) ∧
    Event.decode "in" "application/CloudEvents+json"
      (CloudEvent.text [version, ("data_base64", encoded)]) = .ok (event (Bytes.ofString t)) ∧
    (event (Bytes.ofString t)).entries = .ok entries ∧
    (event (Json.object entries).write).entries = .ok entries := by
  intro t version event entries encoded
  have hplain : IsNamed jsonType "Application/JSON; charset=utf-8" :=
    @IsNamed.intro jsonType [] "Application/JSON".toList [] "; charset=utf-8".toList
      (by simp) (by simp [jsonType]) (by simp) (by simp)
  have hcloud : IsNamed cloudEventsType "application/CloudEvents+json" :=
    @IsNamed.intro cloudEventsType [] "application/CloudEvents+json".toList [] []
      (by simp) (by simp [cloudEventsType]) (by simp) (by simp)
  have hquoted (x : String) : Json.parse? (Json.quoted x) = some (.string x) :=
    Json.parse?_write (j := .string x) .string
  have hunread : ∀ m ∈ [version] ++ [], CloudEvent.IsUnread m :=
    List.forall_mem_singleton.mpr ⟨by decide, Json.isText_of_parse? (hquoted "1.0")⟩
  have hread : Json.parse? (Bytes.ofString t) = some (.object entries) := by
    cbv
  obtain ⟨hjson, hobject, hstring, hbase64, hentries, hwritten⟩ :=
    deliveries_carry_same_event t entries "in" _ _ [version] [] hread (by decide) hplain hcloud
      hunread
  exact ⟨hjson, hobject, hstring _ (hquoted t), hbase64 _ (hquoted _), hentries, hwritten⟩

end EventStream
