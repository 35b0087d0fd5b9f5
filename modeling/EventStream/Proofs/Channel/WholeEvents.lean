import EventStream.Proofs.Channel.EventAccounts
import EventStream.Proofs.Channel.Objects
import EventStream.Proofs.Expr.EventData
import EventStream.Proofs.Expr.Parts
import EventStream.Proofs.Syntax.Names

namespace EventStream

/-- A name compiles to the variable that it names. -/
theorem Program.eq_of_compile_name {name : String} {p : Program}
    (h : Program.compile name [name] = .ok p) : p = ⟨name, [name], .variable name⟩ := by
  have hname := Program.compile_name (Program.isIdentifier_of_compile h) List.mem_cons_self
  exact Except.ok.inj (h.symm.trans hname)

namespace Channel

variable {c : Channel} {config : ChannelConfig} {e : Event} {v : Value} {b : Bytes}

theorem ofConfig_eq_ok (h : ofConfig config = .ok c) :
    Role.filter.compile [config.binding] config.filter = .ok c.filter ∧
      Role.select.compile [config.binding] config.select = .ok c.select ∧
      c.binding = config.binding := by
  obtain ⟨filter, hf, h⟩ := bind_eq_ok.mp h
  obtain ⟨select, hs, h⟩ := bind_eq_ok.mp h
  cases hm : config.mode with
  | stream =>
    rw [hm] at h
    cases Except.ok.inj h
    exact ⟨hf, hs, rfl⟩
  | aggregate =>
    rw [hm] at h
    obtain ⟨gate, _, h⟩ := bind_eq_ok.mp h
    cases Except.ok.inj h
    exact ⟨hf, hs, rfl⟩

/-- What selects the whole event. -/
theorem select_of_binding (h : ofConfig config = .ok c) (hs : config.select = some config.binding) :
    c.select = some ⟨c.binding, [c.binding], .variable c.binding⟩ := by
  obtain ⟨_, hselect, hbinding⟩ := ofConfig_eq_ok h
  rw [hs, ← hbinding] at hselect
  unfold Role.compile at hselect
  simp only at hselect
  split at hselect
  next p hp => rw [← Except.ok.inj hselect, Program.eq_of_compile_name hp]
  next => cases hselect

theorem collect_of_binding (hs : c.select = some ⟨c.binding, [c.binding], .variable c.binding⟩)
    (hv : e.value = .ok v) (hb : v.jsonBytes = .ok b) : c.collect e = .ok b := by
  have hget : (c.bindings v).get? c.binding = some v := by
    rw [bindings, Bindings.get?, Bindings.insert, lookup?_setEntry, if_pos rfl]
  have hvalue : (⟨c.binding, [c.binding], .variable c.binding⟩ : Program).evaluate (c.bindings v) =
      .ok v := by
    rw [Program.evaluate, Expr.eval, Eval.eval]
    simp only [hget]
  unfold collect
  rw [hv, hs]
  change Program.selected _ (c.bindings v) = _
  unfold Program.selected Program.valueOf
  rw [hvalue]
  change v.jsonBytes.mapError ProcessorError.eval = _
  rw [hb]
  rfl

theorem pass_of_trigger?_eq_none (ht : c.trigger? = none) (payload : Bytes) (now : Instant) :
    c.pass payload now = .ok (some payload, c) := by
  obtain ⟨binding, filter, select, _ | ⟨_ | trigger, pending, since⟩⟩ := c
  · rfl
  · rfl
  · cases ht

/-- Without a trigger, what is selected of an event that the filter lets through goes out. -/
theorem process_of_collect (hf : c.shouldCollect e = .ok true) (hc : c.collect e = .ok b)
    (ht : c.trigger? = none) (now : Instant) : c.process e now = .ok (.emit ⟨b⟩, c) := by
  unfold process
  rw [hf]
  change (c.collect e >>= _) = _
  rw [hc]
  change (c.pass b now >>= _) = _
  rw [pass_of_trigger?_eq_none ht]
  rfl

theorem shouldCollect_of_filter_eq_none (h : ofConfig config = .ok c) (hf : config.filter = none) :
    c.shouldCollect e = .ok true := by
  obtain ⟨hfilter, _, _⟩ := ofConfig_eq_ok h
  rw [hf] at hfilter
  unfold shouldCollect
  rw [← Except.ok.inj hfilter]

end Channel

/-- What is read from a text has numbers that are integers or finite doubles. Any JSON with such
numbers comes back from its value as the same data with each number rounded to a double; nothing is
lost exactly when doubles stand for all its numbers, and only for integers beyond `2 ^ 53` they may
not. A channel that selects its variable sends just this for each object that its filter lets
through. How a text with a decimal is rounded when it is read does not matter here. -/
theorem whole_events_rounded :
    (∀ b j, Json.parse? b = some j → ∃ levels, Json.Writable levels j) ∧
    ∀ levels j, Json.Writable levels j →
      ∃ j', (Value.ofJson j).toJson = .ok j' ∧ Json.Writable levels j' ∧
        j'.datum id = j.datum Double.rounded ∧
        (j'.datum id = j.datum id ↔ ∀ q, Json.Holds q j → Double.IsExact q) ∧
        (∀ q, Json.Holds q j → Double.IsExact q ∨ ∃ m : Int, q = m ∧ 2 ^ 53 < m.natAbs) ∧
        ∀ config c e, Channel.ofConfig config = .ok c → config.select = some config.binding →
          Json.parse? e.payload = some j → (∃ entries, j = .object entries) →
          c.collect e = .ok j'.write ∧
          ∀ now, config.mode = .stream ∨ config.trigger = none →
            config.filter = none ∨ c.shouldCollect e = .ok true →
            c.process e now = .ok (.emit ⟨j'.write⟩, c) := by
  refine ⟨fun b j h => ⟨_, Json.writable_of_parse? h⟩, fun levels j hw => ?_⟩
  obtain ⟨j', hj', hw', hdatum, hexact⟩ := Value.json_of_writable hw
  refine ⟨j', hj', hw', hdatum, hexact, fun q hq => Json.isExact_or_of_holds hq, ?_⟩
  rintro config c e hc hs hread ⟨entries, rfl⟩
  have hv := Event.value_of_object hread
  have hbytes : (Value.ofJson (.object entries)).jsonBytes = .ok j'.write := by
    unfold Value.jsonBytes
    rw [hj']
  have hcollect := Channel.collect_of_binding (Channel.select_of_binding hc hs) hv hbytes
  refine ⟨hcollect, fun now hmode hf => ?_⟩
  have hwanted : c.shouldCollect e = .ok true :=
    hf.elim (Channel.shouldCollect_of_filter_eq_none hc) id
  exact Channel.process_of_collect hwanted hcollect ((Channel.ofConfig_gate hc).2.1 hmode) now

def wholeEvents : ChannelConfig where
  listenAddr := ⟨.v4 [0, 0, 0, 0], 8080⟩
  serviceRoute := "in"
  source := none
  binding := "event"
  mode := .stream
  trigger := none
  filter := none
  select := some "event"
  targets := ⟨none, some ⟨"sink", "sink"⟩⟩

/-- An object whose number no double stands for. -/
def oddNumber : Json :=
  .object [("n", .integer 9007199254740993)]

theorem toJson_oddNumber :
    (Value.ofJson oddNumber).toJson = .ok (.object [("n", .integer 9007199254740992)]) := by
  have hwhole : (Double.ofInt 9007199254740993).whole? = some 9007199254740992 := by
    decide +kernel
  have hjson : Value.doubleJson (.ofInt 9007199254740993) = .ok (.integer 9007199254740992) := by
    unfold Value.doubleJson
    rw [hwhole]
    rfl
  rw [oddNumber, Value.ofJson, Value.ofEntries, Value.ofJson, Value.ofEntries, Value.toJson,
    Value.jsonEntries, Value.toJson, hjson]
  rfl

theorem whole_events_rounded_odd_number :
    let e : Event := ⟨none, "in", jsonType, Bytes.ofString "\x7b\"n\":9007199254740993\x7d"⟩
    ∃ c, Channel.ofConfig wholeEvents = .ok c ∧ Json.parse? e.payload = some oddNumber ∧
      c.process e 0 = .ok (.emit ⟨Bytes.ofString "\x7b\"n\":9007199254740992\x7d"⟩, c) := by
  intro e
  have hparse : Json.parse? e.payload = some oddNumber := by
    cbv
  have hc : Channel.ofConfig wholeEvents =
      .ok ⟨"event", none, some ⟨"event", ["event"], .variable "event"⟩, none⟩ := by
    cbv
  obtain ⟨hreads, hrounds⟩ := whole_events_rounded
  obtain ⟨levels, hwritable⟩ := hreads _ _ hparse
  obtain ⟨j', hj', _, _, _, _, hchannel⟩ := hrounds levels oddNumber hwritable
  rw [toJson_oddNumber] at hj'
  cases hj'
  obtain ⟨_, hprocess⟩ := hchannel wholeEvents _ e hc rfl hparse ⟨_, rfl⟩
  refine ⟨_, hc, hparse, (hprocess 0 (.inl rfl) (.inl rfl)).trans ?_⟩
  have hwrite : (Json.object [("n", .integer 9007199254740992)]).write =
      Bytes.ofString "\x7b\"n\":9007199254740992\x7d" := by
    cbv
  rw [hwrite]

/-- Not all that is read comes back as it was. -/
theorem odd_number_changes :
    ¬∀ b j, Json.parse? b = some j →
      ∃ j', (Value.ofJson j).toJson = .ok j' ∧ j'.datum id = j.datum id := by
  intro h
  have hparse : Json.parse? (Bytes.ofString "\x7b\"n\":9007199254740993\x7d") =
      some oddNumber := by
    cbv
  obtain ⟨j', hj', hdatum⟩ := h _ _ hparse
  rw [toJson_oddNumber] at hj'
  cases hj'
  simp [oddNumber, Json.datum, Json.entryData] at hdatum

end EventStream
