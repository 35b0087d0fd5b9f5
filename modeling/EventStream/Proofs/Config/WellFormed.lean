import EventStream.Config.Runtime
import EventStream.Output.Router
import EventStream.Proofs.Entries
import EventStream.Proofs.Server.Routes
import EventStream.Proofs.Targets
import EventStream.Proofs.Traversal
import EventStream.Service

namespace EventStream

/-- There is a target, and each one is well formed. -/
structure Targets.WellFormed (t : Targets) : Prop where
  isSet : ∃ kind, (t.of kind).isSome
  wellFormed : ∀ kind target, t.of kind = some target → target.WellFormed

namespace Settings

variable {s : Settings} {key componentKey streamKey : String}

theorem wellFormed_of_target {t : Target} (h : s.target key = .ok (some t)) : t.WellFormed := by
  unfold target at h
  split at h
  next => cases h
  next =>
    split at h
    next ht =>
      cases h
      exact Target.wellFormed_of_parse ht
    next => cases h

theorem wellFormed_of_targets {t : Targets} (h : s.targets componentKey streamKey = .ok t) :
    t.WellFormed := by
  obtain ⟨component, hcomponent, h⟩ := bind_eq_ok.mp h
  obtain ⟨stream, hstream, h⟩ := bind_eq_ok.mp h
  obtain ⟨hset, h⟩ := refused_unless_eq_ok h
  cases h
  refine ⟨?_, fun kind target hk => ?_⟩
  · cases stream with
    | some t => exact ⟨.publish, rfl⟩
    | none =>
      cases component with
      | some t => exact ⟨.invoke, rfl⟩
      | none => exact absurd rfl hset
  · cases kind with
    | publish =>
      cases hk
      exact wellFormed_of_target hstream
    | invoke =>
      cases hk
      exact wellFormed_of_target hcomponent

theorem pos_of_positiveDuration {text : String} {d : Duration}
    (h : positiveDuration key text = .ok d) : 0 < d.nanos := by
  unfold positiveDuration at h
  split at h
  next => cases h
  next =>
    obtain ⟨hzero, h⟩ := refused_unless_eq_ok h
    cases h
    exact Nat.pos_of_ne_zero hzero

end Settings

/-- Routes that are accepted are none of those that came before, none that is kept, and all
different. -/
theorem checkRoutes_eq_ok {setting : String} {seen routes : List String}
    (h : checkRoutes setting seen routes = .ok ()) :
    (reservedRoutes ++ routes).Nodup ∧ ∀ r ∈ routes, r ∉ seen := by
  induction routes generalizing seen with
  | nil => exact ⟨by decide, fun _ hr => nomatch hr⟩
  | cons r routes ih =>
    obtain ⟨hreserved, h⟩ := refused_unless_eq_ok h
    obtain ⟨hseen, h⟩ := refused_unless_eq_ok h
    obtain ⟨hnodup, hfresh⟩ := ih h
    rw [List.contains_iff_mem] at hreserved hseen
    refine ⟨?_, List.forall_mem_cons.mpr ⟨hseen, fun x hx hm => ?_⟩⟩
    · rw [List.nodup_middle]
      refine List.nodup_cons.mpr ⟨fun hm => ?_, hnodup⟩
      rcases List.mem_append.mp hm with hm | hm
      · exact hreserved hm
      · exact hfresh r hm List.mem_cons_self
    · exact hfresh x hx (List.mem_cons_of_mem r hm)

namespace IngestServer

/-- The routes of a server besides those that are reserved. -/
def routes (s : IngestServer) : List String :=
  (s.invocation.map Prod.fst).toList ++ s.streams.map Subscription.route

def pathOf (route : String) : List Char :=
  '/' :: route.toList

theorem keys_endpoints (s : IngestServer) :
    keys s.endpoints = (reservedRoutes ++ s.routes).map pathOf := by
  unfold keys endpoints routes
  have hreserved : reservedRoutes.map pathOf = ["/health".toList, "/dapr/subscribe".toList] := by
    decide
  rw [List.map_append (f := pathOf), hreserved]
  cases s.invocation <;> simp [Function.comp_def, pathOf, Subscription.path]

/-- No two places of a server have one path. Where no path has a name in it, a request finds the
place whose path it has, and nothing else. -/
structure Separate (s : IngestServer) : Prop where
  paths_nodup : (keys s.endpoints).Nodup
  found_eq : (∀ path ∈ keys s.endpoints, Path.IsLiteral path) →
    ∀ r, s.found r = (lookup? s.endpoints r.place).toList

theorem filter_eq_lookup? {α : Type} {entries : List (List Char × α)}
    (h : (keys entries).Nodup) (k : List Char) :
    (entries.filter fun e => e.1 = k).map Prod.snd = (lookup? entries k).toList := by
  induction entries with
  | nil => rfl
  | cons e entries ih =>
    obtain ⟨n, x⟩ := e
    obtain ⟨hn, hnodup⟩ := List.nodup_cons.mp h
    by_cases hk : n = k
    · have hnone : entries.filter (fun e => e.1 = k) = [] := by
        refine List.filter_eq_nil_iff.mpr fun d hd => ?_
        have : d.1 ∈ keys entries := List.mem_map_of_mem hd
        simpa using fun hdk : d.1 = k => hn (hk ▸ hdk ▸ this)
      simp [lookup?, hk, hnone]
    · simpa [lookup?, hk] using ih hnodup

theorem separate_of_checkRoutes {s : IngestServer} {setting : String}
    (h : checkRoutes setting [] s.routes = .ok ()) : s.Separate := by
  have hnodup : (keys s.endpoints).Nodup := by
    rw [keys_endpoints]
    refine List.Nodup.map ?_ (checkRoutes_eq_ok h).1
    intro a b hab
    exact String.toList_inj.mp (List.cons.inj hab).2
  refine ⟨hnodup, fun hliteral r => ?_⟩
  unfold found
  rw [Path.lookup_of_isLiteral fun e he => hliteral e.1 (List.mem_map_of_mem he),
    filter_eq_lookup? hnodup]

end IngestServer

theorem ChannelConfig.separate_of_ofSettings {s : Settings} {c : ChannelConfig}
    (h : ofSettings s = .ok c) : c.targets.WellFormed ∧ (IngestServer.ofChannel c).Separate := by
  obtain ⟨_, _, h⟩ := bind_eq_ok.mp h
  obtain ⟨route, _, h⟩ := bind_eq_ok.mp h
  obtain ⟨source, _, h⟩ := bind_eq_ok.mp h
  obtain ⟨_, _, h⟩ := bind_eq_ok.mp h
  obtain ⟨_, hroutes, h⟩ := bind_eq_ok.mp h
  obtain ⟨targets, htargets, h⟩ := bind_eq_ok.mp h
  cases h
  refine ⟨Settings.wellFormed_of_targets htargets, ?_⟩
  apply IngestServer.separate_of_checkRoutes
  rw [← hroutes]
  cases source <;> rfl

/-- What is accepted as a pair of streams. -/
theorem JoinerConfig.pairOf_eq_ok {streams : List Subscription} {left right : Subscription}
    (h : pairOf streams = .ok (left, right)) :
    left.topic ≠ right.topic ∧ left.binding ≠ right.binding ∧
      checkRoutes streamsKey [] [left.route, right.route] = .ok () := by
  unfold pairOf at h
  split at h
  next =>
    obtain ⟨htopic, h⟩ := refused_unless_eq_ok h
    obtain ⟨hbinding, h⟩ := refused_unless_eq_ok h
    obtain ⟨_, hroutes, h⟩ := bind_eq_ok.mp h
    cases h
    exact ⟨htopic, hbinding, hroutes⟩
  next => cases h

/-- An accepted joiner has two streams that are different, paths of their own, and time to wait. -/
theorem JoinerConfig.ofSettings_eq_ok {s : Settings} {c : JoinerConfig} (h : ofSettings s = .ok c) :
    c.targets.WellFormed ∧ (IngestServer.ofJoiner c).Separate ∧
      c.left.topic ≠ c.right.topic ∧ c.left.binding ≠ c.right.binding ∧ 0 < c.window.nanos := by
  obtain ⟨_, _, h⟩ := bind_eq_ok.mp h
  obtain ⟨_, _, h⟩ := bind_eq_ok.mp h
  obtain ⟨⟨left, right⟩, hpair, h⟩ := bind_eq_ok.mp h
  obtain ⟨window, hwindow, h⟩ := bind_eq_ok.mp h
  obtain ⟨_, _, h⟩ := bind_eq_ok.mp h
  obtain ⟨targets, htargets, h⟩ := bind_eq_ok.mp h
  cases h
  obtain ⟨htopic, hbinding, hroutes⟩ := JoinerConfig.pairOf_eq_ok hpair
  exact ⟨Settings.wellFormed_of_targets htargets, IngestServer.separate_of_checkRoutes hroutes,
    htopic, hbinding, Settings.pos_of_positiveDuration hwindow⟩

theorem RuntimeConfig.pos_of_queueCapacityOf {s : Settings} {n : Nat}
    (h : queueCapacityOf s = .ok n) : 0 < n := by
  unfold queueCapacityOf at h
  split at h
  next =>
    cases h
    decide
  next =>
    split at h
    next hn =>
      cases h
      simpa using (Option.filter_eq_some_iff.mp hn).2
    next => cases h

theorem RuntimeConfig.pos_of_dispatchTimeoutOf {s : Settings} {d : Duration}
    (h : dispatchTimeoutOf s = .ok d) : 0 < d.nanos := by
  unfold dispatchTimeoutOf at h
  split at h
  next =>
    cases h
    decide
  next => exact Settings.pos_of_positiveDuration h

/-- An accepted configuration has a target, every target an endpoint without slashes and a route,
and no path comes twice; paths without names do not get in each other's way. The streams of a joiner
differ in topic and variable, and its window is positive; so are the capacity of queues and the time
that a dispatch may take. -/
theorem ofSettings_wellFormed (s : Settings) :
    (∀ c, ChannelConfig.ofSettings s = .ok c →
      c.targets.WellFormed ∧ (IngestServer.ofChannel c).Separate) ∧
    (∀ c, JoinerConfig.ofSettings s = .ok c →
      c.targets.WellFormed ∧ (IngestServer.ofJoiner c).Separate ∧
      c.left.topic ≠ c.right.topic ∧ c.left.binding ≠ c.right.binding ∧ 0 < c.window.nanos) ∧
    ∀ c, RuntimeConfig.ofSettings s = .ok c →
      0 < c.queueCapacity ∧ 0 < c.dispatchTimeout.nanos := by
  refine ⟨fun c h => ChannelConfig.separate_of_ofSettings h,
    fun c h => JoinerConfig.ofSettings_eq_ok h, fun c h => ?_⟩
  obtain ⟨_, _, h⟩ := bind_eq_ok.mp h
  obtain ⟨capacity, hcapacity, h⟩ := bind_eq_ok.mp h
  obtain ⟨_, _, h⟩ := bind_eq_ok.mp h
  obtain ⟨_, _, h⟩ := bind_eq_ok.mp h
  obtain ⟨_, _, h⟩ := bind_eq_ok.mp h
  obtain ⟨timeout, htimeout, h⟩ := bind_eq_ok.mp h
  cases h
  exact ⟨RuntimeConfig.pos_of_queueCapacityOf hcapacity,
    RuntimeConfig.pos_of_dispatchTimeoutOf htimeout⟩

def orderSettings : Settings :=
  lookup? [("APP_ID", "in"), ("CHANNEL_STREAM_INFO", "ps|orders"), ("CHANNEL_TARGET", "sink"),
    ("JOINER_STREAMS_INFO", "ps|A;ps|B|/b"), ("JOINER_STREAM_TARGET", "ps/out")]

def orderPairs : JoinerConfig where
  listenAddr := ⟨.v4 [0, 0, 0, 0], 8080⟩
  left := ⟨"ps", "A", "A"⟩
  right := ⟨"ps", "B", "b"⟩
  window := ⟨10 * 1000000⟩
  requireFilter := true
  filter := none
  select := none
  targets := ⟨some ⟨"ps", "out"⟩, none⟩

theorem ofSettings_orderSettings : JoinerConfig.ofSettings orderSettings = .ok orderPairs := by
  have hstreams :
      JoinerConfig.streamsOf orderSettings = .ok [orderPairs.left, orderPairs.right] := rfl
  have hpair : JoinerConfig.pairOf [orderPairs.left, orderPairs.right] =
      .ok (orderPairs.left, orderPairs.right) := rfl
  have hwindow : Settings.positiveDuration "JOINER_WINDOW_SIZE" "10ms" = .ok orderPairs.window := by
    cbv
  refine bind_eq_ok.mpr ⟨_, rfl, bind_eq_ok.mpr ⟨_, hstreams, bind_eq_ok.mpr ⟨_, hpair, ?_⟩⟩⟩
  refine bind_eq_ok.mpr ⟨_, hwindow, bind_eq_ok.mpr ⟨orderPairs.requireFilter, rfl, ?_⟩⟩
  exact bind_eq_ok.mpr ⟨orderPairs.targets, rfl, rfl⟩

theorem ofSettings_wellFormed_of_orders :
    JoinerConfig.ofSettings orderSettings = .ok orderPairs ∧ orderPairs.targets.WellFormed ∧
    (IngestServer.ofJoiner orderPairs).Separate ∧ 0 < orderPairs.window.nanos ∧
    ∃ c r, ChannelConfig.ofSettings orderSettings = .ok c ∧
      RuntimeConfig.ofSettings orderSettings = .ok r ∧ c.targets.WellFormed ∧
      (IngestServer.ofChannel c).Separate ∧ 0 < r.queueCapacity ∧ 0 < r.dispatchTimeout.nanos := by
  obtain ⟨hchannel, hjoiner, hruntime⟩ := ofSettings_wellFormed orderSettings
  have hc : ChannelConfig.ofSettings orderSettings = .ok _ := rfl
  have hr : RuntimeConfig.ofSettings orderSettings = .ok _ := rfl
  obtain ⟨hctargets, hcseparate⟩ := hchannel _ hc
  obtain ⟨hjtargets, hjseparate, _, _, hwindow⟩ := hjoiner _ ofSettings_orderSettings
  exact ⟨ofSettings_orderSettings, hjtargets, hjseparate, hwindow, _, _, hc, hr, hctargets,
    hcseparate, hruntime _ hr⟩

/-- Two routes that are one name each, and so one pattern. -/
def namedRoutes : Settings :=
  lookup? [("APP_ID", ":a"), ("CHANNEL_STREAM_INFO", "ps|orders|:b"), ("CHANNEL_TARGET", "sink")]

theorem named_routes_clash :
    ∃ c, ChannelConfig.ofSettings namedRoutes = .ok c ∧
      (IngestServer.ofChannel c).found ⟨"POST", "/:b", none, []⟩ =
        [.invocation "orders", .delivery "orders"] :=
  ⟨_, rfl, rfl⟩

end EventStream
