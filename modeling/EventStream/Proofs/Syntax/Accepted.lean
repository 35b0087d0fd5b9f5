import EventStream.Proofs.Syntax.Grammar

namespace EventStream

namespace Parser

/-- The tokens up to some of the last ones are those of a phrase. -/
def Derived (p : Phrase) (ts rest : Tokens) : Prop :=
  ∃ us, Spans us ts rest ∧ Derives p us

section
variable {ts mid rest : Tokens} {e : Expr} {close : Symbol}

theorem spans_of_peek {t : Token} (h : peek ts = t) (ht : t ≠ .ending) : Spans [t] ts (ts.drop 1) :=
  ⟨h, ht, rfl⟩

theorem expect_ok (h : expect close ts = .ok rest) : Spans [.symbol close] ts rest := by
  unfold expect at h
  split at h
  next hp =>
    cases h
    exact spans_of_peek hp (by simp)
  next => cases h

theorem name_ok {n : String} (h : name ts = .ok (n, rest)) : Spans [.identifier n] ts rest := by
  unfold name at h
  split at h
  next hp =>
    cases h
    exact spans_of_peek hp (by simp)
  next => cases h

theorem closed_of_expect
    (h : expect close (if peek ts = .symbol .comma then ts.drop 1 else ts) = .ok rest) :
    Closed close ts rest := by
  split at h
  next hc => exact .inr ((spans_of_peek hc (by simp)).trans (expect_ok h))
  next => exact .inl (expect_ok h)

theorem callOf_ok {function : String} {arguments : List Expr}
    (h : callOf function arguments = .ok e) :
    (function ≠ "has" ∧ e = .call function none arguments) ∨
      ∃ target field, function = "has" ∧ arguments = [.member target field] ∧
        e = .has target field := by
  unfold callOf at h
  split at h
  next hf =>
    split at h
    next target field => cases h; exact .inr ⟨target, field, hf, rfl, rfl⟩
    next => cases h
    next => cases h
  next hf => cases h; exact .inl ⟨hf, rfl⟩

end

/-- What each function says when it succeeds with an amount of fuel. -/
structure Sound (fuel : Nat) : Prop where
  expression {room ts e rest} : expression fuel room ts = .ok (e, rest) →
    Derived (.expression e) ts rest
  chain {level room ts e rest} : chain fuel level room ts = .ok (e, rest) →
    Derived (.chain level e) ts rest
  chainFrom {level left room ts mid e rest} : Derived (.chain level left) ts mid →
    chainFrom fuel level left room mid = .ok (e, rest) → Derived (.chain level e) ts rest
  operand {level room ts e rest} : operand fuel level room ts = .ok (e, rest) →
    Derived (.operand level e) ts rest
  signed {room ts e rest} : signed fuel room ts = .ok (e, rest) → Derived (.signed e) ts rest
  selection {room ts e rest} : selection fuel room ts = .ok (e, rest) →
    Derived (.selection e) ts rest
  selectionFrom {target room ts mid e rest} : Derived (.selection target) ts mid →
    selectionFrom fuel target room mid = .ok (e, rest) → Derived (.selection e) ts rest
  primary {room ts e rest} : primary fuel room ts = .ok (e, rest) → Derived (.primary e) ts rest
  elements {close room ts es rest} : elements fuel close room ts = .ok (es, rest) →
    ∃ mid, Derived (.arguments es) ts mid ∧ Spans [.symbol close] mid rest
  elementsFrom {close done room ts es rest} :
    elementsFrom fuel close done room ts = .ok (es, rest) →
      ∃ last mid, es = done.reverse ++ last ∧ Derived (.items last) ts mid ∧ Closed close mid rest
  entries {room ts es rest} : entries fuel room ts = .ok (es, rest) →
    ∃ mid, Derived (.entries es) ts mid ∧ Spans [.symbol .rightBrace] mid rest
  entriesFrom {done room ts es rest} : entriesFrom fuel done room ts = .ok (es, rest) →
    ∃ last mid, es = done.reverse ++ last ∧ Derived (.pairs last) ts mid ∧
      Closed .rightBrace mid rest

section
variable {fuel room : Nat} {level : Level} {close : Symbol} {ts mid rest : Tokens} {e left : Expr}
  {es done : List Expr} {ps found : List (String × Expr)} (ih : Sound fuel)

include ih

theorem expression_sound (h : expression (fuel + 1) room ts = .ok (e, rest)) :
    Derived (.expression e) ts rest := by
  cases room with
  | zero => cases h
  | succ room =>
    obtain ⟨⟨c, afterC⟩, hc, h⟩ := bind_eq_ok.mp h
    obtain ⟨us, hus, hcond⟩ := ih.chain hc
    dsimp only at h
    split at h
    next hq =>
      obtain ⟨⟨y, afterY⟩, hy, h⟩ := bind_eq_ok.mp h
      obtain ⟨colon, hcolon, h⟩ := bind_eq_ok.mp h
      obtain ⟨⟨n, afterN⟩, hn, h⟩ := bind_eq_ok.mp h
      cases h
      obtain ⟨vs, hvs, hy⟩ := ih.chain hy
      obtain ⟨ws, hws, hn⟩ := ih.expression hn
      have hq := spans_of_peek hq (by simp)
      exact ⟨_, ((hus.trans (hq.trans hvs)).trans ((expect_ok hcolon).trans hws)),
        .conditional hcond hy hn⟩
    next =>
      cases h
      exact ⟨us, hus, .unconditional hcond⟩

theorem chain_sound (h : chain (fuel + 1) level room ts = .ok (e, rest)) :
    Derived (.chain level e) ts rest := by
  obtain ⟨⟨first, mid⟩, hf, h⟩ := bind_eq_ok.mp h
  obtain ⟨us, hus, hf⟩ := ih.operand hf
  exact ih.chainFrom ⟨us, hus, .operand hf⟩ h

theorem chainFrom_sound (hl : Derived (.chain level left) ts mid)
    (h : chainFrom (fuel + 1) level left room mid = .ok (e, rest)) :
    Derived (.chain level e) ts rest := by
  unfold chainFrom at h
  split at h
  next => cases h; exact hl
  next => cases h
  next op room hop =>
    obtain ⟨rfl, ht⟩ := operator?_eq_some.mp hop
    obtain ⟨⟨right, after⟩, hr, h⟩ := bind_eq_ok.mp h
    obtain ⟨us, hus, hl⟩ := hl
    obtain ⟨vs, hvs, hr⟩ := ih.operand hr
    have hspan : Spans [op.token] mid (mid.drop 1) :=
      spans_of_peek ht.symm (by cases op <;> simp [BinaryOp.token])
    exact ih.chainFrom ⟨_, hus.trans (hspan.trans hvs), .operator op hl hr⟩ h

theorem operand_sound (h : operand (fuel + 1) level room ts = .ok (e, rest)) :
    Derived (.operand level e) ts rest := by
  cases level with
  | or | and | comparison | sum => exact ih.chain h
  | product => exact ih.signed h

theorem signed_sound (h : signed (fuel + 1) room ts = .ok (e, rest)) :
    Derived (.signed e) ts rest := by
  unfold signed at h
  split at h
  next =>
    obtain ⟨us, hus, h⟩ := ih.selection h
    exact ⟨us, hus, .unsigned h⟩
  next => cases h
  next op room hop =>
    obtain ⟨⟨operand, after⟩, ho, h⟩ := bind_eq_ok.mp h
    cases h
    obtain ⟨us, hus, ho⟩ := ih.signed ho
    have hspan : Spans [op.token] ts (ts.drop 1) :=
      spans_of_peek (sign?_eq_some.mp hop).symm (by cases op <;> simp [UnaryOp.token])
    exact ⟨_, hspan.trans hus, .sign op ho⟩

theorem selection_sound (h : selection (fuel + 1) room ts = .ok (e, rest)) :
    Derived (.selection e) ts rest := by
  obtain ⟨⟨first, mid⟩, hf, h⟩ := bind_eq_ok.mp h
  obtain ⟨us, hus, hf⟩ := ih.primary hf
  exact ih.selectionFrom ⟨us, hus, .primary hf⟩ h

theorem selectionFrom_sound (hl : Derived (.selection left) ts mid)
    (h : selectionFrom (fuel + 1) left room mid = .ok (e, rest)) :
    Derived (.selection e) ts rest := by
  have ⟨us, hus, hd⟩ := hl
  unfold selectionFrom at h
  split at h
  next => cases h
  next room hdot =>
    have hdot := spans_of_peek hdot (by simp)
    obtain ⟨⟨field, named⟩, hn, h⟩ := bind_eq_ok.mp h
    have hn := name_ok hn
    dsimp only at h
    split at h
    next hparen =>
      obtain ⟨⟨arguments, after⟩, ha, h⟩ := bind_eq_ok.mp h
      obtain ⟨closing, ⟨vs, hvs, ha⟩, hclose⟩ := ih.elements ha
      have hparen := spans_of_peek hparen (by simp)
      exact ih.selectionFrom ⟨_, hus.trans (hdot.trans (hn.trans (hparen.trans
        (hvs.trans hclose)))), .method field hd ha⟩ h
    next =>
      exact ih.selectionFrom ⟨_, hus.trans (hdot.trans hn), .member field hd⟩ h
  next => cases h
  next room hbracket =>
    obtain ⟨⟨position, inside⟩, hp, h⟩ := bind_eq_ok.mp h
    obtain ⟨after, hclose, h⟩ := bind_eq_ok.mp h
    obtain ⟨vs, hvs, hp⟩ := ih.expression hp
    have hbracket := spans_of_peek hbracket (by simp)
    exact ih.selectionFrom ⟨_, hus.trans (hbracket.trans (hvs.trans (expect_ok hclose))),
      .index hd hp⟩ h
  next =>
    cases h
    exact hl

theorem primary_sound (h : primary (fuel + 1) room ts = .ok (e, rest)) :
    Derived (.primary e) ts rest := by
  unfold primary at h
  split at h
  next hp => cases h; exact ⟨_, spans_of_peek hp (by simp), .null⟩
  next hp => cases h; exact ⟨_, spans_of_peek hp (by simp), .yes⟩
  next hp => cases h; exact ⟨_, spans_of_peek hp (by simp), .no⟩
  next n hp => cases h; exact ⟨_, spans_of_peek hp (by simp), .int n⟩
  next d hp => cases h; exact ⟨_, spans_of_peek hp (by simp), .double d⟩
  next raw hp =>
    obtain ⟨s, hs, h⟩ := bind_eq_ok.mp h
    cases h
    obtain ⟨cs, hcs, rfl⟩ := stringOf_eq_ok.mp hs
    exact ⟨_, spans_of_peek hp (by simp), .string hcs⟩
  next n hp =>
    have hname := spans_of_peek hp (by simp)
    split at h
    next hparen =>
      obtain ⟨⟨arguments, after⟩, ha, h⟩ := bind_eq_ok.mp h
      obtain ⟨call, hcall, h⟩ := bind_eq_ok.mp h
      cases h
      obtain ⟨closing, ⟨us, hus, ha⟩, hclose⟩ := ih.elements ha
      have hparen := spans_of_peek hparen (by simp)
      rw [List.drop_drop] at hparen
      have hspan := hname.trans (hparen.trans (hus.trans hclose))
      rcases callOf_ok hcall with ⟨hn, rfl⟩ | ⟨target, field, rfl, rfl, rfl⟩
      · exact ⟨_, hspan, .call hn ha⟩
      · exact ⟨_, hspan, .has ha⟩
    next => cases h; exact ⟨_, hname, .variable n⟩
  next hp =>
    obtain ⟨⟨inner, inside⟩, hi, h⟩ := bind_eq_ok.mp h
    obtain ⟨after, hclose, h⟩ := bind_eq_ok.mp h
    cases h
    obtain ⟨us, hus, hi⟩ := ih.expression hi
    exact ⟨_, (spans_of_peek hp (by simp)).trans (hus.trans (expect_ok hclose)), .paren hi⟩
  next hp =>
    obtain ⟨⟨items, after⟩, hi, h⟩ := bind_eq_ok.mp h
    cases h
    obtain ⟨closing, ⟨us, hus, hi⟩, hclose⟩ := ih.elements hi
    exact ⟨_, (spans_of_peek hp (by simp)).trans (hus.trans hclose), .list hi⟩
  next hp =>
    obtain ⟨⟨found, after⟩, hi, h⟩ := bind_eq_ok.mp h
    cases h
    obtain ⟨closing, ⟨us, hus, hi⟩, hclose⟩ := ih.entries hi
    exact ⟨_, (spans_of_peek hp (by simp)).trans (hus.trans hclose), .map hi⟩
  all_goals cases h

theorem elements_sound (h : elements (fuel + 1) close room ts = .ok (es, rest)) :
    ∃ mid, Derived (.arguments es) ts mid ∧ Spans [.symbol close] mid rest := by
  unfold elements at h
  split at h
  next hp =>
    cases h
    exact ⟨ts, ⟨[], rfl, .noArguments⟩, spans_of_peek hp (by simp)⟩
  next =>
    obtain ⟨last, mid, rfl, ⟨us, hus, hl⟩, hclose⟩ := ih.elementsFrom h
    rcases hclose with hclose | ⟨hcomma, _, hclose⟩
    · exact ⟨mid, ⟨us, hus, .someArguments hl⟩, hclose⟩
    · exact ⟨mid.drop 1, ⟨_, hus.trans (spans_of_peek hcomma (by simp)), .argumentsComma hl⟩, hclose⟩

theorem elementsFrom_sound (h : elementsFrom (fuel + 1) close done room ts = .ok (es, rest)) :
    ∃ last mid, es = done.reverse ++ last ∧ Derived (.items last) ts mid ∧
      Closed close mid rest := by
  obtain ⟨⟨first, after⟩, hf, h⟩ := bind_eq_ok.mp h
  obtain ⟨us, hus, hf⟩ := ih.expression hf
  dsimp only at h
  split at h
  next hc =>
    obtain ⟨last, mid, rfl, ⟨vs, hvs, hl⟩, hclose⟩ := ih.elementsFrom h
    have hcomma := spans_of_peek hc.1 (by simp)
    exact ⟨first :: last, mid, by simp, ⟨_, hus.trans (hcomma.trans hvs), .comma hf hl⟩, hclose⟩
  next =>
    obtain ⟨closed, hclose, h⟩ := bind_eq_ok.mp h
    cases h
    exact ⟨[first], after, by simp, ⟨us, hus, .item hf⟩, closed_of_expect hclose⟩

theorem entries_sound (h : entries (fuel + 1) room ts = .ok (ps, rest)) :
    ∃ mid, Derived (.entries ps) ts mid ∧ Spans [.symbol .rightBrace] mid rest := by
  unfold entries at h
  split at h
  next hp =>
    cases h
    exact ⟨ts, ⟨[], rfl, .noEntries⟩, spans_of_peek hp (by simp)⟩
  next =>
    obtain ⟨last, mid, rfl, ⟨us, hus, hl⟩, hclose⟩ := ih.entriesFrom h
    rcases hclose with hclose | ⟨hcomma, _, hclose⟩
    · exact ⟨mid, ⟨us, hus, .someEntries hl⟩, hclose⟩
    · exact ⟨mid.drop 1, ⟨_, hus.trans (spans_of_peek hcomma (by simp)), .entriesComma hl⟩, hclose⟩

theorem entriesFrom_sound (h : entriesFrom (fuel + 1) found room ts = .ok (ps, rest)) :
    ∃ last mid, ps = found.reverse ++ last ∧ Derived (.pairs last) ts mid ∧
      Closed .rightBrace mid rest := by
  unfold entriesFrom at h
  split at h
  next raw hp =>
    obtain ⟨key, hk, h⟩ := bind_eq_ok.mp h
    obtain ⟨afterColon, hcolon, h⟩ := bind_eq_ok.mp h
    obtain ⟨⟨value, after⟩, hv, h⟩ := bind_eq_ok.mp h
    obtain ⟨cs, hcs, rfl⟩ := stringOf_eq_ok.mp hk
    obtain ⟨us, hus, hv⟩ := ih.expression hv
    have hpair := (spans_of_peek hp (by simp)).trans (expect_ok hcolon)
    dsimp only at h
    split at h
    next hc =>
      obtain ⟨last, mid, rfl, ⟨vs, hvs, hl⟩, hclose⟩ := ih.entriesFrom h
      have hcomma := spans_of_peek hc.1 (by simp)
      exact ⟨_ :: last, mid, by simp, ⟨_, hpair.trans (hus.trans (hcomma.trans hvs)),
        .pairsComma hcs hv hl⟩, hclose⟩
    next =>
      obtain ⟨closed, hclose, h⟩ := bind_eq_ok.mp h
      cases h
      exact ⟨[_], after, by simp, ⟨_, hpair.trans hus, .pair hcs hv⟩, closed_of_expect hclose⟩
  next => cases h

end

theorem sound (fuel : Nat) : Sound fuel := by
  induction fuel with
  | zero => constructor <;> intros <;> contradiction
  | succ fuel ih =>
    exact {
      expression := expression_sound ih
      chain := chain_sound ih
      chainFrom := chainFrom_sound ih
      operand := operand_sound ih
      signed := signed_sound ih
      selection := selection_sound ih
      selectionFrom := selectionFrom_sound ih
      primary := primary_sound ih
      elements := elements_sound ih
      elementsFrom := elementsFrom_sound ih
      entries := entries_sound ih
      entriesFrom := entriesFrom_sound ih }

theorem derives_of_parse {ts : Tokens} {e : Expr} (h : parse ts = .ok e) :
    Derives (.expression e) (sentence ts) := by
  obtain ⟨⟨d, rest⟩, hd, h⟩ := bind_eq_ok.mp h
  dsimp only at h
  split at h
  next hend =>
    cases h
    obtain ⟨us, hus, hd⟩ := (sound _).expression hd
    rwa [sentence_eq hus hend]
  next => cases h

end Parser

theorem Expr.parse_eq_ok {source : String} {e : Expr} :
    Expr.parse source = .ok e ↔ Parser.parse (tokens source) = .ok e := by
  unfold Expr.parse
  split
  next d h => simp [h]
  next h => simp [h]
  next h => simp [h]

end EventStream
